import MulleObjcRuntime.Search.Previous
import MulleObjcRuntime.Lib.AnchoredChain
import MulleObjcRuntime.Search.Overridden
import MulleObjcRuntime.Search.Chain
import MulleObjcRuntime.Search.Super
import MulleObjcRuntime.Classes.Universe
import MulleObjcRuntime.Lib.Closure
import MulleObjcRuntime.Lib.KeyedQueue
import MulleObjcRuntime.Load.Defs
import MulleObjcRuntime.Load.Dependencies
import MulleObjcRuntime.Load.Install
import MulleObjcRuntime.Load.Cascade
import MulleObjcRuntime.Load.CallQueue
import MulleObjcRuntime.Load.Waiters
import MulleObjcRuntime.Load.Order
import MulleObjcRuntime.Load.Overrides
import MulleObjcRuntime.Impcache.Calls
import MulleObjcRuntime.Lib.OpenAddressing
import MulleObjcRuntime.Impcache.Table
import MulleObjcRuntime.Impcache.States
import MulleObjcRuntime.Impcache.Agreement
import MulleObjcRuntime.Impcache.Map
import MulleObjcRuntime.Impcache.Fillrate
import MulleObjcRuntime.Impcache.Adders
import MulleObjcRuntime.Impcache.Crowd
import MulleObjcRuntime.Lib.Runs
import MulleObjcRuntime.Retain.Defs
import MulleObjcRuntime.Retain.Lifetime
import MulleObjcRuntime.Retain.Accounting
import MulleObjcRuntime.Lib.Alignment
import MulleObjcRuntime.Signature.Defs
import MulleObjcRuntime.Signature.Types
import MulleObjcRuntime.Signature.Parse
import MulleObjcRuntime.Signature.Size
import MulleObjcRuntime.Initialize.Calls
import MulleObjcRuntime.Initialize.Mirror
import MulleObjcRuntime.Invalidation.Methodlists
import MulleObjcRuntime.Invalidation.Threads
import MulleObjcRuntime.Invalidation.Fresh
import MulleObjcRuntime.Invalidation.Undisturbed
import MulleObjcRuntime.Initialize.Setup
import MulleObjcRuntime.Lib.ActivationStack
import MulleObjcRuntime.Initialize.Ordering
import MulleObjcRuntime.Lib.TaggedWord
import MulleObjcRuntime.Taggedpointer.Defs
import MulleObjcRuntime.Taggedpointer.RoundTrip
import MulleObjcRuntime.Bang.Defs
import MulleObjcRuntime.Bang.Lives
import MulleObjcRuntime.Lib.OwnedKeys
import MulleObjcRuntime.Registry.Classcache
import MulleObjcRuntime.Registry.Coherence
import MulleObjcRuntime.Registry.Owners
import MulleObjcRuntime.Registry.Teardown
import MulleObjcRuntime.Signature.Grammar
import MulleObjcRuntime.Signature.Reading
import MulleObjcRuntime.Signature.Stepping
import MulleObjcRuntime.Signature.Robust
import MulleObjcRuntime.Lib.Iterators
import MulleObjcRuntime.Signature.Compatible
import MulleObjcRuntime.Dispatch.Calls
import MulleObjcRuntime.Objects.Classpair
import MulleObjcRuntime.Objects.Staticinstances
import MulleObjcRuntime.Objects.PropertyValue
import MulleObjcRuntime.Objects.PropertyCstring
import MulleObjcRuntime.Search.Clobberchain
import MulleObjcRuntime.Search.Collect
import MulleObjcRuntime.Search.Hidden
import MulleObjcRuntime.Search.Specific
import MulleObjcRuntime.Search.Retry
import MulleObjcRuntime.Standardimps.Runs
import MulleObjcRuntime.Signature.Lenient
import MulleObjcRuntime.Lib.Nesting
import MulleObjcRuntime.Signature.Equal
import MulleObjcRuntime.Lib.Placement
import MulleObjcRuntime.Signature.Frame
import MulleObjcRuntime.Signature.Metaabi
import MulleObjcRuntime.Registry.Placeholders
import MulleObjcRuntime.Registry.Posing
import MulleObjcRuntime.Lib.Bytes
import MulleObjcRuntime.Lib.BinaryFloat
import MulleObjcRuntime.Signature.Promotion
import MulleObjcRuntime.Search.Listwalk
import MulleObjcRuntime.Lib.References
import MulleObjcRuntime.Invalidation.Aliases
import MulleObjcRuntime.Search.ResultFrame
import MulleObjcRuntime.Properties.Find
import MulleObjcRuntime.Uniqueids.Ownership
import MulleObjcRuntime.Uniqueids.Membership
import MulleObjcRuntime.Instances.Layout
import MulleObjcRuntime.Signature.Levels
import MulleObjcRuntime.Descriptors.Order
import MulleObjcRuntime.Metaabi.Cursors
import MulleObjcRuntime.Hashmap.Walk
import MulleObjcRuntime.Properties.Accessors
import MulleObjcRuntime.Properties.Dynamic
import MulleObjcRuntime.Instances.Reuse
import MulleObjcRuntime.Caches.Fastmethods
import MulleObjcRuntime.Lib.IntBisection
import MulleObjcRuntime.Classes.Methodsearch
import MulleObjcRuntime.Uniqueids.Find
import MulleObjcRuntime.Objects.Ivar
import MulleObjcRuntime.Impcache.Sizing
import MulleObjcRuntime.Impcache.Pivot
import MulleObjcRuntime.Signature.Consumption
import MulleObjcRuntime.Lib.Reclamation
import MulleObjcRuntime.Impcache.Reclaim
import MulleObjcRuntime.Registry.Reclaim
import MulleObjcRuntime.Kvccache.Defs
import MulleObjcRuntime.Kvccache.History
import MulleObjcRuntime.Lib.OnceGuard
import MulleObjcRuntime.Universes.Table
import MulleObjcRuntime.Universes.Agreement
import MulleObjcRuntime.Lib.Walking
import MulleObjcRuntime.Members.Walks
import MulleObjcRuntime.Members.Search
import MulleObjcRuntime.Members.Conformance
import MulleObjcRuntime.Reflect.Walk
import MulleObjcRuntime.Lib.NearestBelow
import MulleObjcRuntime.Reflect.Symbolizer
import MulleObjcRuntime.Reflect.Snprint
import MulleObjcRuntime.Lib.CasLoop
import MulleObjcRuntime.Classes.Statebits
import MulleObjcRuntime.Loadchecks.Defs
import MulleObjcRuntime.Loadchecks.Threads
import MulleObjcRuntime.Caches.Taocheck
import MulleObjcRuntime.Caches.Objects
import MulleObjcRuntime.Caches.Hits
import MulleObjcRuntime.Lib.LinkedStacks
import MulleObjcRuntime.Exceptions.Defs
import MulleObjcRuntime.Exceptions.Delivery
import MulleObjcRuntime.Exceptions.Matching
