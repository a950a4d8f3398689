import MulleObjcRuntime.Impcache.Calls
import MulleObjcRuntime.Invalidation.Methodlists
import MulleObjcRuntime.Lib.Interleaving

/-!
# Threads that look up methods and threads that add method lists

* `Shared` — the classes with their method lists, and all caches a class has ever had;
* `Local` — where a thread is: in a lookup, behind an added method list, or in the set up of a class's first cache;
* `Local.begin`, `Local.advance` — a new operation, and the next access of a running one;
* `threadsStep` — one step of one thread.

The search in the method lists is one access, and so is the addition of an entry to a cache.  A search does not set up its
class: the set up is an operation of its own.
-/

namespace MulleObjcRuntime.Invalidation

open Classes Search Impcache Lib.Interleaving

/-- What the threads do not change: the configuration, the class objects in the universe's class table, the forward
method in its class defaults and two state bits of the classes. -/
structure Runtime (P : Type) extends Config where
  classes : List (ClassRef P)
  classdefaultsForwardmethod : Option Method
  alwaysEmptyCache : ClassRef P → Bool
  isNotThreadAffine : ClassRef P → Bool

/-- What the threads share of a class object: every cache it has had, under its number, `pivot` the one in force.  The cache
with the number `0` is the empty one of the universe. -/
structure ClassCaches where
  cache : ℕ → Cache
  count : ℕ
  pivot : ℕ
  cacheReady : Bool
  forwardmethod : Option Method

/-- A class without a cache of its own. -/
def ClassCaches.new : ClassCaches := ⟨fun _ => zeroCache, 1, 0, false, none⟩

/-- `_mulle_objc_class_get_impcache_cache_atomic` -/
def ClassCaches.current (c : ClassCaches) : Cache := c.cache c.pivot

/-- A cache in place of the one in force. -/
def ClassCaches.install (c : ClassCaches) (new : Cache) : ClassCaches :=
  { c with cache := Function.update c.cache c.count new, count := c.count + 1, pivot := c.count }

/-- What the threads share. -/
structure Shared (P : Type) where
  graph : ClassGraph P
  cachecount_1 : ℕ
  classes : ClassRef P → ClassCaches

/-- Where `_mulle_objc_class_convenient_swap_impcache` is: about to size the new cache by the one in force, about to read
which one that is, about to compare and swap. -/
inductive Swap
  | resize (strategy : CacheSizing)
  | reread (new : Cache)
  | exchange (new : Cache) (old : ℕ)

/-- Where a thread is. -/
inductive Local (P : Type)
  | idle
  /-- about to search the method lists -/
  | searching (cls : ClassRef P) (methodid : ℕ) (mode : LookupMode)
  /-- nothing was found: about to read `cls->forwardmethod` -/
  | needsForward (cls : ClassRef P) (methodid : ℕ) (mode : LookupMode)
  | searchingForward (cls : ClassRef P) (methodid : ℕ) (mode : LookupMode)
  | storingForward (cls : ClassRef P) (methodid : ℕ) (mode : LookupMode) (method : Method)
  /-- at the beginning of `_mulle_objc_class_fill_impcache_method` -/
  | filling (cls : ClassRef P) (methodid : ℕ) (method : Method)
  /-- about to read the current cache -/
  | reading (cls : ClassRef P) (methodid : ℕ) (method : Method)
  | growing (cls : ClassRef P) (methodid : ℕ) (method : Method) (swap : Swap)
  /-- about to add the entry to the cache that was read -/
  | adding (cls : ClassRef P) (methodid : ℕ) (method : Method) (cache : ℕ)
  /-- about to read `cachecount_1` -/
  | added (list : MethodList)
  /-- about to look at the first of the remaining classes -/
  | walking (list : MethodList) (rest : List (ClassRef P))
  /-- about to read the cache for the first of the remaining methods -/
  | visiting (list : MethodList) (cls : ClassRef P) (methods : List Method) (rest : List (ClassRef P))
  /-- about to look for a method in the cache that was read -/
  | probing (list : MethodList) (cls : ClassRef P) (methodid : ℕ) (methods : List Method) (rest : List (ClassRef P))
      (cache : ℕ)
  | swapping (list : MethodList) (cls : ClassRef P) (swap : Swap) (rest : List (ClassRef P))
  /-- about to swap in the first cache -/
  | installing (cls : ClassRef P) (new : Cache)
  /-- about to set `CACHE_READY` -/
  | marking (cls : ClassRef P)

/-- What an idle thread can turn to: a lookup, an added method list or the set up of a class's first cache. -/
inductive Command (P : Type)
  | lookup (cls : ClassRef P) (methodid : ℕ) (mode : LookupMode)
  | addMethodlist (cls : ClassRef P) (list : MethodList)
  | setupInitialCache (cls : ClassRef P)

variable {P : Type} [DecidableEq P]

/-- Another state of a class. -/
def Shared.setClass (s : Shared P) (cls : ClassRef P) (c : ClassCaches) : Shared P :=
  { s with classes := Function.update s.classes cls c }

section Step

variable (rt : Runtime P)

/-- `_mulle_objc_class_search_forwardmethod` -/
def searchForwardmethod (g : ClassGraph P) (cls : ClassRef P) : Option Method :=
  (defaultsearchMethod g cls forwardMethodid).or rt.classdefaultsForwardmethod

/-- The next access of a swap.  What is lost when someone else was faster is not told. -/
def Swap.advance (c : ClassCaches) : Swap → ClassCaches × Option Swap
  | .resize strategy => (c, some (.reread (growWithStrategy rt.shift c.current strategy)))
  | .reread new => (c, some (.exchange new c.pivot))
  | .exchange new old => (if c.pivot = old then c.install new else c, none)

/-- What a lookup does with the method it has found. -/
def afterSearch (cls : ClassRef P) (methodid : ℕ) (mode : LookupMode) (method : Method) : Local P :=
  if mode.nofill then .idle else .filling cls methodid method

/-- What a lookup does without a method; `nofail` ends it in the runtime's failure. -/
def notFound (mode : LookupMode) : Option (Local P) := if mode.nofail then none else some .idle

/-- Whether a method is kept out of the cache: no cache, no caching at all, or a check of each call. -/
def keptOut (cls : ClassRef P) (method : Method) : Bool :=
  rt.alwaysEmptyCache cls || rt.debugs universeCallTraceBit ||
    (rt.debugs universeCallTaoBit && !rt.isNotThreadAffine cls && methodIsThreadaffine method)

/-- `_mulle_objc_class_is_forwardimplementation` -/
def isForward (c : ClassCaches) (imp : ℕ) : Bool :=
  match c.forwardmethod with
  | none => false
  | some method => method.implementation == imp

/-- The beginning of an operation.  Assertions want sane ids. -/
def begin (s : Shared P) : Command P → Option (Shared P × Local P)
  | .lookup cls methodid mode =>
    if methodid = 0 then none
    else if mode.noprobe then some (s, .searching cls methodid mode)
    else
      let cache := (s.classes cls).current
      match probeLoop rt.shift cache methodid cache.entries.length methodid with
      | none => none
      | some none => some (s, .searching cls methodid mode)
      | some (some imp) =>
        if imp = 0 then some (s, .searching cls methodid mode)
        else if mode.noforward && mode.nofail && isForward (s.classes cls) imp then none
        else some (s, .idle)
  | .addMethodlist cls list =>
    if list.methods.all fun m => m.methodid != 0 then
      some ({ s with graph := addMethodlist s.graph cls list }, .added list)
    else none
  | .setupInitialCache cls =>
    if (s.classes cls).cacheReady then none
    else if rt.alwaysEmptyCache cls then some (s, .marking cls)
    else
      some ({ s with cachecount_1 := s.cachecount_1 + 1 }, .installing cls (impcacheNew rt.shift rt.initialCacheSize))

/-- The next access of a thread.  `none` is no value of the source: an assertion fails, the runtime gives up, or a probe goes
around a full cache forever. -/
@[simp]
def advance (s : Shared P) : Local P → Option (Shared P × Local P)
  | .idle => none
  | .searching cls methodid mode =>
    match defaultsearchMethod s.graph cls methodid with
    | some method => some (s, afterSearch cls methodid mode method)
    | none => if mode.lazyforward then some (s, .needsForward cls methodid mode) else (notFound mode).map (s, ·)
  | .needsForward cls methodid mode =>
    match (s.classes cls).forwardmethod with
    | some method => some (s, afterSearch cls methodid mode method)
    | none => some (s, .searchingForward cls methodid mode)
  | .searchingForward cls methodid mode =>
    match searchForwardmethod rt s.graph cls with
    | some method => some (s, .storingForward cls methodid mode method)
    | none => (notFound mode).map (s, ·)
  | .storingForward cls methodid mode method =>
    some (s.setClass cls { s.classes cls with forwardmethod := some method }, afterSearch cls methodid mode method)
  | .filling cls methodid method =>
    some (s, if keptOut rt cls method || !(s.classes cls).cacheReady then .idle else .reading cls methodid method)
  | .reading cls methodid method =>
    if method.implementation = 0 then none
    else if shouldGrow (s.classes cls).current rt.fillrate then
      some (s, .growing cls methodid method (.resize .grow))
    else some (s, .adding cls methodid method (s.classes cls).pivot)
  | .growing cls methodid method swap =>
    let (c, next) := swap.advance rt (s.classes cls)
    match next with
    | some swap => some (s.setClass cls c, .growing cls methodid method swap)
    | none => some (s.setClass cls c, .reading cls methodid method)
  | .adding cls methodid method cache =>
    let c := s.classes cls
    match addFunctionpointerEntry rt.shift (c.cache cache).entries.length (c.cache cache) method.implementation methodid with
    | none => none
    | some none => some (s, .reading cls methodid method)
    | some (some filled) => some (s.setClass cls { c with cache := Function.update c.cache cache filled }, .idle)
  | .added list =>
    some (s, if list.methods.isEmpty || s.cachecount_1 == 0 then .idle else .walking list rt.classes)
  | .walking _ [] => some (s, .idle)
  | .walking list (cls :: rest) =>
    some (s, if (s.classes cls).cacheReady then .visiting list cls list.methods rest else .walking list rest)
  | .visiting list _ [] rest => some (s, .walking list rest)
  | .visiting list cls (method :: methods) rest =>
    some (s, if rt.alwaysEmptyCache cls then .visiting list cls methods rest
      else .probing list cls method.methodid methods rest (s.classes cls).pivot)
  | .probing list cls methodid methods rest cache =>
    let cache := (s.classes cls).cache cache
    if cache.n = 0 then some (s, .visiting list cls methods rest)
    else
      match probeEntryoffset rt.shift cache methodid cache.entries.length methodid with
      | none => none
      | some offset =>
        some (s, if (cache.entryAt rt.shift offset).uniqueid = 0 then .visiting list cls methods rest
          else .swapping list cls (.resize .stagnate) rest)
  | .swapping list cls swap rest =>
    let (c, next) := swap.advance rt (s.classes cls)
    match next with
    | some swap => some (s.setClass cls c, .swapping list cls swap rest)
    | none => some (s.setClass cls c, .walking list rest)
  | .installing cls new =>
    if (s.classes cls).pivot = 0 then some (s.setClass cls ((s.classes cls).install new), .marking cls) else none
  | .marking cls => some (s.setClass cls { s.classes cls with cacheReady := true }, .idle)

end Step

/-- The threads' states. -/
abbrev ThreadsState (ι P : Type) := Threads ι (Shared P) (Local P)

/-- Nobody has begun anything, and no class has a cache of its own. -/
def threadsStart (ι : Type) (g : ClassGraph P) : ThreadsState ι P := ⟨⟨g, 0, fun _ => .new⟩, fun _ => .idle⟩

/-- One step of the thread `i`: an idle thread takes up a command, any other goes on. -/
def threadsStep {ι : Type} [DecidableEq ι] (rt : Runtime P) (s : ThreadsState ι P) :
    ι × Option (Command P) → Option (ThreadsState ι P)
  | (i, some command) =>
    match s.thread i with
    | .idle => (begin rt s.shared command).map fun (shared, l) => s.moved i shared l
    | _ => none
  | (i, none) => (advance rt s.shared (s.thread i)).map fun (shared, l) => s.moved i shared l

end MulleObjcRuntime.Invalidation
