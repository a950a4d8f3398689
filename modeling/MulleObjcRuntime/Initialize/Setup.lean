import Mathlib.Logic.Function.Basic
import MulleObjcRuntime.Impcache.Defs
import MulleObjcRuntime.Initialize.Calls

/-!
# The set up of classes by their first messages

`_mulle_objc_class_setup` in one thread.  While a method runs that a set up has called, it may send further messages, which
set up further classes; the set ups that wait are a stack.

* `Phase`, `SetupFrame` — where the set up of a class is;
* `ClassSetup` — the state bits and caches of a class pair, and which `+initialize` it got;
* `requested` — the class that `_mulle_objc_class_setup` is called for in a step;
* `step` — a message, the return of a method, or the next statement of the innermost set up.
-/

namespace MulleObjcRuntime.Initialize

open Classes Search Impcache

/-- Where the set up of a class is. -/
inductive Phase (P : Type)
  /-- about to call `_mulle_objc_metaclass_setup_superclass` -/
  | metaSuperclass
  /-- about to set up the first of the remaining mixins -/
  | mixins (rest : List P)
  /-- about to set up the superclass -/
  | superclass
  | initializeCacheMeta
  | initializeCacheInfra
  /-- about to search for the next `+initializeSelf` -/
  | initializeSelf (search : SearchArguments P)
  /-- a `+initializeSelf` runs -/
  | runningSelf (method : Method)
  /-- about to search for the `+initialize` of the class -/
  | callInitialize
  /-- a `+initialize` runs, the one of the class or one of a mixin with others that remain -/
  | running (called : Called P) (rest : Option (List P))
  | callMixins
  /-- about to search in the first of the remaining mixins -/
  | mixinCalls (rest : List P)
  | initialCacheMeta
  | initialCacheInfra
  /-- about to set `INITIALIZE_DONE` -/
  | markDone
  /-- about to unlock and to return -/
  | finished

/-- The set up of a class that has not returned. -/
structure SetupFrame (P : Type) where
  pair : P
  phase : Phase P

/-- The cache of a class object, and whether it is marked `CACHE_READY`. -/
structure CacheState where
  callback : ImpcacheCallback
  ready : Bool
deriving DecidableEq, Repr

/-- What the set up of a pair reads and writes.  `calls` are the lists whose `+initialize` has been called for it, in their
order, `returned` those whose `+initialize` has returned. -/
structure ClassSetup (P : Type) where
  infraclass : CacheState
  metaclass : CacheState
  initializing : Bool
  initializeDone : Bool
  calls : List (Called P)
  returned : List (Called P)

/-- A pair nothing has been sent to. -/
def ClassSetup.new (P : Type) : ClassSetup P := ⟨⟨.initial, false⟩, ⟨.initial, false⟩, false, false, [], []⟩

/-- The state of all pairs, and the set ups that have not returned, the innermost first. -/
structure SetupState (P : Type) where
  classes : P → ClassSetup P
  stack : List (SetupFrame P)

/-- Nothing has been sent. -/
def SetupState.start (P : Type) : SetupState P := ⟨fun _ => .new P, []⟩

/-- What happens next: a message to an instance or a class, the return of the method that runs, or the next statement of the
innermost set up. -/
inductive SetupAction (P : Type)
  | message (cls : ClassRef P)
  | methodReturns
  | goOn

/-! ## Caches -/

/-- `_mulle_objc_class_setup_initialize_cache`, which asserts that the initial cache is still there -/
def CacheState.setupInitializeCache (c : CacheState) : Option CacheState :=
  if c.callback = .initial then some { c with callback := .empty } else none

/-- `_mulle_objc_class_setup_initial_cache_if_needed`, which asserts that the empty cache is still there -/
def CacheState.setupInitialCacheIfNeeded (alwaysEmpty : Bool) (c : CacheState) : Option CacheState :=
  if c.ready then some c
  else if alwaysEmpty then some { c with ready := true }
  else if c.callback = .empty then some ⟨.normal, true⟩
  else none

/-! ## The calls of a class -/

section Setup

variable {P : Type} [DecidableEq P] (g : ClassGraph P) (alwaysEmptyCache : ClassRef P → Bool)

/-- `MULLE_OBJC_INITIALIZESELF_METHODID` -/
def initializeSelfMethodid : ℕ := 0x2310585f

/-- The list with the class's own or inherited `+initialize`. -/
def ownCall (p : P) : List (Called P) :=
  if (g.pair p).isMixin then []
  else callInitializeDeinitialize g ⟨p, true⟩ (initializeInheritance g p) initializeMethodid

/-- The mixins `_mulle_objc_infraclass_call_mixins_initialize` looks into, in their order. -/
def mixinsInOrder : ℕ → P → Option (List P)
  | 0, _ => none
  | fuel + 1, owner => do
    guard (¬ (g.pair owner).isMixin)
    let above ← match (g.pair owner).superclass with
      | none => some []
      | some superclass => mixinsInOrder fuel superclass
    return above ++ enumerateMixins g owner

/-- All calls of `+initialize` for a class, its own and those it inherits. -/
def initializeCalls (p : P) : List (Called P) :=
  ownCall g p ++
    if (g.pair p).isMixin then []
    else ((mixinsInOrder g (g.depth p + 1) p).getD []).flatMap (callMixin g initializeMethodid)

/-! ## Steps -/

/-- `_mulle_objc_class_setup` up to its first statement under the lock; a class that is being set up by this thread, or has
been, is left alone. -/
def classSetup (s : SetupState P) (q : P) : SetupState P :=
  if (s.classes q).initializing then s
  else
    { classes := Function.update s.classes q { s.classes q with initializing := true }
      stack := ⟨q, .metaSuperclass⟩ :: s.stack }

/-- `_mulle_objc_infraclass_setup_if_needed`: whether it calls `_mulle_objc_class_setup`. -/
def setupIfNeeded (s : SetupState P) (q : P) : Option P := if (s.classes q).initializeDone then none else some q

/-- The cache of a class object. -/
def ClassSetup.cacheState (c : ClassSetup P) (isMeta : Bool) : CacheState := if isMeta then c.metaclass else c.infraclass

/-- The class `_mulle_objc_class_setup` is called for.  A message gets there through the initial cache, or through the search
for its method. -/
def requested (s : SetupState P) : SetupAction P → Option P
  | .message cls =>
    let c := s.classes cls.pair
    if (c.cacheState cls.isMeta).callback = .initial || !c.initializing then some cls.pair else none
  | .methodReturns => none
  | .goOn =>
    match s.stack with
    | ⟨p, .metaSuperclass⟩ :: _ =>
      -- the superclass of the root metaclass is its infraclass
      (g.superclass ⟨p, true⟩).bind fun superclass => setupIfNeeded s superclass.pair
    | ⟨_, .mixins (mixin :: _)⟩ :: _ => setupIfNeeded s mixin
    | ⟨p, .superclass⟩ :: _ => (g.pair p).superclass.bind (setupIfNeeded s)
    | ⟨_, .mixinCalls (mixin :: _)⟩ :: _ =>
      -- the search in the mixin
      if (s.classes mixin).initializing then none else some mixin
    | _ => none

/-- A call of `+initialize`. -/
def ClassSetup.call (c : ClassSetup P) (called : Called P) : ClassSetup P := { c with calls := c.calls ++ [called] }

/-- The next statement of the set up of `p`: what becomes of its pair, and where it goes on, if it does.  `none` is a failed
assertion, or a method that has not returned. -/
@[simp]
def nextPhase (classes : P → ClassSetup P) (p : P) : Phase P → Option (ClassSetup P × Option (Phase P))
  | .metaSuperclass => some (classes p, some (.mixins (enumerateMixins g p)))
  | .mixins (_ :: rest) => some (classes p, some (.mixins rest))
  | .mixins [] => some (classes p, some .superclass)
  | .superclass => some (classes p, some .initializeCacheMeta)
  | .initializeCacheMeta =>
    (classes p).metaclass.setupInitializeCache.map fun metaclass =>
      ({ classes p with metaclass }, some .initializeCacheInfra)
  | .initializeCacheInfra =>
    (classes p).infraclass.setupInitializeCache.map fun infraclass =>
      ({ classes p with infraclass }, some (.initializeSelf (.makeDefault initializeSelfMethodid)))
  | .initializeSelf search =>
    if (g.pair p).isMixin then some (classes p, some .callInitialize)
    else
      match returned (searchMethod g [] ⟨p, true⟩ search (dontInheritSuperclass ||| dontInheritProtocols)) with
      | none => some (classes p, some .callInitialize)
      | some h => some (classes p, some (.runningSelf h.method))
  | .runningSelf _ => none
  | .callInitialize =>
    if (g.pair p).isMixin then some (classes p, some .initialCacheMeta)
    else
      match ownCall g p with
      | [] => some (classes p, some .callMixins)
      | called :: _ => some ((classes p).call called, some (.running called none))
  | .running _ _ => none
  | .callMixins => (mixinsInOrder g (g.depth p + 1) p).map fun mixins => (classes p, some (.mixinCalls mixins))
  | .mixinCalls [] => some (classes p, some .initialCacheMeta)
  | .mixinCalls (mixin :: rest) =>
    if !(classes mixin).initializing then some (classes p, some (.mixinCalls (mixin :: rest)))
    else
      match callMixin g initializeMethodid mixin with
      | [] => some (classes p, some (.mixinCalls rest))
      | called :: _ => some ((classes p).call called, some (.running called (some rest)))
  | .initialCacheMeta =>
    ((classes p).metaclass.setupInitialCacheIfNeeded (alwaysEmptyCache ⟨p, true⟩)).map fun metaclass =>
      ({ classes p with metaclass }, some .initialCacheInfra)
  | .initialCacheInfra =>
    ((classes p).infraclass.setupInitialCacheIfNeeded (alwaysEmptyCache ⟨p, false⟩)).map fun infraclass =>
      ({ classes p with infraclass }, some .markDone)
  | .markDone => some ({ classes p with initializeDone := true }, some .finished)
  | .finished => some (classes p, none)

/-- A method runs, or no set up. -/
def canSend (s : SetupState P) : Bool :=
  match s.stack with
  | [] => true
  | ⟨_, .runningSelf _⟩ :: _ => true
  | ⟨_, .running _ _⟩ :: _ => true
  | _ => false

/-- A step before the class that it may request is set up. -/
def advanceSetup (s : SetupState P) : SetupAction P → Option (SetupState P)
  | .message _ => if canSend s then some s else none
  | .methodReturns =>
    match s.stack with
    | ⟨p, .runningSelf method⟩ :: below => some { s with stack := ⟨p, .initializeSelf (.makePrevious method)⟩ :: below }
    | ⟨p, .running called rest⟩ :: below =>
      let next := match rest with
        | none => .callMixins
        | some mixins => .mixinCalls mixins
      some
        { classes := Function.update s.classes p
            { s.classes p with returned := (s.classes p).returned ++ [called] }
          stack := ⟨p, next⟩ :: below }
    | _ => none
  | .goOn =>
    match s.stack with
    | [] => none
    | ⟨p, phase⟩ :: below =>
      (nextPhase g alwaysEmptyCache s.classes p phase).map fun (c, next) =>
        { classes := Function.update s.classes p c
          stack := (next.map (SetupFrame.mk p)).toList ++ below }

/-- One step. -/
def setupStep (s : SetupState P) (a : SetupAction P) : Option (SetupState P) :=
  (advanceSetup g alwaysEmptyCache s a).map fun s' =>
    match requested g s a with
    | none => s'
    | some q => classSetup s' q

end Setup

end MulleObjcRuntime.Initialize
