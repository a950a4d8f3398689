import MulleObjcRuntime.Impcache.Agreement
import MulleObjcRuntime.Impcache.Fillrate
import MulleObjcRuntime.Invalidation.Methodlists
import MulleObjcRuntime.Lib.Runs
import MulleObjcRuntime.Load.Install

/-!
# Calls and loads in one runtime

The classes of a universe, each with its own method cache and fast method table:

* `Setting` — what dispatch depends on besides the classes;
* `Runtime` — the loaded classes and what each of them has cached;
* `didaddMethodlist` — the walk over all classes that throws caches away;
* `load` — an item becomes a part of the universe;
* `Operation`, `step` — calls, super calls, lookups, set ups and loads;
* `freshMethod`, `freshSupermethod` — what a search without any cache comes to.

An operation of the program that ends the process, by a failed assertion or because a method is missing, is refused.
A `+initialize` that does something is the two steps around what it does; where a call sets up the class itself, its
`+initialize` does nothing.  A load takes the items whose dependencies are met.
-/

namespace MulleObjcRuntime.Dispatch

open Classes Impcache

/-- The methodids with a place in the fast method table of every runtime. -/
def predefinedFastmethods : List (ℕ × ℕ) :=
  [(0xab1bb16b, 0), (0x6b1d3731, 1), (0x9de99ffa, 2), (0x9929eb3d, 3), (0xb86d9920, 4), (0x8c9fa1fc, 5)]

/-- What dispatch depends on besides the classes: the configuration of the caches, what the loader relies on, the
superids with the class and the method they stand for, `classdefaults.forwardmethod` and the fast methods.  The cases
of `mulle_objc_get_fastmethodtable_index` return different places. -/
structure Setting extends Config where
  load : Load.Environment
  superids : ℕ → Option (ℕ × ℕ)
  classdefaultsForwardmethod : Option Method
  fcs : Bool
  fastmethodhashes : List (ℕ × ℕ)
  forwardmethod_ne_zero : ∀ method ∈ classdefaultsForwardmethod, method.implementation ≠ 0
  fastmethods_nodup : ((predefinedFastmethods ++ fastmethodhashes).map Prod.snd).Nodup

/-- The loaded classes, what each of their class objects has cached, and `cachecount_1`, the number of caches that
have been set up. -/
structure Runtime where
  loaded : Universe
  states : ClassRef ℕ → ClassState
  cachecount : ℕ

/-- Before anything is loaded. -/
def Runtime.initial (classdefaults : ℕ) : Runtime := ⟨Universe.initial classdefaults, fun _ => ClassState.new, 0⟩

/-- `mulle_objc_class_search_method` for a method behind a class, on a class that is set up. -/
def supersearchMethod (g : ClassGraph ℕ) (cls : ClassRef ℕ) (methodid classid : ℕ) : Option Method :=
  (Search.returned (Search.searchMethod g [] cls (.makeSuper methodid classid) (g.inheritance cls))).map Search.Hit.method

variable (p : Setting)

/-- What the calls on one class rely on. -/
def environment (cls : ClassRef ℕ) : Environment Universe where
  toConfig := p.toConfig
  defaultsearch u methodid := Invalidation.defaultsearchMethod u.graph cls methodid
  supersearch u methodid classid := supersearchMethod u.graph cls methodid classid
  lookupSuper _ superid := p.superids superid
  classdefaultsForwardmethod _ := p.classdefaultsForwardmethod
  runInitialize u := u
  fcs := p.fcs
  fastmethodhashes := p.fastmethodhashes

/-- As many rounds as any loop over the cache of a class needs, also right after its set up. -/
def rounds (cls : ClassState) : ℕ := max cls.cache.entries.length (impcacheSize p.initialCacheSize) + 1

/-! ## What is to be found -/

section Fresh

variable (u : Universe) (cls : ClassRef ℕ)

/-- The forward method that `_mulle_objc_class_search_forwardmethod` finds. -/
def freshForwardmethod : Option Method :=
  (Invalidation.defaultsearchMethod u.graph cls forwardMethodid).or p.classdefaultsForwardmethod

/-- The method of a call when nothing is cached. -/
def freshMethod (methodid : ℕ) : Option Method :=
  (Invalidation.defaultsearchMethod u.graph cls methodid).or (freshForwardmethod p u cls)

/-- The method of a super call when nothing is cached. -/
def freshSupermethod (methodid classid : ℕ) : Option Method :=
  (supersearchMethod u.graph cls methodid classid).or (freshForwardmethod p u cls)

/-- The implementation a call gets to, or that there is none. -/
def answer (methodid : ℕ) : Option Method → Except Stop ℕ
  | some method => .ok method.implementation
  | none => .error (.methodNotFound methodid)

end Fresh

/-! ## Throwing caches away -/

/-- `_mulle_objc_class_invalidate_impcache`: once the cache has been thrown away it is done. -/
def invalidateImpcache (cls : ClassState) : List Method → Except Stop ClassState
  | [] => .ok cls
  | method :: methods =>
    match invalidateImpcacheentry p.toConfig (rounds p cls) cls method.methodid with
    | .error stop => .error stop
    | .ok (true, cls) => .ok cls
    | .ok (false, cls) => invalidateImpcache cls methods

/-- `invalidate_caches_callback`, with `_mulle_objc_class_invalidate_caches_default` for the method cache. -/
def invalidateCaches (list : MethodList) (cls : ClassState) : Except Stop ClassState :=
  if !cls.cacheReady then .ok cls else invalidateImpcache p cls list.methods

/-- The class objects that `mulle_objc_universe_walk_classes` comes to. -/
def walkedClasses (u : Universe) : List (ClassRef ℕ) :=
  (List.range u.pairs.length).flatMap fun i => [⟨i, false⟩, ⟨i, true⟩]

/-- The walk that throws caches away. -/
def walkClasses (list : MethodList) (states : ClassRef ℕ → ClassState) (walked : List (ClassRef ℕ)) :
    Except Stop (ClassRef ℕ → ClassState) :=
  walked.foldlM (fun states cls => (invalidateCaches p list (states cls)).map fun new => Function.update states cls new)
    states

/-- `mulle_objc_class_didadd_methodlist`: without a cache there is nothing to do. -/
def didaddMethodlist (rt : Runtime) (list : MethodList) : Except Stop Runtime :=
  if list.methods = [] ∨ rt.cachecount = 0 then .ok rt
  else (walkClasses p list rt.states (walkedClasses rt.loaded)).map fun states => { rt with states }

/-! ## Loading -/

/-- The method lists an item adds, in the order they are added. -/
def methodlists : Load.LoadItem → List MethodList
  | .loadclass info => info.base.classmethods.toList ++ info.base.instancemethods.toList
  | .loadmixin info => info.base.classmethods.toList ++ info.base.instancemethods.toList
  | .loadcategory info => info.instancemethods.toList ++ info.classmethods.toList

/-- What `_mulle_objc_class_add_methodlist_nocache` asserts of the ids, and that a method has an implementation. -/
def Sane (item : Load.LoadItem) : Prop :=
  ∀ list ∈ methodlists item, ∀ method ∈ list.methods, method.methodid ≠ 0 ∧ method.implementation ≠ 0

instance (item : Load.LoadItem) : Decidable (Sane item) := by
  unfold Sane
  infer_instance

/-- The item becomes a part of the universe: list by list the caches are thrown away, then the mixins are added. -/
def load (rt : Runtime) (item : Load.LoadItem) : Option Runtime := do
  let loaded ← (item.install p.load rt.loaded).toOption
  let rt ← ((methodlists item).foldlM (didaddMethodlist p) rt).toOption
  return { rt with loaded }

/-! ## Operations -/

/-- `_mulle_objc_class_lookup_superimplementation_inline_nofail`. -/
def lookupSuperimplementationNofail {W : Type} (env : Environment W) (fuel superid : ℕ) (s : State W) : Selection W :=
  match probeLoop env.shift s.cls.cache superid fuel superid with
  | none => .error .outOfFuel
  | some none => refreshed env (supersearchMethodNofail env) fuel superid s
  | some (some imp) =>
    if imp = 0 then refreshed env (supersearchMethodNofail env) fuel superid s else .ok (imp, s)

/-- What the program does; the calls are on objects of the class. -/
inductive Operation
  | call (path : MethodCall) (cls : ClassRef ℕ) (methodid : ℕ)
  | callSuper (path : SuperCall) (cls : ClassRef ℕ) (superid : ℕ)
  | lookup (mode : LookupMode) (cls : ClassRef ℕ) (methodid : ℕ)
  | lookupSuper (cls : ClassRef ℕ) (superid : ℕ)
  | beginInitialize (cls : ClassRef ℕ)
  | endInitialize (cls : ClassRef ℕ)
  | load (item : Load.LoadItem) (sane : Sane item)

/-- The class before its `+initialize`. -/
def beginInitialize (cls : ClassState) : Option ClassState :=
  if cls.initializing then none else some (setupInitializeCache { cls with initializing := true })

/-- The class after its `+initialize`. -/
def endInitialize (cls : ClassState) : Option ClassState :=
  if cls.callback = .initial then none else some (setupInitialCacheIfNeeded p.toConfig cls)

/-- The runtime with a class in a new state; a first cache is counted. -/
def Runtime.store (rt : Runtime) (cls : ClassRef ℕ) (new : ClassState) : Runtime where
  loaded := rt.loaded
  states := Function.update rt.states cls new
  cachecount := if (rt.states cls).callback ≠ .normal ∧ new.callback = .normal then rt.cachecount + 1 else rt.cachecount

/-- The state in which the calls on a class begin. -/
def Runtime.focus (rt : Runtime) (cls : ClassRef ℕ) : State Universe := ⟨rt.loaded, rt.states cls⟩

/-- A call on a registered class that returns. -/
def returning {α : Type} (rt : Runtime) (cls : ClassRef ℕ) (r : Except Stop (α × State Universe)) : Option Runtime :=
  if cls.pair < rt.loaded.pairs.length then r.toOption.map fun (_, s) => rt.store cls s.cls else none

/-- One operation. -/
@[simp]
def step (rt : Runtime) : Operation → Option Runtime
  | .call path cls methodid =>
    if methodid = 0 then none
    else returning rt cls
      (path.run (environment p cls) (rounds p (rt.states cls)) .object methodid (rt.focus cls))
  | .callSuper path cls superid =>
    if superid = 0 then none
    else returning rt cls
      (path.run (environment p cls) (rounds p (rt.states cls)) .object superid (rt.focus cls))
  | .lookup mode cls methodid =>
    if methodid = 0 then none
    else returning rt cls
      (lookupImplementationMode (environment p cls) (rounds p (rt.states cls)) mode methodid (rt.focus cls))
  | .lookupSuper cls superid =>
    if superid = 0 then none
    else returning rt cls
      (lookupSuperimplementationNofail (environment p cls) (rounds p (rt.states cls)) superid (rt.focus cls))
  | .beginInitialize cls =>
    if cls.pair < rt.loaded.pairs.length then (beginInitialize (rt.states cls)).map (rt.store cls) else none
  | .endInitialize cls =>
    if cls.pair < rt.loaded.pairs.length then (endInitialize p (rt.states cls)).map (rt.store cls) else none
  | .load item _ => load p rt item

lemma plainFillrate_le : 0 ≤ 90 := Nat.zero_le 90

lemma plainForwardmethod_ne_zero : ∀ method ∈ (none : Option Method), method.implementation ≠ 0 := by simp

lemma predefinedFastmethods_nodup : ((predefinedFastmethods ++ []).map Prod.snd).Nodup := by decide

/-- Caches of the smallest size, no forward method and no loader. -/
def plainSetting : Setting where
  shift := 4
  fillrate := 0
  fillrate_le := plainFillrate_le
  initialCacheSize := 4
  methodCall := 0
  load := ⟨fun _ => 0, fun _ => none, false, 0⟩
  superids _ := none
  classdefaultsForwardmethod := none
  fcs := true
  fastmethodhashes := []
  forwardmethod_ne_zero := plainForwardmethod_ne_zero
  fastmethods_nodup := predefinedFastmethods_nodup

end MulleObjcRuntime.Dispatch
