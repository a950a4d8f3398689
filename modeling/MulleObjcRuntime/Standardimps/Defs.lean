import MulleObjcRuntime.Dispatch.Clearing

/-!
# The mask of the standard implementations

Every infraclass has a bit for each method family, which says that the family still has its standard implementation:

* `Foundation` — the standard implementations with their selectors;
* `computeStandardimpmask` — the bits that a lookup for each selector yields;
* `invalidateStandardimpmask`, `didaddMethodlist` — they are computed again when a method list has been added;
* `Operation`, `step` — set ups, lookups and additions.

The universe is that of `Dispatch`, with a mask for each pair.  A lookup on a class that is not set up is the steps of
its set up, and then the lookup.
-/

namespace MulleObjcRuntime.Standardimps

open Classes Impcache Dispatch

/-! ## Adding a method list -/

/-- What `_mulle_objc_class_add_methodlist_nocache` asserts of the ids, and that a method has an implementation. -/
def SaneList (list : MethodList) : Prop := ∀ method ∈ list.methods, method.methodid ≠ 0 ∧ method.implementation ≠ 0

instance (list : MethodList) : Decidable (SaneList list) := by
  unfold SaneList
  infer_instance

/-- A pair with one method list more. -/
def addToPair (isMeta : Bool) (list : MethodList) (pair : Pair) : Pair :=
  { pair with toClassPair := Invalidation.addToPair pair.toClassPair isMeta list }

lemma classid_addToPair (isMeta : Bool) (list : MethodList) (pair : Pair) :
    (addToPair isMeta list pair).classid = pair.classid := by
  cases isMeta <;> rfl

lemma superclass_addToPair (isMeta : Bool) (list : MethodList) (pair : Pair) :
    (addToPair isMeta list pair).superclass = pair.superclass := by
  cases isMeta <;> rfl

/-- `_mulle_objc_class_add_methodlist_nocache`. -/
def addMethodlist (u : Universe) (cls : ClassRef ℕ) (list : MethodList) : Universe :=
  u.modify cls.pair (addToPair cls.isMeta list) (classid_addToPair cls.isMeta list) (superclass_addToPair cls.isMeta list)

/-! ## The mask -/

/-- The standard implementations in a `_mulle_objc_foundation`, by method family, up to the sixteenth. -/
structure Foundation where
  standardimps : ℕ → ℕ
  standardselectors : ℕ → ℕ
  standardmetamask : BitVec 16

/-- The class object the methods of a family are looked up on: the metaclass if the bit is set. -/
def Foundation.classOf (f : Foundation) (pair i : ℕ) : ClassRef ℕ := ⟨pair, f.standardmetamask.getLsbD i⟩

/-- The classes with what they have cached, and the `standardimpmask` of each infraclass. -/
structure MaskedRuntime extends Runtime where
  masks : ℕ → BitVec 16

/-- `mulle_objc_class_lookup_nofill | mulle_objc_class_lookup_noforward`. -/
def noforwardNofill : LookupMode := ⟨false, true, false, false, true⟩

section Mask

variable (p : Setting) (f : Foundation)

/-- One round of the loop over the families: whether the family has its standard implementation. -/
def hasStandardimp (rt : Runtime) (pair i : ℕ) : Except Stop Bool :=
  if f.standardimps i = 0 then .ok false
  else if f.standardselectors i = 0 then .ok false
  else
    -- the class is set up, so that the lookup leaves it as it is
    let cls := f.classOf pair i
    (lookupImplementationMode (environment p cls) (rounds p (rt.states cls)) noforwardNofill (f.standardselectors i)
      (rt.focus cls)).map fun (imp, _) => imp == some (f.standardimps i)

/-- `_mulle_objc_infraclass_compute_standardimpmask`. -/
def computeStandardimpmask (rt : Runtime) (pair : ℕ) : Except Stop (BitVec 16) :=
  (List.range' 1 15).foldlM
    (fun bits i => (hasStandardimp p f rt pair i).map fun standard =>
      if standard then bits ||| BitVec.twoPow 16 i else bits)
    0#16

/-- `_mulle_objc_infraclass_invalidate_standardimpmask`: bits are cleared, but not set. -/
def invalidateStandardimpmask (rt : MaskedRuntime) (pair : ℕ) : Except Stop MaskedRuntime :=
  if f.standardimps 1 = 0 then .ok rt
  else (computeStandardimpmask p f rt.toRuntime pair).map fun bits =>
    { rt with masks := Function.update rt.masks pair (rt.masks pair &&& bits) }

/-- `_mulle_objc_class_invalidate_caches_default`: the mask comes before the cache.  Only a metaclass has an
`infraclass`, so that it is the metaclass that gets to the mask. -/
def invalidateCachesDefault (list : MethodList) (rt : MaskedRuntime) (cls : ClassRef ℕ) :
    Except Stop MaskedRuntime :=
  (if cls.isMeta then invalidateStandardimpmask p f rt cls.pair else .ok rt) >>= fun rt =>
    (invalidateImpcache p (rt.states cls) list.methods).map fun new =>
      { rt with states := Function.update rt.states cls new }

/-- `invalidate_caches_callback`. -/
def invalidateCachesCallback (list : MethodList) (rt : MaskedRuntime) (cls : ClassRef ℕ) : Except Stop MaskedRuntime :=
  if (rt.states cls).cacheReady then invalidateCachesDefault p f list rt cls else .ok rt

/-- `mulle_objc_universe_walk_classes`: each infraclass, and then its metaclass. -/
def walkClasses (list : MethodList) (rt : MaskedRuntime) : Except Stop MaskedRuntime :=
  (List.range rt.loaded.pairs.length).foldlM
    (fun rt pair => do
      let rt ← invalidateCachesCallback p f list rt ⟨pair, false⟩
      invalidateCachesCallback p f list rt ⟨pair, true⟩)
    rt

/-- `mulle_objc_class_didadd_methodlist`: without a cache there is nothing to do. -/
def didaddMethodlist (rt : MaskedRuntime) (list : MethodList) : Except Stop MaskedRuntime :=
  if list.methods = [] ∨ rt.cachecount = 0 then .ok rt else walkClasses p f list rt

/-- `_mulle_objc_class_setup`, before `+initialize`. -/
def beginSetup (rt : MaskedRuntime) (pair : ℕ) : Option MaskedRuntime := do
  let metaclass ← beginInitialize (rt.states ⟨pair, true⟩)
  let infraclass ← beginInitialize (rt.states ⟨pair, false⟩)
  return { rt with toRuntime := (rt.store ⟨pair, true⟩ metaclass).store ⟨pair, false⟩ infraclass }

/-- `_mulle_objc_class_setup`, after `+initialize`: both class objects get their first cache, and the infraclass its
mask, unless it is ready already. -/
def endSetup (rt : MaskedRuntime) (pair : ℕ) : Option MaskedRuntime := do
  let metaclass ← endInitialize p (rt.states ⟨pair, true⟩)
  let infraclass ← endInitialize p (rt.states ⟨pair, false⟩)
  let runtime := (rt.store ⟨pair, true⟩ metaclass).store ⟨pair, false⟩ infraclass
  if (rt.states ⟨pair, false⟩).cacheReady ∨ f.standardimps 1 = 0 then return { rt with toRuntime := runtime }
  let bits ← (computeStandardimpmask p f runtime pair).toOption
  return { toRuntime := runtime, masks := Function.update rt.masks pair bits }

/-! ## Operations -/

/-- What the program does with its classes. -/
inductive Operation
  | beginSetup (pair : ℕ)
  | endSetup (pair : ℕ)
  | lookup (mode : LookupMode) (cls : ClassRef ℕ) (methodid : ℕ)
  | addMethodlist (cls : ClassRef ℕ) (list : MethodList) (sane : SaneList list)

/-- One operation. -/
@[simp]
def step (rt : MaskedRuntime) : Operation → Option MaskedRuntime
  | .beginSetup pair => if pair < rt.loaded.pairs.length then beginSetup rt pair else none
  | .endSetup pair => if pair < rt.loaded.pairs.length then endSetup p f rt pair else none
  | .lookup mode cls methodid =>
    if methodid = 0 ∨ (rt.states cls).initializing = false then none
    else (returning rt.toRuntime cls (lookupImplementationMode (environment p cls) (rounds p (rt.states cls)) mode
      methodid (rt.focus cls))).map fun runtime => { rt with toRuntime := runtime }
  | .addMethodlist cls list _ =>
    if cls.pair < rt.loaded.pairs.length then
      (didaddMethodlist p f { rt with loaded := addMethodlist rt.loaded cls list } list).toOption
    else none

end Mask

/-- A class before it is set up, which may be one without a cache. -/
def newClass (alwaysEmptyCache : Bool) : ClassState := { ClassState.new with alwaysEmptyCache }

/-- Before any class is set up; `empty` are the classes with `MULLE_OBJC_CLASS_ALWAYS_EMPTY_CACHE`. -/
def start (u : Universe) (empty : ClassRef ℕ → Bool) : MaskedRuntime where
  loaded := u
  states cls := newClass (empty cls)
  cachecount := 0
  masks _ := 0#16

/-! ## What the bits say -/

/-- **Every bit is right**: the uncached search for the selector of the family yields the standard implementation. -/
def BitsRight (f : Foundation) (rt : MaskedRuntime) : Prop :=
  ∀ pair < rt.loaded.pairs.length, ∀ i < 16, (rt.masks pair).getLsbD i = true →
    (Invalidation.defaultsearchMethod rt.loaded.graph (f.classOf pair i) (f.standardselectors i)).map
      Method.implementation = some (f.standardimps i)

/-- The metaclass has the standard implementation of a family in its cache, and not as its forward method. -/
def Remembered (f : Foundation) (rt : MaskedRuntime) (pair i : ℕ) : Prop :=
  (rt.states ⟨pair, true⟩).cache.cached (f.standardselectors i) = some (f.standardimps i) ∧
    isForwardimplementation (rt.states ⟨pair, true⟩) (f.standardimps i) = false

/-- An addition is no trouble for a family if the search still yields the standard implementation, or else if the
caches are walked, and it is not a metaclass that remembers the old one. -/
def HarmlessAddition (f : Foundation) (rt : MaskedRuntime) (cls : ClassRef ℕ) (list : MethodList) (pair i : ℕ) : Prop :=
  (Invalidation.defaultsearchMethod (addMethodlist rt.loaded cls list).graph (f.classOf pair i)
      (f.standardselectors i)).map Method.implementation = some (f.standardimps i) ∨
    (list.methods ≠ [] ∧ rt.cachecount ≠ 0 ∧ ¬ (f.standardmetamask.getLsbD i = true ∧ Remembered f rt pair i))

/-- An addition is no trouble for any bit that is set. -/
def Untroubled (f : Foundation) (rt : MaskedRuntime) : Operation → Prop
  | .addMethodlist cls list _ => ∀ pair < rt.loaded.pairs.length, ∀ i < 16, (rt.masks pair).getLsbD i = true →
      HarmlessAddition f rt cls list pair i
  | _ => True

instance (f : Foundation) (rt : MaskedRuntime) (pair i : ℕ) : Decidable (Remembered f rt pair i) := by
  unfold Remembered
  infer_instance

instance (f : Foundation) (rt : MaskedRuntime) (cls : ClassRef ℕ) (list : MethodList) (pair i : ℕ) :
    Decidable (HarmlessAddition f rt cls list pair i) := by
  unfold HarmlessAddition
  infer_instance

instance (f : Foundation) (rt : MaskedRuntime) : DecidablePred (Untroubled f rt)
  | .addMethodlist cls list _ =>
    inferInstanceAs (Decidable (∀ pair < rt.loaded.pairs.length, ∀ i < 16, (rt.masks pair).getLsbD i = true →
      HarmlessAddition f rt cls list pair i))
  | .beginSetup _ | .endSetup _ | .lookup _ _ _ => inferInstanceAs (Decidable True)

/-- An addition sets no bit. -/
def SetsNoBit (p : Setting) (f : Foundation) (rt : MaskedRuntime) : Operation → Prop
  | .addMethodlist cls list sane => ∀ rt', step p f rt (.addMethodlist cls list sane) = some rt' →
      ∀ pair i, (rt'.masks pair).getLsbD i = true → (rt.masks pair).getLsbD i = true
  | _ => True

end MulleObjcRuntime.Standardimps
