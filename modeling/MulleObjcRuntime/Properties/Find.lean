import MulleObjcRuntime.Classes.Graph
import MulleObjcRuntime.Properties.Defs

/-!
# The property of a method id

* `Propertylist.findForMethodid`, `findInLists` — the search in one list and in the lists of a class;
* `findPropertyForMethodid` — `_mulle_objc_infraclass_find_property_for_methodid`, which goes on to the superclass;
* `findPropertyForMethodidPublic` — `mulle_objc_infraclass_find_property_for_methodid`, which calls itself;
* `lineage`, `firstProperty` — the property that the two are to find;
* `findPropertyForMethodid_eq` — the first one finds it;
* `not_bothFind` — the second one returns for no class.
-/

namespace MulleObjcRuntime.Properties

open Classes

/-! ## The search -/

/-- `_mulle_objc_propertylist_find_for_methodid`. -/
def Propertylist.findForMethodid (list : Propertylist) (methodid : ℕ) : Option Property :=
  list.properties.find? fun p => p.hasAccessor methodid

/-- The loop over the property lists of a class. -/
def findInLists (methodid : ℕ) : List Propertylist → Option Property
  | [] => none
  | list :: lists =>
    match list.findForMethodid methodid with
    | some property => some property
    | none => findInLists methodid lists

section Find

variable {P : Type} (g : ClassGraph P) (propertylists : P → List Propertylist)

/-- `_mulle_objc_infraclass_find_property_for_methodid`.  The property lists of a class are in the order they were
added.  `frames` bounds the nesting of the calls: without enough of them the outermost call has not returned. -/
def findPropertyForMethodid (methodid : ℕ) : ℕ → P → Option (Option Property)
  | 0, _ => none
  | frames + 1, infra =>
    match findInLists methodid (propertylists infra).reverse with
    | some property => some (some property)
    | none =>
      match (g.pair infra).superclass with
      | none => some none
      | some superclass => findPropertyForMethodid methodid frames superclass

/-- `mulle_objc_infraclass_find_property_for_methodid`, which sets `errno` to `EINVAL` where there is no class.  Where
there is one it calls itself, as the missing underscore has it. -/
def findPropertyForMethodidPublic (methodid : ℕ) : ℕ → Option P → Option (Option Property)
  | 0, _ => none
  | frames + 1, infra =>
    match infra with
    | none => some none
    | some infra => findPropertyForMethodidPublic methodid frames (some infra)

/-! ## What it is to find -/

/-- The class and its superclasses. -/
def lineage (infra : P) : List P :=
  infra ::
    match _h : (g.pair infra).superclass with
    | none => []
    | some superclass => lineage superclass
termination_by g.depth infra
decreasing_by exact g.depth_superclass _ _ _h

/-- The first property with such an accessor: the lists of a class from the last added one to the first, then the
superclasses. -/
def firstProperty (infra : P) (methodid : ℕ) : Option Property :=
  ((lineage g infra).flatMap fun c => (propertylists c).reverse.flatMap Propertylist.properties).find?
    fun p => p.hasAccessor methodid

/-- Both functions return, and what they return is the first property. -/
def BothFind (infra : P) (methodid : ℕ) : Prop :=
  (∃ frames, findPropertyForMethodid g propertylists methodid frames infra =
    some (firstProperty g propertylists infra methodid)) ∧
  ∃ frames, findPropertyForMethodidPublic methodid frames (some infra) =
    some (firstProperty g propertylists infra methodid)

variable {g propertylists}

lemma lineage_root {infra : P} (h : (g.pair infra).superclass = none) : lineage g infra = [infra] := by
  rw [lineage]
  split
  · rfl
  · rename_i superclass hs
    rw [h] at hs
    cases hs

lemma lineage_superclass {infra superclass : P} (h : (g.pair infra).superclass = some superclass) :
    lineage g infra = infra :: lineage g superclass := by
  rw [lineage]
  split
  · rename_i hs
    rw [h] at hs
    cases hs
  · rename_i q hs
    rw [h] at hs
    cases hs
    rfl

lemma findInLists_eq (methodid : ℕ) (lists : List Propertylist) :
    findInLists methodid lists =
      (lists.flatMap Propertylist.properties).find? fun p => p.hasAccessor methodid := by
  induction lists with
  | nil => rfl
  | cons list lists ih =>
    rw [findInLists, List.flatMap_cons, List.find?_append, ← ih]
    unfold Propertylist.findForMethodid
    cases list.properties.find? fun p => p.hasAccessor methodid <;> rfl

lemma firstProperty_root {infra : P} (h : (g.pair infra).superclass = none) (methodid : ℕ) :
    firstProperty g propertylists infra methodid = findInLists methodid (propertylists infra).reverse := by
  unfold firstProperty
  rw [lineage_root h, findInLists_eq, List.flatMap_singleton]

lemma firstProperty_superclass {infra superclass : P} (h : (g.pair infra).superclass = some superclass)
    (methodid : ℕ) :
    firstProperty g propertylists infra methodid =
      (findInLists methodid (propertylists infra).reverse).or (firstProperty g propertylists superclass methodid) := by
  unfold firstProperty
  rw [lineage_superclass h, List.flatMap_cons, List.find?_append, findInLists_eq]

/-- **The function with the underscore returns the first property**, with a frame for every class up to the root.  The
induction is on the superclasses. -/
theorem findPropertyForMethodid_eq (methodid : ℕ) {frames : ℕ} {infra : P} (hframes : g.depth infra < frames) :
    findPropertyForMethodid g propertylists methodid frames infra =
      some (firstProperty g propertylists infra methodid) := by
  induction frames generalizing infra with
  | zero => omega
  | succ frames ih =>
    rw [findPropertyForMethodid]
    cases hs : (g.pair infra).superclass with
    | none =>
      rw [firstProperty_root hs]
      cases findInLists methodid (propertylists infra).reverse <;> rfl
    | some superclass =>
      have hdepth := g.depth_superclass infra superclass hs
      rw [firstProperty_superclass hs]
      cases findInLists methodid (propertylists infra).reverse with
      | some property => rfl
      | none => exact ih (by omega)

lemma findPropertyForMethodidPublic_eq_none (methodid frames : ℕ) (infra : P) :
    findPropertyForMethodidPublic methodid frames (some infra) = none := by
  induction frames with
  | zero => rfl
  | succ frames ih => exact ih

/-- **No class and no method id have both functions return.** -/
theorem not_bothFind (g : ClassGraph P) (propertylists : P → List Propertylist) (infra : P) (methodid : ℕ) :
    ¬ BothFind g propertylists infra methodid := by
  rintro ⟨-, frames, hreturns⟩
  rw [findPropertyForMethodidPublic_eq_none] at hreturns
  cases hreturns

end Find

/-! ## A property that one function finds -/

/-- A root class. -/
def rootClass : ClassGraph ℕ := ClassGraph.ofList []

/-- The property `name` with the getter `-name`. -/
def nameProperty : Property :=
  { propertyid := 0xd39bde68, ivarid := 0, name := ['n', 'a', 'm', 'e'], signature := ['@'], getter := 0xd39bde68,
    setter := 0, adder := 0, remover := 0, bits := 0x1 }

/-- Asked for the getter of its only property, a root class has one function find it and the other one never return. -/
theorem name_not_bothFind :
    findPropertyForMethodid rootClass (fun _ => [⟨[nameProperty]⟩]) 0xd39bde68 1 0 = some (some nameProperty) ∧
      ¬ BothFind rootClass (fun _ => [⟨[nameProperty]⟩]) 0 0xd39bde68 := by
  refine ⟨by decide, ?_⟩
  rintro ⟨-, frames, hreturns⟩
  rw [findPropertyForMethodidPublic_eq_none] at hreturns
  cases hreturns

end MulleObjcRuntime.Properties
