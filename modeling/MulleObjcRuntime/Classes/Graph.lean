import Mathlib.Data.List.GetD
import MulleObjcRuntime.Classes.Method

/-!
# Class pairs and the class graph

* the `DONT_INHERIT` flags and the test `has`;
* `ClassPair` — an infraclass and its metaclass under one class id, with the mixins of the pair;
* `ClassGraph` — the pairs over an index type, with superclass chains that end;
* `ClassGraph.superclass` — the superclass of a class object: a metaclass continues with the metaclass of the
  superclass, the root metaclass with its own infraclass.
-/

namespace MulleObjcRuntime.Classes

/-! ## Inheritance flags -/

/-- `MULLE_OBJC_CLASS_DONT_INHERIT_SUPERCLASS`. -/
def dontInheritSuperclass : ℕ := 0x01

/-- `MULLE_OBJC_CLASS_DONT_INHERIT_CATEGORIES`. -/
def dontInheritCategories : ℕ := 0x02

/-- `MULLE_OBJC_CLASS_DONT_INHERIT_PROTOCOLS`. -/
def dontInheritProtocols : ℕ := 0x04

/-- `MULLE_OBJC_CLASS_DONT_INHERIT_PROTOCOL_CATEGORIES`. -/
def dontInheritProtocolCategories : ℕ := 0x08

/-- `MULLE_OBJC_CLASS_DONT_INHERIT_PROTOCOL_META`. -/
def dontInheritProtocolMeta : ℕ := 0x10

/-- `MULLE_OBJC_CLASS_DONT_INHERIT_CLASS`. -/
def dontInheritClass : ℕ := 0x20

/-- `MULLE_OBJC_CLASS_DONT_INHERIT_SUPERCLASS_INHERITANCE`, set on searches only. -/
def dontInheritSuperclassInheritance : ℕ := 0x40

/-- The test `inheritance & flag`. -/
def has (inheritance flag : ℕ) : Bool := inheritance &&& flag != 0

lemma has_or (i j flag : ℕ) : has (i ||| j) flag = (has i flag || has j flag) := by
  unfold has
  rw [Nat.and_or_distrib_right, Bool.eq_iff_iff]
  simp only [bne_iff_ne, ne_eq, Nat.or_eq_zero_iff, Bool.or_eq_true]
  tauto

@[simp] lemma has_zero (flag : ℕ) : has 0 flag = false := by simp [has]

/-! ## Class pairs -/

/-- What a `_mulle_objc_class` brings to a method search.  The list at index `0` is the `@implementation`, later
ones are categories in the order they were added. -/
structure Class where
  inheritance : ℕ
  methodlists : List MethodList
deriving DecidableEq

/-- A `_mulle_objc_classpair`: both class objects, the superclass and the mixins in the order they were added. -/
structure ClassPair (P : Type) where
  classid : ℕ
  classid_ne_zero : classid ≠ 0
  superclass : Option P
  mixins : List P
  isMixin : Bool
  infraclass : Class
  metaclass : Class
deriving DecidableEq

/-- A class object: the infraclass or the metaclass of a pair. -/
structure ClassRef (P : Type) where
  pair : P
  isMeta : Bool
deriving DecidableEq

/-- The pairs of a universe.  `depth` bounds the superclass chain of a pair, which therefore ends. -/
structure ClassGraph (P : Type) where
  pair : P → ClassPair P
  depth : P → ℕ
  depth_superclass : ∀ p q, (pair p).superclass = some q → depth q < depth p

namespace ClassGraph

variable {P : Type} (g : ClassGraph P) (cls : ClassRef P)

/-- The class object itself. -/
def toClass : Class :=
  if cls.isMeta then (g.pair cls.pair).metaclass else (g.pair cls.pair).infraclass

/-- `_mulle_objc_class_get_classid`: both class objects of a pair share it. -/
def classid : ℕ := (g.pair cls.pair).classid

/-- `_mulle_objc_class_get_inheritance`. -/
def inheritance : ℕ := (g.toClass cls).inheritance

def methodlists : List MethodList := (g.toClass cls).methodlists

/-- `_mulle_objc_class_get_superclass`, as `mulle_objc_universe_new_classpair` sets it up. -/
def superclass : Option (ClassRef P) :=
  match cls.isMeta, (g.pair cls.pair).superclass with
  | isMeta, some q => some ⟨q, isMeta⟩
  | true, none => some ⟨cls.pair, false⟩
  | false, none => none

/-- A bound on the number of superclasses of a class object. -/
def rank : ℕ := if cls.isMeta then 2 * g.depth cls.pair + 1 else g.depth cls.pair

variable {g cls}

lemma rank_superclass {s : ClassRef P} (h : g.superclass cls = some s) : g.rank s < g.rank cls := by
  obtain ⟨p, isMeta⟩ := cls
  unfold superclass at h
  simp only at h
  cases hs : (g.pair p).superclass with
  | some q =>
    rw [hs] at h
    have := g.depth_superclass p q hs
    cases isMeta <;> (cases h; simp only [rank]; simp; omega)
  | none =>
    rw [hs] at h
    cases isMeta
    · cases h
    · cases h
      simp only [rank]
      simp
      omega

/-- **The induction along the superclasses.** -/
theorem superclass_induction (g : ClassGraph P) {motive : ClassRef P → Prop}
    (above : ∀ cls, (∀ s, g.superclass cls = some s → motive s) → motive cls) (cls : ClassRef P) : motive cls := by
  induction hn : g.rank cls using Nat.strongRecOn generalizing cls with
  | _ n ih => exact above cls fun s hs => ih _ (hn ▸ rank_superclass hs) s rfl

lemma classid_ne_zero : g.classid cls ≠ 0 := (g.pair cls.pair).classid_ne_zero

/-! ## Graphs given by a list of pairs -/

/-- A pair with empty classes, for the indices without one. -/
def emptyPair : ClassPair ℕ := ⟨1, by decide, none, [], false, ⟨0, []⟩, ⟨0, []⟩⟩

/-- Every superclass comes before its subclasses. -/
def Ordered (pairs : List (ClassPair ℕ)) : Prop :=
  ∀ i : Fin pairs.length, ∀ q ∈ (pairs.get i).superclass, q < i

instance (pairs : List (ClassPair ℕ)) : Decidable (Ordered pairs) := by
  unfold Ordered
  infer_instance

/-- A pair with a given class id. -/
def pairOf (classid : ℕ) (superclass : Option ℕ) (mixins : List ℕ) (isMixin : Bool) (infraclass metaclass : Class) :
    ClassPair ℕ :=
  if h : classid = 0 then emptyPair
  else ⟨classid, h, superclass, mixins, isMixin, infraclass, metaclass⟩

/-- The graph of the pairs in a list, each named by its index. -/
def ofPairs (pairs : List (ClassPair ℕ)) (h : Ordered pairs) : ClassGraph ℕ where
  pair p := pairs.getD p emptyPair
  depth p := p
  depth_superclass p q hq := by
    by_cases hp : p < pairs.length
    · rw [List.getD_eq_getElem _ _ hp] at hq
      exact h ⟨p, hp⟩ q hq
    · rw [List.getD_eq_default _ _ (by omega)] at hq
      cases hq

lemma ordered_nil : Ordered [] := fun i => i.elim0

/-- The graph of a list whose superclasses come first, and of no pairs otherwise. -/
def ofList (pairs : List (ClassPair ℕ)) : ClassGraph ℕ :=
  if h : Ordered pairs then ofPairs pairs h else ofPairs [] ordered_nil

lemma forall_pair_ofList {pairs : List (ClassPair ℕ)} {motive : ClassPair ℕ → Prop} (hempty : motive emptyPair)
    (h : ∀ p < pairs.length, motive ((ofList pairs).pair p)) (p : ℕ) : motive ((ofList pairs).pair p) := by
  by_cases hp : p < pairs.length
  · exact h p hp
  · have : (ofList pairs).pair p = emptyPair := by
      unfold ofList
      split
      · exact List.getD_eq_default _ _ (by omega)
      · rfl
    rw [this]
    exact hempty

end ClassGraph

end MulleObjcRuntime.Classes
