import Mathlib.Data.List.Nodup
import MulleObjcRuntime.Classes.Graph

/-!
# The registered class pairs of a universe

* `Pair` — a class pair with the names and ids only the loader reads;
* `Universe` — the class table, the fast class table and the category table;
* `Universe.lookup` — `_mulle_objc_universe_lookup_infraclass_nodelegate`;
* `Universe.register`, `Universe.modify` — a new pair, and a change of a registered one;
* `Universe.graph` — what a method search sees of it.

A pair is named by its place in the order of registration, so that a superclass is older than its subclasses.
-/

namespace MulleObjcRuntime.Classes

/-- A `_mulle_objc_classpair` with what the loader keeps in it. -/
structure Pair extends ClassPair ℕ where
  classname : String
  ivarhash : ℕ
  categoryids : List ℕ
deriving DecidableEq

/-- The method lists of one of the class objects of a pair. -/
def Pair.methodlists (p : Pair) (isMeta : Bool) : List MethodList :=
  (if isMeta then p.metaclass else p.infraclass).methodlists

/-- A pair for the indices without one. -/
def emptyPair : Pair := ⟨ClassGraph.emptyPair, "", 0, []⟩

/-- The parts of a `_mulle_objc_universe` that loading reads and changes.  `classdefaults` is the inheritance of a
root class. -/
structure Universe where
  pairs : List Pair
  fastclasses : List (ℕ × ℕ)
  categorytable : List (ℕ × String)
  classdefaults : ℕ
  ordered : ClassGraph.Ordered (pairs.map Pair.toClassPair)
  distinct : (pairs.map fun p => p.classid).Nodup

namespace Universe

/-- The pair with a given index. -/
def pair (u : Universe) (i : ℕ) : Pair := u.pairs.getD i emptyPair

/-- `_mulle_objc_universe_lookup_infraclass_nodelegate`. -/
def lookup (u : Universe) (classid : ℕ) : Option ℕ := u.pairs.findIdx? fun p => p.classid == classid

/-- The class pairs as a method search sees them. -/
def graph (u : Universe) : ClassGraph ℕ := ClassGraph.ofPairs (u.pairs.map Pair.toClassPair) u.ordered

/-- The universe before anything is loaded. -/
def initial (classdefaults : ℕ) : Universe :=
  ⟨[], [], [], classdefaults, ClassGraph.ordered_nil, List.nodup_nil⟩

variable {u : Universe} {c i : ℕ}

/-! ## Looking up -/

lemma lookup_eq_some : u.lookup c = some i ↔ i < u.pairs.length ∧ (u.pair i).classid = c := by
  unfold lookup pair
  rw [List.findIdx?_eq_some_iff_getElem]
  constructor
  · rintro ⟨hi, hc, -⟩
    rw [List.getD_eq_getElem _ _ hi]
    exact ⟨hi, by simpa using hc⟩
  · rintro ⟨hi, hc⟩
    rw [List.getD_eq_getElem _ _ hi] at hc
    refine ⟨hi, by simpa using hc, fun j hj => ?_⟩
    intro hcj
    have h := u.distinct
    rw [List.nodup_iff_injective_get] at h
    have := @h ⟨j, by simp; omega⟩ ⟨i, by simpa using hi⟩ (by simp_all)
    simp at this
    omega

lemma lookup_eq_none : u.lookup c = none ↔ ∀ p ∈ u.pairs, p.classid ≠ c := by
  unfold lookup
  simp

lemma lookup_classid (h : u.lookup c = some i) : (u.pair i).classid = c := (lookup_eq_some.1 h).2

lemma lookup_pair (h : u.lookup c = some i) : u.lookup (u.pair i).classid = some i := by
  rwa [lookup_classid h]

end Universe

lemma ClassGraph.ordered_iff {pairs : List (ClassPair ℕ)} :
    Ordered pairs ↔ ∀ i q, (pairs.getD i emptyPair).superclass = some q → q < i := by
  constructor
  · intro h i q hq
    by_cases hi : i < pairs.length
    · rw [List.getD_eq_getElem _ _ hi] at hq
      exact h ⟨i, hi⟩ q hq
    · rw [List.getD_eq_default _ _ (by omega)] at hq
      cases hq
  · intro h i q hq
    refine h i q ?_
    rw [List.getD_eq_getElem _ _ i.2]
    exact hq

namespace Universe

variable {u : Universe} {c i : ℕ}

lemma graph_pair (u : Universe) (i : ℕ) : u.graph.pair i = (u.pair i).toClassPair := by
  show (u.pairs.map Pair.toClassPair).getD i ClassGraph.emptyPair = _
  rw [show ClassGraph.emptyPair = emptyPair.toClassPair from rfl, List.getD_map]
  rfl

lemma graph_methodlists (u : Universe) (i : ℕ) (isMeta : Bool) :
    u.graph.methodlists ⟨i, isMeta⟩ = (u.pair i).methodlists isMeta := by
  unfold ClassGraph.methodlists ClassGraph.toClass Pair.methodlists
  rw [graph_pair]

lemma superclass_lt {q : ℕ} (h : (u.pair i).superclass = some q) : q < i := by
  refine ClassGraph.ordered_iff.1 u.ordered i q ?_
  rw [show ClassGraph.emptyPair = emptyPair.toClassPair from rfl, List.getD_map]
  exact h

/-! ## Registering a pair -/

lemma ordered_concat (u : Universe) (p : Pair) (hsuper : ∀ q ∈ p.superclass, q < u.pairs.length) :
    ClassGraph.Ordered ((u.pairs ++ [p]).map Pair.toClassPair) := by
  rw [ClassGraph.ordered_iff]
  intro i q hq
  rw [show ClassGraph.emptyPair = emptyPair.toClassPair from rfl, List.getD_map] at hq
  rcases Nat.lt_trichotomy i u.pairs.length with hi | hi | hi
  · rw [List.getD_append _ _ _ _ hi] at hq
    exact superclass_lt hq
  · rw [List.getD_append_right _ _ _ _ (by omega), hi, Nat.sub_self] at hq
    exact hi ▸ hsuper q hq
  · rw [List.getD_eq_default _ _ (by simp; omega)] at hq
    cases hq

lemma distinct_concat (u : Universe) (p : Pair) (hnew : u.lookup p.classid = none) :
    ((u.pairs ++ [p]).map fun p => p.classid).Nodup := by
  rw [List.map_append, List.nodup_append]
  refine ⟨u.distinct, List.nodup_singleton _, ?_⟩
  rintro _ ha _ hb rfl
  obtain ⟨q, hq, hqa⟩ := List.mem_map.1 ha
  exact lookup_eq_none.1 hnew q hq (hqa.trans (List.mem_singleton.1 hb))

/-- A new pair at the end of the class table. -/
def register (u : Universe) (p : Pair) (hsuper : ∀ q ∈ p.superclass, q < u.pairs.length)
    (hnew : u.lookup p.classid = none) : Universe where
  pairs := u.pairs ++ [p]
  fastclasses := u.fastclasses
  categorytable := u.categorytable
  classdefaults := u.classdefaults
  ordered := ordered_concat u p hsuper
  distinct := distinct_concat u p hnew

variable {p : Pair} {hsuper : ∀ q ∈ p.superclass, q < u.pairs.length} {hnew : u.lookup p.classid = none}

lemma pair_register_self : (u.register p hsuper hnew).pair u.pairs.length = p := by
  simp [register, pair]

lemma pair_register_of_lt (hi : i < u.pairs.length) : (u.register p hsuper hnew).pair i = u.pair i := by
  unfold pair register
  exact List.getD_append _ _ _ _ hi

lemma lookup_register_self : (u.register p hsuper hnew).lookup p.classid = some u.pairs.length := by
  rw [lookup_eq_some, pair_register_self]
  exact ⟨by simp [register], rfl⟩

lemma lookup_register_of_ne (hc : c ≠ p.classid) : (u.register p hsuper hnew).lookup c = u.lookup c := by
  ext i
  rw [lookup_eq_some, lookup_eq_some]
  rcases Nat.lt_trichotomy i u.pairs.length with hi | hi | hi
  · rw [pair_register_of_lt hi]
    simp only [register, List.length_append, List.length_singleton]
    constructor <;> (rintro ⟨-, h⟩; exact ⟨by omega, h⟩)
  · subst hi
    rw [pair_register_self]
    constructor
    · rintro ⟨-, h⟩
      exact absurd h.symm hc
    · rintro ⟨h, -⟩
      omega
  · simp only [register, List.length_append, List.length_singleton]
    constructor <;> (rintro ⟨h, -⟩; omega)

/-! ## Changing a registered pair -/

lemma ordered_modify (u : Universe) (i : ℕ) (f : Pair → Pair) (hsuper : ∀ p, (f p).superclass = p.superclass) :
    ClassGraph.Ordered ((u.pairs.modify i f).map Pair.toClassPair) := by
  rw [ClassGraph.ordered_iff]
  intro j q hq
  rw [show ClassGraph.emptyPair = emptyPair.toClassPair from rfl, List.getD_map] at hq
  refine superclass_lt (u := u) ?_
  unfold pair
  rw [List.getD_eq_getElem?_getD] at hq ⊢
  rw [List.getElem?_modify] at hq
  rcases hj : u.pairs[j]? with _ | r
  · rw [hj] at hq
    exact hq
  · rw [hj] at hq
    by_cases hij : i = j
    · simpa [hij, hsuper] using hq
    · simpa [hij] using hq

lemma distinct_modify (u : Universe) (i : ℕ) (f : Pair → Pair) (hclassid : ∀ p, (f p).classid = p.classid) :
    ((u.pairs.modify i f).map fun p => p.classid).Nodup := by
  have : (u.pairs.modify i f).map (fun p => p.classid) = u.pairs.map fun p => p.classid := by
    apply List.ext_getElem?
    intro j
    rw [List.getElem?_map, List.getElem?_map, List.getElem?_modify]
    rcases u.pairs[j]? with _ | r
    · rfl
    · by_cases hij : i = j <;> simp [hij, hclassid]
  rw [this]
  exact u.distinct

/-- A change of one pair that leaves its class id and its superclass alone. -/
def modify (u : Universe) (i : ℕ) (f : Pair → Pair) (hclassid : ∀ p, (f p).classid = p.classid)
    (hsuper : ∀ p, (f p).superclass = p.superclass) : Universe where
  pairs := u.pairs.modify i f
  fastclasses := u.fastclasses
  categorytable := u.categorytable
  classdefaults := u.classdefaults
  ordered := ordered_modify u i f hsuper
  distinct := distinct_modify u i f hclassid

variable {f : Pair → Pair} {hclassid : ∀ p, (f p).classid = p.classid}
  {hsuperclass : ∀ p, (f p).superclass = p.superclass}

lemma pair_modify (hi : i < u.pairs.length) (j : ℕ) :
    (u.modify i f hclassid hsuperclass).pair j = if j = i then f (u.pair i) else u.pair j := by
  unfold pair modify
  simp only [List.getD_eq_getElem?_getD, List.getElem?_modify]
  by_cases hij : i = j
  · subst hij
    simp [List.getElem?_eq_getElem hi]
  · rw [if_neg (Ne.symm hij)]
    simp [hij]

lemma classid_pair_modify (j : ℕ) :
    ((u.modify i f hclassid hsuperclass).pair j).classid = (u.pair j).classid := by
  unfold pair modify
  simp only [List.getD_eq_getElem?_getD, List.getElem?_modify]
  cases u.pairs[j]? with
  | none => rfl
  | some r => by_cases hij : i = j <;> simp [hij, hclassid]

lemma lookup_modify (c : ℕ) : (u.modify i f hclassid hsuperclass).lookup c = u.lookup c := by
  ext j
  rw [lookup_eq_some, lookup_eq_some, classid_pair_modify]
  simp [modify]

end Universe

end MulleObjcRuntime.Classes
