import MulleObjcRuntime.Search.Defs

/-!
# The order in which a search looks into method lists

What the search is for, told without its modes and flags passed around:

* `Visit` — a class object with the method lists of it that are looked into, last added first;
* `linearization g cls inheritance` — the visits of a search that starts at `cls`, in their order;
* `linearization_eq` — the class object itself, then its mixins, then the linearization of its superclass;
* `pick` — the method a search settles on, given all its candidates in order.
-/

namespace MulleObjcRuntime.Search

open Classes

variable {P : Type}

/-! ## Visits -/

/-- A class object on the way of a search, with the method lists that are looked into. -/
structure Visit (P : Type) where
  cls : ClassRef P
  lists : List MethodList
deriving DecidableEq

/-- The lists of a class object a search sees, last added first: only the first list with
`DONT_INHERIT_CATEGORIES`, and without it with `DONT_INHERIT_CLASS`. -/
def visibleLists (inheritance : ℕ) (lists : List MethodList) : List MethodList :=
  let lists := if has inheritance dontInheritCategories then lists.take 1 else lists
  (if has inheritance dontInheritClass then lists.drop 1 else lists).reverse

lemma visibleLists_congr {i j : ℕ} (hcat : has i dontInheritCategories = has j dontInheritCategories)
    (hcls : has i dontInheritClass = has j dontInheritClass) (lists : List MethodList) :
    visibleLists i lists = visibleLists j lists := by
  unfold visibleLists
  rw [hcat, hcls]

variable (g : ClassGraph P) (cls : ClassRef P)

/-- The class object `cls` itself. -/
def ownVisit (inheritance : ℕ) : Visit P := ⟨cls, visibleLists inheritance (g.methodlists cls)⟩

/-- The class object of a mixin that fits `cls`. -/
def mixinRef (proto : P) : ClassRef P := ⟨proto, cls.isMeta⟩

/-- What a mixin leaves out: its own flags decide, and its categories go with `DONT_INHERIT_PROTOCOL_CATEGORIES`. -/
def mixinInheritance (inheritance : ℕ) (proto : P) : ℕ :=
  (if has inheritance dontInheritProtocolCategories then dontInheritCategories else 0) |||
    g.inheritance (mixinRef cls proto)

variable [DecidableEq P]

/-- The mixins of `cls`, last added first, other than `cls` itself; a mixin has none. -/
def mixinVisits (inheritance : ℕ) : List (Visit P) :=
  if has inheritance dontInheritProtocols ∨ (g.pair cls.pair).isMixin then []
  else
    ((g.pair cls.pair).mixins.reverse.filter (· ≠ cls.pair)).map fun proto =>
      ownVisit g (mixinRef cls proto) (mixinInheritance g cls inheritance proto)

/-- The inheritance with which the search goes on to the superclass `supercls` of `cls`: that of the superclass,
or the given one under `DONT_INHERIT_SUPERCLASS_INHERITANCE`.  From the root metaclass to its infraclass
`DONT_INHERIT_PROTOCOL_META` drops the mixins. -/
def superInheritance (supercls : ClassRef P) (inheritance : ℕ) : ℕ :=
  (if has inheritance dontInheritSuperclassInheritance then inheritance else g.inheritance supercls) |||
    if has inheritance dontInheritProtocolMeta ∧ cls.isMeta = true ∧ supercls.isMeta = false then
      dontInheritProtocols
    else 0

/-! ## The linearization -/

/-- The visits, with a bound on the number of superclasses. -/
def linearizationTo (g : ClassGraph P) : ℕ → ClassRef P → ℕ → List (Visit P)
  | 0, _, _ => []
  | n + 1, cls, inheritance =>
    ownVisit g cls inheritance :: (mixinVisits g cls inheritance ++
      match g.superclass cls with
      | none => []
      | some supercls =>
        if has inheritance dontInheritSuperclass then []
        else linearizationTo g n supercls (superInheritance g cls supercls inheritance))

/-- The visits of a search that starts at `cls`. -/
def linearization (inheritance : ℕ) : List (Visit P) := linearizationTo g (g.rank cls + 1) cls inheritance

variable {g}

lemma linearizationTo_bound {n m : ℕ} {cls : ClassRef P} (hn : g.rank cls < n) (hm : g.rank cls < m)
    (inheritance : ℕ) : linearizationTo g n cls inheritance = linearizationTo g m cls inheritance := by
  induction n generalizing m cls inheritance with
  | zero => omega
  | succ n ih =>
    obtain ⟨m, rfl⟩ : ∃ k, m = k + 1 := ⟨m - 1, by omega⟩
    unfold linearizationTo
    cases hs : g.superclass cls with
    | none => rfl
    | some supercls =>
      have := ClassGraph.rank_superclass hs
      simp only
      rw [ih (m := m) (by omega) (by omega)]

/-- **The linearization**: the class object, its mixins, and the linearization of the superclass unless
`DONT_INHERIT_SUPERCLASS` is set. -/
theorem linearization_eq (g : ClassGraph P) (cls : ClassRef P) (inheritance : ℕ) :
    linearization g cls inheritance =
      ownVisit g cls inheritance :: (mixinVisits g cls inheritance ++
        match g.superclass cls with
        | none => []
        | some supercls =>
          if has inheritance dontInheritSuperclass then []
          else linearization g supercls (superInheritance g cls supercls inheritance)) := by
  rw [linearization, linearizationTo]
  cases hs : g.superclass cls with
  | none => rfl
  | some supercls =>
    have := ClassGraph.rank_superclass hs
    simp only
    rw [linearizationTo_bound (n := g.rank cls) this (Nat.lt_succ_self _)]
    rfl

/-! ## Candidates -/

section Candidates

variable {P : Type}

/-- The methods for `methodid` in the lists of a visit, in their order. -/
def Visit.hits (methodid : ℕ) (v : Visit P) : List (Hit P) :=
  v.lists.filterMap fun list => (list.search methodid).map (Hit.mk v.cls list)

/-- The methods for `methodid` along some visits, in their order. -/
def hits (methodid : ℕ) (path : List (Visit P)) : List (Hit P) := path.flatMap (Visit.hits methodid)

/-- The first candidate would shadow another one although it must not. -/
def Blocked (candidates : List (Hit P)) : Prop :=
  ∃ first rest, candidates = first :: rest ∧ first.method.isHiddenOverrideFatal = true ∧ rest ≠ []

/-- What a search settles on: the first candidate, and nothing when it shadows another one although it must
not. -/
def pick : List (Hit P) → Option (Hit P)
  | [] => none
  | first :: rest => if first.method.isHiddenOverrideFatal = true ∧ rest ≠ [] then none else some first

instance (candidates : List (Hit P)) : Decidable (Blocked candidates) :=
  match candidates with
  | [] => isFalse (by rintro ⟨_, _, h, _⟩; cases h)
  | first :: rest => decidable_of_iff (first.method.isHiddenOverrideFatal = true ∧ rest ≠ [])
      ⟨fun h => ⟨first, rest, rfl, h⟩, by rintro ⟨_, _, h, h'⟩; cases h; exact h'⟩

lemma blocked_cons {first : Hit P} {rest : List (Hit P)} :
    Blocked (first :: rest) ↔ first.method.isHiddenOverrideFatal = true ∧ rest ≠ [] :=
  ⟨by rintro ⟨_, _, h, h'⟩; cases h; exact h', fun h => ⟨first, rest, rfl, h⟩⟩

lemma not_blocked_nil : ¬ Blocked ([] : List (Hit P)) := by rintro ⟨_, _, h, _⟩; cases h

theorem pick_eq (candidates : List (Hit P)) :
    pick candidates = if Blocked candidates then none else candidates.head? := by
  cases candidates with
  | nil => rw [if_neg not_blocked_nil]; rfl
  | cons first rest => simp only [pick, blocked_cons, List.head?_cons]

lemma pick_eq_head {candidates : List (Hit P)}
    (h : ∀ c ∈ candidates, c.method.isHiddenOverrideFatal = false) : pick candidates = candidates.head? := by
  cases candidates with
  | nil => rfl
  | cons first rest => simp [pick, h first (by simp)]

end Candidates

end MulleObjcRuntime.Search
