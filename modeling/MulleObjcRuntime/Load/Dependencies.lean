import MulleObjcRuntime.Load.Defs

/-!
# When the dependencies of an item are met

* `isMet u d` — the class of a dependency is there, with its category if one is named;
* `LoadItem.dependencies` — everything an item names, `LoadItem.awaited` — what the loader waits for;
* `Extends u u'` — `u'` has everything the checks see in `u`;
* `Checks check deps` — what a dependency check says about `deps`, and how it changes as the universe grows;
* `checks_fulfill` — the checks of the loader are such checks.
-/

namespace MulleObjcRuntime.Load

open Classes Lib

/-! ## Items -/

section Items

/-- The class id of a class, a mixin, or of the class of a category. -/
def LoadItem.classid : LoadItem → ℕ
  | .loadclass info => info.base.classid
  | .loadmixin info => info.base.classid
  | .loadcategory info => info.classid

/-- The class methods an item brings. -/
def LoadItem.classmethods : LoadItem → Option MethodList
  | .loadclass info => info.base.classmethods
  | .loadmixin info => info.base.classmethods
  | .loadcategory info => info.classmethods

/-- The instance methods an item brings. -/
def LoadItem.instancemethods : LoadItem → Option MethodList
  | .loadclass info => info.base.instancemethods
  | .loadmixin info => info.base.instancemethods
  | .loadcategory info => info.instancemethods

variable (env : Environment) (u : Universe)

/-- What the `+dependencies` method of an item names. -/
def LoadItem.userDependencies (item : LoadItem) : List Dependency :=
  ((item.classmethods.bind bsearchDependenciesImp).bind env.dependencies).getD []

/-- What an item names besides: superclass and mixins, or class and mixins. -/
def LoadItem.namedDependencies : LoadItem → List Dependency
  | .loadclass info =>
    (if info.superclassid = 0 then [] else [⟨info.superclassid, 0⟩]) ++
      (info.mixinids.filter fun id => id ∉ [info.superclassid, info.base.classid]).map fun id => ⟨id, 0⟩
  | .loadmixin _ => []
  | .loadcategory info =>
    ⟨info.classid, 0⟩ :: (info.mixinids.filter fun id => id ∉ [info.classid]).map fun id => ⟨id, 0⟩

/-- All classes and categories an item depends on by what it names. -/
def LoadItem.dependencies (item : LoadItem) : List Dependency :=
  item.namedDependencies ++ item.userDependencies env

/-- The dependencies the loader waits for: a mixin is always installed at once. -/
def LoadItem.awaited (item : LoadItem) : List Dependency :=
  match item with
  | .loadmixin _ => []
  | item => item.dependencies env

/-- The dependency check of an item; a mixin has none. -/
def LoadItem.fulfill : LoadItem → Fulfilled
  | .loadclass info => loadclassFulfillDependencies env u info
  | .loadmixin _ => .ok none
  | .loadcategory info => loadcategoryFulfillDependencies env u info

end Items

/-! ## Met dependencies -/

/-- The class of the dependency is there, with the category if one is named. -/
def isMet (u : Universe) (dependency : Dependency) : Bool :=
  match u.lookup dependency.classid with
  | none => false
  | some i => dependency.categoryid == 0 || (u.pair i).categoryids.contains dependency.categoryid

/-- The first of some dependencies that is not met. -/
def firstUnmet (u : Universe) (dependencies : List Dependency) : Option Dependency :=
  dependencies.find? fun dependency => !isMet u dependency

/-- What the checks of the loader see of a class pair. -/
def summary (p : Pair) : ℕ × String × ℕ × Bool := (p.classid, p.classname, p.ivarhash, p.isMixin)

/-- `u'` has every class of `u`, with the same data and at least the same categories. -/
def Extends (u u' : Universe) : Prop :=
  ∀ c i, u.lookup c = some i →
    ∃ j, u'.lookup c = some j ∧ summary (u'.pair j) = summary (u.pair i) ∧
      (u.pair i).categoryids ⊆ (u'.pair j).categoryids

variable {env : Environment} {u u' : Universe} {d : Dependency} {deps deps' : List Dependency}

lemma isMet_class {c : ℕ} : isMet u ⟨c, 0⟩ = true ↔ u.lookup c ≠ none := by
  unfold isMet
  cases u.lookup c <;> simp

lemma not_isMet_class {c : ℕ} : isMet u ⟨c, 0⟩ = false ↔ u.lookup c = none := by
  unfold isMet
  cases u.lookup c <;> simp

lemma Extends.isMet (h : Extends u u') (hd : isMet u d = true) : isMet u' d = true := by
  unfold Load.isMet at hd ⊢
  cases hi : u.lookup d.classid with
  | none =>
    rw [hi] at hd
    cases hd
  | some i =>
    rw [hi] at hd
    obtain ⟨j, hj, -, hcat⟩ := h _ _ hi
    rw [hj]
    simp only [Bool.or_eq_true, beq_iff_eq, List.contains_iff_mem] at hd ⊢
    exact hd.imp_right fun hk => hcat hk

lemma firstUnmet_eq_none : firstUnmet u deps = none ↔ ∀ d ∈ deps, isMet u d = true := by
  simp [firstUnmet]

lemma firstUnmet_eq_some (h : firstUnmet u deps = some d) : d ∈ deps ∧ isMet u d = false := by
  unfold firstUnmet at h
  exact ⟨List.mem_of_find?_eq_some h, by simpa using List.find?_some h⟩

lemma Extends.firstUnmet (hext : Extends u u') (h : firstUnmet u deps = some d) (hd : Load.isMet u' d = false) :
    Load.firstUnmet u' deps = some d := by
  unfold Load.firstUnmet at h ⊢
  rw [List.find?_eq_some_iff_append] at h ⊢
  obtain ⟨-, pre, post, rfl, hpre⟩ := h
  refine ⟨by simpa using hd, pre, post, rfl, fun a ha => ?_⟩
  simpa using hext.isMet (by simpa using hpre a ha)

/-! ## Checks -/

/-- A check of the dependencies `deps`: it passes when all are met and names one that is not otherwise.  As the
universe grows, it passes or fails for good, and names a dependency as long as this one is not met. -/
structure Checks (check : Universe → Fulfilled) (deps : List Dependency) : Prop where
  met : ∀ u, check u = .ok none → ∀ d ∈ deps, isMet u d = true
  unmet : ∀ u d, check u = .ok (some d) → d ∈ deps ∧ isMet u d = false
  passes : ∀ u u', Extends u u' → check u = .ok none → check u' = .ok none
  waits : ∀ u u' d, Extends u u' → check u = .ok (some d) → isMet u' d = false → check u' = .ok (some d)
  fails : ∀ u u' e, Extends u u' → check u = .error e → check u' = .error e

lemma Checks.next {first second : Universe → Fulfilled} (h : Checks first deps) (h' : Checks second deps') :
    Checks (fun u => (first u).next (second u)) (deps ++ deps') := by
  -- what the two checks together say, by what the first one says
  have hpass : ∀ u, first u = .ok none → (first u).next (second u) = second u := fun u hu => by rw [hu]; rfl
  have hstop : ∀ u, first u ≠ .ok none → (first u).next (second u) = first u := by
    intro u hu
    unfold Fulfilled.next
    split
    · exact absurd ‹_› hu
    · rfl
  constructor
  · intro u hu d hd
    by_cases h0 : first u = .ok none
    · rw [hpass u h0] at hu
      exact (List.mem_append.1 hd).elim (h.met u h0 d) (h'.met u hu d)
    · rw [hstop u h0] at hu
      exact absurd hu h0
  · intro u d hu
    by_cases h0 : first u = .ok none
    · rw [hpass u h0] at hu
      exact (h'.unmet u d hu).imp_left fun hd => List.mem_append_right _ hd
    · rw [hstop u h0] at hu
      exact (h.unmet u d hu).imp_left fun hd => List.mem_append_left _ hd
  · intro u u' hext hu
    by_cases h0 : first u = .ok none
    · rw [hpass u h0] at hu
      rw [hpass u' (h.passes u u' hext h0)]
      exact h'.passes u u' hext hu
    · rw [hstop u h0] at hu
      exact absurd hu h0
  · intro u u' d hext hu hd
    by_cases h0 : first u = .ok none
    · rw [hpass u h0] at hu
      rw [hpass u' (h.passes u u' hext h0)]
      exact h'.waits u u' d hext hu hd
    · rw [hstop u h0] at hu
      have := h.waits u u' d hext hu hd
      rw [hstop u' (by rw [this]; nofun), this]
  · intro u u' e hext hu
    by_cases h0 : first u = .ok none
    · rw [hpass u h0] at hu
      rw [hpass u' (h.passes u u' hext h0)]
      exact h'.fails u u' e hext hu
    · rw [hstop u h0] at hu
      have := h.fails u u' e hext hu
      rw [hstop u' (by rw [this]; nofun), this]

lemma checks_firstUnmet (deps : List Dependency) : Checks (fun u => .ok (firstUnmet u deps)) deps where
  met u hu := firstUnmet_eq_none.1 (Except.ok.inj hu)
  unmet u d hu := firstUnmet_eq_some (Except.ok.inj hu)
  passes u u' hext hu := by
    have := firstUnmet_eq_none.1 (Except.ok.inj hu)
    rw [firstUnmet_eq_none.2 fun d hd => hext.isMet (this d hd)]
  waits u u' d hext hu hd := by rw [hext.firstUnmet (Except.ok.inj hu) hd]
  fails u u' e hext hu := by cases hu

lemma checks_error (e : Failure) : Checks (fun _ => .error e) [] where
  met u hu := by cases hu
  unmet u d hu := by cases hu
  passes u u' _ hu := by cases hu
  waits u u' d _ hu := by cases hu
  fails u u' e' _ hu := hu

/-! ## The checks of the loader -/

/-- The loop looks for the first dependency that is not met. -/
lemma fulfillDependencies_eq {infra : Option ℕ} (h : ∀ i ∈ infra, u.lookup (u.pair i).classid = some i)
    (deps : List Dependency) : fulfillDependencies u infra deps = firstUnmet u deps := by
  induction deps generalizing infra with
  | nil => rfl
  | cons d deps ih =>
    unfold fulfillDependencies
    -- the class looked at last is what the lookup finds
    have hcur : (infra.filter fun i => (u.pair i).classid = d.classid).or (u.lookup d.classid) =
        u.lookup d.classid := by
      rcases infra with _ | i
      · rfl
      · by_cases hi : (u.pair i).classid = d.classid
        · have := h i rfl
          rw [hi] at this
          simp [Option.filter, hi, this]
        · simp [Option.filter, hi]
    simp only [hcur]
    unfold firstUnmet
    rw [List.find?_cons]
    cases hi : u.lookup d.classid with
    | none =>
      have hd : isMet u d = false := by simp [isMet, hi]
      simp [hd]
    | some i =>
      simp only
      by_cases hcat : d.categoryid ≠ 0 ∧ d.categoryid ∉ (u.pair i).categoryids
      · have hd : isMet u d = false := by simp [isMet, hi, hcat]
        simp [hcat.1, hcat.2, hd]
      · have hd : isMet u d = true := by
          simp only [isMet, hi, Bool.or_eq_true, beq_iff_eq, List.contains_iff_mem]
          tauto
        rw [if_neg hcat, ih (by rintro _ ⟨⟩; exact Universe.lookup_pair hi), hd]
        rfl

lemma fulfillMixins_eq (skip mixinids : List ℕ) :
    fulfillMixins u skip mixinids =
      .ok (firstUnmet u ((mixinids.filter fun id => id ∉ skip).map fun id => ⟨id, 0⟩)) := by
  unfold fulfillMixins firstUnmet
  rw [List.find?_map, List.find?_filter]
  congr 3
  funext id
  cases hi : u.lookup id with
  | none => simp [not_isMet_class.2 hi]
  | some i => simp [isMet_class.2 (by simp [hi] : u.lookup id ≠ none)]

lemma checks_fulfillUserDependencies (env : Environment) (item : LoadItem) (classname : String)
    (infra : Universe → Option ℕ) (h : ∀ u, ∀ i ∈ infra u, u.lookup (u.pair i).classid = some i) :
    Checks (fun u => fulfillUserDependencies env u (infra u) classname item.classmethods)
      (item.userDependencies env) := by
  unfold fulfillUserDependencies LoadItem.userDependencies
  cases himp : item.classmethods.bind bsearchDependenciesImp with
  | none => exact checks_firstUnmet []
  | some imp =>
    cases hdeps : env.dependencies imp with
    | none => simpa [hdeps] using checks_error (.dependenciesNull classname)
    | some deps =>
      simp only [hdeps, Option.bind_some, Option.getD_some]
      have : (fun u => Except.ok (fulfillDependencies u (infra u) deps) : Universe → Fulfilled) =
          fun u => .ok (firstUnmet u deps) := funext fun u => by rw [fulfillDependencies_eq (h u)]
      rw [this]
      exact checks_firstUnmet deps

/-- The superclass is checked by its name and its instance variables, too. -/
lemma checks_fulfillSuperclass (env : Environment) (info : LoadClass) :
    Checks (fun u => fulfillSuperclass env u info)
      (if info.superclassid = 0 then [] else [⟨info.superclassid, 0⟩]) := by
  by_cases h0 : info.superclassid = 0
  · simp only [fulfillSuperclass, if_pos h0]
    exact checks_firstUnmet []
  · simp only [fulfillSuperclass, if_neg h0]
    -- with the superclass present, the answer depends on its summary only
    have hsummary : ∀ u u', Extends u u' → ∀ i, u.lookup info.superclassid = some i →
        ∃ j, u'.lookup info.superclassid = some j ∧ (u'.pair j).classname = (u.pair i).classname ∧
          (u'.pair j).ivarhash = (u.pair i).ivarhash := by
      intro u u' hext i hi
      obtain ⟨j, hj, hs, -⟩ := hext _ _ hi
      simp only [summary, Prod.mk.injEq] at hs
      exact ⟨j, hj, hs.2.1, hs.2.2.1⟩
    constructor
    · intro u hu d hd
      rw [List.mem_singleton.1 hd, isMet_class]
      intro hnone
      rw [hnone] at hu
      cases hu
    · intro u d hu
      cases hi : u.lookup info.superclassid with
      | none =>
        rw [hi] at hu
        cases hu
        exact ⟨List.mem_singleton_self _, not_isMet_class.2 hi⟩
      | some i =>
        rw [hi] at hu
        simp only at hu
        split at hu
        · cases hu
        · split at hu <;> cases hu
    · intro u u' hext hu
      cases hi : u.lookup info.superclassid with
      | none =>
        rw [hi] at hu
        cases hu
      | some i =>
        obtain ⟨j, hj, hname, hivar⟩ := hsummary u u' hext i hi
        rw [hi] at hu
        rw [hj]
        simpa only [hname, hivar] using hu
    · intro u u' d hext hu hd
      cases hi : u.lookup info.superclassid with
      | none =>
        rw [hi] at hu
        cases hu
        rw [not_isMet_class.1 hd]
      | some i =>
        rw [hi] at hu
        simp only at hu
        split at hu
        · cases hu
        · split at hu <;> cases hu
    · intro u u' e hext hu
      cases hi : u.lookup info.superclassid with
      | none =>
        rw [hi] at hu
        cases hu
      | some i =>
        obtain ⟨j, hj, hname, hivar⟩ := hsummary u u' hext i hi
        rw [hi] at hu
        rw [hj]
        simpa only [hname, hivar] using hu

/-- **The dependency check of an item** is a check of what it waits for. -/
theorem checks_fulfill (env : Environment) (item : LoadItem) :
    Checks (fun u => item.fulfill env u) (item.awaited env) := by
  cases item with
  | loadclass info =>
    have hmixins := checks_firstUnmet
      ((info.mixinids.filter fun id => id ∉ [info.superclassid, info.base.classid]).map fun id => ⟨id, 0⟩)
    have huser := checks_fulfillUserDependencies env (.loadclass info) info.base.classname (fun _ => none)
      (by rintro u _ ⟨⟩)
    have := (checks_fulfillSuperclass env info).next (hmixins.next huser)
    rw [← List.append_assoc] at this
    simp only [← fulfillMixins_eq] at this
    exact this
  | loadmixin info => exact checks_firstUnmet []
  | loadcategory info =>
    have hmixins := checks_firstUnmet
      ((info.mixinids.filter fun id => id ∉ [info.classid]).map fun id => ⟨id, 0⟩)
    have huser := checks_fulfillUserDependencies env (.loadcategory info) info.classname
      (fun u => u.lookup info.classid) fun u i hi => Universe.lookup_pair hi
    have := (checks_firstUnmet [⟨info.classid, 0⟩]).next (hmixins.next huser)
    simp only [← fulfillMixins_eq] at this
    refine (funext fun u => ?_ : (fun u => LoadItem.fulfill env u (.loadcategory info)) = _) ▸ this
    show loadcategoryFulfillDependencies env u info = _
    unfold loadcategoryFulfillDependencies
    cases hi : u.lookup info.classid with
    | none =>
      have : firstUnmet u [⟨info.classid, 0⟩] = some ⟨info.classid, 0⟩ := by
        simp [firstUnmet, not_isMet_class.2 hi]
      rw [this]
      rfl
    | some infra =>
      have : firstUnmet u [⟨info.classid, 0⟩] = none :=
        firstUnmet_eq_none.2 fun d hd => by
          rw [List.mem_singleton.1 hd]
          exact isMet_class.2 (by simp [hi])
      rw [this]
      rfl

end MulleObjcRuntime.Load
