import MulleObjcRuntime.Search.Frames

/-!
# The default search

* `Returns` — what a search gives back, as a class object, list and method;
* `searchMethod_returns` — a search without a callback settles on the candidates of its scan;
* `searchMethod_default` — the default search settles on the matches of the linearization;
* `default_first_match` — without fatal hidden overrides it returns the first match;
* `mixin_flags_matter` — the flags of a mixin decide which of its lists are visible.
-/

namespace MulleObjcRuntime.Search

open Classes

variable {P : Type} [DecidableEq P] {search : SearchArguments P} {g : ClassGraph P} {cls : ClassRef P}
  {inheritance : ℕ}

/-! ## What a search gives back -/

/-- The search returns the method of a hit and leaves the hit as its result, or returns `NULL`. -/
def Returns (r : Outcome × SearchState P) : Option (Hit P) → Prop
  | none => r.1 = .null
  | some h => r.1 = .found h.method ∧ r.2.result = some h

/-- The hit a search gives back. -/
def returned (r : Outcome × SearchState P) : Option (Hit P) :=
  match r.1 with
  | .found _ => r.2.result
  | _ => none

omit [DecidableEq P] in
lemma Returns.returned_eq {r : Outcome × SearchState P} {h : Option (Hit P)} (hr : Returns r h) :
    returned r = h := by
  cases h with
  | none =>
    unfold returned
    rw [show r.1 = .null from hr]
  | some h =>
    unfold returned
    rw [hr.1]
    exact hr.2

omit [DecidableEq P] in
lemma Returns.unique {r : Outcome × SearchState P} {h h' : Option (Hit P)} (hr : Returns r h)
    (hr' : Returns r h') : h = h' := by
  rw [← hr.returned_eq, hr'.returned_eq]

lemma searchMethod_eq (mode : InternalMode) (hmode : search.mode.toInternal? = some mode) :
    searchMethod g [] cls search inheritance =
      whenMissing (searchMethodOnce search g cls inheritance ⟨mode, .ENOENT, none, []⟩) fun st => (.null, st) := by
  unfold searchMethod
  rw [hmode]
  rfl

omit [DecidableEq P] in
/-- A scan that ends settled: its candidates decide. -/
lemma returns_of_settled {st : SearchState P} {s : Scan P} {r : Outcome × SearchState P}
    (herror : st.error = .ENOENT) (hm : Settled s.mode) (hstopped : s.stopped = false)
    (hr : Settles none st s r) :
    Returns (whenMissing (checkAnchor r) fun st => (.null, st)) (pick s.hits) ∧
      (s.hits = [] → (whenMissing (checkAnchor r) fun st => (.null, st)).2.error = .ENOENT) := by
  have hcheck : r.2.mode = s.mode → checkAnchor r = r := fun h => by
    rw [checkAnchor, if_neg (by rw [h]; exact hm.ne.2)]
  unfold Settles at hr
  cases hh : s.hits with
  | nil =>
    simp only [hh, hstopped, Bool.false_eq_true, if_false] at hr
    rw [hcheck (by rw [hr]), hr]
    simp [Returns, pick, herror]
  | cons h rest =>
    simp only [hh] at hr
    refine ⟨?_, fun h => by cases h⟩
    by_cases hb : h.method.isHiddenOverrideFatal = true ∧ rest ≠ []
    · rw [if_pos hb] at hr
      obtain ⟨o, st'⟩ := r
      obtain ⟨h1, h2, -⟩ := hr
      simp only at h1
      subst h1
      rw [hcheck h2, pick, if_pos hb, whenMissing_null]
      rfl
    · rw [if_neg hb] at hr
      rw [hcheck (by rw [hr]), hr, pick, if_neg hb, whenMissing_found]
      exact ⟨rfl, rfl⟩

/-- **A search without a callback** settles on the candidates of its scan, once its anchor is met. -/
theorem searchMethod_returns (search : SearchArguments P) (g : ClassGraph P) (cls : ClassRef P) (inheritance : ℕ)
    {mode : InternalMode} (hcb : search.callback = none)
    (hstop : search.stopClassid = 0) (hmode : search.mode.toInternal? = some mode) (hm : Plain mode) :
    let s := scan search g mode (linearization g cls inheritance)
    Returns (searchMethod g [] cls search inheritance) (pick s.hits) ∧
      (s.hits = [] → s.stopped = false → Settled s.mode →
        (searchMethod g [] cls search inheritance).2.error = .ENOENT) := by
  intro s
  have hr : Settles none ⟨mode, .ENOENT, none, []⟩ s
      (searchMethodInternal search g (g.rank cls + 2) cls inheritance ⟨mode, .ENOENT, none, []⟩) :=
    searchMethodInternal_settles hcb hstop (Or.inl (Nat.le_refl _)) hm
  rw [searchMethod_eq mode hmode, searchMethodOnce]
  rcases scan_cases search g hm (linearization g cls inheritance) with ⟨h1, h2⟩ | ⟨hh, h⟩
  · have := returns_of_settled rfl h2 h1 hr
    exact ⟨this.1, fun hnil _ _ => this.2 hnil⟩
  · change s.hits = [] at hh
    change s.stopped = true ∨ Plain s.mode at h
    by_cases hset : Settled s.mode ∧ s.stopped = false
    · have := returns_of_settled rfl hset.1 hset.2 hr
      exact ⟨this.1, fun hnil _ _ => this.2 hnil⟩
    · refine ⟨?_, fun _ hs hm => absurd ⟨hm, hs⟩ hset⟩
      rw [hh]
      unfold Settles at hr
      simp only [hh] at hr
      cases hs : s.stopped with
      | true =>
        -- the class of the anchor lacks its category
        rw [hs, if_pos rfl] at hr
        rw [hr, checkAnchor]
        split <;> rfl
      | false =>
        rw [hs] at h hr hset
        have hmode : s.mode = .superMethod ∨ s.mode = .overriddenMethod :=
          (h.resolve_left (by simp)).settled_or.resolve_left fun hm => hset ⟨hm, rfl⟩
        simp only [Bool.false_eq_true, if_false] at hr
        rw [hr, checkAnchor, if_pos (Or.inr hmode)]
        rfl

/-! ## The matches of the linearization -/

omit [DecidableEq P] in
lemma counted_eq_hits (search : SearchArguments P) (g : ClassGraph P) {mode : InternalMode} (himp : mode ≠ .imp) (h3 : mode ≠ .overriddenMethod3)
    (v : Visit P) : counted search g mode v.cls v.lists = v.hits search.methodid := by
  unfold counted Visit.hits methodlistSearch
  simp [himp, h3]

omit [DecidableEq P] in
lemma scan_default (methodid : ℕ) (path : List (Visit P)) :
    scan (.makeDefault methodid) g .default path = ⟨.default, hits methodid path, false⟩ := by
  rw [scan_settled .default]
  have h1 : InternalMode.default ≠ .imp := by decide
  have h3 : InternalMode.default ≠ .overriddenMethod3 := by decide
  simp only [counted_eq_hits _ _ h1 h3]
  rfl

/-- **The default search** settles on the matches of the linearization, in their order. -/
theorem searchMethod_default (g : ClassGraph P) (cls : ClassRef P) (methodid inheritance : ℕ) :
    Returns (searchMethod g [] cls (.makeDefault methodid) inheritance)
        (pick (hits methodid (linearization g cls inheritance))) ∧
      (hits methodid (linearization g cls inheritance) = [] →
        (searchMethod g [] cls (.makeDefault methodid) inheritance).2.error = .ENOENT) := by
  have h := searchMethod_returns (.makeDefault methodid) g cls inheritance rfl rfl rfl (.settled .default)
  rw [scan_default] at h
  exact ⟨h.1, fun hnil => h.2 hnil rfl .default⟩

/-- **A default search returns the first match of the linearization**, and no method, with `ENOENT`, exactly when
no visible list has the method. -/
theorem default_first_match (g : ClassGraph P) (cls : ClassRef P) (methodid inheritance : ℕ)
    (hfatal : ∀ h ∈ hits methodid (linearization g cls inheritance), h.method.isHiddenOverrideFatal = false) :
    Returns (searchMethod g [] cls (.makeDefault methodid) inheritance)
        (hits methodid (linearization g cls inheritance)).head? ∧
      ((searchMethod g [] cls (.makeDefault methodid) inheritance).1 = .null ↔
        ∀ v ∈ linearization g cls inheritance, ∀ list ∈ v.lists, list.search methodid = none) ∧
      ((searchMethod g [] cls (.makeDefault methodid) inheritance).1 = .null →
        (searchMethod g [] cls (.makeDefault methodid) inheritance).2.error = .ENOENT) := by
  obtain ⟨hreturns, herror⟩ := searchMethod_default g cls methodid inheritance
  rw [pick_eq_head hfatal] at hreturns
  have hnull : (searchMethod g [] cls (.makeDefault methodid) inheritance).1 = .null ↔
      hits methodid (linearization g cls inheritance) = [] := by
    cases hh : hits methodid (linearization g cls inheritance) with
    | nil =>
      rw [hh] at hreturns
      exact ⟨fun _ => rfl, fun _ => hreturns⟩
    | cons h rest =>
      rw [hh] at hreturns
      refine ⟨fun h0 => ?_, fun h0 => by cases h0⟩
      have := hreturns.1
      rw [h0] at this
      cases this
  refine ⟨hreturns, ?_, fun h => herror (hnull.1 h)⟩
  rw [hnull, hits, List.flatMap_eq_nil_iff]
  simp [Visit.hits]

/-- A class `2` below a root class `1`, which has a category `41` and adopts the mixin `3`. -/
def sampleGraph : ClassGraph ℕ :=
  ClassGraph.ofList
    [ClassGraph.pairOf 3 none [] true ⟨0, [.single 0 ⟨100, 7, 0, 1000⟩]⟩ ⟨0, [.empty]⟩,
      ClassGraph.pairOf 1 none [0] false
        ⟨0, [.single 0 ⟨101, 7, 0, 1001⟩, .single 41 ⟨102, 8, 0, 1002⟩]⟩ ⟨0, [.empty]⟩,
      ClassGraph.pairOf 2 (some 1) [] false ⟨0, [.empty]⟩ ⟨0, [.empty]⟩]

/-- The class inherits the method of the root class, which shadows that of the mixin. -/
theorem default_first_match_sample :
    (hits 7 (linearization sampleGraph ⟨2, false⟩ 0)).length = 2 ∧
      Returns (searchMethod sampleGraph [] ⟨2, false⟩ (.makeDefault 7) 0)
        (hits 7 (linearization sampleGraph ⟨2, false⟩ 0)).head? :=
  ⟨by decide, (default_first_match sampleGraph ⟨2, false⟩ 7 0 (by decide)).1⟩

/-! ## The flags of a mixin -/

/-- The mixins of a class as they would be visited if they had no flags of their own. -/
def plainMixinVisits (g : ClassGraph P) (cls : ClassRef P) (inheritance : ℕ) : List (Visit P) :=
  if has inheritance dontInheritProtocols ∨ (g.pair cls.pair).isMixin then []
  else
    (g.pair cls.pair).mixins.reverse.map fun proto =>
      ⟨mixinRef cls proto,
        visibleLists (if has inheritance dontInheritProtocolCategories then dontInheritCategories else 0)
          (g.methodlists (mixinRef cls proto))⟩

/-- A root class `1` that adopts a mixin `0`, whose `@implementation` has the method `7` but is not to be
inherited from. -/
def hiddenMixinGraph : ClassGraph ℕ :=
  ClassGraph.ofList
    [ClassGraph.pairOf 2 none [] true ⟨dontInheritClass, [.single 0 ⟨100, 7, 0, 1000⟩]⟩ ⟨0, [.empty]⟩,
      ClassGraph.pairOf 1 none [0] false ⟨0, [.empty]⟩ ⟨0, [.empty]⟩]

/-- The first match among the class and its mixins is not what the search returns when a mixin hides its
methods. -/
theorem mixin_flags_matter :
    hiddenMixinGraph.superclass ⟨1, false⟩ = none ∧
      ¬ Returns (searchMethod hiddenMixinGraph [] ⟨1, false⟩ (.makeDefault 7) 0)
        (hits 7 (ownVisit hiddenMixinGraph ⟨1, false⟩ 0 ::
          plainMixinVisits hiddenMixinGraph ⟨1, false⟩ 0)).head? := by
  refine ⟨by decide, fun h => ?_⟩
  have := h.returned_eq
  revert this
  decide

end MulleObjcRuntime.Search
