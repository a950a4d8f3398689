import MulleObjcRuntime.Lib.AnchoredChain
import MulleObjcRuntime.Search.Overridden

/-!
# The super search

* `behindClass` — the visits behind the first class object with a class id;
* `searchMethod_super` — the super search settles on the matches there;
* `super_never_recurses_iff` — when a super call never gets back to the class object that issued it;
* `super_in_class_never_recurses` — it never does for a class that is no mixin and no root class.
-/

namespace MulleObjcRuntime.Search

open Classes Lib.AnchoredChain

section Scan

variable {P : Type} {g : ClassGraph P} {methodid classid : ℕ}

/-- The visits behind the first class object with the class id. -/
def behindClass (g : ClassGraph P) (classid : ℕ) (path : List (Visit P)) : List (Visit P) :=
  after (fun v : Visit P => g.classid v.cls) classid path

/-- The scan gathers the matches behind the anchor; without the anchor there is nothing behind it. -/
lemma scan_super (path : List (Visit P)) :
    (scan (.makeSuper methodid classid) g .superMethod path).hits = hits methodid (behindClass g classid path) := by
  induction path with
  | nil => rfl
  | cons v path ih =>
    obtain ⟨cls, lists⟩ := v
    have hclassid : (SearchArguments.makeSuper methodid classid : SearchArguments P).classid = classid := rfl
    rw [scan, scanVisit_super, hclassid, Scan.empty_andThen]
    by_cases hv : g.classid cls = classid
    · have hbehind : behindClass g classid (⟨cls, lists⟩ :: path) = path := by
        rw [behindClass, after, if_pos hv]
      have h1 : InternalMode.superMethod2 ≠ .imp := by decide
      have h3 : InternalMode.superMethod2 ≠ .overriddenMethod3 := by decide
      rw [if_pos hv.symm, hbehind, scan_settled .superMethod2]
      simp only [counted_eq_hits _ _ h1 h3]
      rfl
    · have hbehind : behindClass g classid (⟨cls, lists⟩ :: path) = behindClass g classid path := by
        rw [behindClass, after, if_neg hv, behindClass]
      rw [if_neg (Ne.symm hv), hbehind, ih]

lemma cls_of_mem_visit_hits {v : Visit P} {h : Hit P} (hm : h ∈ v.hits methodid) : h.cls = v.cls := by
  obtain ⟨list, -, hl⟩ := List.mem_filterMap.1 hm
  obtain ⟨m, -, rfl⟩ := Option.map_eq_some_iff.1 hl
  rfl

lemma hits_append (p q : List (Visit P)) : hits methodid (p ++ q) = hits methodid p ++ hits methodid q :=
  List.flatMap_append

/-- The first match is not in `X` exactly when every visit of `X` that has a match comes behind another class
object that has one. -/
lemma head_hits_ne_iff (X : ClassRef P) (path : List (Visit P)) :
    (∀ h, (hits methodid path).head? = some h → h.cls ≠ X) ↔
      ∀ pre v post, path = pre ++ v :: post → v.cls = X → v.hits methodid ≠ [] →
        ∃ w ∈ pre, w.cls ≠ X ∧ w.hits methodid ≠ [] := by
  constructor
  · rintro hne pre v post rfl hv hhits
    rw [hits_append] at hne
    rcases hpre : hits methodid pre with _ | ⟨h, rest⟩
    · -- `v` would have the first match
      obtain ⟨h, rest, hcons⟩ := List.exists_cons_of_ne_nil hhits
      refine absurd ?_ (hne h ?_)
      · rw [← hv]
        exact cls_of_mem_visit_hits (hcons ▸ List.mem_cons_self)
      · rw [hpre, hits, List.flatMap_cons, hcons]
        rfl
    · have hcls := hne h (by rw [hpre]; rfl)
      obtain ⟨w, hw, hhw⟩ := List.mem_flatMap.1 (hpre ▸ List.mem_cons_self : h ∈ hits methodid pre)
      exact ⟨w, hw, by rw [← cls_of_mem_visit_hits hhw]; exact hcls, List.ne_nil_of_mem hhw⟩
  · intro hcond h hh
    induction path with
    | nil => cases hh
    | cons v path ih =>
      rw [hits, List.flatMap_cons] at hh
      rcases hv : v.hits methodid with _ | ⟨h', rest⟩
      · rw [hv, List.nil_append] at hh
        refine ih (fun pre w post hpath hw hhw => ?_) hh
        obtain ⟨u, hu, huX, huh⟩ := hcond (v :: pre) w post (by rw [hpath]; rfl) hw hhw
        rcases List.mem_cons.1 hu with rfl | hu
        · exact absurd hv huh
        · exact ⟨u, hu, huX, huh⟩
      · rw [hv] at hh
        cases hh
        intro hX
        have hcls := cls_of_mem_visit_hits (hv ▸ List.mem_cons_self : h ∈ v.hits methodid)
        obtain ⟨w, hw, -⟩ := hcond [] v path rfl (by rw [← hcls, hX]) (by simp [hv])
        cases hw

end Scan

variable {P : Type} [DecidableEq P]

/-- **The super search** settles on the matches behind the first class object with its class id. -/
theorem searchMethod_super (g : ClassGraph P) (cls : ClassRef P) (inheritance methodid classid : ℕ) :
    Returns (searchMethod g [] cls (.makeSuper methodid classid) inheritance)
      (pick (hits methodid (behindClass g classid (linearization g cls inheritance)))) := by
  have h := (searchMethod_returns (.makeSuper methodid classid) g cls inheritance rfl rfl rfl .superMethod).1
  rwa [scan_super] at h

/-- **A super call returns the first match behind the first occurrence of its class, and never a method of the class
object `X` that issued it**, exactly when the first match is not shadowing another one although it must not, and
whenever `X` comes again with a match, another class object with a match lies between. -/
theorem super_never_recurses_iff (g : ClassGraph P) (cls X : ClassRef P) (methodid : ℕ) :
    (Returns (searchMethod g [] cls (.makeSuper methodid (g.classid X)) (g.inheritance cls))
        (hits methodid (behindClass g (g.classid X) (ownLinearization g cls))).head? ∧
      ∀ h, (hits methodid (behindClass g (g.classid X) (ownLinearization g cls))).head? = some h → h.cls ≠ X) ↔
    ¬ Blocked (hits methodid (behindClass g (g.classid X) (ownLinearization g cls))) ∧
      ∀ pre v post, behindClass g (g.classid X) (ownLinearization g cls) = pre ++ v :: post → v.cls = X →
        v.hits methodid ≠ [] → ∃ w ∈ pre, w.cls ≠ X ∧ w.hits methodid ≠ [] := by
  have hr := searchMethod_super g cls (g.inheritance cls) methodid (g.classid X)
  change Returns _ (pick (hits methodid (behindClass g (g.classid X) (ownLinearization g cls)))) at hr
  rw [pick_eq] at hr
  refine and_congr ⟨fun h hb => ?_, fun hb => ?_⟩ (head_hits_ne_iff X _)
  · have := h.unique hr
    rw [if_pos hb] at this
    obtain ⟨first, rest, hcons, -⟩ := hb
    rw [hcons] at this
    cases this
  · rwa [if_neg hb] at hr

/-! ## Classes that are no mixins -/

section Classes

variable {g : ClassGraph P} {cls X : ClassRef P} {inheritance : ℕ}

lemma mem_mixinVisits {v : Visit P} (hv : v ∈ mixinVisits g cls inheritance) :
    v.cls.pair ∈ (g.pair cls.pair).mixins := by
  unfold mixinVisits at hv
  split at hv
  · cases hv
  · obtain ⟨proto, hproto, rfl⟩ := List.mem_map.1 hv
    exact List.mem_reverse.1 (List.mem_filter.1 hproto).1

omit [DecidableEq P] in
lemma superclass_pair {supercls : ClassRef P} (hs : g.superclass cls = some supercls) :
    (g.pair cls.pair).superclass = some supercls.pair ∨
      (g.pair cls.pair).superclass = none ∧ supercls.pair = cls.pair := by
  obtain ⟨p, isMeta⟩ := cls
  unfold ClassGraph.superclass at hs
  rcases hq : (g.pair p).superclass with _ | q
  · rw [hq] at hs
    cases isMeta
    · cases hs
    · cases hs
      exact Or.inr ⟨rfl, rfl⟩
  · rw [hq] at hs
    cases isMeta <;> (cases hs; exact Or.inl rfl)

lemma depth_of_mem_linearization (hmixins : ∀ p, ∀ m ∈ (g.pair p).mixins, (g.pair m).isMixin = true)
    {v : Visit P} (hv : v ∈ linearization g cls inheritance) :
    (g.pair v.cls.pair).isMixin = true ∨ g.depth v.cls.pair ≤ g.depth cls.pair := by
  refine mem_linearization (motive := fun cls _ v =>
    (g.pair v.cls.pair).isMixin = true ∨ g.depth v.cls.pair ≤ g.depth cls.pair) ?_ ?_ ?_ hv
  · intro cls inheritance
    exact Or.inr (Nat.le_refl _)
  · intro cls inheritance v hv
    exact Or.inl (hmixins _ _ (mem_mixinVisits hv))
  · intro cls supercls _ v hs h
    refine h.imp_right fun h => h.trans ?_
    rcases superclass_pair hs with h | ⟨-, h⟩
    · exact (g.depth_superclass _ _ h).le
    · rw [h]

omit [DecidableEq P] in
lemma behindClass_append {classid : ℕ} {p : List (Visit P)} (hp : ∀ v ∈ p, g.classid v.cls ≠ classid)
    (q : List (Visit P)) : behindClass g classid (p ++ q) = behindClass g classid q := by
  induction p with
  | nil => rfl
  | cons v p ih =>
    unfold behindClass at ih ⊢
    rw [List.cons_append, after, if_neg (hp v (by simp))]
    exact ih fun w hw => hp w (List.mem_cons_of_mem _ hw)

/-- The class objects of a pair that is no mixin and no root are not visited behind its class id. -/
lemma pair_ne_of_mem_behindClass (hmixins : ∀ p, ∀ m ∈ (g.pair p).mixins, (g.pair m).isMixin = true)
    (hclassid : ∀ p, (g.pair p).classid = g.classid X → p = X.pair)
    (hclass : (g.pair X.pair).isMixin = false) (hroot : (g.pair X.pair).superclass ≠ none) {v : Visit P}
    (hv : v ∈ behindClass g (g.classid X) (linearization g cls inheritance)) : v.cls.pair ≠ X.pair := by
  induction cls using ClassGraph.superclass_induction g generalizing inheritance with
  | above cls ih =>
    have hmixin : ∀ w ∈ mixinVisits g cls inheritance, w.cls.pair ≠ X.pair := by
      intro w hw hwX
      have := hmixins _ _ (mem_mixinVisits hw)
      rw [hwX, hclass] at this
      cases this
    rw [linearization_visits] at hv
    by_cases hcls : g.classid cls = g.classid X
    · -- the class of `X` itself: its mixins, then pairs further up
      have hpair : cls.pair = X.pair := hclassid _ hcls
      have hown : g.classid (ownVisit g cls inheritance).cls = g.classid X := hcls
      rw [behindClass, after, if_pos hown] at hv
      rcases List.mem_append.1 hv with hv | hv
      · exact hmixin v hv
      · intro hX
        unfold superVisits at hv
        rcases hs : g.superclass cls with _ | supercls
        · rw [hs] at hv
          cases hv
        · rw [hs] at hv
          simp only at hv
          split at hv
          · cases hv
          · have hsuper := (superclass_pair hs).resolve_right fun h => hroot (hpair ▸ h.1)
            have hlt := g.depth_superclass _ _ hsuper
            rcases depth_of_mem_linearization hmixins hv with h | h
            · rw [hX, hclass] at h
              cases h
            · rw [hX, ← hpair] at h
              omega
    · rw [← List.cons_append, behindClass_append] at hv
      · unfold superVisits at hv
        rcases hs : g.superclass cls with _ | supercls
        · rw [hs] at hv
          cases hv
        · rw [hs] at hv
          simp only at hv
          split at hv
          · cases hv
          · exact ih supercls hs hv
      · intro w hw
        rcases List.mem_cons.1 hw with rfl | hw
        · exact hcls
        · exact fun h => hmixin w hw (hclassid _ h)

/-- **A super call of a class that is no mixin and no root class never gets back to it**: its class objects are
not visited again behind it. -/
theorem super_in_class_never_recurses (g : ClassGraph P) (cls X : ClassRef P) (methodid : ℕ)
    (hmixins : ∀ p, ∀ m ∈ (g.pair p).mixins, (g.pair m).isMixin = true)
    (hclassid : ∀ p, (g.pair p).classid = g.classid X → p = X.pair)
    (hclass : (g.pair X.pair).isMixin = false) (hroot : (g.pair X.pair).superclass ≠ none) :
    ∀ h, returned (searchMethod g [] cls (.makeSuper methodid (g.classid X)) (g.inheritance cls)) = some h →
      h.cls ≠ X := by
  intro h hh hX
  rw [(searchMethod_super g cls (g.inheritance cls) methodid (g.classid X)).returned_eq, pick_eq] at hh
  split at hh
  · cases hh
  · obtain ⟨v, hv, hvh⟩ := List.mem_flatMap.1 (List.mem_of_mem_head? hh)
    refine pair_ne_of_mem_behindClass hmixins hclassid hclass hroot hv ?_
    rw [← cls_of_mem_visit_hits hvh, hX]

end Classes

/-- The class of `sharedMixinGraph` without the method of its superclass. -/
def superMixinGraph : ClassGraph ℕ :=
  ClassGraph.ofList
    [ClassGraph.pairOf 3 none [] true ⟨0, [.single 0 ⟨103, 7, 0, 1003⟩]⟩ ⟨0, [.empty]⟩,
      ClassGraph.pairOf 1 none [0] false ⟨0, [.empty]⟩ ⟨0, [.empty]⟩,
      ClassGraph.pairOf 2 (some 1) [0] false ⟨0, [.empty]⟩ ⟨0, [.empty]⟩]

/-- The mixin is adopted by the class and by its superclass, and its super call selects its own method. -/
theorem super_of_shared_mixin_recurses :
    ¬ ∀ h, returned (searchMethod superMixinGraph [] ⟨2, false⟩ (.makeSuper 7 3)
      (superMixinGraph.inheritance ⟨2, false⟩)) = some h → h.cls ≠ ⟨0, false⟩ := by
  intro h
  exact h ⟨⟨0, false⟩, .single 0 ⟨103, 7, 0, 1003⟩, ⟨103, 7, 0, 1003⟩⟩ (by decide) rfl

end MulleObjcRuntime.Search
