import MulleObjcRuntime.Search.Specific
import MulleObjcRuntime.Search.Delivery

/-!
# The specific search leaves its result alone

With any callback and any stop class.

* `glance`, `seek` — what a specific search comes upon along its stations;
* `Keeps` — it never writes its result;
* `Untold` — what it returns: exactly, when it comes upon nothing or has no callback;
* `searchMethodInternal_untold` — the recursion, by induction on its depth.
-/

namespace MulleObjcRuntime.Search

open Classes

variable {P : Type}

/-! ## What is come upon -/

/-- What a specific search comes upon first: the end of its way, an end with `NULL`, or a method with what is behind
it. -/
inductive Sought (P : Type)
  | fail (mode : InternalMode)
  | null
  | hit (method : Method) (inMixin : Bool) (rest : List (Station P))

section Seek

variable (search : SearchArguments P) (g : ClassGraph P)

/-- What a class object does with the stage of the search; the stop class ends it like a missing category. -/
def glance (mode : InternalMode) (v : Visit P) : Look :=
  if g.classid v.cls = search.stopClassid ∧ (mode = .specificMethod3 ∨ search.classid = g.classid v.cls) then .lacking
  else look g search mode v

/-- The way of a specific search up to the first method.  A class that misses ends it, a mixin that misses does
not. -/
def seek : InternalMode → List (Station P) → Sought P
  | mode, [] => .fail mode
  | mode, s :: rest =>
    match glance search g mode s.visit with
    | .pass => seek mode rest
    | .lacking => .null
    | .miss => if s.inMixin then seek .specificMethod3 rest else .fail .specificMethod3
    | .hit method => .hit method s.inMixin rest

lemma seek_cons (mode : InternalMode) (s : Station P) (rest : List (Station P)) :
    seek search g mode (s :: rest) =
      match glance search g mode s.visit with
      | .pass => seek search g mode rest
      | .lacking => .null
      | .miss => if s.inMixin then seek search g .specificMethod3 rest else .fail .specificMethod3
      | .hit method => .hit method s.inMixin rest := rfl

/-- What a part of the search returns that comes upon `s`, when `found` is pending.  A callback may say anything to
the method of a mixin. -/
def Brings (found : Option Method) (st : SearchState P) (s : Sought P) (r : Outcome × SearchState P) : Prop :=
  match s with
  | .fail mode => r = (.ofFound found, { st with mode := mode })
  | .null => r.1 = .null
  | .hit m inMixin rest => search.callback = none →
    match found with
    | some _ => r.1 = .null
    | none =>
      if inMixin = true ∧ m.isHiddenOverrideFatal = true then
        match seek search g .specificMethod3 rest with
        | .fail mode => r = (.found m, { st with mode := mode })
        | _ => r.1 = .null
      else r = (.found m, { st with mode := .specificMethod3 })

/-- A part of the search does not write the result, and goes on in one of its stages. -/
structure Keeps (st : SearchState P) (r : Outcome × SearchState P) : Prop where
  result : r.2.result = st.result
  staged : r.1 ≠ .null → Staged r.2.mode ∧ r.2.error = st.error

/-- What a part of a specific search does along its stations. -/
structure Untold (found : Option Method) (st : SearchState P) (path : List (Station P))
    (r : Outcome × SearchState P) : Prop where
  keeps : Keeps st r
  brings : Brings search g found st (seek search g st.mode path) r

variable {search g} {found : Option Method} {st : SearchState P} {path p q : List (Station P)}
  {r : Outcome × SearchState P} {k : Option Method → SearchState P → Outcome × SearchState P} {v : Visit P}
  {cls : ClassRef P} {i : ℕ}

lemma keeps_refl (o : Outcome) (hm : Staged st.mode) : Keeps st (o, st) := ⟨rfl, fun _ => ⟨hm, rfl⟩⟩

lemma Keeps.trans (st' : SearchState P) (hresult : st'.result = st.result) (herror : st'.error = st.error)
    (hr : Keeps st' r) : Keeps st r :=
  ⟨hr.result.trans hresult, fun hne => ⟨(hr.staged hne).1, (hr.staged hne).2.trans herror⟩⟩

/-- In a merge nothing is written either. -/
lemma mergeMethod_keeps (hr : Keeps st r) (hk : ∀ found st, Staged st.mode → Keeps st (k found st)) :
    Keeps st (mergeMethod found r k) := by
  obtain ⟨o, st'⟩ := r
  cases o with
  | fail =>
    obtain ⟨hm, herror⟩ := hr.staged (by simp)
    exact (hk found st' hm).trans st' hr.result herror
  | found m =>
    obtain ⟨hm, herror⟩ := hr.staged (by simp)
    unfold mergeMethod
    simp only
    split
    · exact ⟨hr.result, fun h => absurd rfl h⟩
    · split
      · exact (hk (some m) st' hm).trans st' hr.result herror
      · exact hr
  | null => exact hr
  | inconsistency => exact hr
  | outOfFuel => exact hr

lemma mergeMixin_keeps (hr : Keeps st r) (hk : ∀ found st, Staged st.mode → Keeps st (k found st)) :
    Keeps st (mergeMixin search cls i found r k) := by
  obtain ⟨o, st'⟩ := r
  cases o with
  | fail =>
    obtain ⟨hm, herror⟩ := hr.staged (by simp)
    exact (hk found st' hm).trans st' hr.result herror
  | found m =>
    obtain ⟨hm, herror⟩ := hr.staged (by simp)
    have hresult : st'.result = st.result := hr.result
    have hgo : ∀ found reports, Keeps st (k found { st' with reports := reports }) := fun found reports =>
      Keeps.trans { st' with reports := reports } hresult herror (hk found _ hm)
    have hkeep : ∀ reports, Keeps st
        (if m.isHiddenOverrideFatal = true then k (some m) { st' with reports := reports }
          else (.found m, { st' with reports := reports })) := by
      intro reports
      split
      · exact hgo _ _
      · exact ⟨hr.result, fun _ => ⟨hm, herror⟩⟩
    have hnull : ∀ reports error, Keeps st (.null, { st' with error := error, reports := reports }) :=
      fun _ _ => ⟨hr.result, fun h => absurd rfl h⟩
    simp only [mergeMixin, afterMixin]
    split
    · exact hnull _ _
    · split
      · exact hkeep st'.reports
      · split
        · exact hgo _ _
        · exact hkeep _
        · exact hgo _ _
        · exact hnull _ _
        · exact hnull _ _
  | null => exact hr
  | inconsistency => exact hr
  | outOfFuel => exact hr

lemma seek_append (hp : ∀ s ∈ p, s.inMixin = true) (mode : InternalMode) (q : List (Station P)) :
    seek search g mode (p ++ q) =
      match seek search g mode p with
      | .fail mode => seek search g mode q
      | .null => .null
      | .hit m inMixin rest => .hit m inMixin (rest ++ q) := by
  induction p generalizing mode with
  | nil => rfl
  | cons s p ih =>
    have ih := ih fun s hs => hp s (List.mem_cons_of_mem _ hs)
    rw [List.cons_append, seek, seek, hp s List.mem_cons_self]
    cases glance search g mode s.visit with
    | pass => exact ih mode
    | lacking => rfl
    | miss => exact ih .specificMethod3
    | hit m => rfl

lemma seek_hit {mode : InternalMode} {m : Method} {inMixin : Bool} (h : seek search g mode path = .hit m inMixin p) :
    p ⊆ path ∧ ∃ s ∈ path, s.inMixin = inMixin := by
  induction path generalizing mode with
  | nil => cases h
  | cons s path ih =>
    have htail : ∀ {mode}, seek search g mode path = .hit m inMixin p →
        p ⊆ s :: path ∧ ∃ s' ∈ s :: path, s'.inMixin = inMixin := by
      intro mode h
      obtain ⟨hp, s', hs', heq⟩ := ih h
      exact ⟨List.subset_cons_of_subset _ hp, s', List.mem_cons_of_mem _ hs', heq⟩
    rw [seek] at h
    cases hl : glance search g mode s.visit with
    | pass =>
      rw [hl] at h
      exact htail h
    | lacking =>
      rw [hl] at h
      cases h
    | miss =>
      rw [hl] at h
      simp only at h
      split at h
      · exact htail h
      · cases h
    | hit m' =>
      rw [hl] at h
      cases h
      exact ⟨List.subset_cons_self _ _, s, List.mem_cons_self, rfl⟩

lemma Brings.stage {mode : InternalMode} {s : Sought P} (h : Brings search g found { st with mode := mode } s r) :
    Brings search g found st s r := by
  cases s with
  | fail mode' => exact h
  | null => exact h
  | hit m inMixin rest => exact h

lemma Untold.stage {mode : InternalMode} (h : Untold search g found { st with mode := mode } q r) :
    Brings search g found st (seek search g mode q) r := h.brings.stage

/-- **A mixin's frame** ends with the mixin; what it returned is merged and the search goes on. -/
lemma mergeMixin_untold (hm : Staged st.mode) (hr : Untold search g none st [⟨v, false⟩] r)
    (hk : ∀ found st, Staged st.mode → Untold search g found st q (k found st)) :
    Untold search g found st (⟨v, true⟩ :: q) (mergeMixin search cls i found r k) := by
  refine ⟨mergeMixin_keeps hr.keeps fun found st hm => (hk found st hm).keeps, ?_⟩
  have hbrings := hr.brings
  rw [seek] at hbrings ⊢
  cases hl : glance search g st.mode v with
  | pass =>
    simp only [hl, seek, Brings, Outcome.ofFound] at hbrings ⊢
    obtain rfl := hbrings
    exact (hk found st hm).brings
  | lacking =>
    simp only [hl, Brings] at hbrings ⊢
    obtain ⟨o, st'⟩ := r
    obtain rfl : o = .null := hbrings
    rfl
  | miss =>
    simp only [hl, Brings, Bool.false_eq_true, if_false, if_true, Outcome.ofFound] at hbrings ⊢
    obtain rfl := hbrings
    exact (hk found { st with mode := .specificMethod3 } (Or.inr rfl)).stage
  | hit m =>
    simp only [hl, Brings, Bool.false_eq_true, false_and, if_false, true_and] at hbrings ⊢
    intro hcb
    rw [hbrings hcb, mergeMixin, afterMixin, hcb]
    cases found with
    | some m' => rfl
    | none =>
      simp only [Option.isSome_none, Bool.false_eq_true, if_false]
      cases hf : m.isHiddenOverrideFatal with
      | false => rfl
      | true =>
        simp only [if_true]
        have hrest := (hk (some m) { st with mode := .specificMethod3 } (Or.inr rfl)).stage
        unfold Brings at hrest
        cases hs : seek search g .specificMethod3 q with
        | fail mode =>
          rw [hs] at hrest
          exact hrest
        | null =>
          rw [hs] at hrest
          exact hrest
        | hit m' inMixin rest =>
          rw [hs] at hrest
          exact hrest hcb

/-- The mixins first, and then the superclass with what is pending. -/
lemma mergeMethod_untold (hp : ∀ s ∈ p, s.inMixin = true) (hr : Untold search g none st p r)
    (hk : ∀ found st, Staged st.mode → Untold search g found st q (k found st)) :
    Untold search g none st (p ++ q) (mergeMethod none r k) := by
  refine ⟨mergeMethod_keeps hr.keeps fun found st hm => (hk found st hm).keeps, ?_⟩
  have hbrings := hr.brings
  rw [seek_append hp]
  cases hs : seek search g st.mode p with
  | fail mode =>
    rw [hs] at hbrings
    obtain rfl : r = (.fail, { st with mode := mode }) := hbrings
    have hmode : Staged mode := (hr.keeps.staged (by simp)).1
    exact (hk none { st with mode := mode } hmode).stage
  | null =>
    rw [hs] at hbrings
    obtain ⟨o, st'⟩ := r
    obtain rfl : o = .null := hbrings
    rfl
  | hit m inMixin rest =>
    rw [hs] at hbrings
    obtain ⟨hrest, s, hmem, rfl⟩ := seek_hit hs
    intro hcb
    have hbrings := hbrings hcb
    simp only [hp s hmem, true_and] at hbrings ⊢
    cases hf : m.isHiddenOverrideFatal with
    | false =>
      rw [hf] at hbrings
      obtain rfl : r = (.found m, { st with mode := .specificMethod3 }) := hbrings
      simp [mergeMethod, hf]
    | true =>
      simp only [hf, if_true] at hbrings ⊢
      rw [seek_append fun s hs => hp s (hrest hs)]
      cases hpending : seek search g .specificMethod3 rest with
      | fail mode =>
        rw [hpending] at hbrings
        obtain rfl : r = (.found m, { st with mode := mode }) := hbrings
        have hmode : Staged mode := (hr.keeps.staged (by simp)).1
        have hmerge : mergeMethod none (.found m, { st with mode := mode }) k = k (some m) { st with mode := mode } := by
          simp [mergeMethod, hf]
        have hlater := (hk (some m) { st with mode := mode } hmode).stage
        rw [hmerge]
        simp only
        unfold Brings at hlater
        cases hq : seek search g mode q with
        | fail mode' =>
          rw [hq] at hlater
          exact hlater
        | null =>
          rw [hq] at hlater
          exact hlater
        | hit m' inMixin' rest' =>
          rw [hq] at hlater
          exact hlater hcb
      | null =>
        rw [hpending] at hbrings
        exact mergeMethod_null hbrings _
      | hit m' inMixin' rest' =>
        rw [hpending] at hbrings
        exact mergeMethod_null hbrings _

/-- The superclass is merged with what is pending. -/
lemma mergeMethod_super (hr : Untold search g none st path r) :
    Untold search g found st path (mergeMethod found r fun found st => (.ofFound found, st)) := by
  cases found with
  | none => rwa [mergeMethod_none]
  | some m =>
    refine ⟨mergeMethod_keeps hr.keeps fun found st hm => keeps_refl _ hm, ?_⟩
    have hbrings := hr.brings
    cases hs : seek search g st.mode path with
    | fail mode =>
      rw [hs] at hbrings
      obtain rfl : r = (.fail, { st with mode := mode }) := hbrings
      rfl
    | null =>
      rw [hs] at hbrings
      exact mergeMethod_null hbrings _
    | hit m' inMixin rest =>
      rw [hs] at hbrings
      intro hcb
      have hbrings := hbrings hcb
      have hcases : r.1 = .found m' ∨ r.1 = .null := by
        simp only at hbrings
        split at hbrings
        · split at hbrings
          · exact Or.inl (congrArg Prod.fst hbrings)
          · exact Or.inr hbrings
        · exact Or.inl (congrArg Prod.fst hbrings)
      exact mergeMethod_some hcases

end Seek

/-! ## The frames -/

section Frames

variable [DecidableEq P] {search : SearchArguments P} {g : ClassGraph P} {frame : Frame P} {cls : ClassRef P}
  {found : Option Method} {inheritance : ℕ} {st : SearchState P}

/-- The frames a class object's frame goes on to. -/
structure NextUntold (search : SearchArguments P) (g : ClassGraph P) (frame : Frame P) (cls : ClassRef P)
    (inheritance : ℕ) : Prop where
  mixin : has inheritance dontInheritProtocols = false → ∀ proto st, Staged st.mode →
    Untold search g none st
      [⟨ownVisit g (mixinRef cls proto) (mixinFlags inheritance ||| g.inheritance (mixinRef cls proto)), false⟩]
      (frame (mixinRef cls proto) (mixinFlags inheritance ||| g.inheritance (mixinRef cls proto)) st)
  super : ∀ supercls, g.superclass cls = some supercls → has inheritance dontInheritSuperclass = false →
    ∀ st, Staged st.mode →
      Untold search g none st (stations g supercls (searchInheritance g cls supercls inheritance))
        (frame supercls (searchInheritance g cls supercls inheritance) st)

omit [DecidableEq P] in
lemma untold_nil (hm : Staged st.mode) : Untold search g found st [] (.ofFound found, st) := ⟨keeps_refl _ hm, rfl⟩

lemma searchMixins_untold {i : ℕ}
    (hframe : ∀ proto st, Staged st.mode →
      Untold search g none st [⟨ownVisit g (mixinRef cls proto) (i ||| g.inheritance (mixinRef cls proto)), false⟩]
        (frame (mixinRef cls proto) (i ||| g.inheritance (mixinRef cls proto)) st))
    (mixins : List P) (hm : Staged st.mode) :
    Untold search g found st (((mixins.filter (· ≠ cls.pair)).map fun proto =>
        ownVisit g (mixinRef cls proto) (i ||| g.inheritance (mixinRef cls proto))).map fun v => ⟨v, true⟩)
      (searchMixins g search frame cls i mixins found st) := by
  induction mixins generalizing found st with
  | nil => exact untold_nil hm
  | cons proto rest ih =>
    rw [searchMixins_merge]
    by_cases hp : proto = cls.pair
    · rw [if_pos hp, List.filter_cons_of_neg (by simp [hp])]
      exact ih hm
    · rw [if_neg hp, List.filter_cons_of_pos (by simpa using hp), List.map_cons, List.map_cons]
      exact mergeMixin_untold hm (hframe proto st hm) fun found st' hm' => ih hm'

lemma searchSuperclass_untold (hnext : NextUntold search g frame cls inheritance) (hm : Staged st.mode) :
    Untold search g found st (superStations g cls inheritance) (searchSuperclass g frame cls found inheritance st) := by
  rcases searchSuperclass_cases g frame cls found inheritance st with ⟨hno, heq⟩ | ⟨supercls, hs, hi, heq⟩
  · rw [heq, superStations_eq_nil hno]
    exact untold_nil hm
  · rw [heq, superStations_eq hs hi]
    exact mergeMethod_super (hnext.super supercls hs hi st hm)

lemma nextClass_untold (hnext : NextUntold search g frame cls inheritance) (hm : Staged st.mode) :
    Untold search g none st (mixinStations g cls inheritance ++ superStations g cls inheritance)
      (nextClass g search frame cls none inheritance st) := by
  rcases nextClass_cases search g frame cls none inheritance st with ⟨hno, heq⟩ | ⟨hp, hmixin, heq⟩
  · rw [heq, mixinStations, mixinVisits_eq_nil hno]
    exact searchSuperclass_untold hnext hm
  · rw [heq]
    refine mergeMethod_untold (fun s => inMixin_of_mem_mixinStations) ?_ fun found st hm =>
      searchSuperclass_untold hnext hm
    rw [mixinStations, mixinVisits_eq hp hmixin]
    exact searchMixins_untold (hnext.mixin hp) _ hm

/-- A frame, by what its class object does with the stage of the search. -/
lemma searchFrame_glance (search : SearchArguments P) (g : ClassGraph P) (frame : Frame P) (cls : ClassRef P)
    (inheritance : ℕ) (hm : Staged st.mode) :
    match glance search g st.mode (ownVisit g cls inheritance) with
    | .pass => searchFrame g search frame cls inheritance st = nextClass g search frame cls none inheritance st
    | .lacking => ∃ st', searchFrame g search frame cls inheritance st = (.null, st') ∧ st'.result = st.result
    | .miss => searchFrame g search frame cls inheritance st = (.fail, { st with mode := .specificMethod3 })
    | .hit m => searchFrame g search frame cls inheritance st = (.found m, { st with mode := .specificMethod3 }) := by
  obtain ⟨mode, error, result, reports⟩ := st
  rcases hm with hm | hm
  · obtain rfl : mode = .specificMethod := hm
    simp only [searchFrame, glance, ownVisit, reduceCtorEq, false_or]
    by_cases hc : search.classid = g.classid cls
    · by_cases hstop : g.classid cls = search.stopClassid
      · simp only [hc, hstop, and_self, if_true]
        exact ⟨_, if_pos hstop, rfl⟩
      · rw [if_pos hc, if_neg fun h => hstop h.1,
          searchClass_looping (Or.inr (Or.inr (Or.inl rfl))) hstop, searchMethodlists_specific2 rfl]
        simp only [look, hc, if_true, reduceCtorEq, if_false]
        cases hcat : (visibleLists inheritance (g.methodlists cls)).find? fun list =>
            search.categoryid = list.categoryid with
        | none => exact ⟨_, rfl, rfl⟩
        | some list =>
          rcases lookIn_cases search list with hl | ⟨m, hl⟩
          · simp only [hl, ListStep.andThen]
          · simp only [hl, ListStep.andThen]
    · rw [if_neg hc, if_neg fun h => hc h.2]
      simp only [look, hc, if_false, reduceCtorEq]
  · obtain rfl : mode = .specificMethod3 := hm
    simp only [searchFrame, glance, ownVisit, true_or, and_true]
    by_cases hstop : g.classid cls = search.stopClassid
    · simp only [hstop, if_true]
      exact ⟨_, if_pos hstop, rfl⟩
    · have hlists : searchMethodlists g search cls 0 (visibleLists inheritance (g.methodlists cls)) 0 none inheritance
          ⟨.specificMethod3, error, result, reports⟩ = _ :=
        searchMethodlists_specific3 rfl (ownVisit g cls inheritance) 0
      rw [if_neg hstop, searchClass_looping (Or.inr (Or.inr (Or.inr rfl))) hstop, hlists]
      simp only [ownVisit]
      cases hl : look g search .specificMethod3 ⟨cls, visibleLists inheritance (g.methodlists cls)⟩ with
      | pass => rfl
      | lacking => exact absurd hl (look_specific3_ne _ _ _)
      | miss => rfl
      | hit method => rfl

/-- **One frame.** -/
lemma searchFrame_untold (hnext : NextUntold search g frame cls inheritance) (hm : Staged st.mode) :
    Untold search g none st (stations g cls inheritance) (searchFrame g search frame cls inheritance st) := by
  have hframe := searchFrame_glance search g frame cls inheritance hm
  have hnextClass := nextClass_untold hnext hm
  rw [stations_eq]
  have hseek := seek_cons search g st.mode ⟨ownVisit g cls inheritance, false⟩
    (mixinStations g cls inheritance ++ superStations g cls inheritance)
  cases hl : glance search g st.mode (ownVisit g cls inheritance) with
  | pass =>
    simp only [hl] at hframe hseek
    rw [hframe]
    exact ⟨hnextClass.keeps, hseek ▸ hnextClass.brings⟩
  | lacking =>
    simp only [hl] at hframe hseek
    obtain ⟨st', hframe, hresult⟩ := hframe
    rw [hframe]
    exact ⟨⟨hresult, fun h => absurd rfl h⟩, hseek ▸ rfl⟩
  | miss =>
    simp only [hl, Bool.false_eq_true, if_false] at hframe hseek
    rw [hframe]
    exact ⟨⟨rfl, fun _ => ⟨Or.inr rfl, rfl⟩⟩, hseek ▸ rfl⟩
  | hit m =>
    simp only [hl] at hframe hseek
    rw [hframe]
    refine ⟨⟨rfl, fun _ => ⟨Or.inr rfl, rfl⟩⟩, ?_⟩
    rw [hseek]
    simp [Brings]

/-- **The recursive search**, when it is a specific one. -/
theorem searchMethodInternal_untold {fuel : ℕ}
    (hfuel : g.rank cls + 2 ≤ fuel ∨ 0 < fuel ∧ has inheritance dontInheritProtocols = true ∧
      has inheritance dontInheritSuperclass = true)
    (hm : Staged st.mode) :
    Untold search g none st (stations g cls inheritance) (searchMethodInternal search g fuel cls inheritance st) := by
  refine frames_induction (motive := fun fuel cls inheritance => ∀ st : SearchState P, Staged st.mode →
    Untold search g none st (stations g cls inheritance) (searchMethodInternal search g fuel cls inheritance st))
    hfuel (fun fuel cls inheritance hmixin hsuper st hm => ?_) st hm
  refine searchFrame_untold ⟨fun hp proto st hm => ?_, fun supercls hs hi => hsuper hi supercls hs _⟩ hm
  rw [← stations_mixin]
  exact hmixin hp proto inheritance st hm

end Frames

end MulleObjcRuntime.Search
