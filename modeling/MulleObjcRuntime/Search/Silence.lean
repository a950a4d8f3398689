import MulleObjcRuntime.Search.Sightings

/-!
# Searches that come upon nothing

* `silence` — whether a search comes upon a method that counts;
* `Touched`, `Silent` — what a part of the search returns when it does, and in any case;
* `mergeMethod_silent`, `mergeMixin_silent` — how the parts compose;
* `searchMethodInternal_silent` — the result is written exactly when the search comes upon a method that counts.
-/

namespace MulleObjcRuntime.Search

open Classes

variable {P : Type}

/-! ## Whether anything is come upon -/

/-- What a search comes upon along its way: a method that counts, an end without one, or nothing. -/
inductive Silence
  | touched
  | ended
  | passed (mode : InternalMode)
deriving DecidableEq

section Silence

variable (search : SearchArguments P) (g : ClassGraph P)

/-- The mode after some methods when none of them counts: a previous search passes over its own method once. -/
def quietly : InternalMode → List (Hit P) → Option InternalMode
  | mode, [] => some mode
  | mode, h :: rest =>
    if mode = .previousMethod ∧ isPreviousMethod search h.method = true then quietly .previousMethod2 rest else none

/-- Whether the visits of a search are passed in silence. -/
def silence : InternalMode → List (Visit P) → Silence
  | mode, [] => .passed mode
  | mode, v :: path =>
    match entry search g mode v with
    | none => .ended
    | some (mode, hits) =>
      match quietly search mode hits with
      | none => .touched
      | some mode => silence mode path

/-- A method of a list that is looked into. -/
def Sighted (path : List (Visit P)) (h : Hit P) : Prop :=
  ∃ v ∈ path, h.cls = v.cls ∧ h.list ∈ v.lists ∧ h.method ∈ h.list.methods

variable {search g} {p q path : List (Visit P)} {found : Option Method} {st st' : SearchState P}
  {r : Outcome × SearchState P}

lemma silence_append (mode : InternalMode) (p q : List (Visit P)) :
    silence search g mode (p ++ q) =
      match silence search g mode p with
      | .passed mode => silence search g mode q
      | s => s := by
  induction p generalizing mode with
  | nil => rfl
  | cons v p ih =>
    rw [List.cons_append, silence, silence]
    cases entry search g mode v with
    | none => rfl
    | some e =>
      simp only
      cases quietly search e.1 e.2 with
      | none => rfl
      | some mode => exact ih mode

lemma quietly_active {mode mode' : InternalMode} {hits : List (Hit P)} (hm : Underway mode)
    (h : quietly search mode hits = some mode') : Underway mode' := by
  induction hits generalizing mode with
  | nil =>
    cases h
    exact hm
  | cons hit rest ih =>
    obtain ⟨-, h⟩ := Option.ite_none_right_eq_some.1 h
    exact ih (Or.inl (Or.inl .previousMethod2)) h

lemma silence_underway {mode mode' : InternalMode} (hm : Underway mode)
    (h : silence search g mode path = .passed mode') : Underway mode' := by
  induction path generalizing mode with
  | nil =>
    cases h
    exact hm
  | cons v path ih =>
    rw [silence] at h
    cases hentry : entry search g mode v with
    | none =>
      rw [hentry] at h
      cases h
    | some e =>
      rw [hentry] at h
      simp only at h
      cases hquiet : quietly search e.1 e.2 with
      | none =>
        rw [hquiet] at h
        cases h
      | some mode'' =>
        rw [hquiet] at h
        exact ih (quietly_active (entry_active hm hentry).1 hquiet) h

lemma Sighted.mono {h : Hit P} (hs : Sighted p h) (hpq : p ⊆ q) : Sighted q h := by
  obtain ⟨v, hv, hrest⟩ := hs
  exact ⟨v, hpq hv, hrest⟩

/-- What a part of the search returns that comes upon a method that counts, when `found` is pending: the result has
been written, unless this is what `found` is lost by.  Only a callback can have it go on. -/
inductive Touched (search : SearchArguments P) (found : Option Method) (path : List (Visit P)) (st : SearchState P) :
    Outcome × SearchState P → Prop
  | null {st' : SearchState P}
      (hresult : (∃ h, Sighted path h ∧ st'.result = some h) ∨ found ≠ none ∧ st'.result = st.result) :
      Touched search found path st (.null, st')
  | fail {st' : SearchState P} {h : Hit P} (hfound : found = none) (hcb : search.callback ≠ none)
      (hs : Sighted path h) (hresult : st'.result = some h) (hm : Underway st'.mode) (herror : st'.error = st.error) :
      Touched search found path st (.fail, st')
  | found {st' : SearchState P} {h : Hit P} {m : Method} (hfound : ∀ m' ∈ found, m' = m)
      (hcb : found ≠ none → search.callback ≠ none) (hs : Sighted path h) (hresult : st'.result = some h)
      (hm : Underway st'.mode) (herror : st'.error = st.error) : Touched search found path st (.found m, st')

lemma Touched.mono (h : Touched search found q st' r) (hq : q ⊆ path) (hresult : st'.result = st.result)
    (herror : st'.error = st.error) : Touched search found path st r := by
  cases h with
  | null hwritten =>
    refine .null (hwritten.imp ?_ ?_)
    · exact fun ⟨h, hs, hr⟩ => ⟨h, hs.mono hq, hr⟩
    · exact fun ⟨hne, hr⟩ => ⟨hne, hr.trans hresult⟩
  | fail hfound hcb hs hr hm he => exact .fail hfound hcb (hs.mono hq) hr hm (he.trans herror)
  | found hfound hcb hs hr hm he => exact .found hfound hcb (hs.mono hq) hr hm (he.trans herror)

/-- What a part of the search returns: nothing is written in silence. -/
def Silent (search : SearchArguments P) (g : ClassGraph P) (found : Option Method) (st : SearchState P)
    (path : List (Visit P)) (r : Outcome × SearchState P) : Prop :=
  match silence search g st.mode path with
  | .passed mode => r = (.ofFound found, { st with mode := mode })
  | .ended => r.1 = .null ∧ r.2.result = st.result
  | .touched => Touched search found path st r

lemma Silent.after {mode : InternalMode} (hp : silence search g st.mode p = .passed mode)
    (hr : Silent search g found { st with mode := mode } q r) : Silent search g found st (p ++ q) r := by
  unfold Silent at hr ⊢
  rw [silence_append]
  simp only [hp]
  cases hsilence : silence search g mode q with
  | passed mode' =>
    simp only [hsilence] at hr ⊢
    exact hr
  | ended =>
    simp only [hsilence] at hr ⊢
    exact hr
  | touched =>
    simp only [hsilence] at hr ⊢
    exact hr.mono (List.subset_append_right p q) rfl rfl

/-- Something has been come upon before: whatever the rest of the search does, the result stays written. -/
lemma Silent.touched {found' : Option Method} {h : Hit P} (hr : Silent search g found' st' q r)
    (hm : Underway st'.mode) (hs : Sighted p h) (hresult : st'.result = some h) (hpath : p ⊆ path) (hq : q ⊆ path)
    (hfound : ∀ m ∈ found, found' = some m) (hcb : found' = none ∨ found ≠ none → search.callback ≠ none)
    (herror : st'.error = st.error) : Touched search found path st r := by
  have hs := hs.mono hpath
  have hnone : found' = none → found = none := by
    intro h
    cases found with
    | none => rfl
    | some m =>
      rw [h] at hfound
      exact absurd (hfound m rfl) (by simp)
  have hsome : ∀ m, found' = some m → ∀ m' ∈ found, m' = m := by
    intro m h m' hm'
    have := hfound m' hm'
    rw [h] at this
    exact (Option.some.inj this).symm
  unfold Silent at hr
  cases hsilence : silence search g st'.mode q with
  | passed mode =>
    simp only [hsilence] at hr
    rw [hr]
    have hmode := silence_underway hm hsilence
    cases found' with
    | none => exact .fail (hnone rfl) (hcb (Or.inl rfl)) hs hresult hmode herror
    | some m => exact .found (hsome m rfl) (fun hne => hcb (Or.inr hne)) hs hresult hmode herror
  | ended =>
    simp only [hsilence] at hr
    obtain ⟨o, st''⟩ := r
    obtain ⟨rfl, hr⟩ := hr
    exact .null (Or.inl ⟨h, hs, by rw [← hresult]; exact hr⟩)
  | touched =>
    simp only [hsilence] at hr
    cases hr with
    | null hwritten =>
      rcases hwritten with ⟨h', hs', hresult'⟩ | ⟨-, hsame⟩
      · exact .null (Or.inl ⟨h', hs'.mono hq, hresult'⟩)
      · exact .null (Or.inl ⟨h, hs, by rw [hsame, hresult]⟩)
    | fail hfound' hcb' hs' hresult' hm' herror' =>
      exact .fail (hnone hfound') hcb' (hs'.mono hq) hresult' hm' (herror'.trans herror)
    | found hfound' hcb' hs' hresult' hm' herror' =>
      refine .found (fun m' hm'' => ?_) (fun hne => hcb (Or.inr hne)) (hs'.mono hq) hresult' hm' (herror'.trans herror)
      exact hfound' m' (hfound m' hm'')

/-- What a part of the search returns is taken up by `R`, which goes on with `k` where nothing has been found. -/
lemma Silent.merge {R : Outcome × SearchState P → Outcome × SearchState P}
    {k : Option Method → SearchState P → Outcome × SearchState P} (hm : Underway st.mode)
    (hr : Silent search g none st p r)
    (hk : ∀ found st, Underway st.mode → Silent search g found st q (k found st))
    (hnull : ∀ st', R (.null, st') = (.null, st')) (hfail : ∀ st', R (.fail, st') = k found st')
    (hfound : ∀ m st' h, Sighted p h → st'.result = some h → Underway st'.mode → st'.error = st.error →
      Touched search found (p ++ q) st (R (.found m, st'))) :
    Silent search g found st (p ++ q) (R r) := by
  have hp : p ⊆ p ++ q := List.subset_append_left p q
  have hq : q ⊆ p ++ q := List.subset_append_right p q
  unfold Silent at hr
  cases hsilence : silence search g st.mode p with
  | passed mode =>
    simp only [hsilence] at hr
    rw [hr, Outcome.ofFound, hfail]
    exact (hk found { st with mode := mode } (silence_underway hm hsilence)).after hsilence
  | ended =>
    unfold Silent
    rw [silence_append]
    simp only [hsilence] at hr ⊢
    obtain ⟨o, st'⟩ := r
    obtain ⟨rfl, hr⟩ := hr
    rw [hnull]
    exact ⟨rfl, hr⟩
  | touched =>
    unfold Silent
    rw [silence_append]
    simp only [hsilence] at hr ⊢
    cases hr with
    | null hwritten =>
      rw [hnull]
      rcases hwritten with ⟨h, hs, hresult⟩ | ⟨hne, -⟩
      · exact .null (Or.inl ⟨h, hs.mono hp, hresult⟩)
      · exact absurd rfl hne
    | @fail st' h _ hcb hs hresult hm' herror =>
      rw [hfail]
      exact (hk found st' hm').touched hm' hs hresult hp hq (fun m hm => hm) (fun _ => hcb) herror
    | @found st' h m _ _ hs hresult hm' herror => exact hfound m st' h hs hresult hm' herror

/-- **Merging a continuation.** -/
lemma mergeMethod_silent {k : Option Method → SearchState P → Outcome × SearchState P} (hm : Underway st.mode)
    (hr : Silent search g none st p r)
    (hk : ∀ found st, Underway st.mode → Silent search g found st q (k found st)) :
    Silent search g found st (p ++ q) (mergeMethod found r k) := by
  have hp : p ⊆ p ++ q := List.subset_append_left p q
  have hq : q ⊆ p ++ q := List.subset_append_right p q
  refine Silent.merge (R := fun r => mergeMethod found r k) hm hr hk (fun _ => rfl) (fun _ => rfl) ?_
  intro m st' h hs hresult hm' herror
  cases found with
  | some m' => exact .null (Or.inl ⟨h, hs.mono hp, hresult⟩)
  | none =>
    simp only [mergeMethod, Option.isSome_none, Bool.false_eq_true, if_false]
    split
    · exact (hk (some m) st' hm').touched hm' hs hresult hp hq (by simp) (by simp) herror
    · exact .found (by simp) (by simp) (hs.mono hp) hresult hm' herror

/-- The loop over the mixins after one of them. -/
def mergeMixin (search : SearchArguments P) (cls : ClassRef P) (inheritance : ℕ) (found : Option Method)
    (r : Outcome × SearchState P) (k : Option Method → SearchState P → Outcome × SearchState P) :
    Outcome × SearchState P :=
  match r with
  | (.fail, st) => k found st
  | (.found method, st) => afterMixin search cls inheritance found method st k
  | other => other

/-- **Going on after a mixin**, whatever the callback says to its method. -/
lemma mergeMixin_silent {cls : ClassRef P} {inheritance : ℕ}
    {k : Option Method → SearchState P → Outcome × SearchState P} (hm : Underway st.mode)
    (hr : Silent search g none st p r)
    (hk : ∀ found st, Underway st.mode → Silent search g found st q (k found st)) :
    Silent search g found st (p ++ q) (mergeMixin search cls inheritance found r k) := by
  have hp : p ⊆ p ++ q := List.subset_append_left p q
  have hq : q ⊆ p ++ q := List.subset_append_right p q
  refine Silent.merge (R := fun r => mergeMixin search cls inheritance found r k) hm hr hk (fun _ => rfl)
    (fun _ => rfl) ?_
  intro m st' h hs hresult hm' herror
  cases found with
  | some m' => exact .null (Or.inl ⟨h, hs.mono hp, hresult⟩)
  | none =>
    have hkeep : ∀ reports, Touched search none (p ++ q) st
        (if m.isHiddenOverrideFatal = true then k (some m) { st' with reports := reports }
          else (.found m, { st' with reports := reports })) := by
      intro reports
      split
      · exact (hk (some m) { st' with reports := reports } hm').touched hm' hs hresult hp hq (by simp) (by simp) herror
      · exact .found (by simp) (by simp) (hs.mono hp) hresult hm' herror
    have hdrop : search.callback ≠ none → ∀ reports,
        Touched search none (p ++ q) st (k none { st' with reports := reports }) := fun hcb reports =>
      (hk none { st' with reports := reports } hm').touched hm' hs hresult hp hq (by simp) (fun _ => hcb) herror
    have hnull : ∀ reports error, Touched search none (p ++ q) st (.null, { st' with error := error, reports := reports }) :=
      fun reports error => .null (Or.inl ⟨h, hs.mono hp, hresult⟩)
    simp only [mergeMixin, afterMixin, Option.isSome_none, Bool.false_eq_true, if_false]
    cases hcb : search.callback with
    | none => exact hkeep st'.reports
    | some f =>
      have hf : search.callback ≠ none := by simp [hcb]
      simp only
      split
      · exact hdrop hf _
      · exact hkeep _
      · exact hdrop hf _
      · exact hnull _ _
      · exact hnull _ _

end Silence

/-! ## The frames -/

section Frames

variable {search : SearchArguments P} {g : ClassGraph P} {cls : ClassRef P} {inheritance : ℕ} {path : List (Visit P)}
  {found : Option Method} {st : SearchState P}

lemma mem_of_methodlistSearch {mode : InternalMode} {list : MethodList} {m : Method}
    (h : methodlistSearch search mode list = some m) : m ∈ list.methods := by
  unfold methodlistSearch at h
  split at h
  · exact List.mem_of_find?_eq_some h
  · exact (MethodList.search_eq_some h).1

lemma mem_of_mem_counted {mode : InternalMode} {lists : List MethodList} {h : Hit P}
    (hh : h ∈ counted search g mode cls lists) : h.cls = cls ∧ h.list ∈ lists ∧ h.method ∈ h.list.methods := by
  obtain ⟨list, hlist, hh⟩ := List.mem_filterMap.1 hh
  obtain ⟨-, hh⟩ := Option.ite_none_left_eq_some.1 hh
  obtain ⟨m, hm, rfl⟩ := Option.map_eq_some_iff.1 hh
  exact ⟨rfl, hlist, mem_of_methodlistSearch hm⟩

lemma afterCategory_subset {categoryid : ℕ} {lists rest : List MethodList}
    (h : afterCategory categoryid lists = some rest) : rest ⊆ lists := by
  induction lists with
  | nil => cases h
  | cons list lists ih =>
    unfold afterCategory at h
    split at h
    · cases h
      exact List.subset_cons_self _ _
    · exact fun l hl => List.mem_cons_of_mem _ (ih h hl)

/-- What counts at a class object is in the lists of it that are looked into. -/
lemma entry_sighted {mode mode' : InternalMode} {v : Visit P} {hits : List (Hit P)}
    (hentry : entry search g mode v = some (mode', hits)) : ∀ h ∈ hits, h.cls = v.cls ∧ Sighted [v] h := by
  intro h hh
  have hcounted : ∀ mode lists, lists ⊆ v.lists → h ∈ counted search g mode v.cls lists →
      h.cls = v.cls ∧ Sighted [v] h := by
    intro mode lists hlists hmem
    obtain ⟨hcls, hlist, hmethod⟩ := mem_of_mem_counted hmem
    exact ⟨hcls, v, List.mem_singleton_self v, hcls, hlists hlist, hmethod⟩
  unfold entry at hentry
  split at hentry
  · cases hentry
    cases hh
  · split at hentry
    · split at hentry
      · cases hentry
      · obtain ⟨rest, hrest, hentry⟩ := Option.map_eq_some_iff.1 hentry
        cases hentry
        exact hcounted _ rest (afterCategory_subset hrest) hh
    · cases hentry
      cases hh
  · split at hentry
    · cases hentry
    · cases hentry
      exact hcounted _ _ (List.Subset.refl _) hh

/-- The rest of a frame after its loop, for the flags the loop can leave. -/
def Resumes (search : SearchArguments P) (g : ClassGraph P) (inheritance : ℕ) (rest : ℕ → List (Visit P))
    (k : Option Method → ℕ → SearchState P → Outcome × SearchState P) : Prop :=
  ∀ found i st, i = inheritance ∨ i = inheritance ||| dontInheritSuperclass → Underway st.mode →
    Silent search g found st (rest i) (k found i st)

lemma countHits_quietly {hits : List (Hit P)} {mode : InternalMode} (h : quietly search st.mode hits = some mode) :
    countHits search hits found inheritance st = .next found inheritance { st with mode := mode } := by
  induction hits generalizing st with
  | nil =>
    cases h
    rfl
  | cons hit rest ih =>
    obtain ⟨hp, h⟩ := Option.ite_none_right_eq_some.1 h
    rw [countHits, if_pos hp]
    exact ih h

section Written

variable {rest : ℕ → List (Visit P)} {k : Option Method → ℕ → SearchState P → Outcome × SearchState P}
  {hits : List (Hit P)} {i : ℕ} {st' : SearchState P} {h : Hit P}

lemma countMethod_andThen (hh : Sighted path h) (hm : Active st'.mode) (herror : st'.error = st.error)
    (hnext : ∀ found' i' st'', Goes search h i st' found' i' st'' →
      Touched search none path st ((countHits search hits found' i' st'').andThen k)) :
    Touched search none path st ((match countMethod search h.cls none i h.list h.method st' with
      | .next found' i' st'' => countHits search hits found' i' st''
      | .ret o st'' => .ret o st'').andThen k) := by
  rcases countMethod_cases search i h st' with ⟨found', i', st'', hcount, hgoes⟩ | ⟨o, st'', hcount, ho, hresult⟩
  · rw [hcount]
    exact hnext found' i' st'' hgoes
  · rw [hcount]
    rcases ho with rfl | ⟨rfl, hmode, herror'⟩
    · exact .null (Or.inl ⟨h, hh, hresult⟩)
    · exact .found (by simp) (by simp) hh hresult (hmode ▸ Or.inl hm) (herror'.trans herror)

/-- Once something has been written, the loop and the rest of the frame may do what they want. -/
lemma countHits_written (hsighted : ∀ h ∈ hits, Sighted path h) (hk : Resumes search g inheritance rest k)
    (hrest : ∀ i, i = inheritance ∨ i = inheritance ||| dontInheritSuperclass → rest i ⊆ path) {found' : Option Method}
    (hh : Sighted path h) (hresult : st'.result = some h) (hm : Active st'.mode) (herror : st'.error = st.error)
    (hi : i = inheritance ∨ i = inheritance ||| dontInheritSuperclass)
    (hcb : found' = none → search.callback ≠ none) :
    Touched search none path st ((countHits search hits found' i st').andThen k) := by
  induction hits generalizing found' i st' h with
  | nil =>
    exact (hk found' i st' hi (Or.inl hm)).touched (Or.inl hm) hh hresult (List.Subset.refl _) (hrest i hi)
      (by simp) (fun hnone => hcb (hnone.resolve_right (by simp))) herror
  | cons hit hits ih =>
    have hlater : ∀ h ∈ hits, Sighted path h := fun h hh => hsighted h (List.mem_cons_of_mem _ hh)
    rw [countHits]
    by_cases hp : st'.mode = .previousMethod ∧ isPreviousMethod search hit.method = true
    · rw [if_pos hp]
      exact ih hlater hh hresult (Or.inl .previousMethod2) herror hi hcb
    · rw [if_neg hp]
      cases found' with
      | some m =>
        rw [countMethod_pending]
        exact .null (Or.inl ⟨h, hh, hresult⟩)
      | none =>
        have hhit := hsighted hit List.mem_cons_self
        refine countMethod_andThen hhit hm herror fun found'' i' st'' hgoes => ?_
        refine ih hlater hhit hgoes.result (hgoes.mode ▸ hm) (hgoes.error.trans herror) ?_ hgoes.callback
        rcases hgoes.inheritance with rfl | rfl
        · exact hi
        · rcases hi with rfl | rfl
          · exact Or.inr rfl
          · exact Or.inr (by rw [Nat.or_assoc, Nat.or_self])

/-- A loop in which a method counts. -/
lemma countHits_touched (hm : Active st.mode) (hsighted : ∀ h ∈ hits, Sighted path h)
    (hk : Resumes search g inheritance rest k)
    (hrest : ∀ i, i = inheritance ∨ i = inheritance ||| dontInheritSuperclass → rest i ⊆ path)
    (hquiet : quietly search st.mode hits = none) :
    Touched search found path st ((countHits search hits found inheritance st).andThen k) := by
  induction hits generalizing st with
  | nil => cases hquiet
  | cons hit hits ih =>
    have hlater : ∀ h ∈ hits, Sighted path h := fun h hh => hsighted h (List.mem_cons_of_mem _ hh)
    rw [quietly] at hquiet
    rw [countHits]
    by_cases hp : st.mode = .previousMethod ∧ isPreviousMethod search hit.method = true
    · rw [if_pos hp] at hquiet ⊢
      exact (ih (Or.inl .previousMethod2) hlater hquiet).mono (List.Subset.refl _) rfl rfl
    · rw [if_neg hp]
      cases found with
      | some m =>
        rw [countMethod_pending]
        exact .null (Or.inr ⟨by simp, rfl⟩)
      | none =>
        have hhit := hsighted hit List.mem_cons_self
        refine countMethod_andThen hhit hm rfl fun found' i' st' hgoes => ?_
        exact countHits_written hlater hk hrest hhit hgoes.result (hgoes.mode ▸ hm) hgoes.error hgoes.inheritance
          hgoes.callback

end Written

variable [DecidableEq P] {frame : Frame P}

/-- The frames a class object's frame goes on to. -/
structure NextSilent (search : SearchArguments P) (g : ClassGraph P) (frame : Frame P) (cls : ClassRef P)
    (inheritance : ℕ) : Prop where
  mixin : has inheritance dontInheritProtocols = false → ∀ proto st, Underway st.mode →
    Silent search g none st
      [ownVisit g (mixinRef cls proto) (mixinFlags inheritance ||| g.inheritance (mixinRef cls proto))]
      (frame (mixinRef cls proto) (mixinFlags inheritance ||| g.inheritance (mixinRef cls proto)) st)
  super : ∀ supercls, g.superclass cls = some supercls → has inheritance dontInheritSuperclass = false →
    ∀ st, Underway st.mode →
      Silent search g none st (linearization g supercls (superInheritance g cls supercls inheritance))
        (frame supercls (searchInheritance g cls supercls inheritance) st)

lemma searchMixins_merge (proto : P) (rest : List P) :
    searchMixins g search frame cls inheritance (proto :: rest) found st =
      if proto = cls.pair then searchMixins g search frame cls inheritance rest found st
      else
        mergeMixin search cls inheritance found
          (frame (mixinRef cls proto) (inheritance ||| g.inheritance (mixinRef cls proto)) st)
          fun found st => searchMixins g search frame cls inheritance rest found st := by
  by_cases hp : proto = cls.pair
  · rw [searchMixins, if_pos hp, if_pos hp]
  · rw [if_neg hp]
    cases hr : frame (mixinRef cls proto) (inheritance ||| g.inheritance (mixinRef cls proto)) st with
    | mk o st' =>
      cases o with
      | fail => exact searchMixins_fail hp hr
      | found m => exact searchMixins_found hp hr
      | _ =>
        unfold mixinRef at hr
        rw [searchMixins, if_neg hp]
        simp only [hr]
        rfl

omit [DecidableEq P] in
lemma silent_nil (search : SearchArguments P) (g : ClassGraph P) (found : Option Method) (st : SearchState P) :
    Silent search g found st [] (.ofFound found, st) := rfl

lemma searchMixins_silent {i : ℕ}
    (hframe : ∀ proto st, Underway st.mode →
      Silent search g none st [ownVisit g (mixinRef cls proto) (i ||| g.inheritance (mixinRef cls proto))]
        (frame (mixinRef cls proto) (i ||| g.inheritance (mixinRef cls proto)) st))
    (mixins : List P) (hm : Underway st.mode) :
    Silent search g found st ((mixins.filter (· ≠ cls.pair)).map fun proto =>
        ownVisit g (mixinRef cls proto) (i ||| g.inheritance (mixinRef cls proto)))
      (searchMixins g search frame cls i mixins found st) := by
  induction mixins generalizing found st with
  | nil => exact silent_nil search g found st
  | cons proto rest ih =>
    rw [searchMixins_merge]
    by_cases hp : proto = cls.pair
    · rw [if_pos hp, List.filter_cons_of_neg (by simp [hp])]
      exact ih hm
    · rw [if_neg hp, List.filter_cons_of_pos (by simpa using hp), List.map_cons, ← List.singleton_append]
      exact mergeMixin_silent hm (hframe proto st hm) fun found st' hm' => ih hm'

lemma searchSuperclass_silent (hnext : NextSilent search g frame cls inheritance) (hm : Underway st.mode) :
    Silent search g found st (superVisits g cls inheritance) (searchSuperclass g frame cls found inheritance st) := by
  rcases searchSuperclass_cases g frame cls found inheritance st with ⟨hno, heq⟩ | ⟨supercls, hs, hi, heq⟩
  · rw [heq, superVisits_eq_nil hno]
    exact silent_nil search g found st
  · rw [heq, superVisits_eq hs hi, ← List.append_nil (linearization _ _ _)]
    exact mergeMethod_silent hm (hnext.super supercls hs hi st hm) fun found st _ => silent_nil search g found st

lemma nextClass_silent (hnext : NextSilent search g frame cls inheritance) (hm : Underway st.mode) :
    Silent search g found st (mixinVisits g cls inheritance ++ superVisits g cls inheritance)
      (nextClass g search frame cls found inheritance st) := by
  rcases nextClass_cases search g frame cls found inheritance st with ⟨hno, heq⟩ | ⟨hp, hmixin, heq⟩
  · rw [heq, mixinVisits_eq_nil hno]
    exact searchSuperclass_silent hnext hm
  · rw [heq, mixinVisits_eq hp hmixin]
    exact mergeMethod_silent hm (searchMixins_silent (hnext.mixin hp) _ hm) fun found st hm =>
      searchSuperclass_silent hnext hm

/-- What is left of the way when the superclass has been ruled out. -/
lemma restVisits_sublist {i : ℕ} (hi : i = inheritance ∨ i = inheritance ||| dontInheritSuperclass) :
    (mixinVisits g cls i ++ superVisits g cls i).Sublist
      (mixinVisits g cls inheritance ++ superVisits g cls inheritance) := by
  rcases hi with rfl | rfl
  · exact List.Sublist.refl _
  · have hmixins : mixinVisits g cls (inheritance ||| dontInheritSuperclass) = mixinVisits g cls inheritance := by
      unfold mixinVisits mixinInheritance
      simp [has_or, (by decide : has dontInheritSuperclass dontInheritProtocols = false),
        (by decide : has dontInheritSuperclass dontInheritProtocolCategories = false)]
    have hsuper : superVisits g cls (inheritance ||| dontInheritSuperclass) = [] := by
      unfold superVisits
      cases g.superclass cls with
      | none => rfl
      | some supercls =>
        have : has (inheritance ||| dontInheritSuperclass) dontInheritSuperclass = true := by
          rw [has_or, (by decide : has dontInheritSuperclass dontInheritSuperclass = true), Bool.or_true]
        simp only [this, if_true]
    rw [hmixins, hsuper, List.append_nil]
    exact List.sublist_append_left _ _

/-- **One frame.** -/
lemma searchFrame_silent (hnext : ∀ i, i = inheritance ∨ i = inheritance ||| dontInheritSuperclass →
      NextSilent search g frame cls i) (hm : Underway st.mode) :
    Silent search g none st (linearization g cls inheritance) (searchFrame g search frame cls inheritance st) := by
  have hframe := searchFrame_eq search g frame cls inheritance st hm
  have hresumes : Resumes search g inheritance (fun i => mixinVisits g cls i ++ superVisits g cls i)
      (nextClass g search frame cls) := fun found i st hi hm => nextClass_silent (hnext i hi) hm
  rw [linearization_visits, ← List.singleton_append]
  cases hentry : entry search g st.mode (ownVisit g cls inheritance) with
  | none =>
    rw [hentry] at hframe
    obtain ⟨st', hframe, hresult⟩ := hframe
    unfold Silent
    rw [silence_append, silence, hentry, hframe]
    exact ⟨rfl, hresult⟩
  | some e =>
    obtain ⟨mode, hits⟩ := e
    rw [hentry] at hframe
    simp only at hframe
    obtain ⟨hmode, hactive⟩ := entry_active hm hentry
    have hsighted := entry_sighted hentry
    cases hquiet : quietly search mode hits with
    | some mode' =>
      have hpassed : silence search g st.mode [ownVisit g cls inheritance] = .passed mode' := by
        rw [silence, hentry]
        simp only [hquiet]
        rfl
      have hloop : countHits search hits none inheritance { st with mode := mode } =
          .next none inheritance { st with mode := mode' } := countHits_quietly hquiet
      rw [hframe, hloop]
      exact (hresumes none inheritance { st with mode := mode' } (Or.inl rfl) (quietly_active hmode hquiet)).after hpassed
    | none =>
      have hne : hits ≠ [] := by
        rintro rfl
        cases hquiet
      unfold Silent
      rw [silence_append, silence, hentry]
      simp only [hquiet]
      rw [hframe]
      have htouched : Touched search none _ { st with mode := mode } _ := countHits_touched (hactive hne)
        (fun h hh => (hsighted h hh).2.mono (List.subset_append_left _ _)) hresumes
        (fun i hi => List.Subset.trans (restVisits_sublist hi).subset (List.subset_append_right _ _)) hquiet
      exact htouched.mono (List.Subset.refl _) rfl rfl

/-- **The recursive search** writes its result exactly when it comes upon a method that counts. -/
theorem searchMethodInternal_silent {fuel : ℕ}
    (hfuel : g.rank cls + 2 ≤ fuel ∨ 0 < fuel ∧ has inheritance dontInheritProtocols = true ∧
      has inheritance dontInheritSuperclass = true)
    (hm : Underway st.mode) :
    Silent search g none st (linearization g cls inheritance) (searchMethodInternal search g fuel cls inheritance st) := by
  refine frames_induction (motive := fun fuel cls inheritance => ∀ st : SearchState P, Underway st.mode →
    Silent search g none st (linearization g cls inheritance)
      (searchMethodInternal search g fuel cls inheritance st))
    hfuel (fun fuel cls inheritance hmixin hsuper st hm => ?_) st hm
  refine searchFrame_silent (fun i hi => ⟨fun hp proto st hm => ?_, fun supercls hs hi' st hm => ?_⟩) hm
  · have hp' : has inheritance dontInheritProtocols = false := by
      rcases hi with rfl | rfl
      · exact hp
      · rw [has_or, Bool.or_eq_false_iff] at hp
        exact hp.1
    rw [← linearization_mixin]
    exact hmixin hp' proto i st hm
  · have hs' : has inheritance dontInheritSuperclass = false := by
      rcases hi with rfl | rfl
      · exact hi'
      · rw [has_or, Bool.or_eq_false_iff] at hi'
        exact hi'.1
    rw [← linearization_searchInheritance hs]
    exact hsuper hs' supercls hs _ st hm

lemma nextSilent_internal {fuel : ℕ} (hfuel : g.rank cls + 1 ≤ fuel) :
    NextSilent search g (searchMethodInternal search g fuel) cls inheritance where
  mixin _ proto st hm := by
    rw [← linearization_mixin]
    exact searchMethodInternal_silent
      (Or.inr ⟨by omega, has_mixinFlags_protocols inheritance _, has_mixinFlags_superclass inheritance _⟩) hm
  super supercls hs _ st hm := by
    rw [← linearization_searchInheritance hs]
    have := ClassGraph.rank_superclass hs
    exact searchMethodInternal_silent (Or.inl (by omega)) hm

end Frames

end MulleObjcRuntime.Search
