import MulleObjcRuntime.Search.Default

/-!
# Hidden overrides

A method may be marked so that it must not shadow another one.

* `Event`, `events` — the matches of the linearization and the places where a stop class ends the search;
* `settle` — what a default search does with its events;
* `searchMethodInternal_settle` — the recursive search does just that;
* `hiddenOverride_iff` — the first match is returned, and a hidden override is reported as an inconsistency, only
  when the first match may shadow others, or is the only one and no stop class lies on the way.
-/

namespace MulleObjcRuntime.Search

open Classes

variable {P : Type}

/-! ## What a search comes upon -/

/-- A match, or the stop class. -/
inductive Event (P : Type)
  | hit (h : Hit P)
  | stop

/-- What the search does with the events ahead, when the method `found` is pending.  A previous search passes over
its own method once. -/
def settle (search : SearchArguments P) : Option Method → SearchState P → List (Event P) → Outcome × SearchState P
  | found, st, [] => (.ofFound found, st)
  | _, st, .stop :: _ => (.null, st)
  | found, st, .hit h :: rest =>
    if st.mode = .previousMethod ∧ isPreviousMethod search h.method = true then
      settle search found { st with mode := .previousMethod2 } rest
    else
      match found with
      | some _ => (.null, { st with error := .EEXIST })
      | none =>
        if h.method.isHiddenOverrideFatal then settle search (some h.method) { st with result := some h } rest
        else (.found h.method, { st with result := some h })

/-- The modes without another anchor than a method. -/
def Counting (mode : InternalMode) : Prop :=
  mode = .default ∨ mode = .superMethod2 ∨ mode = .previousMethod ∨ mode = .previousMethod2

lemma Counting.ne {mode : InternalMode} (h : Counting mode) :
    ¬ (mode = .overriddenMethod2 ∨ mode = .specificMethod2) := by
  rcases h with rfl | rfl | rfl | rfl <;> decide

/-- The same outcome, in the same state unless it is `NULL`. -/
def Alike (r r' : Outcome × SearchState P) : Prop := r.1 = r'.1 ∧ (r'.1 ≠ .null → r.2 = r'.2)

lemma Alike.refl (r : Outcome × SearchState P) : Alike r r := ⟨rfl, fun _ => rfl⟩

lemma alike_null {r r' : Outcome × SearchState P} (h : r.1 = .null) (h' : r'.1 = .null) : Alike r r' :=
  ⟨h.trans h'.symm, fun hne => absurd h' hne⟩

lemma Alike.eq {r r' : Outcome × SearchState P} (h : Alike r r') (hne : r'.1 ≠ .null) : r = r' :=
  Prod.ext h.1 (h.2 hne)

section Settle

variable {search : SearchArguments P} {found : Option Method} {st : SearchState P} {h : Hit P}
  {r : Outcome × SearchState P} {k : Option Method → SearchState P → Outcome × SearchState P}

lemma settle_hit (hp : ¬ (st.mode = .previousMethod ∧ isPreviousMethod search h.method = true))
    (rest : List (Event P)) :
    settle search none st (.hit h :: rest) =
      if h.method.isHiddenOverrideFatal then settle search (some h.method) { st with result := some h } rest
      else (.found h.method, { st with result := some h }) := by
  rw [settle, if_neg hp]

lemma settle_pending (hp : ¬ (st.mode = .previousMethod ∧ isPreviousMethod search h.method = true)) (m : Method)
    (rest : List (Event P)) :
    settle search (some m) st (.hit h :: rest) = (.null, { st with error := .EEXIST }) := by
  simp only [settle, if_neg hp]

lemma settle_previous (hp : st.mode = .previousMethod ∧ isPreviousMethod search h.method = true)
    (found : Option Method) (rest : List (Event P)) :
    settle search found st (.hit h :: rest) = settle search found { st with mode := .previousMethod2 } rest := by
  cases found <;> simp only [settle, if_pos hp]

lemma settle_some (m : Method) (st : SearchState P) (A : List (Event P)) :
    (settle search (some m) st A).1 = .found m ∨ (settle search (some m) st A).1 = .null := by
  induction A generalizing st with
  | nil => exact Or.inl rfl
  | cons e rest ih =>
    cases e with
    | stop => exact Or.inr rfl
    | hit h =>
      by_cases hp : st.mode = .previousMethod ∧ isPreviousMethod search h.method = true
      · rw [settle_previous hp]
        exact ih _
      · rw [settle_pending hp]
        exact Or.inr rfl

lemma settle_hit_cases (hp : ¬ (st.mode = .previousMethod ∧ isPreviousMethod search h.method = true))
    (rest : List (Event P)) :
    (settle search none st (.hit h :: rest)).1 = .found h.method ∨
      (settle search none st (.hit h :: rest)).1 = .null := by
  rw [settle_hit hp]
  split
  · exact settle_some _ _ _
  · exact Or.inl rfl

lemma mergeMethod_null (hr : r.1 = .null) (found : Option Method) : (mergeMethod found r k).1 = .null := by
  obtain ⟨o, st⟩ := r
  obtain rfl : o = .null := hr
  rfl

lemma mergeMethod_some {m m' : Method} (hr : r.1 = .found m' ∨ r.1 = .null) :
    (mergeMethod (some m) r k).1 = .null := by
  obtain ⟨o, st⟩ := r
  rcases hr with hr | hr
  · obtain rfl : o = .found m' := hr
    rfl
  · exact mergeMethod_null hr _

/-- A fatal method that a continuation has left pending stays so. -/
lemma mergeMethod_settle_some {m : Method} (hf : m.isHiddenOverrideFatal = true) {A B : List (Event P)}
    (hm : Counting st.mode) (hr : Alike r (settle search (some m) st A))
    (hk : ∀ found st, Counting st.mode → Alike (k found st) (settle search found st B)) :
    Alike (mergeMethod none r k) (settle search (some m) st (A ++ B)) := by
  induction A generalizing st with
  | nil =>
    obtain rfl := hr.eq (by simp [settle, Outcome.ofFound])
    simp only [settle, Outcome.ofFound, mergeMethod, hf, Option.isSome_none, Bool.false_eq_true, if_false, if_true]
    exact hk (some m) st hm
  | cons e rest ih =>
    rw [List.cons_append]
    cases e with
    | stop => exact alike_null (mergeMethod_null hr.1 _) rfl
    | hit h =>
      by_cases hp : st.mode = .previousMethod ∧ isPreviousMethod search h.method = true
      · rw [settle_previous hp] at hr ⊢
        exact ih (Or.inr (Or.inr (Or.inr rfl))) hr
      · rw [settle_pending hp] at hr ⊢
        exact alike_null (mergeMethod_null hr.1 _) rfl

/-- **What a continuation returned is merged** as if its events came after those before it. -/
lemma mergeMethod_settle {A B : List (Event P)} (hm : Counting st.mode) (hr : Alike r (settle search none st A))
    (hk : ∀ found st, Counting st.mode → Alike (k found st) (settle search found st B)) :
    Alike (mergeMethod found r k) (settle search found st (A ++ B)) := by
  induction A generalizing st with
  | nil =>
    obtain rfl := hr.eq (by simp [settle, Outcome.ofFound])
    exact hk found st hm
  | cons e rest ih =>
    rw [List.cons_append]
    cases e with
    | stop => exact alike_null (mergeMethod_null hr.1 _) rfl
    | hit h =>
      by_cases hp : st.mode = .previousMethod ∧ isPreviousMethod search h.method = true
      · rw [settle_previous hp] at hr ⊢
        exact ih (Or.inr (Or.inr (Or.inr rfl))) hr
      · cases found with
        | some m =>
          have hcases := settle_hit_cases hp rest
          rw [← hr.1] at hcases
          rw [settle_pending hp]
          exact alike_null (mergeMethod_some hcases) rfl
        | none =>
          rw [settle_hit hp] at hr ⊢
          cases hf : h.method.isHiddenOverrideFatal with
          | true =>
            simp only [hf, if_true] at hr ⊢
            exact mergeMethod_settle_some hf hm hr hk
          | false =>
            simp only [hf, Bool.false_eq_true, if_false] at hr ⊢
            obtain rfl := hr.eq (by simp)
            simp only [mergeMethod, hf, Option.isSome_none, Bool.false_eq_true, if_false]
            exact Alike.refl _

end Settle

/-! ## The events of the linearization -/

section Events

variable (search : SearchArguments P) (g : ClassGraph P)

/-- The events of one visit: nothing is looked for in the stop class. -/
def Visit.events (v : Visit P) : List (Event P) :=
  if g.classid v.cls = search.stopClassid then [.stop] else (v.hits search.methodid).map .hit

/-- The events along some visits. -/
def events (path : List (Visit P)) : List (Event P) := path.flatMap (Visit.events search g)

/-- The visits before the stop class. -/
def beforeStop (stopClassid : ℕ) (path : List (Visit P)) : List (Visit P) :=
  path.takeWhile fun v => g.classid v.cls ≠ stopClassid

/-- The search comes upon the stop class. -/
def MeetsStop (stopClassid : ℕ) (path : List (Visit P)) : Prop := ∃ v ∈ path, g.classid v.cls = stopClassid

instance (stopClassid : ℕ) (path : List (Visit P)) : Decidable (MeetsStop g stopClassid path) := by
  unfold MeetsStop
  infer_instance

variable {search g}

lemma settle_stop (found : Option Method) (st : SearchState P) (A : List (Hit P)) (B : List (Event P)) :
    settle search found st (A.map .hit ++ .stop :: B) = settle search found st (A.map .hit ++ [.stop]) := by
  induction A generalizing found st with
  | nil => rfl
  | cons h A ih => cases found <;> simp only [List.map_cons, List.cons_append, settle, ih]

lemma events_append (p q : List (Visit P)) : events search g (p ++ q) = events search g p ++ events search g q :=
  List.flatMap_append

/-- Only the matches before the stop class count, and whether there is one. -/
lemma settle_events (st : SearchState P) (path : List (Visit P)) :
    settle search none st (events search g path) =
      settle search none st ((hits search.methodid (beforeStop g search.stopClassid path)).map .hit ++
        if MeetsStop g search.stopClassid path then [.stop] else []) := by
  have hsplit : ∃ B, events search g path =
      (hits search.methodid (beforeStop g search.stopClassid path)).map .hit ++
        (if MeetsStop g search.stopClassid path then [.stop] else []) ++ B ∧
      (MeetsStop g search.stopClassid path ∨ B = []) := by
    unfold MeetsStop
    induction path with
    | nil => exact ⟨[], by simp [events, beforeStop, hits], Or.inr rfl⟩
    | cons v path ih =>
      unfold events beforeStop at *
      rw [List.flatMap_cons, Visit.events]
      by_cases hv : g.classid v.cls = search.stopClassid
      · exact ⟨path.flatMap (Visit.events search g), by simp [hv, hits], Or.inl ⟨v, List.mem_cons_self, hv⟩⟩
      · obtain ⟨B, h1, h2⟩ := ih
        refine ⟨B, ?_, by simpa [hv] using h2⟩
        simp [hv, h1, hits]
  obtain ⟨B, h1, h2⟩ := hsplit
  rw [h1]
  by_cases hstop : MeetsStop g search.stopClassid path
  · simp only [if_pos hstop, List.append_assoc, List.singleton_append]
    exact settle_stop _ _ _ _
  · rw [h2.resolve_left hstop, List.append_nil]

end Events

/-! ## The frames -/

section Frames

variable [DecidableEq P] {search : SearchArguments P} {g : ClassGraph P} {frame : Frame P} {cls : ClassRef P}
  {found : Option Method} {inheritance : ℕ} {st : SearchState P}

omit [DecidableEq P] in
lemma searchMethodlist_counting (hm : Counting st.mode) (list : MethodList) :
    searchMethodlist g search cls found inheritance list st =
      match list.search search.methodid with
      | none => .next found inheritance st
      | some method =>
        if st.mode = .previousMethod ∧ isPreviousMethod search method = true then
          .next found inheritance { st with mode := .previousMethod2 }
        else countMethod search cls found inheritance list method st := by
  obtain ⟨mode, error, result, reports⟩ := st
  unfold searchMethodlist lookInMethodlist methodlistSearch
  rcases hm with hm | hm | hm | hm <;> (simp only at hm; subst hm) <;>
    cases list.search search.methodid <;> simp

omit [DecidableEq P] in
/-- The loop over the method lists. -/
lemma searchMethodlists_settle (hcb : search.callback = none) {B : List (Event P)}
    {k : Option Method → ℕ → SearchState P → Outcome × SearchState P}
    (hk : ∀ found st, Counting st.mode → Alike (k found inheritance st) (settle search found st B))
    (lists : List MethodList) (i : ℕ) (hm : Counting st.mode) :
    Alike ((searchMethodlists g search cls 0 lists i found inheritance st).andThen k)
      (settle search found st ((Visit.hits search.methodid ⟨cls, lists⟩).map .hit ++ B)) := by
  induction lists generalizing i found st with
  | nil => exact hk found st hm
  | cons list rest ih =>
    rw [searchMethodlists_cons, searchMethodlist_counting hm]
    cases hs : list.search search.methodid with
    | none =>
      have : Visit.hits search.methodid ⟨cls, list :: rest⟩ = Visit.hits search.methodid ⟨cls, rest⟩ := by
        simp [Visit.hits, hs]
      rw [this]
      exact ih (i + 1) hm
    | some method =>
      have : Visit.hits search.methodid ⟨cls, list :: rest⟩ =
          ⟨cls, list, method⟩ :: Visit.hits search.methodid ⟨cls, rest⟩ := by
        simp [Visit.hits, hs]
      rw [this, List.map_cons, List.cons_append]
      simp only
      by_cases hp : st.mode = .previousMethod ∧ isPreviousMethod search method = true
      · have hp' : st.mode = .previousMethod ∧
            isPreviousMethod search (⟨cls, list, method⟩ : Hit P).method = true := hp
        rw [if_pos hp, settle_previous hp']
        exact ih (i + 1) (Or.inr (Or.inr (Or.inr rfl)))
      · have hp' : ¬ (st.mode = .previousMethod ∧
            isPreviousMethod search (⟨cls, list, method⟩ : Hit P).method = true) := hp
        rw [if_neg hp, countMethod_eq hcb]
        cases found with
        | some m =>
          rw [settle_pending hp']
          exact Alike.refl _
        | none =>
          rw [settle_hit hp']
          simp only [Option.isSome_none, Bool.false_eq_true, if_false, keepMethod]
          by_cases hf : method.isHiddenOverrideFatal = true
          · rw [if_pos hf, if_pos hf]
            exact ih (i + 1) hm
          · rw [if_neg hf, if_neg hf]
            exact Alike.refl _

/-- The frames a class object's frame goes on to settle on their events. -/
structure NextSettles (search : SearchArguments P) (g : ClassGraph P) (frame : Frame P) (cls : ClassRef P)
    (inheritance : ℕ) : Prop where
  mixin : has inheritance dontInheritProtocols = false → ∀ proto st, Counting st.mode →
    Alike (frame (mixinRef cls proto) (mixinFlags inheritance ||| g.inheritance (mixinRef cls proto)) st)
      (settle search none st (Visit.events search g
        (ownVisit g (mixinRef cls proto) (mixinFlags inheritance ||| g.inheritance (mixinRef cls proto)))))
  super : ∀ supercls, g.superclass cls = some supercls → has inheritance dontInheritSuperclass = false →
    ∀ st, Counting st.mode →
      Alike (frame supercls (searchInheritance g cls supercls inheritance) st)
        (settle search none st (events search g (linearization g supercls (superInheritance g cls supercls inheritance))))

/-- The mixins are searched one after the other. -/
lemma searchMixins_settle (hcb : search.callback = none) {i : ℕ}
    (hframe : ∀ proto st, Counting st.mode →
      Alike (frame (mixinRef cls proto) (i ||| g.inheritance (mixinRef cls proto)) st)
        (settle search none st (Visit.events search g
          (ownVisit g (mixinRef cls proto) (i ||| g.inheritance (mixinRef cls proto))))))
    (mixins : List P) (hm : Counting st.mode) :
    Alike (searchMixins g search frame cls i mixins found st)
      (settle search found st (events search g ((mixins.filter (· ≠ cls.pair)).map fun proto =>
        ownVisit g (mixinRef cls proto) (i ||| g.inheritance (mixinRef cls proto))))) := by
  induction mixins generalizing found st with
  | nil => exact Alike.refl _
  | cons proto rest ih =>
    rw [searchMixins_cons hcb]
    by_cases hp : proto = cls.pair
    · rw [if_pos hp, List.filter_cons_of_neg (by simp [hp])]
      exact ih hm
    · rw [if_neg hp, List.filter_cons_of_pos (by simpa using hp), List.map_cons]
      exact mergeMethod_settle hm (hframe proto st hm) fun found st' hm' => ih hm'

lemma searchSuperclass_settle (hnext : NextSettles search g frame cls inheritance) (hm : Counting st.mode) :
    Alike (searchSuperclass g frame cls found inheritance st)
      (settle search found st (events search g (superVisits g cls inheritance))) := by
  rcases searchSuperclass_cases g frame cls found inheritance st with ⟨hno, heq⟩ | ⟨supercls, hs, hi, heq⟩
  · rw [heq, superVisits_eq_nil hno]
    exact Alike.refl _
  · rw [heq, superVisits_eq hs hi, ← List.append_nil (events _ _ _)]
    exact mergeMethod_settle hm (hnext.super supercls hs hi st hm) fun found st' _ => Alike.refl _

lemma nextClass_settle (hcb : search.callback = none) (hnext : NextSettles search g frame cls inheritance)
    (hm : Counting st.mode) :
    Alike (nextClass g search frame cls found inheritance st)
      (settle search found st (events search g (mixinVisits g cls inheritance ++ superVisits g cls inheritance))) := by
  rcases nextClass_cases search g frame cls found inheritance st with ⟨hno, heq⟩ | ⟨hp, hmixin, heq⟩
  · rw [heq, mixinVisits_eq_nil hno]
    exact searchSuperclass_settle hnext hm
  · rw [heq, mixinVisits_eq hp hmixin, events_append]
    exact mergeMethod_settle hm (searchMixins_settle hcb (hnext.mixin hp) _ hm) fun found st' hm' =>
      searchSuperclass_settle hnext hm'

/-- **One frame** settles on the events of its class object, the mixins and the superclass. -/
lemma searchFrame_settle (hcb : search.callback = none) (hnext : NextSettles search g frame cls inheritance)
    (hm : Counting st.mode) :
    Alike (searchFrame g search frame cls inheritance st)
      (settle search none st (events search g (linearization g cls inheritance))) := by
  have hframe : searchFrame g search frame cls inheritance st = searchClass g search frame cls inheritance st := by
    unfold searchFrame
    rcases hm with hm | hm | hm | hm <;> rw [hm]
  have hown : Visit.events search g (ownVisit g cls inheritance) =
      if g.classid cls = search.stopClassid then [.stop]
      else ((ownVisit g cls inheritance).hits search.methodid).map .hit := rfl
  rw [hframe, linearization_visits, events, List.flatMap_cons, hown]
  by_cases hstop : g.classid cls = search.stopClassid
  · rw [searchClass, if_pos hstop, if_pos hstop]
    exact Alike.refl _
  · rw [searchClass_eq hcb hstop, if_neg hstop]
    refine searchMethodlists_settle hcb (fun found st hm => ?_) _ 0 hm
    rw [afterMethodlists, if_neg hm.ne]
    exact nextClass_settle hcb hnext hm

end Frames

/-- **The recursive search** settles on the events of the linearization. -/
theorem searchMethodInternal_settle [DecidableEq P] {search : SearchArguments P} {g : ClassGraph P}
    {cls : ClassRef P} {inheritance : ℕ} {st : SearchState P} (hcb : search.callback = none) {fuel : ℕ}
    (hfuel : g.rank cls + 2 ≤ fuel ∨ 0 < fuel ∧ has inheritance dontInheritProtocols = true ∧
      has inheritance dontInheritSuperclass = true)
    (hm : Counting st.mode) :
    Alike (searchMethodInternal search g fuel cls inheritance st)
      (settle search none st (events search g (linearization g cls inheritance))) := by
  refine frames_induction (motive := fun fuel cls inheritance => ∀ st : SearchState P, Counting st.mode →
    Alike (searchMethodInternal search g fuel cls inheritance st)
      (settle search none st (events search g (linearization g cls inheritance))))
    hfuel (fun fuel cls inheritance hmixin hsuper st hm => ?_) st hm
  refine searchFrame_settle hcb ⟨fun hp proto st hm => ?_, fun supercls hs hi st hm => ?_⟩ hm
  · have hevents : Visit.events search g (ownVisit g (mixinRef cls proto)
          (mixinFlags inheritance ||| g.inheritance (mixinRef cls proto))) =
        events search g (linearization g (mixinRef cls proto)
          (mixinFlags inheritance ||| g.inheritance (mixinRef cls proto))) := by
      rw [linearization_mixin, events, List.flatMap_singleton]
    rw [hevents]
    exact hmixin hp proto inheritance st hm
  · rw [← linearization_searchInheritance hs]
    exact hsuper hi supercls hs _ st hm

/-! ## Hidden overrides -/

/-- What is to be done about the matches before the stop class: a first match that shadows another one although it
must not is an inconsistency, every other first match is returned. -/
structure Detects (candidates : List (Hit P)) (r : Outcome × SearchState P) : Prop where
  inconsistent : ∀ h rest, candidates = h :: rest → h.method.isHiddenOverrideFatal = true → rest ≠ [] →
    r.1 = .inconsistency
  returned : ∀ h rest, candidates = h :: rest → (h.method.isHiddenOverrideFatal = true → rest = []) →
    Returns r (some h)

/-- A default search with a stop class. -/
def SearchArguments.makeStop (methodid stopClassid : ℕ) : SearchArguments P :=
  { (makeDefault methodid : SearchArguments P) with stopClassid := stopClassid }

section Detecting

variable [DecidableEq P]

lemma searchMethod_eq_whenMissing {search : SearchArguments P} {mode : InternalMode}
    (hmode : search.mode.toInternal? = some mode) (g : ClassGraph P) (reloads : List (ClassGraph P))
    (cls : ClassRef P) (inheritance : ℕ) :
    ∃ retry, searchMethod g reloads cls search inheritance =
      whenMissing (searchMethodOnce search g cls inheritance ⟨mode, .ENOENT, none, []⟩) retry := by
  unfold searchMethod
  rw [hmode]
  cases reloads with
  | nil => exact ⟨_, rfl⟩
  | cons reload reloads => exact ⟨_, rfl⟩

/-- **Hidden overrides are detected, and the first match returned otherwise, exactly when the first match may
shadow others, or is the only one and no stop class lies on the way.**  A hidden override yields `NULL` and is
never reported as an inconsistency, and so does a stop class after a method that must not shadow others. -/
theorem hiddenOverride_iff (g : ClassGraph P) (reloads : List (ClassGraph P)) (cls : ClassRef P)
    (methodid stopClassid inheritance : ℕ) :
    Detects (hits methodid (beforeStop g stopClassid (linearization g cls inheritance)))
        (searchMethod g reloads cls (.makeStop methodid stopClassid) inheritance) ↔
      ∀ h rest, hits methodid (beforeStop g stopClassid (linearization g cls inheritance)) = h :: rest →
        h.method.isHiddenOverrideFatal = true →
          rest = [] ∧ ¬ MeetsStop g stopClassid (linearization g cls inheritance) := by
  have hr : Alike (searchMethodInternal (.makeStop methodid stopClassid) g (g.rank cls + 2) cls inheritance
      ⟨.default, .ENOENT, none, []⟩) _ :=
    searchMethodInternal_settle rfl (Or.inl (Nat.le_refl _)) (Or.inl rfl)
  rw [settle_events] at hr
  change Alike _ (settle (.makeStop methodid stopClassid) none ⟨.default, .ENOENT, none, []⟩
    ((hits methodid (beforeStop g stopClassid (linearization g cls inheritance))).map .hit ++
      if MeetsStop g stopClassid (linearization g cls inheritance) then [.stop] else [])) at hr
  have hmode : (SearchArguments.makeStop methodid stopClassid : SearchArguments P).mode.toInternal? =
    some .default := rfl
  obtain ⟨retry, heq⟩ := searchMethod_eq_whenMissing hmode g reloads cls inheritance
  rw [heq, searchMethodOnce]
  generalize searchMethodInternal _ g _ cls inheritance _ = r at hr
  generalize hits methodid (beforeStop g stopClassid (linearization g cls inheritance)) = M at *
  have hnull : r.1 = .null → (whenMissing (checkAnchor r) retry).1 = .null := by
    obtain ⟨o, st⟩ := r
    rintro rfl
    unfold checkAnchor
    split <;> rfl
  have hfound : ∀ h : Hit P, r = (.found h.method, ⟨.default, .ENOENT, some h, []⟩) →
      Returns (whenMissing (checkAnchor r) retry) (some h) := by
    rintro h rfl
    exact ⟨rfl, rfl⟩
  cases M with
  | nil => exact ⟨fun _ h rest h0 => (List.cons_ne_nil h rest h0.symm).elim,
      fun _ => ⟨fun h rest h0 => (List.cons_ne_nil h rest h0.symm).elim,
        fun h rest h0 => (List.cons_ne_nil h rest h0.symm).elim⟩⟩
  | cons h rest =>
    rw [List.map_cons, List.cons_append, settle_hit (by simp)] at hr
    cases hf : h.method.isHiddenOverrideFatal with
    | false =>
      simp only [hf, Bool.false_eq_true, if_false] at hr
      have hret := hfound h (hr.eq (by simp))
      refine ⟨fun _ h' rest' h0 hf' => ?_, fun _ => ⟨fun h' rest' h0 hf' _ => ?_, fun h' rest' h0 _ => ?_⟩⟩
      · obtain ⟨rfl, -⟩ := List.cons.inj h0
        simp [hf] at hf'
      · obtain ⟨rfl, -⟩ := List.cons.inj h0
        simp [hf] at hf'
      · obtain ⟨rfl, -⟩ := List.cons.inj h0
        exact hret
    | true =>
      simp only [hf, if_true] at hr
      constructor
      · intro hdetects h' rest' h0 _
        obtain ⟨rfl, rfl⟩ := List.cons.inj h0
        cases rest with
        | cons h2 rest =>
          have := hdetects.inconsistent h (h2 :: rest) rfl hf (List.cons_ne_nil _ _)
          rw [List.map_cons, List.cons_append, settle_pending (by simp)] at hr
          rw [hnull hr.1] at this
          cases this
        | nil =>
          refine ⟨rfl, fun hmeets => ?_⟩
          rw [if_pos hmeets] at hr
          have := (hdetects.returned h [] rfl fun _ => rfl).1
          rw [hnull hr.1] at this
          cases this
      · intro hcond
        obtain ⟨rfl, hmeets⟩ := hcond h rest rfl hf
        rw [if_neg hmeets] at hr
        refine ⟨fun h' rest' h0 _ hne => ?_, fun h' rest' h0 _ => ?_⟩
        · obtain ⟨-, rfl⟩ := List.cons.inj h0
          exact absurd rfl hne
        · obtain ⟨rfl, -⟩ := List.cons.inj h0
          exact hfound h (hr.eq (by simp [settle, Outcome.ofFound]))

end Detecting

/-- A class `2` below a root class `1`; both have the method `7`, which must not shadow another in the class. -/
def hiddenOverrideGraph : ClassGraph ℕ :=
  ClassGraph.ofList
    [ClassGraph.pairOf 1 none [] false ⟨0, [.single 0 ⟨100, 7, 0, 1000⟩]⟩ ⟨0, [.empty]⟩,
      ClassGraph.pairOf 2 (some 0) [] false ⟨0, [.single 0 ⟨101, 7, checkUnexpectedOverride, 1001⟩]⟩ ⟨0, [.empty]⟩]

/-- The hidden override is not reported but yields `NULL`, with `EEXIST`; with the root class as the stop class the
only match is lost. -/
theorem hiddenOverride_not_detected :
    (searchMethod hiddenOverrideGraph [] ⟨1, false⟩ (.makeStop 7 0) 0).1 = .null ∧
      ¬ Detects (hits 7 (beforeStop hiddenOverrideGraph 0 (linearization hiddenOverrideGraph ⟨1, false⟩ 0)))
        (searchMethod hiddenOverrideGraph [] ⟨1, false⟩ (.makeStop 7 0) 0) ∧
      ¬ Detects (hits 7 (beforeStop hiddenOverrideGraph 1 (linearization hiddenOverrideGraph ⟨1, false⟩ 0)))
        (searchMethod hiddenOverrideGraph [] ⟨1, false⟩ (.makeStop 7 1) 0) := by
  refine ⟨by decide, fun h => ?_, fun h => ?_⟩
  · have := h.inconsistent _ _ rfl (by decide) (by decide)
    revert this
    decide
  · have := (h.returned _ _ rfl (by decide)).1
    revert this
    decide

end MulleObjcRuntime.Search
