import MulleObjcRuntime.Search.Super
import MulleObjcRuntime.Search.Specific

/-!
# The retry after a missing method

When a search finds nothing, `method_is_missing` may load something and have the search repeated.  The repeated
search goes on in the stage in which the first one ended.

* `Request` — the searches of the runtime, one for each mode;
* `Request.counts`, `Request.resumes` — the methods a search settles on, and those it settles on when it is resumed;
* `searchMethod_counts`, `searchMethodRetry_resumes` — it does just that;
* `retry_iff` — when the repeated search returns what a fresh one would.
-/

namespace MulleObjcRuntime.Search

open Classes

variable {P : Type} [DecidableEq P]

/-! ## The searches -/

/-- A search, with what it is for. -/
inductive Request
  | default (methodid : ℕ)
  | super (methodid classid : ℕ)
  | overridden (methodid classid categoryid : ℕ)
  | previous (method : Method)
  | specific (methodid classid categoryid : ℕ)

/-- The arguments, as the `make` functions set them up. -/
def Request.search : Request → SearchArguments P
  | .default methodid => .makeDefault methodid
  | .super methodid classid => .makeSuper methodid classid
  | .overridden methodid classid categoryid => .makeOverridden methodid classid categoryid
  | .previous method => .makePrevious method
  | .specific methodid classid categoryid => .makeSpecific methodid classid categoryid

/-- The mode a search starts in. -/
def Request.mode : Request → InternalMode
  | .default _ => .default
  | .super _ _ => .superMethod
  | .overridden _ _ _ => .overriddenMethod
  | .previous _ => .previousMethod
  | .specific _ _ _ => .specificMethod

/-- The stage in which a search has met its anchor. -/
def Request.stage : Request → InternalMode
  | .default _ => .default
  | .super _ _ => .superMethod2
  | .overridden _ _ _ => .overriddenMethod3
  | .previous _ => .previousMethod2
  | .specific _ _ _ => .specificMethod3

/-- The matches behind the method of a previous search, which has to come first.  A fatal hidden override before it
is kept when nothing else comes. -/
def behindMethod (x : Method) : List (Hit P) → List (Hit P)
  | [] => []
  | h :: rest =>
    if x.address = h.method.address then rest
    else if h.method.isHiddenOverrideFatal = true ∧ rest.map (fun h' => h'.method.address) = [x.address] then [h]
    else []

/-- The methods that count for a search. -/
def Request.counts (g : ClassGraph P) (cls : ClassRef P) (inheritance : ℕ) : Request → List Method
  | .default methodid => (hits methodid (linearization g cls inheritance)).map Hit.method
  | .super methodid classid => (hits methodid (behindClass g classid (linearization g cls inheritance))).map Hit.method
  | .overridden methodid classid categoryid =>
    if anchored g (classid, categoryid) (linearization g cls inheritance) then
      (Search.overridden g methodid (classid, categoryid) (linearization g cls inheritance)).map Hit.method
    else []
  | .previous method => (behindMethod method (hits method.methodid (linearization g cls inheritance))).map Hit.method
  | .specific methodid classid categoryid =>
    match atCategory g (.makeSpecific methodid classid categoryid) (stations g cls inheritance) with
    | none => []
    | some (own, more) => own.toList ++ more

/-- The methods that count for a search that is resumed in its last stage. -/
def Request.resumes (g : ClassGraph P) (cls : ClassRef P) (inheritance : ℕ) : Request → List Method
  | .default methodid => (hits methodid (linearization g cls inheritance)).map Hit.method
  | .super methodid _ => (hits methodid (linearization g cls inheritance)).map Hit.method
  | .overridden methodid classid categoryid =>
    (((entries (linearization g cls inheritance)).filter fun e => e.ids g ≠ (classid, categoryid)).filterMap
      (Entry.hit methodid)).map Hit.method
  | .previous method => (hits method.methodid (linearization g cls inheritance)).map Hit.method
  | .specific methodid classid categoryid =>
    leftover (.makeSpecific methodid classid categoryid) (stations g cls inheritance)

/-- A specific search does not come upon its class. -/
def Request.Unmet (g : ClassGraph P) (cls : ClassRef P) (inheritance : ℕ) : Request → Prop
  | .specific _ classid _ => ∀ v ∈ linearization g cls inheritance, classid ≠ g.classid v.cls
  | _ => False

/-! ## What a search settles on -/

/-- Nothing comes of these methods: there are none, or the first one must not shadow the others. -/
def Mute : List Method → Prop
  | [] => True
  | m :: rest => m.isHiddenOverrideFatal = true ∧ rest ≠ []

/-- The same comes of both: nothing, or the first method they have in common. -/
def Concur (methods others : List Method) : Prop :=
  (Mute methods ∧ Mute others) ∨ (¬ Mute methods ∧ ¬ Mute others ∧ methods.head? = others.head?)

lemma pickMethod_of_mute {methods : List Method} (h : Mute methods) : pickMethod methods = none := by
  cases methods with
  | nil => rfl
  | cons m rest => exact if_pos h

lemma pickMethod_of_not_mute {methods : List Method} (h : ¬ Mute methods) :
    pickMethod methods = methods.head? ∧ methods.head? ≠ none := by
  cases methods with
  | nil => exact absurd trivial h
  | cons m rest => exact ⟨if_neg h, by simp⟩

lemma concur_iff {methods others : List Method} : Concur methods others ↔ pickMethod methods = pickMethod others := by
  unfold Concur
  by_cases h : Mute methods
  · rw [pickMethod_of_mute h]
    by_cases h' : Mute others
    · simp [h, h', pickMethod_of_mute h']
    · obtain ⟨heq, hne⟩ := pickMethod_of_not_mute h'
      simp [h, h', heq, Ne.symm hne]
  · obtain ⟨heq, hne⟩ := pickMethod_of_not_mute h
    by_cases h' : Mute others
    · simp [h, h', heq, pickMethod_of_mute h', hne]
    · simp [h, h', heq, (pickMethod_of_not_mute h').1]

section Outcomes

variable {g : ClassGraph P} {cls : ClassRef P} {inheritance : ℕ} {r : Outcome × SearchState P}

omit [DecidableEq P] in
lemma pick_map (candidates : List (Hit P)) : (pick candidates).map Hit.method = pickMethod (candidates.map Hit.method) := by
  cases candidates with
  | nil => rfl
  | cons h rest =>
    rw [pick, List.map_cons, pickMethod]
    by_cases hb : h.method.isHiddenOverrideFatal = true ∧ rest ≠ []
    · rw [if_pos hb, if_pos ⟨hb.1, by simpa using hb.2⟩]
      rfl
    · rw [if_neg hb, if_neg fun hb' => hb ⟨hb'.1, by simpa using hb'.2⟩]
      rfl

omit [DecidableEq P] in
lemma Returns.outcome {candidates : List (Hit P)} (hr : Returns r (pick candidates)) :
    r.1 = .ofMethod (pickMethod (candidates.map Hit.method)) := by
  rw [← pick_map]
  cases h : pick candidates with
  | none =>
    rw [h] at hr
    exact hr
  | some c =>
    rw [h] at hr
    exact hr.1

lemma Outcome.ofMethod_inj {o o' : Option Method} : Outcome.ofMethod o = .ofMethod o' ↔ o = o' := by
  cases o <;> cases o' <;> simp [Outcome.ofMethod]

lemma searchMethodRetry_settled (search : SearchArguments P) (g : ClassGraph P) (cls : ClassRef P) (inheritance : ℕ)
    (hcb : search.callback = none) (hstop : search.stopClassid = 0) {mode : InternalMode} (hm : Settled mode) :
    (searchMethodRetry search cls inheritance [] g ⟨mode, .ENOENT, none, []⟩).1 =
      .ofMethod (pickMethod ((scan search g mode (linearization g cls inheritance)).hits.map Hit.method)) := by
  have hr : Settles none ⟨mode, .ENOENT, none, []⟩ (scan search g mode (linearization g cls inheritance))
      (searchMethodInternal search g (g.rank cls + 2) cls inheritance ⟨mode, .ENOENT, none, []⟩) :=
    searchMethodInternal_settles hcb hstop (Or.inl (Nat.le_refl _)) (.settled hm)
  rw [scan_settled hm] at hr ⊢
  exact (returns_of_settled rfl hm rfl hr).1.outcome

omit [DecidableEq P] in
lemma scan_hits_settled (search : SearchArguments P) (g : ClassGraph P) {mode : InternalMode} (hm : Settled mode)
    (himp : mode ≠ .imp) (h3 : mode ≠ .overriddenMethod3) (path : List (Visit P)) :
    (scan search g mode path).hits = hits search.methodid path := by
  rw [scan_settled hm]
  simp only [counted_eq_hits _ _ himp h3]
  rfl

end Outcomes

/-! ## Previous searches -/

section Previous

variable {search : SearchArguments P} {g : ClassGraph P} {cls : ClassRef P} {inheritance : ℕ} {st : SearchState P}
  {found : Option Method}

omit [DecidableEq P]

lemma events_eq_hits (hstop : search.stopClassid = 0) (path : List (Visit P)) :
    events search g path = (hits search.methodid path).map .hit := by
  induction path with
  | nil => rfl
  | cons v path ih =>
    have hv : g.classid v.cls ≠ search.stopClassid := by
      rw [hstop]
      exact ClassGraph.classid_ne_zero
    have hcons : events search g (v :: path) = v.events search g ++ events search g path := rfl
    rw [hcons, ih, Visit.events, if_neg hv, ← List.map_append]
    rfl

lemma settle_fail (A : List (Event P)) (h : (settle search found st A).1 = .fail) :
    (settle search found st A).2 = st ∨ (settle search found st A).2 = { st with mode := .previousMethod2 } := by
  induction A generalizing st with
  | nil => exact Or.inl rfl
  | cons e rest ih =>
    cases e with
    | stop => cases found <;> cases h
    | hit m =>
      by_cases hp : st.mode = .previousMethod ∧ isPreviousMethod search m.method = true
      · rw [settle_previous hp] at h ⊢
        rcases ih h with h' | h' <;> exact Or.inr h'
      · cases found with
        | some m' =>
          rw [settle_pending hp] at h
          cases h
        | none =>
          rcases settle_hit_cases hp rest with h' | h' <;> (rw [h'] at h; cases h)

variable (search) in
lemma settle_ends (hm : st.mode = .previousMethod2) (herror : st.error = .ENOENT) (candidates : List (Hit P)) :
    Ends (settle search none st (candidates.map .hit)) (pickMethod (candidates.map Hit.method)) ∧
      ((settle search none st (candidates.map .hit)).1 ≠ .null →
        (settle search none st (candidates.map .hit)).2.mode = .previousMethod2) := by
  have hp : ∀ (st : SearchState P) (h : Hit P), st.mode = .previousMethod2 →
      ¬ (st.mode = .previousMethod ∧ isPreviousMethod search h.method = true) := fun st h hm h' => by simp [hm] at h'
  rcases candidates with _ | ⟨h, rest⟩
  · exact ⟨Or.inl ⟨rfl, herror⟩, fun _ => hm⟩
  · rw [List.map_cons, settle_hit (hp st h hm), List.map_cons, pickMethod]
    cases hf : h.method.isHiddenOverrideFatal with
    | false => simpa [Ends] using hm
    | true =>
      rcases rest with _ | ⟨h2, rest⟩
      · simpa [settle, Ends, Outcome.ofFound] using hm
      · rw [if_pos rfl, List.map_cons, settle_pending (hp { st with result := some h } h2 hm)]
        simp [Ends]

end Previous

omit [DecidableEq P] in
lemma whenMissing_unmet {r : Outcome × SearchState P} (h : r.1 ≠ .null → r.2.mode = .previousMethod) :
    (whenMissing (checkAnchor r) fun st => (.null, st)).1 = .null := by
  obtain ⟨o, st⟩ := r
  by_cases ho : o = .null
  · subst ho
    unfold checkAnchor
    split <;> rfl
  · rw [checkAnchor, if_pos (Or.inl (h ho))]
    rfl

section Met

variable {search : SearchArguments P} {st : SearchState P} {r : Outcome × SearchState P} {candidates : List (Hit P)}

omit [DecidableEq P] in
lemma whenMissing_met (hr : Alike r (settle search none st (candidates.map .hit))) (hm : st.mode = .previousMethod2)
    (herror : st.error = .ENOENT) :
    (whenMissing (checkAnchor r) fun st => (.null, st)).1 = .ofMethod (pickMethod (candidates.map Hit.method)) := by
  obtain ⟨hends, hmode⟩ := settle_ends search hm herror candidates
  refine ends_whenMissing (hends.of_alike hr) fun hne => ?_
  rw [hr.1] at hne
  rw [hr.eq hne, hmode hne]
  decide

end Met

/-- **The previous search** settles on the matches behind its method. -/
theorem searchMethod_previous (g : ClassGraph P) (cls : ClassRef P) (x : Method) (inheritance : ℕ) :
    (searchMethod g [] cls (.makePrevious x) inheritance).1 =
      .ofMethod (pickMethod ((behindMethod x (hits x.methodid (linearization g cls inheritance))).map Hit.method)) := by
  have hr : Alike (searchMethodInternal (.makePrevious x) g (g.rank cls + 2) cls inheritance
      ⟨.previousMethod, .ENOENT, none, []⟩) _ :=
    searchMethodInternal_settle rfl (Or.inl (Nat.le_refl _)) (Or.inr (Or.inr (Or.inl rfl)))
  rw [events_eq_hits rfl] at hr
  change Alike _ (settle (.makePrevious x) none ⟨.previousMethod, .ENOENT, none, []⟩
    ((hits x.methodid (linearization g cls inheritance)).map .hit)) at hr
  rw [searchMethod_eq .previousMethod rfl, searchMethodOnce]
  generalize searchMethodInternal _ g _ cls inheritance _ = r at hr ⊢
  have hprevious : ∀ h : Hit P, isPreviousMethod (.makePrevious x : SearchArguments P) h.method = true ↔
      x.address = h.method.address := fun h => by simp [isPreviousMethod, SearchArguments.makePrevious]
  have hlost : r.1 = .null → (whenMissing (checkAnchor r) fun st => (.null, st)).1 = .null := fun h =>
    whenMissing_unmet fun hne => absurd h hne
  have hfound : ∀ h : Hit P, r = (.found h.method, ⟨.previousMethod, .ENOENT, some h, []⟩) →
      (whenMissing (checkAnchor r) fun st => (.null, st)).1 = .null := by
    rintro h rfl
    exact whenMissing_unmet fun _ => rfl
  generalize hits x.methodid (linearization g cls inheritance) = candidates at hr ⊢
  rcases candidates with _ | ⟨h, rest⟩
  · obtain rfl := hr.eq (by simp [settle, Outcome.ofFound])
    rfl
  · rw [List.map_cons] at hr
    rw [behindMethod]
    by_cases hp : x.address = h.method.address
    · rw [settle_previous ⟨rfl, (hprevious h).2 hp⟩] at hr
      rw [if_pos hp]
      exact whenMissing_met hr rfl rfl
    · rw [settle_hit fun h' => hp ((hprevious h).1 h'.2)] at hr
      rw [if_neg hp]
      cases hf : h.method.isHiddenOverrideFatal with
      | false =>
        simp only [hf, Bool.false_eq_true, if_false] at hr
        simpa [pickMethod, Outcome.ofMethod] using hfound h (hr.eq (by simp))
      | true =>
        -- the method is pending; it is kept only if that of the search is all that comes then
        simp only [hf, if_true] at hr
        rcases rest with _ | ⟨h2, rest⟩
        · simpa [pickMethod, Outcome.ofMethod] using hfound h (hr.eq (by simp [settle, Outcome.ofFound]))
        · rw [List.map_cons] at hr
          by_cases hp2 : x.address = h2.method.address
          · rw [settle_previous ⟨rfl, (hprevious h2).2 hp2⟩] at hr
            rcases rest with _ | ⟨h3, rest⟩
            · obtain rfl := hr.eq (by simp [settle, Outcome.ofFound])
              simp [hp2, settle, Outcome.ofFound, checkAnchor, pickMethod, Outcome.ofMethod]
            · rw [List.map_cons, settle_pending (by simp)] at hr
              simpa [pickMethod, Outcome.ofMethod] using hlost hr.1
          · rw [settle_pending fun h' => hp2 ((hprevious h2).1 h'.2)] at hr
            simpa [Ne.symm hp2, pickMethod, Outcome.ofMethod] using hlost hr.1

/-! ## Fresh and resumed searches -/

/-- **A search settles on the methods that count for it.** -/
theorem searchMethod_counts (g : ClassGraph P) (cls : ClassRef P) (inheritance : ℕ) (q : Request) :
    (searchMethod g [] cls q.search inheritance).1 = .ofMethod (pickMethod (q.counts g cls inheritance)) := by
  cases q with
  | default methodid => exact (searchMethod_default g cls methodid inheritance).1.outcome
  | super methodid classid => exact (searchMethod_super g cls inheritance methodid classid).outcome
  | overridden methodid classid categoryid =>
    have h := searchMethod_overridden g cls inheritance methodid (classid, categoryid)
    simp only [Request.search, Request.counts]
    by_cases ha : anchored g (classid, categoryid) (linearization g cls inheritance) = true
    · rw [if_pos ha] at h ⊢
      exact h.outcome
    · rw [if_neg ha] at h ⊢
      exact h
  | previous x => exact searchMethod_previous g cls x inheritance
  | specific methodid classid categoryid =>
    refine (searchMethod_specific g cls methodid classid categoryid inheritance).trans ?_
    rw [Request.counts]
    generalize atCategory g _ _ = a
    rcases a with _ | ⟨own, more⟩ <;> rfl

/-- **A search that is resumed settles on the methods that count in its last stage.** -/
theorem searchMethodRetry_resumes (g : ClassGraph P) (cls : ClassRef P) (inheritance : ℕ) (q : Request) :
    (searchMethodRetry q.search cls inheritance [] g ⟨q.stage, .ENOENT, none, []⟩).1 =
      .ofMethod (pickMethod (q.resumes g cls inheritance)) := by
  cases q with
  | default methodid =>
    refine (searchMethodRetry_settled _ g cls inheritance rfl rfl .default).trans ?_
    rw [scan_hits_settled _ _ .default (by decide) (by decide)]
    rfl
  | super methodid classid =>
    refine (searchMethodRetry_settled _ g cls inheritance rfl rfl .superMethod2).trans ?_
    rw [scan_hits_settled _ _ .superMethod2 (by decide) (by decide)]
    rfl
  | overridden methodid classid categoryid =>
    refine (searchMethodRetry_settled _ g cls inheritance rfl rfl .overriddenMethod3).trans ?_
    simp only [Request.search, Request.resumes]
    rw [show SearchArguments.makeOverridden methodid classid categoryid = (SearchArguments.makeOverridden methodid
      (classid, categoryid).1 (classid, categoryid).2 : SearchArguments P) from rfl, scan_overridden_settled]
  | previous x =>
    refine (searchMethodRetry_settled _ g cls inheritance rfl rfl .previousMethod2).trans ?_
    rw [scan_hits_settled _ _ .previousMethod2 (by decide) (by decide)]
    rfl
  | specific methodid classid categoryid =>
    exact whenMissing_follow (Or.inr rfl) (searchMethodInternal_follow rfl rfl (Or.inl (Nat.le_refl _)) (Or.inr rfl))
      (follow_ends3 rfl rfl _)

/-! ## The stage a search leaves -/

section Stage

variable {search : SearchArguments P} {g : ClassGraph P} {cls : ClassRef P} {inheritance : ℕ} {st : SearchState P}
  {r : Outcome × SearchState P}

omit [DecidableEq P]

lemma checkAnchor_fail (h : (checkAnchor r).1 = .fail) :
    checkAnchor r = r ∧ ¬ (r.2.mode = .previousMethod ∨ r.2.mode = .superMethod ∨ r.2.mode = .overriddenMethod) := by
  by_cases hm : r.2.mode = .previousMethod ∨ r.2.mode = .superMethod ∨ r.2.mode = .overriddenMethod
  · rw [checkAnchor, if_pos hm] at h
    cases h
  · exact ⟨if_neg hm, hm⟩

lemma settles_fail {s : Scan P} (hr : Settles none st s r) (h : r.1 = .fail) :
    s.stopped = false ∧ r.2 = { st with mode := s.mode } := by
  unfold Settles at hr
  cases hh : s.hits with
  | nil =>
    simp only [hh] at hr
    cases hs : s.stopped with
    | true =>
      rw [hs, if_pos rfl] at hr
      rw [hr] at h
      cases h
    | false =>
      rw [hs, if_neg (by simp)] at hr
      exact ⟨rfl, by rw [hr]⟩
  | cons hit rest =>
    simp only [hh] at hr
    split at hr
    · rw [hr.1] at h
      cases h
    · rw [hr] at h
      cases h

lemma scan_super_mode (search : SearchArguments P) (g : ClassGraph P) (path : List (Visit P)) :
    (scan search g .superMethod path).mode = .superMethod ∨ (scan search g .superMethod path).mode = .superMethod2 := by
  induction path with
  | nil => exact Or.inl rfl
  | cons v path ih =>
    obtain ⟨cls, lists⟩ := v
    rw [scan, scanVisit_super, Scan.empty_andThen]
    split
    · rw [scan_settled .superMethod2]
      exact Or.inr rfl
    · exact ih

lemma scan_overridden_mode (search : SearchArguments P) (g : ClassGraph P) (path : List (Visit P))
    (hs : (scan search g .overriddenMethod path).stopped = false) :
    (scan search g .overriddenMethod path).mode = .overriddenMethod ∨
      (scan search g .overriddenMethod path).mode = .overriddenMethod3 := by
  induction path with
  | nil => exact Or.inl rfl
  | cons v path ih =>
    obtain ⟨cls, lists⟩ := v
    rw [scan, scanVisit_overridden] at hs ⊢
    split at hs
    · rename_i hc
      rw [if_pos hc]
      cases hcat : afterCategory search.categoryid lists with
      | none => simp [hcat, Scan.andThen] at hs
      | some rest =>
        exact Or.inr (by simp [Scan.settled_andThen .overriddenMethod3])
    · rename_i hc
      rw [if_neg hc, Scan.empty_andThen]
      rw [Scan.empty_andThen] at hs
      exact ih hs

lemma classid_ne_of_look {v : Visit P} (hm : st.mode = .specificMethod) (hl : look g search st.mode v = .pass) :
    search.classid ≠ g.classid v.cls := by
  intro hc
  rw [look, if_neg (by rw [hm]; decide), if_pos hc] at hl
  cases hcat : v.lists.find? fun list => search.categoryid = list.categoryid with
  | none =>
    rw [hcat] at hl
    cases hl
  | some list =>
    rw [hcat] at hl
    rcases lookIn_cases search list with h | ⟨m, h⟩ <;> (simp only [h] at hl; cases hl)

/-- A specific search that finds nothing is in its last stage, or has not come upon its class. -/
lemma follow_fail {found : Option Method} {path : List (Station P)} (h : (follow g search found st path).1 = .fail)
    (hm : Staged st.mode) :
    (follow g search found st path).2 = { st with mode := .specificMethod3 } ∨
      (follow g search found st path).2 = st ∧ ∀ s ∈ path, search.classid ≠ g.classid s.visit.cls := by
  induction path generalizing found st with
  | nil => exact Or.inr ⟨rfl, by simp⟩
  | cons s rest ih =>
    rw [follow] at h ⊢
    cases hl : look g search st.mode s.visit with
    | pass =>
      simp only [hl] at h ⊢
      rcases ih h hm with h' | ⟨h', hunmet⟩
      · exact Or.inl h'
      · rcases hm with hm | hm
        · refine Or.inr ⟨h', fun s' hs' => ?_⟩
          rcases List.mem_cons.1 hs' with rfl | hs'
          · exact classid_ne_of_look hm hl
          · exact hunmet s' hs'
        · left
          rw [h', ← hm]
    | lacking =>
      simp only [hl] at h
      cases h
    | miss =>
      simp only [hl] at h ⊢
      left
      split at h
      · rename_i hmixin
        rw [if_pos hmixin]
        rcases ih h (Or.inr rfl) with h' | ⟨h', -⟩ <;> exact h'
      · rename_i hmixin
        rw [if_neg hmixin]
    | hit method =>
      simp only [hl] at h
      split at h
      · cases h
      · split at h
        · rcases follow_some g search method { st with mode := .specificMethod3 } rest with h' | h' <;>
            (rw [h'] at h; cases h)
        · cases h

lemma follow_unmet {found : Option Method} {path : List (Station P)} (hm : st.mode = .specificMethod)
    (hunmet : ∀ s ∈ path, search.classid ≠ g.classid s.visit.cls) :
    follow g search found st path = (.ofFound found, st) := by
  induction path with
  | nil => rfl
  | cons s rest ih =>
    rw [follow, look, if_neg (by rw [hm]; decide), if_neg (hunmet s List.mem_cons_self)]
    exact ih fun s' hs' => hunmet s' (List.mem_cons_of_mem _ hs')

end Stage

/-- **A search that finds nothing is in its last stage**, unless it is a specific one that has not come upon its
class. -/
lemma searchMethodOnce_fail {g : ClassGraph P} {cls : ClassRef P} {inheritance : ℕ} {q : Request}
    (h : (searchMethodOnce q.search g cls inheritance ⟨q.mode, .ENOENT, none, []⟩).1 = .fail) :
    (¬ q.Unmet g cls inheritance →
      (searchMethodOnce q.search g cls inheritance ⟨q.mode, .ENOENT, none, []⟩).2 = ⟨q.stage, .ENOENT, none, []⟩) ∧
    (q.Unmet g cls inheritance →
      (searchMethodOnce q.search g cls inheritance ⟨q.mode, .ENOENT, none, []⟩).2 = ⟨q.mode, .ENOENT, none, []⟩) := by
  obtain ⟨heq, hrelative⟩ := checkAnchor_fail h
  rw [searchMethodOnce, heq] at h
  rw [searchMethodOnce, heq]
  have hplain : Plain q.mode → q.search.callback = none → q.search.stopClassid = 0 →
      Settles none ⟨q.mode, .ENOENT, none, []⟩ (scan q.search g q.mode (linearization g cls inheritance))
        (searchMethodInternal q.search g (g.rank cls + 2) cls inheritance ⟨q.mode, .ENOENT, none, []⟩) :=
    fun hm hcb hstop => searchMethodInternal_settles hcb hstop (Or.inl (Nat.le_refl _)) hm
  have hstage : ∀ mode mode' : InternalMode, mode = mode' →
      (⟨mode, .ENOENT, none, []⟩ : SearchState P) = ⟨mode', .ENOENT, none, []⟩ := fun _ _ h => by rw [h]
  cases q with
  | default methodid =>
    obtain ⟨-, hst⟩ := settles_fail (hplain (.settled .default) rfl rfl) h
    refine ⟨fun _ => hst.trans (hstage _ _ ?_), fun hu => hu.elim⟩
    exact congrArg Scan.mode (scan_settled .default _)
  | super methodid classid =>
    obtain ⟨-, hst⟩ := settles_fail (hplain .superMethod rfl rfl) h
    refine ⟨fun _ => ?_, fun hu => hu.elim⟩
    have hmode := scan_super_mode (.makeSuper methodid classid) g (linearization g cls inheritance)
    rw [hst] at hrelative ⊢
    rcases hmode with hmode | hmode
    · exact absurd (Or.inr (Or.inl hmode)) hrelative
    · exact hstage _ _ hmode
  | overridden methodid classid categoryid =>
    obtain ⟨hs, hst⟩ := settles_fail (hplain .overriddenMethod rfl rfl) h
    refine ⟨fun _ => ?_, fun hu => hu.elim⟩
    have hmode := scan_overridden_mode (.makeOverridden methodid classid categoryid) g
      (linearization g cls inheritance) hs
    rw [hst] at hrelative ⊢
    rcases hmode with hmode | hmode
    · exact absurd (Or.inr (Or.inr hmode)) hrelative
    · exact hstage _ _ hmode
  | previous x =>
    refine ⟨fun _ => ?_, fun hu => hu.elim⟩
    have hr : Alike (searchMethodInternal (Request.previous x).search g (g.rank cls + 2) cls inheritance
        ⟨(Request.previous x).mode, .ENOENT, none, []⟩) _ :=
      searchMethodInternal_settle rfl (Or.inl (Nat.le_refl _)) (Or.inr (Or.inr (Or.inl rfl)))
    have hfail := hr.1.symm.trans h
    have heq := hr.eq (by rw [hfail]; decide)
    rw [heq] at hrelative ⊢
    -- the anchor has been met, so the stage is the second one
    rcases settle_fail _ hfail with hst | hst
    · rw [hst] at hrelative
      exact absurd (Or.inl rfl) hrelative
    · exact hst
  | specific methodid classid categoryid =>
    have hr : Alike (searchMethodInternal (Request.specific methodid classid categoryid).search g (g.rank cls + 2) cls
        inheritance ⟨(Request.specific methodid classid categoryid).mode, .ENOENT, none, []⟩) _ :=
      searchMethodInternal_follow rfl rfl (Or.inl (Nat.le_refl _)) (Or.inl rfl)
    have hfail := hr.1.symm.trans h
    have heq := hr.eq (by rw [hfail]; decide)
    have hvisits : (∀ v ∈ linearization g cls inheritance, classid ≠ g.classid v.cls) ↔
        ∀ s ∈ stations g cls inheritance, classid ≠ g.classid s.visit.cls := by
      rw [← stations_visits]
      simp
    rw [heq, Request.Unmet, hvisits]
    refine ⟨fun hmet => ?_, fun hunmet => ?_⟩
    · rcases follow_fail hfail (Or.inl rfl) with hst | ⟨-, hunmet⟩
      · exact hst
      · exact absurd hunmet hmet
    · rw [follow_unmet rfl hunmet]

/-- **A repeated search returns what a fresh one would, exactly when** the first one has not left its stage, or the
same comes of the methods that count in the stage it ended in and of those that count for the search. -/
theorem retry_iff (g reload : ClassGraph P) (cls : ClassRef P) (inheritance : ℕ) (q : Request)
    (hmissing : (searchMethodOnce q.search g cls inheritance ⟨q.mode, .ENOENT, none, []⟩).1 = .fail) :
    (searchMethod g [reload] cls q.search inheritance).1 = (searchMethod reload [] cls q.search inheritance).1 ↔
      q.Unmet g cls inheritance ∨
        Concur (q.resumes reload cls inheritance) (q.counts reload cls inheritance) := by
  have hmode : (q.search : SearchArguments P).mode.toInternal? = some q.mode := by cases q <;> rfl
  obtain ⟨hmet, hunmet⟩ := searchMethodOnce_fail hmissing
  have hretry : searchMethod g [reload] cls q.search inheritance =
      searchMethodRetry q.search cls inheritance [] reload
        (searchMethodOnce q.search g cls inheritance ⟨q.mode, .ENOENT, none, []⟩).2 := by
    rw [searchMethod, hmode]
    simp only [searchMethodRetry]
    obtain ⟨r, hr⟩ : ∃ r, searchMethodOnce q.search g cls inheritance ⟨q.mode, .ENOENT, none, []⟩ = r := ⟨_, rfl⟩
    rw [hr] at hmissing hmet hunmet ⊢
    obtain ⟨o, st⟩ := r
    obtain rfl : o = .fail := hmissing
    have herror : st.error = .ENOENT := by
      by_cases hu : q.Unmet g cls inheritance
      · exact congrArg SearchState.error (hunmet hu)
      · exact congrArg SearchState.error (hmet hu)
    rw [whenMissing_fail, if_neg (by rw [herror]; decide)]
  rw [hretry, concur_iff]
  by_cases hu : q.Unmet g cls inheritance
  · rw [hunmet hu, searchMethod, hmode]
    exact iff_of_true rfl (Or.inl hu)
  · rw [hmet hu, searchMethodRetry_resumes, searchMethod_counts, Outcome.ofMethod_inj]
    exact ⟨Or.inr, fun h => h.resolve_left hu⟩

/-- A class `2` below a class `1`, with the method `7` in the classes that are given. -/
def reloadGraph (inClass inSuperclass : Bool) : ClassGraph ℕ :=
  ClassGraph.ofList
    [ClassGraph.pairOf 1 none [] false ⟨0, [if inSuperclass then .single 0 ⟨101, 7, 0, 1001⟩ else .empty]⟩ ⟨0, [.empty]⟩,
      ClassGraph.pairOf 2 (some 0) [] false ⟨0, [if inClass then .single 0 ⟨102, 7, 0, 1002⟩ else .empty]⟩
        ⟨0, [.empty]⟩]

/-- A super search whose method is added to the superclass. -/
theorem retry_superclass_loaded :
    (searchMethod (reloadGraph false false) [reloadGraph false true] ⟨1, false⟩ (Request.super 7 2).search 0).1 =
      (searchMethod (reloadGraph false true) [] ⟨1, false⟩ (Request.super 7 2).search 0).1 :=
  (retry_iff (reloadGraph false false) (reloadGraph false true) ⟨1, false⟩ 0 (.super 7 2) (by decide)).2
    (Or.inr (concur_iff.2 (by decide)))

/-- The class gets the method as well as its superclass.  The repeated super search returns the method of the class,
a fresh one that of the superclass. -/
theorem retry_of_super_returns_own :
    (searchMethodOnce (Request.super 7 2).search (reloadGraph false false) ⟨1, false⟩ 0
        ⟨.superMethod, .ENOENT, none, []⟩).1 = .fail ∧
      (searchMethod (reloadGraph false false) [reloadGraph true true] ⟨1, false⟩ (Request.super 7 2).search 0).1 =
        .found ⟨102, 7, 0, 1002⟩ ∧
      (searchMethod (reloadGraph true true) [] ⟨1, false⟩ (Request.super 7 2).search 0).1 =
        .found ⟨101, 7, 0, 1001⟩ := by
  decide

end MulleObjcRuntime.Search
