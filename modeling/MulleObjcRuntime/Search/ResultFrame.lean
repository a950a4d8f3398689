import MulleObjcRuntime.Search.Unwritten

/-!
# What a search leaves in its result

The header promises a result that describes the method that is returned, and is unchanged when none is.

* `ResultKept` — the promise;
* `unseen`, `delivers`, `unfound` — over all passes of a search: nothing is come upon; the last method come upon is
  returned; a specific search finds nothing;
* `Proper` — the condition on the arguments and the class objects;
* `resultKept_iff` — the promise is kept under just that condition.
-/

namespace MulleObjcRuntime.Search

open Classes

variable {P : Type}

/-! ## The promise and the condition -/

/-- With a method, the result has it, in a list that contains it, of the class object that has the list; without one
it is as it was. -/
def ResultKept (graphs : List (ClassGraph P)) (r : Outcome × SearchState P) : Prop :=
  match r.1 with
  | .found m => ∃ h, r.2.result = some h ∧ h.method = m ∧
      ∃ g ∈ graphs, h.list ∈ g.methodlists h.cls ∧ m ∈ h.list.methods
  | _ => r.2.result = none

section Condition

variable [DecidableEq P] (search : SearchArguments P) (cls : ClassRef P) (inheritance : ℕ)

/-- No method that counts is come upon, also after what has been loaded since. -/
def unseen : List (ClassGraph P) → ClassGraph P → InternalMode → Prop
  | [], g, mode => silence search g mode (linearization g cls inheritance) ≠ .touched
  | reload :: reloads, g, mode =>
    match silence search g mode (linearization g cls inheritance) with
    | .touched => False
    | .ended => True
    | .passed mode => Met mode → unseen reloads reload mode

/-- The last method that is come upon is returned. -/
def delivers : List (ClassGraph P) → ClassGraph P → InternalMode → List (Report P) → Prop
  | [], g => deliversTo search g (fun _ _ => False) (g.rank cls + 1) cls inheritance
  | reload :: reloads, g =>
    deliversTo search g (fun mode reports => Met mode ∧ delivers reloads reload mode reports) (g.rank cls + 1) cls
      inheritance

/-- The method of a mixin is lost again when it must not shadow what comes behind it. -/
def Lost (g : ClassGraph P) (m : Method) (inMixin : Bool) (rest : List (Station P)) : Prop :=
  search.callback = none ∧ inMixin = true ∧ m.isHiddenOverrideFatal = true ∧
    ∀ mode, seek search g .specificMethod3 rest ≠ .fail mode

/-- A specific search finds no method. -/
def unfound : List (ClassGraph P) → ClassGraph P → InternalMode → Prop
  | [], g, mode =>
    match seek search g mode (stations g cls inheritance) with
    | .hit m inMixin rest => Lost search g m inMixin rest
    | _ => True
  | reload :: reloads, g, mode =>
    match seek search g mode (stations g cls inheritance) with
    | .hit m inMixin rest => Lost search g m inMixin rest
    | .null => True
    | .fail mode => unfound reloads reload mode

/-- The condition under which the promise is kept. -/
def Proper (g : ClassGraph P) (reloads : List (ClassGraph P)) : Prop :=
  match search.mode.toInternal? with
  | none => True
  | some mode =>
    if mode = .specificMethod then unfound search cls inheritance reloads g mode
    else unseen search cls inheritance reloads g mode ∨ delivers search cls inheritance reloads g mode []

end Condition

/-! ## The passes -/

section Passes

variable [DecidableEq P] {search : SearchArguments P} {g : ClassGraph P} {cls : ClassRef P} {inheritance : ℕ}
  {reloads : List (ClassGraph P)} {st : SearchState P} {r : Outcome × SearchState P}

omit [DecidableEq P] in
/-- What the entry point makes of a pass: a method is returned, the search is repeated, or it ends without one. -/
lemma whenMissing_cases (herror : r.1 = .fail → r.2.error ≠ .EEXIST) (retry : SearchState P → Outcome × SearchState P) :
    (∃ m, r.1 = .found m ∧ Met r.2.mode ∧ whenMissing (checkAnchor r) retry = r) ∨
      (r.1 = .fail ∧ Met r.2.mode ∧ whenMissing (checkAnchor r) retry = retry r.2) ∨
      ((∀ m, r.1 = .found m → ¬ Met r.2.mode) ∧ (r.1 = .fail → ¬ Met r.2.mode) ∧
        (∀ m, (whenMissing (checkAnchor r) retry).1 ≠ .found m) ∧
        (whenMissing (checkAnchor r) retry).2.result = r.2.result) := by
  obtain ⟨o, st⟩ := r
  by_cases hmet : Met st.mode
  · rw [checkAnchor, if_neg hmet]
    cases o with
    | found m => exact Or.inl ⟨m, rfl, hmet, rfl⟩
    | fail =>
      rw [whenMissing_fail, if_neg (herror rfl)]
      exact Or.inr (Or.inl ⟨rfl, hmet, rfl⟩)
    | null => exact Or.inr (Or.inr ⟨by simp, by simp, by simp, rfl⟩)
    | inconsistency => exact Or.inr (Or.inr ⟨by simp, by simp, by simp [whenMissing], rfl⟩)
    | outOfFuel => exact Or.inr (Or.inr ⟨by simp, by simp, by simp [whenMissing], rfl⟩)
  · have hmode : st.mode = .previousMethod ∨ st.mode = .superMethod ∨ st.mode = .overriddenMethod := not_not.1 hmet
    rw [checkAnchor, if_pos hmode]
    exact Or.inr (Or.inr ⟨fun _ _ => hmet, fun _ => hmet, by simp, rfl⟩)

omit [DecidableEq P] in
/-- A search that goes on is in one of its stages, and without an error. -/
lemma Silent.fail {path : List (Visit P)} (hr : Silent search g none st path r) (hm : Underway st.mode)
    (hfail : r.1 = .fail) : Underway r.2.mode ∧ r.2.error = st.error := by
  unfold Silent at hr
  cases hs : silence search g st.mode path with
  | passed mode =>
    rw [hs] at hr
    simp only at hr
    rw [hr]
    exact ⟨silence_underway hm hs, rfl⟩
  | ended =>
    rw [hs] at hr
    rw [hr.1] at hfail
    cases hfail
  | touched =>
    rw [hs] at hr
    simp only at hr
    cases hr with
    | null => cases hfail
    | fail _ _ _ _ hm' herror => exact ⟨hm', herror⟩
    | found => cases hfail

lemma pass_silent (search : SearchArguments P) (g : ClassGraph P) (cls : ClassRef P) (inheritance : ℕ)
    (hm : Underway st.mode) :
    Silent search g none st (linearization g cls inheritance)
      (searchMethodInternal search g (g.rank cls + 2) cls inheritance st) :=
  searchMethodInternal_silent (Or.inl (Nat.le_refl _)) hm

/-- **A method is returned that a pass has come upon**, and the result describes what this pass has come upon last. -/
lemma searchMethodRetry_sighted (hm : Underway st.mode) (herror : st.error ≠ .EEXIST) {m : Method}
    (hfound : (searchMethodRetry search cls inheritance reloads g st).1 = .found m) :
    ∃ g' ∈ g :: reloads, ∃ h, Sighted (linearization g' cls inheritance) h ∧
      (searchMethodRetry search cls inheritance reloads g st).2.result = some h := by
  have hpass : ∀ {g : ClassGraph P} {st : SearchState P} {r}, Silent search g none st (linearization g cls inheritance) r →
      r.1 = .found m → ∃ h, Sighted (linearization g cls inheritance) h ∧ r.2.result = some h := by
    intro g st r hr hfound
    unfold Silent at hr
    cases hs : silence search g st.mode (linearization g cls inheritance) with
    | passed mode =>
      rw [hs] at hr
      simp only at hr
      rw [hr] at hfound
      cases hfound
    | ended =>
      rw [hs] at hr
      rw [hr.1] at hfound
      cases hfound
    | touched =>
      rw [hs] at hr
      simp only at hr
      cases hr with
      | null => cases hfound
      | fail => cases hfound
      | found _ _ hsighted hresult => exact ⟨_, hsighted, hresult⟩
  induction reloads generalizing g st with
  | nil =>
    have hr := pass_silent search g cls inheritance hm
    rw [searchMethodRetry, searchMethodOnce] at hfound ⊢
    rcases whenMissing_cases (fun hfail => (hr.fail hm hfail).2 ▸ herror) fun st => (.null, st) with
      ⟨m', -, -, heq⟩ | ⟨-, -, heq⟩ | ⟨-, -, hnone, -⟩
    · rw [heq] at hfound ⊢
      exact ⟨g, List.mem_cons_self, hpass hr hfound⟩
    · rw [heq] at hfound
      cases hfound
    · exact absurd hfound (hnone m)
  | cons reload reloads ih =>
    have hr := pass_silent search g cls inheritance hm
    rw [searchMethodRetry, searchMethodOnce] at hfound ⊢
    rcases whenMissing_cases (fun hfail => (hr.fail hm hfail).2 ▸ herror)
      (searchMethodRetry search cls inheritance reloads reload) with ⟨m', -, -, heq⟩ | ⟨hfail, -, heq⟩ | ⟨-, -, hnone, -⟩
    · rw [heq] at hfound ⊢
      exact ⟨g, List.mem_cons_self, hpass hr hfound⟩
    · rw [heq] at hfound ⊢
      obtain ⟨hm', herror'⟩ := hr.fail hm hfail
      obtain ⟨g', hg', hsighted⟩ := ih hm' (herror' ▸ herror) hfound
      exact ⟨g', List.mem_cons_of_mem _ hg', hsighted⟩
    · exact absurd hfound (hnone m)

omit [DecidableEq P] in
lemma Touched.written {path : List (Visit P)} (h : Touched search none path st r) : r.2.result ≠ none := by
  cases h with
  | null hresult =>
    rcases hresult with ⟨h, -, hresult⟩ | ⟨hne, -⟩
    · simp [hresult]
    · exact absurd rfl hne
  | fail _ _ _ hresult => simp [hresult]
  | found _ _ _ hresult => simp [hresult]

/-- What has been written stays written. -/
lemma searchMethodRetry_written (hm : Underway st.mode) (herror : st.error ≠ .EEXIST) (hwritten : st.result ≠ none) :
    (searchMethodRetry search cls inheritance reloads g st).2.result ≠ none := by
  have hpass : ∀ {g : ClassGraph P} {st : SearchState P} {r}, Silent search g none st (linearization g cls inheritance) r →
      st.result ≠ none → r.2.result ≠ none := by
    intro g st r hr hwritten
    unfold Silent at hr
    cases hs : silence search g st.mode (linearization g cls inheritance) with
    | passed mode =>
      rw [hs] at hr
      simp only at hr
      rw [hr]
      exact hwritten
    | ended =>
      rw [hs] at hr
      rw [hr.2]
      exact hwritten
    | touched =>
      rw [hs] at hr
      exact Touched.written hr
  induction reloads generalizing g st with
  | nil =>
    have hr := pass_silent search g cls inheritance hm
    rw [searchMethodRetry, searchMethodOnce]
    have hwritten := hpass hr hwritten
    rcases whenMissing_cases (fun hfail => (hr.fail hm hfail).2 ▸ herror) fun st => (.null, st) with
      ⟨m', -, -, heq⟩ | ⟨-, -, heq⟩ | ⟨-, -, -, heq⟩
    all_goals
      rw [heq]
      exact hwritten
  | cons reload reloads ih =>
    have hr := pass_silent search g cls inheritance hm
    rw [searchMethodRetry, searchMethodOnce]
    rcases whenMissing_cases (fun hfail => (hr.fail hm hfail).2 ▸ herror)
      (searchMethodRetry search cls inheritance reloads reload) with ⟨m', -, -, heq⟩ | ⟨hfail, -, heq⟩ | ⟨-, -, -, heq⟩
    · rw [heq]
      exact hpass hr hwritten
    · obtain ⟨hm', herror'⟩ := hr.fail hm hfail
      rw [heq]
      exact ih hm' (herror' ▸ herror) (hpass hr hwritten)
    · rw [heq]
      exact hpass hr hwritten

/-- **Nothing is written exactly when nothing is come upon.** -/
lemma searchMethodRetry_unseen (hm : Underway st.mode) (herror : st.error ≠ .EEXIST) (hnew : st.result = none) :
    (searchMethodRetry search cls inheritance reloads g st).2.result = none ↔
      unseen search cls inheritance reloads g st.mode := by
  induction reloads generalizing g st with
  | nil =>
    have hr := pass_silent search g cls inheritance hm
    have hcases := whenMissing_cases (fun hfail => (hr.fail hm hfail).2 ▸ herror) fun st => (.null, st)
    have hresult : (searchMethodRetry search cls inheritance [] g st).2.result =
        (searchMethodInternal search g (g.rank cls + 2) cls inheritance st).2.result := by
      rw [searchMethodRetry, searchMethodOnce]
      rcases hcases with ⟨m', -, -, heq⟩ | ⟨-, -, heq⟩ | ⟨-, -, -, heq⟩
      · rw [heq]
      · rw [heq]
      · exact heq
    rw [hresult, unseen]
    unfold Silent at hr
    cases hs : silence search g st.mode (linearization g cls inheritance) with
    | passed mode =>
      rw [hs] at hr
      simp only at hr
      rw [hr]
      simp [hnew]
    | ended =>
      rw [hs] at hr
      rw [hr.2]
      simp [hnew]
    | touched =>
      rw [hs] at hr
      simp only at hr
      simp only [ne_eq, not_true_eq_false, iff_false]
      exact hr.written
  | cons reload reloads ih =>
    have hr := pass_silent search g cls inheritance hm
    have hfail := fun hfail => hr.fail hm hfail
    have hcases := whenMissing_cases (fun hfail => (hr.fail hm hfail).2 ▸ herror)
      (searchMethodRetry search cls inheritance reloads reload)
    rw [unseen, searchMethodRetry, searchMethodOnce]
    unfold Silent at hr
    cases hs : silence search g st.mode (linearization g cls inheritance) with
    | passed mode =>
      rw [hs] at hr
      simp only at hr ⊢
      have hmode := silence_underway hm hs
      rw [hr] at hcases ⊢
      rcases hcases with ⟨m, hfound, -⟩ | ⟨-, hmet, heq⟩ | ⟨-, hmet, -, heq⟩
      · cases hfound
      · have hrest : (searchMethodRetry search cls inheritance reloads reload { st with mode := mode }).2.result = none ↔
            unseen search cls inheritance reloads reload mode := ih hmode herror hnew
        rw [heq]
        exact ⟨fun h _ => hrest.1 h, fun h => hrest.2 (h hmet)⟩
      · rw [heq]
        exact ⟨fun _ h => absurd h (hmet rfl), fun _ => hnew⟩
    | ended =>
      rw [hs] at hr
      simp only [iff_true]
      rcases hcases with ⟨m, hfound, -⟩ | ⟨hfound, -⟩ | ⟨-, -, -, heq⟩
      · rw [hr.1] at hfound
        cases hfound
      · rw [hr.1] at hfound
        cases hfound
      · rw [heq, hr.2, hnew]
    | touched =>
      rw [hs] at hr
      simp only [iff_false] at hr ⊢
      rcases hcases with ⟨m, -, -, heq⟩ | ⟨hfound, -, heq⟩ | ⟨-, -, -, heq⟩
      · rw [heq]
        exact hr.written
      · obtain ⟨hm', herror'⟩ := hfail hfound
        rw [heq]
        exact searchMethodRetry_written hm' (herror' ▸ herror) hr.written
      · rw [heq]
        exact hr.written

/-- A method is returned, and the result describes it. -/
def Described (r : Outcome × SearchState P) : Prop := ∃ m h, r.1 = .found m ∧ r.2.result = some h ∧ h.method = m

omit [DecidableEq P] in
/-- What a pass delivers is described, and so is what the repeated search describes. -/
lemma described_whenMissing {K : InternalMode → List (Report P) → Prop} {condition : Prop}
    (hK : ∀ mode reports, K mode reports → Met mode) (herror : r.1 = .fail → r.2.error ≠ .EEXIST)
    {retry : SearchState P → Outcome × SearchState P}
    (hretry : r.1 = .fail → Met r.2.mode → Decides condition (Described (retry r.2)) (K r.2.mode r.2.reports)) :
    Decides condition (Described (whenMissing (checkAnchor r) retry)) (Delivered K r) := by
  rcases whenMissing_cases herror retry with ⟨m, hfound, hmet, heq⟩ | ⟨hfail, hmet, heq⟩ | ⟨hfound, hfail, hnone, -⟩
  · rw [heq, Delivered, hfound]
    constructor
    · rintro ⟨-, h, hresult, hmethod⟩
      exact ⟨m, h, hfound, hresult, hmethod⟩
    · rintro - ⟨m', h, hfound', hresult, hmethod⟩
      obtain rfl : m = m' := by simpa [hfound] using hfound'
      exact ⟨hmet, h, hresult, hmethod⟩
  · rw [heq, Delivered, hfail]
    exact hretry hfail hmet
  · have hnot : ¬ Described (whenMissing (checkAnchor r) retry) := fun ⟨m, _, hfound, _⟩ => hnone m hfound
    refine ⟨fun hdelivered => ?_, fun _ h => absurd h hnot⟩
    obtain ⟨o, st⟩ := r
    cases o with
    | found m => exact absurd hdelivered.1 (hfound m rfl)
    | fail => exact absurd (hK _ _ hdelivered) (hfail rfl)
    | null => exact hdelivered.elim
    | inconsistency => exact hdelivered.elim
    | outOfFuel => exact hdelivered.elim

/-- **A method is described by the result exactly when it is the last one come upon.** -/
lemma searchMethodRetry_delivers (hm : Underway st.mode) (herror : st.error ≠ .EEXIST) :
    Decides (∀ g' ∈ g :: reloads, Apart search (linearization g' cls inheritance))
      (Described (searchMethodRetry search cls inheritance reloads g st))
      (delivers search cls inheritance reloads g st.mode st.reports) := by
  induction reloads generalizing g st with
  | nil =>
    have hr := pass_silent search g cls inheritance hm
    refine Decides.trans ?_ (searchMethodInternal_delivers (Nat.le_refl _) (Nat.lt_succ_self _)
      (fun h => h g List.mem_cons_self) hm)
    refine described_whenMissing (fun _ _ h => h.elim) (fun hfail => (hr.fail hm hfail).2 ▸ herror) fun _ _ => ?_
    exact .never fun ⟨m, _, hfound, _⟩ => by cases hfound
  | cons reload reloads ih =>
    have hr := pass_silent search g cls inheritance hm
    refine Decides.trans ?_ (searchMethodInternal_delivers (Nat.le_refl _) (Nat.lt_succ_self _)
      (fun h => h g List.mem_cons_self) hm)
    refine described_whenMissing (fun _ _ h => h.1) (fun hfail => (hr.fail hm hfail).2 ▸ herror) fun hfail hmet => ?_
    obtain ⟨hm', herror'⟩ := hr.fail hm hfail
    have hrest := ih (g := reload) hm' (herror' ▸ herror)
    exact ⟨fun h => hrest.enough h.2, fun hc hd => ⟨hmet, hrest.needed (fun g' hg' => hc g' (List.mem_cons_of_mem _ hg')) hd⟩⟩

lemma Staged.met {mode : InternalMode} (h : Staged mode) : Met mode := h.not_relative

omit [DecidableEq P] in
lemma Keeps.fail (h : Keeps st r) (hfail : r.1 = .fail) : Staged r.2.mode ∧ r.2.error = st.error :=
  h.staged (by rw [hfail]; simp)

omit [DecidableEq P] in
lemma Untold.null {path : List (Station P)} (hr : Untold search g none st path r)
    (hs : seek search g st.mode path = .null) : r.1 = .null := by
  have hbrings := hr.brings
  rw [hs] at hbrings
  exact hbrings

omit [DecidableEq P] in
lemma Untold.fail {path : List (Station P)} {mode : InternalMode} (hr : Untold search g none st path r)
    (hs : seek search g st.mode path = .fail mode) :
    r = (.ofFound none, { st with mode := mode }) ∧ Staged mode := by
  have hbrings := hr.brings
  rw [hs] at hbrings
  obtain rfl : r = (.fail, { st with mode := mode }) := hbrings
  exact ⟨rfl, (hr.keeps.fail rfl).1⟩

lemma pass_untold (search : SearchArguments P) (g : ClassGraph P) (cls : ClassRef P) (inheritance : ℕ)
    (hm : Staged st.mode) :
    Untold search g none st (stations g cls inheritance)
      (searchMethodInternal search g (g.rank cls + 2) cls inheritance st) :=
  searchMethodInternal_untold (Or.inl (Nat.le_refl _)) hm

omit [DecidableEq P] in
lemma whenMissing_of_null {retry : SearchState P → Outcome × SearchState P} (h : r.1 = .null) (m : Method) :
    (whenMissing (checkAnchor r) retry).1 ≠ .found m := by
  obtain ⟨o, st⟩ := r
  obtain rfl : o = .null := h
  unfold checkAnchor
  split <;> simp

omit [DecidableEq P] in
/-- The method a specific search comes upon is returned, or lost again. -/
lemma whenMissing_lost {path rest : List (Station P)} {m : Method} {inMixin : Bool}
    {retry : SearchState P → Outcome × SearchState P} (hr : Untold search g none st path r)
    (hs : seek search g st.mode path = .hit m inMixin rest) :
    Decides (search.callback = none) (∀ m, (whenMissing (checkAnchor r) retry).1 ≠ .found m)
      (Lost search g m inMixin rest) := by
  have hreturned : ∀ {mode}, r = (.found m, { st with mode := mode }) →
      (whenMissing (checkAnchor r) retry).1 = .found m := by
    intro mode heq
    have hmet : Met r.2.mode := (hr.keeps.staged (by rw [heq]; simp)).1.met
    rw [heq] at hmet ⊢
    rw [checkAnchor, if_neg hmet]
    rfl
  have hbrings := hr.brings
  rw [hs] at hbrings
  constructor
  · rintro ⟨hcb, rfl, hf, hrest⟩
    have hbrings := hbrings hcb
    simp only [hf, and_self, if_true] at hbrings
    have hnull : r.1 = .null := by
      cases hq : seek search g .specificMethod3 rest with
      | fail mode => exact absurd hq (hrest mode)
      | null => exact hbrings
      | hit m' inMixin' rest' => exact hbrings
    exact whenMissing_of_null hnull
  · intro hcb hnone
    have hbrings := hbrings hcb
    simp only at hbrings
    split at hbrings
    · rename_i hb
      refine ⟨hcb, hb.1, hb.2, fun mode hq => ?_⟩
      rw [hq] at hbrings
      exact hnone m (hreturned hbrings)
    · exact absurd (hreturned hbrings) (hnone m)

omit [DecidableEq P] in
lemma whenMissing_staged {mode : InternalMode} {retry : SearchState P → Outcome × SearchState P} (hm : Staged mode)
    (herror : st.error ≠ .EEXIST) :
    whenMissing (checkAnchor (.ofFound none, { st with mode := mode })) retry = retry { st with mode := mode } := by
  have hmet : ¬ (mode = .previousMethod ∨ mode = .superMethod ∨ mode = .overriddenMethod) := hm.not_relative
  simp only [checkAnchor, hmet, if_false, Outcome.ofFound, whenMissing_fail, herror]

/-- **A specific search leaves its result alone.** -/
lemma searchMethodRetry_keeps (hm : Staged st.mode) (herror : st.error ≠ .EEXIST) :
    (searchMethodRetry search cls inheritance reloads g st).2.result = st.result := by
  induction reloads generalizing g st with
  | nil =>
    have hr := pass_untold search g cls inheritance hm
    rw [searchMethodRetry, searchMethodOnce]
    rcases whenMissing_cases (fun hfail => (hr.keeps.fail hfail).2 ▸ herror) fun st => (.null, st) with
      ⟨m', -, -, heq⟩ | ⟨-, -, heq⟩ | ⟨-, -, -, heq⟩
    · rw [heq, hr.keeps.result]
    · rw [heq, hr.keeps.result]
    · rw [heq, hr.keeps.result]
  | cons reload reloads ih =>
    have hr := pass_untold search g cls inheritance hm
    rw [searchMethodRetry, searchMethodOnce]
    rcases whenMissing_cases (fun hfail => (hr.keeps.fail hfail).2 ▸ herror)
      (searchMethodRetry search cls inheritance reloads reload) with ⟨m', -, -, heq⟩ | ⟨hfail, -, heq⟩ | ⟨-, -, -, heq⟩
    · rw [heq, hr.keeps.result]
    · obtain ⟨hm', herror'⟩ := hr.keeps.fail hfail
      rw [heq, ih hm' (herror' ▸ herror), hr.keeps.result]
    · rw [heq, hr.keeps.result]

/-- A pass comes upon a method, or it ends without one, or it misses, and then the search is tried again. -/
lemma searchMethodOnce_cases (hm : Staged st.mode) (herror : st.error ≠ .EEXIST)
    (retry : SearchState P → Outcome × SearchState P) :
    (∃ m inMixin rest, seek search g st.mode (stations g cls inheritance) = .hit m inMixin rest ∧
        Decides (search.callback = none)
          (∀ m, (whenMissing (searchMethodOnce search g cls inheritance st) retry).1 ≠ .found m)
          (Lost search g m inMixin rest)) ∨
      (seek search g st.mode (stations g cls inheritance) = .null ∧
        ∀ m, (whenMissing (searchMethodOnce search g cls inheritance st) retry).1 ≠ .found m) ∨
      ∃ mode, seek search g st.mode (stations g cls inheritance) = .fail mode ∧ Staged mode ∧
        whenMissing (searchMethodOnce search g cls inheritance st) retry = retry { st with mode := mode } := by
  have hr := pass_untold search g cls inheritance hm
  cases hs : seek search g st.mode (stations g cls inheritance) with
  | hit m inMixin rest => exact Or.inl ⟨m, inMixin, rest, rfl, whenMissing_lost hr hs⟩
  | null => exact Or.inr (Or.inl ⟨rfl, whenMissing_of_null (hr.null hs)⟩)
  | fail mode =>
    obtain ⟨hfail, hmode⟩ := hr.fail hs
    refine Or.inr (Or.inr ⟨mode, rfl, hmode, ?_⟩)
    rw [searchMethodOnce, hfail, whenMissing_staged hmode herror]

/-- **A specific search finds no method** when none is come upon, and without a callback also when the method is lost
again. -/
lemma searchMethodRetry_unfound (hm : Staged st.mode) (herror : st.error ≠ .EEXIST) :
    Decides (search.callback = none) (∀ m, (searchMethodRetry search cls inheritance reloads g st).1 ≠ .found m)
      (unfound search cls inheritance reloads g st.mode) := by
  induction reloads generalizing g st with
  | nil =>
    rw [searchMethodRetry, unfound]
    rcases searchMethodOnce_cases hm herror fun st => (.null, st) with
      ⟨m, inMixin, rest, hs, hlost⟩ | ⟨hs, hnull⟩ | ⟨mode, hs, -, hmissed⟩
    · rw [hs]
      exact hlost
    · rw [hs]
      exact ⟨fun _ => hnull, fun _ _ => trivial⟩
    · rw [hs, hmissed]
      exact ⟨fun _ m => by simp, fun _ _ => trivial⟩
  | cons reload reloads ih =>
    rw [searchMethodRetry, unfound]
    rcases searchMethodOnce_cases hm herror fun st => searchMethodRetry search cls inheritance reloads reload st with
      ⟨m, inMixin, rest, hs, hlost⟩ | ⟨hs, hnull⟩ | ⟨mode, hs, hmode, hmissed⟩
    · rw [hs]
      exact hlost
    · rw [hs]
      exact ⟨fun _ => hnull, fun _ _ => trivial⟩
    · rw [hs, hmissed]
      exact ih hmode herror

end Passes

/-! ## The search -/

section Search

variable [DecidableEq P] (g : ClassGraph P) (reloads : List (ClassGraph P)) (cls : ClassRef P)
  (search : SearchArguments P) (inheritance : ℕ)

variable {g cls inheritance} in
/-- What is looked into are lists of the class object. -/
lemma sighted_methodlists {h : Hit P} (hs : Sighted (linearization g cls inheritance) h) :
    h.list ∈ g.methodlists h.cls ∧ h.method ∈ h.list.methods := by
  obtain ⟨v, hv, hcls, hlist, hmethod⟩ := hs
  have hown : ∀ cls inheritance, visibleLists inheritance (g.methodlists cls) ⊆ g.methodlists cls := by
    intro cls inheritance list hlist
    unfold visibleLists at hlist
    simp only [List.mem_reverse] at hlist
    split at hlist <;> split at hlist
    · exact List.mem_of_mem_take (List.mem_of_mem_drop hlist)
    · exact List.mem_of_mem_drop hlist
    · exact List.mem_of_mem_take hlist
    · exact hlist
  have hvisit : v.lists ⊆ g.methodlists v.cls := by
    refine mem_linearization (motive := fun _ _ v => v.lists ⊆ g.methodlists v.cls) (fun cls i => hown cls i)
      (fun cls i v hv => ?_) (fun _ _ _ _ _ h => h) hv
    unfold mixinVisits at hv
    split at hv
    · cases hv
    · obtain ⟨proto, -, rfl⟩ := List.mem_map.1 hv
      exact hown _ _
  exact ⟨hcls ▸ hvisit hlist, hmethod⟩

/-- What is needed to tell: no callback, or one that comes upon no fatal hidden override twice in a search that is not
a specific one. -/
def Plainly : Prop :=
  search.callback = none ∨ search.mode ≠ .specificMethod ∧ ∀ g' ∈ g :: reloads, Once (linearization g' cls inheritance)

variable {g reloads cls search inheritance}

lemma resultKept_specific {st : SearchState P} (hm : Staged st.mode) (herror : st.error ≠ .EEXIST)
    (hnew : st.result = none) :
    ResultKept (g :: reloads) (searchMethodRetry search cls inheritance reloads g st) ↔
      ∀ m, (searchMethodRetry search cls inheritance reloads g st).1 ≠ .found m := by
  have hresult : (searchMethodRetry search cls inheritance reloads g st).2.result = none :=
    (searchMethodRetry_keeps hm herror).trans hnew
  generalize searchMethodRetry search cls inheritance reloads g st = r at hresult
  obtain ⟨o, st'⟩ := r
  cases o with
  | found m =>
    refine ⟨fun ⟨h, hh, _⟩ => ?_, fun h => absurd rfl (h m)⟩
    have hh : st'.result = some h := hh
    rw [hresult] at hh
    cases hh
  | _ => exact ⟨fun _ m => by simp, fun _ => hresult⟩

/-- Any other search keeps it by writing nothing or by describing what it returns. -/
lemma resultKept_underway {st : SearchState P} (hm : Underway st.mode) (herror : st.error ≠ .EEXIST) :
    ResultKept (g :: reloads) (searchMethodRetry search cls inheritance reloads g st) ↔
      (searchMethodRetry search cls inheritance reloads g st).2.result = none ∨
        Described (searchMethodRetry search cls inheritance reloads g st) := by
  have hsighted : ∀ m, (searchMethodRetry search cls inheritance reloads g st).1 = .found m → _ :=
    fun m => searchMethodRetry_sighted hm herror
  generalize searchMethodRetry search cls inheritance reloads g st = r at hsighted ⊢
  obtain ⟨o, st'⟩ := r
  cases o with
  | found m =>
    obtain ⟨g', hg', h, hs, hresult⟩ := hsighted m rfl
    have hresult : st'.result = some h := hresult
    constructor
    · rintro ⟨h', hh', hmethod, -⟩
      exact Or.inr ⟨m, h', rfl, hh', hmethod⟩
    · rintro (hnone | ⟨m', h', hfound, hh', rfl⟩)
      · rw [hresult] at hnone
        cases hnone
      · have hh' : st'.result = some h' := hh'
        obtain rfl : h = h' := Option.some.inj (hresult.symm.trans hh')
        obtain rfl : m = h.method := by simpa using hfound
        exact ⟨h, hresult, rfl, g', hg', sighted_methodlists hs⟩
  | _ =>
    refine ⟨fun h => Or.inl h, ?_⟩
    rintro (hnone | ⟨m, h, hfound, -⟩)
    · exact hnone
    · cases hfound

lemma toInternal?_cases {mode : SearchMode} {internal : InternalMode} (h : mode.toInternal? = some internal) :
    (mode = .specificMethod ∧ internal = .specificMethod) ∨
      (mode ≠ .specificMethod ∧ internal ≠ .specificMethod ∧ Underway internal) := by
  cases mode <;> cases h
  · exact Or.inr ⟨by decide, by decide, Or.inl (Or.inl .default)⟩
  · exact Or.inr ⟨by decide, by decide, Or.inl (Or.inl .imp)⟩
  · exact Or.inr ⟨by decide, by decide, Or.inr (Or.inl rfl)⟩
  · exact Or.inr ⟨by decide, by decide, Or.inr (Or.inr rfl)⟩
  · exact Or.inl ⟨rfl, rfl⟩
  · exact Or.inr ⟨by decide, by decide, Or.inl (Or.inr rfl)⟩

variable (g reloads cls search inheritance)

/-- **The result is what the header promises exactly when the search is proper.** -/
theorem resultKept_iff :
    (Proper search cls inheritance g reloads → ResultKept (g :: reloads) (searchMethod g reloads cls search inheritance)) ∧
      (Plainly g reloads cls search inheritance →
        ResultKept (g :: reloads) (searchMethod g reloads cls search inheritance) →
          Proper search cls inheritance g reloads) := by
  unfold Proper searchMethod
  cases hmode : search.mode.toInternal? with
  | none => exact ⟨fun _ => rfl, fun _ _ => trivial⟩
  | some mode =>
    simp only
    rcases toInternal?_cases hmode with ⟨hspecific, rfl⟩ | ⟨hspecific, hne, hm⟩
    · have hunfound : Decides (search.callback = none)
          (∀ m, (searchMethodRetry search cls inheritance reloads g ⟨.specificMethod, .ENOENT, none, []⟩).1 ≠ .found m)
          (unfound search cls inheritance reloads g .specificMethod) :=
        searchMethodRetry_unfound (Or.inl rfl) (by simp)
      rw [if_pos rfl, resultKept_specific (Or.inl rfl) (by simp) rfl]
      refine ⟨hunfound.enough, fun hplain => hunfound.needed ?_⟩
      exact hplain.resolve_right fun h => h.1 hspecific
    · have hunseen : (searchMethodRetry search cls inheritance reloads g ⟨mode, .ENOENT, none, []⟩).2.result = none ↔
          unseen search cls inheritance reloads g mode := searchMethodRetry_unseen hm (by simp) rfl
      have hdelivers : Decides (∀ g' ∈ g :: reloads, Apart search (linearization g' cls inheritance))
          (Described (searchMethodRetry search cls inheritance reloads g ⟨mode, .ENOENT, none, []⟩))
          (delivers search cls inheritance reloads g mode []) := searchMethodRetry_delivers hm (by simp)
      rw [if_neg hne, resultKept_underway hm (by simp), hunseen]
      refine ⟨Or.imp_right hdelivers.enough, fun hplain => Or.imp_right (hdelivers.needed ?_)⟩
      rcases hplain with hcb | ⟨-, honce⟩
      · exact fun _ _ => Or.inl hcb
      · exact fun g' hg' => Or.inr (honce g' hg')

end Search

/-- The specific search returns a method and leaves the result alone.  A search that comes upon a second method after
one that must not shadow it returns none and has written the result. -/
theorem result_not_kept :
    ¬ ResultKept [leftoverGraph] (searchMethod leftoverGraph [] ⟨1, false⟩ (.makeSpecific 7 1 42) 0) ∧
      ¬ ResultKept [hiddenOverrideGraph] (searchMethod hiddenOverrideGraph [] ⟨1, false⟩ (.makeDefault 7) 0) := by
  constructor
  · have hfound : (searchMethod leftoverGraph [] ⟨1, false⟩ (.makeSpecific 7 1 42) 0).1 = .found ⟨101, 7, 0, 1001⟩ := by
      decide
    have hresult : (searchMethod leftoverGraph [] ⟨1, false⟩ (.makeSpecific 7 1 42) 0).2.result = none := by decide
    rw [ResultKept, hfound]
    rintro ⟨h, hh, -⟩
    rw [hresult] at hh
    cases hh
  · have hnull : (searchMethod hiddenOverrideGraph [] ⟨1, false⟩ (.makeDefault 7) 0).1 = .null := by decide
    have hresult : (searchMethod hiddenOverrideGraph [] ⟨1, false⟩ (.makeDefault 7) 0).2.result ≠ none := by decide
    rw [ResultKept, hnull]
    exact hresult

end MulleObjcRuntime.Search
