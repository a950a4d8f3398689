import MulleObjcRuntime.Search.Path

/-!
# The recursive search as a scan of the linearization

* `scan search g mode path` — what a search in `mode` gathers along `path`: the mode it ends in, the candidates
  in order, and whether it stops because the anchor's category is missing;
* `Settles` — what a frame returns for a scan, when `found` is pending from before;
* `searchMethodInternal_settles` — the mutually recursive functions return what the scan of the linearization
  says, for the default, imp, super and overridden searches without a callback.
-/

namespace MulleObjcRuntime.Search

open Classes

variable {P : Type}

/-! ## Scanning -/

/-- What a search has gathered. -/
structure Scan (P : Type) where
  mode : InternalMode
  hits : List (Hit P)
  stopped : Bool

/-- The modes without a pending anchor in which a method of the list counts. -/
inductive Settled : InternalMode → Prop
  | default : Settled .default
  | imp : Settled .imp
  | superMethod2 : Settled .superMethod2
  | overriddenMethod3 : Settled .overriddenMethod3
  | previousMethod2 : Settled .previousMethod2

lemma Settled.ne {mode : InternalMode} (h : Settled mode) :
    ¬ (mode = .overriddenMethod2 ∨ mode = .specificMethod2) ∧
      ¬ (mode = .previousMethod ∨ mode = .superMethod ∨ mode = .overriddenMethod) := by
  cases h <;> decide

/-- The modes the scan covers. -/
inductive Plain : InternalMode → Prop
  | settled {mode : InternalMode} (h : Settled mode) : Plain mode
  | superMethod : Plain .superMethod
  | overriddenMethod : Plain .overriddenMethod

lemma Plain.settled_or {mode : InternalMode} (h : Plain mode) :
    Settled mode ∨ mode = .superMethod ∨ mode = .overriddenMethod := by
  cases h with
  | settled h => exact Or.inl h
  | superMethod => exact Or.inr (Or.inl rfl)
  | overriddenMethod => exact Or.inr (Or.inr rfl)

/-- The lists that follow the first one with the category id. -/
def afterCategory (categoryid : ℕ) : List MethodList → Option (List MethodList)
  | [] => none
  | list :: rest => if categoryid = list.categoryid then some rest else afterCategory categoryid rest

section Scan

variable (search : SearchArguments P) (g : ClassGraph P)

/-- The methods that count in some lists of a class object, once the mode is settled.  The overridden search
skips a further list with both ids of its anchor. -/
def counted (mode : InternalMode) (cls : ClassRef P) (lists : List MethodList) : List (Hit P) :=
  lists.filterMap fun list =>
    if mode = .overriddenMethod3 ∧ isAnchor g search cls list = true then none
    else (methodlistSearch search mode list).map (Hit.mk cls list)

/-- One visit. -/
def scanVisit (mode : InternalMode) (v : Visit P) : Scan P :=
  match mode with
  | .superMethod => ⟨if search.classid = g.classid v.cls then .superMethod2 else .superMethod, [], false⟩
  | .overriddenMethod =>
    if search.classid = g.classid v.cls then
      match afterCategory search.categoryid v.lists with
      | none => ⟨.overriddenMethod2, [], true⟩
      | some rest => ⟨.overriddenMethod3, counted search g .overriddenMethod3 v.cls rest, false⟩
    else ⟨.overriddenMethod, [], false⟩
  | mode => ⟨mode, counted search g mode v.cls v.lists, false⟩

/-- The scan that goes on with `next` unless `s` has stopped. -/
def Scan.andThen (s : Scan P) (next : InternalMode → Scan P) : Scan P :=
  if s.stopped then s else ⟨(next s.mode).mode, s.hits ++ (next s.mode).hits, (next s.mode).stopped⟩

/-- The visits one after the other. -/
def scan (mode : InternalMode) : List (Visit P) → Scan P
  | [] => ⟨mode, [], false⟩
  | v :: path => (scanVisit search g mode v).andThen fun mode => scan mode path

variable {search g}

lemma Scan.andThen_assoc (s : Scan P) (f h : InternalMode → Scan P) :
    (s.andThen f).andThen h = s.andThen fun mode => (f mode).andThen h := by
  obtain ⟨mode, hits, stopped⟩ := s
  cases stopped with
  | true => rfl
  | false =>
    cases hf : (f mode).stopped <;> simp [Scan.andThen, hf]

lemma Scan.empty_andThen (mode : InternalMode) (f : InternalMode → Scan P) :
    (⟨mode, [], false⟩ : Scan P).andThen f = f mode := by simp [Scan.andThen]

lemma scan_append (mode : InternalMode) (p q : List (Visit P)) :
    scan search g mode (p ++ q) = (scan search g mode p).andThen fun mode => scan search g mode q := by
  induction p generalizing mode with
  | nil => simp [scan, Scan.andThen]
  | cons v p ih =>
    simp only [List.cons_append, scan, ih]
    rw [Scan.andThen_assoc]

lemma scanVisit_super (cls : ClassRef P) (lists : List MethodList) :
    scanVisit search g .superMethod ⟨cls, lists⟩ =
      ⟨if search.classid = g.classid cls then .superMethod2 else .superMethod, [], false⟩ := rfl

lemma scanVisit_overridden (cls : ClassRef P) (lists : List MethodList) :
    scanVisit search g .overriddenMethod ⟨cls, lists⟩ =
      if search.classid = g.classid cls then
        match afterCategory search.categoryid lists with
        | none => ⟨.overriddenMethod2, [], true⟩
        | some rest => ⟨.overriddenMethod3, counted search g .overriddenMethod3 cls rest, false⟩
      else ⟨.overriddenMethod, [], false⟩ := rfl

lemma scanVisit_settled {mode : InternalMode} (h : Settled mode) (v : Visit P) :
    scanVisit search g mode v = ⟨mode, counted search g mode v.cls v.lists, false⟩ := by
  cases h <;> rfl

lemma scan_settled {mode : InternalMode} (h : Settled mode) (path : List (Visit P)) :
    scan search g mode path = ⟨mode, path.flatMap fun v => counted search g mode v.cls v.lists, false⟩ := by
  induction path with
  | nil => rfl
  | cons v path ih => simp [scan, scanVisit_settled h, Scan.andThen, ih]

lemma Scan.settled_andThen {mode : InternalMode} (h : Settled mode) (H : List (Hit P)) (path : List (Visit P)) :
    (⟨mode, H, false⟩ : Scan P).andThen (fun mode => scan search g mode path) =
      ⟨mode, H ++ (scan search g mode path).hits, false⟩ := by
  simp [Scan.andThen, scan_settled h]

/-- Candidates are gathered in a settled mode only. -/
lemma scanVisit_cases (search : SearchArguments P) (g : ClassGraph P) {mode : InternalMode} (h : Plain mode) (v : Visit P) :
    ((scanVisit search g mode v).stopped = false ∧ Settled (scanVisit search g mode v).mode) ∨
    (scanVisit search g mode v).hits = [] ∧
      ((scanVisit search g mode v).stopped = true ∨ Plain (scanVisit search g mode v).mode) := by
  cases h with
  | settled h =>
    rw [scanVisit_settled h]
    exact Or.inl ⟨rfl, h⟩
  | superMethod =>
    refine Or.inr ⟨rfl, Or.inr ?_⟩
    unfold scanVisit
    simp only
    split
    · exact .settled .superMethod2
    · exact .superMethod
  | overriddenMethod =>
    unfold scanVisit
    simp only
    split
    · split
      · exact Or.inr ⟨rfl, Or.inl rfl⟩
      · exact Or.inl ⟨rfl, .overriddenMethod3⟩
    · exact Or.inr ⟨rfl, Or.inr .overriddenMethod⟩

lemma scan_cases (search : SearchArguments P) (g : ClassGraph P) {mode : InternalMode} (h : Plain mode) (path : List (Visit P)) :
    ((scan search g mode path).stopped = false ∧ Settled (scan search g mode path).mode) ∨
    (scan search g mode path).hits = [] ∧
      ((scan search g mode path).stopped = true ∨ Plain (scan search g mode path).mode) := by
  induction path generalizing mode with
  | nil => exact Or.inr ⟨rfl, Or.inr h⟩
  | cons v path ih =>
    simp only [scan, Scan.andThen]
    rcases scanVisit_cases search g h v with ⟨hs, hm⟩ | ⟨hh, hs | hm⟩
    · rw [hs, scan_settled hm]
      exact Or.inl ⟨rfl, hm⟩
    · rw [if_pos hs]
      exact Or.inr ⟨hh, Or.inl hs⟩
    · split
      · exact Or.inr ⟨hh, Or.inr hm⟩
      · simpa [hh] using ih hm

end Scan

/-! ## What a frame returns -/

/-- What a frame returns for the scan of what lies ahead, when the method `found` is pending: a fatal hidden
override that nothing has shadowed so far. -/
def Settles (found : Option Method) (st : SearchState P) (s : Scan P) (r : Outcome × SearchState P) : Prop :=
  match found, s.hits with
  | none, [] =>
    if s.stopped then r = (.null, { st with mode := s.mode, error := .EINVAL })
    else r = (.fail, { st with mode := s.mode })
  | some m, [] => r = (.found m, { st with mode := s.mode })
  | none, h :: rest =>
    if h.method.isHiddenOverrideFatal = true ∧ rest ≠ [] then
      r.1 = .null ∧ r.2.mode = s.mode ∧ r.2.error = .EEXIST
    else r = (.found h.method, { st with mode := s.mode, result := some h })
  | some _, _ :: _ => r.1 = .null ∧ r.2.mode = s.mode ∧ r.2.error = .EEXIST

/-- A frame may run: its mode is covered, and a method is pending in a settled mode only. -/
def Ready (found : Option Method) (mode : InternalMode) : Prop :=
  Plain mode ∧ (found.isSome = true → Settled mode)

lemma ready_none {mode : InternalMode} (h : Plain mode) : Ready none mode := ⟨h, by simp⟩

lemma Settled.ready {mode : InternalMode} (h : Settled mode) (found : Option Method) : Ready found mode :=
  ⟨.settled h, fun _ => h⟩

section Settles

variable {search : SearchArguments P} {g : ClassGraph P} {found : Option Method} {st : SearchState P}

lemma settles_pending {mode : InternalMode} {h : Hit P} {rest : List (Hit P)} {r : Outcome × SearchState P}
    (hf : h.method.isHiddenOverrideFatal = true)
    (hr : Settles (some h.method) { st with mode := mode, result := some h } ⟨mode, rest, false⟩ r) :
    Settles none st ⟨mode, h :: rest, false⟩ r := by
  cases rest with
  | nil => simpa [Settles] using hr
  | cons h2 rest => simpa [Settles, hf] using hr

lemma settles_found (st : SearchState P) (mode : InternalMode) {h : Hit P} (rest : List (Hit P))
    (hf : h.method.isHiddenOverrideFatal = false) :
    Settles none st ⟨mode, h :: rest, false⟩ (.found h.method, { st with mode := mode, result := some h }) := by
  simp [Settles, hf]

lemma mergeMethod_none (r : Outcome × SearchState P) :
    mergeMethod none r (fun found st => (.ofFound found, st)) = r := by
  obtain ⟨o, st⟩ := r
  cases o with
  | found m => simp [mergeMethod, Outcome.ofFound]
  | _ => rfl

/-- Merging in a settled mode. -/
lemma mergeMethod_settled {mode : InternalMode} {H Q : List (Hit P)} {r : Outcome × SearchState P}
    {k : Option Method → SearchState P → Outcome × SearchState P} (hr : Settles none st ⟨mode, H, false⟩ r)
    (hk : ∀ found st, st.mode = mode → Settles found st ⟨mode, Q, false⟩ (k found st)) :
    Settles found st ⟨mode, H ++ Q, false⟩ (mergeMethod found r k) := by
  cases H with
  | nil =>
    have : r = (.fail, { st with mode := mode }) := by simpa [Settles] using hr
    subst this
    have := hk found { st with mode := mode } rfl
    cases found <;> cases Q <;> simpa [Settles, mergeMethod] using this
  | cons h rest =>
    by_cases hf : h.method.isHiddenOverrideFatal = true
    · by_cases hrest : rest = []
      · -- one fatal candidate so far: it becomes pending
        subst hrest
        have : r = (.found h.method, { st with mode := mode, result := some h }) := by
          simpa [Settles] using hr
        subst this
        cases found with
        | none =>
          have := hk (some h.method) { st with mode := mode, result := some h } rfl
          simpa [mergeMethod, hf] using settles_pending hf this
        | some m => simp [Settles, mergeMethod]
      · obtain ⟨o, st'⟩ := r
        have : o = .null ∧ st'.mode = mode ∧ st'.error = .EEXIST := by simpa [Settles, hf, hrest] using hr
        obtain ⟨rfl, hm, he⟩ := this
        cases found <;> simp [Settles, mergeMethod, hf, hrest, hm, he]
    · have : r = (.found h.method, { st with mode := mode, result := some h }) := by
        simpa [Settles, hf] using hr
      subst this
      cases found <;> simp [Settles, mergeMethod, hf]

/-- **Merging a continuation** amounts to scanning its visits first. -/
lemma mergeMethod_settles {p q : List (Visit P)} {r : Outcome × SearchState P}
    {k : Option Method → SearchState P → Outcome × SearchState P} (hready : Ready found st.mode)
    (hr : Settles none st (scan search g st.mode p) r)
    (hk : ∀ found st, Ready found st.mode → Settles found st (scan search g st.mode q) (k found st)) :
    Settles found st (scan search g st.mode (p ++ q)) (mergeMethod found r k) := by
  rw [scan_append]
  generalize hs : scan search g st.mode p = s at hr
  obtain ⟨mode, H, stopped⟩ := s
  have hsettled : Settled mode → stopped = false →
      Settles found st ((⟨mode, H, stopped⟩ : Scan P).andThen fun mode => scan search g mode q)
        (mergeMethod found r k) := by
    rintro hm rfl
    simp only [Scan.andThen, scan_settled hm q]
    refine mergeMethod_settled hr fun found' st' hst => ?_
    have := hk found' st' (hst ▸ hm.ready found')
    rwa [hst, scan_settled hm q] at this
  have hcases := scan_cases search g hready.1 p
  rw [hs] at hcases
  rcases hcases with ⟨h1, h2⟩ | ⟨hH, h⟩
  · exact hsettled h2 h1
  · cases found with
    | some m =>
      have hm := hready.2 rfl
      rw [scan_settled hm p] at hs
      cases hs
      exact hsettled hm rfl
    | none =>
      simp only at hH
      subst hH
      cases stopped with
      | true =>
        have : r = (.null, { st with mode := mode, error := .EINVAL }) := by simpa [Settles] using hr
        subst this
        simp [Scan.andThen, Settles, mergeMethod]
      | false =>
        have : r = (.fail, { st with mode := mode }) := by simpa [Settles] using hr
        subst this
        have := hk none { st with mode := mode } (ready_none (by simpa using h))
        simp only [Scan.andThen, Bool.false_eq_true, if_false, List.nil_append, mergeMethod]
        revert this
        unfold Settles
        simp only
        cases (scan search g mode q).hits <;> exact id

end Settles

/-! ## The method lists of one class object -/

/-- A frame after the loop over the method lists. -/
def ListStep.andThen (step : ListStep P) (k : Option Method → ℕ → SearchState P → Outcome × SearchState P) :
    Outcome × SearchState P :=
  match step with
  | .next found inheritance st => k found inheritance st
  | .ret o st => (o, st)

section Lists

variable {search : SearchArguments P} {g : ClassGraph P} {cls : ClassRef P} {found : Option Method}
  {inheritance : ℕ} {st : SearchState P}

lemma countMethod_eq (hcb : search.callback = none) (list : MethodList) (method : Method) :
    countMethod search cls found inheritance list method st =
      if found.isSome then .ret .null { st with error := .EEXIST }
      else keepMethod inheritance method { st with result := some ⟨cls, list, method⟩ } := by
  simp [countMethod, hcb]

lemma searchMethodlist_settled (hm : Settled st.mode) (list : MethodList) :
    searchMethodlist g search cls found inheritance list st =
      if st.mode = .overriddenMethod3 ∧ isAnchor g search cls list = true then .next found inheritance st
      else
        match methodlistSearch search st.mode list with
        | none => .next found inheritance st
        | some method => countMethod search cls found inheritance list method st := by
  obtain ⟨mode, error, result, reports⟩ := st
  simp only at hm
  simp only [searchMethodlist, lookInMethodlist]
  cases hm with
  | default => cases methodlistSearch search .default list <;> simp
  | imp => cases methodlistSearch search .imp list <;> simp
  | superMethod2 => cases methodlistSearch search .superMethod2 list <;> simp
  | overriddenMethod3 => cases methodlistSearch search .overriddenMethod3 list <;> simp
  | previousMethod2 => cases methodlistSearch search .previousMethod2 list <;> simp

lemma searchMethodlists_cons (list : MethodList) (rest : List MethodList) (i : ℕ) :
    searchMethodlists g search cls 0 (list :: rest) i found inheritance st =
      match searchMethodlist g search cls found inheritance list st with
      | .next found inheritance st => searchMethodlists g search cls 0 rest (i + 1) found inheritance st
      | .ret o st => .ret o st := by
  have hlast : ¬ (has inheritance dontInheritClass ∧ i + 1 = 0) := fun h => Nat.succ_ne_zero i h.2
  refine Eq.trans (searchMethodlists.eq_2 ..) ((if_neg hlast).trans ?_)
  cases searchMethodlist g search cls found inheritance list st <;> rfl

/-- **The loop in a settled mode** scans the lists first and goes on with what is pending. -/
lemma searchMethodlists_settles (search : SearchArguments P) (g : ClassGraph P) (cls : ClassRef P)
    (inheritance : ℕ) (hcb : search.callback = none) {mode : InternalMode} (hm : Settled mode)
    {Q : List (Hit P)} {k : Option Method → ℕ → SearchState P → Outcome × SearchState P}
    (hk : ∀ found st, st.mode = mode → Settles found st ⟨mode, Q, false⟩ (k found inheritance st))
    (lists : List MethodList) (i : ℕ) (found : Option Method) (st : SearchState P) (hst : st.mode = mode) :
    Settles found st ⟨mode, counted search g mode cls lists ++ Q, false⟩
      ((searchMethodlists g search cls 0 lists i found inheritance st).andThen k) := by
  induction lists generalizing i found st with
  | nil => exact hk found st hst
  | cons list rest ih =>
    rw [searchMethodlists_cons, searchMethodlist_settled (hst ▸ hm), hst]
    by_cases hanchor : mode = .overriddenMethod3 ∧ isAnchor g search cls list = true
    · have : counted search g mode cls (list :: rest) = counted search g mode cls rest := by
        simp [counted, hanchor]
      rw [if_pos hanchor, this]
      exact ih (i + 1) found st hst
    · rw [if_neg hanchor]
      cases hs : methodlistSearch search mode list with
      | none =>
        have : counted search g mode cls (list :: rest) = counted search g mode cls rest := by
          simp [counted, hanchor, hs]
        rw [this]
        exact ih (i + 1) found st hst
      | some method =>
        have : counted search g mode cls (list :: rest) =
            ⟨cls, list, method⟩ :: counted search g mode cls rest := by
          simp [counted, hanchor, hs]
        rw [this, List.cons_append]
        simp only
        rw [countMethod_eq hcb]
        cases found with
        | some m => simp [ListStep.andThen, Settles, hst]
        | none =>
          simp only [Option.isSome_none, Bool.false_eq_true, if_false, keepMethod]
          by_cases hf : method.isHiddenOverrideFatal = true
          · rw [if_pos hf]
            refine settles_pending hf ?_
            have := ih (i + 1) (some method) { st with result := some ⟨cls, list, method⟩ } hst
            simpa [← hst] using this
          · rw [if_neg hf]
            have hnf : (⟨cls, list, method⟩ : Hit P).method.isHiddenOverrideFatal = false := by simpa using hf
            have := settles_found st mode (counted search g mode cls rest ++ Q) hnf
            simpa [ListStep.andThen, ← hst] using this

/-- The loop of an overridden search before its category is met. -/
lemma searchMethodlists_overridden (lists : List MethodList) (i : ℕ) (hst : st.mode = .overriddenMethod2) :
    searchMethodlists g search cls 0 lists i found inheritance st =
      match afterCategory search.categoryid lists with
      | none => .next found inheritance st
      | some rest => searchMethodlists g search cls 0 rest (i + lists.length - rest.length) found inheritance
          { st with mode := .overriddenMethod3 } := by
  induction lists generalizing i with
  | nil => rfl
  | cons list rest ih =>
    rw [searchMethodlists_cons]
    unfold searchMethodlist afterCategory
    simp only [hst]
    by_cases hc : search.categoryid = list.categoryid
    · simp only [hc, if_true, List.length_cons]
      congr 1
      omega
    · simp only [hc, if_false]
      rw [ih (i + 1)]
      cases hr : afterCategory search.categoryid rest with
      | none => rfl
      | some rest' =>
        simp only [List.length_cons]
        congr 1
        omega

end Lists

end MulleObjcRuntime.Search
