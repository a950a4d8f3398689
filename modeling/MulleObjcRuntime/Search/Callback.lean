import Mathlib.Data.List.Basic
import MulleObjcRuntime.Search.Default

/-!
# The callback of a search

A search with a callback is told to go on by `ok` and to stop by `done`.

* `Call`, `calls` — the matches in their order, each with the arguments the callback is to be called with;
* `calls_results` — these are the matches of the linearization;
* `AllOk`, `EndsAt` — what the callback answers;
* `Grows`, `searchMethodInternal_grows` — no call is ever taken back.
-/

namespace MulleObjcRuntime.Search

open Classes

variable {P : Type} [DecidableEq P]

/-! ## The calls that are to be made -/

/-- A call of the callback, and whether it is about a match in a mixin. -/
structure Call (P : Type) where
  report : Report P
  inMixin : Bool

section Calls

variable (g : ClassGraph P) (methodid : ℕ) (cls : ClassRef P)

omit [DecidableEq P] in
/-- The calls for some lists of a class object. -/
def listCalls (cls : ClassRef P) (inheritance : ℕ) (inMixin : Bool) (lists : List MethodList) : List (Call P) :=
  lists.filterMap fun list =>
    (list.search methodid).map fun method => ⟨⟨cls, inheritance, some ⟨cls, list, method⟩⟩, inMixin⟩

omit [DecidableEq P] in
/-- The calls for the class object itself. -/
def ownCalls (inheritance : ℕ) (inMixin : Bool) : List (Call P) :=
  listCalls methodid cls inheritance inMixin (visibleLists inheritance (g.methodlists cls))

/-- The calls for the mixins. -/
def mixinCalls (inheritance : ℕ) : List (Call P) :=
  if has inheritance dontInheritProtocols ∨ (g.pair cls.pair).isMixin then []
  else
    ((g.pair cls.pair).mixins.reverse.filter (· ≠ cls.pair)).flatMap fun proto =>
      ownCalls g methodid (mixinRef cls proto) (mixinFlags inheritance ||| g.inheritance (mixinRef cls proto)) true

/-- The calls of a search, with a bound on the number of superclasses. -/
def callsTo : ℕ → ClassRef P → ℕ → List (Call P)
  | 0, _, _ => []
  | n + 1, cls, inheritance =>
    ownCalls g methodid cls inheritance false ++ (mixinCalls g methodid cls inheritance ++
      match g.superclass cls with
      | none => []
      | some supercls =>
        if has inheritance dontInheritSuperclass then []
        else callsTo n supercls (searchInheritance g cls supercls inheritance))

/-- The calls of a search that starts at `cls`. -/
def calls (inheritance : ℕ) : List (Call P) := callsTo g methodid (g.rank cls + 1) cls inheritance

/-- The calls for the superclass, when the search goes on to it. -/
def superCalls (inheritance : ℕ) : List (Call P) :=
  match g.superclass cls with
  | none => []
  | some supercls =>
    if has inheritance dontInheritSuperclass then []
    else calls g methodid supercls (searchInheritance g cls supercls inheritance)

variable {g methodid}

lemma superCalls_eq_nil {cls : ClassRef P} {inheritance : ℕ}
    (h : g.superclass cls = none ∨ has inheritance dontInheritSuperclass = true) :
    superCalls g methodid cls inheritance = [] := superclass_skipped h

lemma superCalls_eq {cls supercls : ClassRef P} {inheritance : ℕ} (hs : g.superclass cls = some supercls)
    (hi : has inheritance dontInheritSuperclass = false) :
    superCalls g methodid cls inheritance = calls g methodid supercls (searchInheritance g cls supercls inheritance) :=
  superclass_taken hs hi

lemma callsTo_bound {n m : ℕ} {cls : ClassRef P} (hn : g.rank cls < n) (hm : g.rank cls < m) (inheritance : ℕ) :
    callsTo g methodid n cls inheritance = callsTo g methodid m cls inheritance := by
  induction n generalizing m cls inheritance with
  | zero => omega
  | succ n ih =>
    obtain ⟨m, rfl⟩ : ∃ k, m = k + 1 := ⟨m - 1, by omega⟩
    unfold callsTo
    cases hs : g.superclass cls with
    | none => rfl
    | some supercls =>
      have := ClassGraph.rank_superclass hs
      simp only
      rw [ih (m := m) (by omega) (by omega)]

lemma calls_eq (cls : ClassRef P) (inheritance : ℕ) :
    calls g methodid cls inheritance =
      ownCalls g methodid cls inheritance false ++
        (mixinCalls g methodid cls inheritance ++ superCalls g methodid cls inheritance) := by
  rw [calls, callsTo, superCalls]
  cases hs : g.superclass cls with
  | none => rfl
  | some supercls =>
    have := ClassGraph.rank_superclass hs
    simp only
    rw [callsTo_bound (n := g.rank cls) this (Nat.lt_succ_self _)]
    rfl

omit [DecidableEq P] in
lemma listCalls_results (cls : ClassRef P) (inheritance : ℕ) (inMixin : Bool) (lists : List MethodList) :
    (listCalls methodid cls inheritance inMixin lists).map (fun c => c.report.result) =
      (Visit.hits methodid ⟨cls, lists⟩).map some := by
  rw [listCalls, Visit.hits, List.map_filterMap, List.map_filterMap]
  refine List.filterMap_congr fun list _ => ?_
  rw [Option.map_map, Option.map_map]
  rfl

/-- **The calls are about the matches of the linearization**, in their order. -/
theorem calls_results (cls : ClassRef P) (inheritance : ℕ) :
    (calls g methodid cls inheritance).map (fun c => c.report.result) =
      (hits methodid (linearization g cls inheritance)).map some := by
  induction cls using ClassGraph.superclass_induction g generalizing inheritance with
  | above cls ih =>
    rw [calls_eq, linearization_visits, List.map_append, List.map_append]
    have hown : (ownCalls g methodid cls inheritance false).map (fun c => c.report.result) =
        (Visit.hits methodid (ownVisit g cls inheritance)).map some := listCalls_results _ _ _ _
    have hmixins : (mixinCalls g methodid cls inheritance).map (fun c => c.report.result) =
        (hits methodid (mixinVisits g cls inheritance)).map some := by
      unfold mixinCalls mixinVisits
      split
      · rfl
      · rw [List.map_flatMap, hits, List.flatMap_map, List.map_flatMap]
        refine List.flatMap_congr fun proto _ => ?_
        rw [ownCalls, listCalls_results, mixinInheritance, ← ownVisit_mixinFlags]
        rfl
    have hsuper : (superCalls g methodid cls inheritance).map (fun c => c.report.result) =
        (hits methodid (superVisits g cls inheritance)).map some := by
      unfold superCalls superVisits
      cases hs : g.superclass cls with
      | none => rfl
      | some supercls =>
        simp only
        split
        · rfl
        · rw [← linearization_searchInheritance hs]
          exact ih supercls hs _
    rw [hown, hmixins, hsuper]
    simp only [hits, List.flatMap_cons, List.flatMap_append, List.map_append]

end Calls

/-! ## What the callback answers -/

section Answers

omit [DecidableEq P]

variable {f : List (Report P) → WalkCommand} {C D pre post : List (Call P)} {c : Call P} {reports : List (Report P)}

/-- The calls made so far, when some more have been made. -/
def told (C : List (Call P)) (reports : List (Report P)) : List (Report P) := (C.map Call.report).reverse ++ reports

/-- Each call is answered by `ok`. -/
def AllOk (f : List (Report P) → WalkCommand) : List (Report P) → List (Call P) → Prop
  | _, [] => True
  | reports, c :: C => f (c.report :: reports) = .ok ∧ AllOk f (c.report :: reports) C

@[simp]
lemma told_nil : told [] reports = reports := rfl

lemma told_cons : told (c :: C) reports = told C (c.report :: reports) := by
  simp [told]

lemma told_append : told (C ++ D) reports = told D (told C reports) := by
  simp [told]

lemma length_told : (told C reports).length = C.length + reports.length := by
  simp [told]

lemma allOk_append : AllOk f reports (C ++ D) ↔ AllOk f reports C ∧ AllOk f (told C reports) D := by
  induction C generalizing reports with
  | nil => simp [AllOk]
  | cons c C ih => rw [List.cons_append, AllOk, AllOk, ih, told_cons, and_assoc]

end Answers

section Ends

omit [DecidableEq P]

variable {f : List (Report P) → WalkCommand} {C D pre : List (Call P)} {c : Call P} {reports : List (Report P)}

/-- The callback ends the search at the call `c`, which comes after the calls `pre`. -/
structure EndsAt (f : List (Report P) → WalkCommand) (reports : List (Report P)) (C pre : List (Call P))
    (c : Call P) : Prop where
  split : ∃ post, C = pre ++ c :: post
  ok : AllOk f reports pre
  done : f (told (pre ++ [c]) reports) = .done

lemma EndsAt.mem (h : EndsAt f reports C pre c) : c ∈ C := by
  obtain ⟨post, hC⟩ := h.split
  simp [hC]

lemma not_endsAt_nil : ¬ EndsAt f reports [] pre c := fun h => by simpa using h.mem

lemma EndsAt.append (h : EndsAt f reports (C ++ D) pre c) :
    EndsAt f reports C pre c ∨
      AllOk f reports C ∧ ∃ pre', pre = C ++ pre' ∧ EndsAt f (told C reports) D pre' c := by
  obtain ⟨⟨post, hsplit⟩, hok, hdone⟩ := h
  rcases List.append_eq_append_iff.1 hsplit with ⟨pre', hpre, hD⟩ | ⟨post', hC, hpost⟩
  · subst hpre
    rw [allOk_append] at hok
    rw [List.append_assoc, told_append] at hdone
    exact Or.inr ⟨hok.1, pre', rfl, ⟨post, hD⟩, hok.2, hdone⟩
  · cases post' with
    | nil =>
      rw [List.append_nil] at hC
      subst hC
      exact Or.inr ⟨hok, [], by simp, ⟨post, by simpa using hpost.symm⟩, trivial, by rwa [told_append] at hdone⟩
    | cons c' post' =>
      obtain ⟨rfl, -⟩ : c = c' ∧ post = post' ++ D := by simpa using hpost
      exact Or.inl ⟨⟨post', hC⟩, hok, hdone⟩

end Ends

/-! ## No call is taken back -/

section Grows

variable {search : SearchArguments P} {g : ClassGraph P} {frame : Frame P} {cls : ClassRef P}
  {found : Option Method} {inheritance : ℕ} {st : SearchState P}

omit [DecidableEq P] in
/-- The calls made so far stay made. -/
def Grows (st st' : SearchState P) : Prop := st.reports.length ≤ st'.reports.length

omit [DecidableEq P] in
lemma Grows.trans {st st' st'' : SearchState P} (h : Grows st st') (h' : Grows st' st'') : Grows st st'' :=
  Nat.le_trans h h'

/-- The state a step of the loop over the method lists leaves. -/
def ListStep.state : ListStep P → SearchState P
  | .next _ _ st => st
  | .ret _ st => st

omit [DecidableEq P] in
lemma keepMethod_grows (method : Method) : Grows st (keepMethod inheritance method st).state := by
  unfold keepMethod
  split <;> exact Nat.le_refl _

omit [DecidableEq P] in
lemma countMethod_grows (list : MethodList) (method : Method) :
    Grows st (countMethod search cls found inheritance list method st).state := by
  unfold countMethod
  split
  · exact Nat.le_refl _
  · cases search.callback with
    | none =>
      have h : Grows { st with result := some ⟨cls, list, method⟩ }
          (keepMethod inheritance method { st with result := some ⟨cls, list, method⟩ }).state := keepMethod_grows method
      exact h
    | some f =>
      simp only
      split
      · exact Nat.le_succ _
      · refine Grows.trans (Nat.le_succ _) (keepMethod_grows method)
      all_goals exact Nat.le_succ _

omit [DecidableEq P] in
lemma searchMethodlist_grows (list : MethodList) :
    Grows st (searchMethodlist g search cls found inheritance list st).state := by
  have hlook : ∀ st : SearchState P,
      Grows st (lookInMethodlist g search cls found inheritance list st).state := by
    intro st
    unfold lookInMethodlist
    repeat' split
    all_goals first
      | exact countMethod_grows list _
      | exact Nat.le_refl _
  unfold searchMethodlist
  repeat' split
  all_goals first
    | exact hlook st
    | exact hlook { st with mode := .specificMethod3 }
    | exact Nat.le_refl _

omit [DecidableEq P] in
lemma searchMethodlists_grows (n : ℕ) (lists : List MethodList) (i : ℕ) :
    Grows st (searchMethodlists g search cls n lists i found inheritance st).state := by
  induction lists generalizing i found inheritance st with
  | nil => exact Nat.le_refl _
  | cons list rest ih =>
    rw [searchMethodlists]
    split
    · exact Nat.le_refl _
    · have h : Grows st (searchMethodlist g search cls found inheritance list st).state := searchMethodlist_grows list
      cases hl : searchMethodlist g search cls found inheritance list st with
      | ret o st' =>
        rw [hl] at h
        exact h
      | next found' inheritance' st' =>
        rw [hl] at h
        exact h.trans (ih (i + 1))

omit [DecidableEq P] in
lemma mergeMethod_grows {r : Outcome × SearchState P}
    {k : Option Method → SearchState P → Outcome × SearchState P}
    (hk : ∀ found st, Grows st (k found st).2) : Grows r.2 (mergeMethod found r k).2 := by
  obtain ⟨o, st⟩ := r
  unfold mergeMethod
  cases o with
  | fail => exact hk found st
  | found method =>
    simp only
    split
    · exact Nat.le_refl _
    · split
      · exact hk _ st
      · exact Nat.le_refl _
  | null => exact Nat.le_refl _
  | inconsistency => exact Nat.le_refl _
  | outOfFuel => exact Nat.le_refl _

/-- How the loop over the mixins goes on with a method of a mixin. -/
def afterMixin (search : SearchArguments P) (cls : ClassRef P) (inheritance : ℕ) (found : Option Method)
    (method : Method) (st : SearchState P) (k : Option Method → SearchState P → Outcome × SearchState P) :
    Outcome × SearchState P :=
  if found.isSome then (.null, { st with error := .EEXIST })
  else
    let keep := fun st : SearchState P =>
      if method.isHiddenOverrideFatal then k (some method) st else (.found method, st)
    match search.callback with
    | none => keep st
    | some f =>
      let st := { st with reports := ⟨cls, inheritance, st.result⟩ :: st.reports }
      match f st.reports with
      | .ok => k found st
      | .done => keep st
      | .dontDescend => k found st
      | .cancel => (.null, { st with error := .ECANCELED })
      | .error errno => (.null, { st with error := .user errno })

lemma searchMixins_fail {proto : P} {rest : List P} {st' : SearchState P} (hp : proto ≠ cls.pair)
    (hr : frame (mixinRef cls proto) (inheritance ||| g.inheritance (mixinRef cls proto)) st = (.fail, st')) :
    searchMixins g search frame cls inheritance (proto :: rest) found st =
      searchMixins g search frame cls inheritance rest found st' := by
  unfold mixinRef at hr
  rw [searchMixins, if_neg hp]
  simp only [hr]

lemma searchMixins_found {proto : P} {rest : List P} {method : Method} {st' : SearchState P}
    (hp : proto ≠ cls.pair)
    (hr : frame (mixinRef cls proto) (inheritance ||| g.inheritance (mixinRef cls proto)) st = (.found method, st')) :
    searchMixins g search frame cls inheritance (proto :: rest) found st =
      afterMixin search cls inheritance found method st' fun found st =>
        searchMixins g search frame cls inheritance rest found st := by
  unfold mixinRef at hr
  rw [searchMixins, if_neg hp]
  simp only [hr]
  rfl

omit [DecidableEq P] in
lemma afterMixin_again {f : List (Report P) → WalkCommand} {method : Method}
    {k : Option Method → SearchState P → Outcome × SearchState P} (hcb : search.callback = some f)
    (hk : ∀ found st, Grows st (k found st).2) :
    st.reports.length < (afterMixin search cls inheritance none method st k).2.reports.length := by
  have hkeep : ∀ st : SearchState P,
      Grows st (if method.isHiddenOverrideFatal = true then k (some method) st else (.found method, st)).2 := by
    intro st
    split
    · exact hk _ st
    · exact Nat.le_refl _
  unfold afterMixin
  simp only [hcb, Option.isSome_none, Bool.false_eq_true, if_false]
  split
  · exact hk none { st with reports := ⟨cls, inheritance, st.result⟩ :: st.reports }
  · exact hkeep { st with reports := ⟨cls, inheritance, st.result⟩ :: st.reports }
  · exact hk none { st with reports := ⟨cls, inheritance, st.result⟩ :: st.reports }
  all_goals exact Nat.lt_succ_self _

omit [DecidableEq P] in
lemma afterMixin_grows {method : Method} {k : Option Method → SearchState P → Outcome × SearchState P}
    (hk : ∀ found st, Grows st (k found st).2) :
    Grows st (afterMixin search cls inheritance found method st k).2 := by
  cases found with
  | some m => exact Nat.le_refl _
  | none =>
    cases hcb : search.callback with
    | some f => exact Nat.le_of_lt (afterMixin_again hcb hk)
    | none =>
      unfold afterMixin
      simp only [hcb, Option.isSome_none, Bool.false_eq_true, if_false]
      split
      · exact hk _ st
      · exact Nat.le_refl _

variable (hframe : ∀ ref inheritance st, Grows st (frame ref inheritance st).2)
include hframe

lemma searchMixins_grows (mixins : List P) :
    Grows st (searchMixins g search frame cls inheritance mixins found st).2 := by
  induction mixins generalizing found st with
  | nil => exact Nat.le_refl _
  | cons proto rest ih =>
    rw [searchMixins]
    by_cases hp : proto = cls.pair
    · rw [if_pos hp]
      exact ih
    · rw [if_neg hp]
      have h := hframe ⟨proto, cls.isMeta⟩ (inheritance ||| g.inheritance ⟨proto, cls.isMeta⟩) st
      obtain ⟨o, st', hr⟩ : ∃ o st',
          frame ⟨proto, cls.isMeta⟩ (inheritance ||| g.inheritance ⟨proto, cls.isMeta⟩) st = (o, st') := ⟨_, _, rfl⟩
      rw [hr] at h
      simp only [hr]
      cases o with
      | fail => exact h.trans ih
      | found method => exact h.trans (afterMixin_grows fun found st => ih)
      | null => exact h
      | inconsistency => exact h
      | outOfFuel => exact h

omit [DecidableEq P] in
lemma searchSuperclass_grows : Grows st (searchSuperclass g frame cls found inheritance st).2 := by
  rcases searchSuperclass_cases g frame cls found inheritance st with ⟨-, heq⟩ | ⟨supercls, -, -, heq⟩
  · rw [heq]
    exact Nat.le_refl _
  · rw [heq]
    exact (hframe supercls _ st).trans (mergeMethod_grows fun _ _ => Nat.le_refl _)

lemma nextClass_grows : Grows st (nextClass g search frame cls found inheritance st).2 := by
  rcases nextClass_cases search g frame cls found inheritance st with ⟨-, heq⟩ | ⟨-, -, heq⟩
  · rw [heq]
    exact searchSuperclass_grows hframe
  · rw [heq]
    exact (searchMixins_grows hframe _).trans (mergeMethod_grows fun found st => searchSuperclass_grows hframe)

lemma searchClass_grows : Grows st (searchClass g search frame cls inheritance st).2 := by
  unfold searchClass
  split
  · exact Nat.le_refl _
  · have h : Grows st (searchMethodlists g search cls (enumeratedCount g cls inheritance)
        ((g.methodlists cls).take (enumeratedCount g cls inheritance)).reverse 0 none inheritance st).state :=
      searchMethodlists_grows _ _ 0
    simp only
    split
    · rename_i o st' hl
      rw [hl] at h
      exact h
    · rename_i found' inheritance' st' hl
      rw [hl] at h
      refine Grows.trans h ?_
      unfold afterMethodlists
      split
      · exact Nat.le_refl _
      · exact nextClass_grows hframe

lemma searchFrame_grows : Grows st (searchFrame g search frame cls inheritance st).2 := by
  have hnext : ∀ mode, Grows st (nextClass g search frame cls none inheritance { st with mode := mode }).2 := by
    intro mode
    have h : Grows { st with mode := mode }
      (nextClass g search frame cls none inheritance { st with mode := mode }).2 := nextClass_grows hframe
    exact h
  have hclass : ∀ mode, Grows st (searchClass g search frame cls inheritance { st with mode := mode }).2 := by
    intro mode
    have h : Grows { st with mode := mode }
      (searchClass g search frame cls inheritance { st with mode := mode }).2 := searchClass_grows hframe
    exact h
  unfold searchFrame
  repeat' split
  all_goals first
    | exact hnext _
    | exact hclass _

end Grows

lemma searchMethodInternal_grows (search : SearchArguments P) (g : ClassGraph P) (fuel : ℕ) (cls : ClassRef P)
    (inheritance : ℕ) (st : SearchState P) :
    Grows st (searchMethodInternal search g fuel cls inheritance st).2 := by
  induction fuel generalizing cls inheritance st with
  | zero => exact Nat.le_refl _
  | succ fuel ih => exact searchFrame_grows ih

end MulleObjcRuntime.Search
