import Mathlib.Data.List.TakeWhile
import MulleObjcRuntime.Exceptions.Defs

/-!
# Exceptions are delivered

* `waiting` — the entries of the try statements whose bodies run, by thread and universe;
* `Orderly` — the invariant: the runtime has linked these entries;
* `Orderly.of_step`, `StaysInside.of_delivers` — what keeps it, and what a throw past another universe breaks;
* `delivers_iff` — a run delivers what is thrown exactly if no throw goes past the body of another universe.
-/

namespace MulleObjcRuntime.Exceptions

open Lib.LinkedStacks Lib.Runs

variable {ι υ : Type} [DecidableEq ι] [DecidableEq υ]

/-! ## What waits for an exception -/

/-- The entries of the bodies of a universe, the innermost one first. -/
def waitingIn (univ : υ) (frames : List (Frame υ)) : List ℕ := (frames.filter (Frame.awaits univ)).map Frame.data

/-- The entries of the bodies that a thread is in. -/
def waiting (frames : ι → List (Frame υ)) (config : ι × υ) : List ℕ := waitingIn config.2 (frames config.1)

variable {s s' : State ι υ} {frames : ι → List (Frame υ)} {fs : List (Frame υ)} {f : Frame υ} {i : ι} {univ : υ}
  {data : ℕ}

omit [DecidableEq ι] in
lemma head_waiting (frames : ι → List (Frame υ)) (config : ι × υ) :
    (waiting frames config).head? = ((frames config.1).find? (Frame.awaits config.2)).map Frame.data := by
  unfold waiting waitingIn
  rw [List.head?_map, List.head?_filter]

omit [DecidableEq ι] in
lemma mem_waiting {config : ι × υ} (h : data ∈ waiting frames config) : ∃ f ∈ frames config.1, f.data = data := by
  obtain ⟨f, hf, rfl⟩ := List.mem_map.1 h
  exact ⟨f, List.mem_of_mem_filter hf, rfl⟩

lemma waiting_update (univ : υ) (hothers : ∀ v ≠ univ, waitingIn v fs = waitingIn v (frames i)) :
    waiting (Function.update frames i fs) = Function.update (waiting frames) (i, univ) (waitingIn univ fs) := by
  funext ⟨j, v⟩
  unfold waiting
  by_cases hj : j = i
  · subst hj
    by_cases hv : v = univ
    · subst hv
      simp
    · rw [Function.update_of_ne (fun h => hv (Prod.ext_iff.1 h).2)]
      simpa using hothers v hv
  · rw [Function.update_of_ne (fun h => hj (Prod.ext_iff.1 h).1)]
    simp [hj]

lemma waiting_update_same (hsame : ∀ v, waitingIn v fs = waitingIn v (frames i)) :
    waiting (Function.update frames i fs) = waiting frames := by
  funext ⟨j, v⟩
  unfold waiting
  by_cases hj : j = i
  · subst hj
    simpa using hsame v
  · simp [hj]

lemma waitingIn_cons (f : Frame υ) (fs : List (Frame υ)) (univ : υ) :
    waitingIn univ (f :: fs) = if f.awaits univ then f.data :: waitingIn univ fs else waitingIn univ fs := by
  unfold waitingIn
  rw [List.filter_cons]
  split <;> rfl

lemma waitingIn_append (fs gs : List (Frame υ)) (univ : υ) :
    waitingIn univ (fs ++ gs) = waitingIn univ fs ++ waitingIn univ gs := by
  unfold waitingIn
  rw [List.filter_append, List.map_append]

lemma waitingIn_caught (h : ∀ f ∈ fs, f.caught ≠ none) (univ : υ) : waitingIn univ fs = [] := by
  unfold waitingIn
  rw [List.filter_eq_nil_iff.2, List.map_nil]
  intro f hf
  simp [Frame.awaits, h f hf]

lemma awaits_iff : f.awaits univ = true ↔ f.univ = univ ∧ f.caught = none := by simp [Frame.awaits]

/-! ## The entries -/

/-- No two try statements have the same entry. -/
structure Distinct (frames : ι → List (Frame υ)) : Prop where
  nodup : ∀ i, ((frames i).map Frame.data).Nodup
  apart : ∀ i j, i ≠ j → ∀ f ∈ frames i, ∀ g ∈ frames j, f.data ≠ g.data

omit [DecidableEq υ] in
lemma Distinct.sublist (h : Distinct frames) (hsub : (fs.map Frame.data).Sublist ((frames i).map Frame.data)) :
    Distinct (Function.update frames i fs) := by
  have hmem : ∀ f ∈ fs, ∃ g ∈ frames i, g.data = f.data := fun f hf =>
    List.mem_map.1 (hsub.subset (List.mem_map_of_mem hf))
  refine ⟨(Function.forall_update_iff frames fun _ fs => (fs.map Frame.data).Nodup).2
    ⟨(h.nodup i).sublist hsub, fun j _ => h.nodup j⟩, fun j k hjk f hf g hg => ?_⟩
  by_cases hj : j = i
  · subst hj
    rw [Function.update_self] at hf
    rw [Function.update_of_ne hjk.symm] at hg
    obtain ⟨f', hf', hdata⟩ := hmem f hf
    exact hdata ▸ h.apart j k hjk f' hf' g hg
  · rw [Function.update_of_ne hj] at hf
    by_cases hk : k = i
    · subst hk
      rw [Function.update_self] at hg
      obtain ⟨g', hg', hdata⟩ := hmem g hg
      exact hdata ▸ h.apart j k hjk f hf g' hg'
    · rw [Function.update_of_ne hk] at hg
      exact h.apart j k hjk f hf g hg

omit [DecidableEq υ] in
lemma Distinct.cons (h : Distinct frames) (hfresh : ∀ j, ∀ g ∈ frames j, g.data ≠ f.data) :
    Distinct (Function.update frames i (f :: frames i)) := by
  refine ⟨(Function.forall_update_iff frames fun _ fs => (fs.map Frame.data).Nodup).2
    ⟨List.nodup_cons.2 ⟨fun hmem => ?_, h.nodup i⟩, fun j _ => h.nodup j⟩, fun j k hjk g hg g' hg' => ?_⟩
  · obtain ⟨g, hg, hdata⟩ := List.mem_map.1 hmem
    exact hfresh i g hg hdata
  · by_cases hj : j = i
    · subst hj
      rw [Function.update_self] at hg
      rw [Function.update_of_ne hjk.symm] at hg'
      rcases List.mem_cons.1 hg with rfl | hg
      · exact (hfresh k g' hg').symm
      · exact h.apart j k hjk g hg g' hg'
    · rw [Function.update_of_ne hj] at hg
      by_cases hk : k = i
      · subst hk
        rw [Function.update_self] at hg'
        rcases List.mem_cons.1 hg' with rfl | hg'
        · exact hfresh j g hg
        · exact h.apart j k hjk g hg g' hg'
      · rw [Function.update_of_ne hk] at hg'
        exact h.apart j k hjk g hg g' hg'

/-- **The invariant**: the runtime has linked the entries of all bodies, and what has been caught is in the entries. -/
structure Orderly (s : State ι υ) : Prop where
  linked : Linked s.rt.exceptionStack (fun data => (s.rt.entry data).previous) (waiting s.frames)
  distinct : Distinct s.frames
  extract : ∀ i, Extracts s.rt (s.frames i)

omit [DecidableEq ι] in
lemma orderly_start : Orderly (State.start ι υ) := by
  refine ⟨fun _ => rfl, ⟨fun _ => List.nodup_nil, ?_⟩, ?_⟩
  · intro i j _ f hf
    cases hf
  · intro i f hf
    cases hf

lemma throw_target (rt : Runtime ι υ) (config : ι × υ) (exception : Option ℕ) :
    (rt.throw config exception).map Prod.fst = rt.exceptionStack config := by
  unfold Runtime.throw
  cases rt.exceptionStack config with
  | none => rfl
  | some entry => rfl

lemma Orderly.delivers (h : Orderly s) : Delivers s := by
  refine ⟨fun i univ exception => ?_, h.extract⟩
  rw [throw_target, h.linked.top_eq, head_waiting]

/-! ## One action -/

lemma previous_update (entries : ℕ → Entry) (data : ℕ) (entry : Entry) :
    (fun a => (Function.update entries data entry a).previous) =
      Function.update (fun a => (entries a).previous) data entry.previous :=
  Function.comp_update Entry.previous entries data entry

omit [DecidableEq ι] [DecidableEq υ] in
lemma Extracts.write {rt : Runtime ι υ} (h : Extracts rt fs) (hne : ∀ f ∈ fs, f.data ≠ data) (entry : Entry)
    (top : ι × υ → Option ℕ) : Extracts ⟨Function.update rt.entry data entry, top⟩ fs := by
  intro f hf exception hcaught
  rw [← h f hf exception hcaught]
  simp [Runtime.extractException, hne f hf]

omit [DecidableEq ι] in
lemma not_mem_waiting (hunused : Unused s data) (config : ι × υ) : data ∉ waiting s.frames config := by
  intro hmem
  obtain ⟨f, hf, hdata⟩ := mem_waiting hmem
  exact hunused config.1 f hf hdata

lemma Orderly.enter (h : Orderly s) (hunused : Unused s data) (i : ι) (univ : υ) :
    Orderly ⟨s.rt.tryenter (i, univ) data, Function.update s.frames i (⟨univ, data, none⟩ :: s.frames i)⟩ := by
  have hold : ∀ j, Extracts (s.rt.tryenter (i, univ) data) (s.frames j) := fun j =>
    (h.extract j).write (hunused j) _ _
  refine ⟨?_, h.distinct.cons hunused, ?_⟩
  · rw [waiting_update univ]
    · rw [waitingIn_cons, if_pos (by simp [Frame.awaits])]
      simp only [Runtime.tryenter, previous_update]
      exact h.linked.push (not_mem_waiting hunused) (i, univ)
    · intro v hv
      rw [waitingIn_cons, if_neg]
      simp [Frame.awaits, hv.symm]
  · refine (Function.forall_update_iff s.frames fun _ fs => Extracts (s.rt.tryenter (i, univ) data) fs).2
      ⟨fun f hf exception hcaught => ?_, fun j _ => hold j⟩
    rcases List.mem_cons.1 hf with rfl | hf
    · cases hcaught
    · exact hold i f hf exception hcaught

lemma Orderly.exit (h : Orderly s) (hhead : (s.frames i).head? = some ⟨univ, data, none⟩) :
    Orderly ⟨s.rt.tryexit (i, univ) data, Function.update s.frames i (s.frames i).tail⟩ := by
  obtain ⟨rest, hframes⟩ := List.head?_eq_some_iff.1 hhead
  rw [hframes, List.tail_cons]
  refine ⟨?_, ?_, ?_⟩
  · have hstack : waiting s.frames (i, univ) = data :: waitingIn univ rest := by
      unfold waiting
      rw [hframes, waitingIn_cons, if_pos (by simp [Frame.awaits])]
    rw [waiting_update univ]
    · exact h.linked.pop hstack
    · intro v hv
      rw [hframes, waitingIn_cons, if_neg]
      simp [Frame.awaits, hv.symm]
  · refine h.distinct.sublist ?_
    rw [hframes, List.map_cons]
    exact List.sublist_cons_self _ _
  · refine (Function.forall_update_iff s.frames fun _ fs => Extracts s.rt fs).2
      ⟨fun f hf => h.extract i f (hframes ▸ List.mem_cons_of_mem _ hf), fun j _ => h.extract j⟩

lemma Orderly.leave (h : Orderly s) (hhead : ∀ f ∈ (s.frames i).head?, f.caught ≠ none) :
    Orderly { s with frames := Function.update s.frames i (s.frames i).tail } := by
  refine ⟨?_, h.distinct.sublist ((List.tail_sublist _).map _), ?_⟩
  · rw [waiting_update_same]
    · exact h.linked
    · intro v
      cases hframes : s.frames i with
      | nil => rfl
      | cons f rest =>
        rw [hframes] at hhead
        rw [List.tail_cons, waitingIn_cons, if_neg]
        simp [Frame.awaits, hhead f rfl]
  · refine (Function.forall_update_iff s.frames fun _ fs => Extracts s.rt fs).2
      ⟨fun f hf => h.extract i f (List.mem_of_mem_tail hf), fun j _ => h.extract j⟩

omit [DecidableEq ι] in
lemma Orderly.write (h : Orderly s) (hunused : Unused s data) (entry : Entry) :
    Orderly { s with rt := { s.rt with entry := Function.update s.rt.entry data entry } } := by
  refine ⟨?_, h.distinct, fun j => (h.extract j).write (hunused j) _ _⟩
  simp only [previous_update]
  exact h.linked.write (not_mem_waiting hunused) entry.previous

/-! ### A throw -/

lemma longjmp_eq_some {entry : ℕ} (hnodup : (fs.map Frame.data).Nodup)
    (htarget : (fs.find? (Frame.awaits univ)).map Frame.data = some entry) (exception : Option ℕ) :
    ∃ inside f rest, fs = inside ++ f :: rest ∧ (fs.takeWhile fun f => !f.awaits univ) = inside ∧ f.data = entry ∧
      f.awaits univ = true ∧ longjmp entry exception fs = some ({ f with caught := some exception } :: rest) := by
  obtain ⟨f, hfind, rfl⟩ := Option.map_eq_some_iff.1 htarget
  obtain ⟨hawaits, inside, rest, rfl, hinside⟩ := List.find?_eq_some_iff_append.1 hfind
  refine ⟨inside, f, rest, rfl, ?_, rfl, hawaits, ?_⟩
  · rw [List.takeWhile_append_of_pos hinside, List.takeWhile_cons_of_neg (by simp [hawaits]), List.append_nil]
  · rw [List.map_append, List.map_cons] at hnodup
    have hne : ∀ g ∈ inside, (g.data != f.data) = true := by
      intro g hg
      rw [bne_iff_ne]
      exact (List.nodup_append.1 hnodup).2.2 g.data (List.mem_map_of_mem hg) f.data List.mem_cons_self
    unfold longjmp
    rw [List.dropWhile_append_of_pos hne, List.dropWhile_cons_of_neg (by simp)]

/-- The entry of a body that awaits an exception is popped, and the exception is put into it. -/
lemma Orderly.throw (h : Orderly s) {inside rest : List (Frame υ)} (hframes : s.frames i = inside ++ f :: rest)
    (hinside : ∀ g ∈ inside, g.caught ≠ none) (hawaits : f.awaits univ = true) (exception : Option ℕ) :
    Orderly ⟨⟨Function.update s.rt.entry f.data { s.rt.entry f.data with exception },
        Function.update s.rt.exceptionStack (i, univ) (s.rt.entry f.data).previous⟩,
      Function.update s.frames i ({ f with caught := some exception } :: rest)⟩ := by
  have hwaiting : ∀ v, waitingIn v (s.frames i) = if f.awaits v then f.data :: waitingIn v rest else waitingIn v rest := by
    intro v
    rw [hframes, waitingIn_append, waitingIn_caught hinside, List.nil_append, waitingIn_cons]
  have hafter : ∀ v, waitingIn v ({ f with caught := some exception } :: rest) = waitingIn v rest := by
    intro v
    rw [waitingIn_cons, if_neg (by simp [Frame.awaits])]
  refine ⟨?_, h.distinct.sublist ?_, ?_⟩
  · simp only [previous_update, Function.update_eq_self]
    rw [waiting_update univ]
    · rw [hafter]
      exact h.linked.pop ((hwaiting univ).trans (if_pos hawaits))
    · intro v hv
      rw [hafter, hwaiting, if_neg]
      rw [awaits_iff, not_and]
      exact fun hsame => absurd (hsame.symm.trans (awaits_iff.1 hawaits).1) hv
  · rw [hframes, List.map_append, List.map_cons]
    exact List.sublist_append_right _ _
  · have hnodup := h.distinct.nodup i
    rw [hframes, List.map_append, List.map_cons] at hnodup
    have hrest : ∀ g ∈ rest, g.data ≠ f.data := by
      intro g hg heq
      exact (List.nodup_cons.1 (List.nodup_append.1 hnodup).2.1).1 (heq ▸ List.mem_map_of_mem hg)
    refine (Function.forall_update_iff s.frames fun _ fs => Extracts
      ⟨Function.update s.rt.entry f.data { s.rt.entry f.data with exception },
        Function.update s.rt.exceptionStack (i, univ) (s.rt.entry f.data).previous⟩ fs).2 ⟨?_, fun j hj => ?_⟩
    · have hold : Extracts s.rt rest := fun g hg => h.extract i g (by simp [hframes, hg])
      intro g hg e he
      rcases List.mem_cons.1 hg with rfl | hg
      · cases he
        simp [Runtime.extractException]
      · exact hold.write hrest _ _ g hg e he
    · exact (h.extract j).write (fun g hg => h.distinct.apart j i hj g hg f (by simp [hframes])) _ _

/-- What a throw does in an orderly state: the thread is back in the innermost body of its universe. -/
lemma Orderly.step_throw (h : Orderly s) {exception : Option ℕ} (hstep : step s (i, .throw univ exception) = some s') :
    ∃ inside f rest, s.frames i = inside ++ f :: rest ∧ ((s.frames i).takeWhile fun f => !f.awaits univ) = inside ∧
      f.awaits univ = true ∧
      s' = ⟨⟨Function.update s.rt.entry f.data { s.rt.entry f.data with exception },
          Function.update s.rt.exceptionStack (i, univ) (s.rt.entry f.data).previous⟩,
        Function.update s.frames i ({ f with caught := some exception } :: rest)⟩ := by
  have htop : s.rt.exceptionStack (i, univ) = ((s.frames i).find? (Frame.awaits univ)).map Frame.data := by
    rw [← throw_target s.rt (i, univ) exception]
    exact h.delivers.target i univ exception
  obtain ⟨⟨entry, rt⟩, hthrow, hstep⟩ := Option.bind_eq_some_iff.1 hstep
  obtain ⟨frames, hlongjmp, rfl⟩ := Option.map_eq_some_iff.1 hstep
  unfold Runtime.throw at hthrow
  cases hentry : s.rt.exceptionStack (i, univ) with
  | none =>
    rw [hentry] at hthrow
    cases hthrow
  | some entry =>
    rw [hentry] at hthrow htop
    cases hthrow
    obtain ⟨inside, f, rest, hframes, hinside, rfl, hawaits, hjump⟩ :=
      longjmp_eq_some (h.distinct.nodup i) htop.symm exception
    rw [hjump] at hlongjmp
    cases hlongjmp
    exact ⟨inside, f, rest, hframes, hinside, hawaits, rfl⟩

/-- **A proper action that stays inside its universe keeps the invariant.** -/
lemma Orderly.of_step {a : ι × Action υ} (h : Orderly s) (hproper : Proper s a) (hinside : StaysInside s a)
    (hstep : step s a = some s') : Orderly s' := by
  obtain ⟨i, _ | _ | ⟨univ, exception⟩ | _ | _⟩ := a
  · cases hstep
    exact h.enter hproper _ _
  · cases hstep
    exact h.exit hproper
  · obtain ⟨inside, f, rest, hframes, hpassed, hawaits, rfl⟩ := h.step_throw hstep
    exact h.throw hframes (hpassed ▸ hinside) hawaits exception
  · cases hstep
    exact h.leave hproper
  · cases hstep
    exact h.write hproper _

/-- **A throw past the body of another universe leaves an entry behind**, to which that universe throws next. -/
lemma StaysInside.of_delivers {a : ι × Action υ} (h : Orderly s) (hstep : Exceptions.step s a = some s')
    (hdelivers : Delivers s') : StaysInside s a := by
  obtain ⟨i, _ | _ | ⟨univ, exception⟩ | _ | _⟩ := a <;> try trivial
  obtain ⟨inside, f, rest, hframes, hpassed, hawaits, rfl⟩ := h.step_throw hstep
  intro g hg hcaught
  have hg' : g ∈ inside := hpassed ▸ hg
  have hne : g.univ ≠ univ := by
    intro hsame
    have := List.mem_takeWhile_imp hg
    rw [awaits_iff.2 ⟨hsame, hcaught⟩] at this
    cases this
  -- the universe of the body that is passed has an entry on top, and it is one of those inside
  have hsome : (inside.find? (Frame.awaits g.univ)).isSome = true := by
    rw [List.find?_isSome]
    exact ⟨g, hg', awaits_iff.2 ⟨rfl, hcaught⟩⟩
  obtain ⟨top, htop⟩ := Option.isSome_iff_exists.1 hsome
  have hbefore := h.delivers.target i g.univ exception
  have hafter := hdelivers.target i g.univ exception
  rw [throw_target] at hbefore hafter
  simp only [Function.update_of_ne (show (i, g.univ) ≠ (i, univ) from fun heq => hne (Prod.ext_iff.1 heq).2),
    Function.update_self] at hafter
  rw [hbefore, hframes, List.find?_append, htop, Option.some_or, Option.map_some] at hafter
  obtain ⟨other, hother, hdata⟩ := Option.map_eq_some_iff.1 hafter.symm
  -- but it has no try statement any more
  have hnodup := h.distinct.nodup i
  rw [hframes, List.map_append, List.map_cons] at hnodup
  refine (List.nodup_append.1 hnodup).2.2 top.data (List.mem_map_of_mem (List.mem_of_find?_eq_some htop)) other.data ?_ hdata.symm
  rcases List.mem_cons.1 (List.mem_of_find?_eq_some hother) with rfl | hrest
  · exact List.mem_cons_self
  · exact List.mem_cons_of_mem _ (List.mem_map_of_mem hrest)

/-! ## Runs -/

variable {acts : List (ι × Action υ)}

lemma Orderly.staysInside (h : Orderly s) (hproper : EachStep step Proper s acts) (hrun : run step s acts = some s')
    (hdelivers : Throughout step Delivers s acts) : EachStep step StaysInside s acts := by
  induction acts generalizing s with
  | nil => trivial
  | cons a acts ih =>
    obtain ⟨t, hstep, hrest⟩ := run_cons_eq_some.1 hrun
    have hinside := StaysInside.of_delivers h hstep (hdelivers.2 t hstep).head
    refine ⟨hinside, fun t' ht' => ?_⟩
    cases hstep.symm.trans ht'
    exact ih (h.of_step hproper.1 hinside hstep) (hproper.2 t hstep) hrest (hdelivers.2 t hstep)

/-- **A run delivers whatever is thrown exactly if no throw goes past the body of a try statement of another universe.** -/
theorem delivers_iff (hproper : EachStep step Proper (State.start ι υ) acts)
    (hrun : run step (State.start ι υ) acts = some s') :
    Throughout step Delivers (State.start ι υ) acts ↔ EachStep step StaysInside (State.start ι υ) acts := by
  constructor
  · exact orderly_start.staysInside hproper hrun
  · intro hinside
    refine ((hproper.and hinside).throughout orderly_start fun s a t h hboth hstep => ?_).mono fun t h => h.delivers
    exact h.of_step hboth.1 hboth.2 hstep

omit [DecidableEq ι] in
lemma staysInside_of_subsingleton [Subsingleton υ] (s : State ι υ) (a : ι × Action υ) : StaysInside s a := by
  obtain ⟨i, _ | _ | ⟨univ, exception⟩ | _ | _⟩ := a <;> try trivial
  intro f hf hcaught
  have hnot := List.mem_takeWhile_imp hf
  rw [awaits_iff.2 ⟨Subsingleton.elim f.univ univ, hcaught⟩] at hnot
  cases hnot

/-- In a single universe every run delivers. -/
theorem delivers_of_subsingleton [Subsingleton υ] (hproper : EachStep step Proper (State.start ι υ) acts) :
    Throughout step Delivers (State.start ι υ) acts := by
  refine (hproper.throughout orderly_start fun s a t h hproper hstep => ?_).mono fun t h => h.delivers
  exact h.of_step hproper (staysInside_of_subsingleton s a) hstep

/-! ## A sample -/

/-- Two threads are in try statements of two universes, nested in both orders; one of them throws out of the inner body, to
which the other one throws then. -/
def nestedActs : List (Bool × Action Bool) :=
  [(true, .enter false 100), (false, .enter true 300), (true, .enter true 200), (false, .enter false 400),
    (true, .throw true (some 7)), (true, .throw false (some 8)), (false, .throw false none), (true, .leave),
    (false, .enter false 500), (false, .exit false 500), (false, .leave), (false, .exit true 300)]

/-- A thread throws past the body of another universe, and there is nothing left to go to. -/
def crossingActs : List (Bool × Action Bool) :=
  [(true, .enter false 100), (true, .enter true 200), (true, .throw false (some 7))]

theorem delivers_iff_nested : Throughout step Delivers (State.start Bool Bool) nestedActs ∧
    ¬ Throughout step Delivers (State.start Bool Bool) crossingActs := by
  have hnested : (run step (State.start Bool Bool) nestedActs).isSome = true := by decide +kernel
  have hcrossing : (run step (State.start Bool Bool) crossingActs).isSome = true := by decide +kernel
  obtain ⟨s, hnested⟩ := Option.isSome_iff_exists.1 hnested
  obtain ⟨s', hcrossing⟩ := Option.isSome_iff_exists.1 hcrossing
  have hdelivers := delivers_iff (by decide +kernel) hnested
  have hloses := delivers_iff (by decide +kernel) hcrossing
  exact ⟨hdelivers.2 (by decide +kernel), fun h => absurd (hloses.1 h) (by decide +kernel)⟩

end MulleObjcRuntime.Exceptions
