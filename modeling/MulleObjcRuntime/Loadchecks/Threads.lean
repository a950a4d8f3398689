import MulleObjcRuntime.Lib.CasLoop
import MulleObjcRuntime.Lib.Interleaving
import MulleObjcRuntime.Loadchecks.Defs

/-!
# Threads that load code

Several threads may load code, and a loadinfo is checked before the lock is taken.  A thread reads the load bits once, and
sets its own later, so that two threads may both find that there is no code that differs from theirs.

* `Loadstate` — the load bits, what has got through, and why the program has ended;
* `Loading`, `Loading.step` — where a thread is in `mulle_objc_universe_assert_loadinfo`, and its next access;
* `LoadsReachable` — what any interleaving of the threads leads to;
* `loads_alike_iff` — code with and without tagged pointers is mixed if there are two threads and code of both kinds.
-/

namespace MulleObjcRuntime.Loadchecks

open Lib.CasLoop Lib.Fallible Lib.Interleaving

/-- What the threads share. -/
structure Loadstate where
  loadbits : BitVec 64
  loaded : List Loadinfo
  mismatch : Option Mismatch

/-- The program ends. -/
def Loadstate.fail (u : Loadstate) (mismatch : Mismatch) : Loadstate := { u with mismatch := some mismatch }

/-- Where a thread is: before it has read the load bits, or in one of the loops that set them. -/
inductive Loading
  | idle
  | checking (info : Loadinfo)
  | markingTps (info : Loadinfo) (attempt : Attempt (BitVec 64))
  | markingTao (info : Loadinfo) (attempt : Attempt (BitVec 64))
deriving DecidableEq, Repr

/-- What comes after a check. -/
def Loadstate.after (u : Loadstate) (mismatch : Option Mismatch) (next : Loadstate × Loading) : Loadstate × Loading :=
  match mismatch with
  | none => next
  | some mismatch => (u.fail mismatch, .idle)

/-- The next access in `_mulle_objc_universe_set_loadbit`. -/
def setLoadbit (bit : BitVec 64) (spurious : Bool) (loadbits : BitVec 64) (attempt : Attempt (BitVec 64)) :
    BitVec 64 × (Attempt (BitVec 64) ⊕ Bool) :=
  attempt.step (· ||| bit) spurious loadbits

/-- The next access of `mulle_objc_universe_assert_loadinfo`, with the checks up to the one after it. -/
def Loading.step (l : Loader) (spurious : Bool) (u : Loadstate) : Loading → Loadstate × Loading
  | .idle => (u, .idle)
  | .checking info =>
    u.after (if info.version.load ≠ l.loadVersion then some .load else none) <|
      if l.skipConsistencyChecks then ({ u with loaded := u.loaded ++ [info] }, .idle)
      else
        u.after (versionMismatch l info) <| u.after (tpsMismatch l info u.loadbits) (u, .markingTps info .read)
  | .markingTps info attempt =>
    match setLoadbit info.tpsBit spurious u.loadbits attempt with
    | (loadbits, .inl attempt) => ({ u with loadbits := loadbits }, .markingTps info attempt)
    | (loadbits, .inr _) =>
      Loadstate.after { u with loadbits := loadbits } (taoMismatch l info)
        ({ u with loadbits := loadbits }, .markingTao info .read)
  | .markingTao info attempt =>
    match setLoadbit info.taoBit spurious u.loadbits attempt with
    | (loadbits, .inl attempt) => ({ u with loadbits := loadbits }, .markingTao info attempt)
    | (loadbits, .inr _) =>
      Loadstate.after { u with loadbits := loadbits } (buildMismatch l info)
        ({ u with loadbits := loadbits, loaded := u.loaded ++ [info] }, .idle)

/-- What a thread does: it begins to load some code, or it goes on, unless the program has ended. -/
inductive LoadAct (l : Loader) (code : Loadinfo → Prop) : Loadstate → Loading → Loadstate → Loading → Prop
  | begins {u : Loadstate} {info : Loadinfo} (hgoing : u.mismatch = none) (h : code info) :
    LoadAct l code u .idle u (.checking info)
  | goes {u : Loadstate} {t : Loading} (spurious : Bool) (hgoing : u.mismatch = none) :
    LoadAct l code u t (t.step l spurious u).1 (t.step l spurious u).2

/-- What any interleaving of threads that load some of the code leads to. -/
def LoadsReachable {ι : Type} [DecidableEq ι] (l : Loader) (code : Loadinfo → Prop) (s : Threads ι Loadstate Loading) :
    Prop :=
  Threads.Reachable (fun _ => LoadAct l code) ⟨⟨0, [], none⟩, fun _ => .idle⟩ s

variable {l : Loader} {code : Loadinfo → Prop} {ι : Type} [DecidableEq ι] {s : Threads ι Loadstate Loading}
  {u : Loadstate} {info : Loadinfo} {attempt : Attempt (BitVec 64)}

/-! ## What a step does -/

/-- The checks before the load bits are read. -/
structure Begun (l : Loader) (info : Loadinfo) : Prop where
  load : info.version.load = l.loadVersion
  version : versionMismatch l info = none
  tps : info.tps = true → l.noTaggedPointer = false

lemma step_checking (hskip : l.skipConsistencyChecks = false) (u : Loadstate) (info : Loadinfo) (spurious : Bool) :
    (∃ mismatch, (Loading.checking info).step l spurious u = (u.fail mismatch, .idle)) ∨
      Begun l info ∧ tpsMismatch l info u.loadbits = none ∧
        (Loading.checking info).step l spurious u = (u, .markingTps info .read) := by
  simp only [Loading.step, hskip, Bool.false_eq_true, if_false]
  by_cases hload : info.version.load = l.loadVersion
  · rw [if_neg (not_not_intro hload)]
    cases hversion : versionMismatch l info with
    | some mismatch => exact Or.inl ⟨mismatch, rfl⟩
    | none =>
      cases htps : tpsMismatch l info u.loadbits with
      | some mismatch => exact Or.inl ⟨mismatch, rfl⟩
      | none => exact Or.inr ⟨⟨hload, hversion, (tpsMismatch_eq_none.mp htps).1⟩, rfl, rfl⟩
  · rw [if_pos hload]
    exact Or.inl ⟨.load, rfl⟩

lemma step_markingTps (l : Loader) (u : Loadstate) (spurious : Bool) (hok : attempt.Ok (· ||| info.tpsBit)) :
    (∃ next : Attempt (BitVec 64), next.Ok (· ||| info.tpsBit) ∧
        (Loading.markingTps info attempt).step l spurious u = (u, .markingTps info next)) ∨
      (∃ mismatch, (Loading.markingTps info attempt).step l spurious u =
        (Loadstate.fail { u with loadbits := u.loadbits ||| info.tpsBit } mismatch, .idle)) ∨
      taoMismatch l info = none ∧ (Loading.markingTps info attempt).step l spurious u =
        ({ u with loadbits := u.loadbits ||| info.tpsBit }, .markingTao info .read) := by
  rcases Attempt.step_cases spurious u.loadbits hok with ⟨next, hnext, hstep⟩ | hstep
  · exact Or.inl ⟨next, hnext, by simp only [Loading.step, setLoadbit, hstep]⟩
  · simp only [Loading.step, setLoadbit, hstep]
    cases htao : taoMismatch l info with
    | some mismatch => exact Or.inr (Or.inl ⟨mismatch, rfl⟩)
    | none => exact Or.inr (Or.inr ⟨rfl, rfl⟩)

lemma step_markingTao (l : Loader) (u : Loadstate) (spurious : Bool) (hok : attempt.Ok (· ||| info.taoBit)) :
    (∃ next : Attempt (BitVec 64), next.Ok (· ||| info.taoBit) ∧
        (Loading.markingTao info attempt).step l spurious u = (u, .markingTao info next)) ∨
      (∃ mismatch, (Loading.markingTao info attempt).step l spurious u =
        (Loadstate.fail { u with loadbits := u.loadbits ||| info.taoBit } mismatch, .idle)) ∨
      buildMismatch l info = none ∧ (Loading.markingTao info attempt).step l spurious u =
        ({ u with loadbits := u.loadbits ||| info.taoBit, loaded := u.loaded ++ [info] }, .idle) := by
  rcases Attempt.step_cases spurious u.loadbits hok with ⟨next, hnext, hstep⟩ | hstep
  · exact Or.inl ⟨next, hnext, by simp only [Loading.step, setLoadbit, hstep]⟩
  · simp only [Loading.step, setLoadbit, hstep]
    cases hbuild : buildMismatch l info with
    | some mismatch => exact Or.inr (Or.inl ⟨mismatch, rfl⟩)
    | none => exact Or.inr (Or.inr ⟨rfl, rfl⟩)

/-! ## What holds throughout -/

/-- The loadinfo has got past the check of the load bits. -/
structure Checked (l : Loader) (code : Loadinfo → Prop) (info : Loadinfo) : Prop extends Begun l info where
  code : code info

/-- What holds of a thread, with these load bits. -/
def Loading.Ok (l : Loader) (code : Loadinfo → Prop) (loadbits : BitVec 64) : Loading → Prop
  | .idle => True
  | .checking info => code info
  | .markingTps info attempt => Checked l code info ∧ attempt.Ok (· ||| info.tpsBit)
  | .markingTao info attempt =>
    Checked l code info ∧ attempt.Ok (· ||| info.taoBit) ∧ taoMismatch l info = none ∧ loadbits &&& info.tpsBit ≠ 0

/-- What holds of the loadinfos that have got through. -/
structure Loaded (l : Loader) (code : Loadinfo → Prop) (loadbits : BitVec 64) (info : Loadinfo) : Prop where
  code : code info
  passes : Passes l info
  marked : loadbits &&& info.tpsBit ≠ 0

/-- What holds throughout. -/
structure LoadsInv (l : Loader) (code : Loadinfo → Prop) (s : Threads ι Loadstate Loading) : Prop where
  loaded : ∀ info ∈ s.shared.loaded, Loaded l code s.shared.loadbits info
  ok : ∀ i, (s.thread i).Ok l code s.shared.loadbits

lemma or_and_ne_zero {loadbits bit : BitVec 64} (more : BitVec 64) (h : loadbits &&& bit ≠ 0) :
    (loadbits ||| more) &&& bit ≠ 0 := by
  intro hzero
  exact h ((or_and_eq_zero loadbits more bit).mp hzero).1

lemma or_tpsBit_and (loadbits : BitVec 64) (info : Loadinfo) : (loadbits ||| info.tpsBit) &&& info.tpsBit ≠ 0 := by
  intro hzero
  have hbit := ((or_and_eq_zero loadbits info.tpsBit info.tpsBit).mp hzero).2
  revert hbit
  unfold Loadinfo.tpsBit
  split
  · decide
  · decide

lemma Loaded.mono {loadbits : BitVec 64} (h : Loaded l code loadbits info) (more : BitVec 64) :
    Loaded l code (loadbits ||| more) info :=
  ⟨h.code, h.passes, or_and_ne_zero more h.marked⟩

lemma Loading.Ok.mono {t : Loading} {loadbits : BitVec 64} (h : t.Ok l code loadbits) (more : BitVec 64) :
    t.Ok l code (loadbits ||| more) := by
  cases t with
  | idle => trivial
  | checking info => exact h
  | markingTps info attempt => exact h
  | markingTao info attempt => exact ⟨h.1, h.2.1, h.2.2.1, or_and_ne_zero more h.2.2.2⟩

lemma LoadsInv.moved (h : LoadsInv l code s) (i : ι) {u : Loadstate} {t : Loading} (more : BitVec 64)
    (hbits : u.loadbits = s.shared.loadbits ||| more)
    (hloaded : ∀ info ∈ u.loaded, info ∈ s.shared.loaded ∨ Loaded l code u.loadbits info)
    (ht : t.Ok l code u.loadbits) : LoadsInv l code (s.moved i u t) := by
  constructor
  · intro info hinfo
    rcases hloaded info hinfo with hold | hnew
    · exact hbits ▸ (h.loaded info hold).mono more
    · exact hnew
  · refine (forall_moved fun _ (t : Loading) => t.Ok l code u.loadbits).mpr ⟨ht, fun j _ => ?_⟩
    exact hbits ▸ (h.ok j).mono more

/-- **The step lemma.** -/
lemma LoadsInv.goes (hskip : l.skipConsistencyChecks = false) (h : LoadsInv l code s) (i : ι) (spurious : Bool) :
    LoadsInv l code
      (s.moved i ((s.thread i).step l spurious s.shared).1 ((s.thread i).step l spurious s.shared).2) := by
  have hsame : s.shared.loadbits = s.shared.loadbits ||| 0 := BitVec.or_zero.symm
  have hok := h.ok i
  cases ht : s.thread i with
  | idle => exact h.moved i 0 hsame (fun info hinfo => Or.inl hinfo) trivial
  | checking info =>
    rw [ht] at hok
    rcases step_checking hskip s.shared info spurious with ⟨mismatch, hstep⟩ | ⟨hbegun, -, hstep⟩
    · rw [hstep]
      exact h.moved i 0 hsame (fun info hinfo => Or.inl hinfo) trivial
    · rw [hstep]
      exact h.moved i 0 hsame (fun info hinfo => Or.inl hinfo) ⟨⟨hbegun, hok⟩, trivial⟩
  | markingTps info attempt =>
    rw [ht] at hok
    obtain ⟨hchecked, hattempt⟩ := hok
    rcases step_markingTps l s.shared spurious hattempt with
      ⟨next, hnext, hstep⟩ | ⟨mismatch, hstep⟩ | ⟨htao, hstep⟩
    · rw [hstep]
      exact h.moved i 0 hsame (fun info hinfo => Or.inl hinfo) ⟨hchecked, hnext⟩
    · rw [hstep]
      exact h.moved i _ rfl (fun info hinfo => Or.inl hinfo) trivial
    · rw [hstep]
      exact h.moved i _ rfl (fun info hinfo => Or.inl hinfo) ⟨hchecked, trivial, htao, or_tpsBit_and _ _⟩
  | markingTao info attempt =>
    rw [ht] at hok
    obtain ⟨hchecked, hattempt, htao, hmarked⟩ := hok
    rcases step_markingTao l s.shared spurious hattempt with
      ⟨next, hnext, hstep⟩ | ⟨mismatch, hstep⟩ | ⟨hbuild, hstep⟩
    · rw [hstep]
      exact h.moved i 0 hsame (fun info hinfo => Or.inl hinfo) ⟨hchecked, hnext, htao, hmarked⟩
    · rw [hstep]
      exact h.moved i _ rfl (fun info hinfo => Or.inl hinfo) trivial
    · rw [hstep]
      refine h.moved i _ rfl (fun info' hinfo' => ?_) trivial
      rcases List.mem_append.mp hinfo' with hold | hnew
      · exact Or.inl hold
      · have hpasses : Passes l info := ⟨hchecked.load, hchecked.version, htao, hbuild, hchecked.tps⟩
        rw [List.mem_singleton.mp hnew]
        exact Or.inr ⟨hchecked.code, hpasses, or_and_ne_zero _ hmarked⟩

lemma LoadsReachable.inv (hskip : l.skipConsistencyChecks = false) (h : LoadsReachable l code s) :
    LoadsInv l code s := by
  refine Threads.Reachable.invariant h ⟨by simp, fun _ => trivial⟩ fun s i shared t hinv hact => ?_
  generalize ht : s.thread i = old at hact
  cases hact with
  | begins _ hcode =>
    exact hinv.moved i 0 BitVec.or_zero.symm (fun info hinfo => Or.inl hinfo) hcode
  | goes spurious _ => exact ht ▸ hinv.goes hskip i spurious

/-! ## One thread -/

/-- How a thread that is alone goes on from what has been loaded one after the other. -/
def Loading.Alone (l : Loader) (u : Loadstate) : Loading → Prop
  | .idle => assertLoadinfos l u.loaded 0 = .ok u.loadbits
  | .checking _ => assertLoadinfos l u.loaded 0 = .ok u.loadbits
  | .markingTps info _ => assertLoadinfos l u.loaded 0 = .ok u.loadbits ∧ tpsMismatch l info u.loadbits = none
  | .markingTao info _ => ∃ before, assertLoadinfos l u.loaded 0 = .ok before ∧ tpsMismatch l info before = none ∧
      u.loadbits = before ||| info.tpsBit

/-- What holds throughout if there is one thread. -/
structure AloneInv (l : Loader) (code : Loadinfo → Prop) (s : Threads ι Loadstate Loading) : Prop where
  inv : LoadsInv l code s
  alike : Alike s.shared.loaded
  alone : s.shared.mismatch = none → ∀ i, (s.thread i).Alone l s.shared

lemma forall_alone_moved [Subsingleton ι] (i : ι) {u : Loadstate} {t : Loading} (ht : t.Alone l u) :
    ∀ j, ((s.moved i u t).thread j).Alone l u := by
  refine (forall_moved fun _ (t : Loading) => t.Alone l u).mpr ⟨ht, fun j hj => ?_⟩
  exact absurd (Subsingleton.elim j i) hj

lemma AloneInv.goes [Subsingleton ι] (hskip : l.skipConsistencyChecks = false) (h : AloneInv l code s) (i : ι)
    (spurious : Bool) (hgoing : s.shared.mismatch = none) :
    AloneInv l code
      (s.moved i ((s.thread i).step l spurious s.shared).1 ((s.thread i).step l spurious s.shared).2) := by
  have hinv := h.inv.goes hskip i spurious
  have hok := h.inv.ok i
  have halone := h.alone hgoing i
  cases ht : s.thread i with
  | idle =>
    rw [ht] at hinv halone
    exact ⟨hinv, h.alike, fun _ => forall_alone_moved i halone⟩
  | checking info =>
    rw [ht] at hinv halone
    rcases step_checking hskip s.shared info spurious with ⟨mismatch, hstep⟩ | ⟨-, htps, hstep⟩
    · rw [hstep] at hinv ⊢
      exact ⟨hinv, h.alike, fun hnone => absurd hnone (by simp [Loadstate.fail])⟩
    · rw [hstep] at hinv ⊢
      exact ⟨hinv, h.alike, fun _ => forall_alone_moved i ⟨halone, htps⟩⟩
  | markingTps info attempt =>
    rw [ht] at hinv halone hok
    rcases step_markingTps l s.shared spurious hok.2 with ⟨next, -, hstep⟩ | ⟨mismatch, hstep⟩ | ⟨-, hstep⟩
    · rw [hstep] at hinv ⊢
      exact ⟨hinv, h.alike, fun _ => forall_alone_moved i halone⟩
    · rw [hstep] at hinv ⊢
      exact ⟨hinv, h.alike, fun hnone => absurd hnone (by simp [Loadstate.fail])⟩
    · rw [hstep] at hinv ⊢
      exact ⟨hinv, h.alike, fun _ => forall_alone_moved i ⟨_, halone.1, halone.2, rfl⟩⟩
  | markingTao info attempt =>
    rw [ht] at hinv halone hok
    obtain ⟨hchecked, hattempt, htao, -⟩ := hok
    rcases step_markingTao l s.shared spurious hattempt with ⟨next, -, hstep⟩ | ⟨mismatch, hstep⟩ | ⟨hbuild, hstep⟩
    · rw [hstep] at hinv ⊢
      exact ⟨hinv, h.alike, fun _ => forall_alone_moved i halone⟩
    · rw [hstep] at hinv ⊢
      exact ⟨hinv, h.alike, fun hnone => absurd hnone (by simp [Loadstate.fail])⟩
    · rw [hstep] at hinv ⊢
      obtain ⟨before, hbefore, htps, hbits⟩ := halone
      have hpasses : Passes l info := ⟨hchecked.load, hchecked.version, htao, hbuild, hchecked.tps⟩
      have hthis : assertLoadinfo l info before = .ok (s.shared.loadbits ||| info.taoBit) := by
        obtain ⟨-, htps, hnotps⟩ := tpsMismatch_eq_none.mp htps
        exact (assertLoadinfo_eq_ok hskip).mpr ⟨hpasses, htps, hnotps, by rw [hbits, Loadinfo.mark]⟩
      have hall : assertLoadinfos l (s.shared.loaded ++ [info]) 0 = .ok (s.shared.loadbits ||| info.taoBit) :=
        foldlM_concat_eq_ok.mpr ⟨before, hbefore, hthis⟩
      exact ⟨hinv, ((assertLoadinfos_eq_ok hskip).mp hall).2.1, fun _ => forall_alone_moved i hall⟩

lemma LoadsReachable.aloneInv [Subsingleton ι] (hskip : l.skipConsistencyChecks = false)
    (h : LoadsReachable l code s) : AloneInv l code s := by
  refine Threads.Reachable.invariant h ?_ fun s i shared t hinv hact => ?_
  · exact ⟨LoadsReachable.inv hskip .start, by simp [Alike], fun _ _ => rfl⟩
  · generalize ht : s.thread i = old at hact
    cases hact with
    | begins hgoing hcode =>
      refine ⟨hinv.inv.moved i 0 BitVec.or_zero.symm (fun info hinfo => Or.inl hinfo) hcode, hinv.alike, fun _ => ?_⟩
      have halone := hinv.alone hgoing i
      rw [ht] at halone
      exact forall_alone_moved i halone
    | goes spurious hgoing => exact ht ▸ hinv.goes hskip i spurious hgoing

/-! ## Two threads -/

/-- There is code with tagged pointers, and code without them, that gets through on its own. -/
def Mixable (l : Loader) (code : Loadinfo → Prop) : Prop :=
  ∃ a b, code a ∧ code b ∧ Passes l a ∧ Passes l b ∧ a.tps = true ∧ b.tps = false

lemma solo_checks (hgoing : u.mismatch = none) (hskip : l.skipConsistencyChecks = false) (hcode : code info)
    (h : Passes l info) (htps : tpsMismatch l info u.loadbits = none) :
    Solo (LoadAct l code) u .idle u (.markingTps info .read) := by
  have hstep : (Loading.checking info).step l false u = (u, .markingTps info .read) := by
    simp only [Loading.step, if_neg (not_not_intro h.load), hskip, h.version, htps]
    rfl
  have hgoes : LoadAct l code u (.checking info) _ _ := .goes false hgoing
  rw [hstep] at hgoes
  exact .step (.begins hgoing hcode) (.step hgoes (.refl _ _))

lemma solo_marksTps (code : Loadinfo → Prop) (hgoing : u.mismatch = none) (h : Passes l info) :
    Solo (LoadAct l code) u (.markingTps info .read) { u with loadbits := u.loadbits ||| info.tpsBit }
      (.markingTao info .read) := by
  have hgoes (attempt : Attempt (BitVec 64)) : LoadAct l code u (.markingTps info attempt) _ _ := .goes false hgoing
  rcases Attempt.alone (· ||| info.tpsBit) u.loadbits with hread | ⟨hread, hcas⟩
  · have hstep := hgoes .read
    simp only [Loading.step, setLoadbit, hread, h.tao, Loadstate.after] at hstep
    exact .step hstep (.refl _ _)
  · have hstep := hgoes .read
    have hstep' := hgoes (.cas u.loadbits)
    simp only [Loading.step, setLoadbit, hread] at hstep
    simp only [Loading.step, setLoadbit, hcas, h.tao, Loadstate.after] at hstep'
    exact .step hstep (.step hstep' (.refl _ _))

lemma solo_marksTao (code : Loadinfo → Prop) (hgoing : u.mismatch = none) (h : Passes l info) :
    Solo (LoadAct l code) u (.markingTao info .read)
      { u with loadbits := u.loadbits ||| info.taoBit, loaded := u.loaded ++ [info] } .idle := by
  have hgoes (attempt : Attempt (BitVec 64)) : LoadAct l code u (.markingTao info attempt) _ _ := .goes false hgoing
  rcases Attempt.alone (· ||| info.taoBit) u.loadbits with hread | ⟨hread, hcas⟩
  · have hstep := hgoes .read
    simp only [Loading.step, setLoadbit, hread, h.build, Loadstate.after] at hstep
    exact .step hstep (.refl _ _)
  · have hstep := hgoes .read
    have hstep' := hgoes (.cas u.loadbits)
    simp only [Loading.step, setLoadbit, hread] at hstep
    simp only [Loading.step, setLoadbit, hcas, h.build, Loadstate.after] at hstep'
    exact .step hstep (.step hstep' (.refl _ _))

lemma solo_loads (code : Loadinfo → Prop) (hgoing : u.mismatch = none) (h : Passes l info) :
    ∃ loadbits, Solo (LoadAct l code) u (.markingTps info .read) ⟨loadbits, u.loaded ++ [info], none⟩ .idle := by
  have htps := solo_marksTps code hgoing h
  have htao := solo_marksTao code (u := { u with loadbits := u.loadbits ||| info.tpsBit }) hgoing h
  exact ⟨_, hgoing ▸ htps.trans htao⟩

lemma LoadsReachable.runs (h : LoadsReachable l code s) (i : ι) {t t' : Loading} {u : Loadstate} (ht : s.thread i = t)
    (hsolo : Solo (LoadAct l code) s.shared t u t') : LoadsReachable l code (s.moved i u t') :=
  Threads.Reachable.solo h (ht ▸ hsolo)

/-- **Two threads that check at the same time** both load. -/
lemma exists_mixed (hskip : l.skipConsistencyChecks = false) {i j : ι} (hij : i ≠ j) (h : Mixable l code) :
    ∃ s : Threads ι Loadstate Loading, LoadsReachable l code s ∧ ¬ Alike s.shared.loaded := by
  obtain ⟨a, b, hcodea, hcodeb, ha, hb, htps, hnotps⟩ := h
  have hclear (info : Loadinfo) (h : Passes l info) : tpsMismatch l info 0 = none :=
    tpsMismatch_eq_none.mpr ⟨h.tps, fun _ => by simp, fun _ => by simp⟩
  have hstart : LoadsReachable l code (⟨⟨0, [], none⟩, fun _ => .idle⟩ : Threads ι _ _) := .start
  have hreada := hstart.runs i rfl (solo_checks rfl hskip hcodea ha (hclear a ha))
  have hreadb := hreada.runs j (moved_ne hij.symm _ _) (solo_checks rfl hskip hcodeb hb (hclear b hb))
  obtain ⟨loadbits, hloadsa⟩ := solo_loads code (u := ⟨0, [], none⟩) rfl ha
  obtain ⟨loadbits', hloadsb⟩ := solo_loads code (u := ⟨loadbits, [a], none⟩) rfl hb
  have hloada := hreadb.runs i ((moved_ne hij _ _).trans (moved_self _ _ _)) hloadsa
  have hloadb := hloada.runs j ((moved_ne hij.symm _ _).trans (moved_self _ _ _)) hloadsb
  refine ⟨_, hloadb, fun halike => ?_⟩
  have := halike a (by simp) b (by simp)
  rw [htps, hnotps] at this
  cases this

/-! ## All threads -/

lemma Loaded.haveTpsLoads {loadbits : BitVec 64} (h : Loaded l code loadbits info) (htps : info.tps = true) :
    loadbits &&& haveTpsLoads ≠ 0 := by
  have hmarked := h.marked
  rwa [Loadinfo.tpsBit, if_pos htps] at hmarked

lemma Loaded.haveNoTpsLoads {loadbits : BitVec 64} (h : Loaded l code loadbits info) (htps : info.tps = false) :
    loadbits &&& haveNoTpsLoads ≠ 0 := by
  have hmarked := h.marked
  rwa [Loadinfo.tpsBit, if_neg (by simp [htps])] at hmarked

lemma exists_of_not_alike {infos : List Loadinfo} (h : ¬ Alike infos) :
    ∃ a ∈ infos, ∃ b ∈ infos, a.tps = true ∧ b.tps = false := by
  simp only [Alike, not_forall] at h
  obtain ⟨a, ha, b, hb, hne⟩ := h
  cases htps : a.tps with
  | true => exact ⟨a, ha, b, hb, htps, by grind⟩
  | false => exact ⟨b, hb, a, ha, by grind, htps⟩

omit [DecidableEq ι] in
lemma LoadsInv.rejects (hskip : l.skipConsistencyChecks = false) (h : LoadsInv l code s)
    (hmixed : ¬ Alike s.shared.loaded) (info : Loadinfo) (spurious : Bool) :
    ((Loading.checking info).step l spurious s.shared).1.mismatch ≠ none := by
  obtain ⟨a, ha, b, hb, htps, hnotps⟩ := exists_of_not_alike hmixed
  rcases step_checking hskip s.shared info spurious with ⟨mismatch, hstep⟩ | ⟨-, hnone, -⟩
  · rw [hstep]
    simp [Loadstate.fail]
  · obtain ⟨-, hno, hhave⟩ := tpsMismatch_eq_none.mp hnone
    cases hinfo : info.tps with
    | true => exact absurd (hno hinfo) ((h.loaded b hb).haveNoTpsLoads hnotps)
    | false => exact absurd (hhave hinfo) ((h.loaded a ha).haveTpsLoads htps)

/-- **Code with and without tagged pointers may be mixed, if two threads load and there is code of both kinds**, and only
then.  Once it is mixed, the next thread that reads the load bits ends the program.  A thread that is alone loads what gets
through one after the other. -/
theorem loads_alike_iff (hskip : l.skipConsistencyChecks = false) :
    ((∀ s : Threads ι Loadstate Loading, LoadsReachable l code s → Alike s.shared.loaded) ↔
        Subsingleton ι ∨ ¬ Mixable l code) ∧
      (∀ s : Threads ι Loadstate Loading, LoadsReachable l code s → ¬ Alike s.shared.loaded →
        ∀ i info spurious, s.thread i = .checking info →
          ((s.thread i).step l spurious s.shared).1.mismatch ≠ none) ∧
      (Subsingleton ι → ∀ s : Threads ι Loadstate Loading, LoadsReachable l code s → s.shared.mismatch = none →
        ∀ i, s.thread i = .idle → assertLoadinfos l s.shared.loaded 0 = .ok s.shared.loadbits) := by
  refine ⟨⟨fun h => ?_, fun h s hs => ?_⟩, fun s hs hmixed i info spurious hi => ?_, fun _ s hs hgoing i hi => ?_⟩
  · by_contra hnot
    rw [not_or, not_not, not_subsingleton_iff_nontrivial] at hnot
    obtain ⟨⟨i, j, hij⟩, hmixable⟩ := hnot
    obtain ⟨s, hs, hmixed⟩ := exists_mixed hskip hij hmixable
    exact hmixed (h s hs)
  · rcases h with hone | hnot
    · exact (hs.aloneInv hskip).alike
    · by_contra hmixed
      obtain ⟨a, ha, b, hb, htps, hnotps⟩ := exists_of_not_alike hmixed
      have hloaded := (hs.inv hskip).loaded
      exact hnot ⟨a, b, (hloaded a ha).code, (hloaded b hb).code, (hloaded a ha).passes, (hloaded b hb).passes, htps,
        hnotps⟩
  · rw [hi]
    exact (hs.inv hskip).rejects hskip hmixed info spurious
  · have halone := (hs.aloneInv hskip).alone hgoing i
    rwa [hi] at halone

/-- Two threads, and any code. -/
theorem loads_alike_iff_two :
    ((∀ s : Threads (Fin 2) Loadstate Loading, LoadsReachable plainLoader (fun _ => True) s → Alike s.shared.loaded) ↔
        Subsingleton (Fin 2) ∨ ¬ Mixable plainLoader fun _ => True) ∧
      (∀ s : Threads (Fin 2) Loadstate Loading, LoadsReachable plainLoader (fun _ => True) s →
        ¬ Alike s.shared.loaded → ∀ i info spurious, s.thread i = .checking info →
          ((s.thread i).step plainLoader spurious s.shared).1.mismatch ≠ none) ∧
      (Subsingleton (Fin 2) → ∀ s : Threads (Fin 2) Loadstate Loading,
        LoadsReachable plainLoader (fun _ => True) s → s.shared.mismatch = none → ∀ i, s.thread i = .idle →
          assertLoadinfos plainLoader s.shared.loaded 0 = .ok s.shared.loadbits) :=
  loads_alike_iff rfl

end MulleObjcRuntime.Loadchecks
