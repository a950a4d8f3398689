import MulleObjcRuntime.Lib.Runs
import MulleObjcRuntime.Uniqueids.Defs

/-!
# Who frees the unique id arrays

* `Operation`, `step` — arrays that are allocated, set and added to;
* `Kept`, `FreedOnce` — what is installed is not freed, and every array that was installed is freed once in the end;
* `PairInv` — each array that was installed is either installed and not freed, or freed once;
* `Leaked` — an array that was replaced by a set, which nothing frees any more;
* `kept_and_freedOnce_iff` — both hold of a run exactly when no set changes anything.
-/

namespace MulleObjcRuntime.Uniqueids

open Lib.Runs

/-! ## Operations -/

/-- An operation on the id arrays of a class pair. -/
inductive Operation
  | alloc (entries : List ℕ)
  | set (p : Pointer) (array : ℕ)
  | add (p : Pointer) (uniqueids : List ℕ) (sort : Bool) (failures : ℕ)
deriving DecidableEq, Repr

/-- What an operation does.  The caller allocates an array before setting it, and does not set an array that was
freed. -/
def step (s : Pair) : Operation → Option Pair
  | .alloc entries => some (s.alloc ⟨entries⟩)
  | .set p array => if array ≤ s.allocated ∧ array ∉ s.freed then some (setUniqueidarray p array s) else none
  | .add p uniqueids sort failures => some (addUniqueidarrayIds p uniqueids sort failures s)

/-- What is installed has not been freed. -/
def Kept (s : Pair) : Prop := s.pointer .protocolids ∉ s.freed ∧ s.pointer .categoryids ∉ s.freed

/-- Every array that was ever installed, but for the shared empty one, has been freed exactly once. -/
def FreedOnce (s : Pair) : Prop := ∀ a ∈ s.installed, a ≠ emptyUniqueidarray → s.freed.count a = 1

/-- A set installs the empty array where the empty array is installed. -/
def SetsNothing (s : Pair) : Operation → Prop
  | .set p array => array = emptyUniqueidarray ∧ s.pointer p = emptyUniqueidarray
  | _ => True

instance : DecidablePred Kept := fun _ => inferInstanceAs (Decidable (_ ∧ _))

instance : DecidablePred FreedOnce := fun s => inferInstanceAs (Decidable (∀ a ∈ s.installed, _))

instance (s : Pair) : DecidablePred (SetsNothing s)
  | .set _ _ => inferInstanceAs (Decidable (_ ∧ _))
  | .alloc _ => inferInstanceAs (Decidable True)
  | .add _ _ _ _ => inferInstanceAs (Decidable True)

/-! ## The invariant -/

/-- Each array that was installed is either installed and not freed, or freed once. -/
structure PairInv (s : Pair) : Prop where
  pointer_le : ∀ p, s.pointer p ≤ s.allocated
  installed_le : ∀ a ∈ s.installed, a ≤ s.allocated
  empty_not_mem_freed : emptyUniqueidarray ∉ s.freed
  freed_le : ∀ a ∈ s.freed, a ≤ s.allocated
  pointer_not_mem_freed : ∀ p, s.pointer p ∉ s.freed
  pointer_mem_installed : ∀ p, s.pointer p ≠ emptyUniqueidarray → s.pointer p ∈ s.installed
  apart : ∀ p q, p ≠ q → s.pointer p ≠ emptyUniqueidarray → s.pointer p ≠ s.pointer q
  accounted : ∀ a ∈ s.installed, a ≠ emptyUniqueidarray → (∃ p, s.pointer p = a) ∨ s.freed.count a = 1

variable {s s' : Pair} {a : ℕ} {p : Pointer}

lemma step_set {array : ℕ} (h : step s (.set p array) = some s') : s' = setUniqueidarray p array s := by
  simp only [step, Option.ite_none_right_eq_some, Option.some.injEq] at h
  exact h.2.symm

lemma inv_plusinit : PairInv Pair.plusinit := by
  constructor <;> simp [Pair.plusinit, emptyUniqueidarray]

lemma PairInv.kept (h : PairInv s) : Kept s := ⟨h.pointer_not_mem_freed _, h.pointer_not_mem_freed _⟩

lemma PairInv.alloc (h : PairInv s) (b : Uniqueidarray) : PairInv (s.alloc b) where
  pointer_le p := Nat.le_succ_of_le (h.pointer_le p)
  installed_le a ha := Nat.le_succ_of_le (h.installed_le a ha)
  empty_not_mem_freed := h.empty_not_mem_freed
  freed_le a ha := Nat.le_succ_of_le (h.freed_le a ha)
  pointer_not_mem_freed := h.pointer_not_mem_freed
  pointer_mem_installed := h.pointer_mem_installed
  apart := h.apart
  accounted := h.accounted

/-- The copy of a failed attempt was never installed. -/
lemma PairInv.failedAttempt (s : Pair) (b : Uniqueidarray) (h : PairInv s) :
    PairInv ((s.alloc b).free (s.allocated + 1)) where
  pointer_le := (h.alloc b).pointer_le
  installed_le := (h.alloc b).installed_le
  empty_not_mem_freed := List.not_mem_cons_of_ne_of_not_mem (Nat.succ_ne_zero _).symm h.empty_not_mem_freed
  freed_le a ha := by
    rcases List.mem_cons.1 ha with rfl | ha
    · exact le_refl _
    · exact (h.alloc b).freed_le a ha
  pointer_not_mem_freed p := by
    have hle : s.pointer p ≤ s.allocated := h.pointer_le p
    exact List.not_mem_cons_of_ne_of_not_mem (by show s.pointer p ≠ _; omega) (h.pointer_not_mem_freed p)
  pointer_mem_installed := h.pointer_mem_installed
  apart := h.apart
  accounted a ha hne := by
    have hle : a ≤ s.allocated := h.installed_le a ha
    refine (h.accounted a ha hne).imp_right fun hcount => ?_
    have hnew : s.allocated + 1 ≠ a := by omega
    exact (List.count_cons_of_ne hnew).trans hcount

/-- A new array is installed, and the one that was is freed unless it is the empty one. -/
lemma PairInv.replace (h : PairInv s) (b : Uniqueidarray) (p : Pointer) :
    PairInv (((s.alloc b).install p (s.allocated + 1)).freeUnlessEmpty (s.pointer p)) := by
  obtain ⟨t, ht⟩ : ∃ t, t = (s.alloc b).install p (s.allocated + 1) := ⟨_, rfl⟩
  have hself : t.pointer p = s.allocated + 1 := by rw [ht, Pair.install_pointer_self]
  have hother (q : Pointer) (hq : q ≠ p) : t.pointer q = s.pointer q := by
    rw [ht, Pair.install_pointer_of_ne _ hq]
    rfl
  have hinstalled (a : ℕ) : a ∈ t.installed ↔ a = s.allocated + 1 ∨ a ∈ s.installed := by
    rw [ht]
    exact List.mem_cons
  have hallocated : t.allocated = s.allocated + 1 := by rw [ht]; rfl
  have hfreed : t.freed = s.freed := by rw [ht]; rfl
  have hold := h.pointer_le p
  rw [← ht]
  constructor
  case pointer_le =>
    intro q
    rw [Pair.freeUnlessEmpty_pointer, Pair.freeUnlessEmpty_allocated, hallocated]
    by_cases hq : q = p
    · rw [hq, hself]
    · rw [hother q hq]
      exact Nat.le_succ_of_le (h.pointer_le q)
  case installed_le =>
    intro a ha
    rw [Pair.freeUnlessEmpty_installed, hinstalled] at ha
    rw [Pair.freeUnlessEmpty_allocated, hallocated]
    rcases ha with rfl | ha
    · exact le_refl _
    · exact Nat.le_succ_of_le (h.installed_le a ha)
  case empty_not_mem_freed =>
    rw [Pair.mem_freeUnlessEmpty_freed, hfreed]
    rintro (⟨hne, heq⟩ | hmem)
    · exact hne heq.symm
    · exact h.empty_not_mem_freed hmem
  case freed_le =>
    intro a ha
    rw [Pair.mem_freeUnlessEmpty_freed, hfreed] at ha
    rw [Pair.freeUnlessEmpty_allocated, hallocated]
    rcases ha with ⟨-, rfl⟩ | ha
    · exact Nat.le_succ_of_le hold
    · exact Nat.le_succ_of_le (h.freed_le a ha)
  case pointer_not_mem_freed =>
    intro q
    rw [Pair.mem_freeUnlessEmpty_freed, Pair.freeUnlessEmpty_pointer, hfreed]
    by_cases hq : q = p
    · rw [hq, hself]
      rintro (⟨-, heq⟩ | hmem)
      · omega
      · have := h.freed_le _ hmem
        omega
    · rw [hother q hq]
      rintro (⟨hne, heq⟩ | hmem)
      · exact h.apart p q (Ne.symm hq) hne heq.symm
      · exact h.pointer_not_mem_freed q hmem
  case pointer_mem_installed =>
    intro q hne
    rw [Pair.freeUnlessEmpty_pointer] at hne ⊢
    rw [Pair.freeUnlessEmpty_installed, hinstalled]
    by_cases hq : q = p
    · rw [hq, hself]
      exact Or.inl rfl
    · rw [hother q hq] at hne ⊢
      exact Or.inr (h.pointer_mem_installed q hne)
  case apart =>
    intro q r hqr hne
    rw [Pair.freeUnlessEmpty_pointer] at hne ⊢
    have hq := h.pointer_le q
    have hr := h.pointer_le r
    by_cases hqp : q = p
    · rw [hqp, hself, hother r (hqp ▸ hqr.symm)]
      omega
    · rw [hother q hqp] at hne ⊢
      by_cases hrp : r = p
      · rw [hrp, hself]
        omega
      · rw [hother r hrp]
        exact h.apart q r hqr hne
  case accounted =>
    intro a ha hne
    rw [Pair.freeUnlessEmpty_installed, hinstalled] at ha
    rw [Pair.freeUnlessEmpty_pointer, Pair.count_freeUnlessEmpty_freed _ hne, hfreed]
    rcases ha with rfl | ha
    · exact Or.inl ⟨p, hself⟩
    by_cases ha' : s.pointer p = a
    · have hzero : s.freed.count a = 0 := List.count_eq_zero.2 (ha' ▸ h.pointer_not_mem_freed p)
      rw [if_pos ha', hzero]
      exact Or.inr rfl
    · rw [if_neg ha', Nat.add_zero]
      refine (h.accounted a ha hne).imp_left ?_
      rintro ⟨q, rfl⟩
      exact ⟨q, hother q fun hq => ha' (congrArg s.pointer hq.symm)⟩

lemma PairInv.addUniqueidarrayIds (h : PairInv s) (p : Pointer) (uniqueids : List ℕ) (sort : Bool) (failures : ℕ) :
    PairInv (addUniqueidarrayIds p uniqueids sort failures s) :=
  (failedAttempts_keeps PairInv.failedAttempt p uniqueids sort failures h).replace _ p

/-- A set of the empty array where it is installed leaves everything as it is. -/
lemma PairInv.set_empty (h : PairInv s) (hp : s.pointer p = emptyUniqueidarray) :
    PairInv (setUniqueidarray p emptyUniqueidarray s) := by
  have hpointer : (setUniqueidarray p emptyUniqueidarray s).pointer = s.pointer := by
    unfold setUniqueidarray
    rw [Pair.freeUnlessEmpty_pointer]
    exact Function.update_eq_self_iff.2 hp.symm
  constructor
  case pointer_le => exact hpointer ▸ h.pointer_le
  case installed_le =>
    intro a ha
    rcases List.mem_cons.1 ha with rfl | ha
    · exact Nat.zero_le _
    · exact h.installed_le a ha
  case empty_not_mem_freed => exact h.empty_not_mem_freed
  case freed_le => exact h.freed_le
  case pointer_not_mem_freed => exact hpointer ▸ h.pointer_not_mem_freed
  case pointer_mem_installed =>
    intro q hne
    rw [hpointer] at hne ⊢
    exact List.mem_cons_of_mem _ (h.pointer_mem_installed q hne)
  case apart => exact hpointer ▸ h.apart
  case accounted =>
    intro a ha hne
    rw [hpointer]
    exact h.accounted a ((List.mem_cons.1 ha).resolve_left hne) hne

/-- **The step lemma of the invariant.** -/
lemma PairInv.step {op : Operation} (h : PairInv s) (hop : SetsNothing s op) (hstep : step s op = some s') :
    PairInv s' := by
  cases op with
  | alloc entries =>
    cases hstep
    exact h.alloc _
  | set p array =>
    obtain ⟨rfl, hp⟩ := hop
    rw [step_set hstep]
    exact h.set_empty hp
  | add p uniqueids sort failures =>
    cases hstep
    exact h.addUniqueidarrayIds p uniqueids sort failures

/-- What is still installed in the end is freed then, and what is not was freed before. -/
lemma PairInv.freedOnce_plusdone (h : PairInv s) : FreedOnce (plusdone s) := by
  intro a ha hne
  unfold plusdone at ha ⊢
  rw [Pair.freeUnlessEmpty_installed, Pair.freeUnlessEmpty_installed] at ha
  rw [Pair.count_freeUnlessEmpty_freed _ hne, Pair.count_freeUnlessEmpty_freed _ hne]
  have hzero (p : Pointer) (hp : s.pointer p = a) : s.freed.count a = 0 :=
    List.count_eq_zero.2 (hp ▸ h.pointer_not_mem_freed p)
  by_cases hproto : s.pointer .protocolids = a
  · have hcat : s.pointer .categoryids ≠ a := fun hcat =>
      h.apart .protocolids .categoryids (by decide) (hproto ▸ hne) (hproto.trans hcat.symm)
    rw [if_pos hproto, if_neg hcat, hzero _ hproto]
  · by_cases hcat : s.pointer .categoryids = a
    · rw [if_neg hproto, if_pos hcat, hzero _ hcat]
    · rw [if_neg hproto, if_neg hcat]
      refine (h.accounted a ha hne).resolve_left ?_
      rintro ⟨p, hp⟩
      cases p
      · exact hproto hp
      · exact hcat hp

/-! ## Leaks -/

/-- The array was installed, and it neither is installed nor was it freed. -/
structure Leaked (a : ℕ) (s : Pair) : Prop where
  ne_empty : a ≠ emptyUniqueidarray
  le_allocated : a ≤ s.allocated
  mem_installed : a ∈ s.installed
  not_mem_freed : a ∉ s.freed
  pointer_ne : ∀ p, s.pointer p ≠ a

lemma Leaked.failedAttempt (s : Pair) (b : Uniqueidarray) (h : Leaked a s) :
    Leaked a ((s.alloc b).free (s.allocated + 1)) where
  ne_empty := h.ne_empty
  le_allocated := Nat.le_succ_of_le h.le_allocated
  mem_installed := h.mem_installed
  not_mem_freed := by
    have := h.le_allocated
    exact List.not_mem_cons_of_ne_of_not_mem (by omega) h.not_mem_freed
  pointer_ne := h.pointer_ne

lemma Leaked.replace (h : Leaked a s) (b : Uniqueidarray) (p : Pointer) :
    Leaked a (((s.alloc b).install p (s.allocated + 1)).freeUnlessEmpty (s.pointer p)) := by
  have hle := h.le_allocated
  constructor
  case ne_empty => exact h.ne_empty
  case le_allocated =>
    rw [Pair.freeUnlessEmpty_allocated]
    exact Nat.le_succ_of_le hle
  case mem_installed =>
    rw [Pair.freeUnlessEmpty_installed]
    exact List.mem_cons_of_mem _ h.mem_installed
  case not_mem_freed =>
    rw [Pair.mem_freeUnlessEmpty_freed]
    rintro (⟨-, heq⟩ | hmem)
    · exact h.pointer_ne p heq.symm
    · exact h.not_mem_freed hmem
  case pointer_ne =>
    intro q
    rw [Pair.freeUnlessEmpty_pointer]
    by_cases hq : q = p
    · rw [hq, Pair.install_pointer_self]
      omega
    · rw [Pair.install_pointer_of_ne _ hq]
      exact h.pointer_ne q

lemma not_kept_set {array : ℕ} (harray : array ≠ emptyUniqueidarray) : ¬ Kept (setUniqueidarray p array s) := by
  have hpointer : (setUniqueidarray p array s).pointer p = array := by
    unfold setUniqueidarray
    rw [Pair.freeUnlessEmpty_pointer, Pair.install_pointer_self]
  have hmem : (setUniqueidarray p array s).pointer p ∈ (setUniqueidarray p array s).freed := by
    rw [hpointer]
    exact Pair.mem_freeUnlessEmpty_freed.2 (Or.inl ⟨harray, rfl⟩)
  rintro ⟨hproto, hcat⟩
  cases p
  · exact hproto hmem
  · exact hcat hmem

/-- Where what is installed is kept, a leak stays. -/
lemma Leaked.step {op : Operation} (h : Leaked a s) (hstep : step s op = some s') (hkept : Kept s') : Leaked a s' := by
  cases op with
  | alloc entries =>
    cases hstep
    exact ⟨h.ne_empty, Nat.le_succ_of_le h.le_allocated, h.mem_installed, h.not_mem_freed, h.pointer_ne⟩
  | set p array =>
    rw [step_set hstep] at hkept ⊢
    have harray : array = emptyUniqueidarray := by
      by_contra harray
      exact not_kept_set harray hkept
    subst harray
    refine ⟨h.ne_empty, h.le_allocated, List.mem_cons_of_mem _ h.mem_installed, h.not_mem_freed, fun q => ?_⟩
    unfold setUniqueidarray
    rw [Pair.freeUnlessEmpty_pointer]
    by_cases hq : q = p
    · rw [hq, Pair.install_pointer_self]
      exact h.ne_empty.symm
    · rw [Pair.install_pointer_of_ne _ hq]
      exact h.pointer_ne q
  | add p uniqueids sort failures =>
    cases hstep
    exact (failedAttempts_keeps Leaked.failedAttempt p uniqueids sort failures h).replace _ p

lemma Leaked.run {ops : List Operation} (h : Leaked a s) (hkept : Throughout Uniqueids.step Kept s ops)
    (hrun : Lib.Runs.run Uniqueids.step s ops = some s') : Leaked a s' := by
  induction ops generalizing s with
  | nil =>
    cases hrun
    exact h
  | cons op ops ih =>
    obtain ⟨t, ht, hrest⟩ := run_cons_eq_some.1 hrun
    have htail := hkept.2 t ht
    exact ih (h.step ht htail.head) htail hrest

lemma Leaked.not_freedOnce_plusdone (h : Leaked a s) : ¬ FreedOnce (plusdone s) := by
  intro hfreed
  have hmem : a ∈ (plusdone s).installed := by
    unfold plusdone
    rw [Pair.freeUnlessEmpty_installed, Pair.freeUnlessEmpty_installed]
    exact h.mem_installed
  have honce := hfreed a hmem h.ne_empty
  unfold plusdone at honce
  rw [Pair.count_freeUnlessEmpty_freed _ h.ne_empty, Pair.count_freeUnlessEmpty_freed _ h.ne_empty,
    if_neg (h.pointer_ne _), if_neg (h.pointer_ne _), List.count_eq_zero.2 h.not_mem_freed] at honce
  cases honce

lemma PairInv.leaked_set (h : PairInv s) (hp : s.pointer p ≠ emptyUniqueidarray) :
    Leaked (s.pointer p) (setUniqueidarray p emptyUniqueidarray s) := by
  refine ⟨hp, h.pointer_le p, List.mem_cons_of_mem _ (h.pointer_mem_installed p hp), h.pointer_not_mem_freed p,
    fun q => ?_⟩
  unfold setUniqueidarray
  rw [Pair.freeUnlessEmpty_pointer]
  by_cases hq : q = p
  · rw [hq, Pair.install_pointer_self]
    exact hp.symm
  · rw [Pair.install_pointer_of_ne _ hq]
    exact (h.apart p q (Ne.symm hq) hp).symm

/-! ## Whole runs -/

/-- Of a run that keeps what is installed and frees everything once, no set changes anything. -/
lemma eachStep_setsNothing {ops : List Operation} (h : PairInv s) (hrun : run step s ops = some s')
    (hkept : Throughout step Kept s ops) (hfreed : FreedOnce (plusdone s')) : EachStep step SetsNothing s ops := by
  induction ops generalizing s with
  | nil => trivial
  | cons op ops ih =>
    obtain ⟨t, ht, hrest⟩ := run_cons_eq_some.1 hrun
    have htail := hkept.2 t ht
    have hop : SetsNothing s op := by
      cases op with
      | alloc entries => trivial
      | add p uniqueids sort failures => trivial
      | set p array =>
        have htset := step_set ht
        by_contra hop
        by_cases harray : array = emptyUniqueidarray
        · subst harray
          have hp : s.pointer p ≠ emptyUniqueidarray := fun hp => hop ⟨rfl, hp⟩
          have hleaked : Leaked (s.pointer p) t := htset ▸ h.leaked_set hp
          exact (hleaked.run htail hrest).not_freedOnce_plusdone hfreed
        · exact not_kept_set harray (htset ▸ htail.head)
    refine ⟨hop, fun t' ht' => ?_⟩
    cases ht.symm.trans ht'
    exact ih (h.step hop ht) hrest htail

/-- **What is installed is kept, and every array is freed once in the end, exactly when no set changes anything.** -/
theorem kept_and_freedOnce_iff {ops : List Operation} {s : Pair} (hrun : run step Pair.plusinit ops = some s) :
    (Throughout step Kept Pair.plusinit ops ∧ FreedOnce (plusdone s)) ↔
      EachStep step SetsNothing Pair.plusinit ops := by
  constructor
  · rintro ⟨hkept, hfreed⟩
    exact eachStep_setsNothing inv_plusinit hrun hkept hfreed
  · intro hsets
    have hinv := hsets.throughout inv_plusinit fun s op t h hop ht => h.step hop ht
    exact ⟨hinv.mono fun t h => h.kept, (hinv.last hrun).freedOnce_plusdone⟩

/-- Ids are added to both arrays, to one of them twice and with a failure. -/
theorem kept_and_freedOnce_adds :
    ∃ s, run step Pair.plusinit [.add .protocolids [7, 5] true 0, .add .categoryids [3] true 1,
      .add .protocolids [6] true 0] = some s ∧ Throughout step Kept Pair.plusinit [.add .protocolids [7, 5] true 0,
      .add .categoryids [3] true 1, .add .protocolids [6] true 0] ∧ FreedOnce (plusdone s) :=
  ⟨_, rfl, (kept_and_freedOnce_iff rfl).2 (by decide)⟩

/-- An array with one id is set as that of the protocols: it is freed at once, and once more in the end. -/
theorem not_kept_set_protocolids :
    ∃ s, run step Pair.plusinit [.alloc [5], .set .protocolids 1] = some s ∧ ¬ Kept s ∧ ¬ FreedOnce (plusdone s) :=
  ⟨_, rfl, by decide, by decide⟩

end MulleObjcRuntime.Uniqueids
