import Mathlib.Algebra.BigOperators.Group.Finset.Piecewise
import Mathlib.Algebra.Order.BigOperators.Group.Finset
import Mathlib.Algebra.Order.Ring.Nat
import Mathlib.Data.Fintype.BigOperators

/-!
# Interleaved threads

Threads take turns: a step of one thread changes the shared memory and its own state, and what it finds there is all it
depends on.

* `Threads.Reachable` — what comes about by any interleaving of the threads' steps;
* `Threads.Reachable.invariant` — what every step keeps, holds of every reachable state;
* `total` — a number that every thread has, added up;
* `Solo` — several steps of a thread in a row, which are a special interleaving.
-/

namespace MulleObjcRuntime.Lib.Interleaving

/-- Shared memory, and the state of every thread. -/
@[ext]
structure Threads (ι S L : Type) where
  shared : S
  thread : ι → L

variable {ι S L : Type} [DecidableEq ι] {act : ι → S → L → S → L → Prop} {s start : Threads ι S L}

/-- After a step of the thread `i`. -/
def Threads.moved (s : Threads ι S L) (i : ι) (shared : S) (l : L) : Threads ι S L :=
  ⟨shared, Function.update s.thread i l⟩

@[simp]
lemma moved_shared (i : ι) (shared : S) (l : L) : (s.moved i shared l).shared = shared := rfl

lemma moved_self (i : ι) (shared : S) (l : L) : (s.moved i shared l).thread i = l := by
  simp [Threads.moved]

lemma moved_ne {i j : ι} (h : j ≠ i) (shared : S) (l : L) : (s.moved i shared l).thread j = s.thread j := by
  simp [Threads.moved, h]

lemma forall_moved (P : ι → L → Prop) {i : ι} {shared : S} {l : L} :
    (∀ j, P j ((s.moved i shared l).thread j)) ↔ P i l ∧ ∀ j ≠ i, P j (s.thread j) :=
  Function.forall_update_iff s.thread P

/-- One step of one thread. -/
def Threads.Step (act : ι → S → L → S → L → Prop) (s s' : Threads ι S L) : Prop :=
  ∃ i shared l, act i s.shared (s.thread i) shared l ∧ s' = s.moved i shared l

/-- What comes about by any interleaving. -/
inductive Threads.Reachable (act : ι → S → L → S → L → Prop) (start : Threads ι S L) : Threads ι S L → Prop
  | start : Reachable act start start
  | step {s s' : Threads ι S L} (h : Reachable act start s) (hstep : s.Step act s') : Reachable act start s'

/-- **What every step keeps holds throughout.** -/
theorem Threads.Reachable.invariant {Inv : Threads ι S L → Prop} (h : Reachable act start s) (hstart : Inv start)
    (hstep : ∀ (s : Threads ι S L) i shared l, Inv s → act i s.shared (s.thread i) shared l →
      Inv (s.moved i shared l)) : Inv s := by
  induction h with
  | start => exact hstart
  | step _ hact ih =>
    obtain ⟨i, shared, l, hact, rfl⟩ := hact
    exact hstep _ i shared l ih hact

lemma Threads.Reachable.trans {s' : Threads ι S L} (h : Reachable act start s) (h' : Reachable act s s') :
    Reachable act start s' := by
  induction h' with
  | start => exact h
  | step _ hstep ih => exact ih.step hstep

/-! ## Adding up -/

/-- The numbers of all threads, added up. -/
def Threads.total [Fintype ι] (s : Threads ι S L) (weight : L → ℕ) : ℕ := ∑ i, weight (s.thread i)

lemma total_moved [Fintype ι] (weight : L → ℕ) (i : ι) (shared : S) (l : L) :
    (s.moved i shared l).total weight + weight (s.thread i) = s.total weight + weight l := by
  have hnumbers : ∀ j, weight ((s.moved i shared l).thread j) =
      Function.update (fun j => weight (s.thread j)) i (weight l) j := by
    intro j
    by_cases hji : j = i
    · subst hji
      rw [moved_self, Function.update_self]
    · rw [moved_ne hji, Function.update_of_ne hji]
  unfold Threads.total
  simp only [hnumbers]
  rw [Finset.sum_update_of_mem (Finset.mem_univ i), Finset.sdiff_singleton_eq_erase]
  have := Finset.sum_erase_add Finset.univ (fun j => weight (s.thread j)) (Finset.mem_univ i)
  omega

omit [DecidableEq ι] in
lemma total_le [Fintype ι] {weight : L → ℕ} {k : ℕ} (h : ∀ l, weight l ≤ k) :
    s.total weight ≤ Fintype.card ι * k := by
  calc s.total weight ≤ ∑ _ : ι, k := Finset.sum_le_sum fun i _ => h (s.thread i)
    _ = Fintype.card ι * k := by simp

omit [DecidableEq ι] in
lemma total_add [Fintype ι] (weight weight' : L → ℕ) :
    s.total (fun l => weight l + weight' l) = s.total weight + s.total weight' :=
  Finset.sum_add_distrib

omit [DecidableEq ι] in
lemma total_eq_zero [Fintype ι] {weight : L → ℕ} (h : ∀ i, weight (s.thread i) = 0) : s.total weight = 0 :=
  Finset.sum_eq_zero fun i _ => h i

/-! ## A thread on its own -/

/-- Steps of one thread in a row. -/
inductive Solo (act : S → L → S → L → Prop) : S → L → S → L → Prop
  | refl (shared : S) (l : L) : Solo act shared l shared l
  | step {s₁ s₂ s₃ : S} {l₁ l₂ l₃ : L} (hact : act s₁ l₁ s₂ l₂) (h : Solo act s₂ l₂ s₃ l₃) : Solo act s₁ l₁ s₃ l₃

omit [DecidableEq ι] in
lemma Solo.trans {act : S → L → S → L → Prop} {s₁ s₂ s₃ : S} {l₁ l₂ l₃ : L} (h : Solo act s₁ l₁ s₂ l₂)
    (h' : Solo act s₂ l₂ s₃ l₃) : Solo act s₁ l₁ s₃ l₃ := by
  induction h with
  | refl => exact h'
  | step hact _ ih => exact Solo.step hact (ih h')

/-- **While one thread runs, the others stay where they are.** -/
theorem Threads.Reachable.solo (h : Reachable act start s) {i : ι} {shared : S} {l : L}
    (hsolo : Solo (act i) s.shared (s.thread i) shared l) : Reachable act start (s.moved i shared l) := by
  obtain ⟨s₀, th⟩ := s
  simp only at hsolo
  generalize hl : th i = l₀ at hsolo
  induction hsolo generalizing th with
  | refl shared l =>
    subst hl
    rwa [Threads.moved, Function.update_eq_self]
  | step hact _ ih =>
    subst hl
    have hnext := h.step ⟨i, _, _, hact, rfl⟩
    have := ih _ hnext (Function.update_self i _ th)
    rwa [Threads.moved, Function.update_idem] at this

end MulleObjcRuntime.Lib.Interleaving
