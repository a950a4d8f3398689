import Mathlib.Data.List.Basic
import Mathlib.Algebra.Order.Group.Multiset

/-!
# Lists under keys

A `KeyedQueue` is a map from keys to lists, kept as the entries in the order in which they were added.

* `waiting q k` — the list under `k`;
* `add q k a` — append `a` to the list under `k`;
* `remove q k` — the map without the list under `k`;
* `infos_remove` — what is removed and what is left make up what there was.
-/

namespace MulleObjcRuntime.Lib

/-- A map from keys to lists. -/
structure KeyedQueue (K α : Type) where
  entries : List (K × α)
deriving DecidableEq

namespace KeyedQueue

variable {K α : Type} [DecidableEq K] (q : KeyedQueue K α) (k : K) (a : α)

/-- The list under a key. -/
def waiting : List α := (q.entries.filter fun e => e.1 = k).map Prod.snd

/-- Append to the list under a key. -/
def add : KeyedQueue K α := ⟨q.entries ++ [(k, a)]⟩

/-- Take the list under a key out of the map. -/
def remove : KeyedQueue K α := ⟨q.entries.filter fun e => e.1 ≠ k⟩

/-- All elements. -/
def infos : Multiset α := (q.entries.map Prod.snd : List α)

def empty : KeyedQueue K α := ⟨[]⟩

variable {q k a} {k' : K} {b : α}

lemma mem_waiting : b ∈ q.waiting k ↔ (k, b) ∈ q.entries := by
  unfold waiting
  simp only [List.mem_map, List.mem_filter, decide_eq_true_eq]
  constructor
  · rintro ⟨⟨_, _⟩, ⟨h, rfl⟩, rfl⟩
    exact h
  · intro h
    exact ⟨(k, b), ⟨h, rfl⟩, rfl⟩

lemma mem_waiting_add : b ∈ (q.add k' a).waiting k ↔ b ∈ q.waiting k ∨ (k = k' ∧ b = a) := by
  simp [mem_waiting, add]

lemma mem_waiting_remove : b ∈ (q.remove k').waiting k ↔ b ∈ q.waiting k ∧ k ≠ k' := by
  simp [mem_waiting, remove]

omit [DecidableEq K] in
lemma mem_infos : b ∈ q.infos ↔ ∃ k, (k, b) ∈ q.entries := by simp [infos]

lemma mem_infos_iff : b ∈ q.infos ↔ ∃ k, b ∈ q.waiting k := by
  simp only [mem_infos, mem_waiting]

omit [DecidableEq K] in
lemma infos_add : (q.add k a).infos = a ::ₘ q.infos := by
  unfold infos add
  rw [List.map_append, ← Multiset.coe_add, add_comm]
  rfl

/-- **What is removed and what is left make up what there was.** -/
lemma infos_remove (q : KeyedQueue K α) (k : K) : (q.waiting k : Multiset α) + (q.remove k).infos = q.infos := by
  unfold waiting remove infos
  rw [Multiset.coe_add, ← List.map_append, Multiset.coe_eq_coe]
  refine List.Perm.map _ ?_
  have := List.filter_append_perm (fun e : K × α => decide (e.1 = k)) q.entries
  simpa using this

end KeyedQueue

end MulleObjcRuntime.Lib
