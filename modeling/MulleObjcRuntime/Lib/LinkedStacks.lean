import Mathlib.Data.List.Basic
import Mathlib.Logic.Function.Basic

/-!
# Stacks that are linked through one memory

Any number of stacks, each with a pointer to its topmost cell.  A cell has a pointer to the one below it.

* `Spells` — the cells of one stack, from a pointer on;
* `Linked` — the lists of cells of all stacks;
* `Linked.push`, `Linked.pop`, `Linked.write` — what becomes of the lists.
-/

namespace MulleObjcRuntime.Lib.LinkedStacks

variable {κ α : Type}

/-- These are the cells from a pointer on. -/
def Spells (below : α → Option α) : Option α → List α → Prop
  | top, [] => top = none
  | top, a :: l => top = some a ∧ Spells below (below a) l

/-- Each stack has these cells. -/
def Linked (top : κ → Option α) (below : α → Option α) (cells : κ → List α) : Prop :=
  ∀ k, Spells below (top k) (cells k)

variable {top : κ → Option α} {below below' : α → Option α} {cells : κ → List α} {k : κ} {a : α} {l : List α}

lemma spells_head {p : Option α} (h : Spells below p l) : p = l.head? := by
  cases l with
  | nil => exact h
  | cons a l => exact h.1

lemma spells_congr {p : Option α} (h : ∀ a ∈ l, below' a = below a) : Spells below' p l ↔ Spells below p l := by
  induction l generalizing p with
  | nil => rfl
  | cons a l ih =>
    rw [Spells, Spells, h a List.mem_cons_self, ih fun b hb => h b (List.mem_cons_of_mem a hb)]

lemma Linked.top_eq (h : Linked top below cells) (k : κ) : top k = (cells k).head? := spells_head (h k)

lemma Linked.write [DecidableEq α] (h : Linked top below cells) (hfresh : ∀ k, a ∉ cells k) (p : Option α) :
    Linked top (Function.update below a p) cells := by
  intro k
  refine (spells_congr fun b hb => ?_).2 (h k)
  rw [Function.update_of_ne]
  rintro rfl
  exact hfresh k hb

variable [DecidableEq κ]

/-- A cell that is in no stack is pushed. -/
theorem Linked.push [DecidableEq α] (h : Linked top below cells) (hfresh : ∀ k, a ∉ cells k) (k : κ) :
    Linked (Function.update top k (some a)) (Function.update below a (top k))
      (Function.update cells k (a :: cells k)) := by
  intro j
  by_cases hj : j = k
  · subst hj
    rw [Function.update_self, Function.update_self]
    exact ⟨rfl, by rw [Function.update_self]; exact h.write hfresh _ j⟩
  · rw [Function.update_of_ne hj, Function.update_of_ne hj]
    exact h.write hfresh _ j

/-- The topmost cell is popped. -/
theorem Linked.pop (h : Linked top below cells) (hstack : cells k = a :: l) :
    Linked (Function.update top k (below a)) below (Function.update cells k l) := by
  intro j
  by_cases hj : j = k
  · subst hj
    rw [Function.update_self, Function.update_self]
    have hspells := h j
    rw [hstack] at hspells
    exact hspells.2
  · rw [Function.update_of_ne hj, Function.update_of_ne hj]
    exact h j

end MulleObjcRuntime.Lib.LinkedStacks
