import Mathlib.Data.List.Nodup

/-!
# Stacks of activations

A list of activations of which the first one runs and every other waits for the one before it.  `Above` says which one was
begun after which.
-/

namespace MulleObjcRuntime.Lib.ActivationStack

variable {α : Type} {stack : List α} {a b c : α}

/-- `a` was begun while `b` waited. -/
def Above (stack : List α) (a b : α) : Prop := [a, b].Sublist stack

lemma above_cons : Above (c :: stack) a b ↔ Above stack a b ∨ a = c ∧ b ∈ stack := by
  rw [Above, List.cons_sublist_cons', List.singleton_sublist]
  rfl

lemma above_begin (h : b ∈ stack) : Above (a :: stack) a b := above_cons.2 (Or.inr ⟨rfl, h⟩)

lemma Above.begin (h : Above stack a b) : Above (c :: stack) a b := above_cons.2 (Or.inl h)

lemma Above.end (h : Above (c :: stack) a b) (hc : a ≠ c) : Above stack a b :=
  (above_cons.1 h).resolve_right fun h => hc h.1

lemma not_above_head (h : (b :: stack).Nodup) : ¬ Above (b :: stack) a b := by
  intro hab
  have hb : b ∉ stack := (List.nodup_cons.1 h).1
  rcases above_cons.1 hab with hab | ⟨-, hmem⟩
  · exact hb (hab.subset (by simp))
  · exact hb hmem

end MulleObjcRuntime.Lib.ActivationStack
