import Mathlib.Data.List.Induction

/-!
# Logs of a monotone rule system

Items enter a log one after the other, each when it is `Ready` for what the log holds so far.

* `Grounded` — every item of the log was ready when it entered;
* `Saturated` — no item outside the log is ready;
* `Grounded.subset` — a grounded log is part of every saturated one, so that two logs that are both hold the same
  items, in whatever order they were offered.
-/

namespace MulleObjcRuntime.Lib.Closure

variable {α : Type} (Ready : List α → α → Prop)

/-- An item stays ready when the log grows. -/
def Monotone : Prop := ∀ log log' x, log ⊆ log' → Ready log x → Ready log' x

/-- Every item of the log was ready when it entered. -/
def Grounded (log : List α) : Prop := ∀ pre x post, log = pre ++ x :: post → Ready pre x

/-- Every item that is ready has entered the log. -/
def Saturated (items log : List α) : Prop := ∀ x ∈ items, Ready log x → x ∈ log

variable {Ready} {items log log' : List α} {x : α}

lemma Grounded.nil : Grounded Ready [] := by
  intro pre y post h
  simp at h

lemma Grounded.concat (h : Grounded Ready log) (hx : Ready log x) : Grounded Ready (log ++ [x]) := by
  intro pre y post hlog
  rcases List.eq_nil_or_concat post with rfl | ⟨post, z, rfl⟩
  · obtain ⟨rfl, hy⟩ := List.append_inj' hlog rfl
    cases hy
    exact hx
  · refine h pre y post ?_
    have h2 : log ++ [x] = (pre ++ y :: post) ++ [z] := by simpa using hlog
    exact (List.append_inj' h2 rfl).1

/-- **A grounded log is part of every saturated one.** -/
theorem Grounded.subset (hmono : Monotone Ready) (h : Grounded Ready log) (hitems : log ⊆ items)
    (hsaturated : Saturated Ready items log') : log ⊆ log' := by
  induction log using List.reverseRecOn with
  | nil => exact List.nil_subset _
  | append_singleton log x ih =>
    have hlog : Grounded Ready log := by
      intro pre y post hy
      exact h pre y (post ++ [x]) (by rw [hy]; simp)
    have hsub := ih hlog fun y hy => hitems (List.mem_append_left _ hy)
    have hx : Ready log x := h log x [] rfl
    intro y hy
    rcases List.mem_append.1 hy with hy | hy
    · exact hsub hy
    · rw [List.mem_singleton.1 hy]
      exact hsaturated x (hitems (by simp)) (hmono log log' x hsub hx)

end MulleObjcRuntime.Lib.Closure
