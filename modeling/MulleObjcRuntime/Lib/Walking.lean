import Mathlib.Data.List.Flatten
import Mathlib.Tactic.Common

/-!
# Loops that a callback ends

A callback gets one element after the other and a state of its own, until it returns something else than `ok`.

* `andThen` — what follows, unless the callback has ended it;
* `walk` — a loop over a list;
* `walk_append`, `walk_flatMap`, `walk_map` — one loop behind the other, a loop in a loop, and callbacks that pass on;
* `walk_of_ok`, `walk_simulates` — callbacks that never end it, and callbacks that do the same;
* `finder`, `walk_finder` — the callback that looks for an element.
-/

namespace MulleObjcRuntime.Lib.Walking

variable {σ α β κ : Type} [DecidableEq κ] (ok : κ)

/-- What follows is done only after `ok`. -/
def andThen (r : σ × κ) (k : σ → σ × κ) : σ × κ := if r.2 = ok then k r.1 else r

/-- The loop. -/
def walk (f : σ → α → σ × κ) : σ → List α → σ × κ
  | s, [] => (s, ok)
  | s, a :: as => andThen ok (f s a) fun s => walk f s as

variable {ok} {f : σ → α → σ × κ}

@[simp] lemma andThen_ok (s : σ) (k : σ → σ × κ) : andThen ok (s, ok) k = k s := if_pos rfl

lemma andThen_of_ne {r : σ × κ} (h : r.2 ≠ ok) (k : σ → σ × κ) : andThen ok r k = r := if_neg h

lemma andThen_assoc (r : σ × κ) (k l : σ → σ × κ) :
    andThen ok (andThen ok r k) l = andThen ok r fun s => andThen ok (k s) l := by
  unfold andThen
  split
  · rfl
  · rfl

lemma andThen_return (r : σ × κ) : andThen ok r (fun s => (s, ok)) = r := by
  unfold andThen
  split
  · rename_i h
    exact Prod.ext rfl h.symm
  · rfl

@[simp] lemma walk_nil (s : σ) : walk ok f s [] = (s, ok) := rfl

lemma walk_cons (s : σ) (a : α) (as : List α) :
    walk ok f s (a :: as) = andThen ok (f s a) fun s => walk ok f s as := rfl

lemma walk_append (s : σ) (as bs : List α) :
    walk ok f s (as ++ bs) = andThen ok (walk ok f s as) fun s => walk ok f s bs := by
  induction as generalizing s with
  | nil => rw [List.nil_append, walk_nil, andThen_ok]
  | cons a as ih => simp only [List.cons_append, walk_cons, ih, andThen_assoc]

lemma walk_flatMap (s : σ) (bs : List β) (elements : β → List α) :
    walk ok f s (bs.flatMap elements) = walk ok (fun s b => walk ok f s (elements b)) s bs := by
  induction bs generalizing s with
  | nil => rfl
  | cons b bs ih => simp only [List.flatMap_cons, walk_append, walk_cons, ih]

lemma walk_map (s : σ) (bs : List β) (g : β → α) : walk ok f s (bs.map g) = walk ok (fun s b => f s (g b)) s bs := by
  induction bs generalizing s with
  | nil => rfl
  | cons b bs ih => simp only [List.map_cons, walk_cons, ih]

/-- A callback that never ends the loop gets all elements. -/
theorem walk_of_ok (h : ∀ s a, (f s a).2 = ok) (s : σ) (as : List α) :
    walk ok f s as = (as.foldl (fun s a => (f s a).1) s, ok) := by
  induction as generalizing s with
  | nil => rfl
  | cons a as ih =>
    rw [walk_cons, andThen, if_pos (h s a), ih]
    rfl

/-- Two callbacks that do the same, one of which keeps more in its state. -/
theorem walk_simulates {τ : Type} {f' : τ → α → τ × κ} (seen : σ → τ)
    (h : ∀ s a, (seen (f s a).1, (f s a).2) = f' (seen s) a) (s : σ) (as : List α) :
    (seen (walk ok f s as).1, (walk ok f s as).2) = walk ok f' (seen s) as := by
  induction as generalizing s with
  | nil => rfl
  | cons a as ih =>
    rw [walk_cons, walk_cons, andThen, andThen, ← h]
    split
    · exact ih _
    · rfl

/-! ## Looking for something -/

/-- The callback that keeps the first element with a property, and ends the loop then. -/
def finder (ok done : κ) (p : α → Bool) (found : Option α) (a : α) : Option α × κ :=
  if p a then (some a, done) else (found, ok)

/-- **The loop finds the first element with the property.** -/
theorem walk_finder {done : κ} (hdone : done ≠ ok) (p : α → Bool) (as : List α) :
    walk ok (finder ok done p) none as = (as.find? p, if (as.find? p).isSome then done else ok) := by
  induction as with
  | nil => rfl
  | cons a as ih =>
    cases ha : p a with
    | true =>
      rw [walk_cons, finder, if_pos ha, andThen_of_ne hdone, List.find?_cons_of_pos ha]
      rfl
    | false =>
      have hne : ¬ p a = true := by simp [ha]
      rw [walk_cons, finder, if_neg hne, andThen_ok, ih, List.find?_cons_of_neg hne]

end MulleObjcRuntime.Lib.Walking
