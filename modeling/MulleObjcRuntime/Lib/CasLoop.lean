import Mathlib.Data.List.Count
import Mathlib.Tactic.Common

/-!
# Words that are updated in a loop

A thread reads a word, computes what it should be, and tries to exchange it, until that works or there is nothing to change.
Between its accesses other threads have theirs, and the exchange may fail for no reason.

* `Attempt`, `Attempt.step` — where a thread is in the loop, and its next access;
* `Attempt.step_cases` — the last access does all of the update at once, the others do nothing;
* `Performed` — updates one after the other, each with whether it has changed the word;
* `Performed.balance` — if the updates turn something on or off, those that change it take turns.
-/

namespace MulleObjcRuntime.Lib.CasLoop

variable {W Op : Type} [DecidableEq W]

/-- Where a thread is in the loop. -/
inductive Attempt (W : Type)
  | read
  | cas (old : W)
deriving DecidableEq, Repr

/-- The next access: the word after it, and how the loop goes on or whether it has changed the word in the end. -/
def Attempt.step (f : W → W) (spurious : Bool) (w : W) : Attempt W → W × (Attempt W ⊕ Bool)
  | .read => if f w = w then (w, .inr false) else (w, .inl (.cas w))
  | .cas old => if w = old ∧ spurious = false then (f old, .inr true) else (w, .inl .read)

/-- An exchange is tried only if there is something to change. -/
def Attempt.Ok (f : W → W) : Attempt W → Prop
  | .read => True
  | .cas old => f old ≠ old

variable {f : W → W} {w : W} {attempt : Attempt W}

/-- **An access does nothing, or all of the update.** -/
lemma Attempt.step_cases (spurious : Bool) (w : W) (h : attempt.Ok f) :
    (∃ next : Attempt W, next.Ok f ∧ attempt.step f spurious w = (w, .inl next)) ∨
      attempt.step f spurious w = (f w, .inr (decide (f w ≠ w))) := by
  cases attempt with
  | read =>
    by_cases hsame : f w = w
    · refine Or.inr ?_
      rw [Attempt.step, if_pos hsame]
      simp [hsame]
    · exact Or.inl ⟨.cas w, hsame, if_neg hsame⟩
  | cas old =>
    by_cases hfound : w = old ∧ spurious = false
    · refine Or.inr ?_
      have hne : f w ≠ w := hfound.1 ▸ h
      rw [Attempt.step, if_pos hfound, ← hfound.1]
      simp [hne]
    · exact Or.inl ⟨.read, trivial, if_neg hfound⟩

lemma Attempt.alone (f : W → W) (w : W) : Attempt.read.step f false w = (f w, .inr false) ∨
    Attempt.read.step f false w = (w, .inl (.cas w)) ∧ (Attempt.cas w).step f false w = (f w, .inr true) := by
  by_cases hsame : f w = w
  · refine Or.inl ?_
    rw [Attempt.step, if_pos hsame, hsame]
  · exact Or.inr ⟨if_neg hsame, if_pos ⟨rfl, rfl⟩⟩

/-! ## One update after the other -/

/-- The updates in a log, one after the other, lead to a word.  Each comes with whether it has changed the word. -/
inductive Performed (apply : Op → W → W) (start : W) : List (Op × Bool) → W → Prop
  | nil : Performed apply start [] start
  | snoc {log : List (Op × Bool)} {w : W} (h : Performed apply start log w) (op : Op) :
    Performed apply start (log ++ [(op, decide (apply op w ≠ w))]) (apply op w)

variable {apply : Op → W → W} {start : W} {log : List (Op × Bool)}

/-- What an update does with something that a word has or has not. -/
inductive Turns
  | on
  | off
  | nothing
deriving DecidableEq, Repr

/-- Whether the word has it after the update, and whether that is a change. -/
def Turns.Right (turns : Turns) (has : W → Bool) (f : W → W) (w : W) : Prop :=
  match turns with
  | .on => has (f w) = true ∧ (f w ≠ w ↔ has w = false)
  | .off => has (f w) = false ∧ (f w ≠ w ↔ has w = true)
  | .nothing => has (f w) = has w

/-- How many updates of a kind have changed the word. -/
def wins (turns : Op → Turns) (kind : Turns) (log : List (Op × Bool)) : ℕ :=
  log.countP fun p => decide (turns p.1 = kind) && p.2

/-- **The updates that change something take turns**: it has been turned on as often as off, and once more if it was off and
is on now. -/
theorem Performed.balance (turns : Op → Turns) (has : W → Bool) (h : Performed apply start log w)
    (hturns : ∀ p ∈ log, ∀ w, (turns p.1).Right has (apply p.1) w) :
    wins turns .on log + (has start).toNat = wins turns .off log + (has w).toNat := by
  induction h with
  | nil => rfl
  | @snoc log w h op ih =>
    have ih := ih fun p hp => hturns p (List.mem_append_left _ hp)
    have hop := hturns _ (List.mem_append_right log (List.mem_singleton_self _)) w
    simp only [wins, List.countP_append, List.countP_singleton] at ih ⊢
    cases hkind : turns op with
    | on =>
      simp only [hkind, Turns.Right] at hop
      cases hhas : has w with
      | true => simp_all
      | false => simp_all; omega
    | off =>
      simp only [hkind, Turns.Right] at hop
      cases hhas : has w with
      | true => simp_all
      | false => simp_all
    | nothing =>
      simp only [hkind, Turns.Right] at hop
      simp_all

lemma wins_eq_zero {turns : Op → Turns} {kind : Turns} (h : ∀ p ∈ log, turns p.1 ≠ kind) : wins turns kind log = 0 := by
  rw [wins, List.countP_eq_zero]
  intro p hp
  simp [h p hp]

/-- What has been turned on, and never off, is on. -/
lemma Performed.has_of_on (turns : Op → Turns) (has : W → Bool) (h : Performed apply start log w)
    (hturns : ∀ p ∈ log, ∀ w, (turns p.1).Right has (apply p.1) w) (hoff : ∀ p ∈ log, turns p.1 ≠ .off)
    (hon : ∃ p ∈ log, turns p.1 = .on) : has w = true := by
  induction h with
  | nil => simp at hon
  | @snoc log w h op ih =>
    have hop := hturns _ (List.mem_append_right log (List.mem_singleton_self _)) w
    have hne := hoff _ (List.mem_append_right log (List.mem_singleton_self _))
    cases hkind : turns op with
    | on =>
      simp only [hkind, Turns.Right] at hop
      exact hop.1
    | off => exact absurd hkind hne
    | nothing =>
      simp only [hkind, Turns.Right] at hop
      rw [hop]
      apply ih (fun p hp => hturns p (List.mem_append_left _ hp)) fun p hp => hoff p (List.mem_append_left _ hp)
      obtain ⟨p, hp, hpon⟩ := hon
      rcases List.mem_append.mp hp with hp | hp
      · exact ⟨p, hp, hpon⟩
      · rw [List.mem_singleton.mp hp, hkind] at hpon
        cases hpon

end MulleObjcRuntime.Lib.CasLoop
