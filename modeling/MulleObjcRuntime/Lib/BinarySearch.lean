import Mathlib.Order.Lattice
import Mathlib.Tactic.Common

/-!
# Binary search in a sorted list

* `bsearch key k xs` — the loop over a window that compares the middle element with `k`;
* `bsearch_eq_some` — what is found is an element with that key;
* `bsearch_eq_none_iff` — in a sorted list nothing is found exactly when no element has the key.
-/

namespace MulleObjcRuntime.Lib.BinarySearch

variable {α κ : Type} [LinearOrder κ] (key : α → κ) (k : κ)

/-- The loop on the window `[first, stop)` of `xs`, with a bound on the number of rounds. -/
def bsearchFrom (xs : List α) : ℕ → ℕ → ℕ → Option α
  | 0, _, _ => none
  | rounds + 1, first, stop =>
    if first < stop then
      let middle := (first + (stop - 1)) / 2
      match xs[middle]? with
      | none => none
      | some p =>
        if key p ≤ k then
          if key p = k then some p else bsearchFrom xs rounds (middle + 1) stop
        else bsearchFrom xs rounds first middle
    else none

/-- The search over the whole of `xs`, whose window gets smaller in every round. -/
def bsearch (xs : List α) : Option α := bsearchFrom key k xs xs.length 0 xs.length

/-- The elements of `xs` are in ascending order of their keys. -/
def Sorted (xs : List α) : Prop := xs.Pairwise fun a b => key a ≤ key b

variable {key k}

lemma Sorted.getElem_le {xs : List α} (hs : Sorted key xs) {i j : ℕ} (hi : i < xs.length)
    (hj : j < xs.length) (hij : i ≤ j) : key xs[i] ≤ key xs[j] := by
  rcases Nat.lt_or_eq_of_le hij with hij | rfl
  · exact List.pairwise_iff_getElem.1 hs i j hi hj hij
  · exact le_refl _

lemma bsearchFrom_eq_some {xs : List α} {rounds first stop : ℕ} {p : α}
    (h : bsearchFrom key k xs rounds first stop = some p) : p ∈ xs ∧ key p = k := by
  fun_induction bsearchFrom key k xs rounds first stop with
  | case1 => cases h
  | case2 => cases h
  | case3 rounds first stop hlt middle q hq hle heq =>
    cases h
    exact ⟨List.mem_of_getElem? hq, heq⟩
  | case4 rounds first stop hlt middle q hq hle hne ih => exact ih h
  | case5 rounds first stop hlt middle q hq hle ih => exact ih h
  | case6 => cases h

/-- An element with the key, inside the window, is not missed. -/
lemma bsearchFrom_isSome {xs : List α} (hs : Sorted key xs) {rounds first stop i : ℕ} (hstop : stop ≤ xs.length)
    (hfirst : first ≤ i) (hi : i < stop) (hrounds : stop ≤ first + rounds) (hlen : i < xs.length)
    (hk : key xs[i] = k) : (bsearchFrom key k xs rounds first stop).isSome := by
  fun_induction bsearchFrom key k xs rounds first stop with
  | case1 first stop => omega
  | case2 rounds first stop hlt middle hq =>
    have : middle = (first + (stop - 1)) / 2 := rfl
    rw [List.getElem?_eq_none_iff] at hq
    omega
  | case3 => rfl
  | case4 rounds first stop hlt middle q hq hle hne ih =>
    obtain ⟨hm, rfl⟩ := List.getElem?_eq_some_iff.1 hq
    -- the key in the middle is below the one sought, which therefore lies to the right
    have hmi : middle < i := by
      by_contra hc
      have := hs.getElem_le hlen hm (Nat.le_of_not_lt hc)
      exact hne (le_antisymm hle (hk ▸ this))
    have : middle = (first + (stop - 1)) / 2 := rfl
    exact ih hstop hmi hi (by omega)
  | case5 rounds first stop hlt middle q hq hle ih =>
    obtain ⟨hm, rfl⟩ := List.getElem?_eq_some_iff.1 hq
    have him : i < middle := by
      by_contra hc
      have := hs.getElem_le hm hlen (Nat.le_of_not_lt hc)
      exact hle (hk ▸ this)
    have : middle = (first + (stop - 1)) / 2 := rfl
    exact ih (by omega) hfirst him (by omega)
  | case6 rounds first stop hlt => omega

theorem bsearch_eq_some {xs : List α} {p : α} (h : bsearch key k xs = some p) : p ∈ xs ∧ key p = k :=
  bsearchFrom_eq_some h

/-- **Nothing is found exactly when no element has the key.** -/
theorem bsearch_eq_none_iff {xs : List α} (hs : Sorted key xs) :
    bsearch key k xs = none ↔ ∀ p ∈ xs, key p ≠ k := by
  constructor
  · intro h p hp hk
    obtain ⟨i, hi, rfl⟩ := List.getElem_of_mem hp
    have := bsearchFrom_isSome hs (Nat.le_refl _) (Nat.zero_le i) hi (by omega : xs.length ≤ 0 + xs.length) hi hk
    unfold bsearch at h
    rw [h] at this
    cases this
  · intro h
    cases hb : bsearch key k xs with
    | none => rfl
    | some p =>
      obtain ⟨hp, hk⟩ := bsearch_eq_some hb
      exact absurd hk (h p hp)

end MulleObjcRuntime.Lib.BinarySearch
