import Mathlib.Algebra.Order.Ring.Nat
import Mathlib.Tactic.Common
import MulleObjcRuntime.Lib.BinarySearch

/-!
# Bisection with `int`s

The binary search as C programs have it, with an `int` for each end of the window and a sum that may overflow.

* `toInt`, `middleInt` — an `unsigned int` as an `int`, and the middle of two `int`s;
* `bisect` — the search;
* `bisect_eq_bsearch` — up to `2 ^ 30` elements it is the binary search;
* `bisectFrom_overflow` — with more elements it overflows on its way to the last one;
* `bisectFrom_head` — it finds the first element with less room.
-/

namespace MulleObjcRuntime.Lib.IntBisection

open BinarySearch

/-- A sum that is no `int`, an access outside of the list; or the loop has not come to its end. -/
inductive Fault
  | overflow
  | outside
  | outOfRounds
deriving DecidableEq, Repr

/-- The `int` that an `unsigned int` is converted to. -/
def toInt (n : ℕ) : ℤ := if n < 2 ^ 31 then n else n - 2 ^ 32

/-- `n - 1` as an `int`, for an `unsigned int` that may be zero. -/
def lastInt (n : ℕ) : ℤ := toInt ((n + (2 ^ 32 - 1)) % 2 ^ 32)

/-- `(first + last) / 2` -/
def middleInt (first last : ℤ) : Except Fault ℤ :=
  if -2 ^ 31 ≤ first + last ∧ first + last < 2 ^ 31 then .ok ((first + last).tdiv 2) else .error .overflow

/-- The element at an index. -/
def elementAt {α : Type} (xs : List α) (i : ℤ) : Except Fault α :=
  if i < 0 then .error .outside
  else
    match xs[i.toNat]? with
    | none => .error .outside
    | some p => .ok p

section

variable {α κ : Type} [LinearOrder κ] (key : α → κ) (k : κ) (ahead : Bool)

/-- The loop on the window from `first` to `last`, both of which are in it.  If the middle is computed ahead of the next
round, it is computed for an empty window, too. -/
def bisectFrom (xs : List α) : ℕ → ℤ → ℤ → Except Fault (Option α)
  | 0, _, _ => .error .outOfRounds
  | rounds + 1, first, last =>
    if first ≤ last then do
      let middle ← middleInt first last
      let p ← elementAt xs middle
      if key p ≤ k then
        if key p = k then return some p else bisectFrom xs rounds (middle + 1) last
      else bisectFrom xs rounds first (middle - 1)
    else if ahead then do
      let _ ← middleInt first last
      return none
    else return none

/-- The search in the whole list, whose length is an `unsigned int`. -/
def bisect (xs : List α) : Except Fault (Option α) := bisectFrom key k ahead xs (xs.length + 1) 0 (lastInt xs.length)

end

/-! ## Ends and middles -/

lemma toInt_of_lt {n : ℕ} (h : n < 2 ^ 31) : toInt n = n := if_pos h

lemma lastInt_of_le {n : ℕ} (h : n ≤ 2 ^ 31) : lastInt n = n - 1 := by
  cases n with
  | zero => rfl
  | succ n =>
    have hmod : (n + 1 + (2 ^ 32 - 1)) % 2 ^ 32 = n := by omega
    rw [lastInt, hmod, toInt_of_lt (by omega)]
    omega

lemma lastInt_neg {n : ℕ} (h : 2 ^ 31 < n) (hlt : n < 2 ^ 32) : -2 ^ 31 ≤ lastInt n ∧ lastInt n < 0 := by
  have hmod : (n + (2 ^ 32 - 1)) % 2 ^ 32 = n - 1 := by omega
  rw [lastInt, hmod, toInt, if_neg (by omega)]
  omega

lemma lastInt_lt (n : ℕ) : lastInt n < 2 ^ 31 := by
  unfold lastInt toInt
  split <;> omega

lemma middleInt_eq {first last : ℕ} (h : first + last < 2 ^ 31) :
    middleInt first last = .ok ((first + last) / 2 : ℕ) := by
  rw [middleInt, if_pos (by omega), Int.tdiv_eq_ediv_of_nonneg (by omega)]
  norm_cast

lemma middleInt_overflow {first last : ℕ} (h : 2 ^ 31 ≤ first + last) : middleInt first last = .error .overflow :=
  if_neg (by omega)

lemma elementAt_eq {α : Type} {xs : List α} {i : ℕ} (h : i < xs.length) : elementAt xs i = .ok xs[i] := by
  rw [elementAt, if_neg (by omega), Int.toNat_natCast, List.getElem?_eq_getElem h]

/-! ## The rounds -/

section Rounds

variable {α κ : Type} [LinearOrder κ] {key : α → κ} {k : κ} {ahead : Bool} {xs : List α} {rounds first last : ℕ}

lemma bisectFrom_succ (hle : first ≤ last) (hsum : first + last < 2 ^ 31)
    (hmiddle : (first + last) / 2 < xs.length) :
    bisectFrom key k ahead xs (rounds + 1) first last =
      if key xs[(first + last) / 2] ≤ k then
        if key xs[(first + last) / 2] = k then .ok (some xs[(first + last) / 2])
        else bisectFrom key k ahead xs rounds (((first + last) / 2 : ℕ) + 1) last
      else bisectFrom key k ahead xs rounds first (((first + last) / 2 : ℕ) - 1) := by
  rw [bisectFrom, if_pos (by omega), middleInt_eq hsum]
  show (elementAt xs ((first + last) / 2 : ℕ) >>= _) = _
  rw [elementAt_eq hmiddle]
  rfl

lemma bisectFrom_empty {first last : ℤ} (hlt : last < first) (hsum : -2 ^ 31 ≤ first + last ∧ first + last < 2 ^ 31) :
    bisectFrom key k ahead xs (rounds + 1) first last = .ok none := by
  rw [bisectFrom, if_neg (by omega), middleInt, if_pos hsum]
  cases ahead <;> rfl

/-- With few elements the rounds are those of the binary search. -/
lemma bisectFrom_eq {stop : ℕ} (hlen : xs.length ≤ 2 ^ 30) (hstop : stop ≤ xs.length) (hfirst : first ≤ xs.length)
    (hrounds : stop ≤ first + rounds) :
    bisectFrom key k ahead xs (rounds + 1) first (stop - 1) = .ok (bsearchFrom key k xs rounds first stop) := by
  fun_induction bsearchFrom key k xs rounds first stop with
  | case1 first stop => exact bisectFrom_empty (by omega) (by omega)
  | case2 rounds first stop hlt middle hnone =>
    have : middle = (first + (stop - 1)) / 2 := rfl
    rw [List.getElem?_eq_none_iff] at hnone
    omega
  | case3 rounds first stop hlt middle p hp hle heq =>
    obtain ⟨hmiddle, rfl⟩ := List.getElem?_eq_some_iff.mp hp
    have hlast : (stop : ℤ) - 1 = (stop - 1 : ℕ) := by omega
    rw [hlast, bisectFrom_succ (by omega) (by omega) hmiddle, if_pos hle, if_pos heq]
  | case4 rounds first stop hlt middle p hp hle hne ih =>
    obtain ⟨hmiddle, rfl⟩ := List.getElem?_eq_some_iff.mp hp
    have hdef : middle = (first + (stop - 1)) / 2 := rfl
    have hlast : (stop : ℤ) - 1 = (stop - 1 : ℕ) := by omega
    rw [hlast, bisectFrom_succ (by omega) (by omega) hmiddle, if_pos hle, if_neg hne, ← hlast]
    exact_mod_cast ih hstop (by omega) (by omega)
  | case5 rounds first stop hlt middle p hp hle ih =>
    obtain ⟨hmiddle, rfl⟩ := List.getElem?_eq_some_iff.mp hp
    have hdef : middle = (first + (stop - 1)) / 2 := rfl
    have hlast : (stop : ℤ) - 1 = (stop - 1 : ℕ) := by omega
    rw [hlast, bisectFrom_succ (by omega) (by omega) hmiddle, if_neg hle]
    exact ih (by omega) hfirst (by omega)
  | case6 rounds first stop hlt => exact bisectFrom_empty (by omega) (by omega)

lemma bisectFrom_overflow (hle : first ≤ last) (hlast : last < xs.length) (hlarge : 2 ^ 30 ≤ last) (hint : last < 2 ^ 31)
    (hkey : ∀ i, (hi : i < xs.length) → i < last → key xs[i] < k) (hrounds : last < first + rounds) :
    bisectFrom key k ahead xs rounds first last = .error .overflow := by
  induction rounds generalizing first with
  | zero => omega
  | succ rounds ih =>
    by_cases hsum : first + last < 2 ^ 31
    · have hmiddle : (first + last) / 2 < last := by omega
      have hbelow := hkey _ (hmiddle.trans hlast) hmiddle
      rw [bisectFrom_succ hle hsum (hmiddle.trans hlast), if_pos hbelow.le, if_neg hbelow.ne]
      have hnext : bisectFrom key k ahead xs rounds ((first + last) / 2 + 1 : ℕ) last = .error .overflow :=
        ih (by omega) (by omega)
      exact_mod_cast hnext
    · rw [bisectFrom, if_pos (by omega), middleInt_overflow (by omega)]
      rfl

/-- On the way to the first element, no sum is larger than the last index. -/
lemma bisectFrom_head (hs : Sorted key xs) (hpos : 0 < xs.length) (hkey : key xs[0] = k) (hlast : last < xs.length)
    (hint : last < 2 ^ 31) (hrounds : last < rounds) :
    ∃ p, bisectFrom key k ahead xs rounds (0 : ℕ) last = .ok (some p) := by
  induction rounds generalizing last with
  | zero => omega
  | succ rounds ih =>
    have hmiddle : (0 + last) / 2 < xs.length := by omega
    have hle := hs.getElem_le hpos hmiddle (Nat.zero_le _)
    rw [hkey] at hle
    rw [bisectFrom_succ (by omega) (by omega) hmiddle]
    by_cases heq : key xs[(0 + last) / 2] = k
    · rw [if_pos heq.le, if_pos heq]
      exact ⟨_, rfl⟩
    · have hgt : ¬ key xs[(0 + last) / 2] ≤ k := fun h => heq (le_antisymm h hle)
      -- the middle is not the first element itself, which has the key
      have hne : (0 + last) / 2 ≠ 0 := by
        intro hzero
        simp only [hzero, hkey, not_true_eq_false] at heq
      have hprev : (((0 + last) / 2 : ℕ) : ℤ) - 1 = ((0 + last) / 2 - 1 : ℕ) := by omega
      rw [if_neg hgt, hprev]
      exact ih (by omega) (by omega) (by omega)

/-- What is found has the key, and is in the window. -/
lemma bisectFrom_eq_some {first last : ℤ} (hfirst : 0 ≤ first) {p : α}
    (h : bisectFrom key k ahead xs rounds first last = .ok (some p)) :
    ∃ i : ℕ, (i : ℤ) ≤ last ∧ ∃ hi : i < xs.length, key xs[i] = k := by
  induction rounds generalizing first last with
  | zero => cases h
  | succ rounds ih =>
    rw [bisectFrom] at h
    split at h
    · rename_i hle
      by_cases hsum : first + last < 2 ^ 31
      · have hmiddle : middleInt first last = .ok ((first.toNat + last.toNat) / 2 : ℕ) := by
          rw [← middleInt_eq (by omega), Int.toNat_of_nonneg hfirst, Int.toNat_of_nonneg (hfirst.trans hle)]
        generalize hm : (first.toNat + last.toNat) / 2 = middle at hmiddle
        rw [hmiddle] at h
        by_cases hlt : middle < xs.length
        · have helement := elementAt_eq hlt
          simp only [bind, Except.bind, helement] at h
          split at h
          · split at h
            · rename_i heq
              exact ⟨middle, by omega, hlt, heq⟩
            · exact ih (by omega) h
          · obtain ⟨i, hi, hfound⟩ := ih hfirst h
            exact ⟨i, by omega, hfound⟩
        · have helement : elementAt xs (middle : ℤ) = .error .outside := by
            rw [elementAt, if_neg (by omega), Int.toNat_natCast, List.getElem?_eq_none (by omega)]
          simp only [bind, Except.bind, helement] at h
          cases h
      · have hmiddle : middleInt first last = .error .overflow := if_neg (by omega)
        rw [hmiddle] at h
        cases h
    · split at h
      · cases hmiddle : middleInt first last with
        | error e =>
          rw [hmiddle] at h
          cases h
        | ok m =>
          rw [hmiddle] at h
          cases h
      · cases h

end Rounds

/-! ## The search in a list -/

section Search

variable {α κ : Type} [LinearOrder κ] {key : α → κ} {k : κ} {ahead : Bool} {xs : List α}

/-- **Up to `2 ^ 30` elements no sum overflows**, and the search is the binary search. -/
theorem bisect_eq_bsearch (hlen : xs.length ≤ 2 ^ 30) : bisect key k ahead xs = .ok (bsearch key k xs) := by
  rw [bisect, lastInt_of_le (by omega)]
  have hstop : xs.length ≤ 0 + xs.length := by omega
  exact bisectFrom_eq hlen (le_refl _) (Nat.zero_le _) hstop

/-- The last of more elements is not found. -/
theorem bisect_last (hlarge : 2 ^ 30 < xs.length)
    (hkey : ∀ i, (hi : i < xs.length) → i < xs.length - 1 → key xs[i] < k) (p : α) :
    bisect key k ahead xs ≠ .ok (some p) := by
  rw [bisect]
  intro h
  by_cases hint : xs.length ≤ 2 ^ 31
  · have hlast : lastInt xs.length = (xs.length - 1 : ℕ) := by
      rw [lastInt_of_le hint]
      omega
    have hoverflow : bisectFrom key k ahead xs (xs.length + 1) (0 : ℕ) (xs.length - 1 : ℕ) = .error .overflow :=
      bisectFrom_overflow (Nat.zero_le _) (by omega) (by omega) (by omega) hkey (by omega)
    cases hoverflow.symm.trans (hlast ▸ h)
  · -- what is found is at an `int`, and the last element is not
    obtain ⟨i, hle, hi, heq⟩ := bisectFrom_eq_some (le_refl _) h
    have hint := lastInt_lt xs.length
    exact (hkey i hi (by omega)).ne heq

/-- **The first element is found up to `2 ^ 31` elements**, and among more no element is. -/
theorem bisect_head (hs : Sorted key xs) (hpos : 0 < xs.length) (hkey : key xs[0] = k) (hcount : xs.length < 2 ^ 32) :
    (∃ p, bisect key k ahead xs = .ok (some p)) ↔ xs.length ≤ 2 ^ 31 := by
  rw [bisect]
  constructor
  · rintro ⟨p, h⟩
    by_contra hlarge
    obtain ⟨hmin, hneg⟩ := lastInt_neg (by omega) hcount
    rw [bisectFrom_empty hneg (by omega)] at h
    cases h
  · intro hint
    have hlast : lastInt xs.length = (xs.length - 1 : ℕ) := by
      rw [lastInt_of_le hint]
      omega
    rw [hlast]
    exact bisectFrom_head hs hpos hkey (by omega) (by omega) (by omega)

end Search

end MulleObjcRuntime.Lib.IntBisection
