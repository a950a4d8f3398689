import MulleObjcRuntime.Lib.IntBisection

/-!
# The last element that is not above

A bisection with `int`s that looks for no element in particular, but for the last one whose key is not above `k`.

* `nearestFrom`, `nearest` — the search, which looks at an element and at the next one;
* `Splits` — up to where the keys are not above;
* `nearest_eq` — up to `2 ^ 30` elements the search finds the one before that;
* `nearest_spec` — which is an element with the greatest key not above.
-/

namespace MulleObjcRuntime.Lib.NearestBelow

open BinarySearch IntBisection

section

variable {α κ : Type} [LinearOrder κ] (key : α → κ) (k : κ)

/-- The loop, on the window from `first` to `last`, with the middle that was computed ahead of the round.  There are `n`
elements. -/
def nearestFrom (xs : List α) (n : ℤ) : ℕ → ℤ → ℤ → ℤ → Except Fault (Option α)
  | 0, _, _, _ => .error .outOfRounds
  | rounds + 1, first, last, middle =>
    if first ≤ last then do
      let p ← elementAt xs middle
      if k < key p then
        nearestFrom xs n rounds first (middle - 1) (← middleInt first (middle - 1))
      else if middle + 1 = n then return some p
      else
        let next ← elementAt xs (middle + 1)
        if k < key next then return some p
        else nearestFrom xs n rounds (middle + 1) last (← middleInt (middle + 1) last)
    else return none

/-- The search in the whole list. -/
def nearest (xs : List α) : Except Fault (Option α) := do
  let n := toInt (xs.length % 2 ^ 32)
  if n = -2 ^ 31 then .error .overflow
  nearestFrom key k xs n (xs.length + 1) 0 (n - 1) (← middleInt 0 (n - 1))

end

variable {α κ : Type} [LinearOrder κ] {key : α → κ} {k : κ} {xs : List α} {c rounds first stop : ℕ}

/-- The keys of the first `c` elements are not above, and the other ones are. -/
structure Splits (key : α → κ) (k : κ) (xs : List α) (c : ℕ) : Prop where
  le_length : c ≤ xs.length
  above_iff : ∀ i, (hi : i < xs.length) → (k < key xs[i] ↔ c ≤ i)

lemma exists_splits (hs : Sorted key xs) : ∃ c, Splits key k xs c := by
  induction xs with
  | nil => exact ⟨0, le_refl _, fun i hi => absurd hi (Nat.not_lt_zero i)⟩
  | cons p xs ih =>
    obtain ⟨hp, hs⟩ := List.pairwise_cons.mp hs
    obtain ⟨c, hc⟩ := ih hs
    by_cases hk : k < key p
    · refine ⟨0, Nat.zero_le _, fun i hi => iff_of_true ?_ (Nat.zero_le i)⟩
      cases i with
      | zero => exact hk
      | succ i => exact hk.trans_le (hp _ (List.getElem_mem _))
    · refine ⟨c + 1, Nat.succ_le_succ hc.le_length, fun i hi => ?_⟩
      cases i with
      | zero => exact iff_of_false hk (by omega)
      | succ i => simpa using hc.above_iff i (by simpa using hi)

lemma middleInt_window (first : ℕ) {stop : ℕ} (hlen : stop ≤ 2 ^ 30) (hfirst : first ≤ 2 ^ 30) :
    ∃ middle : ℤ, middleInt first ((stop : ℤ) - 1) = .ok middle ∧
      (first < stop → middle = ((first + (stop - 1)) / 2 : ℕ)) := by
  refine ⟨((first : ℤ) + (stop - 1)).tdiv 2, if_pos (by omega), fun hlt => ?_⟩
  rw [Int.tdiv_eq_ediv_of_nonneg (by omega)]
  omega

/-- **The loop.**  What is sought is in the window, and unless the window begins at the first element it begins before
that. -/
lemma nearestFrom_eq (hc : Splits key k xs c) (hlen : xs.length ≤ 2 ^ 30) (hstop : stop ≤ xs.length) (hle : c ≤ stop)
    (hfirst : first = 0 ∨ first < c) (hrounds : stop < first + rounds) {middle : ℤ}
    (hmiddle : first < stop → middle = ((first + (stop - 1)) / 2 : ℕ)) :
    nearestFrom key k xs xs.length rounds first (stop - 1) middle = .ok (xs.take c).getLast? := by
  induction rounds generalizing first stop middle with
  | zero =>
    have hsplit := hc.le_length
    omega
  | succ rounds ih =>
    rw [nearestFrom]
    by_cases hlt : first < stop
    · obtain rfl := hmiddle hlt
      have hin : (first + (stop - 1)) / 2 < xs.length := by omega
      have hbounds : first ≤ (first + (stop - 1)) / 2 ∧ (first + (stop - 1)) / 2 < stop := by omega
      generalize (first + (stop - 1)) / 2 = middle at hin hbounds
      have hanswer : c = middle + 1 → (xs.take c).getLast? = some xs[middle] := by
        rintro rfl
        rw [List.take_succ_eq_append_getElem hin, List.getLast?_concat]
      rw [if_pos (by omega), elementAt_eq hin]
      show (if k < key xs[middle] then _ else _) = _
      by_cases habove : k < key xs[middle]
      · have hle' := (hc.above_iff middle hin).mp habove
        obtain ⟨middle', hmid, hmid'⟩ := middleInt_window first (by omega : middle ≤ 2 ^ 30) (by omega)
        rw [if_pos habove, hmid]
        exact ih (by omega) hle' hfirst (by omega) hmid'
      · have hgt : ¬ c ≤ middle := fun h => habove ((hc.above_iff middle hin).mpr h)
        rw [if_neg habove]
        by_cases hend : middle + 1 = xs.length
        · have hsplit := hc.le_length
          rw [if_pos (by omega), hanswer (by omega)]
          rfl
        · have hnext : middle + 1 < xs.length := by omega
          have hcast : (middle : ℤ) + 1 = (middle + 1 : ℕ) := by omega
          rw [if_neg (by omega), hcast, elementAt_eq hnext]
          show (if k < key xs[middle + 1] then _ else _) = _
          by_cases habove' : k < key xs[middle + 1]
          · have hle' := (hc.above_iff (middle + 1) hnext).mp habove'
            rw [if_pos habove', hanswer (by omega)]
            rfl
          · have hgt' : ¬ c ≤ middle + 1 := fun h => habove' ((hc.above_iff (middle + 1) hnext).mpr h)
            obtain ⟨middle', hmid, hmid'⟩ := middleInt_window (middle + 1) (by omega : stop ≤ 2 ^ 30) (by omega)
            rw [if_neg habove', hmid]
            exact ih hstop hle (Or.inr (by omega)) (by omega) hmid'
    · have hzero : c = 0 := by omega
      rw [if_neg (by omega), hzero, List.take_zero]
      rfl

/-- **Up to `2 ^ 30` elements nothing overflows**, and the search finds the last element not above. -/
theorem nearest_eq (hc : Splits key k xs c) (hlen : xs.length ≤ 2 ^ 30) :
    nearest key k xs = .ok (xs.take c).getLast? := by
  have hn : toInt (xs.length % 2 ^ 32) = xs.length := by
    rw [Nat.mod_eq_of_lt (by omega), toInt_of_lt (by omega)]
  obtain ⟨middle, hmid, hmid'⟩ := middleInt_window 0 hlen (Nat.zero_le _)
  have hloop := nearestFrom_eq hc hlen le_rfl hc.le_length (Or.inl rfl) (by omega : xs.length < 0 + (xs.length + 1)) hmid'
  rw [nearest, hn]
  have hmid₀ : middleInt 0 ((xs.length : ℤ) - 1) = .ok middle := hmid
  have hno : ¬ (xs.length : ℤ) = -2 ^ 31 := by omega
  simp only [if_neg hno, hmid₀]
  exact hloop

/-- What is found has the greatest key not above, and if nothing is found all keys are above. -/
theorem nearest_spec (hs : Sorted key xs) (hlen : xs.length ≤ 2 ^ 30) :
    ∃ found, nearest key k xs = .ok found ∧ (found = none ↔ ∀ p ∈ xs, k < key p) ∧
      ∀ p, found = some p → p ∈ xs ∧ key p ≤ k ∧ ∀ q ∈ xs, key q ≤ k → key q ≤ key p := by
  obtain ⟨c, hc⟩ := exists_splits (k := k) hs
  refine ⟨_, nearest_eq hc hlen, ?_, fun p hp => ?_⟩
  · rw [List.getLast?_eq_none_iff, List.take_eq_nil_iff]
    constructor
    · rintro (rfl | rfl) p hp
      · obtain ⟨i, hi, rfl⟩ := List.getElem_of_mem hp
        exact (hc.above_iff i hi).mpr (Nat.zero_le i)
      · cases hp
    · intro habove
      by_contra hne
      rw [not_or] at hne
      have hpos : 0 < xs.length := List.length_pos_iff.mpr hne.2
      exact hne.1 (Nat.le_zero.mp ((hc.above_iff 0 hpos).mp (habove _ (List.getElem_mem hpos))))
  · have hle := hc.le_length
    obtain ⟨i, hi, hsome⟩ : ∃ i, c = i + 1 ∧ xs[i]? = some p := by
      cases c with
      | zero => simp at hp
      | succ i =>
        have hin : i < xs.length := by omega
        rw [List.take_succ_eq_append_getElem hin, List.getLast?_concat] at hp
        exact ⟨i, rfl, by rw [List.getElem?_eq_getElem hin, hp]⟩
    obtain ⟨hin, rfl⟩ := List.getElem?_eq_some_iff.mp hsome
    have hbelow : ∀ j, (hj : j < xs.length) → (key xs[j] ≤ k ↔ j ≤ i) := fun j hj => by
      rw [← not_lt, hc.above_iff j hj, hi]
      omega
    refine ⟨List.getElem_mem hin, (hbelow i hin).mpr le_rfl, fun q hq hk => ?_⟩
    obtain ⟨j, hj, rfl⟩ := List.getElem_of_mem hq
    exact hs.getElem_le hj hin ((hbelow j hj).mp hk)

end MulleObjcRuntime.Lib.NearestBelow
