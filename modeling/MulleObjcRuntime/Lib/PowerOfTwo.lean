import Mathlib.Algebra.Order.Ring.Nat
import Mathlib.Tactic.Common

/-!
# Powers of two

* `and_mask` — a mask of `b` ones, shifted by `s`, picks a number below `2 ^ b`;
* `mask_mod` — such a mask in a word that is too short for it;
* `smear` — the bits of a number spread downwards, and `smear_fill`: five rounds fill all lower bits of a 32 bit
  number.
-/

namespace MulleObjcRuntime.Lib.PowerOfTwo

/-! ## Shifted masks -/

/-- **A shifted mask on an offset is a remainder of the position.** -/
theorem and_mask (x b s : ℕ) : x &&& (2 ^ b - 1) * 2 ^ s = x / 2 ^ s % 2 ^ b * 2 ^ s := by
  rw [← Nat.shiftLeft_eq, ← Nat.shiftLeft_eq, ← Nat.shiftRight_eq_div_pow]
  apply Nat.eq_of_testBit_eq
  intro i
  simp only [Nat.testBit_and, Nat.testBit_shiftLeft, Nat.testBit_two_pow_sub_one, Nat.testBit_mod_two_pow,
    Nat.testBit_shiftRight]
  by_cases hi : s ≤ i
  · rw [show s + (i - s) = i by omega]
    simp [hi, Bool.and_comm]
  · simp [hi]

/-- **A shifted mask that is cut off to a word is a shifted mask**, of the ones that are left. -/
theorem mask_mod (b s w : ℕ) : (2 ^ b - 1) * 2 ^ s % 2 ^ w = (2 ^ min b (w - s) - 1) * 2 ^ s := by
  rcases le_or_gt (b + s) w with hle | hlt
  · -- it fits
    have hfits : (2 ^ b - 1) * 2 ^ s < 2 ^ w :=
      calc (2 ^ b - 1) * 2 ^ s < 2 ^ b * 2 ^ s :=
            Nat.mul_lt_mul_of_pos_right (Nat.sub_lt (Nat.two_pow_pos b) one_pos) (Nat.two_pow_pos s)
        _ = 2 ^ (b + s) := (Nat.pow_add 2 b s).symm
        _ ≤ 2 ^ w := Nat.pow_le_pow_right two_pos hle
    rw [Nat.mod_eq_of_lt hfits, min_eq_left (by omega)]
  rw [min_eq_right (by omega)]
  rcases le_or_gt w s with hws | hsw
  · -- nothing is left
    obtain ⟨d, rfl⟩ := Nat.exists_eq_add_of_le hws
    rw [Nat.sub_eq_zero_of_le hws, Nat.pow_add, Nat.mul_left_comm, Nat.mul_mod_right]
    simp
  · -- the upper ones are multiples of the word
    obtain ⟨k, rfl⟩ := Nat.exists_eq_add_of_le hsw.le
    obtain ⟨d, rfl⟩ : ∃ d, b = k + d := Nat.exists_eq_add_of_le (by omega)
    have hsplit : 2 ^ (k + d) - 1 = (2 ^ d - 1) * 2 ^ k + (2 ^ k - 1) := by
      have hk := Nat.two_pow_pos k
      have hd := Nat.two_pow_pos d
      rw [Nat.sub_mul, Nat.one_mul, ← Nat.pow_add, Nat.add_comm d k]
      have : 2 ^ k ≤ 2 ^ (k + d) := Nat.pow_le_pow_right two_pos (by omega)
      omega
    have hlow : (2 ^ k - 1) * 2 ^ s < 2 ^ (s + k) := by
      rw [Nat.pow_add, Nat.mul_comm]
      exact Nat.mul_lt_mul_of_pos_left (Nat.sub_lt (Nat.two_pow_pos k) one_pos) (Nat.two_pow_pos s)
    rw [hsplit, Nat.add_mul, Nat.mul_assoc, ← Nat.pow_add, Nat.add_comm k s, Nat.mul_add_mod_self_right,
      Nat.mod_eq_of_lt hlow, Nat.add_sub_cancel_left]

/-! ## Smearing -/

/-- The bits of `x`, and again `i` places down. -/
def smear (x i : ℕ) : ℕ := x ||| x >>> i

/-- A bit of `y` is set when one of the `k` bits of `x` from it on is. -/
def Smeared (x k y : ℕ) : Prop := ∀ i, y.testBit i = true ↔ ∃ j < k, x.testBit (i + j) = true

variable {x y k : ℕ}

lemma smeared_one (x : ℕ) : Smeared x 1 x := by
  intro i
  constructor
  · intro h
    exact ⟨0, by omega, h⟩
  · rintro ⟨j, hj, h⟩
    rwa [show i + j = i by omega] at h

lemma Smeared.smear (h : Smeared x k y) : Smeared x (k + k) (smear y k) := by
  intro i
  unfold PowerOfTwo.smear
  rw [Nat.testBit_or, Nat.testBit_shiftRight, Bool.or_eq_true, h i, h (k + i)]
  constructor
  · rintro (⟨j, hj, hx⟩ | ⟨j, hj, hx⟩)
    · exact ⟨j, by omega, hx⟩
    · refine ⟨k + j, by omega, ?_⟩
      rwa [show i + (k + j) = k + i + j by omega]
  · rintro ⟨j, hj, hx⟩
    by_cases hjk : j < k
    · exact Or.inl ⟨j, hjk, hx⟩
    · refine Or.inr ⟨j - k, by omega, ?_⟩
      rwa [show k + i + (j - k) = i + j by omega]

lemma Smeared.eq (h : Smeared x k y) (hx : x ≠ 0) (hk : x < 2 ^ k) : y = 2 ^ (x.log2 + 1) - 1 := by
  apply Nat.eq_of_testBit_eq
  intro i
  rw [Nat.testBit_two_pow_sub_one, Bool.eq_iff_iff, h i, decide_eq_true_eq]
  constructor
  · rintro ⟨j, -, hj⟩
    have hle : i + j ≤ x.log2 := (Nat.le_log2 hx).2 (Nat.ge_two_pow_of_testBit hj)
    omega
  · intro hi
    have hlog : x.log2 < k := (Nat.log2_lt hx).2 hk
    refine ⟨x.log2 - i, by omega, ?_⟩
    rw [show i + (x.log2 - i) = x.log2 by omega]
    exact Nat.testBit_log2 hx

/-- **The rounds of 1, 2, 4, 8 and 16 places fill a 32 bit number.** -/
theorem smear_fill (hx : x ≠ 0) (h32 : x < 2 ^ 32) :
    smear (smear (smear (smear (smear x 1) 2) 4) 8) 16 = 2 ^ (x.log2 + 1) - 1 :=
  ((((((smeared_one x).smear).smear).smear).smear).smear).eq hx h32

end MulleObjcRuntime.Lib.PowerOfTwo
