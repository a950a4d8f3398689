import Mathlib.Data.Nat.Bitwise

/-!
# Words with a tag in their low bits

A word of `w` bits whose low `t` bits hold a tag.

* `ushiftRight_shiftLeft_or`, `sshiftRight_shiftLeft_or` — the rest of the word is a value, shifted: what is lost are the
  top bits of the value;
* `packLow`, `unpackLow` — the tag replaces low bits that are all the opposite of the bit above them, and are restored from it.
-/

namespace MulleObjcRuntime.Lib.TaggedWord

variable {w t : ℕ}

/-- The bits of a tag. -/
def mask (w t : ℕ) : BitVec w := BitVec.ofNat w (2 ^ t - 1)

@[simp] lemma getLsbD_mask (k : ℕ) : (mask w t).getLsbD k = (decide (k < w) && decide (k < t)) := by
  rw [mask, BitVec.getLsbD_ofNat, Nat.testBit_two_pow_sub_one]

/-- `i` is a tag. -/
def IsTag (t : ℕ) (i : BitVec w) : Prop := i &&& mask w t = i

lemma IsTag.getLsbD {i : BitVec w} (hi : IsTag t i) {k : ℕ} (hk : t ≤ k) : i.getLsbD k = false := by
  rw [← hi, BitVec.getLsbD_and, getLsbD_mask]
  simp [hk]

lemma isTag_of_toNat_lt {i : BitVec w} (hi : i.toNat < 2 ^ t) : IsTag t i := by
  apply BitVec.eq_of_getLsbD_eq
  intro k hk
  rw [BitVec.getLsbD_and, getLsbD_mask]
  by_cases hkt : k < t
  · simp [hk, hkt]
  · have hlow : i.getLsbD k = false :=
      Nat.testBit_lt_two_pow (hi.trans_le (Nat.pow_le_pow_right (by omega) (by omega)))
    simp [hkt, hlow]

/-! ## Shifted values -/

section Shift

variable {x i : BitVec w}

lemma shiftLeft_or_and_mask (hi : IsTag t i) : (x <<< t ||| i) &&& mask w t = i := by
  apply BitVec.eq_of_getLsbD_eq
  intro k hk
  rw [BitVec.getLsbD_and, BitVec.getLsbD_or, BitVec.getLsbD_shiftLeft, getLsbD_mask]
  by_cases hkt : k < t
  · simp [hk, hkt]
  · simp [hkt, hi.getLsbD (by omega : t ≤ k)]

/-- A value comes back if the bits that were shifted out are all zero. -/
theorem ushiftRight_shiftLeft_or (hi : IsTag t i) :
    (x <<< t ||| i) >>> t = x ↔ ∀ k < w, w ≤ k + t → x.getLsbD k = false := by
  have hbit : ∀ k, ((x <<< t ||| i) >>> t).getLsbD k = (decide (t + k < w) && x.getLsbD k) := by
    intro k
    rw [BitVec.getLsbD_ushiftRight, BitVec.getLsbD_or, BitVec.getLsbD_shiftLeft, hi.getLsbD (by omega)]
    simp [show ¬ t + k < t by omega]
  rw [BitVec.eq_of_getLsbD_eq_iff]
  constructor
  · intro h k hk hlost
    rw [← h k hk, hbit, decide_eq_false (by omega), Bool.false_and]
  · intro h k hk
    rw [hbit]
    by_cases hkept : t + k < w
    · rw [decide_eq_true hkept, Bool.true_and]
    · rw [h k hk (by omega), Bool.and_false]

/-- A signed value comes back if the bits that were shifted out are all like the one that becomes the sign. -/
theorem sshiftRight_shiftLeft_or (hi : IsTag t i) (ht : t < w) :
    (x <<< t ||| i).sshiftRight t = x ↔ ∀ k < w, w ≤ k + t → x.getLsbD k = x.getLsbD (w - t - 1) := by
  have hmsb : (x <<< t ||| i).msb = x.getLsbD (w - t - 1) := by
    rw [BitVec.msb_eq_getLsbD_last, BitVec.getLsbD_or, BitVec.getLsbD_shiftLeft, hi.getLsbD (by omega),
      decide_eq_true (by omega), decide_eq_false (by omega), show w - 1 - t = w - t - 1 by omega]
    simp
  have hbit : ∀ k < w, ((x <<< t ||| i).sshiftRight t).getLsbD k =
      if t + k < w then x.getLsbD k else x.getLsbD (w - t - 1) := by
    intro k hk
    rw [BitVec.getLsbD_sshiftRight, decide_eq_false (by omega), hmsb]
    by_cases hkept : t + k < w
    · rw [if_pos hkept, if_pos hkept, BitVec.getLsbD_or, BitVec.getLsbD_shiftLeft, hi.getLsbD (by omega)]
      simp [hkept]
    · rw [if_neg hkept, if_neg hkept]
      rfl
  rw [BitVec.eq_of_getLsbD_eq_iff]
  constructor
  · intro h k hk hlost
    rw [← h k hk, hbit k hk, if_neg (by omega)]
  · intro h k hk
    rw [hbit k hk]
    split
    · rfl
    · rw [h k hk (by omega)]

end Shift

/-! ## The bits that are shifted out -/

section Top

/-- The top `t` bits of a word. -/
def topMask (w t : ℕ) : BitVec w := BitVec.allOnes w &&& ~~~(BitVec.allOnes w >>> t)

lemma getLsbD_topMask {k : ℕ} (hk : k < w) : (topMask w t).getLsbD k = decide (w ≤ k + t) := by
  rw [topMask, BitVec.getLsbD_and, BitVec.getLsbD_not, BitVec.getLsbD_ushiftRight, BitVec.getLsbD_allOnes,
    BitVec.getLsbD_allOnes, decide_eq_true hk]
  by_cases h : w ≤ k + t
  · simp [h, Nat.add_comm t k]
  · simp [h, Nat.add_comm t k, show k + t < w by omega]

variable {x : BitVec w}

lemma and_topMask_eq_zero_iff : x &&& topMask w t = 0 ↔ ∀ k < w, w ≤ k + t → x.getLsbD k = false := by
  rw [BitVec.eq_of_getLsbD_eq_iff]
  refine forall₂_congr fun k hk => ?_
  rw [BitVec.getLsbD_and, getLsbD_topMask hk, show (0 : BitVec w).getLsbD k = false by simp]
  by_cases h : w ≤ k + t
  · simp [h]
  · simp [h]

lemma and_topMask_eq_self_iff : x &&& topMask w t = topMask w t ↔ ∀ k < w, w ≤ k + t → x.getLsbD k = true := by
  rw [BitVec.eq_of_getLsbD_eq_iff]
  refine forall₂_congr fun k hk => ?_
  rw [BitVec.getLsbD_and, getLsbD_topMask hk]
  by_cases h : w ≤ k + t
  · simp [h]
  · simp [h]

lemma top_uniform_iff (ht : t < w) :
    (x &&& topMask w (t + 1) = 0 ∨ x &&& topMask w (t + 1) = topMask w (t + 1)) ↔
      ∀ k < w, w ≤ k + t → x.getLsbD k = x.getLsbD (w - t - 1) := by
  rw [and_topMask_eq_zero_iff, and_topMask_eq_self_iff]
  constructor
  · rintro (h | h) k hk hlost
    · rw [h k hk (by omega), h (w - t - 1) (by omega) (by omega)]
    · rw [h k hk (by omega), h (w - t - 1) (by omega) (by omega)]
  · intro h
    have hall : ∀ k < w, w ≤ k + (t + 1) → x.getLsbD k = x.getLsbD (w - t - 1) := by
      intro k hk hlost
      by_cases hlow : w ≤ k + t
      · exact h k hk hlow
      · rw [show k = w - t - 1 by omega]
    cases hbit : x.getLsbD (w - t - 1) with
    | false => exact Or.inl fun k hk hlost => (hall k hk hlost).trans hbit
    | true => exact Or.inr fun k hk hlost => (hall k hk hlost).trans hbit

/-- Of the low `t + 1` bits only the highest is set, or all but this one. -/
lemma low_opposite_iff (ht : t < w) :
    (x &&& mask w (t + 1) = BitVec.ofNat w (2 ^ t) ∨ x &&& mask w (t + 1) = mask w t) ↔
      ∀ k < t, x.getLsbD k = !x.getLsbD t := by
  have hpow : ∀ k < w, (BitVec.ofNat w (2 ^ t)).getLsbD k = decide (t = k) := by
    intro k hk
    rw [BitVec.getLsbD_ofNat, Nat.testBit_two_pow, decide_eq_true hk, Bool.true_and]
  rw [BitVec.eq_of_getLsbD_eq_iff, BitVec.eq_of_getLsbD_eq_iff]
  constructor
  · rintro (h | h) k hk
    · have hlow := h k (by omega)
      have hhigh := h t ht
      rw [BitVec.getLsbD_and, getLsbD_mask, hpow _ (by omega), decide_eq_true (by omega : k < w),
        decide_eq_true (by omega : k < t + 1), decide_eq_false (by omega : ¬ t = k), Bool.and_true, Bool.and_true] at hlow
      rw [BitVec.getLsbD_and, getLsbD_mask, hpow _ (by omega), decide_eq_true ht, decide_eq_true (Nat.lt_succ_self t),
        decide_eq_true rfl, Bool.and_true, Bool.and_true] at hhigh
      rw [hlow, hhigh]
      rfl
    · have hlow := h k (by omega)
      have hhigh := h t ht
      rw [BitVec.getLsbD_and, getLsbD_mask, getLsbD_mask, decide_eq_true (by omega : k < w),
        decide_eq_true (by omega : k < t + 1), decide_eq_true hk, Bool.and_true, Bool.and_true] at hlow
      rw [BitVec.getLsbD_and, getLsbD_mask, getLsbD_mask, decide_eq_true ht, decide_eq_true (Nat.lt_succ_self t),
        decide_eq_false (Nat.lt_irrefl t), Bool.and_true, Bool.and_true] at hhigh
      rw [hlow, hhigh]
      rfl
  · intro h
    cases hbit : x.getLsbD t with
    | true =>
      refine Or.inl fun k hk => ?_
      rw [BitVec.getLsbD_and, getLsbD_mask, hpow k hk]
      rcases Nat.lt_trichotomy k t with hkt | rfl | hkt
      · simp [h k hkt, hbit, show ¬ t = k by omega]
      · simp [hbit, hk]
      · simp [show ¬ k < t + 1 by omega, show ¬ t = k by omega]
    | false =>
      refine Or.inr fun k hk => ?_
      rw [BitVec.getLsbD_and, getLsbD_mask, getLsbD_mask]
      rcases Nat.lt_trichotomy k t with hkt | rfl | hkt
      · simp [h k hkt, hbit, hk, hkt, show k < t + 1 by omega]
      · simp [hbit]
      · simp [show ¬ k < t + 1 by omega, show ¬ k < t by omega]

end Top

/-! ## Low bits that are restored -/

section Low

/-- The tag replaces the low bits. -/
def packLow (t : ℕ) (r i : BitVec w) : BitVec w := r &&& ~~~mask w t ||| i

/-- The low bits are restored as the opposite of the bit above them. -/
def unpackLow (t : ℕ) (e : BitVec w) : BitVec w :=
  if e.getLsbD t = true then e &&& ~~~mask w t else e ||| mask w t

variable {r i : BitVec w}

lemma packLow_and_mask (hi : IsTag t i) : packLow t r i &&& mask w t = i := by
  apply BitVec.eq_of_getLsbD_eq
  intro k hk
  rw [packLow, BitVec.getLsbD_and, BitVec.getLsbD_or, BitVec.getLsbD_and, BitVec.getLsbD_not, getLsbD_mask]
  by_cases hkt : k < t
  · simp [hk, hkt]
  · simp [hkt, hi.getLsbD (by omega : t ≤ k)]

lemma getLsbD_packLow (hi : IsTag t i) {k : ℕ} (hk : t ≤ k) : (packLow t r i).getLsbD k = r.getLsbD k := by
  rw [packLow, BitVec.getLsbD_or, BitVec.getLsbD_and, BitVec.getLsbD_not, getLsbD_mask, hi.getLsbD hk]
  by_cases hkw : k < w
  · simp [hkw, hk]
  · simp [BitVec.getLsbD_of_ge r k (by omega)]

lemma getLsbD_unpackLow (e : BitVec w) {k : ℕ} (hk : k < w) :
    (unpackLow t e).getLsbD k = if k < t then !e.getLsbD t else e.getLsbD k := by
  unfold unpackLow
  split
  next h =>
    rw [BitVec.getLsbD_and, BitVec.getLsbD_not, getLsbD_mask, h]
    by_cases hkt : k < t
    · simp [hk, hkt]
    · simp [hk, hkt]
  next h =>
    have hzero : e.getLsbD t = false := by simpa using h
    rw [BitVec.getLsbD_or, getLsbD_mask, hzero]
    by_cases hkt : k < t
    · simp [hk, hkt]
    · simp [hkt]

/-- A word comes back if its low bits are the opposite of the bit above them. -/
theorem unpackLow_packLow (hi : IsTag t i) (ht : t < w) :
    unpackLow t (packLow t r i) = r ↔ ∀ k < t, r.getLsbD k = !r.getLsbD t := by
  have hbit : ∀ k < w, (unpackLow t (packLow t r i)).getLsbD k = if k < t then !r.getLsbD t else r.getLsbD k := by
    intro k hk
    rw [getLsbD_unpackLow _ hk, getLsbD_packLow hi (Nat.le_refl t)]
    split
    · rfl
    · exact getLsbD_packLow hi (by omega)
  rw [BitVec.eq_of_getLsbD_eq_iff]
  constructor
  · intro h k hk
    rw [← h k (by omega), hbit k (by omega), if_pos hk]
  · intro h k hk
    rw [hbit k hk]
    split
    next hkt => rw [h k hkt]
    · rfl

end Low

/-! ## Rotations -/

section Rotate

variable {n : ℕ} {x : BitVec w}

/-- To the left by `n`, as it is written for words without a rotation of their own. -/
def rotl (n : ℕ) (x : BitVec w) : BitVec w := x <<< n ||| x >>> (w - n)

def rotr (n : ℕ) (x : BitVec w) : BitVec w := x >>> n ||| x <<< (w - n)

lemma getLsbD_rotl (hn : n ≤ w) {k : ℕ} (hk : k < w) :
    (rotl n x).getLsbD k = if k < n then x.getLsbD (w - n + k) else x.getLsbD (k - n) := by
  rw [rotl, BitVec.getLsbD_or, BitVec.getLsbD_shiftLeft, BitVec.getLsbD_ushiftRight]
  split
  next h => simp [h]
  next h => simp [hk, h, BitVec.getLsbD_of_ge x (w - n + k) (by omega)]

lemma getLsbD_rotr (hn : n ≤ w) {k : ℕ} (hk : k < w) :
    (rotr n x).getLsbD k = if k < w - n then x.getLsbD (n + k) else x.getLsbD (k - (w - n)) := by
  rw [rotr, BitVec.getLsbD_or, BitVec.getLsbD_shiftLeft, BitVec.getLsbD_ushiftRight]
  split
  next h => simp [h]
  next h => simp [hk, h, BitVec.getLsbD_of_ge x (n + k) (by omega)]

lemma rotr_rotl (hn : n ≤ w) : rotr n (rotl n x) = x := by
  apply BitVec.eq_of_getLsbD_eq
  intro k hk
  rw [getLsbD_rotr hn hk]
  split
  next h => rw [getLsbD_rotl hn (by omega), if_neg (by omega), Nat.add_sub_cancel_left]
  next h => rw [getLsbD_rotl hn (by omega), if_pos (by omega), Nat.add_sub_cancel' (by omega)]

lemma rotl_rotr (hn : n ≤ w) : rotl n (rotr n x) = x := by
  apply BitVec.eq_of_getLsbD_eq
  intro k hk
  rw [getLsbD_rotl hn hk]
  split
  next h => rw [getLsbD_rotr hn (by omega), if_neg (by omega), Nat.add_sub_cancel_left]
  next h => rw [getLsbD_rotr hn (by omega), if_pos (by omega), Nat.add_sub_cancel' (by omega)]

lemma rotr_eq_iff (hn : n ≤ w) {y : BitVec w} : rotr n y = x ↔ y = rotl n x := by
  constructor
  · rintro rfl
    rw [rotl_rotr hn]
  · rintro rfl
    rw [rotr_rotl hn]

/-- **A word whose top bits are rotated into its low end, and replaced by a tag there, comes back if each of these bits is the
opposite of the one above them.** -/
theorem rotr_unpackLow_packLow_rotl {i : BitVec w} (hi : IsTag t i) (htn : t < n) (hn : n ≤ w) :
    rotr n (unpackLow t (packLow t (rotl n x) i)) = x ↔
      ∀ k < t, x.getLsbD (w - n + k) = !x.getLsbD (w - n + t) := by
  rw [rotr_eq_iff hn, unpackLow_packLow hi (by omega)]
  have htop : (rotl n x).getLsbD t = x.getLsbD (w - n + t) := by rw [getLsbD_rotl hn (by omega), if_pos htn]
  have hlow : ∀ k < t, (rotl n x).getLsbD k = x.getLsbD (w - n + k) := by
    intro k hk
    rw [getLsbD_rotl hn (by omega), if_pos (by omega)]
  constructor
  · intro h k hk
    rw [← hlow k hk, ← htop, h k hk]
  · intro h k hk
    rw [hlow k hk, htop, h k hk]

end Rotate

end MulleObjcRuntime.Lib.TaggedWord
