import Mathlib.Algebra.Order.Ring.Nat
import Mathlib.Algebra.Order.Group.Nat
import Mathlib.Tactic.Linarith
import Mathlib.Tactic.Positivity
import Mathlib.Tactic.Ring

/-!
# Binary floating point numbers, and their conversions

A number is the natural number that its bits make up.

* `Format` — how many bits the fraction and the exponent have;
* `Format.value` — a finite magnitude, as a multiple of the least positive number;
* `ofScaled` — the magnitude that is nearest to a value, and of two the even one;
* `convert` — the conversion from one format to another;
* `Widens`, `convert_convert_eq_iff` — a number is the same after it has been widened and narrowed again, unless it is
  a signalling NaN, which has become a quiet one.
-/

namespace MulleObjcRuntime.Lib.BinaryFloat

/-- A format: the bits of the fraction, and the bits of the exponent above them. -/
structure Format where
  fraction : ℕ
  exponent : ℕ
deriving DecidableEq, Repr

/-- Single precision -/
def binary32 : Format := ⟨23, 8⟩

/-- Double precision -/
def binary64 : Format := ⟨52, 11⟩

namespace Format

variable (f : Format)

/-- The bit of the sign -/
def signBit : ℕ := 2 ^ (f.exponent + f.fraction)

/-- The magnitude of infinity.  What is above it is not a number. -/
def infinity : ℕ := (2 ^ f.exponent - 1) * 2 ^ f.fraction

/-- The bit that a quiet NaN has, and a signalling one has not. -/
def quietBit : ℕ := 2 ^ (f.fraction - 1)

/-- The least positive number is two to the minus this. -/
def scale : ℕ := 2 ^ (f.exponent - 1) - 2 + f.fraction

/-- A finite magnitude as a multiple of the least positive number -/
def value (magnitude : ℕ) : ℕ :=
  if magnitude < 2 ^ f.fraction then magnitude
  else (2 ^ f.fraction + magnitude % 2 ^ f.fraction) * 2 ^ (magnitude / 2 ^ f.fraction - 1)

/-- The bits are a signalling NaN. -/
def Signalling (bits : ℕ) : Prop :=
  f.infinity < bits % f.signBit ∧ bits % f.signBit < f.infinity + f.quietBit

instance (bits : ℕ) : Decidable (f.Signalling bits) := inferInstanceAs (Decidable (_ ∧ _))

end Format

/-- `n / 2 ^ t`, rounded to the nearest, and to the even one of two -/
def roundShift (n t : ℕ) : ℕ :=
  if 2 * (n % 2 ^ t) < 2 ^ t ∨ 2 * (n % 2 ^ t) = 2 ^ t ∧ n / 2 ^ t % 2 = 0 then n / 2 ^ t else n / 2 ^ t + 1

/-- The magnitude for `n / 2 ^ s` least positive numbers.  A fraction that is rounded up to the next power of two is
carried into the exponent. -/
def ofScaled (fraction s n : ℕ) : ℕ :=
  let t := max s (n.log2 - fraction)
  (t - s) * 2 ^ fraction + roundShift n t

variable (f g : Format)

/-- The magnitude in the other format: rounded, and infinite when it is too large.  A NaN becomes a quiet one, with the
upper bits of its payload. -/
def convertMagnitude (magnitude : ℕ) : ℕ :=
  if magnitude < f.infinity then
    min g.infinity (ofScaled g.fraction (f.scale - g.scale) (f.value magnitude * 2 ^ (g.scale - f.scale)))
  else if magnitude = f.infinity then g.infinity
  else
    g.infinity + g.quietBit +
      (magnitude - f.infinity) * 2 ^ (g.fraction - f.fraction) / 2 ^ (f.fraction - g.fraction) % g.quietBit

/-- The conversion of a number from one format to another -/
def convert (bits : ℕ) : ℕ :=
  bits / f.signBit % 2 * g.signBit + convertMagnitude f g (bits % f.signBit)

/-- Every number of the one format is one of the other. -/
structure Widens : Prop where
  fraction_pos : 0 < f.fraction
  fraction_le : f.fraction ≤ g.fraction
  two_le_exponent : 2 ≤ f.exponent
  exponent_le : f.exponent ≤ g.exponent
  scale_le : f.scale ≤ g.scale
  range : f.fraction + 2 ^ f.exponent + (g.scale - f.scale) + 3 ≤ g.fraction + 2 ^ g.exponent

lemma binary32_widens_binary64 : Widens binary32 binary64 := by
  constructor <;> decide

variable {f g} {p k m s n magnitude bits : ℕ}

/-! ## Rounding -/

lemma roundShift_mul (m t : ℕ) : roundShift (m * 2 ^ t) t = m := by
  have hpos := Nat.two_pow_pos t
  unfold roundShift
  rw [Nat.mul_mod_left, Nat.mul_div_cancel _ hpos, if_pos (Or.inl (by omega))]

/-- The two parts of a magnitude: the exponent, and the fraction with the bit that is not stored. -/
structure Parts (p k m : ℕ) : Prop where
  lt : m < 2 ^ (p + 1)
  normal : k = 0 ∨ 2 ^ p ≤ m

lemma Parts.magnitude_lt (h : Parts p k m) : k * 2 ^ p + m < (k + 2) * 2 ^ p := by
  have hlt := h.lt
  rw [pow_succ] at hlt
  linarith [Nat.add_mul k 2 (2 ^ p)]

lemma Parts.value_eq (h : Parts f.fraction k m) : f.value (k * 2 ^ f.fraction + m) = m * 2 ^ k := by
  have hpos := Nat.two_pow_pos f.fraction
  have hlt := h.lt
  rw [pow_succ] at hlt
  unfold Format.value
  by_cases hsmall : m < 2 ^ f.fraction
  · obtain rfl : k = 0 := by
      rcases h.normal with hk | hk
      · exact hk
      · omega
    rw [Nat.zero_mul, Nat.zero_add, if_pos hsmall, pow_zero, Nat.mul_one]
  · have hsum : k * 2 ^ f.fraction + m = (m - 2 ^ f.fraction) + 2 ^ f.fraction * (k + 1) := by
      rw [Nat.mul_add, Nat.mul_comm k]
      omega
    have hfraction : m - 2 ^ f.fraction < 2 ^ f.fraction := by omega
    rw [if_neg (by rw [hsum, Nat.mul_add]; omega), hsum, Nat.add_mul_mod_self_left, Nat.add_mul_div_left _ _ hpos,
      Nat.mod_eq_of_lt hfraction, Nat.div_eq_of_lt hfraction, Nat.zero_add, Nat.add_sub_cancel]
    congr 1
    omega

lemma exists_parts (p magnitude : ℕ) : ∃ k m, Parts p k m ∧ magnitude = k * 2 ^ p + m := by
  have hpos := Nat.two_pow_pos p
  by_cases hsmall : magnitude < 2 ^ p
  · exact ⟨0, magnitude, ⟨by rw [pow_succ]; omega, Or.inl rfl⟩, by omega⟩
  · have hdiv : 1 ≤ magnitude / 2 ^ p := (Nat.one_le_div_iff hpos).2 (by omega)
    have hmod := Nat.mod_lt magnitude hpos
    have hsum := Nat.div_add_mod magnitude (2 ^ p)
    refine ⟨magnitude / 2 ^ p - 1, 2 ^ p + magnitude % 2 ^ p, ⟨by rw [pow_succ]; omega, Or.inr (by omega)⟩, ?_⟩
    rw [Nat.sub_mul, Nat.mul_comm, Nat.one_mul]
    have : 2 ^ p * 1 ≤ 2 ^ p * (magnitude / 2 ^ p) := Nat.mul_le_mul_left _ hdiv
    omega

lemma exists_parts_mul {j : ℕ} (hm : m < 2 ^ (p + 1)) : ∃ k q, Parts p k q ∧ m * 2 ^ j = q * 2 ^ k := by
  induction j generalizing m with
  | zero => exact ⟨0, m, ⟨hm, Or.inl rfl⟩, rfl⟩
  | succ j ih =>
    by_cases hsmall : m < 2 ^ p
    · obtain ⟨k, q, hparts, heq⟩ := ih (m := 2 * m) (by rw [pow_succ]; omega)
      refine ⟨k, q, hparts, ?_⟩
      rw [← heq, pow_succ]
      ring
    · exact ⟨j + 1, m, ⟨hm, Or.inr (by omega)⟩, rfl⟩

/-- **A value that needs no rounding has its own magnitude.** -/
lemma ofScaled_mul (h : Parts p k m) (s : ℕ) : ofScaled p s (m * 2 ^ (k + s)) = k * 2 ^ p + m := by
  have ht : max s ((m * 2 ^ (k + s)).log2 - p) = k + s := by
    rcases h.normal with rfl | hnormal
    · rw [Nat.zero_add]
      apply max_eq_left
      by_cases hzero : m = 0
      · subst hzero
        rw [Nat.zero_mul, Nat.log2_zero]
        omega
      · have hne : m * 2 ^ s ≠ 0 := Nat.mul_ne_zero hzero (Nat.two_pow_pos s).ne'
        have hlt : (m * 2 ^ s).log2 < p + 1 + s := by
          rw [Nat.log2_lt hne, pow_add]
          exact Nat.mul_lt_mul_of_pos_right h.lt (Nat.two_pow_pos s)
        omega
    · have hne : m * 2 ^ (k + s) ≠ 0 :=
        Nat.mul_ne_zero (by have := Nat.two_pow_pos p; omega) (Nat.two_pow_pos _).ne'
      have hlog : (m * 2 ^ (k + s)).log2 = p + (k + s) := by
        rw [Nat.log2_eq_iff hne]
        constructor
        · rw [pow_add]
          exact Nat.mul_le_mul_right _ hnormal
        · rw [Nat.add_right_comm, pow_add 2 (p + 1)]
          exact Nat.mul_lt_mul_of_pos_right h.lt (Nat.two_pow_pos _)
      rw [hlog]
      omega
  unfold ofScaled
  simp only [ht, roundShift_mul, Nat.add_sub_cancel]

/-! ## There and back -/

lemma Format.value_lt (h : magnitude < f.infinity) : f.value magnitude < 2 ^ (f.fraction + 2 ^ f.exponent) := by
  obtain ⟨k, m, hparts, rfl⟩ := exists_parts f.fraction magnitude
  have hk : k < 2 ^ f.exponent - 1 := by
    unfold Format.infinity at h
    exact lt_of_mul_lt_mul_right (lt_of_le_of_lt (Nat.le_add_right _ _) h) (Nat.zero_le _)
  rw [hparts.value_eq]
  calc m * 2 ^ k < 2 ^ (f.fraction + 1) * 2 ^ k := Nat.mul_lt_mul_of_pos_right hparts.lt (Nat.two_pow_pos k)
    _ = 2 ^ (f.fraction + 1 + k) := (pow_add ..).symm
    _ ≤ 2 ^ (f.fraction + 2 ^ f.exponent) := Nat.pow_le_pow_right (by omega) (by omega)

/-- The value of a finite magnitude is that of a finite magnitude of the wider format. -/
lemma Widens.exists_parts (h : Widens f g) (hfinite : magnitude < f.infinity) :
    ∃ k m, Parts g.fraction k m ∧ f.value magnitude * 2 ^ (g.scale - f.scale) = m * 2 ^ k ∧
      k * 2 ^ g.fraction + m < g.infinity := by
  obtain ⟨j, q, hq, hmagnitude⟩ := BinaryFloat.exists_parts f.fraction magnitude
  have hqlt : q < 2 ^ (g.fraction + 1) :=
    hq.lt.trans_le (Nat.pow_le_pow_right (by omega) (by have := h.fraction_le; omega))
  have hvalue : f.value magnitude * 2 ^ (g.scale - f.scale) = q * 2 ^ (j + (g.scale - f.scale)) := by
    rw [hmagnitude, hq.value_eq, Nat.mul_assoc, ← pow_add]
  obtain ⟨k, m, hm, heq⟩ := exists_parts_mul (j := j + (g.scale - f.scale)) hqlt
  refine ⟨k, m, hm, hvalue.trans heq, ?_⟩
  have hexponent : 4 ≤ 2 ^ g.exponent := by
    calc 4 = 2 ^ 2 := rfl
      _ ≤ 2 ^ g.exponent := Nat.pow_le_pow_right (by omega) (h.two_le_exponent.trans h.exponent_le)
  have hk : k + 2 ≤ 2 ^ g.exponent - 1 := by
    rcases hm.normal with rfl | hnormal
    · omega
    · have hpow : 2 ^ (g.fraction + k) < 2 ^ (f.fraction + 2 ^ f.exponent + (g.scale - f.scale)) := by
        calc 2 ^ (g.fraction + k) = 2 ^ g.fraction * 2 ^ k := pow_add ..
          _ ≤ m * 2 ^ k := Nat.mul_le_mul_right _ hnormal
          _ = f.value magnitude * 2 ^ (g.scale - f.scale) := (hvalue.trans heq).symm
          _ < 2 ^ (f.fraction + 2 ^ f.exponent) * 2 ^ (g.scale - f.scale) :=
            Nat.mul_lt_mul_of_pos_right (Format.value_lt hfinite) (Nat.two_pow_pos _)
          _ = 2 ^ (f.fraction + 2 ^ f.exponent + (g.scale - f.scale)) := (pow_add ..).symm
      have hlt := (Nat.pow_lt_pow_iff_right (by omega)).1 hpow
      have := h.range
      omega
  calc k * 2 ^ g.fraction + m < (k + 2) * 2 ^ g.fraction := hm.magnitude_lt
    _ ≤ g.infinity := Nat.mul_le_mul_right _ hk

/-- **A finite magnitude is the same after it has been widened and narrowed again.** -/
lemma Widens.convert_finite (h : Widens f g) (hfinite : magnitude < f.infinity) :
    convertMagnitude g f (convertMagnitude f g magnitude) = magnitude := by
  obtain ⟨k, m, hm, hvalue, hlt⟩ := h.exists_parts hfinite
  have hscale : f.scale - g.scale = 0 := Nat.sub_eq_zero_of_le h.scale_le
  have hwide : convertMagnitude f g magnitude = k * 2 ^ g.fraction + m := by
    have hexact := ofScaled_mul hm 0
    rw [Nat.add_zero] at hexact
    rw [convertMagnitude, if_pos hfinite, hscale, hvalue, hexact]
    exact min_eq_right hlt.le
  obtain ⟨j, q, hq, hmagnitude⟩ := BinaryFloat.exists_parts f.fraction magnitude
  have hback : ofScaled f.fraction (g.scale - f.scale) (m * 2 ^ k) = magnitude := by
    rw [← hvalue, hmagnitude, hq.value_eq, Nat.mul_assoc, ← pow_add, ofScaled_mul hq]
  rw [hwide, convertMagnitude, if_pos hlt, hm.value_eq, hscale, pow_zero, Nat.mul_one, hback]
  exact min_eq_right hfinite.le

lemma Format.infinity_add : f.infinity + 2 ^ f.fraction = f.signBit := by
  unfold Format.infinity Format.signBit
  rw [pow_add, Nat.sub_mul, Nat.one_mul]
  exact Nat.sub_add_cancel (Nat.le_mul_of_pos_left _ (Nat.two_pow_pos _))

lemma Format.quietBit_add (h : 0 < f.fraction) : 2 ^ f.fraction = f.quietBit + f.quietBit := by
  unfold Format.quietBit
  rw [← Nat.two_mul, ← pow_succ', Nat.sub_add_cancel h]

lemma convertMagnitude_lt (h : 0 < g.fraction) : convertMagnitude f g magnitude < g.signBit := by
  have hsign := g.infinity_add
  have hdouble := g.quietBit_add h
  have hquiet : 0 < g.quietBit := Nat.two_pow_pos _
  unfold convertMagnitude
  split
  · exact (min_le_left _ _).trans_lt (by omega)
  split
  · omega
  · have := Nat.mod_lt ((magnitude - f.infinity) * 2 ^ (g.fraction - f.fraction) / 2 ^ (f.fraction - g.fraction)) hquiet
    omega

lemma convert_lt (h : 0 < g.fraction) : convert f g bits < 2 * g.signBit := by
  have hmagnitude : convertMagnitude f g (bits % f.signBit) < g.signBit := convertMagnitude_lt h
  have hsign := Nat.mul_le_mul_right g.signBit (show bits / f.signBit % 2 ≤ 1 by omega)
  unfold convert
  omega

/-- A NaN keeps its payload, and has become a quiet one. -/
lemma Widens.convert_nan (h : Widens f g) (hnan : f.infinity < magnitude) :
    convertMagnitude g f (convertMagnitude f g magnitude) =
      f.infinity + f.quietBit + (magnitude - f.infinity) % f.quietBit := by
  have hle := h.fraction_le
  have hpos := h.fraction_pos
  have hquiet : g.quietBit = f.quietBit * 2 ^ (g.fraction - f.fraction) := by
    unfold Format.quietBit
    rw [← pow_add]
    congr 1
    omega
  have hquietpos : 0 < g.quietBit := Nat.two_pow_pos _
  have hwide : convertMagnitude f g magnitude =
      g.infinity + g.quietBit + (magnitude - f.infinity) % f.quietBit * 2 ^ (g.fraction - f.fraction) := by
    rw [convertMagnitude, if_neg (by omega), if_neg (by omega), Nat.sub_eq_zero_of_le hle, pow_zero, Nat.div_one, hquiet,
      Nat.mul_mod_mul_right]
  have hback : (g.infinity + g.quietBit + (magnitude - f.infinity) % f.quietBit * 2 ^ (g.fraction - f.fraction) -
      g.infinity) / 2 ^ (g.fraction - f.fraction) = f.quietBit + (magnitude - f.infinity) % f.quietBit := by
    rw [Nat.add_assoc, Nat.add_sub_cancel_left, hquiet, ← Nat.add_mul, Nat.mul_div_cancel _ (Nat.two_pow_pos _)]
  rw [hwide, convertMagnitude, if_neg (by omega), if_neg (by omega), Nat.sub_eq_zero_of_le hle, pow_zero, Nat.mul_one,
    hback, Nat.add_mod_left, Nat.mod_mod]

/-- A magnitude that is widened and narrowed again is the same, unless it is that of a signalling NaN. -/
lemma Widens.convertMagnitude_eq_iff (h : Widens f g) (hlt : magnitude < f.signBit) :
    convertMagnitude g f (convertMagnitude f g magnitude) = magnitude ↔
      ¬ (f.infinity < magnitude ∧ magnitude < f.infinity + f.quietBit) := by
  rcases Nat.lt_trichotomy magnitude f.infinity with hfinite | rfl | hnan
  · exact iff_of_true (h.convert_finite hfinite) (by omega)
  · have hwide : convertMagnitude f g f.infinity = g.infinity := by
      rw [convertMagnitude, if_neg (lt_irrefl _), if_pos rfl]
    have hback : convertMagnitude g f g.infinity = f.infinity := by
      rw [convertMagnitude, if_neg (lt_irrefl _), if_pos rfl]
    rw [hwide, hback]
    exact iff_of_true rfl (by omega)
  · rw [h.convert_nan hnan]
    have hsign := f.infinity_add
    have hdouble := f.quietBit_add h.fraction_pos
    by_cases hsignalling : magnitude < f.infinity + f.quietBit
    · exact iff_of_false (by omega) (not_not.2 ⟨hnan, hsignalling⟩)
    · have hmod : (magnitude - f.infinity) % f.quietBit = magnitude - f.infinity - f.quietBit := by
        rw [Nat.mod_eq_sub_mod (by omega), Nat.mod_eq_of_lt (by omega)]
      exact iff_of_true (by omega) (by omega)

/-- **A number that is widened and narrowed again is the same, unless it is a signalling NaN.** -/
theorem Widens.convert_convert_eq_iff (h : Widens f g) (hbits : bits < 2 * f.signBit) :
    convert g f (convert f g bits) = bits ↔ ¬ f.Signalling bits := by
  have hpos : 0 < f.signBit := Nat.two_pow_pos _
  have hwide : convertMagnitude f g (bits % f.signBit) < g.signBit :=
    convertMagnitude_lt (h.fraction_pos.trans_le h.fraction_le)
  have hback := h.convertMagnitude_eq_iff (Nat.mod_lt bits hpos)
  have hsign : bits / f.signBit % 2 = bits / f.signBit :=
    Nat.mod_eq_of_lt ((Nat.div_lt_iff_lt_mul hpos).2 hbits)
  have hdiv : convert f g bits / g.signBit = bits / f.signBit := by
    unfold convert
    rw [hsign, Nat.add_comm, Nat.add_mul_div_right _ _ (show 0 < g.signBit from Nat.two_pow_pos _), Nat.div_eq_of_lt hwide, Nat.zero_add]
  have hmod : convert f g bits % g.signBit = convertMagnitude f g (bits % f.signBit) := by
    unfold convert
    rw [Nat.add_comm, Nat.add_mul_mod_self_right, Nat.mod_eq_of_lt hwide]
  unfold Format.Signalling
  rw [← hback, convert, hdiv, hmod, hsign]
  have hsum := Nat.div_add_mod bits f.signBit
  rw [Nat.mul_comm] at hsum
  omega

end MulleObjcRuntime.Lib.BinaryFloat
