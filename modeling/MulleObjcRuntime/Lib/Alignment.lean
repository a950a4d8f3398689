import Mathlib.Algebra.Order.Group.Nat

/-!
# Rounding up to an alignment

* `roundUp` — the next multiple of the alignment;
* `roundUp_eq_self_iff` — what is rounded up already;
* `roundUp_mul` — rounding in a smaller unit;
* `roundUp_add` — rounding from another origin.
-/

namespace MulleObjcRuntime.Lib.Alignment

/-- The least multiple of `a` from `n` on. -/
def roundUp (n a : ℕ) : ℕ := (n + a - 1) / a * a

variable {n m a k : ℕ}

lemma dvd_roundUp (n a : ℕ) : a ∣ roundUp n a := Nat.dvd_mul_left a _

lemma le_roundUp (ha : 0 < a) : n ≤ roundUp n a := by
  have hmod := Nat.mod_lt (n + a - 1) ha
  have hdiv := Nat.div_add_mod (n + a - 1) a
  rw [roundUp, Nat.mul_comm]
  omega

lemma roundUp_lt (ha : 0 < a) : roundUp n a < n + a := by
  have hdiv := Nat.div_add_mod (n + a - 1) a
  rw [roundUp, Nat.mul_comm]
  omega

lemma roundUp_le (ha : 0 < a) (hnm : n ≤ m) (hm : a ∣ m) : roundUp n a ≤ m := by
  obtain ⟨k, rfl⟩ := hm
  obtain ⟨j, hj⟩ := dvd_roundUp n a
  have hlt : roundUp n a < n + a := roundUp_lt ha
  rw [hj] at hlt ⊢
  apply Nat.mul_le_mul_left
  by_contra hkj
  have hle : a * (k + 1) ≤ a * j := Nat.mul_le_mul_left a (by omega)
  rw [Nat.mul_succ] at hle
  omega

lemma roundUp_eq_self_iff (ha : 0 < a) : roundUp n a = n ↔ a ∣ n := by
  constructor
  · intro h
    rw [← h]
    exact dvd_roundUp n a
  · intro h
    exact Nat.le_antisymm (roundUp_le ha (Nat.le_refl n) h) (le_roundUp ha)

lemma roundUp_mul (hk : 0 < k) (ha : 0 < a) : roundUp (k * n) (k * a) = k * roundUp n a := by
  apply Nat.le_antisymm
  · apply roundUp_le (Nat.mul_pos hk ha)
    · exact Nat.mul_le_mul_left k (le_roundUp ha)
    · exact Nat.mul_dvd_mul_left k (dvd_roundUp n a)
  · obtain ⟨j, hj⟩ := dvd_roundUp (k * n) (k * a)
    have hle : k * n ≤ k * (a * j) := by
      rw [← Nat.mul_assoc, ← hj]
      exact le_roundUp (Nat.mul_pos hk ha)
    rw [hj, Nat.mul_assoc]
    apply Nat.mul_le_mul_left
    exact roundUp_le ha (Nat.le_of_mul_le_mul_left hle hk) (Nat.dvd_mul_right a j)

lemma roundUp_add (ha : 0 < a) (hk : a ∣ k) : roundUp (k + n) a = k + roundUp n a := by
  obtain ⟨j, rfl⟩ := hk
  unfold roundUp
  rw [show a * j + n + a - 1 = n + a - 1 + a * j by omega, Nat.add_mul_div_left _ _ ha, Nat.add_mul, Nat.add_comm,
    Nat.mul_comm j a]

end MulleObjcRuntime.Lib.Alignment
