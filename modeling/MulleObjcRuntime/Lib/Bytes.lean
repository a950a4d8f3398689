import Mathlib.Algebra.Order.Ring.Nat
import Mathlib.Data.List.Basic
import Mathlib.Tactic.Common

/-!
# Memory, byte by byte

* `Memory.load`, `Memory.store` — the bytes at an address;
* `store_store` — two values behind each other;
* `encode`, `decode` — the bytes of a number, in either order.
-/

namespace MulleObjcRuntime.Lib.Bytes

abbrev Byte := BitVec 8

/-- A memory has a byte at every address. -/
abbrev Memory := ℕ → Byte

namespace Memory

variable (mem : Memory)

/-- The `n` bytes at an address -/
def load : ℕ → ℕ → List Byte
  | _, 0 => []
  | a, n + 1 => mem a :: load (a + 1) n

/-- The memory with other bytes at an address -/
def store : ℕ → List Byte → Memory
  | _, [] => mem
  | a, b :: bytes => Function.update (store (a + 1) bytes) a b

variable {mem} {a b n : ℕ} {bytes bytes' : List Byte}

@[simp] lemma length_load : (mem.load a n).length = n := by
  induction n generalizing a with
  | zero => rfl
  | succ n ih => rw [load, List.length_cons, ih]

lemma store_of_not_mem (h : b < a ∨ a + bytes.length ≤ b) : mem.store a bytes b = mem b := by
  induction bytes generalizing a with
  | nil => rfl
  | cons c bytes ih =>
    rw [List.length_cons] at h
    rw [store, Function.update_of_ne (by omega), ih (by omega)]

lemma load_store_of_disjoint (h : b + n ≤ a ∨ a + bytes.length ≤ b) : (mem.store a bytes).load b n = mem.load b n := by
  induction n generalizing b with
  | zero => rfl
  | succ n ih => rw [load, load, store_of_not_mem (by omega), ih (by omega)]

lemma load_update_of_lt {c : Byte} (h : b < a) : load (Function.update mem b c) a n = mem.load a n := by
  induction n generalizing a with
  | zero => rfl
  | succ n ih => rw [load, load, Function.update_of_ne (by omega), ih (by omega)]

@[simp] lemma load_store : (mem.store a bytes).load a bytes.length = bytes := by
  induction bytes generalizing a with
  | nil => rfl
  | cons c bytes ih => rw [List.length_cons, load, store, Function.update_self, load_update_of_lt (by omega), ih]

lemma load_eq_load_iff {mem' : Memory} : mem.load a n = mem'.load a n ↔ ∀ x, a ≤ x → x < a + n → mem x = mem' x := by
  induction n generalizing a with
  | zero => exact iff_of_true rfl fun x hle hlt => absurd hlt (by omega)
  | succ n ih =>
    rw [load, load, List.cons.injEq, ih]
    constructor
    · rintro ⟨hhead, hrest⟩ x hle hlt
      rcases Nat.eq_or_lt_of_le hle with rfl | hlt'
      · exact hhead
      · exact hrest x hlt' (by omega)
    · intro h
      exact ⟨h a (Nat.le_refl a) (by omega), fun x hle hlt => h x (by omega) (by omega)⟩

lemma store_update_of_lt {c : Byte} (h : b < a) :
    store (Function.update mem b c) a bytes = Function.update (mem.store a bytes) b c := by
  induction bytes generalizing a with
  | nil => rfl
  | cons d bytes ih => rw [store, store, ih (by omega), Function.update_comm (by omega)]

lemma store_store : (mem.store a bytes).store (a + bytes.length) bytes' = mem.store a (bytes ++ bytes') := by
  induction bytes generalizing a with
  | nil => rfl
  | cons c bytes ih =>
    rw [List.cons_append, store, store, ← ih, store_update_of_lt (by rw [List.length_cons]; omega), List.length_cons,
      Nat.add_assoc, Nat.add_comm 1]

@[simp] lemma store_load : mem.store a (mem.load a n) = mem := by
  induction n generalizing a with
  | zero => rfl
  | succ n ih => rw [load, store, ih, Function.update_eq_self]

lemma store_store_same (h : bytes.length = bytes'.length) : (mem.store a bytes).store a bytes' = mem.store a bytes' := by
  induction bytes generalizing a bytes' with
  | nil => rw [List.eq_nil_of_length_eq_zero h.symm, store, store]
  | cons c bytes ih =>
    cases bytes' with
    | nil => cases h
    | cons c' bytes' =>
      rw [store, store, store, store_update_of_lt (by omega), Function.update_idem, ih (Nat.succ.inj h)]

end Memory

/-! ## Numbers -/

/-- The `n` bytes of a number, the lowest one first -/
def digits : ℕ → ℕ → List Byte
  | 0, _ => []
  | n + 1, x => BitVec.ofNat 8 x :: digits n (x / 2 ^ 8)

/-- The number that has these bytes, the lowest one first -/
def ofDigits : List Byte → ℕ
  | [] => 0
  | b :: bytes => b.toNat + 2 ^ 8 * ofDigits bytes

/-- The `n` bytes of a number -/
def encode (bigEndian : Bool) (n x : ℕ) : List Byte := if bigEndian then (digits n x).reverse else digits n x

/-- The number that has these bytes -/
def decode (bigEndian : Bool) (bytes : List Byte) : ℕ := ofDigits (if bigEndian then bytes.reverse else bytes)

variable {bigEndian : Bool} {n x : ℕ} {bytes : List Byte}

lemma length_digits : (digits n x).length = n := by
  induction n generalizing x with
  | zero => rfl
  | succ n ih => rw [digits, List.length_cons, ih]

lemma ofDigits_lt : ofDigits bytes < 2 ^ (8 * bytes.length) := by
  induction bytes with
  | nil => exact Nat.one_pos
  | cons b bytes ih =>
    have hb := b.isLt
    rw [ofDigits, List.length_cons, Nat.mul_add, pow_add]
    omega

lemma digits_ofDigits : digits bytes.length (ofDigits bytes) = bytes := by
  induction bytes with
  | nil => rfl
  | cons b bytes ih =>
    have hb := b.isLt
    have hdiv : (b.toNat + 2 ^ 8 * ofDigits bytes) / 2 ^ 8 = ofDigits bytes := by omega
    have hmod : BitVec.ofNat 8 (b.toNat + 2 ^ 8 * ofDigits bytes) = b := by
      apply BitVec.eq_of_toNat_eq
      rw [BitVec.toNat_ofNat]
      omega
    rw [List.length_cons, digits, ofDigits, hdiv, hmod, ih]

lemma ofDigits_digits : ofDigits (digits n x) = x % 2 ^ (8 * n) := by
  induction n generalizing x with
  | zero => rw [digits, ofDigits, Nat.mul_zero, pow_zero, Nat.mod_one]
  | succ n ih => rw [digits, ofDigits, ih, BitVec.toNat_ofNat, Nat.mul_add, Nat.add_comm (8 * n), pow_add, Nat.mod_mul]

@[simp] lemma length_encode : (encode bigEndian n x).length = n := by
  unfold encode
  split
  · rw [List.length_reverse, length_digits]
  · exact length_digits

lemma decode_lt (bigEndian : Bool) (bytes : List Byte) : decode bigEndian bytes < 2 ^ (8 * bytes.length) := by
  unfold decode
  split
  · rw [← List.length_reverse]
    exact ofDigits_lt
  · exact ofDigits_lt

@[simp] lemma decode_encode : decode bigEndian (encode bigEndian n x) = x % 2 ^ (8 * n) := by
  unfold decode encode
  cases bigEndian
  · exact ofDigits_digits
  · simp only [if_true, List.reverse_reverse]
    exact ofDigits_digits

lemma encode_decode (bigEndian : Bool) (bytes : List Byte) : encode bigEndian bytes.length (decode bigEndian bytes) = bytes := by
  unfold decode encode
  cases bigEndian
  · exact digits_ofDigits
  · have h : digits bytes.reverse.length (ofDigits bytes.reverse) = bytes.reverse := digits_ofDigits
    rw [List.length_reverse] at h
    simp only [if_true, h, List.reverse_reverse]

lemma encode_inj (bigEndian : Bool) {y : ℕ} (hx : x < 2 ^ (8 * n)) (hy : y < 2 ^ (8 * n)) :
    encode bigEndian n x = encode bigEndian n y ↔ x = y := by
  constructor
  · intro h
    have hdecode := congrArg (decode bigEndian) h
    rwa [decode_encode, decode_encode, Nat.mod_eq_of_lt hx, Nat.mod_eq_of_lt hy] at hdecode
  · rintro rfl
    rfl

end MulleObjcRuntime.Lib.Bytes
