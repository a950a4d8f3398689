import MulleObjcRuntime.Lib.TaggedWord
import MulleObjcRuntime.Taggedpointer.Defs

/-!
# What comes back from a tagged pointer

For each kind of value: the decoder gives the value back exactly if the predicate holds for it.

* `getUnsignedValue_taggedpointer`, `getSignedValue_taggedpointer`, `getDoubleValue_taggedpointer`,
  `getFloatValue_taggedpointer` — one kind each;
* `getIndex_taggedpointer` — the index comes back with any value;
* `taggedpointer_roundtrip` — all kinds, in both sizes.
-/

namespace MulleObjcRuntime.Taggedpointer

open Lib.TaggedWord

variable {size : PointerSize} {index : BitVec 32}

/-! ## The tag -/

lemma shift_lt_width : getTaggedpointerShift size < size.width := by cases size <;> decide

lemma setWidth_mask :
    (getTaggedpointerMask size).setWidth size.width = mask size.width (getTaggedpointerShift size) := by
  cases size <;> decide

lemma isTag_index (hindex : ValidIndex size index) :
    IsTag (getTaggedpointerShift size) (index.setWidth size.width) := by
  apply isTag_of_toNat_lt
  have hle : index.toNat ≤ (getTaggedpointerMask size).toNat := hindex.2
  have hmask : (getTaggedpointerMask size).toNat < 2 ^ getTaggedpointerShift size := by cases size <;> decide
  rw [BitVec.toNat_setWidth]
  exact (Nat.mod_le _ _).trans_lt (hle.trans_lt hmask)

lemma setWidth_index : (index.setWidth size.width).setWidth 32 = index := by
  have hwidth : 32 ≤ size.width := by cases size <;> decide
  rw [BitVec.setWidth_setWidth_of_le _ hwidth, BitVec.setWidth_eq]

lemma getIndex_of_and_mask (hindex : ValidIndex size index) {pointer : Uintptr size}
    (h : pointer &&& mask size.width (getTaggedpointerShift size) = index.setWidth size.width) :
    getIndex pointer = index ∧ HasTag pointer := by
  refine ⟨?_, ?_⟩
  · rw [getIndex, setWidth_mask, h, setWidth_index]
  · rw [HasTag, setWidth_mask, h]
    intro hzero
    have : index = 0 := by
      rw [← @setWidth_index size index, hzero]
      cases size <;> rfl
    exact absurd (this ▸ hindex.1) (by decide)

/-! ## Each kind -/

lemma isValidUnsignedValue_iff {value : Uintptr size} :
    isValidUnsignedValue value = true ↔
      ∀ k < size.width, size.width ≤ k + getTaggedpointerShift size → value.getLsbD k = false := by
  rw [← and_topMask_eq_zero_iff]
  exact beq_iff_eq

/-- **An unsigned value comes back exactly if it is valid.** -/
theorem getUnsignedValue_taggedpointer (hindex : ValidIndex size index) (value : Uintptr size) :
    getUnsignedValue (unsignedTaggedpointer value index) = some value ↔ isValidUnsignedValue value = true := by
  have hi := isTag_index hindex
  have htag : HasTag (unsignedTaggedpointer value index) := (getIndex_of_and_mask hindex (shiftLeft_or_and_mask hi)).2
  rw [getUnsignedValue, if_pos htag, Option.some_inj, isValidUnsignedValue_iff]
  exact ushiftRight_shiftLeft_or hi

lemma isValidSignedValue_iff {value : Uintptr size} :
    isValidSignedValue value = true ↔
      ∀ k < size.width, size.width ≤ k + getTaggedpointerShift size →
        value.getLsbD k = value.getLsbD (size.width - getTaggedpointerShift size - 1) := by
  rw [← top_uniform_iff shift_lt_width, isValidSignedValue, Bool.or_eq_true, beq_iff_eq, beq_iff_eq]
  rfl

/-- **A signed value comes back exactly if it is valid.** -/
theorem getSignedValue_taggedpointer (hindex : ValidIndex size index) (value : Uintptr size) :
    getSignedValue (signedTaggedpointer value index) = some value ↔ isValidSignedValue value = true := by
  have hi := isTag_index hindex
  have htag : HasTag (signedTaggedpointer value index) := (getIndex_of_and_mask hindex (shiftLeft_or_and_mask hi)).2
  rw [getSignedValue, if_pos htag, Option.some_inj, isValidSignedValue_iff]
  exact sshiftRight_shiftLeft_or hi shift_lt_width

lemma exponent_opposite_iff {w t n : ℕ} {x : BitVec w} (htn : t < n) (hn : n ≤ w) :
    (x >>> (w - n) &&& mask w (t + 1) = BitVec.ofNat w (2 ^ t) ∨ x >>> (w - n) &&& mask w (t + 1) = mask w t) ↔
      ∀ k < t, x.getLsbD (w - n + k) = !x.getLsbD (w - n + t) := by
  rw [low_opposite_iff (by omega)]
  simp only [BitVec.getLsbD_ushiftRight]

lemma isValidDoubleValue_iff {value : BitVec 64} :
    isValidDoubleValue .bits64 value = true ↔
      ∀ k < 3, value.getLsbD (64 - 5 + k) = !value.getLsbD (64 - 5 + 3) := by
  rw [← exponent_opposite_iff (by decide) (by decide), isValidDoubleValue, Bool.or_eq_true, beq_iff_eq, beq_iff_eq]
  rfl

/-- A test of one bit. -/
lemma and_twoPow_eq_zero_iff {w k : ℕ} (hk : k < w) {x : BitVec w} :
    x &&& BitVec.ofNat w (2 ^ k) = 0 ↔ x.getLsbD k = false := by
  have hbit : ∀ j, (x &&& BitVec.ofNat w (2 ^ k)).getLsbD j = (decide (j < w ∧ k = j) && x.getLsbD j) := by
    intro j
    rw [BitVec.getLsbD_and, BitVec.getLsbD_ofNat, Nat.testBit_two_pow, Bool.decide_and, Bool.and_comm]
  constructor
  · intro h
    have := hbit k
    rw [h, decide_eq_true ⟨hk, rfl⟩, Bool.true_and] at this
    simpa using this.symm
  · intro h
    apply BitVec.eq_of_getLsbD_eq
    intro j hj
    rw [hbit]
    by_cases hkj : k = j
    · subst hkj
      simp [h]
    · simp [hkj]

lemma restore_eq_unpackLow {w t : ℕ} (ht : t < w) (e : BitVec w) :
    (if e &&& BitVec.ofNat w (2 ^ t) = 0 then e ||| mask w t else e &&& ~~~mask w t) = unpackLow t e := by
  unfold unpackLow
  by_cases h : e.getLsbD t = true
  · rw [if_pos h, if_neg]
    rw [and_twoPow_eq_zero_iff ht, h]
    exact Bool.true_eq_false_eq_False
  · rw [if_neg h, if_pos]
    rw [and_twoPow_eq_zero_iff ht]
    simpa using h

lemma getDoubleValue_eq (d : BitVec 64) :
    getDoubleValue (doubleTaggedpointer .bits64 d index) =
      rotr 5 (unpackLow 3 (packLow 3 (rotl 5 d) (index.setWidth 64))) := by
  rw [← restore_eq_unpackLow (by decide)]
  rfl

/-- **A `double` comes back exactly if it is valid.** -/
theorem getDoubleValue_taggedpointer (hindex : ValidIndex .bits64 index) (d : BitVec 64) :
    getDoubleValue (doubleTaggedpointer .bits64 d index) = d ↔ isValidDoubleValue .bits64 d = true := by
  rw [getDoubleValue_eq, isValidDoubleValue_iff]
  exact rotr_unpackLow_packLow_rotl (isTag_index hindex) (by decide) (by decide)

lemma isValidFloatValue_iff {value : BitVec 32} :
    isValidFloatValue .bits32 value = true ↔
      ∀ k < 2, value.getLsbD (32 - 4 + k) = !value.getLsbD (32 - 4 + 2) := by
  rw [← exponent_opposite_iff (by decide) (by decide), isValidFloatValue, Bool.or_eq_true, beq_iff_eq, beq_iff_eq]
  rfl

lemma getFloatValue_eq (f : BitVec 32) :
    getFloatValue .bits32 (floatTaggedpointer .bits32 f index) =
      some (rotr 4 (unpackLow 2 (packLow 2 (rotl 4 f) index))) := by
  rw [← restore_eq_unpackLow (by decide)]
  rfl

lemma ushiftRight_setWidth_or (f : BitVec 32) {i : BitVec 64} (hi : IsTag 3 i) :
    (f.setWidth 64 <<< 3 ||| i) >>> 3 = f.setWidth 64 := by
  refine (ushiftRight_shiftLeft_or hi).2 fun k _ hk => ?_
  rw [BitVec.getLsbD_setWidth, BitVec.getLsbD_of_ge f k (by omega), Bool.and_false]

/-- **A `float` comes back exactly if it is valid.** -/
theorem getFloatValue_taggedpointer (hindex : ValidIndex size index) (f : BitVec 32) :
    getFloatValue size (floatTaggedpointer size f index) = some f ↔ isValidFloatValue size f = true := by
  cases size with
  | bits32 =>
    have hi : IsTag 2 (index.setWidth 32) := isTag_index hindex
    rw [BitVec.setWidth_eq] at hi
    rw [getFloatValue_eq, Option.some_inj, isValidFloatValue_iff]
    exact rotr_unpackLow_packLow_rotl hi (by decide) (by decide)
  | bits64 =>
    have hi : IsTag 3 (index.setWidth 64) := isTag_index hindex
    have htag : HasTag (floatTaggedpointer .bits64 f index) :=
      (getIndex_of_and_mask hindex (shiftLeft_or_and_mask hi)).2
    have hvalue : floatTaggedpointer .bits64 f index >>> 3 = f.setWidth 64 := ushiftRight_setWidth_or f hi
    have hback : (f.setWidth 64).setWidth 32 = f := by
      rw [BitVec.setWidth_setWidth_of_le _ (by decide), BitVec.setWidth_eq]
    rw [getFloatValue, if_pos htag, hvalue]
    exact iff_of_true (congrArg some hback) rfl

/-! ## All kinds -/

/-- **The index comes back with any value.** -/
theorem getIndex_taggedpointer (hindex : ValidIndex size index) {kind : ValueKind} (hkind : kind.Supported size)
    (value : BitVec (kind.width size)) : getIndex (taggedpointer size kind value index) = index := by
  have hi := isTag_index hindex
  cases kind with
  | unsigned => exact (getIndex_of_and_mask hindex (shiftLeft_or_and_mask hi)).1
  | signed => exact (getIndex_of_and_mask hindex (shiftLeft_or_and_mask hi)).1
  | float =>
    cases size with
    | bits32 =>
      refine (getIndex_of_and_mask hindex ?_).1
      have hi' : IsTag 2 (index.setWidth 32) := hi
      have hpack := packLow_and_mask (r := rotl 4 (show BitVec 32 from value)) hi'
      rw [BitVec.setWidth_eq] at hpack
      exact hpack.trans (BitVec.setWidth_eq index).symm
    | bits64 => exact (getIndex_of_and_mask hindex (shiftLeft_or_and_mask hi)).1
  | double =>
    cases hkind rfl
    refine (getIndex_of_and_mask hindex ?_).1
    have hi' : IsTag 3 (index.setWidth 64) := hi
    have hpack := packLow_and_mask (r := rotl 5 (show BitVec 64 from value)) hi'
    have hcast : taggedpointer .bits64 .double value index = packLow 3 (rotl 5 value) (index.setWidth 64) :=
      BitVec.setWidth_eq _
    rw [hcast]
    exact hpack

lemma getValue_taggedpointer_iff (hindex : ValidIndex size index) {kind : ValueKind} (hkind : kind.Supported size)
    (value : BitVec (kind.width size)) :
    getValue size kind (taggedpointer size kind value index) = some value ↔ isValidValue size kind value = true := by
  cases kind with
  | unsigned => exact getUnsignedValue_taggedpointer hindex value
  | signed => exact getSignedValue_taggedpointer hindex value
  | float => exact getFloatValue_taggedpointer hindex value
  | double =>
    cases hkind rfl
    exact Option.some_inj.trans (getDoubleValue_taggedpointer hindex value)

lemma createTaggedpointer_eq (hindex : ValidIndex size index) {kind : ValueKind} (hkind : kind.Supported size)
    {value : BitVec (kind.width size)} (hvalue : isValidValue size kind value = true) :
    createTaggedpointer size kind value index = some (taggedpointer size kind value index) := by
  cases kind with
  | unsigned => exact if_pos ⟨hindex, hvalue⟩
  | signed => exact if_pos ⟨hindex, hvalue⟩
  | float => exact if_pos hindex
  | double => exact if_pos ⟨hindex, hkind rfl⟩

/-- **Every valid value and its index come back, and no other value does.** -/
theorem taggedpointer_roundtrip {kind : ValueKind} (hkind : kind.Supported size) (hindex : ValidIndex size index)
    (value : BitVec (kind.width size)) :
    (isValidValue size kind value = true → ∃ pointer, createTaggedpointer size kind value index = some pointer ∧
        getValue size kind pointer = some value ∧ getIndex pointer = index) ∧
      (isValidValue size kind value = false →
        getValue size kind (taggedpointer size kind value index) ≠ some value) := by
  constructor
  · intro hvalue
    exact ⟨_, createTaggedpointer_eq hindex hkind hvalue, (getValue_taggedpointer_iff hindex hkind value).2 hvalue,
      getIndex_taggedpointer hindex hkind value⟩
  · intro hvalue hback
    rw [(getValue_taggedpointer_iff hindex hkind value).1 hback] at hvalue
    cases hvalue

/-- The `double` 1.0 under the index 5. -/
theorem taggedpointer_roundtrip_one :
    (isValidValue .bits64 .double 0x3ff0000000000000#64 = true →
        ∃ pointer, createTaggedpointer .bits64 .double 0x3ff0000000000000#64 5 = some pointer ∧
          getValue .bits64 .double pointer = some 0x3ff0000000000000#64 ∧ getIndex pointer = 5) ∧
      (isValidValue .bits64 .double 0x3ff0000000000000#64 = false →
        getValue .bits64 .double (taggedpointer .bits64 .double 0x3ff0000000000000#64 5) ≠
          some 0x3ff0000000000000#64) :=
  @taggedpointer_roundtrip .bits64 5 .double (fun _ => rfl) (by decide) 0x3ff0000000000000#64

end MulleObjcRuntime.Taggedpointer
