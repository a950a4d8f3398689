import MulleObjcRuntime.Lib.BinaryFloat
import MulleObjcRuntime.Lib.Bytes
import MulleObjcRuntime.Signature.Size

/-!
# Values that are promoted and demoted

What is passed through `...` is promoted: small integers are passed as an `int`, and a `float` as a `double`.

* `Machine`, `assign` — the sizes of the C types, and an assignment from one type to another;
* `demoteValue`, `promoteValue` — what the two switches do, by the first character of the type;
* `demoteValueToNatural`, `promoteValueFromNatural` — for a typeinfo, and for an arginfo;
* `Promotes`, `DemotesInOrder` — what promoting and demoting is supposed to do;
* `promotesAll_iff` — it does so except for the small integers, for which the two switches have changed places.
-/

namespace MulleObjcRuntime.Signature

open Lib.BinaryFloat Lib.Bytes

/-- The machine that values are on: a layout, the order of the bytes, and whether a `char` has a sign. -/
structure Machine extends Layout where
  bigEndian : Bool
  charSigned : Bool
  sizeof_char : sizeof .char = 1
  sizeof_uchar : sizeof .uchar = 1
  sizeof_short : sizeof .short = 2
  sizeof_ushort : sizeof .ushort = 2
  sizeof_int : sizeof .int = 4
  sizeof_uint : sizeof .uint = 4
  sizeof_methodid : sizeof .methodid = 4
  sizeof_float : sizeof .float = 4
  sizeof_double : sizeof .double = 8

namespace Machine

variable (m : Machine)

/-- The C types with a sign -/
def isSigned : CType → Bool
  | .char => m.charSigned
  | .short | .int | .long | .longlong => true
  | _ => false

/-- What the bits of a `t` are, converted to a `t'`.  What does not fit into that is cut off by `encode`. -/
def convert (t' t : CType) (bits : ℕ) : ℕ :=
  match t', t with
  | .double, .float => Lib.BinaryFloat.convert binary32 binary64 bits
  | .float, .double => Lib.BinaryFloat.convert binary64 binary32 bits
  | _, _ =>
    -- the bits above a negative number are set
    if m.isSigned t ∧ 2 ^ (8 * m.sizeof t - 1) ≤ bits then bits + 2 ^ 64 - 2 ^ (8 * m.sizeof t) else bits

/-- `*mulle_c_pointer_postincrement( dst, t') = *(t *) src` -/
def assign (t' t : CType) (mem : Memory) (dst src : ℕ) : Memory × ℕ :=
  (mem.store dst (encode m.bigEndian (m.sizeof t') (m.convert t' t (decode m.bigEndian (mem.load src (m.sizeof t))))),
    dst + m.sizeof t')

/-- `memcpy`, and the address behind the copy -/
def copy (size : ℕ) (mem : Memory) (dst src : ℕ) : Memory × ℕ := (mem.store dst (mem.load src size), dst + size)

/-- The switch of `_mulle_objc_typeinfo_demote_value_to_natural` and
`_mulle_methodsignature_arginfo_demote_value_to_natural` -/
def demoteValue (c : Char) (naturalSize : ℕ) : Memory → ℕ → ℕ → Memory × ℕ :=
  match c with
  | 'f' => m.assign .float .double
  | ':' => m.assign .uint .methodid
  | 'c' => m.assign .int .char
  | 'C' => m.assign .uint .uchar
  | 's' => m.assign .int .short
  | 'S' => m.assign .uint .ushort
  | _ => copy naturalSize

/-- The switch of `_mulle_objc_typeinfo_promote_value_from_natural` and
`_mulle_methodsignature_arginfo_promote_value_from_natural` -/
def promoteValue (c : Char) (naturalSize : ℕ) : Memory → ℕ → ℕ → Memory × ℕ :=
  match c with
  | 'f' => m.assign .double .float
  | ':' => m.assign .methodid .uint
  | 'c' => m.assign .char .int
  | 'C' => m.assign .uchar .uint
  | 's' => m.assign .short .int
  | 'S' => m.assign .ushort .uint
  | _ => copy naturalSize

/-- `_mulle_objc_typeinfo_demote_value_to_natural`, of the type that the info points at -/
def demoteValueToNatural (type : List Char) (p : TypeInfo) : Memory → ℕ → ℕ → Memory × ℕ :=
  m.demoteValue (type.headD '\x00') p.naturalSize

/-- `_mulle_objc_typeinfo_promote_value_from_natural`, of the type that the info points at -/
def promoteValueFromNatural (type : List Char) (p : TypeInfo) : Memory → ℕ → ℕ → Memory × ℕ :=
  m.promoteValue (type.headD '\x00') p.naturalSize

end Machine

/-- What is read here of a `mulle_methodsignature_arginfo`. -/
structure Arginfo where
  naturalSize : BitVec 32
  typeOffset : BitVec 16
deriving DecidableEq

/-- `_mulle_methodsignature_arginfo_demote_value_to_natural` -/
def Arginfo.demoteValueToNatural (m : Machine) (p : Arginfo) (types : List Char) : Memory → ℕ → ℕ → Memory × ℕ :=
  m.demoteValue (types.getD p.typeOffset.toNat '\x00') p.naturalSize.toNat

/-- `_mulle_methodsignature_arginfo_promote_value_from_natural` -/
def Arginfo.promoteValueFromNatural (m : Machine) (p : Arginfo) (types : List Char) : Memory → ℕ → ℕ → Memory × ℕ :=
  m.promoteValue (types.getD p.typeOffset.toNat '\x00') p.naturalSize.toNat

/-! ## What is supposed to happen -/

variable (m : Machine)

/-- The info of a scalar type -/
def Machine.scalarTypeinfo (c : Char) : TypeInfo := (supplyScalarTypeinfo m.toLayout c).2

/-- The size of the C type that a scalar type is promoted to -/
def Machine.promotedSize (c : Char) : ℕ :=
  match c with
  | 'c' | 'C' | 's' | 'S' => m.sizeof .int
  | 'f' => m.sizeof .double
  | _ => (m.scalarTypeinfo c).naturalSize

/-- A value of a scalar type, by its bytes. -/
structure NaturalValue where
  type : Char
  bytes : List Byte
  length_eq : bytes.length = (m.scalarTypeinfo type).naturalSize

variable {m}

/-- Demoting a value of a scalar type -/
def NaturalValue.demote (v : NaturalValue m) : Memory → ℕ → ℕ → Memory × ℕ :=
  m.demoteValueToNatural [v.type] (m.scalarTypeinfo v.type)

/-- Promoting a value of a scalar type -/
def NaturalValue.promote (v : NaturalValue m) : Memory → ℕ → ℕ → Memory × ℕ :=
  m.promoteValueFromNatural [v.type] (m.scalarTypeinfo v.type)

/-- A function writes `size` bytes at its destination, advances by them, and changes nothing else. -/
def WritesExactly (f : Memory → ℕ → ℕ → Memory × ℕ) (size : ℕ) : Prop :=
  ∀ mem dst src, (f mem dst src).2 = dst + size ∧ ∀ a, a < dst ∨ dst + size ≤ a → (f mem dst src).1 a = mem a

/-- **Promoting and demoting have the right sizes, and a value that is promoted and demoted is the same.** -/
structure Promotes (v : NaturalValue m) : Prop where
  promote : WritesExactly v.promote (m.promotedSize v.type)
  demote : WritesExactly v.demote v.bytes.length
  roundTrip : ∀ (mem : Memory) (tmp dst src : ℕ), mem.load src v.bytes.length = v.bytes →
    (v.demote (v.promote mem tmp src).1 dst tmp).1.load dst v.bytes.length = v.bytes

/-- At an address is what promoting the value writes. -/
def NaturalValue.PromotedAt (v : NaturalValue m) (mem : Memory) (a : ℕ) : Prop :=
  ∃ (mem' : Memory) (src : ℕ), mem'.load src v.bytes.length = v.bytes ∧
    mem.load a (m.promotedSize v.type) = (v.promote mem' a src).1.load a (m.promotedSize v.type)

/-- Arguments are demoted one after the other, each from its own address. -/
def demoteAll (mem : Memory) (dst : ℕ) : List (NaturalValue m × ℕ) → Memory × ℕ
  | [] => (mem, dst)
  | (v, src) :: args =>
    let (mem, dst) := v.demote mem dst src
    demoteAll mem dst args

/-- **Promoted arguments that are demoted one after the other lie one behind the other.** -/
def DemotesInOrder (vs : List (NaturalValue m)) : Prop :=
  ∀ (mem : Memory) (dst : ℕ) (args : List (NaturalValue m × ℕ)), args.map Prod.fst = vs →
    (∀ arg ∈ args, arg.1.PromotedAt mem arg.2 ∧
      (arg.2 + m.promotedSize arg.1.type ≤ dst ∨ dst + (vs.flatMap NaturalValue.bytes).length ≤ arg.2)) →
    demoteAll mem dst args =
      (mem.store dst (vs.flatMap NaturalValue.bytes), dst + (vs.flatMap NaturalValue.bytes).length)

variable (m) in
/-- **An arginfo does what a typeinfo does that has the same type and the same size.** -/
def ArginfoAgrees : Prop :=
  ∀ (types : List Char) (p : Arginfo) (info : TypeInfo), p.naturalSize.toNat = info.naturalSize →
    p.demoteValueToNatural m types = m.demoteValueToNatural (types.drop p.typeOffset.toNat) info ∧
      p.promoteValueFromNatural m types = m.promoteValueFromNatural (types.drop p.typeOffset.toNat) info

/-- All that promoting and demoting is supposed to do with some values. -/
def PromotesAll (vs : List (NaturalValue m)) : Prop :=
  (∀ v ∈ vs, Promotes v) ∧ DemotesInOrder vs ∧ ArginfoAgrees m

/-! ## What happens -/

/-- The types for which the two switches have changed places. -/
def SmallInteger (c : Char) : Prop := c = 'c' ∨ c = 'C' ∨ c = 's' ∨ c = 'S'

instance (c : Char) : Decidable (SmallInteger c) := inferInstanceAs (Decidable (_ ∨ _ ∨ _ ∨ _))

/-- The value is a `float` that is a signalling NaN. -/
def NaturalValue.SignallingFloat (v : NaturalValue m) : Prop :=
  v.type = 'f' ∧ binary32.Signalling (decode m.bigEndian v.bytes)

instance (v : NaturalValue m) : Decidable v.SignallingFloat := inferInstanceAs (Decidable (_ ∧ _))

section Sizes

variable {c : Char}

lemma scalarTypeinfo_naturalSize {t : CType} (hc : (supplyScalarTypeinfo m.toLayout c).2 = m.toLayout.cTypeInfo t)
    {size : ℕ} (ht : m.sizeof t = size) (hlt : size < 2 ^ 64) : (m.scalarTypeinfo c).naturalSize = size := by
  unfold Machine.scalarTypeinfo
  rw [hc]
  show unsigned 64 (m.sizeof t) = size
  rw [ht, unsigned, Nat.mod_eq_of_lt hlt]

lemma naturalSize_float : (m.scalarTypeinfo 'f').naturalSize = 4 :=
  scalarTypeinfo_naturalSize rfl m.sizeof_float (by decide)

lemma naturalSize_methodid : (m.scalarTypeinfo ':').naturalSize = 4 :=
  scalarTypeinfo_naturalSize rfl m.sizeof_methodid (by decide)

lemma naturalSize_lt_of_smallInteger (hc : SmallInteger c) :
    (m.scalarTypeinfo c).naturalSize < 4 ∧ m.promotedSize c = 4 := by
  rcases hc with rfl | rfl | rfl | rfl
  · exact ⟨by rw [scalarTypeinfo_naturalSize rfl m.sizeof_char] <;> decide, m.sizeof_int⟩
  · exact ⟨by rw [scalarTypeinfo_naturalSize rfl m.sizeof_uchar] <;> decide, m.sizeof_int⟩
  · exact ⟨by rw [scalarTypeinfo_naturalSize rfl m.sizeof_short] <;> decide, m.sizeof_int⟩
  · exact ⟨by rw [scalarTypeinfo_naturalSize rfl m.sizeof_ushort] <;> decide, m.sizeof_int⟩

lemma promotedSize_float : m.promotedSize 'f' = 8 := m.sizeof_double

lemma promotedSize_of_ne (hc : ¬ SmallInteger c) (hfloat : c ≠ 'f') :
    m.promotedSize c = (m.scalarTypeinfo c).naturalSize := by
  unfold SmallInteger at hc
  unfold Machine.promotedSize
  split
  all_goals first | rfl | exact absurd (by decide) hc | exact absurd rfl hfloat

end Sizes

lemma demoteValue_of_smallInteger {c : Char} (hc : SmallInteger c) (size : ℕ) (mem : Memory) (dst src : ℕ) :
    (m.demoteValue c size mem dst src).2 = dst + 4 := by
  rcases hc with rfl | rfl | rfl | rfl
  · exact congrArg (dst + ·) m.sizeof_int
  · exact congrArg (dst + ·) m.sizeof_uint
  · exact congrArg (dst + ·) m.sizeof_int
  · exact congrArg (dst + ·) m.sizeof_uint

namespace NaturalValue

variable {v : NaturalValue m} {mem : Memory} {dst src : ℕ}

variable (m) in
/-- The bytes of a promoted value: a `float` is widened. -/
def widened (c : Char) (bytes : List Byte) : List Byte :=
  if c = 'f' then encode m.bigEndian 8 (Lib.BinaryFloat.convert binary32 binary64 (decode m.bigEndian bytes)) else bytes

variable (m) in
/-- The bytes of a demoted value -/
def narrowed (c : Char) (bytes : List Byte) : List Byte :=
  if c = 'f' then encode m.bigEndian 4 (Lib.BinaryFloat.convert binary64 binary32 (decode m.bigEndian bytes)) else bytes

lemma length_narrowed {c : Char} {bytes : List Byte} (h : bytes.length = m.promotedSize c) (hsmall : ¬ SmallInteger c) :
    (narrowed m c bytes).length = (m.scalarTypeinfo c).naturalSize := by
  unfold narrowed
  split
  · rename_i hfloat
    rw [length_encode, hfloat, naturalSize_float]
  · rename_i hfloat
    rw [h, promotedSize_of_ne hsmall hfloat]

lemma length_widened {c : Char} {bytes : List Byte} (h : bytes.length = (m.scalarTypeinfo c).naturalSize)
    (hsmall : ¬ SmallInteger c) : (widened m c bytes).length = m.promotedSize c := by
  unfold widened
  split
  · rename_i hfloat
    rw [length_encode, hfloat, promotedSize_float]
  · rename_i hfloat
    rw [h, promotedSize_of_ne hsmall hfloat]

lemma switch_default {c : Char} (hsmall : ¬ SmallInteger c) (hfloat : c ≠ 'f') (hmethodid : c ≠ ':') (size : ℕ) :
    m.promoteValue c size = Machine.copy size ∧ m.demoteValue c size = Machine.copy size := by
  unfold SmallInteger at hsmall
  unfold Machine.promoteValue Machine.demoteValue
  constructor
  · split
    all_goals first | rfl | exact absurd (by decide) hsmall | exact absurd rfl hfloat | exact absurd rfl hmethodid
  · split
    all_goals first | rfl | exact absurd (by decide) hsmall | exact absurd rfl hfloat | exact absurd rfl hmethodid

lemma assign_unsigned {t t' : CType} (ht : m.sizeof t = 4) (ht' : m.sizeof t' = 4)
    (hconvert : ∀ bits, m.convert t' t bits = bits) : m.assign t' t mem dst src = Machine.copy 4 mem dst src := by
  have hload := encode_decode m.bigEndian (mem.load src 4)
  rw [Memory.length_load] at hload
  unfold Machine.assign Machine.copy
  rw [ht, ht', hconvert, hload]

/-- **What promoting writes** -/
lemma promote_eq (hsmall : ¬ SmallInteger v.type) :
    v.promote mem dst src =
      (mem.store dst (widened m v.type (mem.load src v.bytes.length)), dst + m.promotedSize v.type) := by
  obtain ⟨c, bytes, hlength⟩ := v
  simp only at hsmall ⊢
  by_cases hfloat : c = 'f'
  · subst hfloat
    rw [hlength, naturalSize_float, promotedSize_float]
    show m.assign .double .float mem dst src = _
    unfold Machine.assign widened
    rw [m.sizeof_float, m.sizeof_double, if_pos rfl]
    rfl
  rw [hlength, promotedSize_of_ne hsmall hfloat, widened, if_neg hfloat]
  by_cases hmethodid : c = ':'
  · subst hmethodid
    rw [naturalSize_methodid]
    exact assign_unsigned m.sizeof_uint m.sizeof_methodid fun _ => rfl
  · exact congrFun₃ (switch_default hsmall hfloat hmethodid _).1 mem dst src

/-- **What demoting writes** -/
lemma demote_eq (hsmall : ¬ SmallInteger v.type) :
    v.demote mem dst src =
      (mem.store dst (narrowed m v.type (mem.load src (m.promotedSize v.type))), dst + v.bytes.length) := by
  obtain ⟨c, bytes, hlength⟩ := v
  simp only at hsmall ⊢
  by_cases hfloat : c = 'f'
  · subst hfloat
    rw [hlength, naturalSize_float, promotedSize_float]
    show m.assign .float .double mem dst src = _
    unfold Machine.assign narrowed
    rw [m.sizeof_float, m.sizeof_double, if_pos rfl]
    rfl
  rw [hlength, promotedSize_of_ne hsmall hfloat, narrowed, if_neg hfloat]
  by_cases hmethodid : c = ':'
  · subst hmethodid
    rw [naturalSize_methodid]
    exact assign_unsigned m.sizeof_methodid m.sizeof_uint fun _ => rfl
  · exact congrFun₃ (switch_default hsmall hfloat hmethodid _).2 mem dst src

/-- A value that is widened and narrowed again is the same, unless it is a signalling NaN. -/
lemma narrowed_widened_iff (v : NaturalValue m) :
    narrowed m v.type (widened m v.type v.bytes) = v.bytes ↔ ¬ v.SignallingFloat := by
  obtain ⟨c, bytes, hlength⟩ := v
  unfold SignallingFloat narrowed widened
  by_cases hfloat : c = 'f'
  · subst hfloat
    rw [naturalSize_float] at hlength
    have hlt := decode_lt m.bigEndian bytes
    have hbytes := encode_decode m.bigEndian bytes
    rw [hlength] at hlt hbytes
    have hwide : Lib.BinaryFloat.convert binary32 binary64 (decode m.bigEndian bytes) < 2 ^ (8 * 8) := convert_lt (by decide)
    have hnarrow : Lib.BinaryFloat.convert binary64 binary32
        (Lib.BinaryFloat.convert binary32 binary64 (decode m.bigEndian bytes)) < 2 ^ (8 * 4) := convert_lt (by decide)
    have hback := encode_inj m.bigEndian hnarrow hlt
    rw [hbytes, binary32_widens_binary64.convert_convert_eq_iff hlt] at hback
    rw [if_pos rfl, if_pos rfl, decode_encode, Nat.mod_eq_of_lt hwide]
    simp only [hback, true_and]
  · simp [hfloat]

lemma demote_of_promotedAt (hsmall : ¬ SmallInteger v.type) (h : v.PromotedAt mem src) :
    v.demote mem dst src =
      (mem.store dst (narrowed m v.type (widened m v.type v.bytes)), dst + v.bytes.length) := by
  obtain ⟨mem', a, hvalue, hpromoted⟩ := h
  have hlength := length_widened v.length_eq hsmall
  have hload : mem.load src (m.promotedSize v.type) = widened m v.type v.bytes := by
    rw [hpromoted, promote_eq hsmall, hvalue, ← hlength]
    exact Memory.load_store
  rw [demote_eq hsmall, hload]

end NaturalValue

/-! ## When it is right -/

/-- A value of another type than the small integers is promoted and demoted as it is supposed to be. -/
lemma promotes_of_not_small {v : NaturalValue m} (hsmall : ¬ SmallInteger v.type) (hfloat : ¬ v.SignallingFloat) :
    Promotes v where
  promote := by
    intro mem dst src
    rw [NaturalValue.promote_eq hsmall]
    refine ⟨rfl, ?_⟩
    intro a ha
    apply Memory.store_of_not_mem
    rwa [NaturalValue.length_widened (by rw [Memory.length_load, v.length_eq]) hsmall]
  demote := by
    intro mem dst src
    rw [NaturalValue.demote_eq hsmall]
    refine ⟨rfl, ?_⟩
    intro a ha
    apply Memory.store_of_not_mem
    rwa [NaturalValue.length_narrowed Memory.length_load hsmall, ← v.length_eq]
  roundTrip := by
    intro mem tmp dst src hvalue
    rw [NaturalValue.demote_of_promotedAt hsmall ⟨mem, src, hvalue, rfl⟩, (NaturalValue.narrowed_widened_iff v).2 hfloat]
    exact Memory.load_store

lemma not_small_of_promotes {v : NaturalValue m} (h : Promotes v) : ¬ SmallInteger v.type := by
  intro hsmall
  have hsize := (h.demote (fun _ => 0) 0 0).1
  have hlt := (naturalSize_lt_of_smallInteger (m := m) hsmall).1
  have hfour : (v.demote (fun _ => 0) 0 0).2 = 0 + 4 := demoteValue_of_smallInteger hsmall _ _ 0 0
  have hlength := v.length_eq
  omega

lemma not_signalling_of_promotes {v : NaturalValue m} (h : Promotes v) : ¬ v.SignallingFloat := by
  have hsmall := not_small_of_promotes h
  rw [← NaturalValue.narrowed_widened_iff]
  have hvalue : (Memory.store (fun _ => 0) 0 v.bytes).load 0 v.bytes.length = v.bytes := Memory.load_store
  have hback := h.roundTrip _ 0 0 0 hvalue
  have hlength := NaturalValue.length_narrowed (NaturalValue.length_widened v.length_eq hsmall) hsmall
  rw [NaturalValue.demote_of_promotedAt hsmall ⟨_, 0, hvalue, rfl⟩, v.length_eq, ← hlength] at hback
  exact Memory.load_store.symm.trans hback

lemma NaturalValue.PromotedAt.store {v : NaturalValue m} {mem : Memory} {a dst : ℕ} {bytes : List Byte}
    (h : v.PromotedAt mem a) (hapart : a + m.promotedSize v.type ≤ dst ∨ dst + bytes.length ≤ a) :
    v.PromotedAt (mem.store dst bytes) a := by
  obtain ⟨mem', src, hvalue, hpromoted⟩ := h
  refine ⟨mem', src, hvalue, ?_⟩
  rw [Memory.load_store_of_disjoint hapart, hpromoted]

/-- **Arguments are demoted one behind the other.**  The induction is on the arguments; what is still to be demoted lies
apart from what has been written. -/
lemma demotesInOrder_of_not_small {vs : List (NaturalValue m)}
    (h : ∀ v ∈ vs, ¬ SmallInteger v.type ∧ ¬ v.SignallingFloat) : DemotesInOrder vs := by
  intro mem dst args hargs hpromoted
  induction args generalizing mem dst vs with
  | nil =>
    subst hargs
    rfl
  | cons arg args ih =>
    obtain ⟨v, src⟩ := arg
    obtain ⟨_, vs, rfl⟩ : ∃ w ws, vs = w :: ws := ⟨_, _, hargs.symm⟩
    obtain ⟨rfl, htail⟩ := List.cons.inj hargs
    obtain ⟨⟨hsmall, hfloat⟩, h⟩ := List.forall_mem_cons.1 h
    obtain ⟨⟨hvalue, -⟩, hpromoted⟩ := List.forall_mem_cons.1 hpromoted
    simp only [List.flatMap_cons, List.length_append] at hpromoted ⊢
    rw [demoteAll, NaturalValue.demote_of_promotedAt hsmall hvalue, (NaturalValue.narrowed_widened_iff v).2 hfloat]
    have hrest := ih h (mem.store dst v.bytes) (dst + v.bytes.length) htail ?_
    · exact hrest.trans (by rw [Memory.store_store, Nat.add_assoc])
    · intro arg harg
      obtain ⟨hvalue, hapart⟩ := hpromoted arg harg
      exact ⟨hvalue.store (by omega), by omega⟩

lemma arginfoAgrees (m : Machine) : ArginfoAgrees m := by
  intro types p info hsize
  have htype : types.getD p.typeOffset.toNat '\x00' = (types.drop p.typeOffset.toNat).headD '\x00' := by
    rw [List.headD_eq_head?_getD, List.head?_drop, List.getD_eq_getElem?_getD]
  unfold Arginfo.demoteValueToNatural Arginfo.promoteValueFromNatural Machine.demoteValueToNatural
    Machine.promoteValueFromNatural
  rw [htype, hsize]
  exact ⟨rfl, rfl⟩

/-- **Promoting and demoting is right for exactly the values that are no small integers** (and no signalling NaNs, which
no conversion keeps). -/
theorem promotesAll_iff (vs : List (NaturalValue m)) :
    PromotesAll vs ↔ ∀ v ∈ vs, ¬ SmallInteger v.type ∧ ¬ v.SignallingFloat := by
  constructor
  · rintro ⟨hpromotes, -, -⟩ v hv
    exact ⟨not_small_of_promotes (hpromotes v hv), not_signalling_of_promotes (hpromotes v hv)⟩
  · intro h
    refine ⟨?_, demotesInOrder_of_not_small h, arginfoAgrees m⟩
    intro v hv
    exact promotes_of_not_small (h v hv).1 (h v hv).2

/-! ## A character -/

/-- A common machine. -/
def commonMachine : Machine where
  toLayout := commonLayout
  bigEndian := false
  charSigned := true
  sizeof_char := rfl
  sizeof_uchar := rfl
  sizeof_short := rfl
  sizeof_ushort := rfl
  sizeof_int := rfl
  sizeof_uint := rfl
  sizeof_methodid := rfl
  sizeof_float := rfl
  sizeof_double := rfl

/-- The `char` with the value `-1` -/
def minusOne : NaturalValue commonMachine := ⟨'c', [0xff], rfl⟩

/-- **A `char` that is demoted overwrites the three bytes behind it.** -/
theorem char_overwrites : ¬ PromotesAll [minusOne] ∧
    ((minusOne.demote (Memory.store (fun _ => 0) 8 [0xff]) 0 8).1.load 0 4 = [0xff, 0xff, 0xff, 0xff] ∧
      (minusOne.demote (Memory.store (fun _ => 0) 8 [0xff]) 0 8).2 = 4) := by
  refine ⟨?_, by decide +kernel, by decide +kernel⟩
  rintro ⟨h, -, -⟩
  have hframe := ((h minusOne (List.mem_singleton_self _)).demote (Memory.store (fun _ => 0) 8 [0xff]) 0 8).2 1
    (Or.inr (by decide))
  exact absurd hframe (by decide +kernel)

end MulleObjcRuntime.Signature
