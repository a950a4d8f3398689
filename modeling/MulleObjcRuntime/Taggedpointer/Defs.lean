import Mathlib.Data.Nat.Notation

/-!
# Tagged pointers

A pointer whose low bits, unused in the address of an object, hold a class index; the rest of the word is a value.

* `PointerSize` — 32 or 64 bits, with the mask and the shift of the tag;
* the predicate, the encoder and the decoder of each kind of value, the bit operations of the encoder apart from its
  assertions;
* `ValueKind` — all four kinds by one name.

A `float` and a `double` are their IEEE bits.
-/

namespace MulleObjcRuntime.Taggedpointer

/-- The size of a pointer. -/
inductive PointerSize
  | bits32
  | bits64
deriving DecidableEq, Repr

/-- `8 * sizeof( uintptr_t)` -/
def PointerSize.width : PointerSize → ℕ
  | .bits32 => 32
  | .bits64 => 64

/-- `uintptr_t` -/
abbrev Uintptr (size : PointerSize) := BitVec size.width

/-- `mulle_objc_get_taggedpointer_mask` -/
def getTaggedpointerMask : PointerSize → BitVec 32
  | .bits32 => 0x3
  | .bits64 => 0x7

/-- `mulle_objc_get_taggedpointer_shift` -/
def getTaggedpointerShift : PointerSize → ℕ
  | .bits32 => 2
  | .bits64 => 3

variable {size : PointerSize}

/-- `mulle_objc_taggedpointer_get_index` -/
def getIndex (pointer : Uintptr size) : BitVec 32 :=
  (pointer &&& (getTaggedpointerMask size).setWidth size.width).setWidth 32

/-- The assertion of every encoder. -/
def ValidIndex (size : PointerSize) (index : BitVec 32) : Prop := 0 < index ∧ index ≤ getTaggedpointerMask size

instance (index : BitVec 32) : Decidable (ValidIndex size index) := inferInstanceAs (Decidable (_ ∧ _))

/-- The assertion of the decoders: the pointer is a tagged one. -/
def HasTag (pointer : Uintptr size) : Prop := pointer &&& (getTaggedpointerMask size).setWidth size.width ≠ 0

instance (pointer : Uintptr size) : Decidable (HasTag pointer) := inferInstanceAs (Decidable (_ ≠ _))

/-! ## NSUInteger -/

/-- `mulle_objc_taggedpointer_unsignedlostbitsmask` -/
def unsignedlostbitsmask (size : PointerSize) : Uintptr size :=
  BitVec.allOnes size.width &&& ~~~(BitVec.allOnes size.width >>> getTaggedpointerShift size)

/-- `mulle_objc_taggedpointer_is_valid_unsigned_value` -/
def isValidUnsignedValue (value : Uintptr size) : Bool := value &&& unsignedlostbitsmask size == 0

/-- The bit operations of `mulle_objc_create_unsigned_taggedpointer`. -/
def unsignedTaggedpointer (value : Uintptr size) (index : BitVec 32) : Uintptr size :=
  value <<< getTaggedpointerShift size ||| index.setWidth size.width

/-- `mulle_objc_create_unsigned_taggedpointer` -/
def createUnsignedTaggedpointer (value : Uintptr size) (index : BitVec 32) : Option (Uintptr size) :=
  if ValidIndex size index ∧ isValidUnsignedValue value then some (unsignedTaggedpointer value index) else none

/-- `mulle_objc_taggedpointer_get_unsigned_value` -/
def getUnsignedValue (pointer : Uintptr size) : Option (Uintptr size) :=
  if HasTag pointer then some (pointer >>> getTaggedpointerShift size) else none

/-! ## NSInteger -/

/-- `mulle_objc_taggedpointer_signedlostbitsmask` -/
def signedlostbitsmask (size : PointerSize) : Uintptr size :=
  BitVec.allOnes size.width &&& ~~~(BitVec.allOnes size.width >>> (getTaggedpointerShift size + 1))

/-- `mulle_objc_taggedpointer_is_valid_signed_value` -/
def isValidSignedValue (value : Uintptr size) : Bool :=
  let bits := value &&& signedlostbitsmask size
  bits == 0 || bits == signedlostbitsmask size

/-- The bit operations of `mulle_objc_create_signed_taggedpointer`. -/
def signedTaggedpointer (value : Uintptr size) (index : BitVec 32) : Uintptr size :=
  value <<< getTaggedpointerShift size ||| index.setWidth size.width

/-- `mulle_objc_create_signed_taggedpointer` -/
def createSignedTaggedpointer (value : Uintptr size) (index : BitVec 32) : Option (Uintptr size) :=
  if ValidIndex size index ∧ isValidSignedValue value then some (signedTaggedpointer value index) else none

/-- `mulle_objc_taggedpointer_get_signed_value`: the shift of a signed value -/
def getSignedValue (pointer : Uintptr size) : Option (Uintptr size) :=
  if HasTag pointer then some (pointer.sshiftRight (getTaggedpointerShift size)) else none

/-! ## double -/

/-- `mulle_objc_taggedpointer_is_valid_double_value` -/
def isValidDoubleValue (size : PointerSize) (value : BitVec 64) : Bool :=
  match size with
  | .bits32 => false
  | .bits64 =>
    -- the exponent bits
    let bits := value >>> (52 + 7) &&& 0xF
    bits == 0x8 || bits == 0x7

/-- The bit operations of `mulle_objc_create_double_taggedpointer`. -/
def doubleTaggedpointer (size : PointerSize) (d : BitVec 64) (index : BitVec 32) : Uintptr size :=
  let bits := d <<< 5 ||| d >>> (64 - 5)
  (bits &&& ~~~0x7 ||| index.setWidth 64).setWidth size.width

/-- `mulle_objc_create_double_taggedpointer`, which does not assert that the value is valid -/
def createDoubleTaggedpointer (size : PointerSize) (d : BitVec 64) (index : BitVec 32) : Option (Uintptr size) :=
  if ValidIndex size index ∧ size = .bits64 then some (doubleTaggedpointer size d index) else none

/-- `mulle_objc_taggedpointer_get_double_value` -/
def getDoubleValue (pointer : Uintptr size) : BitVec 64 :=
  let bits := pointer.setWidth 64
  let bits := if bits &&& 0x8 = 0 then bits ||| 0x7 else bits &&& ~~~0x7
  bits >>> 5 ||| bits <<< (64 - 5)

/-! ## float -/

/-- `mulle_objc_taggedpointer_is_valid_float_value` -/
def isValidFloatValue (size : PointerSize) (value : BitVec 32) : Bool :=
  match size with
  | .bits64 => true
  | .bits32 =>
    let bits := value >>> (23 + 5) &&& 0x7
    bits == 0x4 || bits == 0x3

/-- The bit operations of `mulle_objc_create_float_taggedpointer`. -/
def floatTaggedpointer (size : PointerSize) (f : BitVec 32) (index : BitVec 32) : Uintptr size :=
  match size with
  | .bits32 =>
    let bits := f <<< 4 ||| f >>> (32 - 4)
    show BitVec 32 from bits &&& ~~~0x3 ||| index
  | .bits64 => f.setWidth 64 <<< 3 ||| index.setWidth 64

/-- `mulle_objc_create_float_taggedpointer`, which does not assert that the value is valid -/
def createFloatTaggedpointer (size : PointerSize) (f : BitVec 32) (index : BitVec 32) : Option (Uintptr size) :=
  if ValidIndex size index then some (floatTaggedpointer size f index) else none

/-- `mulle_objc_taggedpointer_get_float_value` -/
def getFloatValue : (size : PointerSize) → Uintptr size → Option (BitVec 32)
  | .bits32, pointer =>
    let bits := pointer
    let bits := if bits &&& 0x4 = 0 then bits ||| 0x3 else bits &&& ~~~0x3
    some (bits >>> 4 ||| bits <<< (32 - 4))
  | .bits64, pointer => if HasTag pointer then some ((pointer >>> 3).setWidth 32) else none

/-! ## All kinds -/

/-- What a tagged pointer holds. -/
inductive ValueKind
  | unsigned
  | signed
  | float
  | double
deriving DecidableEq, Repr

/-- The size of a value. -/
def ValueKind.width (size : PointerSize) : ValueKind → ℕ
  | .unsigned | .signed => size.width
  | .float => 32
  | .double => 64

/-- A pointer of this size can hold values of the kind: a `double` needs 64 bits. -/
def ValueKind.Supported (kind : ValueKind) (size : PointerSize) : Prop := kind = .double → size = .bits64

instance (kind : ValueKind) : Decidable (kind.Supported size) := inferInstanceAs (Decidable (_ → _))

/-- The predicate of a kind. -/
def isValidValue (size : PointerSize) : (kind : ValueKind) → BitVec (kind.width size) → Bool
  | .unsigned, value => isValidUnsignedValue value
  | .signed, value => isValidSignedValue value
  | .float, value => isValidFloatValue size value
  | .double, value => isValidDoubleValue size value

/-- The bit operations of the encoder of a kind. -/
def taggedpointer (size : PointerSize) : (kind : ValueKind) → BitVec (kind.width size) → BitVec 32 → Uintptr size
  | .unsigned, value, index => unsignedTaggedpointer value index
  | .signed, value, index => signedTaggedpointer value index
  | .float, value, index => floatTaggedpointer size value index
  | .double, value, index => doubleTaggedpointer size value index

/-- The encoder of a kind. -/
def createTaggedpointer (size : PointerSize) :
    (kind : ValueKind) → BitVec (kind.width size) → BitVec 32 → Option (Uintptr size)
  | .unsigned, value, index => createUnsignedTaggedpointer value index
  | .signed, value, index => createSignedTaggedpointer value index
  | .float, value, index => createFloatTaggedpointer size value index
  | .double, value, index => createDoubleTaggedpointer size value index

/-- The decoder of a kind. -/
def getValue (size : PointerSize) : (kind : ValueKind) → Uintptr size → Option (BitVec (kind.width size))
  | .unsigned, pointer => getUnsignedValue pointer
  | .signed, pointer => getSignedValue pointer
  | .float, pointer => getFloatValue size pointer
  | .double, pointer => some (getDoubleValue pointer)

end MulleObjcRuntime.Taggedpointer
