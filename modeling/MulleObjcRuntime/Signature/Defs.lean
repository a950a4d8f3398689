import MulleObjcRuntime.Lib.Alignment

/-!
# Type encodings

A type is encoded in a few characters; the runtime finds its size and its alignment by parsing them.

* `TypeInfo` — what the parser finds out about a type;
* `supplyScalarTypeinfo` — what it knows of the scalars, given their sizes and alignments;
* `typeParse` — the recursive descent; without an info, a type is only skipped;
* `supplyTypeinfo`, `supplySizeAndAlignment` — what callers use.

A string is the list of its characters before the final zero.  Type qualifiers are not defined any more.
-/

namespace MulleObjcRuntime.Signature

/-- The C types that the encodings stand for. -/
inductive CType
  | object
  | class_
  | methodid
  | char
  | uchar
  | short
  | ushort
  | int
  | uint
  | long
  | ulong
  | longlong
  | ulonglong
  | float
  | double
  | charptr
  | voidptr
  | functionptr
  deriving DecidableEq

/-- Sizes and alignments of the C types.  The alignment in bits has to go into a field of 16 bits. -/
structure Layout where
  sizeof : CType → ℕ
  alignof : CType → ℕ
  alignof_pos : ∀ t, 0 < alignof t
  alignof_lt : ∀ t, alignof t * 8 < 2 ^ 16
  alignof_dvd : ∀ t, alignof t ∣ sizeof t

/-- `mulle_objc_typeinfo`, without what points into the string. -/
@[ext]
structure TypeInfo where
  nMembers : ℕ
  naturalSize : ℕ
  bitsSize : ℕ
  bitsStructAlignment : ℕ
  naturalAlignment : ℕ
  hasObject : Bool
  hasRetainableType : Bool
  deriving DecidableEq

/-- What is left of a number in an unsigned field. -/
def unsigned (bits n : ℕ) : ℕ := n % 2 ^ bits

/-- `_CLEAR_RUNTIME_TYPE_INFO` -/
def TypeInfo.clear : TypeInfo := ⟨0, 0, 0, 0, 0, false, false⟩

section

variable (l : Layout)

/-- `__SUPPLY_RUNTIME_TYPE_INFO`.  Behind a single char, a member has the offset of its alignment. -/
def Layout.typeInfo (t : CType) (hasObject hasRetainableType : Bool) : TypeInfo where
  nMembers := 0
  naturalSize := unsigned 64 (l.sizeof t)
  bitsSize := unsigned 64 (l.sizeof t * 8)
  bitsStructAlignment := unsigned 16 (l.alignof t * 8)
  naturalAlignment := unsigned 16 (l.alignof t)
  hasObject
  hasRetainableType

/-- `_SUPPLY_RUNTIME_C_TYPE_INFO` -/
def Layout.cTypeInfo (t : CType) : TypeInfo := l.typeInfo t false false

/-- `_SUPPLY_RUNTIME_CHARPTR_TYPE_INFO` -/
def Layout.charptrTypeInfo : TypeInfo := l.typeInfo .charptr false true

/-- `_SUPPLY_RUNTIME_OBJC_TYPE_INFO` -/
def Layout.objcTypeInfo (t : CType) (retain : Bool) : TypeInfo := l.typeInfo t true retain

/-- `_mulle_objc_signature_supply_scalar_typeinfo`, the end of the string apart. -/
def supplyScalarTypeinfo (c : Char) : ℤ × TypeInfo :=
  match c with
  | 'v' => (0, .clear)
  | '~' => (0, l.objcTypeInfo .object true)
  | '@' => (1, l.objcTypeInfo .object true)
  | '=' => (0, l.objcTypeInfo .object false)
  | '#' => (0, l.objcTypeInfo .class_ false)
  | ':' => (0, l.cTypeInfo .methodid)
  | 'c' => (0, l.cTypeInfo .char)
  | 'B' => (0, l.cTypeInfo .int)
  | 'C' => (0, l.cTypeInfo .uchar)
  | 's' => (0, l.cTypeInfo .short)
  | 'S' => (0, l.cTypeInfo .ushort)
  | 'i' => (0, l.cTypeInfo .int)
  | 'I' => (0, l.cTypeInfo .uint)
  | 'l' => (0, l.cTypeInfo .long)
  | 'L' => (0, l.cTypeInfo .ulong)
  | 'q' => (0, l.cTypeInfo .longlong)
  | 'Q' => (0, l.cTypeInfo .ulonglong)
  | 'f' => (0, l.cTypeInfo .float)
  | 'd' => (0, l.cTypeInfo .double)
  | '*' => (0, l.charptrTypeInfo)
  | '?' => (0, l.cTypeInfo .voidptr)
  | '%' => (0, l.cTypeInfo .charptr)
  | _ => (1, .clear)

/-- `is_multi_character_type` -/
def isMultiCharacterType (c : Char) : Bool :=
  match c with
  | '^' | '[' | '{' | '(' | 'b' | '@' => true
  | _ => false

/-- What a part of the parser gives: the info, if one is wanted, and the rest of the string. -/
abbrev Parsed := Option (Option TypeInfo × List Char)

/-- The number at the head of the string, after `n`.  An `int` that overflows has no value. -/
def parseLength (n : ℕ) : List Char → Option (ℕ × List Char)
  | [] => some (n, [])
  | c :: s =>
    if '0' ≤ c ∧ c ≤ '9' then
      let n := n * 10 + (c.toNat - '0'.toNat)
      if n < 2 ^ 31 then parseLength n s else none
    else some (n, c :: s)

/-- `_mulle_objc_signature_supply_bitfield_typeinfo` -/
def supplyBitfieldTypeinfo (info : Bool) (s : List Char) : Parsed := do
  let (len, s) ← parseLength 0 s
  let bits : TypeInfo :=
    { TypeInfo.clear with
      nMembers := len
      bitsSize := len
      naturalSize := ((len + 7) / 8 + l.sizeof .int - 1) / l.sizeof .int
      bitsStructAlignment := 1 }
  return (if info then some bits else none, s)

/-- `_update_array_typeinfo_with_length` -/
def updateArrayTypeinfoWithLength (len : ℕ) (tmp : TypeInfo) : TypeInfo :=
  { tmp with
    nMembers := len
    bitsSize := unsigned 64 (len * tmp.bitsSize)
    naturalSize := unsigned 64 (len * tmp.naturalSize) }

/-- `_mulle_objc_signature_supply_array_typeinfo`, given the parser for the members. -/
def supplyArrayTypeinfo (parse : List Char → Parsed) (s : List Char) : Parsed := do
  let (len, s) ← parseLength 0 s
  match ← parse s with
  | (tmp, ']' :: s) => return (tmp.map (updateArrayTypeinfoWithLength len), s)
  | _ => none

/-- What a struct and a union do differently: the character at the end, and what happens to the info for the member
that comes after `n` others, and at the end. -/
structure Aggregate where
  close : Char
  update : ℕ → TypeInfo → TypeInfo → TypeInfo
  finalize : ℕ → TypeInfo → TypeInfo

/-- The loop of `_mulle_objc_signature_supply_struct_typeinfo` and `_mulle_objc_signature_supply_union_typeinfo`, after
`n` members. -/
def supplyMembersTypeinfo (agg : Aggregate) (parse : List Char → Parsed) :
    ℕ → ℕ → Option TypeInfo → List Char → Parsed
  | 0, _, _, _ => none
  | _ + 1, _, _, [] => none
  | fuel + 1, n, info, c :: s =>
    if c = agg.close then some (info.map (agg.finalize n), s)
    -- the name goes up to the equal sign
    else if n = 0 ∧ c ≠ '=' then supplyMembersTypeinfo agg parse fuel n info s
    else
      (parse (if n = 0 then s else c :: s)).bind fun (tmp, s) =>
        supplyMembersTypeinfo agg parse fuel (n + 1)
          (info.bind fun info => tmp.map fun tmp => agg.update n info tmp) s

variable (align : ℕ → ℕ → ℕ)

/-- `_update_struct_typeinfo_with_first_member_typeinfo` -/
def updateStructTypeinfoWithFirstMemberTypeinfo (info tmp : TypeInfo) : TypeInfo :=
  { info with
    bitsSize := tmp.bitsSize
    bitsStructAlignment := tmp.bitsStructAlignment
    naturalAlignment := tmp.naturalAlignment
    hasObject := tmp.hasObject
    hasRetainableType := tmp.hasRetainableType }

/-- `_update_struct_typeinfo_with_subsequent_member_typeinfo`, where `align` is `mulle_address_align` -/
def updateStructTypeinfoWithSubsequentMemberTypeinfo (info tmp : TypeInfo) : TypeInfo :=
  { info with
    bitsSize := unsigned 64 (unsigned 32 (align info.bitsSize tmp.bitsStructAlignment) + tmp.bitsSize)
    naturalAlignment := max info.naturalAlignment tmp.naturalAlignment
    bitsStructAlignment := max info.bitsStructAlignment tmp.bitsStructAlignment
    hasObject := info.hasObject || tmp.hasObject
    hasRetainableType := info.hasRetainableType || tmp.hasRetainableType }

/-- `_finalize_struct_typeinfo` -/
def finalizeStructTypeinfo (n : ℕ) (info : TypeInfo) : TypeInfo :=
  let bitsSize := unsigned 32 (align info.bitsSize info.bitsStructAlignment)
  { info with bitsSize, naturalSize := bitsSize / 8, nMembers := n }

def structAggregate : Aggregate where
  close := '}'
  update n info tmp :=
    if n = 0 then updateStructTypeinfoWithFirstMemberTypeinfo info tmp
    else updateStructTypeinfoWithSubsequentMemberTypeinfo align info tmp
  finalize := finalizeStructTypeinfo align

/-- `_update_union_typeinfo_with_member_typeinfo` -/
def updateUnionTypeinfoWithMemberTypeinfo (info tmp : TypeInfo) : TypeInfo :=
  { info with
    naturalAlignment := max info.naturalAlignment tmp.naturalAlignment
    bitsStructAlignment := max info.bitsStructAlignment tmp.bitsStructAlignment
    bitsSize := max info.bitsSize tmp.bitsSize
    naturalSize := max info.naturalSize tmp.naturalSize
    hasObject := info.hasObject || tmp.hasObject
    hasRetainableType := info.hasRetainableType || tmp.hasRetainableType }

/-- `_finalize_union_typeinfo` -/
def finalizeUnionTypeinfo (n : ℕ) (info : TypeInfo) : TypeInfo := { info with nMembers := n }

def unionAggregate : Aggregate where
  close := ')'
  update _ := updateUnionTypeinfoWithMemberTypeinfo
  finalize := finalizeUnionTypeinfo

/-- `_mulle_objc_signature_supply_struct_typeinfo` -/
def supplyStructTypeinfo (parse : List Char → Parsed) (info : Option TypeInfo) (s : List Char) : Parsed :=
  supplyMembersTypeinfo (structAggregate align) parse (s.length + 1) 0 info s

/-- `_mulle_objc_signature_supply_union_typeinfo` -/
def supplyUnionTypeinfo (parse : List Char → Parsed) (info : Option TypeInfo) (s : List Char) : Parsed :=
  supplyMembersTypeinfo unionAggregate parse (s.length + 1) 0 info s

/-- `_mulle_objc_signature_supply_object_typeinfo`, with the block that it may be -/
def supplyObjectTypeinfo (info : Bool) (s : List Char) : Parsed :=
  match s with
  | '?' :: s => some (if info then some (l.cTypeInfo .functionptr) else none, s)
  | s => some (if info then some (l.objcTypeInfo .object true) else none, s)

/-- The part of `_mulle_objc_type_parse` for the types of several characters, the first of which is `c`.  `parse` is the
parser for the types in it, and `tmp` what the supplier has given. -/
def parseComplex (parse : ℤ → Bool → List Char → Parsed) (level : ℤ) (info : Bool) (tmp : TypeInfo) (c : Char)
    (s : List Char) : Parsed :=
  match c with
  | '^' =>
    if info then
      match s with
      | '?' :: s => some (some (l.cTypeInfo .functionptr), s)
      | s => (parse level false s).map fun (_, s) => (some (l.cTypeInfo .voidptr), s)
    else parse level false s
  | '[' =>
    if level = 0 then
      -- it is really a pointer
      (supplyArrayTypeinfo (parse level false) s).map fun (_, s) =>
        (if info then some (l.cTypeInfo .voidptr) else none, s)
    else supplyArrayTypeinfo (parse level info) s
  | 'b' => supplyBitfieldTypeinfo l info s
  | '@' => supplyObjectTypeinfo l info s
  | '{' => supplyStructTypeinfo align (parse level info) (if info then some tmp else none) s
  | '(' => supplyUnionTypeinfo (parse level info) (if info then some tmp else none) s
  | _ => none

/-- `_mulle_objc_type_parse` -/
def typeParse : ℕ → ℤ → Bool → List Char → Parsed
  | 0, _, _, _ => none
  | _ + 1, _, _, [] => none
  | fuel + 1, level, info, c :: s =>
    let (isComplex, tmp) := supplyScalarTypeinfo l c
    if (if info then isComplex = 1 else isMultiCharacterType c) then
      parseComplex l align (typeParse fuel) (level + 1) info tmp c s
    else some (if info then some tmp else none, s)

/-- What follows the next `close`. -/
def skipPast (close : Char) : List Char → Option (List Char)
  | [] => none
  | c :: s => if c = close then some s else skipPast close s

/-- `_mulle_objc_signature_supply_typeinfo`, without a supplier, up to the next type -/
def supplyTypeinfo (info : Bool) (types : List Char) : Parsed := do
  let (tmp, next) ← typeParse l align types.length 0 info types
  let next ← match next with
    | '<' :: s => skipPast '>' s
    | s => some s
  let next ← match next with
    | '"' :: s => skipPast '"' s
    | s => some s
  let next := if next.head? = some '-' then next.tail else next
  let next := if next.head? = some '+' then next.tail else next
  return (tmp, next.dropWhile fun c => '0' ≤ c && c ≤ '9')

/-- `mulle_objc_signature_supply_size_and_alignment`: the size, the alignment and the next type -/
def supplySizeAndAlignment (types : List Char) : Option (ℕ × ℕ × List Char) := do
  guard (types ≠ [])
  match ← supplyTypeinfo l align true types with
  | (some info, next) => return (unsigned 32 (info.bitsSize / 8), info.naturalAlignment, next)
  | (none, _) => none

end

end MulleObjcRuntime.Signature
