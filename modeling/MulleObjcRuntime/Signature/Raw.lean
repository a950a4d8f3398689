import MulleObjcRuntime.Signature.Defs

/-!
# The parser, pointer by pointer

The encoding parser once more, with the pointer that it moves: it may read the final zero, and it may get behind it.

* `Pointer` — a pointer into the string, the one behind its final zero, or `NULL`;
* `Fault` — what may go wrong besides `NULL`;
* `typeParse` — `_mulle_objc_type_parse`, with and without an info;
* `supplyTypeinfo`, `nextType`, `countTypeinfos` — the entry points;
* `Signatureenumerator` — the enumerator.

The infos themselves are those of `Signature.typeParse`, they do not influence the pointer.  Where the enumerator places
an argument in an invocation, and what is asserted of that, is left out.  Other assertions are there unless `ndebug` holds.
-/

namespace MulleObjcRuntime.Signature.Raw

/-- A pointer into a string that ends with a zero.  `rest s` has the characters `s` up to the zero. -/
inductive Pointer
  | null
  | rest (s : List Char)
  | behind
  deriving DecidableEq

/-- A read behind the zero, an `abort`, an arithmetic overflow; or the recursion has not come to its end. -/
inductive Fault
  | overrun
  | aborted
  | overflow
  | outOfFuel
  deriving DecidableEq

abbrev Reading := Except Fault

def isDigit (c : Char) : Bool := '0' ≤ c && c ≤ '9'

/-- `isspace` -/
def isSpace (c : Char) : Bool := c.toNat = 32 || (9 ≤ c.toNat && c.toNat ≤ 13)

/-- Where the digits at the head of the string give an `int`. -/
def number (s : List Char) : Reading (ℕ × List Char) :=
  match parseLength 0 s with
  | some result => .ok result
  | none => .error .overflow

/-- `atoi` -/
def atoi (s : List Char) : Reading ℤ :=
  match s.dropWhile isSpace with
  | '-' :: s => do
    let (n, _) ← number s
    return -(n : ℤ)
  | '+' :: s => do
    let (n, _) ← number s
    return n
  | s => do
    let (n, _) ← number s
    return n

/-- The types of one character. -/
def scalars : List Char :=
  ['v', '~', '=', '#', ':', 'c', 'B', 'C', 's', 'S', 'i', 'I', 'l', 'L', 'q', 'Q', 'f', 'd', '*', '?', '%']

/-- What the supplier returns for a character that is not the zero. -/
def scalarKind (c : Char) : ℕ := if c ∈ scalars then 0 else 1

section

variable (ndebug : Bool)

/-- `_mulle_objc_signature_supply_bitfield_typeinfo` -/
def supplyBitfieldTypeinfo (s : List Char) : Reading Pointer := do
  let len ← atoi s
  if len < 0 then .error .aborted else return .rest (s.dropWhile isDigit)

/-- `_mulle_objc_signature_supply_array_typeinfo`, given the parser for the members. -/
def supplyArrayTypeinfo (parse : Pointer → Reading Pointer) (s : List Char) : Reading Pointer := do
  let (_, s) ← number s
  match ← parse (.rest s) with
  | .null => return .null
  | .rest (c :: s) => if c = ']' ∨ ndebug then return .rest s else .error .aborted
  | .rest [] => if ndebug then return .behind else .error .aborted
  -- the assertion reads, too
  | .behind => if ndebug then return .behind else .error .overrun

/-- The loop of `_mulle_objc_signature_supply_struct_typeinfo` and `_mulle_objc_signature_supply_union_typeinfo`, after
`n` members. -/
def supplyMembersTypeinfo (close : Char) (parse : Pointer → Reading Pointer) : ℕ → ℕ → Pointer → Reading Pointer
  | 0, _, _ => .error .outOfFuel
  | fuel + 1, n, .rest (c :: s) =>
    if c = close then .ok (.rest s)
    -- the name goes up to the equal sign
    else if n = 0 ∧ c ≠ '=' then supplyMembersTypeinfo close parse fuel n (.rest s)
    else
      parse (.rest (if n = 0 then s else c :: s)) >>= fun
        | .null => .ok .null
        | type => supplyMembersTypeinfo close parse fuel (n + 1) type
  | _ + 1, _, .rest [] => .ok .null
  | _ + 1, _, _ => .error .overrun

/-- `_mulle_objc_signature_supply_struct_typeinfo` -/
def supplyStructTypeinfo (parse : Pointer → Reading Pointer) (s : List Char) : Reading Pointer :=
  supplyMembersTypeinfo '}' parse (s.length + 1) 0 (.rest s)

/-- `_mulle_objc_signature_supply_union_typeinfo` -/
def supplyUnionTypeinfo (parse : Pointer → Reading Pointer) (s : List Char) : Reading Pointer :=
  supplyMembersTypeinfo ')' parse (s.length + 1) 0 (.rest s)

/-- `_mulle_objc_signature_supply_object_typeinfo`, with the block that it may be -/
def supplyObjectTypeinfo (s : List Char) : Reading Pointer :=
  match s with
  | '?' :: s => .ok (.rest s)
  | s => .ok (.rest s)

/-- The part of `_mulle_objc_type_parse` for the types of several characters, the first of which is `c`. -/
def parseComplex (parse : ℤ → Bool → Pointer → Reading Pointer) (level : ℤ) (info : Bool) (c : Char) (s : List Char) :
    Reading Pointer :=
  match c with
  | '^' =>
    match info, s with
    | true, '?' :: s => .ok (.rest s)
    | _, s => parse level false (.rest s)
  | '[' => supplyArrayTypeinfo ndebug (parse level (info && level ≠ 0)) s
  | 'b' => supplyBitfieldTypeinfo s
  | '@' => supplyObjectTypeinfo s
  | '{' => supplyStructTypeinfo (parse level info) s
  | '(' => supplyUnionTypeinfo (parse level info) s
  | _ => .ok .null

/-- `_mulle_objc_type_parse` -/
def typeParse : ℕ → ℤ → Bool → Pointer → Reading Pointer
  | 0, _, _, _ => .error .outOfFuel
  | fuel + 1, level, info, .rest (c :: s) =>
    if (if info then scalarKind c = 1 else isMultiCharacterType c) then
      parseComplex ndebug (typeParse fuel) (level + 1) info c s
    else .ok (.rest s)
  -- the zero is an error to the supplier, otherwise it is a character like others
  | _ + 1, _, info, .rest [] => .ok (if info then .null else .behind)
  | _ + 1, _, _, _ => .error .overrun

/-- What follows the brackets behind a type; nothing, if they are not closed. -/
def skipAngles : List Char → Option (List Char)
  | '<' :: s => skipPast '>' s
  | s => some s

/-- What follows the quotes behind a type.  The end of the string is not checked for. -/
def skipQuotes : List Char → Reading (List Char)
  | '"' :: s =>
    match skipPast '"' s with
    | some s => .ok s
    | none => .error .overrun
  | s => .ok s

/-- What follows the sign and the digits of an offset. -/
def skipOffset (s : List Char) : List Char :=
  let s := if s.head? = some '-' then s.tail else s
  let s := if s.head? = some '+' then s.tail else s
  s.dropWhile isDigit

/-- `_mulle_objc_signature_supply_typeinfo`, where the supplier has the `level` -/
def supplyTypeinfo (level : ℤ) (info : Bool) (types : List Char) : Reading Pointer :=
  typeParse ndebug (types.length + 1) level info (.rest types) >>= fun
    | .null => .ok .null
    | .behind => .error .overrun
    | .rest next =>
      match skipAngles next with
      | none => .ok .null
      | some next => do
        let next ← skipQuotes next
        return .rest (skipOffset next)

/-- `mulle_objc_signature_supply_typeinfo` -/
def signatureSupplyTypeinfo (level : ℤ) (info : Bool) (types : List Char) : Reading Pointer :=
  if types = [] then .ok .null else supplyTypeinfo ndebug level info types

/-- `_mulle_objc_signature_skip_extendedtypeinfo` -/
def skipExtendedtypeinfo : ℕ → List Char → Reading Pointer
  | 0, _ => .error .outOfFuel
  | _ + 1, [] => .ok (.rest [])
  | fuel + 1, c :: s =>
    if c = '<' ∨ c = '"' then
      match skipPast (if c = '<' then '>' else '"') s with
      | none => .ok .null
      -- there is another increment at the end of the loop
      | some [] => .error .overrun
      | some (_ :: s) => skipExtendedtypeinfo fuel s
    else if c = '-' ∨ c = '+' ∨ isDigit c then skipExtendedtypeinfo fuel s
    else .ok (.rest (c :: s))

/-- `mulle_objc_signature_next_type` -/
def nextType (types : List Char) : Reading Pointer :=
  if types = [] then .ok .null
  else
    typeParse ndebug (types.length + 1) (-1) false (.rest types) >>= fun
      | .null => .ok .null
      | .behind => .error .overrun
      | .rest next => skipExtendedtypeinfo (next.length + 1) next

/-- The loop of `mulle_objc_signature_count_typeinfos` -/
def countFrom : ℕ → List Char → Reading ℕ
  | 0, _ => .error .outOfFuel
  | fuel + 1, types =>
    nextType ndebug types >>= fun
      | .null => .ok 0
      | .behind => .error .overrun
      | .rest next => (· + 1) <$> countFrom fuel next

/-- `mulle_objc_signature_count_typeinfos` -/
def countTypeinfos (types : List Char) : Reading ℕ := countFrom ndebug (types.length + 1) types

/-! ## The enumerator -/

/-- `mulle_objc_signatureenumerator`: the rest of the types, and where the return value is. -/
structure Signatureenumerator where
  types : Option (List Char)
  rval : Option (List Char)

/-- What is left to enumerate: nothing at the end. -/
def Pointer.unread : Pointer → Option (List Char)
  | .rest (c :: s) => some (c :: s)
  | _ => none

/-- `mulle_objc_signature_enumerate` -/
def signatureEnumerate (types : List Char) : Reading Signatureenumerator :=
  if types = [] then .ok ⟨none, none⟩
  else do
    let next ← supplyTypeinfo ndebug 0 true types
    return ⟨next.unread, some types⟩

/-- `_mulle_objc_signatureenumerator_next`: the start of the type, if there is one, and the enumerator afterwards -/
def Signatureenumerator.next (rover : Signatureenumerator) : Reading (Option (List Char × Signatureenumerator)) :=
  match rover.types with
  | none => .ok none
  | some types => do
    let next ← supplyTypeinfo ndebug 0 true types
    return some (types, { rover with types := next.unread })

end

end MulleObjcRuntime.Signature.Raw
