import MulleObjcRuntime.Signature.Defs

/-!
# C types and their layout

What a well formed encoding is the encoding of, and how C lays it out.

* `Ty`, `Members` — scalars, pointers, arrays, structs and unions with at least one member;
* `Ty.encode` — the encoding;
* `Ty.size`, `Ty.alignment` — the layout: members at their aligned offsets, sizes rounded up to the alignment;
* `Ty.All` — what holds of a type and of all types that it contains.
-/

namespace MulleObjcRuntime.Signature

open Lib.Alignment

/-- The types with an encoding of one character. -/
inductive Scalar
  | copyId
  | assignId
  | class_
  | sel
  | chr
  | bool
  | uchr
  | sht
  | usht
  | int
  | uint
  | lng
  | ulng
  | lngLng
  | ulngLng
  | flt
  | dbl
  | charptr
  | atom
  deriving DecidableEq

def Scalar.char : Scalar → Char
  | .copyId => '~'
  | .assignId => '='
  | .class_ => '#'
  | .sel => ':'
  | .chr => 'c'
  | .bool => 'B'
  | .uchr => 'C'
  | .sht => 's'
  | .usht => 'S'
  | .int => 'i'
  | .uint => 'I'
  | .lng => 'l'
  | .ulng => 'L'
  | .lngLng => 'q'
  | .ulngLng => 'Q'
  | .flt => 'f'
  | .dbl => 'd'
  | .charptr => '*'
  | .atom => '%'

def Scalar.ctype : Scalar → CType
  | .copyId | .assignId => .object
  | .class_ => .class_
  | .sel => .methodid
  | .chr => .char
  | .bool | .int => .int
  | .uchr => .uchar
  | .sht => .short
  | .usht => .ushort
  | .uint => .uint
  | .lng => .long
  | .ulng => .ulong
  | .lngLng => .longlong
  | .ulngLng => .ulonglong
  | .flt => .float
  | .dbl => .double
  | .charptr | .atom => .charptr

/-- The name of a struct or a union ends at the equal sign, and may not contain the character at the end. -/
structure Name (close : Char) where
  chars : List Char
  free : ∀ c ∈ chars, c ≠ '=' ∧ c ≠ close

mutual

inductive Ty
  | scalar (s : Scalar)
  | object
  | block
  | functionPointer
  | voidPointer
  | pointer (pointee : Ty)
  | array (digits : List (Fin 10)) (member : Ty)
  | struct (name : Name '}') (members : Members)
  | union (name : Name ')') (members : Members)

inductive Members
  | one (member : Ty)
  | cons (member : Ty) (members : Members)

end

/-! ## The encoding -/

def digitChar (d : Fin 10) : Char := Char.ofNat ('0'.toNat + d)

mutual

def Ty.encode : Ty → List Char
  | .scalar s => [s.char]
  | .object => ['@']
  | .block => ['@', '?']
  | .functionPointer => ['^', '?']
  | .voidPointer => ['^', 'v']
  | .pointer t => '^' :: t.encode
  | .array digits t => '[' :: (digits.map digitChar ++ t.encode ++ [']'])
  | .struct name ms => '{' :: (name.chars ++ '=' :: ms.encode ++ ['}'])
  | .union name ms => '(' :: (name.chars ++ '=' :: ms.encode ++ [')'])

def Members.encode : Members → List Char
  | .one t => t.encode
  | .cons t ms => t.encode ++ ms.encode

end

/-- The number that digits behind `n` give. -/
def count (n : ℕ) (digits : List (Fin 10)) : ℕ := digits.foldl (fun n (d : Fin 10) => n * 10 + d) n

/-! ## The layout -/

section

variable (l : Layout)

mutual

def Ty.alignment : Ty → ℕ
  | .scalar s => l.alignof s.ctype
  | .object => l.alignof .object
  | .block | .functionPointer => l.alignof .functionptr
  | .voidPointer | .pointer _ => l.alignof .voidptr
  | .array _ t => t.alignment
  | .struct _ ms | .union _ ms => ms.alignment

/-- The largest alignment. -/
def Members.alignment : Members → ℕ
  | .one t => t.alignment
  | .cons t ms => max t.alignment ms.alignment

end

mutual

def Ty.size : Ty → ℕ
  | .scalar s => l.sizeof s.ctype
  | .object => l.sizeof .object
  | .block | .functionPointer => l.sizeof .functionptr
  | .voidPointer | .pointer _ => l.sizeof .voidptr
  | .array digits t => count 0 digits * t.size
  | .struct _ ms => roundUp (ms.placed 0) (ms.alignment l)
  | .union _ ms => roundUp ms.largest (ms.alignment l)

/-- Where the members end, when the first one comes at or behind the offset. -/
def Members.placed : Members → ℕ → ℕ
  | .one t, offset => roundUp offset (t.alignment l) + t.size
  | .cons t ms, offset => ms.placed (roundUp offset (t.alignment l) + t.size)

/-- The size of the largest member. -/
def Members.largest : Members → ℕ
  | .one t => t.size
  | .cons t ms => max t.size ms.largest

end

end

/-! ## What a type contains -/

mutual

/-- `P` holds of the type and of all that it contains, but not of what it points to. -/
def Ty.All (P : Ty → Prop) : Ty → Prop
  | .array digits t => P (.array digits t) ∧ t.All P
  | .struct name ms => P (.struct name ms) ∧ ms.All P
  | .union name ms => P (.union name ms) ∧ ms.All P
  | t => P t

def Members.All (P : Ty → Prop) : Members → Prop
  | .one t => t.All P
  | .cons t ms => t.All P ∧ ms.All P

end

mutual

instance decidableAll (P : Ty → Prop) [DecidablePred P] : (t : Ty) → Decidable (t.All P)
  | .array digits t =>
    have := decidableAll P t
    inferInstanceAs (Decidable (P (.array digits t) ∧ t.All P))
  | .struct name ms =>
    have := decidableMembersAll P ms
    inferInstanceAs (Decidable (P (.struct name ms) ∧ ms.All P))
  | .union name ms =>
    have := decidableMembersAll P ms
    inferInstanceAs (Decidable (P (.union name ms) ∧ ms.All P))
  | .scalar s => inferInstanceAs (Decidable (P (.scalar s)))
  | .object => inferInstanceAs (Decidable (P .object))
  | .block => inferInstanceAs (Decidable (P .block))
  | .functionPointer => inferInstanceAs (Decidable (P .functionPointer))
  | .voidPointer => inferInstanceAs (Decidable (P .voidPointer))
  | .pointer t => inferInstanceAs (Decidable (P (.pointer t)))

instance decidableMembersAll (P : Ty → Prop) [DecidablePred P] : (ms : Members) → Decidable (ms.All P)
  | .one t => decidableAll P t
  | .cons t ms =>
    have := decidableAll P t
    have := decidableMembersAll P ms
    inferInstanceAs (Decidable (t.All P ∧ ms.All P))

end

mutual

/-- The length of every array fits into an `int`, those that are pointed to included. -/
def Ty.counts : Ty → Bool
  | .pointer t => t.counts
  | .array digits t => decide (count 0 digits < 2 ^ 31) && t.counts
  | .struct _ ms | .union _ ms => ms.counts
  | _ => true

def Members.counts : Members → Bool
  | .one t => t.counts
  | .cons t ms => t.counts && ms.counts

end

end MulleObjcRuntime.Signature
