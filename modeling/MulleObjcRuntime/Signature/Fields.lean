import MulleObjcRuntime.Lib.Iterators
import MulleObjcRuntime.Signature.Raw

/-!
# Fields

The fields of a type, as an iterator finds them in the encoding, and the comparison of two types by them.

* `FieldEnumerator` — `mulle_signature_field_enumerator`;
* `FieldEnumerator.step` — the loop of `_mulle_signature_field_enumerator_next`, up to its next jump or return;
* `ivarsignatureIsBinaryCompatible` — `_mulle_objc_ivarsignature_is_binary_compatible`.

`maxAggregateDepth` depends on the size of a pointer.
-/

namespace MulleObjcRuntime.Signature.Raw

open Lib.Iterators

/-- `MAX_ARRAY_DEPTH` -/
def maxArrayDepth : ℕ := 8

/-- The text up to the sentinel; the member and the repetitions of each array, and the character that opened each
aggregate, innermost first.  A union, the first field of which has been read, is marked with its closing character. -/
structure FieldEnumerator where
  curr : List Char
  arrays : List (List Char × ℕ)
  stack : List Char

/-- `_mulle_signature_field_enumerator_skip_past_number`, which forgets the number at the sentinel -/
def skipPastNumber (s : List Char) : Reading (ℕ × List Char) := do
  match ← number s with
  | (_, []) => return (0, [])
  | (n, t) => return (n, t)

namespace FieldEnumerator

section

variable (ndebug : Bool) (maxAggregateDepth : ℕ) (p : FieldEnumerator)

/-- At `next:`, an array starts over. -/
def restart : FieldEnumerator :=
  match p.stack, p.arrays with
  | '[' :: _, (field, n + 1) :: arrays => { p with curr := field, arrays := (field, n) :: arrays }
  | _, _ => p

/-- A failed assertion, which otherwise ends the enumeration. -/
def limit : Reading (Event Char × FieldEnumerator) :=
  if ndebug then .ok (.done, p) else .error .aborted

/-- `_C_ARY_B` -/
def openArray (s : List Char) : Reading (Event Char × FieldEnumerator) :=
  let q : FieldEnumerator := ⟨s, p.arrays, '[' :: p.stack⟩
  if maxAggregateDepth ≤ q.stack.length ∨ maxArrayDepth ≤ q.arrays.length then limit ndebug q
  else do
    let (repeats, t) ← skipPastNumber s
    return (.silent, { q with curr := t, arrays := (t, repeats) :: q.arrays })

/-- `_C_STRUCT_B` and `_C_UNION_B` -/
def openMembers (c : Char) (s : List Char) : Reading (Event Char × FieldEnumerator) :=
  let q : FieldEnumerator := ⟨s, p.arrays, c :: p.stack⟩
  if maxAggregateDepth ≤ q.stack.length then limit ndebug q
  else
    match skipPast '=' s with
    | none => .ok (.done, { q with curr := [] })
    | some t => .ok (.silent, { q with curr := t })

/-- The end of an aggregate; the sentinel is moved, when it is the outermost one. -/
def close (expected : List Char) (arrays : List (List Char × ℕ)) (s : List Char) :
    Reading (Event Char × FieldEnumerator) :=
  if ndebug = false ∧ expected.all fun c => p.stack.head? ≠ some c then .error .aborted
  else if p.stack.tail = [] then .ok (.done, ⟨[], p.arrays, []⟩)
  else .ok (.silent, ⟨s, arrays, p.stack.tail⟩)

/-- `_C_ARY_E` -/
def closeArray (s : List Char) : Reading (Event Char × FieldEnumerator) := p.close ndebug ['['] p.arrays.tail s

/-- `_C_STRUCT_E` and `_C_UNION_E` -/
def closeMembers (expected s : List Char) : Reading (Event Char × FieldEnumerator) :=
  p.close ndebug expected p.arrays s

/-- A field -/
def field (c : Char) (s : List Char) : Reading (Event Char × FieldEnumerator) :=
  match p.stack with
  | ')' :: _ => .ok (.silent, { p with curr := s })
  | '(' :: stack => .ok (.yield c, { p with curr := s, stack := ')' :: stack })
  | [] => .ok (.yield c, { p with curr := [] })
  | _ => .ok (.yield c, { p with curr := s })

/-- The switch over the next character. -/
def act : Reading (Event Char × FieldEnumerator) :=
  match p.curr with
  | [] => .error .overrun
  | '[' :: s => p.openArray ndebug maxAggregateDepth s
  | ']' :: s => p.closeArray ndebug s
  | '{' :: s => p.openMembers ndebug maxAggregateDepth '{' s
  | '}' :: s => p.closeMembers ndebug ['{'] s
  | '(' :: s => p.openMembers ndebug maxAggregateDepth '(' s
  | ')' :: s => p.closeMembers ndebug ['(', ')'] s
  | c :: s => p.field c s

def step : Reading (Event Char × FieldEnumerator) := p.restart.act ndebug maxAggregateDepth

end

/-- `_mulle_signature_field_enumerator_next` -/
def iterator (ndebug : Bool) (maxAggregateDepth : ℕ) : Iterator Fault FieldEnumerator Char where
  finished p := p.curr.isEmpty
  step := step ndebug maxAggregateDepth
  outOfFuel := .outOfFuel

end FieldEnumerator

section

variable (ndebug : Bool) (maxAggregateDepth : ℕ)

/-- What the info of a type points to: the text from `type` to `pure_type_end`. -/
def pureType (types : List Char) : Reading (List Char) :=
  typeParse ndebug (types.length + 1) 0 true (.rest types) >>= fun
    | .rest next => .ok (types.take (types.length - next.length))
    | _ => .ok []

end

end MulleObjcRuntime.Signature.Raw
