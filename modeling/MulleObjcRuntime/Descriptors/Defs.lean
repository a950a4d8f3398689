import Mathlib.Logic.Function.Basic
import MulleObjcRuntime.Signature.Levels

/-!
# The descriptors of a universe

* `Descriptor`, `Tables` — method descriptors, and the two tables of a universe that know them;
* `Warn` — what the universe is asked to warn about;
* `registerDescriptor` — `_mulle_objc_universe_register_descriptor`.

Memory does not run out, and what is printed is left out.
-/

namespace MulleObjcRuntime.Descriptors

open Signature.Raw

/-- A `_mulle_objc_descriptor`. -/
structure Descriptor where
  methodid : ℕ
  name : List Char
  signature : List Char
  bits : ℕ
deriving DecidableEq, Repr

/-- The levels of `universe->debug.warn.method_type`. -/
inductive WarnMethodType
  | none
  | lenient
  | normal
  | strict
deriving DecidableEq, Repr

/-- What is read of `universe->debug.warn`, and whether assertions are left out. -/
structure Warn where
  methodType : WarnMethodType
  methodBits : Bool
  crash : Bool
  hang : Bool
  ndebug : Bool
deriving DecidableEq, Repr

/-- The `descriptortable`, and the ids in the `varyingtypedescriptortable`, whose values do not matter. -/
structure Tables where
  descriptortable : ℕ → Option Descriptor
  varyingtypedescriptortable : ℕ → Bool

/-- Nothing is registered. -/
def Tables.new : Tables := ⟨fun _ => .none, fun _ => false⟩

/-- `_mulle_objc_method_bits_equality_mask` -/
def methodBitsEqualityMask : ℕ := 0x800 ||| 0x1000 ||| 0x0C

/-- `_mulle_objc_method_bits_type_equal` -/
def methodBitsTypeEqual (a b : ℕ) : Bool := (a ^^^ b) &&& methodBitsEqualityMask == 0

/-- The `signature_comparison` of two signatures, at the level that is asked for. -/
def signatureComparison (w : Warn) (a b : List Char) : Option ℤ :=
  match w.methodType with
  | .none => some 0
  | .lenient => (methodsignatureCompareLenient w.ndebug a b).toOption
  | .normal => some (methodsignatureCompare a b)
  | .strict => some (signatureCompareStrict a b)

/-- The method ids of `string`, `:` and `data`, of which nothing is printed. -/
def shortcuts : List ℕ := [0x7c165381, 0xf0cb86d3, 0x872e2a5d]

/-- `_mulle_objc_universe_register_descriptor`: the descriptor that is registered under the id, and the tables.  There is
no result where the program stops: two names have the same id, the comparison does not come to an end, or a warning is
asked to crash or to hang. -/
def registerDescriptor (w : Warn) (u : Tables) (p : Descriptor) : Option (Descriptor × Tables) :=
  match u.descriptortable p.methodid with
  | .none => some (p, { u with descriptortable := Function.update u.descriptortable p.methodid (some p) })
  | some dup =>
    if dup.name = p.name then
      match signatureComparison w dup.signature p.signature with
      | .none => .none
      | some comparison =>
        let bitComparison := w.methodBits && !methodBitsTypeEqual dup.bits p.bits
        if comparison ≠ 0 ∨ bitComparison = true then
          if p.methodid ∉ shortcuts ∧ (w.crash || w.hang) = true then .none
          else
            some (dup, { u with
              varyingtypedescriptortable := Function.update u.varyingtypedescriptortable p.methodid true })
        else some (dup, u)
    else .none

end MulleObjcRuntime.Descriptors
