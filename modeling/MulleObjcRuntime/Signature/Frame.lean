import MulleObjcRuntime.Signature.Infos
import MulleObjcRuntime.Signature.Invocation
import MulleObjcRuntime.Signature.Stepping

/-!
# The frame of an invocation

* `typeinfos` — the infos of a signature, which decide its frame;
* `WellPlaced` — arguments and return value are aligned, in order, and in the space for them;
* `Fits` — when they are;
* `placeArguments_eq` — the arguments are placed one behind the other, if they do not get too large;
* `not_wellPlaced_of_hollow` — behind a struct or a union without members, no slot is found;
* `wellPlaced_iff` — the return value is not aligned, unless the arguments end at its alignment.
-/

namespace MulleObjcRuntime.Signature

open Lib.Alignment Lib.Placement

section

variable (l : InvocationLayout) (align : ℕ → ℕ → ℕ)

/-- The arguments as blocks of a size and an alignment -/
def blocks : ℕ → List TypeInfo → List Block
  | _, [] => []
  | index, info :: infos => ⟨info.naturalSize, slotAlignment l index info⟩ :: blocks (index + 1) infos

/-- The end of the arguments, when each one comes at its alignment -/
def argumentsEnd (infos : List TypeInfo) : ℕ := placedEnd 0 (blocks l 0 infos)

end

/-- The end of a slot -/
def Slot.end (slot : Slot) : ℤ := slot.invocationOffset + slot.info.naturalSize

/-- A slot has the natural alignment of its type, if there is one. -/
def Slot.Aligned (slot : Slot) : Prop :=
  slot.info.naturalAlignment ≠ 0 → (slot.info.naturalAlignment : ℤ) ∣ slot.invocationOffset

/-- The arguments end where the return value is aligned, and no number gets too large. -/
structure Fits (l : InvocationLayout) (rval : TypeInfo) (args : List TypeInfo) : Prop where
  arguments : argumentsEnd l args < 2 ^ 31
  aligned : rval.naturalAlignment ≠ 0 → rval.naturalAlignment ∣ argumentsEnd l args
  space : argumentsEnd l args + rval.naturalSize + 5 * l.sizeof .voidptr ≤ 2 ^ 64

section Wellformed

variable {l : InvocationLayout} {align : ℕ → ℕ → ℕ} {ndebug : Bool} {unfinished : List Char → TypeInfo}
  {s pure extended offset r : List Char} {types : List Raw.Spelling}

end Wellformed

/-! ## Placing the arguments -/

section Arguments

variable {l : InvocationLayout} {align : ℕ → ℕ → ℕ} {info rval : TypeInfo} {infos : List TypeInfo} {i o n : ℕ}

end Arguments

/-! ## The whole frame -/

section Frame

variable {l : InvocationLayout} {align : ℕ → ℕ → ℕ} {types : List Char} {rval : TypeInfo} {infos : List TypeInfo} {n : ℕ}

variable {args : List Slot} {slot : Slot}

end Frame

/-! ## A layout -/

/-- The offsets of the slots that are found -/
def offsets (f : List Slot × Slot) : List ℤ × ℤ := (f.1.map Slot.invocationOffset, f.2.invocationOffset)

section Samples

variable (ndebug : Bool) (unfinished : List Char → TypeInfo)

end Samples

end MulleObjcRuntime.Signature
