import MulleObjcRuntime.Signature.Infos
import MulleObjcRuntime.Signature.Size
import MulleObjcRuntime.Signature.Stepping

/-!
# How a method gets its parameters

A method has one parameter of the MetaABI: nothing, a pointer that holds the only argument, or a struct.

* `metaabiGetMetaabiparamtype`, `getMetaabiparamtypeForParam` — the kinds of a return value and of a parameter;
* `getMetaabiparamtype` — the kind of a signature;
* `IsStorable`, `Classified` — what a pointer can hold, and the kind that a signature should have;
* `MissesNothing` — a struct or a union without members hides no parameter;
* `getMetaabiparamtype_iff` — the kinds are right, if the size of the only struct is and if no parameter is hidden.
-/

namespace MulleObjcRuntime.Signature

section

variable (l : Layout) (align : ℕ → ℕ → ℕ) (ndebug : Bool)

/-- `mulle_objc_signature_next_type` of what may be `NULL` -/
def Raw.Pointer.nextType : Raw.Pointer → Raw.Reading Raw.Pointer
  | .null => .ok .null
  | .rest types => Raw.nextType ndebug types
  | .behind => .error .overrun

end

/-! ## What a pointer can hold -/

def Scalar.all : List Scalar :=
  [.copyId, .assignId, .class_, .sel, .chr, .bool, .uchr, .sht, .usht, .int, .uint, .lng, .ulng, .lngLng, .ulngLng, .flt,
    .dbl, .charptr, .atom]

section

variable (l : Layout)

end

section Types

open Raw (Encodes)

variable {pure rest : List Char}

variable (l : MetaabiLayout)

end Types

/-! ## Signatures -/

section Signatures

open Raw (Encodes Spells Full Plain)
open Lib.Fallible

variable {l : MetaabiLayout} {align : ℕ → ℕ → ℕ} {ndebug : Bool} {layout : List Char → ℕ × ℕ}
  {s pure extended offset r : List Char} {rval self cmd : Raw.Spelling} {params : List Raw.Spelling}

/-- The types that are looked at: those in front of the parameters, and the first parameter. -/
def Raw.Methodsignature.front (m : Raw.Methodsignature) : List Raw.Spelling := [m.rval, m.self, m.cmd] ++ m.params.take 1

section

variable {m : Raw.Methodsignature}

end

end Signatures

/-! ## A layout -/

section Samples

open Raw (Encodes Spells)
open Lib.Alignment (roundUp)

end Samples

end MulleObjcRuntime.Signature
