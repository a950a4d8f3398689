import Mathlib.Algebra.Group.Int.Defs
import MulleObjcRuntime.Lib.Placement
import MulleObjcRuntime.Signature.Infos
import MulleObjcRuntime.Signature.Size

/-!
# Where arguments lie in an invocation

The enumerator of a signature finds a place for each argument, and one for the return value behind them.

* `Signaturesupplier`, `placeTypeinfo` — the offset of the next type;
* `Signatureenumerator`, `frame` — the arguments of a signature with their offsets, and the return value;
* `sizeofMetaabistruct` — the size of the whole;
* `TypeInfo.Aligned`, `supplyTypeinfo_aligned` — the two alignments of an info are those of one C type, or there is none.
-/

namespace MulleObjcRuntime.Signature

open Lib.Alignment Lib.Placement

/-- What is left of a number in a signed field. -/
def signed (bits : ℕ) (n : ℤ) : ℤ := n.bmod (2 ^ bits)

/-- A layout with the alignment of `long double`, which is a multiple of all others. -/
structure InvocationLayout extends Layout where
  alignofLongDouble : ℕ
  alignofLongDouble_pos : 0 < alignofLongDouble
  alignofLongDouble_lt : alignofLongDouble < 2 ^ 16
  alignof_dvd_longDouble : ∀ t, alignof t ∣ alignofLongDouble
  sizeof_voidptr_pos : 0 < sizeof .voidptr
  sizeof_voidptr_lt : 5 * sizeof .voidptr < 2 ^ 64

/-! ## The enumerator -/

/-- `mulle_objc_signaturesupplier`, with the default supplier and level -/
structure Signaturesupplier where
  index : ℕ
  invocationOffset : ℤ
  deriving DecidableEq

/-- An info and the `invocation_offset` in it -/
structure Slot where
  info : TypeInfo
  invocationOffset : ℤ
  deriving DecidableEq

/-- `mulle_objc_signatureenumerator` -/
structure Signatureenumerator where
  types : Option (List Char)
  supplier : Signaturesupplier
  rval : TypeInfo

section

variable (l : InvocationLayout) (align : ℕ → ℕ → ℕ)

/-- The alignment of the next type.  The third one starts the block of the MetaABI. -/
def slotAlignment (index : ℕ) (info : TypeInfo) : ℕ :=
  if index = 2 then l.alignofLongDouble else info.bitsStructAlignment / 8

/-- The end of `_mulle_objc_signature_supply_typeinfo`, where `align` is `mulle_address_align` -/
def placeTypeinfo (supplier : Signaturesupplier) (info : TypeInfo) : Slot × Signaturesupplier :=
  let address := (supplier.invocationOffset % 2 ^ 64).toNat
  let invocationOffset := signed 32 (align address (slotAlignment l supplier.index info))
  (⟨info, invocationOffset⟩,
    { supplier with invocationOffset := signed 32 ((invocationOffset + info.naturalSize) % 2 ^ 64) })

variable (ndebug : Bool) (unfinished : List Char → TypeInfo)

/-- The rest of `_mulle_objc_signature_supply_typeinfo`: the info, and the next type unless it is `NULL`.  Then the
info is `unfinished`, with what has been found out before. -/
def readTypeinfo (types : List Char) : Raw.Reading (TypeInfo × Option (List Char)) :=
  Raw.supplyTypeinfo ndebug 0 true types >>= fun
    | .behind => .error .overrun
    | .null => .ok (unfinished types, none)
    | .rest next =>
      match supplyTypeinfo l.toLayout align true types with
      | some (some info, _) => .ok (info, some next)
      | _ => .ok (unfinished types, some next)

/-- What is left to enumerate -/
def unread (next : Option (List Char)) : Option (List Char) := next.bind fun s => if s = [] then none else some s

/-- `mulle_objc_signature_enumerate` -/
def signatureEnumerate (types : List Char) : Raw.Reading Signatureenumerator :=
  if types = [] then .ok ⟨none, ⟨0, 0⟩, .clear⟩
  else do
    let (rval, next) ← readTypeinfo l align ndebug unfinished types
    return ⟨unread next, ⟨0, 0⟩, rval⟩

/-- `_mulle_objc_signatureenumerator_next`; there is no slot at the end.  A type that cannot be parsed is the last one,
its info keeps the `invocation_offset` 0. -/
def Signatureenumerator.next (rover : Signatureenumerator) : Raw.Reading (Option Slot × Signatureenumerator) :=
  match rover.types with
  | none => .ok (none, rover)
  | some types => do
    let (info, next) ← readTypeinfo l align ndebug unfinished types
    let (slot, supplier) :=
      if next.isSome then placeTypeinfo l align rover.supplier info else (⟨info, 0⟩, rover.supplier)
    return (some slot, ⟨unread next, { supplier with index := supplier.index + 1 }, rover.rval⟩)

/-- `while( _mulle_objc_signatureenumerator_next( &rover, &info))` -/
def Signatureenumerator.arguments : ℕ → Signatureenumerator → Raw.Reading (List Slot × Signatureenumerator)
  | 0, _ => .error .outOfFuel
  | fuel + 1, rover => do
    match ← rover.next l align ndebug unfinished with
    | (none, rover) => return ([], rover)
    | (some slot, rover) =>
      let (slots, rover) ← rover.arguments fuel
      return (slot :: slots, rover)

/-- `_mulle_objc_signatureenumerator_rval` -/
def Signatureenumerator.rvalSlot (rover : Signatureenumerator) : Slot := ⟨rover.rval, rover.supplier.invocationOffset⟩

/-- The arguments of a signature, and the return value -/
def frame (types : List Char) : Raw.Reading (List Slot × Slot) := do
  let rover ← signatureEnumerate l align ndebug unfinished types
  let (slots, rover) ← rover.arguments l align ndebug unfinished (types.length + 1)
  return (slots, rover.rvalSlot)

end

/-! ## Alignments of types -/

/-- The alignments in an info: those of a C type, or none. -/
def TypeInfo.Aligned (l : Layout) (info : TypeInfo) : Prop :=
  info.naturalAlignment = 0 ∧ info.bitsStructAlignment ≤ 1 ∨
    ∃ t, info.naturalAlignment = l.alignof t ∧ info.bitsStructAlignment = l.alignof t * 8

section Aligned

variable {l : Layout} {align : ℕ → ℕ → ℕ} {info tmp : TypeInfo} {n : ℕ}

/-- The larger alignments of two infos -/
lemma Aligned.max {info' : TypeInfo} (h : info.Aligned l) (htmp : tmp.Aligned l)
    (hnatural : info'.naturalAlignment = Max.max info.naturalAlignment tmp.naturalAlignment)
    (hbits : info'.bitsStructAlignment = Max.max info.bitsStructAlignment tmp.bitsStructAlignment) :
    info'.Aligned l := by
  have hpos := l.alignof_pos
  unfold TypeInfo.Aligned
  rw [hnatural, hbits]
  rcases h with ⟨h, h'⟩ | ⟨t, h, h'⟩
  · rcases htmp with ⟨htmp, htmp'⟩ | ⟨t', htmp, htmp'⟩
    · exact .inl ⟨by omega, by omega⟩
    · have := hpos t'
      exact .inr ⟨t', by omega, by omega⟩
  · have := hpos t
    rcases htmp with ⟨htmp, htmp'⟩ | ⟨t', htmp, htmp'⟩
    · exact .inr ⟨t, by omega, by omega⟩
    · rcases Nat.le_total (l.alignof t) (l.alignof t') with hle | hle
      · exact .inr ⟨t', by omega, by omega⟩
      · exact .inr ⟨t, by omega, by omega⟩

end Aligned

end MulleObjcRuntime.Signature
