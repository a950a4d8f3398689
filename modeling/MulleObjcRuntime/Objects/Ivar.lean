import MulleObjcRuntime.Lib.Bytes

/-!
# Instance variables as bytes and as pointers

The value of an instance variable is read into a buffer and written from a buffer; a pointer is read and written directly.

* `objectGetValueForIvar`, `objectSetValueForIvar` — the copies, in the direction that they have;
* `objectGetPointervalueForIvar`, `objectSetPointervalueForIvar` — the variants for pointers;
* `pointervalue_lawful` — reading and writing pointers obeys the laws of a lens;
* `lawful_iff` — writing from buffers obeys them only where there is nothing to be written.

The memory is that of a program; an object and a buffer are addresses in it.
-/

namespace MulleObjcRuntime.Objects

open Lib.Bytes

/-- A `_mulle_objc_ivar`.  The offset of an ivar in an instance is not negative. -/
structure Ivar where
  offset : ℕ
deriving DecidableEq, Repr

/-- The size of a pointer and the order of its bytes. -/
structure PointerLayout where
  sizeofPointer : ℕ
  bigEndian : Bool

/-- `memcpy`, for bytes that do not overlap -/
def memcpy (dst src n : ℕ) (mem : Memory) : Memory := mem.store dst (mem.load src n)

section

variable (obj : ℕ) (ivar : Ivar)

/-- `_mulle_objc_object_get_value_for_ivar` -/
def objectGetValueForIvar (buf length : ℕ) (mem : Memory) : Memory := memcpy buf (obj + ivar.offset) length mem

/-- `_mulle_objc_object_set_value_for_ivar`.  The buffer is the destination here, too. -/
def objectSetValueForIvar (buf length : ℕ) (mem : Memory) : Memory := memcpy buf (obj + ivar.offset) length mem

/-- `_mulle_objc_object_get_pointervalue_for_ivar` -/
def objectGetPointervalueForIvar (l : PointerLayout) (mem : Memory) : ℕ :=
  decode l.bigEndian (mem.load (obj + ivar.offset) l.sizeofPointer)

/-- `_mulle_objc_object_set_pointervalue_for_ivar` -/
def objectSetPointervalueForIvar (l : PointerLayout) (value : ℕ) (mem : Memory) : Memory :=
  mem.store (obj + ivar.offset) (encode l.bigEndian l.sizeofPointer value)

/-- The buffer does not overlap the ivar, which copies rely on. -/
def Apart (length buf : ℕ) : Prop := buf + length ≤ obj + ivar.offset ∨ obj + ivar.offset + length ≤ buf

/-- The laws for the ivar and two buffers: one that is written to the ivar first, and one that is written then. -/
structure Lawful (l : PointerLayout) (length buf buf' : ℕ) (mem : Memory) : Prop where
  /-- What is read is what was written. -/
  put_get : ∀ out, Apart obj ivar length out →
    (objectGetValueForIvar obj ivar out length (objectSetValueForIvar obj ivar buf length mem)).load out length =
      mem.load buf length
  /-- Writing what was read changes nothing. -/
  get_put : ∀ out, Apart obj ivar length out →
    objectSetValueForIvar obj ivar out length (objectGetValueForIvar obj ivar out length mem) =
      objectGetValueForIvar obj ivar out length mem
  /-- What is written last is what is read, and it is all that is left. -/
  put_put : (∀ out, Apart obj ivar length out →
      (objectGetValueForIvar obj ivar out length (objectSetValueForIvar obj ivar buf' length
        (objectSetValueForIvar obj ivar buf length mem))).load out length = mem.load buf' length) ∧
    objectSetValueForIvar obj ivar buf' length (objectSetValueForIvar obj ivar buf length mem) =
      objectSetValueForIvar obj ivar buf' length mem
  /-- All that is not in the ivar stays as it is, with the buffer. -/
  frame : ∀ a, a < obj + ivar.offset ∨ obj + ivar.offset + length ≤ a →
    objectSetValueForIvar obj ivar buf length mem a = mem a
  /-- Pointers are read and written likewise. -/
  pointervalue : length = l.sizeofPointer →
    (∀ out, Apart obj ivar length out → (objectGetValueForIvar obj ivar out length mem).load out length =
      encode l.bigEndian length (objectGetPointervalueForIvar obj ivar l mem)) ∧
    ∀ value, mem.load buf length = encode l.bigEndian length value →
      objectSetPointervalueForIvar obj ivar l value mem = objectSetValueForIvar obj ivar buf length mem

end

variable {obj : ℕ} {ivar : Ivar} {l : PointerLayout} {length buf buf' out : ℕ} {mem : Memory}

/-! ## Pointers -/

/-- **Pointers are read and written as they should be.** -/
theorem pointervalue_lawful {value : ℕ} (hvalue : value < 2 ^ (8 * l.sizeofPointer)) (value' : ℕ) :
    objectGetPointervalueForIvar obj ivar l (objectSetPointervalueForIvar obj ivar l value mem) = value ∧
      objectSetPointervalueForIvar obj ivar l (objectGetPointervalueForIvar obj ivar l mem) mem = mem ∧
      objectSetPointervalueForIvar obj ivar l value' (objectSetPointervalueForIvar obj ivar l value mem) =
        objectSetPointervalueForIvar obj ivar l value' mem ∧
      ∀ a, a < obj + ivar.offset ∨ obj + ivar.offset + l.sizeofPointer ≤ a →
        objectSetPointervalueForIvar obj ivar l value mem a = mem a := by
  refine ⟨?_, ?_, Memory.store_store_same (by simp), fun a ha => Memory.store_of_not_mem (by simpa using ha)⟩
  · have hbytes : (objectSetPointervalueForIvar obj ivar l value mem).load (obj + ivar.offset)
        (encode l.bigEndian l.sizeofPointer value).length = encode l.bigEndian l.sizeofPointer value := Memory.load_store
    rw [length_encode] at hbytes
    rw [objectGetPointervalueForIvar, hbytes, decode_encode, Nat.mod_eq_of_lt hvalue]
  · have hbytes := encode_decode l.bigEndian (mem.load (obj + ivar.offset) l.sizeofPointer)
    rw [Memory.length_load] at hbytes
    rw [objectSetPointervalueForIvar, objectGetPointervalueForIvar, hbytes, Memory.store_load]

/-! ## Buffers -/

lemma load_objectGetValueForIvar : (objectGetValueForIvar obj ivar out length mem).load out length =
    mem.load (obj + ivar.offset) length := by
  have h : (mem.store out (mem.load (obj + ivar.offset) length)).load out
      (mem.load (obj + ivar.offset) length).length = mem.load (obj + ivar.offset) length := Memory.load_store
  rwa [Memory.length_load] at h

lemma load_objectSetValueForIvar (h : Apart obj ivar length buf) :
    (objectSetValueForIvar obj ivar buf length mem).load (obj + ivar.offset) length =
      mem.load (obj + ivar.offset) length := by
  unfold Apart at h
  apply Memory.load_store_of_disjoint
  rw [Memory.length_load]
  omega

lemma objectSetValueForIvar_eq_self (h : mem.load buf length = mem.load (obj + ivar.offset) length) :
    objectSetValueForIvar obj ivar buf length mem = mem := by
  rw [objectSetValueForIvar, memcpy, ← h, Memory.store_load]

/-- **Writing from buffers obeys the laws exactly if the buffers have the bytes of the ivar already**; it does so for no
bytes at all. -/
theorem lawful_iff (hbuf : Apart obj ivar length buf) (hbuf' : Apart obj ivar length buf') :
    Lawful obj ivar l length buf buf' mem ↔
      mem.load buf length = mem.load (obj + ivar.offset) length ∧
        mem.load buf' length = mem.load (obj + ivar.offset) length := by
  constructor
  · intro h
    have hput := h.put_get buf hbuf
    have hlast := h.put_put.1 buf' hbuf'
    rw [load_objectGetValueForIvar, load_objectSetValueForIvar hbuf] at hput
    rw [load_objectGetValueForIvar, load_objectSetValueForIvar hbuf', load_objectSetValueForIvar hbuf] at hlast
    exact ⟨hput.symm, hlast.symm⟩
  · rintro ⟨hbytes, hbytes'⟩
    have hset := objectSetValueForIvar_eq_self hbytes
    have hset' := objectSetValueForIvar_eq_self hbytes'
    refine ⟨fun out _ => ?_, fun out hout => ?_, ⟨fun out _ => ?_, ?_⟩, fun a _ => ?_, fun hlength => ⟨fun out _ => ?_, ?_⟩⟩
    · rw [hset, load_objectGetValueForIvar, hbytes]
    · apply objectSetValueForIvar_eq_self
      rw [load_objectGetValueForIvar]
      exact (load_objectSetValueForIvar hout).symm
    · rw [hset, hset', load_objectGetValueForIvar, hbytes']
    · rw [hset]
    · rw [hset]
    · have hdecoded := encode_decode l.bigEndian (mem.load (obj + ivar.offset) length)
      rw [Memory.length_load] at hdecoded
      rw [load_objectGetValueForIvar, objectGetPointervalueForIvar, ← hlength, hdecoded]
    · intro value hvalue
      rw [hset, objectSetPointervalueForIvar, ← hlength, ← hvalue, hbytes, Memory.store_load]

/-- A memory with the bytes 1 to 8, again and again. -/
def onesToEights : Memory := fun a => BitVec.ofNat 8 (a % 8 + 1)

/-- An ivar at 24, and buffers at 64 and 72, with these bytes. -/
theorem lawful_onesToEights : Lawful 16 ⟨8⟩ ⟨8, false⟩ 8 64 72 onesToEights :=
  (lawful_iff (Or.inr (by decide)) (Or.inr (by decide))).mpr ⟨by decide, by decide⟩

/-- A memory with zeros up to 63 and with ones behind. -/
def zerosAndOnes : Memory := fun a => if a < 64 then 0 else 1

/-- A one is written to an ivar with a zero: the ivar keeps its zero, and the buffer gets it. -/
theorem not_lawful_one :
    objectSetValueForIvar 16 ⟨8⟩ 64 1 zerosAndOnes 24 = 0 ∧ objectSetValueForIvar 16 ⟨8⟩ 64 1 zerosAndOnes 64 = 0 ∧
      zerosAndOnes 64 = 1 ∧ ¬ Lawful 16 ⟨8⟩ ⟨8, false⟩ 1 64 64 zerosAndOnes := by
  refine ⟨by decide, by decide, by decide, fun h => ?_⟩
  have hput := h.put_get 64 (Or.inr (by decide))
  exact absurd hput (by decide)

end MulleObjcRuntime.Objects
