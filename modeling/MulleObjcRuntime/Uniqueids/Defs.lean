import Mathlib.Data.List.Sort
import Mathlib.Logic.Function.Basic
import MulleObjcRuntime.Lib.IntBisection

/-!
# The unique id arrays of a class pair

* `Uniqueidarray` — an array of ids, with what adds ids to a copy of it and what searches in it;
* `Pair` — the two pointers of a class pair and the arrays they have pointed to;
* `setUniqueidarray`, `addUniqueidarrayIds`, `plusdone` — what changes the pointers and frees arrays;
* `addCategoryidNofail`, `addProtocollistNofail` — a category and a list of protocols for a class pair.

One operation follows the other.  Where a compare-and-swap may fail spuriously, the number of failures is an argument.
-/

namespace MulleObjcRuntime.Uniqueids

open Lib.IntBisection

/-! ## Arrays -/

/-- A `_mulle_objc_uniqueidarray`. -/
structure Uniqueidarray where
  entries : List ℕ
deriving DecidableEq, Repr

/-- `_mulle_objc_uniqueidarray_sort` -/
def Uniqueidarray.sort (p : Uniqueidarray) : Uniqueidarray := ⟨p.entries.insertionSort (· ≤ ·)⟩

/-- `_mulle_objc_uniqueidarray_by_adding_ids` -/
def Uniqueidarray.byAddingIds (p : Uniqueidarray) (uniqueids : List ℕ) (sort : Bool) : Uniqueidarray :=
  let copy : Uniqueidarray := ⟨p.entries ++ uniqueids⟩
  if sort then copy.sort else copy

/-- `_mulle_objc_uniqueidarray_search` with the `int`s that it has.  The middle is computed ahead of the loop and at the
end of each round. -/
def Uniqueidarray.intSearch (buf : Uniqueidarray) (search : ℕ) : Except Fault Bool :=
  (bisect id search true buf.entries).map Option.isSome

/-- `mulle_objc_uniqueid_is_sane` -/
def isSane (uniqueid : ℕ) : Bool := uniqueid != 0 && uniqueid != 0xffffffff

/-! ## Class pairs -/

/-- The two atomic pointers of a class pair. -/
inductive Pointer
  | protocolids
  | categoryids
deriving DecidableEq, Repr

/-- The address of the `empty_uniqueidarray` of the universe. -/
def emptyUniqueidarray : ℕ := 0

/-- A `_mulle_objc_classpair` with the arrays that were allocated for it so far, at the addresses up to `allocated`,
those that were installed and the arguments of the calls that free an array. -/
structure Pair where
  allocated : ℕ
  array : ℕ → Uniqueidarray
  pointer : Pointer → ℕ
  installed : List ℕ
  freed : List ℕ
  /-- the names in the `protocoltable` of the universe -/
  protocoltable : ℕ → Option (List Char)

namespace Pair

/-- `_mulle_objc_classpair_plusinit` -/
def plusinit : Pair := ⟨0, fun _ => ⟨[]⟩, fun _ => emptyUniqueidarray, [], [], fun _ => none⟩

/-- A new array, at the address `allocated` afterwards. -/
def alloc (s : Pair) (a : Uniqueidarray) : Pair :=
  { s with allocated := s.allocated + 1, array := Function.update s.array (s.allocated + 1) a }

/-- `mulle_objc_uniqueidarray_free` and `mulle_objc_uniqueidarray_abafree` -/
def free (s : Pair) (address : ℕ) : Pair := { s with freed := address :: s.freed }

/-- The compare-and-swap that succeeds. -/
def install (s : Pair) (p : Pointer) (address : ℕ) : Pair :=
  { s with pointer := Function.update s.pointer p address, installed := address :: s.installed }

/-- The array that is freed unless it is the empty one. -/
def freeUnlessEmpty (s : Pair) (address : ℕ) : Pair := if address = emptyUniqueidarray then s else s.free address

@[simp] lemma freeUnlessEmpty_pointer (s : Pair) (address : ℕ) : (s.freeUnlessEmpty address).pointer = s.pointer := by
  unfold freeUnlessEmpty
  split <;> rfl

@[simp] lemma freeUnlessEmpty_array (s : Pair) (address : ℕ) : (s.freeUnlessEmpty address).array = s.array := by
  unfold freeUnlessEmpty
  split <;> rfl

@[simp] lemma freeUnlessEmpty_allocated (s : Pair) (address : ℕ) :
    (s.freeUnlessEmpty address).allocated = s.allocated := by
  unfold freeUnlessEmpty
  split <;> rfl

@[simp] lemma freeUnlessEmpty_installed (s : Pair) (address : ℕ) :
    (s.freeUnlessEmpty address).installed = s.installed := by
  unfold freeUnlessEmpty
  split <;> rfl

lemma mem_freeUnlessEmpty_freed {s : Pair} {address a : ℕ} :
    a ∈ (s.freeUnlessEmpty address).freed ↔ (address ≠ emptyUniqueidarray ∧ a = address) ∨ a ∈ s.freed := by
  unfold freeUnlessEmpty
  split <;> simp_all [free]

lemma count_freeUnlessEmpty_freed (s : Pair) {address a : ℕ} (ha : a ≠ emptyUniqueidarray) :
    (s.freeUnlessEmpty address).freed.count a = s.freed.count a + if address = a then 1 else 0 := by
  unfold freeUnlessEmpty
  by_cases h : address = emptyUniqueidarray
  · rw [if_pos h, if_neg fun haddress => ha (haddress.symm.trans h), Nat.add_zero]
  · rw [if_neg h]
    show (address :: s.freed).count a = _
    rw [List.count_cons]
    simp only [beq_iff_eq]

@[simp] lemma install_pointer_self (s : Pair) (p : Pointer) (address : ℕ) : (s.install p address).pointer p = address :=
  Function.update_self ..

lemma install_pointer_of_ne (s : Pair) {p q : Pointer} (h : q ≠ p) (address : ℕ) :
    (s.install p address).pointer q = s.pointer q :=
  Function.update_of_ne h ..

/-- The ids of an installed array. -/
def ids (s : Pair) (p : Pointer) : List ℕ := (s.array (s.pointer p)).entries

/-- `_mulle_objc_classpair_has_protocolid` -/
def hasProtocolid (s : Pair) (protocolid : ℕ) : Except Fault Bool :=
  (s.array (s.pointer .protocolids)).intSearch protocolid

/-- `_mulle_objc_classpair_has_categoryid` -/
def hasCategoryid (s : Pair) (categoryid : ℕ) : Except Fault Bool :=
  (s.array (s.pointer .categoryids)).intSearch categoryid

end Pair

/-- `_mulle_objc_classpair_set_uniqueidarray`.  What was installed is read into `old` and left alone; it is the new
array that is freed. -/
def setUniqueidarray (p : Pointer) (array : ℕ) (s : Pair) : Pair := (s.install p array).freeUnlessEmpty array

/-- The attempts of `_mulle_objc_classpair_add_uniqueidarray_ids` whose compare-and-swap fails: the copy is freed. -/
def failedAttempts (p : Pointer) (uniqueids : List ℕ) (sort : Bool) : ℕ → Pair → Pair
  | 0, s => s
  | failures + 1, s =>
    let s := s.alloc ((s.array (s.pointer p)).byAddingIds uniqueids sort)
    failedAttempts p uniqueids sort failures (s.free s.allocated)

/-- `_mulle_objc_classpair_add_uniqueidarray_ids` -/
def addUniqueidarrayIds (p : Pointer) (uniqueids : List ℕ) (sort : Bool) (failures : ℕ) (s : Pair) : Pair :=
  let s := failedAttempts p uniqueids sort failures s
  let array := s.pointer p
  let s := s.alloc ((s.array array).byAddingIds uniqueids sort)
  (s.install p s.allocated).freeUnlessEmpty array

lemma failedAttempts_keeps {P : Pair → Prop} (hkeep : ∀ s a, P s → P ((s.alloc a).free (s.allocated + 1)))
    (p : Pointer) (uniqueids : List ℕ) (sort : Bool) (failures : ℕ) {s : Pair} (hs : P s) :
    P (failedAttempts p uniqueids sort failures s) := by
  induction failures generalizing s with
  | zero => exact hs
  | succ failures ih => exact ih (hkeep s _ hs)

/-- `_mulle_objc_classpair_plusdone`, without the mixins. -/
def plusdone (s : Pair) : Pair := (s.freeUnlessEmpty (s.pointer .protocolids)).freeUnlessEmpty (s.pointer .categoryids)

/-! ## Categories and protocols -/

/-- `mulle_objc_classpair_add_categoryid_nofail`, `none` where it fails or where its search overflows. -/
def addCategoryidNofail (categoryid failures : ℕ) (s : Pair) : Option Pair :=
  if isSane categoryid then
    match s.hasCategoryid categoryid with
    | .ok false => some (addUniqueidarrayIds .categoryids [categoryid] true failures s)
    | _ => none
  else none

/-- A `_mulle_objc_protocol`. -/
structure Protocol where
  protocolid : ℕ
  name : List Char
deriving DecidableEq, Repr

/-- `mulle_objc_protocol_is_sane` -/
def Protocol.isSane (p : Protocol) : Bool := Uniqueids.isSane p.protocolid && !p.name.isEmpty

/-- `mulle_objc_universe_register_protocol_nofail`, `none` where the id is that of a protocol with another name. -/
def registerProtocolNofail (p : Protocol) (table : ℕ → Option (List Char)) : Option (ℕ → Option (List Char)) :=
  match table p.protocolid with
  | none => some (Function.update table p.protocolid (some p.name))
  | some name => if name = p.name then some table else none

/-- The loop over the protocols: the ids that are to be added and the table afterwards, `none` where it fails or where a
search overflows.  The order is asserted, which a release build (`NDEBUG`) leaves out. -/
def newProtocolids (ndebug : Bool) (hasProtocolid : ℕ → Except Fault Bool) :
    (ℕ → Option (List Char)) → ℕ → List Protocol → Option (List ℕ × (ℕ → Option (List Char)))
  | table, _, [] => some ([], table)
  | table, before, p :: protocols =>
    if p.isSane then
      match hasProtocolid p.protocolid with
      | .error _ => none
      | .ok true => newProtocolids ndebug hasProtocolid table before protocols
      | .ok false =>
        match registerProtocolNofail p table with
        | none => none
        | some table =>
          if ndebug || before < p.protocolid then
            (newProtocolids ndebug hasProtocolid table p.protocolid protocols).map fun r => (p.protocolid :: r.1, r.2)
          else none
    else none

/-- `mulle_objc_classpair_add_protocollist_nofail`, `none` where it fails. -/
def addProtocollistNofail (ndebug : Bool) (protocols : List Protocol) (failures : ℕ) (s : Pair) : Option Pair :=
  if protocols = [] then some s
  else
    (newProtocolids ndebug s.hasProtocolid s.protocoltable 0 protocols).map fun r =>
      addUniqueidarrayIds .protocolids r.1 true failures { s with protocoltable := r.2 }

end MulleObjcRuntime.Uniqueids
