import Mathlib.Order.Nat
import MulleObjcRuntime.Lib.BinarySearch

/-!
# Methods and method lists

* `Method` — a method descriptor with its implementation, named by its address;
* `MethodList` — a method list as the loader leaves it: sorted by method id;
* `MethodList.search`, `MethodList.impsearch` — the two searches in one list.
-/

namespace MulleObjcRuntime.Classes

open Lib.BinarySearch

/-- A `_mulle_objc_method`; `address` tells two methods with equal contents apart. -/
structure Method where
  address : ℕ
  methodid : ℕ
  bits : ℕ
  implementation : ℕ
deriving DecidableEq, Repr

/-- The descriptor bit `_mulle_objc_method_check_unexpected_override`. -/
def checkUnexpectedOverride : ℕ := 0x01

/-- `_mulle_objc_descriptor_is_hidden_override_fatal`. -/
def Method.isHiddenOverrideFatal (m : Method) : Bool := m.bits &&& checkUnexpectedOverride != 0

/-- A `_mulle_objc_methodlist`.  The category id is `0` when the list has no `loadcategory`; the loader sorts
the methods by id. -/
structure MethodList where
  categoryid : ℕ
  methods : List Method
  sorted : Sorted Method.methodid methods
deriving DecidableEq

namespace MethodList

/-- The list without methods, which a class without an `@implementation` of its own gets. -/
def empty : MethodList := ⟨0, [], List.Pairwise.nil⟩

/-- A list with one method. -/
def single (categoryid : ℕ) (m : Method) : MethodList := ⟨categoryid, [m], List.pairwise_singleton _ _⟩

/-- `_mulle_objc_methodlist_find`. -/
def find (list : MethodList) (methodid : ℕ) : Option Method :=
  list.methods.find? fun p => p.methodid == methodid

/-- `_mulle_objc_methodlist_search`: the binary search from 14 methods on.  Its places are numbers: with the ints of the
source it is the same for lists of up to `2 ^ 30` methods. -/
def search (list : MethodList) (methodid : ℕ) : Option Method :=
  if list.methods.length ≥ 14 then bsearch Method.methodid methodid list.methods else list.find methodid

/-- `_mulle_objc_methodlist_impsearch`. -/
def impsearch (list : MethodList) (imp : ℕ) : Option Method :=
  list.methods.find? fun p => p.implementation == imp

variable {list : MethodList} {methodid : ℕ} {m : Method}

lemma find_eq_some (h : list.find methodid = some m) : m ∈ list.methods ∧ m.methodid = methodid := by
  unfold find at h
  exact ⟨List.mem_of_find?_eq_some h, by simpa using List.find?_some h⟩

lemma find_eq_none_iff : list.find methodid = none ↔ ∀ p ∈ list.methods, p.methodid ≠ methodid := by
  simp [find]

/-- Both searches return a method of the list that has the id. -/
theorem search_eq_some (h : list.search methodid = some m) : m ∈ list.methods ∧ m.methodid = methodid := by
  unfold search at h
  split at h
  · exact bsearch_eq_some h
  · exact find_eq_some h

/-- **A list is searched in vain exactly when it has no method with the id.** -/
theorem search_eq_none_iff : list.search methodid = none ↔ ∀ p ∈ list.methods, p.methodid ≠ methodid := by
  unfold search
  split
  · exact bsearch_eq_none_iff list.sorted
  · exact find_eq_none_iff

end MethodList

end MulleObjcRuntime.Classes
