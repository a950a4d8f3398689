import MulleObjcRuntime.Classes.Method
import MulleObjcRuntime.Lib.Fallible
import MulleObjcRuntime.Lib.IntBisection
import MulleObjcRuntime.Uniqueids.Defs

/-!
# The search in a method list, with `int`s

The smart search of a method list scans short lists and bisects long ones, with `int`s for the indices.

* `methodBsearch`, `MethodList.smartSearch` — the searches with the `int`s that they have;
* `smartSearch_eq_search` — the smart search is `MethodList.search`, as long as its `int`s suffice;
* `find_eq_bsearch` — with distinct ids, the scan and the binary search find the same method;
* `searchesRight_iff` — for which lists the smart search is right, and agrees with the scan.
-/

namespace MulleObjcRuntime.Classes

open Lib.BinarySearch Lib.IntBisection Uniqueids

/-- `_mulle_objc_method_bsearch`; the middle is computed in the loop. -/
def methodBsearch (buf : List Method) (search : ℕ) : Except Fault (Option Method) :=
  bisect Method.methodid search false buf

namespace MethodList

lemma sorted_counting (n : ℕ) : Sorted Method.methodid ((List.range' 1 n).map fun i => ⟨i, i, 0, 0⟩) :=
  List.pairwise_map.mpr List.pairwise_le_range'

/-- `_mulle_objc_methodlist_binary_search` -/
def binarySearch (list : MethodList) (methodid : ℕ) : Except Fault (Option Method) :=
  methodBsearch list.methods methodid

/-- `_mulle_objc_methodlist_search` -/
def smartSearch (list : MethodList) (methodid : ℕ) : Except Fault (Option Method) :=
  if list.methods.length ≥ 14 then list.binarySearch methodid else .ok (list.find methodid)

/-- The smart search returns the method of the list with the id, or nothing if there is none, and the binary search
returns what the scan returns. -/
structure SearchesRight (list : MethodList) : Prop where
  search : ∀ methodid, isSane methodid = true → ∃ r, list.smartSearch methodid = .ok r ∧
    ∀ m, r = some m ↔ m ∈ list.methods ∧ m.methodid = methodid
  agrees : ∀ methodid, isSane methodid = true → list.binarySearch methodid = .ok (list.find methodid)

variable {list : MethodList} {methodid : ℕ} {m : Method}

/-! ## Distinct ids -/

lemma eq_some_iff (hdistinct : (list.methods.map Method.methodid).Nodup) {r : Option Method}
    (hsome : ∀ m, r = some m → m ∈ list.methods ∧ m.methodid = methodid)
    (hnone : r = none → ∀ p ∈ list.methods, p.methodid ≠ methodid) :
    r = some m ↔ m ∈ list.methods ∧ m.methodid = methodid := by
  refine ⟨hsome m, fun ⟨hm, hid⟩ => ?_⟩
  cases hr : r with
  | none => exact absurd hid (hnone hr m hm)
  | some p =>
    obtain ⟨hp, hpid⟩ := hsome p hr
    rw [List.inj_on_of_nodup_map hdistinct hp hm (hpid.trans hid.symm)]

lemma find_eq_some_iff (hdistinct : (list.methods.map Method.methodid).Nodup) :
    list.find methodid = some m ↔ m ∈ list.methods ∧ m.methodid = methodid :=
  eq_some_iff hdistinct (fun _ => find_eq_some) find_eq_none_iff.mp

lemma bsearch_eq_some_iff (hdistinct : (list.methods.map Method.methodid).Nodup) :
    bsearch Method.methodid methodid list.methods = some m ↔ m ∈ list.methods ∧ m.methodid = methodid :=
  eq_some_iff hdistinct (fun _ => bsearch_eq_some) (bsearch_eq_none_iff list.sorted).mp

/-- **The scan and the binary search find the same method.** -/
theorem find_eq_bsearch (hdistinct : (list.methods.map Method.methodid).Nodup) :
    list.find methodid = bsearch Method.methodid methodid list.methods := by
  apply Option.ext
  intro m
  rw [find_eq_some_iff hdistinct, bsearch_eq_some_iff hdistinct]

/-! ## Lengths -/

lemma smartSearch_eq_search (h : list.methods.length ≤ 2 ^ 30) :
    list.smartSearch methodid = .ok (list.search methodid) := by
  rw [smartSearch, search, binarySearch, methodBsearch, bisect_eq_bsearch h]
  split <;> rfl

/-- The last of more methods is not found. -/
lemma binarySearch_last (hdistinct : (list.methods.map Method.methodid).Nodup) (hlarge : 2 ^ 30 < list.methods.length)
    (hm : list.methods.getLast? = some m) (p : Method) :
    list.binarySearch m.methodid ≠ .ok (some p) := by
  have hlast : list.methods.length - 1 < list.methods.length := by omega
  have hget : list.methods[list.methods.length - 1] = m := by
    rw [List.getLast?_eq_getElem?, List.getElem?_eq_getElem hlast] at hm
    exact Option.some.inj hm
  have hbelow : ∀ i, (hi : i < list.methods.length) → i < list.methods.length - 1 →
      list.methods[i].methodid < m.methodid := by
    intro i hi hlt
    have hle := list.sorted.getElem_le hi hlast (by omega)
    rw [hget] at hle
    refine lt_of_le_of_ne hle fun heq => ?_
    have hsame := List.inj_on_of_nodup_map hdistinct (List.getElem_mem hi) (List.getElem_mem hlast) (hget ▸ heq)
    have hindex := (List.Nodup.of_map _ hdistinct).getElem_inj_iff.mp hsame
    omega
  have hnever := @bisect_last Method ℕ _ Method.methodid m.methodid false list.methods hlarge hbelow
  exact hnever p

lemma SearchesRight.length_le (h : list.SearchesRight) (hdistinct : (list.methods.map Method.methodid).Nodup)
    (hsane : ∀ m ∈ list.methods, isSane m.methodid = true) : list.methods.length ≤ 2 ^ 30 := by
  by_contra hlarge
  have hne : list.methods ≠ [] := List.ne_nil_of_length_pos (by omega)
  have hm := List.getLast?_eq_getLast_of_ne_nil hne
  have hmem := List.getLast_mem hne
  have hagrees := h.agrees _ (hsane _ hmem)
  rw [(find_eq_some_iff hdistinct).mpr ⟨hmem, rfl⟩] at hagrees
  exact binarySearch_last hdistinct (by omega) hm _ hagrees

/-- **The smart search is right, and the binary search agrees with the scan, for a list with up to `2 ^ 30` methods**,
and for no list with more of them. -/
theorem searchesRight_iff (hdistinct : (list.methods.map Method.methodid).Nodup)
    (hsane : ∀ m ∈ list.methods, isSane m.methodid = true) :
    list.SearchesRight ↔ list.methods.length ≤ 2 ^ 30 := by
  refine ⟨fun h => h.length_le hdistinct hsane, fun h => ⟨fun methodid _ => ?_, fun methodid _ => ?_⟩⟩
  · refine ⟨_, smartSearch_eq_search h, fun m => ?_⟩
    exact eq_some_iff hdistinct (fun _ => search_eq_some) search_eq_none_iff.mp
  · rw [binarySearch, methodBsearch, bisect_eq_bsearch h, find_eq_bsearch hdistinct]

/-- The list of the methods with the ids from 1 to `n`. -/
def counting (n : ℕ) : MethodList where
  categoryid := 0
  methods := (List.range' 1 n).map fun i => ⟨i, i, 0, 0⟩
  sorted := sorted_counting n

lemma length_counting (n : ℕ) : (counting n).methods.length = n := by simp [counting]

lemma nodup_counting (n : ℕ) : ((counting n).methods.map Method.methodid).Nodup := by
  have hids : (counting n).methods.map Method.methodid = List.range' 1 n := by
    rw [counting, List.map_map]
    exact List.map_id _
  rw [hids]
  exact List.nodup_range'

lemma getLast_counting (n : ℕ) : (counting (n + 1)).methods.getLast? = some ⟨n + 1, n + 1, 0, 0⟩ := by
  simp only [counting, List.range'_concat, List.map_append, List.map_singleton, List.getLast?_concat, Nat.one_mul,
    Nat.add_comm]

lemma isSane_counting {n : ℕ} (h : n < 2 ^ 32 - 1) : ∀ m ∈ (counting n).methods, isSane m.methodid = true := by
  intro m hm
  obtain ⟨i, hi, rfl⟩ := List.mem_map.mp hm
  have hbounds := List.mem_range'_1.mp hi
  simp only [isSane, Bool.and_eq_true, bne_iff_ne]
  omega

/-- A list that is bisected. -/
theorem searchesRight_counting : (counting 14).SearchesRight :=
  (searchesRight_iff (by decide) (by decide)).mpr (by decide)

/-- A list with one method more than `2 ^ 30`: it is the last one that the smart search does not find. -/
theorem not_searchesRight_counting :
    (∀ p, (counting (2 ^ 30 + 1)).smartSearch (2 ^ 30 + 1) ≠ .ok (some p)) ∧
      (∃ m ∈ (counting (2 ^ 30 + 1)).methods, m.methodid = 2 ^ 30 + 1) ∧ ¬ (counting (2 ^ 30 + 1)).SearchesRight := by
  have hlength : (counting (2 ^ 30 + 1)).methods.length = 2 ^ 30 + 1 := length_counting _
  have hdistinct := nodup_counting (2 ^ 30 + 1)
  have hlast := getLast_counting (2 ^ 30)
  refine ⟨fun p => ?_, ⟨_, List.mem_of_getLast? hlast, rfl⟩, fun h => ?_⟩
  · rw [smartSearch, if_pos (by omega)]
    exact binarySearch_last hdistinct (by omega) hlast p
  · have hle := h.length_le hdistinct (isSane_counting (by omega))
    omega

end MethodList

end MulleObjcRuntime.Classes
