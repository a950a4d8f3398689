import MulleObjcRuntime.Lib.Fallible
import MulleObjcRuntime.Lib.IntBisection
import MulleObjcRuntime.Uniqueids.Defs

/-!
# The scan of an array of unique ids

Arrays of ids that are sorted are searched by bisection, the others are scanned.  Both assert that the id is sane, which
is nothing the loops depend on.

* `Uniqueidarray.find` — the scan, loop by loop;
* `find_nil`, `find_head`, `find_eq_none` — what the scan comes to: it looks at the first entry only;
* `findsRight_iff` — when the scan is right and agrees with the bisection.
-/

namespace MulleObjcRuntime.Uniqueids

open Lib.BinarySearch Lib.Fallible Lib.IntBisection

/-- The loop of `_mulle_objc_uniqueidarray_find` at the entry `p`, with a bound on its rounds.  Nothing moves `p` on. -/
def findFrom (entries : List ℕ) (search p : ℕ) : ℕ → Option Bool
  | 0 => none
  | rounds + 1 =>
    match entries[p]? with
    | none => some false
    | some entry => if entry = search then some true else findFrom entries search p rounds

namespace Uniqueidarray

/-- `_mulle_objc_uniqueidarray_find` -/
def find (array : Uniqueidarray) (search rounds : ℕ) : Option Bool := findFrom array.entries search 0 rounds

/-- The scan returns, what it returns tells whether the id is an entry, and the bisection of a sorted array returns the
same. -/
def FindsRight (array : Uniqueidarray) (uniqueid : ℕ) : Prop :=
  ∃ rounds b, array.find uniqueid rounds = some b ∧ (b = true ↔ uniqueid ∈ array.entries) ∧
    (Sorted id array.entries → array.intSearch uniqueid = .ok b)

variable {array : Uniqueidarray} {uniqueid : ℕ}

/-! ## The scan -/

lemma find_nil (h : array.entries = []) (rounds : ℕ) : array.find uniqueid (rounds + 1) = some false := by
  simp [find, findFrom, h]

lemma find_head (h : array.entries.head? = some uniqueid) (rounds : ℕ) :
    array.find uniqueid (rounds + 1) = some true := by
  obtain ⟨entries, hentries⟩ := List.head?_eq_some_iff.mp h
  simp [find, findFrom, hentries]

lemma find_eq_none {entry : ℕ} (h : array.entries.head? = some entry) (hne : entry ≠ uniqueid) (rounds : ℕ) :
    array.find uniqueid rounds = none := by
  obtain ⟨entries, hentries⟩ := List.head?_eq_some_iff.mp h
  unfold find
  rw [hentries]
  induction rounds with
  | zero => rfl
  | succ rounds ih =>
    rw [findFrom, List.getElem?_cons_zero]
    simp only [if_neg hne]
    exact ih

/-! ## The bisection -/

lemma intSearch_nil (h : array.entries = []) : array.intSearch uniqueid = .ok false := by
  rw [intSearch, bisect_eq_bsearch (by simp [h]), h]
  rfl

lemma intSearch_head_iff (hs : Sorted id array.entries) (hhead : array.entries.head? = some uniqueid)
    (hcount : array.entries.length < 2 ^ 32) :
    array.intSearch uniqueid = .ok true ↔ array.entries.length ≤ 2 ^ 31 := by
  obtain ⟨entries, hentries⟩ := List.head?_eq_some_iff.mp hhead
  have hpos : 0 < array.entries.length := by simp [hentries]
  have hkey : id array.entries[0] = uniqueid := by simp [hentries]
  have hfound := @bisect_head _ _ _ id uniqueid true array.entries hs hpos hkey hcount
  rw [← hfound, intSearch, map_eq_ok]
  constructor
  · rintro ⟨r, hr, hsome⟩
    obtain ⟨p, rfl⟩ := Option.isSome_iff_exists.mp hsome
    exact ⟨p, hr⟩
  · rintro ⟨p, hp⟩
    exact ⟨some p, hp, rfl⟩

/-! ## The scan and the bisection -/

/-- **The scan is right about an array without entries and about one that starts with the id**, as long as the bisection,
where the array is sorted, has `int`s for its length.  It is right about no other array. -/
theorem findsRight_iff (hcount : array.entries.length < 2 ^ 32) :
    array.FindsRight uniqueid ↔ array.entries = [] ∨
      (array.entries.head? = some uniqueid ∧ (Sorted id array.entries → array.entries.length ≤ 2 ^ 31)) := by
  constructor
  · rintro ⟨rounds, b, hfind, hmem, hagrees⟩
    cases hhead : array.entries.head? with
    | none => exact Or.inl (List.head?_eq_none_iff.mp hhead)
    | some entry =>
      by_cases hne : entry = uniqueid
      · subst hne
        have hfound : b = true := hmem.mpr (List.mem_of_mem_head? hhead)
        refine Or.inr ⟨rfl, fun hs => ?_⟩
        rw [← intSearch_head_iff hs hhead hcount, hagrees hs, hfound]
      · rw [find_eq_none hhead hne] at hfind
        cases hfind
  · rintro (hnil | ⟨hhead, hlength⟩)
    · refine ⟨1, false, find_nil hnil 0, ?_, fun _ => intSearch_nil hnil⟩
      simp [hnil]
    · refine ⟨1, true, find_head hhead 0, ?_, fun hs => ?_⟩
      · simp [List.mem_of_mem_head? hhead]
      · exact (intSearch_head_iff hs hhead hcount).mpr (hlength hs)

/-- An array that starts with the id. -/
theorem findsRight_head : (Uniqueidarray.mk [3, 5]).FindsRight 3 :=
  (findsRight_iff (by decide)).mpr (Or.inr ⟨rfl, fun _ => by decide⟩)

/-- The second of two ids in order: the bisection finds it, but the scan does not return. -/
theorem not_findsRight_second :
    (∀ rounds, (Uniqueidarray.mk [3, 5]).find 5 rounds = none) ∧ (Uniqueidarray.mk [3, 5]).intSearch 5 = .ok true ∧
      ¬ (Uniqueidarray.mk [3, 5]).FindsRight 5 := by
  have hnone : ∀ rounds, (Uniqueidarray.mk [3, 5]).find 5 rounds = none := find_eq_none rfl (by decide)
  refine ⟨hnone, by decide +kernel, ?_⟩
  rintro ⟨rounds, b, hfind, -⟩
  cases (hnone rounds).symm.trans hfind

end Uniqueidarray

end MulleObjcRuntime.Uniqueids
