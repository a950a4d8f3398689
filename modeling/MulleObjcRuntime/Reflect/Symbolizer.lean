import MulleObjcRuntime.Lib.NearestBelow
import MulleObjcRuntime.Reflect.Walk

/-!
# The methods that a symbolizer knows

A symbolizer collects the methods of a universe, sorts them by their implementations, and looks up addresses in between.

* `Mmc`, `Mmcarray` — a method with its list and class, and the array of them that grows;
* `Quicksort`, `mmcCompareImps` — the sort;
* `collect`, `symbolizerInit` — the callback for the walk over the universe, and what the walk and the sort come to;
* `findNearestimp` — the search for an address;
* `Knows` — the array has each method of each class object, in order;
* `symbolizer_spec` — so it is with a new symbolizer, which finds the method that begins last before the address.
-/

namespace MulleObjcRuntime.Reflect

open Classes Hashmap Lib.BinarySearch Lib.IntBisection Lib.NearestBelow Members

/-- A `mmc` -/
structure Mmc (P : Type) where
  method : Method
  list : MethodList
  cls : ClassRef P
deriving DecidableEq

/-- `_mulle_objc_method_get_implementation` -/
def Mmc.imp {P : Type} (p : Mmc P) : ℕ := p.method.implementation

/-- A `mmcarray`: the values that count, and how many there is room for. -/
structure Mmcarray (P : Type) where
  values : List (Mmc P)
  size : ℕ
  fits : values.length ≤ size

/-- `mulle_qsort`: a permutation, and in order if the comparison is one. -/
structure Quicksort (α : Type) where
  sort : (α → α → ℤ) → List α → List α
  perm : ∀ compare l, (sort compare l).Perm l
  sorted : ∀ compare l, (∀ a b, compare a b ≤ 0 ∨ compare b a ≤ 0) →
    (∀ a b c, compare a b ≤ 0 → compare b c ≤ 0 → compare a c ≤ 0) → (sort compare l).Pairwise fun a b => compare a b ≤ 0

/-! ## The array -/

namespace Mmcarray

variable {P : Type}

/-- `mmcarray_init` -/
def init (capacity : ℕ) : Mmcarray P := ⟨[], if capacity = 0 then 0 else max capacity 2, Nat.zero_le _⟩

/-- The size that `mmcarray_grow` grows to. -/
def newSize (size : ℕ) : ℕ := if size * 2 < 2 then 2 else size * 2

lemma lt_newSize (size : ℕ) : size < newSize size := by
  unfold newSize
  split
  · omega
  · omega

/-- `mmcarray_grow` -/
def grow (array : Mmcarray P) : Mmcarray P :=
  ⟨array.values, newSize array.size, array.fits.trans (lt_newSize array.size).le⟩

/-- The array, which has grown if it was full. -/
def room (array : Mmcarray P) : Mmcarray P := if array.values.length = array.size then array.grow else array

@[simp] lemma values_room (array : Mmcarray P) : array.room.values = array.values := by
  unfold room
  split
  · rfl
  · rfl

lemma fits_room (array : Mmcarray P) (p : Mmc P) : (array.values ++ [p]).length ≤ array.room.size := by
  have hfits := array.fits
  rw [List.length_append, List.length_singleton, room]
  split
  · exact (Nat.succ_le_succ array.fits).trans (lt_newSize array.size)
  · omega

/-- `mmcarray_add` -/
def add (array : Mmcarray P) (p : Mmc P) : Mmcarray P := ⟨array.values ++ [p], array.room.size, array.fits_room p⟩

/-- `mmcarray_find_method` -/
def findMethod (array : Mmcarray P) (method : Method) : Option (Mmc P) :=
  array.values.find? fun p => p.method.address == method.address

/-- `mmc_compare_imps` -/
def mmcCompareImps (a b : Mmc P) : ℤ := if a.imp < b.imp then -1 else if a.imp = b.imp then 0 else 1

/-- `mmcarray_sort` with `mmc_compare_imps` -/
def sort (qsort : Quicksort (Mmc P)) (array : Mmcarray P) : Mmcarray P :=
  ⟨qsort.sort mmcCompareImps array.values, array.size, (qsort.perm _ _).length_eq.trans_le array.fits⟩

/-- `mmcarray_find_nearestimp` -/
def findNearestimp (array : Mmcarray P) (search : ℕ) : Except Fault (Option (Mmc P)) :=
  nearest Mmc.imp search array.values

lemma mmcCompareImps_nonpos {a b : Mmc P} : mmcCompareImps a b ≤ 0 ↔ a.imp ≤ b.imp := by
  unfold mmcCompareImps
  split
  · omega
  · split
    · omega
    · omega

lemma sorted_sort (qsort : Quicksort (Mmc P)) (array : Mmcarray P) : Sorted Mmc.imp (array.sort qsort).values := by
  have hsorted := qsort.sorted mmcCompareImps array.values
    (fun a b => by
      rw [mmcCompareImps_nonpos, mmcCompareImps_nonpos]
      exact Nat.le_total _ _)
    (fun a b c => by
      rw [mmcCompareImps_nonpos, mmcCompareImps_nonpos, mmcCompareImps_nonpos]
      exact Nat.le_trans)
  exact hsorted.imp fun h => mmcCompareImps_nonpos.mp h

end Mmcarray

/-! ## The walk -/

variable {P : Type} {g : ClassGraph P} {m : ClassMembers P} {ndebug : Bool}

/-- `callback`.  With assertions, it aborts if it gets a method again. -/
def collect (ndebug : Bool) (array : Option (Mmcarray P)) (visit : Visit P) : Option (Mmcarray P) × Walkcommand :=
  match visit with
  | .method method list cls =>
    (array.bind fun array =>
      if ndebug = false ∧ (array.findMethod method).isSome then none else some (array.add ⟨method, list, cls⟩), .ok)
  | _ => (array, .ok)

/-- `_mulle_objc_symbolizer_init`, which does not come to its end if the callback aborts. -/
def symbolizerInit [DecidableEq P] (g : ClassGraph P) (m : ClassMembers P) (ndebug : Bool) (qsort : Quicksort (Mmc P)) (frames : ℕ)
    (classtable : List P) : Option (Mmcarray P) :=
  (universeWalk g m (collect ndebug) frames classtable (some (.init 2048))).bind fun r => r.1.map (.sort qsort)

/-! ## What is collected -/

/-- What the callback collects of what it gets. -/
def collected : Visit P → Option (Mmc P)
  | .method method list cls => some ⟨method, list, cls⟩
  | _ => none

/-- The methods of a class object. -/
def methodsOf (g : ClassGraph P) (cls : ClassRef P) : List (Mmc P) :=
  (g.methodlists cls).reverse.flatMap fun list => list.methods.map fun method => ⟨method, list, cls⟩

/-- The methods of the classes in the class table and of their metaclasses. -/
def methodsOfClasses (g : ClassGraph P) (classtable : List P) : List (Mmc P) :=
  classtable.flatMap fun c => methodsOf g ⟨c, false⟩ ++ methodsOf g ⟨c, true⟩

lemma filterMap_methodVisits (cls : ClassRef P) : (methodVisits g cls).filterMap collected = methodsOf g cls := by
  simp only [methodVisits, methodsOf, List.filterMap_flatMap, List.filterMap_map]
  refine congrArg₂ _ (funext fun list => ?_) rfl
  exact congrFun (List.filterMap_eq_map (f := fun method => Mmc.mk method list cls)) _

lemma filterMap_propertyVisits (infra : P) : (propertyVisits g m infra).filterMap collected = [] := by
  simp [propertyVisits, List.filterMap_map, collected, Function.comp_def]

lemma filterMap_ivarVisits (infra : P) : (ivarVisits g m infra).filterMap collected = [] := by
  simp [ivarVisits, List.filterMap_map, collected, Function.comp_def]

lemma filterMap_universeBlocks (classtable : List P) :
    ((universeBlocks g m classtable).flatMap Block.elements).filterMap collected = methodsOfClasses g classtable := by
  have hpair : ∀ c, ((pairBlocks g m c).flatMap Block.elements).filterMap collected =
      methodsOf g ⟨c, false⟩ ++ methodsOf g ⟨c, true⟩ := fun c => by
    simp [pairBlocks, Block.elements, List.filterMap_cons, List.filterMap_append, collected, filterMap_methodVisits,
      filterMap_propertyVisits, filterMap_ivarVisits]
  rw [universeBlocks, List.flatMap_cons, List.filterMap_append, List.flatMap_assoc, List.filterMap_flatMap]
  simp only [hpair]
  rfl

lemma foldl_collect_ndebug (visits : List (Visit P)) (array : Mmcarray P) :
    ∃ array', visits.foldl (fun array visit => (collect true array visit).1) (some array) = some array' ∧
      array'.values = array.values ++ visits.filterMap collected := by
  induction visits generalizing array with
  | nil => exact ⟨array, rfl, by simp⟩
  | cons visit visits ih =>
    rw [List.foldl_cons]
    cases visit with
    | method method list cls =>
      obtain ⟨array', hfold, hvalues⟩ := ih (array.add ⟨method, list, cls⟩)
      exact ⟨array', hfold, by simp [hvalues, Mmcarray.add, collected]⟩
    | _ => exact ih array

/-- The addresses of the methods, each of which is a place in memory. -/
def addresses (values : List (Mmc P)) : List ℕ := values.map fun p => p.method.address

lemma addresses_append (values values' : List (Mmc P)) : addresses (values ++ values') = addresses values ++ addresses values' :=
  List.map_append

lemma isSome_findMethod (array : Mmcarray P) (method : Method) :
    (array.findMethod method).isSome = true ↔ method.address ∈ addresses array.values := by
  simp [Mmcarray.findMethod, addresses]

lemma foldl_collect_none (visits : List (Visit P)) :
    visits.foldl (fun array visit => (collect ndebug array visit).1) none = none := by
  induction visits with
  | nil => rfl
  | cons visit visits ih =>
    rw [List.foldl_cons]
    cases visit with
    | _ => exact ih

/-- With assertions, everything is collected unless there is a method again. -/
lemma foldl_collect_debug (visits : List (Visit P)) (array : Mmcarray P) (hnodup : (addresses array.values).Nodup) :
    let r := visits.foldl (fun array visit => (collect false array visit).1) (some array)
    let values := array.values ++ visits.filterMap collected
    ((addresses values).Nodup → ∃ array', r = some array' ∧ array'.values = values) ∧
      (¬ (addresses values).Nodup → r = none) := by
  induction visits generalizing array with
  | nil => exact ⟨fun _ => ⟨array, rfl, by simp⟩, fun h => absurd (by simpa using hnodup) h⟩
  | cons visit visits ih =>
    rw [List.foldl_cons]
    cases visit with
    | method method list cls =>
      by_cases hagain : (array.findMethod method).isSome = true
      · have hmem := (isSome_findMethod array method).mp hagain
        have hstep : (collect false (some array) (.method method list cls)).1 = none := if_pos ⟨rfl, hagain⟩
        rw [hstep, foldl_collect_none]
        refine ⟨fun hno => ?_, fun _ => rfl⟩
        rw [addresses_append] at hno
        exact absurd (by simp [addresses, collected]) (List.disjoint_of_nodup_append hno hmem)
      · have hfresh : method.address ∉ addresses array.values := fun h => hagain ((isSome_findMethod array method).mpr h)
        have hstep : (collect false (some array) (.method method list cls)).1 = some (array.add ⟨method, list, cls⟩) :=
          if_neg fun h => hagain h.2
        have hnodup' : (addresses (array.add ⟨method, list, cls⟩).values).Nodup := by
          rw [Mmcarray.add, addresses_append]
          exact List.nodup_append'.mpr ⟨hnodup, List.nodup_singleton _, List.disjoint_singleton.mpr hfresh⟩
        have hrest := ih (array.add ⟨method, list, cls⟩) hnodup'
        rw [hstep]
        simpa [Mmcarray.add, List.filterMap_cons, collected] using hrest
    | _ => exact ih array hnodup

/-! ## A symbolizer -/

variable [DecidableEq P] {qsort : Quicksort (Mmc P)} {frames : ℕ} {classtable : List P}

omit [DecidableEq P] in
lemma collect_ok (array : Option (Mmcarray P)) (visit : Visit P) : (collect ndebug array visit).2 = .ok := by
  cases visit with
  | _ => rfl

lemma symbolizerInit_eq (hframes : ∀ c ∈ classtable, g.depth c < frames) :
    symbolizerInit g m ndebug qsort frames classtable =
      (((universeBlocks g m classtable).flatMap Block.elements).foldl
        (fun array visit => (collect ndebug array visit).1) (some (.init 2048))).map (.sort qsort) := by
  rw [symbolizerInit, universeWalk_blocks classtable hframes, Option.bind_some, runBlocks_of_ok collect_ok]

/-- The array is what was collected, sorted. -/
lemma symbolizerInit_values (m : ClassMembers P) (ndebug : Bool) (qsort : Quicksort (Mmc P))
    (hframes : ∀ c ∈ classtable, g.depth c < frames) :
    (symbolizerInit g m ndebug qsort frames classtable = none ↔
      ndebug = false ∧ ¬ (addresses (methodsOfClasses g classtable)).Nodup) ∧
      ∀ array, symbolizerInit g m ndebug qsort frames classtable = some array →
        array.values.Perm (methodsOfClasses g classtable) ∧ Sorted Mmc.imp array.values := by
  rw [symbolizerInit_eq hframes, ← filterMap_universeBlocks (m := m)]
  generalize (universeBlocks g m classtable).flatMap Block.elements = visits
  have hperm : ∀ {array sorted : Mmcarray P}, array.values = visits.filterMap collected → some (array.sort qsort) = some sorted →
      sorted.values.Perm (visits.filterMap collected) ∧ Sorted Mmc.imp sorted.values := by
    rintro array _ hvalues ⟨⟩
    exact ⟨hvalues ▸ qsort.perm _ _, Mmcarray.sorted_sort qsort array⟩
  cases ndebug with
  | true =>
    obtain ⟨array, hfold, hvalues⟩ := foldl_collect_ndebug visits (.init 2048)
    rw [hfold]
    exact ⟨by simp, fun sorted h => hperm hvalues h⟩
  | false =>
    obtain ⟨hsome, hnone⟩ := foldl_collect_debug visits (.init 2048) List.nodup_nil
    by_cases hnodup : (addresses (visits.filterMap collected)).Nodup
    · obtain ⟨array, hfold, hvalues⟩ := hsome hnodup
      rw [hfold]
      exact ⟨by simp [hnodup], fun sorted h => hperm hvalues h⟩
    · rw [hnone hnodup]
      exact ⟨by simp [hnodup], fun _ h => by cases h⟩

/-! ### A sort -/

/-- A sort by insertion. -/
def insertionSort {α : Type} (compare : α → α → ℤ) (l : List α) : List α := l.insertionSort fun a b => compare a b ≤ 0

lemma insertionSort_perm {α : Type} (compare : α → α → ℤ) (l : List α) : (insertionSort compare l).Perm l :=
  List.perm_insertionSort _ l

lemma insertionSort_sorted {α : Type} (compare : α → α → ℤ) (l : List α) (htotal : ∀ a b, compare a b ≤ 0 ∨ compare b a ≤ 0)
    (htrans : ∀ a b c, compare a b ≤ 0 → compare b c ≤ 0 → compare a c ≤ 0) :
    (insertionSort compare l).Pairwise fun a b => compare a b ≤ 0 := by
  have : Std.Total fun a b => compare a b ≤ 0 := ⟨htotal⟩
  have : IsTrans α fun a b => compare a b ≤ 0 := ⟨htrans⟩
  exact List.pairwise_insertionSort _ l

/-- **A new symbolizer knows the methods of all classes**, in the order of their implementations.  With assertions there is
none if a method comes up twice.  Up to `2 ^ 30` methods, it finds one that begins last before an address, unless all of
them begin after that. -/
theorem symbolizer_spec (hframes : ∀ c ∈ classtable, g.depth c < frames) :
    (symbolizerInit g m ndebug qsort frames classtable = none ↔
      ndebug = false ∧ ¬ (addresses (methodsOfClasses g classtable)).Nodup) ∧
      ∀ array, symbolizerInit g m ndebug qsort frames classtable = some array →
        array.values.Perm (methodsOfClasses g classtable) ∧ Sorted Mmc.imp array.values ∧
        ((methodsOfClasses g classtable).length ≤ 2 ^ 30 → ∀ address, ∃ found, array.findNearestimp address = .ok found ∧
          (found = none ↔ ∀ p ∈ methodsOfClasses g classtable, address < p.imp) ∧
          ∀ p, found = some p → p ∈ methodsOfClasses g classtable ∧ p.imp ≤ address ∧
            ∀ q ∈ methodsOfClasses g classtable, q.imp ≤ address → q.imp ≤ p.imp) := by
  obtain ⟨hnone, hvalues⟩ := symbolizerInit_values m ndebug qsort hframes
  refine ⟨hnone, fun array harray => ?_⟩
  obtain ⟨hperm, hsorted⟩ := hvalues array harray
  refine ⟨hperm, hsorted, fun hlen address => ?_⟩
  rw [← hperm.length_eq] at hlen
  have hfound := nearest_spec (k := address) hsorted hlen
  simp only [hperm.mem_iff] at hfound
  exact hfound

/-- The sort by insertion -/
def insertionQuicksort (α : Type) : Quicksort α := ⟨insertionSort, insertionSort_perm, insertionSort_sorted⟩

theorem symbolizer_spec_twoClasses :
    (symbolizerInit twoClasses twoClassesMembers false (insertionQuicksort (Mmc ℕ)) 2 [0, 1] = none ↔
      false = false ∧ ¬ (addresses (methodsOfClasses twoClasses [0, 1])).Nodup) ∧
      ∀ array, symbolizerInit twoClasses twoClassesMembers false (insertionQuicksort (Mmc ℕ)) 2 [0, 1] = some array →
        array.values.Perm (methodsOfClasses twoClasses [0, 1]) ∧ Sorted Mmc.imp array.values ∧
        ((methodsOfClasses twoClasses [0, 1]).length ≤ 2 ^ 30 → ∀ address,
          ∃ found, array.findNearestimp address = .ok found ∧
            (found = none ↔ ∀ p ∈ methodsOfClasses twoClasses [0, 1], address < p.imp) ∧
            ∀ p, found = some p → p ∈ methodsOfClasses twoClasses [0, 1] ∧ p.imp ≤ address ∧
              ∀ q ∈ methodsOfClasses twoClasses [0, 1], q.imp ≤ address → q.imp ≤ p.imp) :=
  symbolizer_spec (by decide)

/-- Of the methods at 4096, 8192 and 12288, the address 9000 is in the second one. -/
example : ((symbolizerInit twoClasses twoClassesMembers false (insertionQuicksort (Mmc ℕ)) 2 [0, 1]).bind fun array =>
    (array.findNearestimp 9000).toOption).map (Option.map Mmc.imp) = some (some 8192) := by
  decide +kernel

end MulleObjcRuntime.Reflect
