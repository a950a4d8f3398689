import Mathlib.Data.Finset.Card
import MulleObjcRuntime.Lib.Fallible
import MulleObjcRuntime.Lib.Runs
import MulleObjcRuntime.Uniqueids.Defs

/-!
# What the unique id arrays hold

* `Ascending` — ids in order and without duplicates, as a property of what is added to and of what is added;
* `addUniqueidarrayIds_ids` — an addition merges the ids into one array and leaves the other one as it is;
* `ascending_newProtocolids`, `nodup_newProtocolids` — of a list, the protocols the class pair does not have are added;
* `Addition`, `addition` — categories and lists of protocols that a class pair gets;
* `HoldIds` — the arrays hold what was added, in order, and the binary search tells what they hold;
* `holdIds_iff` — they do as long as the `int`s of the search suffice for the ids that were added.
-/

namespace MulleObjcRuntime.Uniqueids

open Lib.BinarySearch Lib.Fallible Lib.IntBisection Lib.Runs

/-! ## Ids in order -/

/-- In order and without duplicates. -/
def Ascending (ids : List ℕ) : Prop := ids.Pairwise (· < ·)

lemma Ascending.sorted {ids : List ℕ} (h : Ascending ids) : Sorted id ids := List.Pairwise.imp le_of_lt h

lemma Ascending.nodup {ids : List ℕ} (h : Ascending ids) : ids.Nodup := List.Pairwise.imp ne_of_lt h

lemma intSearch_eq {buf : Uniqueidarray} (h : Ascending buf.entries) (hlength : buf.entries.length ≤ 2 ^ 30)
    (uniqueid : ℕ) : buf.intSearch uniqueid = .ok (decide (uniqueid ∈ buf.entries)) := by
  rw [Uniqueidarray.intSearch, bisect_eq_bsearch hlength]
  have hfound : (bsearch id uniqueid buf.entries).isSome = decide (uniqueid ∈ buf.entries) := by
    rw [Bool.eq_iff_iff, decide_eq_true_eq, ← not_iff_not, Bool.not_eq_true, Option.isSome_eq_false_iff,
      Option.isNone_iff_eq_none, bsearch_eq_none_iff h.sorted]
    constructor
    · intro hne hmem
      exact hne uniqueid hmem rfl
    · rintro hmem p hp rfl
      exact hmem hp
  rw [← hfound]
  rfl

lemma intSearch_last {buf : Uniqueidarray} (h : Ascending buf.entries) (hlarge : 2 ^ 30 < buf.entries.length) {uniqueid : ℕ}
    (hlast : buf.entries.getLast? = some uniqueid) : buf.intSearch uniqueid ≠ .ok true := by
  have hlt : buf.entries.length - 1 < buf.entries.length := by omega
  have hget : buf.entries[buf.entries.length - 1] = uniqueid := by
    rw [List.getLast?_eq_getElem?, List.getElem?_eq_getElem hlt] at hlast
    exact Option.some.inj hlast
  have hbelow : ∀ i, (hi : i < buf.entries.length) → i < buf.entries.length - 1 → id buf.entries[i] < uniqueid :=
    fun i hi hi' => hget ▸ List.pairwise_iff_getElem.1 h i _ hi hlt hi'
  intro hsearch
  rw [Uniqueidarray.intSearch, map_eq_ok] at hsearch
  obtain ⟨r, hr, hsome⟩ := hsearch
  obtain ⟨p, rfl⟩ := Option.isSome_iff_exists.1 hsome
  exact bisect_last hlarge hbelow p hr

lemma length_le_of_intSearch {buf : Uniqueidarray} (h : Ascending buf.entries)
    (hfound : ∀ uniqueid ∈ buf.entries, buf.intSearch uniqueid = .ok true) : buf.entries.length ≤ 2 ^ 30 := by
  by_contra hlarge
  have hne : buf.entries ≠ [] := List.ne_nil_of_length_pos (by omega)
  exact intSearch_last h (by omega) (List.getLast?_eq_getLast_of_ne_nil hne) (hfound _ (List.getLast_mem hne))

lemma mem_byAddingIds {a : Uniqueidarray} {uniqueids : List ℕ} {uniqueid : ℕ} :
    uniqueid ∈ (a.byAddingIds uniqueids true).entries ↔ uniqueid ∈ a.entries ∨ uniqueid ∈ uniqueids := by
  show uniqueid ∈ (a.entries ++ uniqueids).insertionSort (· ≤ ·) ↔ _
  rw [List.mem_insertionSort, List.mem_append]

lemma ascending_byAddingIds {a : Uniqueidarray} {uniqueids : List ℕ} (ha : Ascending a.entries)
    (hids : uniqueids.Nodup) (hapart : ∀ uniqueid ∈ uniqueids, uniqueid ∉ a.entries) :
    Ascending (a.byAddingIds uniqueids true).entries := by
  show ((a.entries ++ uniqueids).insertionSort (· ≤ ·)).Pairwise (· < ·)
  have hnodup : (a.entries ++ uniqueids).Nodup :=
    ha.nodup.append hids fun uniqueid hmem hnew => hapart uniqueid hnew hmem
  have hsorted := List.pairwise_insertionSort (· ≤ ·) (a.entries ++ uniqueids)
  have hne := (List.perm_insertionSort (· ≤ ·) (a.entries ++ uniqueids)).nodup_iff.2 hnodup
  exact hsorted.imp₂ (fun _ _ hle hne => lt_of_le_of_ne hle hne) hne

/-! ## The additions -/

section Add

variable {s s' : Pair} {p q : Pointer} {uniqueids : List ℕ}

/-- What is installed was allocated. -/
def Bounded (s : Pair) : Prop := ∀ p, s.pointer p ≤ s.allocated

lemma failedAttempts_frame (p : Pointer) (uniqueids : List ℕ) (sort : Bool) (failures : ℕ) (s : Pair) :
    (failedAttempts p uniqueids sort failures s).pointer = s.pointer ∧
      s.allocated ≤ (failedAttempts p uniqueids sort failures s).allocated ∧
      ∀ a ≤ s.allocated, (failedAttempts p uniqueids sort failures s).array a = s.array a := by
  refine failedAttempts_keeps (P := fun t => t.pointer = s.pointer ∧ s.allocated ≤ t.allocated ∧
    ∀ a ≤ s.allocated, t.array a = s.array a) ?_ p uniqueids sort failures ⟨rfl, le_refl _, fun a _ => rfl⟩
  rintro t b ⟨hpointer, hle, harray⟩
  refine ⟨hpointer, Nat.le_succ_of_le hle, fun a ha => ?_⟩
  have hne : a ≠ t.allocated + 1 := by omega
  exact (Function.update_of_ne hne ..).trans (harray a ha)

/-- **One array gets the ids, and the other one stays as it is.** -/
lemma addUniqueidarrayIds_ids (h : Bounded s) (p q : Pointer) (uniqueids : List ℕ) (failures : ℕ) :
    (addUniqueidarrayIds p uniqueids true failures s).array ((addUniqueidarrayIds p uniqueids true failures s).pointer q) =
      if q = p then (s.array (s.pointer p)).byAddingIds uniqueids true else s.array (s.pointer q) := by
  obtain ⟨hpointer, hle, harray⟩ := failedAttempts_frame p uniqueids true failures s
  unfold addUniqueidarrayIds
  simp only [Pair.freeUnlessEmpty_pointer, Pair.freeUnlessEmpty_array]
  by_cases hq : q = p
  · rw [if_pos hq, hq, Pair.install_pointer_self, hpointer, harray _ (h p)]
    exact Function.update_self ..
  · rw [if_neg hq, Pair.install_pointer_of_ne _ hq]
    show Function.update _ _ _ ((failedAttempts p uniqueids true failures s).pointer q) = _
    have hq' := h q
    rw [hpointer, Function.update_of_ne (by omega), harray _ hq']

lemma Bounded.addUniqueidarrayIds (h : Bounded s) (p : Pointer) (uniqueids : List ℕ) (failures : ℕ) :
    Bounded (addUniqueidarrayIds p uniqueids true failures s) := by
  obtain ⟨hpointer, hle, -⟩ := failedAttempts_frame p uniqueids true failures s
  intro q
  unfold Uniqueids.addUniqueidarrayIds
  simp only [Pair.freeUnlessEmpty_pointer, Pair.freeUnlessEmpty_allocated]
  show _ ≤ (failedAttempts p uniqueids true failures s).allocated + 1
  by_cases hq : q = p
  · rw [hq, Pair.install_pointer_self]
    exact le_refl _
  · rw [Pair.install_pointer_of_ne _ hq]
    show (failedAttempts p uniqueids true failures s).pointer q ≤ _
    have hq' := h q
    rw [hpointer]
    omega

end Add

/-! ## The protocols of a list -/

section Protocols

variable {ndebug : Bool} {hasProtocolid : ℕ → Except Fault Bool} {table : ℕ → Option (List Char)} {before : ℕ} {protocols : List Protocol}
  {r : List ℕ × (ℕ → Option (List Char))}

/-- Of the protocols of a list, those are added that are not found in the array. -/
lemma newProtocolids_fst (h : newProtocolids ndebug hasProtocolid table before protocols = some r) :
    r.1 = (protocols.map Protocol.protocolid).filter fun protocolid => hasProtocolid protocolid = .ok false := by
  induction protocols generalizing table before r with
  | nil =>
    cases h
    rfl
  | cons p protocols ih =>
    unfold newProtocolids at h
    split at h
    case isFalse => cases h
    rw [List.map_cons]
    split at h
    case h_1 => cases h
    case h_2 hhas =>
      rw [List.filter_cons_of_neg (by simp [hhas])]
      exact ih h
    case h_3 hhas =>
      rw [List.filter_cons_of_pos (by simp [hhas])]
      split at h
      case h_1 => cases h
      split at h
      case isFalse => cases h
      obtain ⟨r', hr', rfl⟩ := Option.map_eq_some_iff.1 h
      rw [← ih hr']

/-- In a debug build the ids are in order, from the last one on. -/
lemma ascending_newProtocolids (h : newProtocolids false hasProtocolid table before protocols = some r) :
    Ascending (before :: r.1) := by
  induction protocols generalizing table before r with
  | nil =>
    cases h
    exact List.pairwise_singleton ..
  | cons p protocols ih =>
    unfold newProtocolids at h
    split at h
    case isFalse => cases h
    split at h
    case h_1 => cases h
    case h_2 => exact ih h
    split at h
    case h_1 => cases h
    split at h
    case isFalse => cases h
    case isTrue hlt =>
      obtain ⟨r', hr', rfl⟩ := Option.map_eq_some_iff.1 h
      have hrest := ih hr'
      have hlt : before < p.protocolid := by simpa using hlt
      refine List.pairwise_cons.2 ⟨fun protocolid hmem => ?_, hrest⟩
      rcases List.mem_cons.1 hmem with rfl | hmem
      · exact hlt
      · exact hlt.trans (List.rel_of_pairwise_cons hrest hmem)

lemma nodup_newProtocolids (hlist : ndebug = true → Ascending (protocols.map Protocol.protocolid))
    (h : newProtocolids ndebug hasProtocolid table before protocols = some r) : r.1.Nodup := by
  cases ndebug with
  | true =>
    rw [newProtocolids_fst h]
    exact (List.Pairwise.imp ne_of_lt (hlist rfl)).filter _
  | false =>
    have hasc : Ascending r.1 := (List.pairwise_cons.1 (ascending_newProtocolids h)).2
    exact List.Pairwise.imp ne_of_lt hasc

end Protocols

/-! ## Categories and protocols of a class pair -/

/-- What a class pair gets. -/
inductive Addition
  | category (categoryid failures : ℕ)
  | protocollist (protocols : List Protocol) (failures : ℕ)
deriving DecidableEq, Repr

/-- One addition, `none` where the runtime fails. -/
def addition (ndebug : Bool) (s : Pair) : Addition → Option Pair
  | .category categoryid failures => addCategoryidNofail categoryid failures s
  | .protocollist protocols failures => addProtocollistNofail ndebug protocols failures s

/-- The ids that an addition brings for an array. -/
def Addition.ids (p : Pointer) : Addition → List ℕ
  | .category categoryid _ => if p = .categoryids then [categoryid] else []
  | .protocollist protocols _ => if p = .protocolids then protocols.map Protocol.protocolid else []

/-- The ids of the protocols are in order, as the compiler emits them. -/
def Addition.InOrder : Addition → Prop
  | .category _ _ => True
  | .protocollist protocols _ => Ascending (protocols.map Protocol.protocolid)

instance : DecidablePred Addition.InOrder
  | .category _ _ => inferInstanceAs (Decidable True)
  | .protocollist protocols _ => inferInstanceAs (Decidable ((protocols.map Protocol.protocolid).Pairwise (· < ·)))

/-- The arrays are in order and without duplicates. -/
structure Ordered (s : Pair) : Prop where
  bounded : Bounded s
  ascending : ∀ p, Ascending (s.ids p)

section Additions

variable {ndebug : Bool} {s s' : Pair} {a : Addition}

lemma ordered_plusinit : Ordered Pair.plusinit := ⟨fun _ => le_refl _, fun _ => List.Pairwise.nil⟩

lemma Ordered.has_eq (h : Ordered s) (hlength : ∀ p, (s.ids p).length ≤ 2 ^ 30) (uniqueid : ℕ) :
    s.hasCategoryid uniqueid = .ok (decide (uniqueid ∈ s.ids .categoryids)) ∧
      s.hasProtocolid uniqueid = .ok (decide (uniqueid ∈ s.ids .protocolids)) :=
  ⟨intSearch_eq (h.ascending .categoryids) (hlength .categoryids) uniqueid,
    intSearch_eq (h.ascending .protocolids) (hlength .protocolids) uniqueid⟩

lemma addUniqueidarrayIds_ids_self (h : Bounded s) (p : Pointer) (uniqueids : List ℕ) (failures : ℕ) :
    (addUniqueidarrayIds p uniqueids true failures s).ids p =
      ((s.array (s.pointer p)).byAddingIds uniqueids true).entries := by
  unfold Pair.ids
  rw [addUniqueidarrayIds_ids h, if_pos rfl]

lemma addUniqueidarrayIds_ids_of_ne (h : Bounded s) {p q : Pointer} (hq : q ≠ p) (uniqueids : List ℕ)
    (failures : ℕ) : (addUniqueidarrayIds p uniqueids true failures s).ids q = s.ids q := by
  unfold Pair.ids
  rw [addUniqueidarrayIds_ids h, if_neg hq]

lemma Ordered.add (h : Ordered s) {p : Pointer} {uniqueids : List ℕ} (hids : uniqueids.Nodup)
    (hapart : ∀ uniqueid ∈ uniqueids, uniqueid ∉ s.ids p) (failures : ℕ) :
    Ordered (addUniqueidarrayIds p uniqueids true failures s) := by
  refine ⟨h.bounded.addUniqueidarrayIds p uniqueids failures, fun q => ?_⟩
  by_cases hq : q = p
  · rw [hq, addUniqueidarrayIds_ids_self h.bounded]
    exact ascending_byAddingIds (h.ascending p) hids hapart
  · rw [addUniqueidarrayIds_ids_of_ne h.bounded hq]
    exact h.ascending q

/-- **The step lemma**: the arrays stay in order, and one of them gets what is added. -/
lemma Ordered.addition (h : Ordered s) (hlength : ∀ p, (s.ids p).length ≤ 2 ^ 30) (ha : ndebug = true → a.InOrder)
    (hstep : addition ndebug s a = some s') :
    Ordered s' ∧ ∀ p uniqueid, uniqueid ∈ s'.ids p ↔ uniqueid ∈ s.ids p ∨ uniqueid ∈ a.ids p := by
  cases a with
  | category categoryid failures =>
    unfold Uniqueids.addition addCategoryidNofail at hstep
    simp only at hstep
    rw [(h.has_eq hlength categoryid).1, Option.ite_none_right_eq_some] at hstep
    obtain ⟨-, hstep⟩ := hstep
    split at hstep
    case h_2 => cases hstep
    rename_i hhas
    obtain rfl := Option.some.inj hstep
    have hhas : categoryid ∉ s.ids .categoryids := of_decide_eq_false (Except.ok.inj hhas)
    refine ⟨h.add (List.nodup_singleton _) (by simpa using hhas) failures, fun p uniqueid => ?_⟩
    cases p with
    | protocolids =>
      rw [addUniqueidarrayIds_ids_of_ne h.bounded (by decide)]
      simp [Addition.ids]
    | categoryids =>
      rw [addUniqueidarrayIds_ids_self h.bounded, mem_byAddingIds]
      rfl
  | protocollist protocols failures =>
    unfold Uniqueids.addition addProtocollistNofail at hstep
    simp only at hstep
    split at hstep
    case isTrue hnil =>
      cases hstep
      subst hnil
      exact ⟨h, fun p uniqueid => by cases p <;> simp [Addition.ids]⟩
    case isFalse =>
      obtain ⟨r, hr, rfl⟩ := Option.map_eq_some_iff.1 hstep
      have hnew := newProtocolids_fst hr
      -- the table of the protocols is none of the arrays
      have htable : Ordered { s with protocoltable := r.2 } := ⟨h.bounded, h.ascending⟩
      have hmem (uniqueid : ℕ) : uniqueid ∈ r.1 ↔
          uniqueid ∈ protocols.map Protocol.protocolid ∧ uniqueid ∉ s.ids .protocolids := by
        rw [hnew, List.mem_filter, (h.has_eq hlength uniqueid).2]
        simp
      refine ⟨htable.add (nodup_newProtocolids ha hr) (fun uniqueid hid => ((hmem uniqueid).1 hid).2) failures,
        fun p uniqueid => ?_⟩
      cases p with
      | protocolids =>
        rw [addUniqueidarrayIds_ids_self htable.bounded, mem_byAddingIds]
        show uniqueid ∈ s.ids .protocolids ∨ uniqueid ∈ r.1 ↔ _
        rw [hmem]
        simp only [Addition.ids, if_true]
        tauto
      | categoryids =>
        rw [addUniqueidarrayIds_ids_of_ne htable.bounded (by decide)]
        show uniqueid ∈ s.ids .categoryids ↔ _
        simp [Addition.ids]

/-- The ids are not more than the search has `int`s for. -/
def Few (ids : List ℕ) : Prop := ids.toFinset.card ≤ 2 ^ 30

instance : DecidablePred Few := fun ids => inferInstanceAs (Decidable (ids.toFinset.card ≤ 2 ^ 30))

lemma Few.of_subset {ids ids' : List ℕ} (h : Few ids') (hsub : ids ⊆ ids') : Few ids :=
  (Finset.card_le_card fun _ hmem => List.mem_toFinset.2 (hsub (List.mem_toFinset.1 hmem))).trans h

lemma Ascending.few_iff {ids : List ℕ} (h : Ascending ids) : Few ids ↔ ids.length ≤ 2 ^ 30 := by
  rw [Few, List.toFinset_card_of_nodup h.nodup]

lemma Ordered.run {additions : List Addition} (h : Ordered s) (hlists : ndebug = true → ∀ a ∈ additions, a.InOrder)
    (hfew : ∀ p, Few (s.ids p ++ additions.flatMap (Addition.ids p)))
    (hrun : Lib.Runs.run (Uniqueids.addition ndebug) s additions = some s') :
    Ordered s' ∧ ∀ p uniqueid, uniqueid ∈ s'.ids p ↔ uniqueid ∈ s.ids p ∨ uniqueid ∈ additions.flatMap (Addition.ids p) := by
  induction additions generalizing s with
  | nil =>
    cases hrun
    exact ⟨h, fun p uniqueid => by simp⟩
  | cons a additions ih =>
    obtain ⟨t, ht, hrest⟩ := run_cons_eq_some.1 hrun
    have hlength : ∀ p, (s.ids p).length ≤ 2 ^ 30 := fun p =>
      (h.ascending p).few_iff.1 ((hfew p).of_subset (List.subset_append_left _ _))
    obtain ⟨hordered, hids⟩ := h.addition hlength (fun hdebug => hlists hdebug a List.mem_cons_self) ht
    have hfew' : ∀ p, Few (t.ids p ++ additions.flatMap (Addition.ids p)) := by
      refine fun p => (hfew p).of_subset fun uniqueid hmem => ?_
      rw [List.mem_append, hids] at hmem
      simpa only [List.flatMap_cons, List.mem_append, or_assoc] using hmem
    obtain ⟨hordered', hids'⟩ := ih hordered (fun hdebug b hb => hlists hdebug b (List.mem_cons_of_mem a hb)) hfew' hrest
    refine ⟨hordered', fun p uniqueid => ?_⟩
    rw [hids', hids, List.flatMap_cons, List.mem_append, or_assoc]

/-- The arrays of a class pair hold exactly what was added, in order and without duplicates, and the binary search answers
for every id. -/
structure HoldIds (additions : List Addition) (s : Pair) : Prop where
  ascending : ∀ p, Ascending (s.ids p)
  exact : ∀ p uniqueid, uniqueid ∈ s.ids p ↔ uniqueid ∈ additions.flatMap (Addition.ids p)
  categoryids : ∀ categoryid,
    s.hasCategoryid categoryid = .ok (decide (categoryid ∈ additions.flatMap (Addition.ids .categoryids)))
  protocolids : ∀ protocolid,
    s.hasProtocolid protocolid = .ok (decide (protocolid ∈ additions.flatMap (Addition.ids .protocolids)))

lemma HoldIds.found {additions : List Addition} (h : HoldIds additions s) (p : Pointer) :
    ∀ uniqueid ∈ s.ids p, (s.array (s.pointer p)).intSearch uniqueid = .ok true := by
  intro uniqueid hmem
  have hadded := decide_eq_true ((h.exact p uniqueid).1 hmem)
  cases p with
  | protocolids => exact hadded ▸ h.protocolids uniqueid
  | categoryids => exact hadded ▸ h.categoryids uniqueid

lemma HoldIds.few {additions : List Addition} (h : HoldIds additions s) (p : Pointer) :
    Few (additions.flatMap (Addition.ids p)) :=
  ((h.ascending p).few_iff.2 (length_le_of_intSearch (h.ascending p) (h.found p))).of_subset
    fun uniqueid hmem => (h.exact p uniqueid).2 hmem

/-- **The arrays hold what was added, as long as that is not more than `2 ^ 30` ids**, and with more of them they do not. -/
theorem holdIds_iff {ndebug : Bool} {additions : List Addition} {s : Pair}
    (hlists : ndebug = true → ∀ a ∈ additions, a.InOrder)
    (hrun : Lib.Runs.run (Uniqueids.addition ndebug) Pair.plusinit additions = some s) :
    HoldIds additions s ↔ ∀ p, Few (additions.flatMap (Addition.ids p)) := by
  refine ⟨fun h p => h.few p, fun hfew => ?_⟩
  obtain ⟨hordered, hids⟩ := ordered_plusinit.run hlists hfew hrun
  have hexact (p : Pointer) (uniqueid : ℕ) :
      uniqueid ∈ s.ids p ↔ uniqueid ∈ additions.flatMap (Addition.ids p) := by
    rw [hids]
    exact or_iff_right List.not_mem_nil
  have hlength : ∀ p, (s.ids p).length ≤ 2 ^ 30 := fun p =>
    (hordered.ascending p).few_iff.1 ((hfew p).of_subset fun uniqueid => (hexact p uniqueid).1)
  refine ⟨hordered.ascending, hexact, fun categoryid => ?_, fun protocolid => ?_⟩
  · rw [(hordered.has_eq hlength categoryid).1, Except.ok.injEq, decide_eq_decide]
    exact hexact .categoryids categoryid
  · rw [(hordered.has_eq hlength protocolid).2, Except.ok.injEq, decide_eq_decide]
    exact hexact .protocolids protocolid

/-- The protocols `B` and `D`, a category, and a list in which `B` comes again with `A` and `C`. -/
def sampleAdditions : List Addition :=
  [.protocollist [⟨20, ['B']⟩, ⟨40, ['D']⟩] 0, .category 7 1, .protocollist [⟨10, ['A']⟩, ⟨20, ['B']⟩, ⟨30, ['C']⟩] 2]

/-- A release build has the four protocols and the category, and no other ids. -/
theorem holdIds_sampleAdditions :
    ∃ s, Lib.Runs.run (Uniqueids.addition true) Pair.plusinit sampleAdditions = some s ∧ HoldIds sampleAdditions s := by
  have hsome : (Lib.Runs.run (Uniqueids.addition true) Pair.plusinit sampleAdditions).isSome = true := by decide +kernel
  obtain ⟨s, hrun⟩ := Option.isSome_iff_exists.1 hsome
  refine ⟨s, hrun, (holdIds_iff (fun _ => by decide) hrun).2 fun p => ?_⟩
  cases p <;> decide +kernel

/-- The protocols with the ids from 1 to `n`. -/
def counting (n : ℕ) : List Protocol := (List.range' 1 n).map fun i => ⟨i, ['P']⟩

lemma protocolid_counting (n : ℕ) : (counting n).map Protocol.protocolid = List.range' 1 n := by
  rw [counting, List.map_map]
  exact List.map_id _

/-- New protocols in order can be added. -/
lemma newProtocolids_new {hasProtocolid : ℕ → Except Fault Bool} {table : ℕ → Option (List Char)} {before : ℕ}
    {protocols : List Protocol} (hhas : ∀ p ∈ protocols, hasProtocolid p.protocolid = .ok false)
    (hsane : ∀ p ∈ protocols, p.isSane = true) (hasc : Ascending (before :: protocols.map Protocol.protocolid))
    (htable : ∀ p ∈ protocols, table p.protocolid = none) :
    ∃ table', newProtocolids ndebug hasProtocolid table before protocols =
      some (protocols.map Protocol.protocolid, table') := by
  induction protocols generalizing table before with
  | nil => exact ⟨table, rfl⟩
  | cons p protocols ih =>
    obtain ⟨hhas, hrest⟩ := List.forall_mem_cons.1 hhas
    obtain ⟨hsane, hsanes⟩ := List.forall_mem_cons.1 hsane
    obtain ⟨hfree, htable⟩ := List.forall_mem_cons.1 htable
    obtain ⟨hbefore, hasc⟩ := List.pairwise_cons.1 hasc
    have hlt : before < p.protocolid := hbefore _ List.mem_cons_self
    have hstill : ∀ q ∈ protocols, Function.update table p.protocolid (some p.name) q.protocolid = none := by
      intro q hq
      have hbelow := List.rel_of_pairwise_cons hasc (List.mem_map_of_mem hq)
      rw [Function.update_of_ne (ne_of_gt hbelow), htable q hq]
    obtain ⟨table', htable'⟩ := ih hrest hsanes hasc hstill
    refine ⟨table', ?_⟩
    simp only [newProtocolids, hsane, hhas, registerProtocolNofail, hfree, hlt, htable', if_true, decide_true,
      Bool.or_true, Option.map_some, List.map_cons]

/-- A class pair gets a list with the protocols from 1 to `n`. -/
lemma ids_counting {n : ℕ} (hn : n < 2 ^ 32 - 1) :
    ∃ s, Lib.Runs.run (Uniqueids.addition false) Pair.plusinit [.protocollist (counting n) 0] = some s ∧
      s.ids .protocolids = List.range' 1 n := by
  have hasc : Ascending (List.range' 1 n) := List.pairwise_lt_range'
  have hpositive : Ascending (0 :: (counting n).map Protocol.protocolid) := by
    rw [protocolid_counting]
    refine List.pairwise_cons.2 ⟨fun i hi => ?_, hasc⟩
    have := (List.mem_range'_1.1 hi).1
    omega
  have hsane : ∀ p ∈ counting n, p.isSane = true := by
    intro p hp
    obtain ⟨i, hi, rfl⟩ := List.mem_map.1 hp
    have hbounds := List.mem_range'_1.1 hi
    simp only [Protocol.isSane, isSane, Bool.and_eq_true, bne_iff_ne, List.isEmpty_cons, Bool.not_false, and_true]
    omega
  have hhas : ∀ p ∈ counting n, Pair.plusinit.hasProtocolid p.protocolid = .ok false :=
    fun p _ => (ordered_plusinit.has_eq (fun _ => Nat.zero_le _) p.protocolid).2
  obtain ⟨table, htable⟩ : ∃ table, newProtocolids false Pair.plusinit.hasProtocolid Pair.plusinit.protocoltable 0
      (counting n) = some ((counting n).map Protocol.protocolid, table) :=
    newProtocolids_new hhas hsane hpositive fun _ _ => rfl
  by_cases hne : counting n = []
  · refine ⟨Pair.plusinit, ?_, ?_⟩
    · rw [hne]
      rfl
    · rw [← protocolid_counting, hne]
      rfl
  · refine ⟨addUniqueidarrayIds .protocolids ((counting n).map Protocol.protocolid) true 0
      { Pair.plusinit with protocoltable := table }, ?_, ?_⟩
    · simp only [Lib.Runs.run, Uniqueids.addition, addProtocollistNofail, if_neg hne, htable, Option.map_some,
        Option.bind_some]
    · rw [addUniqueidarrayIds_ids_self fun _ => le_refl _, protocolid_counting]
      exact (hasc.imp le_of_lt).insertionSort_eq

lemma getLast_range' (n : ℕ) : (List.range' 1 (n + 1)).getLast? = some (n + 1) := by
  rw [List.range'_concat, List.getLast?_concat, Nat.one_mul, Nat.add_comm]

/-- A list with one protocol more than `2 ^ 30`: the class pair gets them all, but the last one is not found. -/
theorem not_holdIds_counting :
    ∃ s, Lib.Runs.run (Uniqueids.addition false) Pair.plusinit [.protocollist (counting (2 ^ 30 + 1)) 0] = some s ∧
      s.ids .protocolids = List.range' 1 (2 ^ 30 + 1) ∧ s.hasProtocolid (2 ^ 30 + 1) ≠ .ok true ∧
      ¬ HoldIds [.protocollist (counting (2 ^ 30 + 1)) 0] s := by
  obtain ⟨s, hrun, hids⟩ := ids_counting (by omega : 2 ^ 30 + 1 < 2 ^ 32 - 1)
  have hlast := getLast_range' (2 ^ 30)
  have hlength : (List.range' 1 (2 ^ 30 + 1)).length = 2 ^ 30 + 1 := List.length_range'
  have hasc : Ascending (List.range' 1 (2 ^ 30 + 1)) := List.pairwise_lt_range'
  rw [← hids] at hlast hlength hasc
  have hmissed : s.hasProtocolid (2 ^ 30 + 1) ≠ .ok true := intSearch_last hasc (by unfold Pair.ids at hlength; omega) hlast
  refine ⟨s, hrun, hids, hmissed, fun h => hmissed ?_⟩
  exact h.found .protocolids _ (List.mem_of_getLast? hlast)

end Additions

end MulleObjcRuntime.Uniqueids
