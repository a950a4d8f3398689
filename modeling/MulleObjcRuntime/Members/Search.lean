import Mathlib.Data.List.Sort
import MulleObjcRuntime.Lib.Fallible
import MulleObjcRuntime.Lib.IntBisection
import MulleObjcRuntime.Members.Walks

/-!
# The searches for ivars and properties

A class and its superclasses are searched for an ivar or a property.  Short lists are scanned, long ones are bisected, which
the loader has sorted them for.

* `Ivarlist.searchSmart`, `Propertylist.searchSmart` — the searches in one list, with the `int`s that they have;
* `searchIvar`, `searchProperty` — the searches in a class and its superclasses;
* `ClassMembers.sort` — the lists as the loader leaves them;
* `search_eq_walk` — the searches find what a walk comes upon first.
-/

namespace MulleObjcRuntime.Members

open Classes Hashmap Lib.BinarySearch Lib.Fallible Lib.IntBisection Lib.Walking Properties

variable {P α β : Type}

/-! ## In a list -/

/-- `_mulle_objc_ivar_bsearch`; the middle is computed ahead of the next round. -/
def ivarBsearch (buf : List Ivar) (search : ℕ) : Except Fault (Option Ivar) := bisect Ivar.ivarid search true buf

/-- `_mulle_objc_property_bsearch`; the middle is computed in the loop. -/
def propertyBsearch (buf : List Property) (search : ℕ) : Except Fault (Option Property) :=
  bisect Property.propertyid search false buf

/-- The smart search: `bisection` from 14 elements on, a scan for fewer. -/
def searchSmart (key : α → ℕ) (bisection : List α → ℕ → Except Fault (Option α)) (list : List α) (k : ℕ) :
    Except Fault (Option α) :=
  if list.length ≥ 14 then bisection list k else .ok (list.find? fun p => key p == k)

/-- `_mulle_objc_ivarlist_search_smart` -/
def Ivarlist.searchSmart (list : Ivarlist) (ivarid : ℕ) : Except Fault (Option Ivar) :=
  Members.searchSmart Ivar.ivarid ivarBsearch list.ivars ivarid

/-- `_mulle_objc_propertylist_search_smart` -/
def propertylistSearchSmart (list : Propertylist) (propertyid : ℕ) : Except Fault (Option Property) :=
  Members.searchSmart Property.propertyid propertyBsearch list.properties propertyid

/-- `mulle_objc_ivarlist_sort` -/
def Ivarlist.sort (list : Ivarlist) : Ivarlist := ⟨list.ivars.insertionSort fun a b => a.ivarid ≤ b.ivarid⟩

/-- `mulle_objc_propertylist_sort` -/
def propertylistSort (list : Propertylist) : Propertylist :=
  ⟨list.properties.insertionSort fun a b => a.propertyid ≤ b.propertyid⟩

/-! ## In a class and its superclasses -/

/-- The loop over the lists of a class. -/
def searchLists (search : β → Except Fault (Option α)) : List β → Except Fault (Option α)
  | [] => .ok none
  | list :: lists =>
    search list >>= fun
      | some a => .ok (some a)
      | none => searchLists search lists

section Search

variable (g : ClassGraph P) (m : ClassMembers P)

/-- A class, and its superclasses if nothing is found in it.  `frames` bounds the nesting of the calls. -/
def searchSuperclasses (own : P → Except Fault (Option α)) : ℕ → P → Option (Except Fault (Option α))
  | 0, _ => none
  | frames + 1, infra =>
    match own infra with
    | .error e => some (.error e)
    | .ok (some a) => some (.ok (some a))
    | .ok none =>
      match (g.pair infra).superclass with
      | none => some (.ok none)
      | some superclass => searchSuperclasses own frames superclass

/-- `_mulle_objc_infraclass_search_ivar` -/
def searchIvar (ivarid : ℕ) : ℕ → P → Option (Except Fault (Option Ivar)) :=
  searchSuperclasses g fun infra => searchLists (·.searchSmart ivarid) (m.ivarlists infra).reverse

/-- `_mulle_objc_infraclass_search_property` -/
def searchProperty (propertyid : ℕ) : ℕ → P → Option (Except Fault (Option Property)) :=
  searchSuperclasses g fun infra =>
    searchLists (propertylistSearchSmart · propertyid) (m.propertylists infra).reverse

end Search

/-- The lists are sorted before they are added. -/
def ClassMembers.sort (m : ClassMembers P) : ClassMembers P :=
  { m with
    ivarlists := fun infra => (m.ivarlists infra).map Ivarlist.sort
    propertylists := fun infra => (m.propertylists infra).map propertylistSort }

/-! ## What is found in a list -/

/-- A list that bisection is right for: in order, without duplicates, and with `int`s enough. -/
structure Searchable (key : α → ℕ) (list : List α) : Prop where
  sorted : Sorted key list
  distinct : (list.map key).Nodup
  length_le : list.length ≤ 2 ^ 30

variable {key : α → ℕ} {list : List α} {k : ℕ}

lemma find?_eq_of_mem (hdistinct : (list.map key).Nodup) {p : α} (hp : p ∈ list) (hkey : key p = k) :
    (list.find? fun p => key p == k) = some p := by
  cases hfind : list.find? fun p => key p == k with
  | none =>
    have hnone := List.find?_eq_none.mp hfind p hp
    simp [hkey] at hnone
  | some q =>
    have hq : key q = k := by simpa using List.find?_some hfind
    rw [List.inj_on_of_nodup_map hdistinct (List.mem_of_find?_eq_some hfind) hp (hq.trans hkey.symm)]

/-- **Bisection finds what the scan finds.** -/
lemma Searchable.bsearch_eq (h : Searchable key list) (k : ℕ) :
    bsearch key k list = list.find? fun p => key p == k := by
  cases hb : bsearch key k list with
  | none =>
    have hnone := (bsearch_eq_none_iff h.sorted).mp hb
    symm
    rw [List.find?_eq_none]
    intro p hp
    simpa using hnone p hp
  | some p =>
    obtain ⟨hp, hkey⟩ := bsearch_eq_some hb
    rw [find?_eq_of_mem h.distinct hp hkey]

lemma Searchable.searchSmart_eq (h : Searchable key list) (ahead : Bool) (k : ℕ) :
    searchSmart key (fun list k => bisect key k ahead list) list k = .ok (list.find? fun p => key p == k) := by
  unfold searchSmart
  split
  · show bisect key k ahead list = _
    rw [bisect_eq_bsearch h.length_le, h.bsearch_eq]
  · rfl

lemma searchable_insertionSort (hdistinct : (list.map key).Nodup) (hlength : list.length ≤ 2 ^ 30) :
    Searchable key (list.insertionSort fun a b => key a ≤ key b) where
  sorted := by
    have htotal : Std.Total fun a b : α => key a ≤ key b := ⟨fun a b => le_total (key a) (key b)⟩
    have htrans : IsTrans α fun a b : α => key a ≤ key b := ⟨fun _ _ _ => le_trans⟩
    exact List.pairwise_insertionSort _ list
  distinct := ((List.perm_insertionSort _ list).map key).nodup_iff.mpr hdistinct
  length_le := by rwa [List.length_insertionSort]

/-! ## What is found in all lists -/

lemma searchLists_eq {search : β → Except Fault (Option α)} {elements : β → List α} {p : α → Bool} {lists : List β}
    (h : ∀ list ∈ lists, search list = .ok ((elements list).find? p)) :
    searchLists search lists = .ok ((lists.flatMap elements).find? p) := by
  induction lists with
  | nil => rfl
  | cons list lists ih =>
    rw [searchLists, h list List.mem_cons_self, List.flatMap_cons, List.find?_append]
    cases (elements list).find? p with
    | none =>
      show searchLists search lists = _
      rw [ih fun list' hlist => h list' (List.mem_cons_of_mem _ hlist), Option.none_or]
    | some a => rfl

variable {g : ClassGraph P} {m : ClassMembers P} {frames : ℕ} {infra : P}

/-- The search comes upon the first match of what is handed out.  The induction is on the superclasses. -/
lemma searchSuperclasses_eq {own : P → Except Fault (Option α)} {elements : P → List α} {p : α → Bool}
    (h : ∀ c, own c = .ok ((elements c).find? p)) (hframes : g.depth infra < frames) :
    searchSuperclasses g own frames infra =
      some (.ok (((handedOut g elements 0 infra).find? fun a => p a.1).map Prod.fst)) := by
  induction frames generalizing infra with
  | zero => omega
  | succ frames ih =>
    rw [searchSuperclasses, h, handedOut_eq, List.find?_append, List.find?_map, has_zero]
    cases hfind : (elements infra).find? p with
    | some a =>
      have hfind : (elements infra).find? ((fun a : α × P => p a.1) ∘ fun a => (a, infra)) = some a := hfind
      rw [hfind]
      rfl
    | none =>
      have hfind : (elements infra).find? ((fun a : α × P => p a.1) ∘ fun a => (a, infra)) = none := hfind
      rw [hfind]
      cases hs : (g.pair infra).superclass with
      | none => rfl
      | some superclass =>
        have hdepth := g.depth_superclass infra superclass hs
        exact ih (by omega)

/-- The callback that looks for an id. -/
def finds (key : α → ℕ) (k : ℕ) (found : Option α) (a : α) (_ : P) : Option α × Walkcommand :=
  finder .ok .done (fun a => key a == k) found a

lemma walk_finds (key : α → ℕ) (k : ℕ) (handed : List (α × P)) :
    walk .ok (fun found a => finds key k found a.1 a.2) none handed =
      ((handed.find? fun a => key a.1 == k).map Prod.fst,
        if (handed.find? fun a => key a.1 == k).isSome then .done else .ok) := by
  have hdone : Walkcommand.done ≠ .ok := by decide
  have hwalk := walk_finder hdone (fun a => key a == k) (handed.map Prod.fst)
  rw [walk_map, List.find?_map, Option.isSome_map] at hwalk
  exact hwalk

/-- **The searches find what the walks come upon first**: in the list that was added last, then in the ones before, then in
the superclasses, whatever the flags of the classes are.  Ids occur once in a list. -/
theorem search_eq_walk
    (hivars : ∀ c, ∀ list ∈ m.ivarlists c, (list.ivars.map Ivar.ivarid).Nodup ∧ list.ivars.length ≤ 2 ^ 30)
    (hproperties : ∀ c, ∀ list ∈ m.propertylists c, (list.properties.map Property.propertyid).Nodup ∧
      list.properties.length ≤ 2 ^ 30)
    (hframes : g.depth infra < frames) (k : ℕ) :
    searchIvar g m.sort k frames infra =
        (walkIvars g m.sort 0 (finds Ivar.ivarid k) frames infra none).map (fun walked => .ok walked.state) ∧
      searchProperty g m.sort k frames infra =
        (walkProperties g m.sort 0 (finds Property.propertyid k) frames infra none).map fun walked =>
          .ok walked.state := by
  have henumerated : ∀ {β : Type} (lists : List β), enumerated 0 lists = lists.reverse := fun lists => by
    rw [enumerated, has_zero]
    rfl
  constructor
  · have hown : ∀ c, searchLists (·.searchSmart k) (m.sort.ivarlists c).reverse =
        .ok ((m.sort.ivars 0 c).find? fun p => p.ivarid == k) := by
      intro c
      rw [ClassMembers.ivars, henumerated]
      apply searchLists_eq
      intro list hlist
      obtain ⟨raw, hraw, rfl⟩ := List.mem_map.mp (List.mem_reverse.mp hlist)
      obtain ⟨hdistinct, hlength⟩ := hivars c raw hraw
      exact (searchable_insertionSort hdistinct hlength).searchSmart_eq true k
    rw [walkIvars_eq _ hframes, walk_finds, searchIvar, searchSuperclasses_eq hown hframes]
    rfl
  · have hown : ∀ c, searchLists (propertylistSearchSmart · k) (m.sort.propertylists c).reverse =
        .ok ((m.sort.properties 0 c).find? fun p => p.propertyid == k) := by
      intro c
      rw [ClassMembers.properties, henumerated]
      apply searchLists_eq
      intro list hlist
      obtain ⟨raw, hraw, rfl⟩ := List.mem_map.mp (List.mem_reverse.mp hlist)
      obtain ⟨hdistinct, hlength⟩ := hproperties c raw hraw
      exact (searchable_insertionSort hdistinct hlength).searchSmart_eq false k
    rw [walkProperties_eq _ hframes, walk_finds, searchProperty, searchSuperclasses_eq hown hframes]
    rfl

/-- Fifteen ivars out of order, and a category with one more. -/
def sampleMembers : ClassMembers ℕ where
  ivarlists _ := [⟨(List.range' 1 15).reverse.map fun i => ⟨i, [], [], i⟩⟩, ⟨[⟨3, ['x'], [], 99⟩]⟩]
  propertylists _ := []
  protocolids _ := []
  categoryids _ := []

theorem search_eq_walk_sample :
    searchIvar rootClass sampleMembers.sort 3 1 0 =
        (walkIvars rootClass sampleMembers.sort 0 (finds Ivar.ivarid 3) 1 0 none).map (fun walked => .ok walked.state) ∧
      searchProperty rootClass sampleMembers.sort 3 1 0 =
        (walkProperties rootClass sampleMembers.sort 0 (finds Property.propertyid 3) 1 0 none).map fun walked =>
          .ok walked.state :=
  search_eq_walk (fun _ => by simp only [sampleMembers]; decide) (fun _ => by simp [sampleMembers]) (by decide) 3

/-- The ivar of the category is found, and an ivar that is found by bisection. -/
example : searchIvar rootClass sampleMembers.sort 3 1 0 = some (.ok (some ⟨3, ['x'], [], 99⟩)) ∧
    searchIvar rootClass sampleMembers.sort 7 1 0 = some (.ok (some ⟨7, [], [], 7⟩)) := by decide +kernel

end MulleObjcRuntime.Members
