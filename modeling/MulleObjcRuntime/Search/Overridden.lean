import MulleObjcRuntime.Lib.AnchoredChain
import MulleObjcRuntime.Search.Default

/-!
# The overridden search

* `entries`, `Entry.ids` — the method lists along a linearization, each with its class id and category id;
* `overridden` — the matches behind the first list with some ids, in lists with other ids;
* `anchored` — the class object first met under the class id has the category among its visible lists;
* `searchMethod_overridden` — the search settles on `overridden` when its ids are anchored, else it fails;
* `overridden_returns_iff` — when it returns the first overridden match.
-/

namespace MulleObjcRuntime.Search

open Classes Lib.AnchoredChain

/-! ## Method lists with their ids -/

section Entries

variable {P : Type}

/-- A method list on the way of a search, with the class object it belongs to. -/
structure Entry (P : Type) where
  cls : ClassRef P
  list : MethodList
deriving DecidableEq

/-- The method lists along some visits, in the order they are looked into. -/
def entries (path : List (Visit P)) : List (Entry P) := path.flatMap fun v => v.lists.map (Entry.mk v.cls)

/-- The class id and the category id of a list. -/
def Entry.ids (g : ClassGraph P) (e : Entry P) : ℕ × ℕ := (g.classid e.cls, e.list.categoryid)

/-- The class id and the category id of the list a method was found in. -/
def Hit.ids (g : ClassGraph P) (h : Hit P) : ℕ × ℕ := (g.classid h.cls, h.list.categoryid)

/-- The method of a list. -/
def Entry.hit (methodid : ℕ) (e : Entry P) : Option (Hit P) := (e.list.search methodid).map (Hit.mk e.cls e.list)

/-- The matches behind the first list with the given ids, but for those in lists with the same ids. -/
def overridden (g : ClassGraph P) (methodid : ℕ) (anchor : ℕ × ℕ) (path : List (Visit P)) : List (Hit P) :=
  candidates (Entry.ids g) (Entry.hit methodid) anchor (entries path)

/-- The class object that is first met under the class id has the category among its visible lists. -/
def anchored (g : ClassGraph P) (anchor : ℕ × ℕ) (path : List (Visit P)) : Bool :=
  match path.find? fun v => g.classid v.cls = anchor.1 with
  | none => false
  | some v => v.lists.any fun list => list.categoryid = anchor.2

variable {g : ClassGraph P} {methodid : ℕ} {anchor : ℕ × ℕ}

lemma Entry.hit_ids {e : Entry P} {h : Hit P} (he : e.hit methodid = some h) : h.ids g = e.ids g := by
  unfold Entry.hit at he
  obtain ⟨m, -, rfl⟩ := Option.map_eq_some_iff.1 he
  rfl

lemma entries_cons (v : Visit P) (path : List (Visit P)) :
    entries (v :: path) = v.lists.map (Entry.mk v.cls) ++ entries path := rfl

lemma hits_eq_entries (path : List (Visit P)) : hits methodid path = (entries path).filterMap (Entry.hit methodid) := by
  induction path with
  | nil => rfl
  | cons v path ih =>
    rw [entries_cons, List.filterMap_append, ← ih, List.filterMap_map]
    rfl

lemma after_skip {v : Visit P} (hv : g.classid v.cls ≠ anchor.1) (E : List (Entry P)) (lists : List MethodList) :
    after (Entry.ids g) anchor (lists.map (Entry.mk v.cls) ++ E) = after (Entry.ids g) anchor E := by
  induction lists with
  | nil => rfl
  | cons list lists ih =>
    have : Entry.ids g ⟨v.cls, list⟩ ≠ anchor := by
      rintro rfl
      exact hv rfl
    rw [List.map_cons, List.cons_append, after, if_neg this, ih]

lemma after_category {v : Visit P} (hv : g.classid v.cls = anchor.1) (E : List (Entry P))
    {lists rest : List MethodList} (hrest : afterCategory anchor.2 lists = some rest) :
    after (Entry.ids g) anchor (lists.map (Entry.mk v.cls) ++ E) = rest.map (Entry.mk v.cls) ++ E := by
  induction lists with
  | nil => cases hrest
  | cons list lists ih =>
    unfold afterCategory at hrest
    rw [List.map_cons, List.cons_append, after]
    by_cases hc : anchor.2 = list.categoryid
    · rw [if_pos hc] at hrest
      cases hrest
      rw [if_pos (Prod.ext hv hc.symm)]
    · rw [if_neg hc] at hrest
      rw [if_neg fun h => hc (congrArg Prod.snd h).symm]
      exact ih hrest

lemma afterCategory_isSome (categoryid : ℕ) (lists : List MethodList) :
    (afterCategory categoryid lists).isSome = lists.any fun list => list.categoryid = categoryid := by
  induction lists with
  | nil => rfl
  | cons list lists ih =>
    unfold afterCategory
    by_cases hc : categoryid = list.categoryid
    · simp [hc]
    · simp [hc, ih, Ne.symm hc]

lemma anchored_cons (v : Visit P) (path : List (Visit P)) :
    anchored g anchor (v :: path) =
      if g.classid v.cls = anchor.1 then (afterCategory anchor.2 v.lists).isSome else anchored g anchor path := by
  unfold anchored
  by_cases hv : g.classid v.cls = anchor.1
  · rw [List.find?_cons_of_pos (by simpa using hv), if_pos hv, afterCategory_isSome]
  · rw [List.find?_cons_of_neg (by simpa using hv), if_neg hv]

end Entries

/-! ## The scan of an overridden search -/

section Scan

variable {P : Type} {g : ClassGraph P} {methodid : ℕ} {anchor : ℕ × ℕ}

lemma counted_overridden (cls : ClassRef P) (lists : List MethodList) :
    counted (.makeOverridden methodid anchor.1 anchor.2) g .overriddenMethod3 cls lists =
      ((lists.map (Entry.mk cls)).filter fun e => e.ids g ≠ anchor).filterMap (Entry.hit methodid) := by
  unfold counted
  rw [List.filter_map, List.filterMap_map, List.filterMap_filter]
  congr 1
  funext list
  have hanchor : isAnchor g (.makeOverridden methodid anchor.1 anchor.2) cls list = true ↔
      Entry.ids g ⟨cls, list⟩ = anchor := by
    unfold isAnchor Entry.ids
    rw [Bool.and_eq_true, beq_iff_eq, beq_iff_eq]
    exact ⟨fun h => Prod.ext h.1.symm h.2.symm, fun h => h ▸ ⟨rfl, rfl⟩⟩
  by_cases h : Entry.ids g ⟨cls, list⟩ = anchor
  · rw [if_pos ⟨rfl, hanchor.2 h⟩]
    simp [h]
  · rw [if_neg fun hc => h (hanchor.1 hc.2)]
    simp [h, methodlistSearch, Entry.hit, SearchArguments.makeOverridden]

lemma scan_overridden_settled (path : List (Visit P)) :
    scan (.makeOverridden methodid anchor.1 anchor.2) g .overriddenMethod3 path =
      ⟨.overriddenMethod3, ((entries path).filter fun e => e.ids g ≠ anchor).filterMap (Entry.hit methodid),
        false⟩ := by
  rw [scan_settled .overriddenMethod3]
  congr 1
  induction path with
  | nil => rfl
  | cons v path ih =>
    rw [List.flatMap_cons, ih, counted_overridden, entries_cons, List.filter_append, List.filterMap_append]

/-- The scan gathers the overridden matches when the ids are anchored, and nothing otherwise. -/
lemma scan_overridden (path : List (Visit P)) :
    (scan (.makeOverridden methodid anchor.1 anchor.2) g .overriddenMethod path).hits =
      if anchored g anchor path then overridden g methodid anchor path else [] := by
  induction path with
  | nil => rfl
  | cons v path ih =>
    obtain ⟨cls, lists⟩ := v
    rw [scan, scanVisit_overridden, anchored_cons]
    have hclassid : (SearchArguments.makeOverridden methodid anchor.1 anchor.2 : SearchArguments P).classid
      = anchor.1 := rfl
    have hcategoryid : (SearchArguments.makeOverridden methodid anchor.1 anchor.2 : SearchArguments P).categoryid
      = anchor.2 := rfl
    rw [hclassid, hcategoryid]
    by_cases hv : g.classid cls = anchor.1
    · rw [if_pos hv.symm, if_pos hv]
      rcases hrest : afterCategory anchor.2 lists with _ | rest
      · rfl
      · have hafter := after_category (v := ⟨cls, lists⟩) hv (entries path) hrest
        simp only [Option.isSome_some, if_true]
        rw [Scan.settled_andThen .overriddenMethod3, scan_overridden_settled, counted_overridden, overridden,
          candidates, entries_cons, hafter, List.filter_append, List.filterMap_append]
    · have hskip := after_skip (v := ⟨cls, lists⟩) hv (entries path) lists
      rw [if_neg (Ne.symm hv), if_neg hv, Scan.empty_andThen, ih, overridden, overridden, candidates, candidates,
        entries_cons, hskip]

end Scan

/-! ## What the search returns -/

variable {P : Type} [DecidableEq P]

/-- **The overridden search** settles on the overridden matches when its ids are anchored, and else returns
nothing. -/
theorem searchMethod_overridden (g : ClassGraph P) (cls : ClassRef P) (inheritance methodid : ℕ)
    (anchor : ℕ × ℕ) :
    Returns (searchMethod g [] cls (.makeOverridden methodid anchor.1 anchor.2) inheritance)
      (if anchored g anchor (linearization g cls inheritance) then
        pick (overridden g methodid anchor (linearization g cls inheritance))
      else none) := by
  have h := (searchMethod_returns (.makeOverridden methodid anchor.1 anchor.2) g cls inheritance rfl rfl rfl
    .overriddenMethod).1
  rw [scan_overridden] at h
  split at h
  · rename_i hanchored
    rw [if_pos hanchored]
    exact h
  · rename_i hanchored
    rw [if_neg hanchored]
    exact h

/-- The linearization of a class object that is searched with its own inheritance. -/
def ownLinearization (g : ClassGraph P) (cls : ClassRef P) : List (Visit P) :=
  linearization g cls (g.inheritance cls)

/-- **An overridden search returns the first overridden match**, and nothing when there is none, exactly when no
match is overridden, or the class object first met under the class id carries the category and no match is shadowed
although it must not be. -/
theorem overridden_returns_iff (g : ClassGraph P) (cls : ClassRef P) (methodid : ℕ) (anchor : ℕ × ℕ) :
    Returns (searchMethod g [] cls (.makeOverridden methodid anchor.1 anchor.2) (g.inheritance cls))
        (overridden g methodid anchor (ownLinearization g cls)).head? ↔
      overridden g methodid anchor (ownLinearization g cls) = [] ∨
        anchored g anchor (ownLinearization g cls) = true ∧
          ¬ Blocked (overridden g methodid anchor (ownLinearization g cls)) := by
  have hr := searchMethod_overridden g cls (g.inheritance cls) methodid anchor
  change Returns _ (if anchored g anchor (ownLinearization g cls) then
    pick (overridden g methodid anchor (ownLinearization g cls)) else none) at hr
  have hiff : ∀ o, Returns (searchMethod g [] cls (.makeOverridden methodid anchor.1 anchor.2)
      (g.inheritance cls)) o ↔ o = if anchored g anchor (ownLinearization g cls) then
        pick (overridden g methodid anchor (ownLinearization g cls)) else none :=
    fun o => ⟨fun h => h.unique hr, fun h => h ▸ hr⟩
  rw [hiff]
  rcases hh : overridden g methodid anchor (ownLinearization g cls) with _ | ⟨h, rest⟩
  · simp [pick]
  · by_cases ha : anchored g anchor (ownLinearization g cls) = true
    · rw [if_pos ha, pick_eq]
      by_cases hb : Blocked (h :: rest)
      · simp [hb]
      · simp [ha, hb]
    · rw [if_neg ha]
      simp [ha]

/-- A root class whose category `41` has the instance method `7` of its `@implementation` too. -/
def rootCategoryGraph : ClassGraph ℕ :=
  ClassGraph.ofList
    [ClassGraph.pairOf 1 none [] false ⟨0, [.single 0 ⟨100, 7, 0, 1000⟩, .single 41 ⟨101, 7, 0, 1001⟩]⟩
      ⟨0, [.single 0 ⟨102, 8, 0, 1002⟩]⟩]

/-- From the metaclass the category of the infraclass is on the way, but the search gives up at the metaclass,
which has the class id of its infraclass and lacks the category. -/
theorem overridden_missed_from_metaclass :
    (∃ e ∈ entries (ownLinearization rootCategoryGraph ⟨0, true⟩), e.ids rootCategoryGraph = (1, 41)) ∧
      ¬ Returns (searchMethod rootCategoryGraph [] ⟨0, true⟩ (.makeOverridden 7 1 41)
          (rootCategoryGraph.inheritance ⟨0, true⟩))
        (overridden rootCategoryGraph 7 (1, 41) (ownLinearization rootCategoryGraph ⟨0, true⟩)).head? := by
  refine ⟨by decide, fun h => ?_⟩
  have := h.returned_eq
  revert this
  decide

end MulleObjcRuntime.Search
