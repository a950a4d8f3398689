import MulleObjcRuntime.Load.Methodlists
import MulleObjcRuntime.Standardimps.Truthful

/-!
# What an item does to the searches

* `sane_install` — the methods of the universe stay sane when an item is installed;
* `Adopted`, `adopted_install` — the mixins of the classes are loaded;
* `agreeOn_new` — a class or a mixin changes no search in the classes that are loaded.
-/

namespace MulleObjcRuntime.Caches

open Classes Dispatch Invalidation

section Install

variable {env : Load.Environment} {u u' : Universe} {item : Load.LoadItem}

/-- The methods an item adds to the lists of the classes. -/
def addedMethods (item : Load.LoadItem) : List Method := (methodlists item).flatMap MethodList.methods

/-- A pair whose lists are sane. -/
def SanePair (pair : Pair) : Prop := ∀ isMeta, ∀ list ∈ pair.methodlists isMeta, Standardimps.SaneList list

lemma sane_iff : Standardimps.Sane u ↔ ∀ pair ∈ u.pairs, SanePair pair := by
  refine forall₂_congr fun pair _ => ?_
  constructor
  · rintro h (_ | _) list hlist
    · exact h list (List.mem_append_left _ hlist)
    · exact h list (List.mem_append_right _ hlist)
  · intro h list hlist
    rcases List.mem_append.1 hlist with hlist | hlist
    · exact h false list hlist
    · exact h true list hlist

lemma mem_methodlists {isMeta : Bool} {list : MethodList} (h : item.methodsOf isMeta = some list) :
    list ∈ methodlists item := by
  unfold Load.LoadItem.methodsOf Load.LoadItem.classmethods Load.LoadItem.instancemethods at h
  cases item <;> cases isMeta <;> simp_all [methodlists]

lemma saneList_methodsOf (hsane : Sane item) {isMeta : Bool} {list : MethodList} (h : item.methodsOf isMeta = some list) :
    Standardimps.SaneList list := hsane list (mem_methodlists h)

lemma saneList_firstList (hsane : Sane item) (isMeta : Bool) : Standardimps.SaneList (item.firstList isMeta) := by
  unfold Load.LoadItem.firstList
  cases hlist : item.methodsOf isMeta with
  | none => simp [Standardimps.SaneList, MethodList.empty]
  | some list => exact saneList_methodsOf hsane hlist

lemma SanePair.withCategory {pair : Pair} {info : Load.LoadCategory} (h : SanePair pair)
    (hsane : Sane (.loadcategory info)) (mixins : List ℕ) : SanePair (Load.withCategory info mixins pair) := by
  intro isMeta list hlist
  rw [Load.methodlists_withCategory, List.mem_append, Option.mem_toList] at hlist
  rcases hlist with hlist | hlist
  · exact h isMeta list hlist
  · obtain ⟨methods, hmethods, hlist⟩ := Option.bind_eq_some_iff.1 hlist
    obtain ⟨-, hlist⟩ := Option.ite_none_left_eq_some.1 hlist
    cases hlist
    have hsaneList := saneList_methodsOf hsane hmethods
    exact hsaneList

lemma sane_register (hu : Standardimps.Sane u) {pair : Pair} {hsuper : ∀ q ∈ pair.superclass, q < u.pairs.length}
    {hnew : u.lookup pair.classid = none} (hsane : Sane item)
    (hlists : ∀ isMeta, pair.methodlists isMeta = [item.firstList isMeta]) :
    Standardimps.Sane (u.register pair hsuper hnew) := by
  rw [sane_iff] at hu ⊢
  intro other hother
  rcases List.mem_append.1 hother with hother | hother
  · exact hu other hother
  · rw [List.mem_singleton] at hother
    subst hother
    intro isMeta list hlist
    rw [hlists, List.mem_singleton] at hlist
    exact hlist ▸ saneList_firstList hsane isMeta

/-- **The universe stays sane** when an item is installed. -/
lemma sane_install (hu : Standardimps.Sane u) (hsane : Sane item) (h : item.install env u = .ok u') :
    Standardimps.Sane u' ∧ u.pairs.length ≤ u'.pairs.length := by
  cases item with
  | loadclass info =>
    obtain ⟨-, u₁, pair, hsuper, hnew, hfast, rfl, -, -, hlists, -⟩ := Load.installClass_eq_ok h
    obtain ⟨-, fastclasses, rfl, -⟩ := Load.setFastclass_eq_ok hfast
    have hu₁ : Standardimps.Sane { u with fastclasses } := hu
    exact ⟨sane_register hu₁ hsane hlists, by simp [Universe.register]⟩
  | loadmixin info =>
    obtain ⟨-, pair, hsuper, hnew, rfl, -, -, hlists, -⟩ := Load.installMixin_eq_ok h
    exact ⟨sane_register hu hsane hlists, by simp [Universe.register]⟩
  | loadcategory info =>
    obtain ⟨-, u₁, i, mixins, htable, -, rfl, -⟩ := Load.installCategory_eq_ok env h
    obtain ⟨-, table, rfl, -⟩ := Load.registerCategory_eq_ok htable
    refine ⟨?_, by simp [Universe.modify]⟩
    rw [sane_iff] at hu ⊢
    intro pair hpair
    obtain ⟨j, hj⟩ := List.mem_iff_getElem?.1 hpair
    change (u.pairs.modify i (Load.withCategory info mixins))[j]? = some pair at hj
    rw [List.getElem?_modify] at hj
    obtain ⟨old, hold, rfl⟩ := Option.map_eq_some_iff.1 hj
    have hsaneold := hu old (List.mem_of_getElem? hold)
    split
    · exact hsaneold.withCategory hsane mixins
    · exact hsaneold


/-! ## Mixins -/

/-- The mixins of the classes are loaded. -/
def Adopted (u : Universe) : Prop := ∀ pair ∈ u.pairs, ∀ proto ∈ pair.mixins, proto < u.pairs.length

lemma addMixinids_lt {mixins mixinids result : List ℕ} (h : Load.addMixinids u mixins mixinids = .ok result)
    (hmixins : ∀ proto ∈ mixins, proto < u.pairs.length) : ∀ proto ∈ result, proto < u.pairs.length := by
  induction mixinids generalizing mixins with
  | nil =>
    cases h
    exact hmixins
  | cons mixinid mixinids ih =>
    unfold Load.addMixinids at h
    split at h
    · cases h
    rename_i proto hproto
    split at h
    · cases h
    apply ih h
    split
    · exact hmixins
    · intro other hother
      rcases List.mem_append.1 hother with hother | hother
      · exact hmixins other hother
      · rw [List.mem_singleton.1 hother]
        exact (Universe.lookup_eq_some.1 hproto).1

lemma adopted_register (hu : Adopted u) {pair : Pair} {hsuper : ∀ q ∈ pair.superclass, q < u.pairs.length}
    {hnew : u.lookup pair.classid = none} (hmixins : ∀ proto ∈ pair.mixins, proto < u.pairs.length) :
    Adopted (u.register pair hsuper hnew) := by
  have hlength : u.pairs.length ≤ (u.register pair hsuper hnew).pairs.length := by simp [Universe.register]
  intro other hother proto hproto
  apply Nat.lt_of_lt_of_le ?_ hlength
  rcases List.mem_append.1 hother with hother | hother
  · exact hu other hother proto hproto
  · rw [List.mem_singleton.1 hother] at hproto
    exact hmixins proto hproto

lemma Adopted.pair (hu : Adopted u) (i : ℕ) : ∀ proto ∈ (u.pair i).mixins, proto < u.pairs.length := by
  intro proto hproto
  by_cases hi : i < u.pairs.length
  · rw [Universe.pair, List.getD_eq_getElem _ _ hi] at hproto
    exact hu _ (List.getElem_mem hi) proto hproto
  · rw [Universe.pair, List.getD_eq_default _ _ (Nat.le_of_not_lt hi)] at hproto
    cases hproto

/-- **The mixins of the classes are loaded**, also after an item is installed. -/
lemma adopted_install (hu : Adopted u) (h : item.install env u = .ok u') : Adopted u' := by
  cases item with
  | loadclass info =>
    obtain ⟨-, u₁, pair, hsuper, hnew, hfast, rfl, hmixins, -⟩ := Load.installClass_eq_ok h
    obtain ⟨-, fastclasses, rfl, -⟩ := Load.setFastclass_eq_ok hfast
    have hu₁ : Adopted { u with fastclasses } := hu
    have hlt : ∀ proto ∈ pair.mixins, proto < u.pairs.length := addMixinids_lt hmixins (by simp)
    exact adopted_register hu₁ hlt
  | loadmixin info =>
    obtain ⟨-, pair, hsuper, hnew, rfl, hmixins, -⟩ := Load.installMixin_eq_ok h
    exact adopted_register hu (by rw [hmixins]; simp)
  | loadcategory info =>
    obtain ⟨-, u₁, i, mixins, htable, -, rfl, hmixins⟩ := Load.installCategory_eq_ok env h
    obtain ⟨-, table, rfl, -⟩ := Load.registerCategory_eq_ok htable
    have hlength : (u.pairs.modify i (Load.withCategory info mixins)).length = u.pairs.length := List.length_modify _ _ _
    intro pair hpair proto hproto
    show proto < (u.pairs.modify i (Load.withCategory info mixins)).length
    rw [hlength]
    obtain ⟨j, hj⟩ := List.mem_iff_getElem?.1 hpair
    change (u.pairs.modify i (Load.withCategory info mixins))[j]? = some pair at hj
    rw [List.getElem?_modify] at hj
    obtain ⟨old, hold, rfl⟩ := Option.map_eq_some_iff.1 hj
    split at hproto
    · exact addMixinids_lt hmixins (hu.pair i) proto hproto
    · exact hu old (List.mem_of_getElem? hold) proto hproto

/-! ## Searches -/

lemma agreeOn_of_pair_eq {g g' : ClassGraph ℕ} {S : ℕ → Prop} (methodid : ℕ)
    (hclosed : ∀ i, S i → (∀ q, (g.pair i).superclass = some q → S q) ∧ ∀ proto ∈ (g.pair i).mixins, S proto)
    (hpair : ∀ i, S i → g'.pair i = g.pair i) : AgreeOn g g' methodid S := by
  have hclass : ∀ c : ClassRef ℕ, S c.pair → g'.toClass c = g.toClass c := by
    intro c hc
    unfold ClassGraph.toClass
    rw [hpair c.pair hc]
  refine ⟨hclosed, fun i hi => ?_, fun i hi => ?_, fun i hi => ?_, fun i hi => ?_, fun c hc => ?_, fun c hc _ => ?_⟩
  · rw [hpair i hi]
  · rw [hpair i hi]
  · rw [hpair i hi]
  · rw [hpair i hi]
  · unfold ClassGraph.inheritance
    rw [hclass c hc]
  · unfold Search.ownVisit ClassGraph.methodlists
    rw [hclass c hc]

lemma agreeOn_register (hu : Adopted u) {pair : Pair} {hsuper : ∀ q ∈ pair.superclass, q < u.pairs.length}
    {hnew : u.lookup pair.classid = none} (methodid : ℕ) :
    AgreeOn u.graph (u.register pair hsuper hnew).graph methodid (· < u.pairs.length) := by
  apply agreeOn_of_pair_eq
  · intro i hi
    rw [Universe.graph_pair]
    exact ⟨fun q hq => (Universe.superclass_lt hq).trans hi, hu.pair i⟩
  · intro i hi
    rw [Universe.graph_pair, Universe.graph_pair, Universe.pair_register_of_lt hi]

/-- **A class or a mixin** changes no search in the classes that are loaded. -/
lemma agreeOn_new (hu : Adopted u) {r : ℕ × String × ℕ × Bool} (hitem : item.summary = some r)
    (h : item.install env u = .ok u') (methodid : ℕ) : AgreeOn u.graph u'.graph methodid (· < u.pairs.length) := by
  cases item with
  | loadclass info =>
    obtain ⟨-, u₁, pair, hsuper, hnew, hfast, rfl, -⟩ := Load.installClass_eq_ok h
    obtain ⟨-, fastclasses, rfl, -⟩ := Load.setFastclass_eq_ok hfast
    have hu₁ : Adopted { u with fastclasses } := hu
    have hregister := @agreeOn_register { u with fastclasses } hu₁ pair hsuper hnew methodid
    exact hregister
  | loadmixin info =>
    obtain ⟨-, pair, hsuper, hnew, rfl, -⟩ := Load.installMixin_eq_ok h
    exact agreeOn_register hu methodid
  | loadcategory info => cases hitem

end Install

end MulleObjcRuntime.Caches
