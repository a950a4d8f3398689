import MulleObjcRuntime.Load.Dependencies

/-!
# What installing an item does

* `HasClass u r`, `HasCategory u c k` — a class pair with the summary `r`, a category `k` of the class `c`;
* `Describes u log` — the universe `u` holds what the items of `log` brought, and nothing else;
* `Installable env u item` — when installing does not fail;
* `install_ok_iff`, `Describes.install` — installing an item succeeds when it can, and adds what the item brings.
-/

namespace MulleObjcRuntime.Load

open Classes Lib Lib.Fallible

/-! ## What an item brings -/

/-- The summary of the class pair an item brings; a category brings none. -/
def LoadItem.summary : LoadItem → Option (ℕ × String × ℕ × Bool)
  | .loadclass info => some (info.base.classid, info.base.classname, info.classivarhash, false)
  | .loadmixin info => some (info.base.classid, info.base.classname, 0, true)
  | .loadcategory _ => none

/-- The methods an item brings for one of the class objects of its pair. -/
def LoadItem.methodsOf (item : LoadItem) (isMeta : Bool) : Option MethodList :=
  if isMeta then item.classmethods else item.instancemethods

/-- The list a class object begins with. -/
def LoadItem.firstList (item : LoadItem) (isMeta : Bool) : MethodList := (item.methodsOf isMeta).getD MethodList.empty

/-- A class pair with the summary `r` is registered. -/
def HasClass (u : Universe) (r : ℕ × String × ℕ × Bool) : Prop :=
  ∃ i, u.lookup r.1 = some i ∧ summary (u.pair i) = r

/-- The class `c` has the category `k`. -/
def HasCategory (u : Universe) (c k : ℕ) : Prop := ∃ i, u.lookup c = some i ∧ k ∈ (u.pair i).categoryids

/-- The universe holds what the items of the log brought, and nothing else. -/
structure Describes (u : Universe) (log : List LoadItem) : Prop where
  classes : ∀ r, HasClass u r ↔ ∃ x ∈ log, x.summary = some r
  categories : ∀ c k, HasCategory u c k ↔
    ∃ info, .loadcategory info ∈ log ∧ info.classid = c ∧ info.categoryid = k
  fastclasses : ∀ (n : ℕ) c, u.fastclasses.lookup n = some c ↔
    ∃ info : LoadClass, .loadclass info ∈ log ∧ info.fastclassindex = (n : ℤ) ∧ info.base.classid = c
  categorytable : ∀ k name, u.categorytable.lookup k = some name ↔
    ∃ info, .loadcategory info ∈ log ∧ info.categoryid = k ∧ info.categoryname = name

/-- Install one item, as the enqueue functions do. -/
def LoadItem.install (env : Environment) (u : Universe) : LoadItem → Except Failure Universe
  | .loadclass info => installClass env u info
  | .loadmixin info => installMixin env u info
  | .loadcategory info => installCategory u info

section Facts

variable {u u' : Universe} {c k : ℕ} {r r' : ℕ × String × ℕ × Bool} {log log' : List LoadItem}

lemma hasClass_of_lookup {i : ℕ} (h : u.lookup c = some i) : HasClass u (summary (u.pair i)) :=
  ⟨i, Universe.lookup_pair h, rfl⟩

lemma HasClass.unique (h : HasClass u r) (h' : HasClass u r') (heq : r.1 = r'.1) : r = r' := by
  obtain ⟨i, hi, rfl⟩ := h
  obtain ⟨j, hj, rfl⟩ := h'
  rw [heq, hj] at hi
  cases hi
  rfl

lemma HasClass.lookup_ne (h : HasClass u r) : u.lookup r.1 ≠ none := by
  obtain ⟨i, hi, -⟩ := h
  simp [hi]

lemma lookup_ne_none : u.lookup c ≠ none ↔ ∃ r, HasClass u r ∧ r.1 = c := by
  constructor
  · intro h
    obtain ⟨i, hi⟩ := Option.ne_none_iff_exists'.1 h
    exact ⟨_, hasClass_of_lookup hi, Universe.lookup_classid hi⟩
  · rintro ⟨r, hr, rfl⟩
    exact hr.lookup_ne

lemma isMet_iff {d : Dependency} :
    isMet u d = true ↔ u.lookup d.classid ≠ none ∧ (d.categoryid = 0 ∨ HasCategory u d.classid d.categoryid) := by
  unfold isMet HasCategory
  cases u.lookup d.classid <;> simp

lemma extends_of (hclass : ∀ r, HasClass u r → HasClass u' r)
    (hcategory : ∀ c k, HasCategory u c k → HasCategory u' c k) : Extends u u' := by
  intro c i hi
  obtain ⟨j, hj, hsummary⟩ := hclass _ (hasClass_of_lookup hi)
  have hc : (summary (u.pair i)).1 = c := Universe.lookup_classid hi
  rw [hc] at hj
  refine ⟨j, hj, hsummary, fun k hk => ?_⟩
  obtain ⟨j', hj', hk'⟩ := hcategory c k ⟨i, hi, hk⟩
  rw [hj] at hj'
  cases hj'
  exact hk'

lemma Describes.extends (h : Describes u log) (h' : Describes u' log') (hlog : log ⊆ log') : Extends u u' := by
  refine extends_of (fun r hr => ?_) (fun c k hk => ?_)
  · obtain ⟨x, hx, hs⟩ := (h.classes r).1 hr
    exact (h'.classes r).2 ⟨x, hlog hx, hs⟩
  · obtain ⟨info, hx, hc, hk⟩ := (h.categories c k).1 hk
    exact (h'.categories c k).2 ⟨info, hlog hx, hc, hk⟩

lemma describes_initial (classdefaults : ℕ) : Describes (Universe.initial classdefaults) [] := by
  constructor <;> simp [HasClass, HasCategory, Universe.initial, Universe.lookup]

end Facts

/-! ## The parts of an installation -/

section Parts

variable {env : Environment} {u u' : Universe} {classid : ℕ} {classname : String} {superclass : Option ℕ} {p : Pair}

/-- A class id that fits its name. -/
def Named (env : Environment) (classid : ℕ) (classname : String) : Prop :=
  classid ≠ 0 ∧ classid ≠ invalidUniqueid ∧ classname ≠ "" ∧ classid = env.classidFromString classname

lemma newClasspair_eq_ok (h : newClasspair env u classid classname superclass = .ok p) :
    Named env classid classname ∧ p.superclass = superclass ∧ p.mixins = [] ∧ p.categoryids = [] ∧
      p.infraclass.methodlists = [] ∧ p.metaclass.methodlists = [] ∧
      summary p = (classid, classname, 0, false) := by
  unfold newClasspair at h
  split at h
  · cases h
  · split at h
    · cases h
    · rename_i h0 hnamed
      cases h
      refine ⟨?_, rfl, rfl, rfl, rfl, rfl, rfl⟩
      unfold Named
      tauto

lemma addMethodlist_first {cls : Classes.Class} (h : cls.methodlists = []) (list : Option MethodList) :
    (addMethodlist cls list).methodlists = [list.getD MethodList.empty] := by
  unfold addMethodlist
  cases list with
  | none => simp [h]
  | some list => simp [h]

lemma newClasspair_of_named (u : Universe) (superclass : Option ℕ) (h : Named env classid classname) :
    ∃ p, newClasspair env u classid classname superclass = .ok p := by
  obtain ⟨h0, hinvalid, hname, hhash⟩ := h
  unfold newClasspair
  rw [dif_neg h0, if_neg (by tauto)]
  exact ⟨_, rfl⟩

/-- The mixins of a pair must be there and be mixins. -/
def AreMixins (u : Universe) (mixinids : List ℕ) : Prop :=
  ∀ m ∈ mixinids, ∃ r, HasClass u r ∧ r.1 = m ∧ r.2.2.2 = true

lemma addMixinids_ok_iff (mixins : List ℕ) {mixinids : List ℕ} :
    (∃ result, addMixinids u mixins mixinids = .ok result) ↔ AreMixins u mixinids := by
  induction mixinids generalizing mixins with
  | nil => simp [addMixinids, AreMixins]
  | cons m mixinids ih =>
    unfold addMixinids AreMixins
    rw [List.forall_mem_cons]
    cases hm : u.lookup m with
    | none =>
      constructor
      · rintro ⟨_, h⟩
        cases h
      · rintro ⟨⟨r, hr, rfl, -⟩, -⟩
        exact absurd hm hr.lookup_ne
    | some i =>
      have hr : (∃ r, HasClass u r ∧ r.1 = m ∧ r.2.2.2 = true) ↔ (u.pair i).isMixin = true := by
        constructor
        · rintro ⟨r, hr, rfl, hmixin⟩
          have := hr.unique (hasClass_of_lookup hm) (Universe.lookup_classid hm).symm
          rw [this] at hmixin
          exact hmixin
        · intro hmixin
          exact ⟨_, hasClass_of_lookup hm, Universe.lookup_classid hm, hmixin⟩
      rw [hr]
      by_cases hmixin : (u.pair i).isMixin = true
      · simp only [hmixin, Bool.true_eq_false, if_false, true_and]
        exact ih _
      · simp [hmixin]

lemma lookup_concat {β : Type} {l : List (ℕ × β)} {k n : ℕ} {v b : β} (hfree : l.lookup k = none) :
    (l ++ [(k, v)]).lookup n = some b ↔ l.lookup n = some b ∨ (k = n ∧ v = b) := by
  rw [List.lookup_append]
  by_cases hn : n = k
  · subst hn
    simp [hfree]
  · have hne : (n == k) = false := by simpa using hn
    have : ([(k, v)] : List (ℕ × β)).lookup n = none := by rw [List.lookup_cons, hne]; rfl
    rw [this, Option.or_none]
    constructor
    · exact Or.inl
    · rintro (h | ⟨h, -⟩)
      · exact h
      · exact absurd h.symm hn

/-- A place in the fast class table that can be taken. -/
def FastclassFree (u : Universe) (fastclassindex : ℤ) : Prop :=
  0 ≤ fastclassindex →
    fastclassindex.toNat < numberOfFastclasses ∧ u.fastclasses.lookup fastclassindex.toNat = none

lemma setFastclass_eq_ok {fastclassindex : ℤ} (h : setFastclass u classid fastclassindex = .ok u') :
    FastclassFree u fastclassindex ∧ ∃ fastclasses, u' = { u with fastclasses } ∧
      ∀ n c, fastclasses.lookup n = some c ↔
        u.fastclasses.lookup n = some c ∨ (fastclassindex = n ∧ classid = c) := by
  unfold setFastclass at h
  split at h
  · cases h
    rename_i hneg
    refine ⟨fun h0 => by omega, u.fastclasses, rfl, fun n c => ?_⟩
    constructor
    · exact Or.inl
    · rintro (h | ⟨rfl, -⟩)
      · exact h
      · omega
  · rename_i hpos
    simp only at h
    split at h
    · cases h
    · rename_i hbound
      split at h
      · cases h
      · rename_i hfree
        cases h
        refine ⟨fun _ => ⟨by omega, hfree⟩, _, rfl, fun n c => ?_⟩
        rw [lookup_concat hfree]
        have hindex : fastclassindex.toNat = n ↔ fastclassindex = n := by omega
        rw [hindex]

lemma setFastclass_of_free (classid : ℕ) {fastclassindex : ℤ} (h : FastclassFree u fastclassindex) :
    ∃ u', setFastclass u classid fastclassindex = .ok u' := by
  unfold setFastclass
  by_cases hneg : fastclassindex < 0
  · rw [if_pos hneg]
    exact ⟨u, rfl⟩
  · obtain ⟨hbound, hfree⟩ := h (by omega)
    rw [if_neg hneg]
    simp only [hfree]
    rw [if_neg (by omega)]
    exact ⟨_, rfl⟩

/-- A category id that is sane and stands for no other name. -/
def CategoryNamed (u : Universe) (categoryid : ℕ) (name : String) : Prop :=
  uniqueidIsSane categoryid = true ∧ ∀ dup, u.categorytable.lookup categoryid = some dup → dup = name

lemma registerCategory_eq_ok {name : String} {k : ℕ} (h : registerCategory u k name = .ok u') :
    CategoryNamed u k name ∧ ∃ categorytable, u' = { u with categorytable } ∧
      ∀ n name', categorytable.lookup n = some name' ↔
        u.categorytable.lookup n = some name' ∨ (k = n ∧ name = name') := by
  unfold registerCategory at h
  split at h
  · cases h
  · rename_i hsane
    split at h
    · rename_i hnone
      cases h
      exact ⟨⟨by simpa using hsane, by simp [hnone]⟩, _, rfl, fun n name' => lookup_concat hnone⟩
    · rename_i dup hdup
      split at h
      · cases h
      · rename_i heq
        cases h
        have heq : dup = name := by simpa using heq
        refine ⟨⟨by simpa using hsane, by simp [hdup, heq]⟩, u.categorytable, rfl, fun n name' => ?_⟩
        constructor
        · exact Or.inl
        · rintro (h | ⟨rfl, rfl⟩)
          · exact h
          · rw [hdup, heq]

lemma registerCategory_of_named {name : String} {k : ℕ} (h : CategoryNamed u k name) :
    ∃ u', registerCategory u k name = .ok u' := by
  unfold registerCategory
  rw [if_neg (by simp [h.1])]
  cases hdup : u.categorytable.lookup k with
  | none => exact ⟨_, rfl⟩
  | some dup =>
    simp only
    rw [if_neg (by simp [h.2 dup hdup])]
    exact ⟨_, rfl⟩

end Parts

/-! ## New pairs and changed pairs -/

section Pairs

variable {u : Universe} {p : Pair} {hsuper : ∀ q ∈ p.superclass, q < u.pairs.length}
  {hnew : u.lookup p.classid = none} {r : ℕ × String × ℕ × Bool} {c k : ℕ}

lemma hasClass_register : HasClass (u.register p hsuper hnew) r ↔ HasClass u r ∨ summary p = r := by
  unfold HasClass
  by_cases hr : r.1 = p.classid
  · rw [hr, Universe.lookup_register_self]
    constructor
    · rintro ⟨i, ⟨⟩, h⟩
      rw [Universe.pair_register_self] at h
      exact Or.inr h
    · rintro (⟨i, hi, -⟩ | h)
      · rw [hnew] at hi
        cases hi
      · exact ⟨_, rfl, by rwa [Universe.pair_register_self]⟩
  · rw [Universe.lookup_register_of_ne hr]
    constructor
    · rintro ⟨i, hi, h⟩
      rw [Universe.pair_register_of_lt (Universe.lookup_eq_some.1 hi).1] at h
      exact Or.inl ⟨i, hi, h⟩
    · rintro (⟨i, hi, h⟩ | rfl)
      · exact ⟨i, hi, by rwa [Universe.pair_register_of_lt (Universe.lookup_eq_some.1 hi).1]⟩
      · exact absurd rfl hr

lemma hasCategory_register (hp : p.categoryids = []) :
    HasCategory (u.register p hsuper hnew) c k ↔ HasCategory u c k := by
  unfold HasCategory
  by_cases hc : c = p.classid
  · rw [hc, Universe.lookup_register_self, hnew]
    constructor
    · rintro ⟨i, ⟨⟩, h⟩
      rw [Universe.pair_register_self, hp] at h
      cases h
    · rintro ⟨i, ⟨⟩, -⟩
  · rw [Universe.lookup_register_of_ne hc]
    refine exists_congr fun i => and_congr_right fun hi => ?_
    rw [Universe.pair_register_of_lt (Universe.lookup_eq_some.1 hi).1]

variable {f : Pair → Pair} {hclassid : ∀ p, (f p).classid = p.classid}
  {hsuperclass : ∀ p, (f p).superclass = p.superclass} {i : ℕ}

lemma hasClass_modify (hi : i < u.pairs.length) (hf : ∀ p, summary (f p) = summary p) :
    HasClass (u.modify i f hclassid hsuperclass) r ↔ HasClass u r := by
  unfold HasClass
  rw [Universe.lookup_modify]
  refine exists_congr fun j => and_congr_right fun _ => ?_
  rw [Universe.pair_modify hi]
  split
  · rename_i hj
    rw [hf, hj]
  · rfl

lemma hasCategory_modify {c' k' : ℕ} (hi : u.lookup c' = some i)
    (hf : ∀ p, (f p).categoryids = p.categoryids ++ [k']) :
    HasCategory (u.modify i f hclassid hsuperclass) c k ↔ HasCategory u c k ∨ (c' = c ∧ k' = k) := by
  have hlt := (Universe.lookup_eq_some.1 hi).1
  unfold HasCategory
  rw [Universe.lookup_modify]
  simp only [Universe.pair_modify hlt]
  constructor
  · rintro ⟨j, hj, hk⟩
    by_cases hji : j = i
    · subst hji
      rw [if_pos rfl, hf, List.mem_append, List.mem_singleton] at hk
      rcases hk with hk | hk
      · exact Or.inl ⟨j, hj, hk⟩
      · refine Or.inr ⟨?_, hk.symm⟩
        rw [← Universe.lookup_classid hi, Universe.lookup_classid hj]
    · rw [if_neg hji] at hk
      exact Or.inl ⟨j, hj, hk⟩
  · rintro (⟨j, hj, hk⟩ | ⟨rfl, rfl⟩)
    · refine ⟨j, hj, ?_⟩
      split
      · rename_i hji
        rw [hf]
        exact List.mem_append_left _ (hji ▸ hk)
      · exact hk
    · exact ⟨i, hi, by rw [if_pos rfl, hf]; simp⟩

end Pairs

/-! ## Installing an item -/

/-- When installing an item does not fail. -/
def Installable (env : Environment) (u : Universe) : LoadItem → Prop
  | .loadclass info =>
    Named env info.base.classid info.base.classname ∧ AreMixins u info.mixinids ∧
      FastclassFree u info.fastclassindex ∧ u.lookup info.base.classid = none
  | .loadmixin info =>
    Named env info.base.classid info.base.classname ∧ u.lookup info.base.classid = none
  | .loadcategory info =>
    (∃ r, HasClass u r ∧ r.1 = info.classid ∧ info.classname = r.2.1 ∧ info.classivarhash = r.2.2.1) ∧
      ¬ HasCategory u info.classid info.categoryid ∧ CategoryNamed u info.categoryid info.categoryname ∧
      AreMixins u info.mixinids

variable {env : Environment} {u u' : Universe} {log : List LoadItem}

lemma registerInfraclass_of {p : Pair} (hsuper : ∀ q ∈ p.superclass, q < u.pairs.length)
    (hnew : u.lookup p.classid = none) : ∃ u', registerInfraclass u p = .ok u' := by
  unfold registerInfraclass
  rw [dif_pos hsuper, dif_pos hnew]
  exact ⟨_, rfl⟩

/-- What `installClass` has done when it succeeds. -/
lemma installClass_eq_ok {info : LoadClass} (h : installClass env u info = .ok u') :
    Installable env u (.loadclass info) ∧ ∃ u₁ p hsuper hnew,
      setFastclass u info.base.classid info.fastclassindex = .ok u₁ ∧
      u' = Universe.register u₁ p hsuper hnew ∧ addMixinids u [] info.mixinids = .ok p.mixins ∧ p.categoryids = [] ∧
      (∀ isMeta, p.methodlists isMeta = [(LoadItem.loadclass info).firstList isMeta]) ∧
      (LoadItem.loadclass info).summary = some (summary p) := by
  unfold installClass at h
  simp only [bind_eq_ok] at h
  obtain ⟨p, hp, mixins, hmixins, u₁, hfast, h⟩ := h
  obtain ⟨hnamed, -, -, hcategoryids, hinfra, hmeta, hsummary⟩ := newClasspair_eq_ok hp
  have hfree := (setFastclass_eq_ok hfast).1
  obtain ⟨fastclasses, hu₁, -⟩ := (setFastclass_eq_ok hfast).2
  simp only [Load.summary, Prod.mk.injEq] at hsummary
  unfold registerInfraclass at h
  split at h
  · rename_i hsuper
    split at h
    · rename_i hnew
      cases h
      refine ⟨⟨hnamed, (addMixinids_ok_iff _).1 ⟨_, hmixins⟩, hfree, ?_⟩, u₁, _, hsuper, hnew, hfast, rfl,
        hmixins, hcategoryids, ?_, ?_⟩
      · rw [← hsummary.1]
        subst hu₁
        exact hnew
      · rintro ⟨⟩
        · exact addMethodlist_first hinfra _
        · exact addMethodlist_first hmeta _
      · simp [LoadItem.summary, Load.summary, hsummary]
    · cases h
  · cases h

/-- What `installMixin` has done when it succeeds. -/
lemma installMixin_eq_ok {info : LoadMixin} (h : installMixin env u info = .ok u') :
    Installable env u (.loadmixin info) ∧ ∃ p hsuper hnew,
      u' = Universe.register u p hsuper hnew ∧ p.mixins = [] ∧ p.categoryids = [] ∧
      (∀ isMeta, p.methodlists isMeta = [(LoadItem.loadmixin info).firstList isMeta]) ∧
      (LoadItem.loadmixin info).summary = some (summary p) := by
  unfold installMixin at h
  simp only [bind_eq_ok] at h
  obtain ⟨p, hp, h⟩ := h
  obtain ⟨hnamed, -, hmixins, hcategoryids, hinfra, hmeta, hsummary⟩ := newClasspair_eq_ok hp
  simp only [Load.summary, Prod.mk.injEq] at hsummary
  unfold registerInfraclass at h
  split at h
  · rename_i hsuper
    split at h
    · rename_i hnew
      cases h
      refine ⟨⟨hnamed, ?_⟩, _, hsuper, hnew, rfl, hmixins, hcategoryids, ?_, ?_⟩
      · rw [← hsummary.1]
        exact hnew
      · rintro ⟨⟩
        · exact addMethodlist_first hinfra _
        · exact addMethodlist_first hmeta _
      · simp [LoadItem.summary, Load.summary, hsummary]
    · cases h
  · cases h

/-- What `installCategory` has done when it succeeds. -/
lemma installCategory_eq_ok (env : Environment) {info : LoadCategory} (h : installCategory u info = .ok u') :
    Installable env u (.loadcategory info) ∧ ∃ u₁ i mixins,
      registerCategory u info.categoryid info.categoryname = .ok u₁ ∧ u.lookup info.classid = some i ∧
      u' = u₁.modify i (withCategory info mixins) (withCategory_classid info mixins)
        (withCategory_superclass info mixins) ∧ addMixinids u₁ (u.pair i).mixins info.mixinids = .ok mixins := by
  unfold installCategory at h
  cases hi : u.lookup info.classid with
  | none =>
    rw [hi] at h
    cases h
  | some i =>
    rw [hi] at h
    simp only [bind_eq_ok, failIf_eq_ok, not_not] at h
    obtain ⟨-, hname, -, hivar, -, hcat, u₁, htable, mixins, hmixins, h⟩ := h
    cases h
    obtain ⟨hnamed, table, hu₁, -⟩ := registerCategory_eq_ok htable
    refine ⟨⟨⟨_, hasClass_of_lookup hi, Universe.lookup_classid hi, hname, hivar⟩, ?_, hnamed, ?_⟩, u₁, i, mixins,
      htable, rfl, rfl, hmixins⟩
    · rintro ⟨j, hj, hk⟩
      rw [hi] at hj
      cases hj
      exact hcat hk
    · have := (addMixinids_ok_iff _).1 ⟨_, hmixins⟩
      subst hu₁
      exact this

/-- **Installing an item succeeds exactly when it can.** -/
theorem install_ok_iff (item : LoadItem) : (∃ u', item.install env u = .ok u') ↔ Installable env u item := by
  constructor
  · rintro ⟨u', h⟩
    cases item with
    | loadclass info => exact (installClass_eq_ok h).1
    | loadmixin info => exact (installMixin_eq_ok h).1
    | loadcategory info => exact (installCategory_eq_ok env h).1
  · intro h
    cases item with
    | loadclass info =>
      obtain ⟨hnamed, hmixins, hfree, hnew⟩ := h
      have hlt : ∀ q ∈ (if info.superclassid = 0 then none else u.lookup info.superclassid), q < u.pairs.length := by
        intro q hq
        split at hq
        · cases hq
        · exact (Universe.lookup_eq_some.1 hq).1
      obtain ⟨p, hp⟩ := newClasspair_of_named u
        (if info.superclassid = 0 then none else u.lookup info.superclassid) hnamed
      obtain ⟨-, hsuper, -, -, -, -, hsummary⟩ := newClasspair_eq_ok hp
      obtain ⟨mixins, hm⟩ := (addMixinids_ok_iff []).2 hmixins
      obtain ⟨u₁, hu₁⟩ := setFastclass_of_free info.base.classid hfree
      obtain ⟨fastclasses, rfl, -⟩ := (setFastclass_eq_ok hu₁).2
      have hclassid : p.classid = info.base.classid := congrArg Prod.fst hsummary
      simp only [LoadItem.install, installClass, bind_eq_ok]
      rw [← hsuper] at hlt
      rw [← hclassid] at hnew
      obtain ⟨u', hu'⟩ := registerInfraclass_of (u := { u with fastclasses })
        (p := { p with
          mixins, ivarhash := info.classivarhash
          metaclass := addMethodlist p.metaclass info.base.classmethods
          infraclass := addMethodlist p.infraclass info.base.instancemethods }) hlt hnew
      exact ⟨u', p, hp, mixins, hm, _, hu₁, hu'⟩
    | loadmixin info =>
      obtain ⟨hnamed, hnew⟩ := h
      obtain ⟨p, hp⟩ := newClasspair_of_named u none hnamed
      obtain ⟨-, hsuper, -, -, -, -, hsummary⟩ := newClasspair_eq_ok hp
      have hclassid : p.classid = info.base.classid := congrArg Prod.fst hsummary
      simp only [LoadItem.install, installMixin, bind_eq_ok]
      rw [← hclassid] at hnew
      obtain ⟨u', hu'⟩ := registerInfraclass_of
        (p := { p with
          isMixin := true
          metaclass := addMethodlist p.metaclass info.base.classmethods
          infraclass := addMethodlist p.infraclass info.base.instancemethods }) (by simp [hsuper]) hnew
      exact ⟨u', p, hp, hu'⟩
    | loadcategory info =>
      obtain ⟨⟨r, ⟨i, hi, rfl⟩, hr, hname, hivar⟩, hcat, hnamed, hmixins⟩ := h
      rw [hr] at hi
      obtain ⟨u₁, hu₁⟩ := registerCategory_of_named hnamed
      obtain ⟨table, rfl, -⟩ := (registerCategory_eq_ok hu₁).2
      have hmixins : AreMixins { u with categorytable := table } info.mixinids := hmixins
      obtain ⟨mixins, hm⟩ := (addMixinids_ok_iff (u.pair i).mixins).2 hmixins
      simp only [LoadItem.install, installCategory, hi, bind_eq_ok, failIf_eq_ok, not_not]
      exact ⟨_, (), hname, (), hivar, (), fun hk => hcat ⟨i, hi, hk⟩, _, hu₁, mixins, hm, rfl⟩

/-- **An installed item is what the universe has gained.** -/
theorem Describes.install (h : Describes u log) {item : LoadItem} (hitem : item.install env u = .ok u') :
    Describes u' (log ++ [item]) := by
  cases item with
  | loadclass info =>
    obtain ⟨-, u₁, p, hsuper, hnew, hfast, rfl, -, hcategoryids, -, hsummary⟩ := installClass_eq_ok hitem
    obtain ⟨-, fastclasses, rfl, hlookup⟩ := setFastclass_eq_ok hfast
    constructor
    · intro r
      rw [hasClass_register, show HasClass { u with fastclasses } r ↔ HasClass u r from Iff.rfl, h.classes r]
      simp only [List.mem_append, List.mem_singleton, or_and_right, exists_or, exists_eq_left, hsummary,
        Option.some.injEq]
    · intro c k
      rw [hasCategory_register hcategoryids, show HasCategory { u with fastclasses } c k ↔ HasCategory u c k from
        Iff.rfl, h.categories c k]
      simp
    · intro n c
      show fastclasses.lookup n = some c ↔ _
      rw [hlookup, h.fastclasses]
      simp only [List.mem_append, List.mem_singleton, or_and_right, exists_or, LoadItem.loadclass.injEq,
        exists_eq_left]
    · intro k name
      show u.categorytable.lookup k = some name ↔ _
      rw [h.categorytable]
      simp
  | loadmixin info =>
    obtain ⟨-, p, hsuper, hnew, rfl, -, hcategoryids, -, hsummary⟩ := installMixin_eq_ok hitem
    constructor
    · intro r
      rw [hasClass_register, h.classes r]
      simp only [List.mem_append, List.mem_singleton, or_and_right, exists_or, exists_eq_left, hsummary,
        Option.some.injEq]
    · intro c k
      rw [hasCategory_register hcategoryids, h.categories c k]
      simp
    · intro n c
      show u.fastclasses.lookup n = some c ↔ _
      rw [h.fastclasses]
      simp
    · intro k name
      show u.categorytable.lookup k = some name ↔ _
      rw [h.categorytable]
      simp
  | loadcategory info =>
    obtain ⟨-, u₁, i, mixins, htable, hi, rfl, -⟩ := installCategory_eq_ok env hitem
    obtain ⟨-, table, rfl, hlookup⟩ := registerCategory_eq_ok htable
    constructor
    · intro r
      refine (hasClass_modify (u := { u with categorytable := table }) (f := withCategory info mixins)
        (Universe.lookup_eq_some.1 hi).1 fun _ => rfl).trans ?_
      show HasClass u r ↔ _
      rw [h.classes r]
      simp [LoadItem.summary, or_and_right, exists_or]
    · intro c k
      refine (hasCategory_modify (u := { u with categorytable := table }) (f := withCategory info mixins) hi
        fun _ => rfl).trans ?_
      show HasCategory u c k ∨ _ ↔ _
      rw [h.categories c k]
      simp only [List.mem_append, List.mem_singleton, or_and_right, exists_or, LoadItem.loadcategory.injEq,
        exists_eq_left]
    · intro n c
      show u.fastclasses.lookup n = some c ↔ _
      rw [h.fastclasses]
      simp
    · intro k name
      show table.lookup k = some name ↔ _
      rw [hlookup, h.categorytable]
      simp only [List.mem_append, List.mem_singleton, or_and_right, exists_or, LoadItem.loadcategory.injEq,
        exists_eq_left]

end MulleObjcRuntime.Load
