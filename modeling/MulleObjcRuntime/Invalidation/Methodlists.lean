import Mathlib.Data.List.Forall2
import MulleObjcRuntime.Search.Super

/-!
# Adding a method list to a class

* `addMethodlist` — the classes with one method list more;
* `defaultsearchMethod`, `searchForwardmethod` — the searches behind a method lookup;
* `AgreeOn`, `AgreeOn.linearization` — in graphs that agree on some classes their searches make the same visits;
* `defaultsearchMethod_addMethodlist` — a list changes the search for the ids of its methods only.
-/

namespace MulleObjcRuntime.Invalidation

open Classes Search

variable {P : Type} [DecidableEq P]

/-- A class object with one method list more. -/
def addToClass (cls : Classes.Class) (list : MethodList) : Classes.Class :=
  { cls with methodlists := cls.methodlists ++ [list] }

/-- A pair with one method list more. -/
def addToPair (pair : ClassPair P) (isMeta : Bool) (list : MethodList) : ClassPair P :=
  if isMeta then { pair with metaclass := addToClass pair.metaclass list }
  else { pair with infraclass := addToClass pair.infraclass list }

omit [DecidableEq P] in
lemma superclass_addToPair (pair : ClassPair P) (isMeta : Bool) (list : MethodList) :
    (addToPair pair isMeta list).superclass = pair.superclass := by
  cases isMeta <;> rfl

lemma superclass_update (g : ClassGraph P) (cls : ClassRef P) (list : MethodList) (p : P) :
    (Function.update g.pair cls.pair (addToPair (g.pair cls.pair) cls.isMeta list) p).superclass =
      (g.pair p).superclass := by
  by_cases hp : p = cls.pair
  · subst hp
    rw [Function.update_self, superclass_addToPair]
  · rw [Function.update_of_ne hp]

lemma depth_superclass_update (g : ClassGraph P) (cls : ClassRef P) (list : MethodList) (p q : P)
    (h : (Function.update g.pair cls.pair (addToPair (g.pair cls.pair) cls.isMeta list) p).superclass = some q) :
    g.depth q < g.depth p :=
  g.depth_superclass p q (by rwa [superclass_update] at h)

/-- `_mulle_objc_class_add_methodlist_nocache`. -/
def addMethodlist (g : ClassGraph P) (cls : ClassRef P) (list : MethodList) : ClassGraph P where
  pair := Function.update g.pair cls.pair (addToPair (g.pair cls.pair) cls.isMeta list)
  depth := g.depth
  depth_superclass := depth_superclass_update g cls list

/-- `mulle_objc_class_defaultsearch_method` on a class that is set up. -/
def defaultsearchMethod (g : ClassGraph P) (cls : ClassRef P) (methodid : ℕ) : Option Method :=
  (returned (searchMethod g [] cls (.makeDefault methodid) (g.inheritance cls))).map Hit.method

/-! ## What does not change -/

section Unchanged

variable (g : ClassGraph P) (cls : ClassRef P) (list : MethodList)

lemma pair_addMethodlist (p : P) :
    (addMethodlist g cls list).pair p =
      if p = cls.pair then addToPair (g.pair p) cls.isMeta list else g.pair p := by
  unfold addMethodlist
  simp only
  by_cases hp : p = cls.pair
  · subst hp
    rw [Function.update_self, if_pos rfl]
  · rw [Function.update_of_ne hp, if_neg hp]

@[simp]
lemma mixins_addMethodlist (p : P) : ((addMethodlist g cls list).pair p).mixins = (g.pair p).mixins := by
  rw [pair_addMethodlist]
  split
  · unfold addToPair
    split <;> rfl
  · rfl

@[simp]
lemma isMixin_addMethodlist (p : P) : ((addMethodlist g cls list).pair p).isMixin = (g.pair p).isMixin := by
  rw [pair_addMethodlist]
  split
  · unfold addToPair
    split <;> rfl
  · rfl

@[simp]
lemma superclass_addMethodlist (c : ClassRef P) : (addMethodlist g cls list).superclass c = g.superclass c := by
  have h : ((addMethodlist g cls list).pair c.pair).superclass = (g.pair c.pair).superclass :=
    superclass_update g cls list c.pair
  unfold ClassGraph.superclass
  rw [h]

@[simp]
lemma inheritance_addMethodlist (c : ClassRef P) : (addMethodlist g cls list).inheritance c = g.inheritance c := by
  unfold ClassGraph.inheritance ClassGraph.toClass
  rw [pair_addMethodlist]
  by_cases hp : c.pair = cls.pair
  · rw [if_pos hp]
    unfold addToPair addToClass
    cases c.isMeta <;> cases cls.isMeta <;> rfl
  · rw [if_neg hp]

lemma methodlists_addMethodlist (c : ClassRef P) :
    (addMethodlist g cls list).methodlists c =
      if c = cls then g.methodlists c ++ [list] else g.methodlists c := by
  obtain ⟨p, isMeta⟩ := c
  obtain ⟨q, isMeta'⟩ := cls
  unfold ClassGraph.methodlists ClassGraph.toClass
  rw [pair_addMethodlist]
  unfold addToPair addToClass
  by_cases hp : p = q
  · subst hp
    cases isMeta <;> cases isMeta' <;> simp
  · simp [hp]

end Unchanged

/-! ## Searches -/

lemma filterMap_visibleLists {α : Type} {f : MethodList → Option α} {list : MethodList} (hf : f list = none)
    (inheritance : ℕ) (lists : List MethodList) :
    (visibleLists inheritance (lists ++ [list])).filterMap f = (visibleLists inheritance lists).filterMap f := by
  unfold visibleLists
  simp only [List.filterMap_reverse]
  congr 1
  cases lists with
  | nil => cases has inheritance dontInheritCategories <;> cases has inheritance dontInheritClass <;> simp [hf]
  | cons first rest =>
    have hall : (first :: rest ++ [list]).filterMap f = (first :: rest).filterMap f := by
      rw [List.filterMap_append, List.filterMap_cons_none hf, List.filterMap_nil, List.append_nil]
    cases has inheritance dontInheritCategories <;> cases has inheritance dontInheritClass
    · exact hall
    · simp [hf]
    · simp
    · simp

lemma defaultsearchMethod_eq (g : ClassGraph P) (c : ClassRef P) (methodid : ℕ) :
    defaultsearchMethod g c methodid =
      (pick (hits methodid (linearization g c (g.inheritance c)))).map Hit.method := by
  unfold defaultsearchMethod
  rw [(searchMethod_default g c methodid (g.inheritance c)).1.returned_eq]

/-- Two graphs agree on some pairs, and on all that these inherit from and adopt, but for lists without the method. -/
structure AgreeOn (g g' : ClassGraph P) (methodid : ℕ) (S : P → Prop) : Prop where
  closed : ∀ p, S p → (∀ q, (g.pair p).superclass = some q → S q) ∧ ∀ m ∈ (g.pair p).mixins, S m
  classid : ∀ p, S p → (g'.pair p).classid = (g.pair p).classid
  superclass : ∀ p, S p → (g'.pair p).superclass = (g.pair p).superclass
  mixins : ∀ p, S p → (g'.pair p).mixins = (g.pair p).mixins
  isMixin : ∀ p, S p → (g'.pair p).isMixin = (g.pair p).isMixin
  inheritance : ∀ c : ClassRef P, S c.pair → g'.inheritance c = g.inheritance c
  own : ∀ c : ClassRef P, S c.pair → ∀ inheritance,
    (ownVisit g' c inheritance).hits methodid = (ownVisit g c inheritance).hits methodid

/-- Two visits of one class of the pairs come upon the same methods. -/
structure Alike (methodid : ℕ) (S : P → Prop) (v' v : Visit P) : Prop where
  cls : v'.cls = v.cls
  hits : v'.hits methodid = v.hits methodid
  pair : S v.cls.pair

section Alike

variable {methodid : ℕ} {S : P → Prop} {path path' : List (Visit P)}

omit [DecidableEq P] in
lemma hits_of_alike (h : List.Forall₂ (Alike methodid S) path' path) : hits methodid path' = hits methodid path := by
  induction h with
  | nil => rfl
  | cons hv _ ih =>
    unfold hits at ih ⊢
    rw [List.flatMap_cons, List.flatMap_cons, hv.hits, ih]

omit [DecidableEq P] in
lemma behindClass_of_alike {g g' : ClassGraph P} (hclassid : ∀ p, S p → (g'.pair p).classid = (g.pair p).classid)
    (classid : ℕ) (h : List.Forall₂ (Alike methodid S) path' path) :
    List.Forall₂ (Alike methodid S) (behindClass g' classid path') (behindClass g classid path) := by
  induction h with
  | nil => exact List.Forall₂.nil
  | cons hv hpath ih =>
    rename_i v' v path' path
    have hsame : g'.classid v'.cls = g.classid v.cls := by
      rw [hv.cls]
      exact hclassid _ hv.pair
    unfold behindClass at ih ⊢
    rw [Lib.AnchoredChain.after, Lib.AnchoredChain.after, hsame]
    split
    · exact hpath
    · exact ih

end Alike

namespace AgreeOn

variable {g g' : ClassGraph P} {methodid : ℕ} {S : P → Prop} (h : AgreeOn g g' methodid S)

include h

omit [DecidableEq P] in
lemma superclass_eq (c : ClassRef P) (hc : S c.pair) : g'.superclass c = g.superclass c := by
  unfold ClassGraph.superclass
  rw [h.superclass c.pair hc]

omit [DecidableEq P] in
lemma of_superclass {c s : ClassRef P} (hc : S c.pair) (hs : g.superclass c = some s) : S s.pair := by
  rcases superclass_pair hs with hpair | ⟨-, hpair⟩
  · exact (h.closed c.pair hc).1 _ hpair
  · exact hpair ▸ hc

/-- **A search makes the same visits.** -/
lemma linearization (c : ClassRef P) (hc : S c.pair) (inheritance : ℕ) :
    List.Forall₂ (Alike methodid S) (Search.linearization g' c inheritance) (Search.linearization g c inheritance) := by
  induction c using ClassGraph.superclass_induction g generalizing inheritance with
  | above c ih =>
    have hown : ∀ c : ClassRef P, S c.pair → ∀ inheritance,
        Alike methodid S (ownVisit g' c inheritance) (ownVisit g c inheritance) :=
      fun c hc inheritance => ⟨rfl, h.own c hc inheritance, hc⟩
    have hmixins : List.Forall₂ (Alike methodid S) (mixinVisits g' c inheritance) (mixinVisits g c inheritance) := by
      unfold mixinVisits
      rw [h.isMixin c.pair hc, h.mixins c.pair hc]
      split
      · exact List.Forall₂.nil
      · rw [List.forall₂_map_left_iff, List.forall₂_map_right_iff, List.forall₂_same]
        intro proto hproto
        have hS : S proto := (h.closed c.pair hc).2 proto (List.mem_reverse.1 (List.mem_filter.1 hproto).1)
        unfold mixinInheritance
        rw [h.inheritance (mixinRef c proto) hS]
        exact hown (mixinRef c proto) hS _
    have hsuper : List.Forall₂ (Alike methodid S) (superVisits g' c inheritance) (superVisits g c inheritance) := by
      unfold superVisits
      rw [h.superclass_eq c hc]
      cases hs : g.superclass c with
      | none => exact List.Forall₂.nil
      | some s =>
        have hS := h.of_superclass hc hs
        have := ih s hs hS (superInheritance g c s inheritance)
        simp only [superInheritance, h.inheritance s hS] at this ⊢
        split
        · exact List.Forall₂.nil
        · exact this
    rw [linearization_visits, linearization_visits]
    exact List.Forall₂.cons (hown c hc inheritance) (List.rel_append hmixins hsuper)

/-- **A default search finds the same method.** -/
lemma defaultsearchMethod (c : ClassRef P) (hc : S c.pair) :
    defaultsearchMethod g' c methodid = defaultsearchMethod g c methodid := by
  rw [defaultsearchMethod_eq, defaultsearchMethod_eq, h.inheritance c hc,
    hits_of_alike (h.linearization c hc (g.inheritance c))]

/-- **A super search finds the same method.** -/
lemma supersearch (c : ClassRef P) (hc : S c.pair) (classid : ℕ) :
    (returned (searchMethod g' [] c (.makeSuper methodid classid) (g'.inheritance c))).map Hit.method =
      (returned (searchMethod g [] c (.makeSuper methodid classid) (g.inheritance c))).map Hit.method := by
  rw [(searchMethod_super g' c _ methodid classid).returned_eq, (searchMethod_super g c _ methodid classid).returned_eq,
    h.inheritance c hc, hits_of_alike (behindClass_of_alike h.classid classid (h.linearization c hc (g.inheritance c)))]

end AgreeOn

variable (g : ClassGraph P) (cls : ClassRef P) {list : MethodList} {methodid : ℕ}

lemma hits_ownVisit_addMethodlist (hlist : list.search methodid = none) (c : ClassRef P) (inheritance : ℕ) :
    (ownVisit (addMethodlist g cls list) c inheritance).hits methodid = (ownVisit g c inheritance).hits methodid := by
  unfold Visit.hits ownVisit
  simp only [methodlists_addMethodlist]
  by_cases hc : c = cls
  · rw [if_pos hc]
    exact filterMap_visibleLists (by rw [hlist]; rfl) inheritance _
  · rw [if_neg hc]

lemma classid_addMethodlist (p : P) : ((addMethodlist g cls list).pair p).classid = (g.pair p).classid := by
  rw [pair_addMethodlist]
  split
  · unfold addToPair
    split <;> rfl
  · rfl

lemma agreeOn_addMethodlist (hlist : list.search methodid = none) :
    AgreeOn g (addMethodlist g cls list) methodid fun _ => True where
  closed _ _ := ⟨fun _ _ => trivial, fun _ _ => trivial⟩
  classid p _ := classid_addMethodlist g cls p
  superclass p _ := superclass_update g cls list p
  mixins p _ := mixins_addMethodlist g cls list p
  isMixin p _ := isMixin_addMethodlist g cls list p
  inheritance c _ := inheritance_addMethodlist g cls list c
  own c _ := hits_ownVisit_addMethodlist g cls hlist c

/-- **A list changes the search for the ids of its methods only.** -/
theorem defaultsearchMethod_addMethodlist (hlist : ∀ m ∈ list.methods, m.methodid ≠ methodid) (c : ClassRef P) :
    defaultsearchMethod (addMethodlist g cls list) c methodid = defaultsearchMethod g c methodid :=
  (agreeOn_addMethodlist g cls (MethodList.search_eq_none_iff.2 hlist)).defaultsearchMethod c trivial

end MulleObjcRuntime.Invalidation
