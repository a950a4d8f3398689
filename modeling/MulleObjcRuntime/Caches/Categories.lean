import MulleObjcRuntime.Caches.Installing

/-!
# What a category does to the searches

A category adds a method list to a class object, and mixins to its pair.  A search can notice the list if it comes to that
class object before a method ends it, and the mixins if the pair is on its way.

* `comesTo` — the class objects that a search comes to before it ends;
* `Widened`, `Widened.pick_hits` — a way with further visits, and with other lists in some classes, which a search does not
  notice;
* `Widens`, `Widens.linearization` — what a category does to a graph, and to the ways through it;
* `widens_install` — a category that is loaded does it.
-/

namespace MulleObjcRuntime.Caches

open Classes Dispatch Search

/-! ## Ways -/

section Ways

variable {P : Type} {g g' : ClassGraph P} {methodid classid : ℕ} {changed : ClassRef P → Prop} {further : Visit P → Prop}
  {path path' : List (Visit P)}

/-- The class objects a search comes to on its way: a method ends it, unless that must not shadow another one. -/
def comesTo (methodid : ℕ) : List (Visit P) → List (ClassRef P)
  | [] => []
  | v :: path =>
    v.cls :: if ∃ hit ∈ v.hits methodid, hit.method.isHiddenOverrideFatal = false then [] else comesTo methodid path

/-- A way with further visits, and with other methods only in the class objects that have changed. -/
inductive Widened (methodid : ℕ) (changed : ClassRef P → Prop) (further : Visit P → Prop) :
    List (Visit P) → List (Visit P) → Prop
  | nil : Widened methodid changed further [] []
  | visit {v' v : Visit P} {path' path : List (Visit P)} (hcls : v'.cls = v.cls)
      (hhits : ¬ changed v.cls → v'.hits methodid = v.hits methodid) (h : Widened methodid changed further path' path) :
      Widened methodid changed further (v' :: path') (v :: path)
  | further {v' : Visit P} {path' path : List (Visit P)} (hv : further v') (h : Widened methodid changed further path' path) :
      Widened methodid changed further (v' :: path') path

namespace Widened

lemma append {rest rest' : List (Visit P)} (h : Widened methodid changed further path' path)
    (hrest : Widened methodid changed further rest' rest) :
    Widened methodid changed further (path' ++ rest') (path ++ rest) := by
  induction h with
  | nil => exact hrest
  | visit hcls hhits _ ih => exact .visit hcls hhits ih
  | further hv _ ih => exact .further hv ih

lemma prepend {visits : List (Visit P)} (hvisits : ∀ v ∈ visits, further v)
    (h : Widened methodid changed further path' path) : Widened methodid changed further (visits ++ path') path := by
  induction visits with
  | nil => exact h
  | cons v visits ih =>
    obtain ⟨hv, hrest⟩ := List.forall_mem_cons.1 hvisits
    exact .further hv (ih hrest)

lemma behindClass (h : Widened methodid changed further path' path)
    (hclassid : ∀ p, (g'.pair p).classid = (g.pair p).classid) (hfurther : ∀ v, further v → g.classid v.cls ≠ classid) :
    Widened methodid changed further (Search.behindClass g' classid path') (Search.behindClass g classid path) := by
  have hsame : ∀ c, g'.classid c = g.classid c := fun c => hclassid c.pair
  unfold Search.behindClass
  induction h with
  | nil => exact .nil
  | visit hcls _ h ih =>
    rw [Lib.AnchoredChain.after, Lib.AnchoredChain.after, hsame, hcls]
    split
    · exact h
    · exact ih
  | further hv _ ih =>
    rw [Lib.AnchoredChain.after, hsame, if_neg (hfurther _ hv)]
    exact ih

end Widened

lemma pick_append_of_exists {before : List (Hit P)} (h : ∃ hit ∈ before, hit.method.isHiddenOverrideFatal = false)
    (rest : List (Hit P)) : pick (before ++ rest) = pick before := by
  obtain ⟨hit, hmem, hshadows⟩ := h
  cases before with
  | nil => cases hmem
  | cons first before =>
    simp only [List.cons_append, pick]
    by_cases hfatal : first.method.isHiddenOverrideFatal = true
    · have hne : before ≠ [] := by
        rintro rfl
        rw [List.mem_singleton.1 hmem, hfatal] at hshadows
        cases hshadows
      simp [hfatal, hne]
    · simp [hfatal]

/-- **A search that comes to no changed class object settles on the same method.** -/
lemma Widened.pick_hits (h : Widened methodid changed further path' path)
    (hfurther : ∀ v, further v → v.hits methodid = []) (hway : ∀ c ∈ comesTo methodid path, ¬ changed c) :
    pick (hits methodid path') = pick (hits methodid path) := by
  -- along the way, with the methods found so far
  have hfound (before : List (Hit P)) :
      pick (before ++ hits methodid path') = pick (before ++ hits methodid path) := by
    induction h generalizing before with
    | nil => rfl
    | @visit v' v path' path _ hhits _ ih =>
      obtain ⟨hv, hway⟩ := List.forall_mem_cons.1 hway
      unfold hits at ih ⊢
      rw [List.flatMap_cons, List.flatMap_cons, hhits hv, ← List.append_assoc, ← List.append_assoc]
      split at hway
      · rename_i hends
        obtain ⟨hit, hmem, hshadows⟩ := hends
        have hends : ∃ hit ∈ before ++ v.hits methodid, hit.method.isHiddenOverrideFatal = false :=
          ⟨hit, List.mem_append_right before hmem, hshadows⟩
        rw [pick_append_of_exists hends, pick_append_of_exists hends]
      · exact ih hway (before ++ v.hits methodid)
    | @further v' path' path hv _ ih =>
      unfold hits at ih ⊢
      rw [List.flatMap_cons, hfurther v' hv, List.nil_append]
      exact ih hway before
  exact hfound []

end Ways

/-! ## Graphs -/

section Graphs

variable {P : Type} [DecidableEq P] {g g' : ClassGraph P} {i : P} {added : Bool → Option MethodList} {mixins : List P}
  {methodid : ℕ}

/-- A graph in which the class objects of a pair have further method lists, and the pair further mixins. -/
structure Widens (g g' : ClassGraph P) (i : P) (added : Bool → Option MethodList) (mixins : List P) : Prop where
  classid : ∀ p, (g'.pair p).classid = (g.pair p).classid
  superclass : ∀ p, (g'.pair p).superclass = (g.pair p).superclass
  isMixin : ∀ p, (g'.pair p).isMixin = (g.pair p).isMixin
  inheritance : ∀ c, g'.inheritance c = g.inheritance c
  mixins : ∀ p, (g'.pair p).mixins = (g.pair p).mixins ++ if p = i then mixins else []
  methodlists : ∀ c : ClassRef P, g'.methodlists c = g.methodlists c ++ if c.pair = i then (added c.isMeta).toList else []

/-- A class object gets a list with the method. -/
def Gains (i : P) (added : Bool → Option MethodList) (methodid : ℕ) (c : ClassRef P) : Prop :=
  c.pair = i ∧ ∃ list ∈ added c.isMeta, list.search methodid ≠ none

/-- A visit of one of the mixins, with lists it has already. -/
def VisitsMixin (g : ClassGraph P) (mixins : List P) (v : Visit P) : Prop :=
  v.cls.pair ∈ mixins ∧ ∀ list ∈ v.lists, list ∈ g.methodlists v.cls

omit [DecidableEq P] in
lemma mem_of_mem_visibleLists {inheritance : ℕ} {lists : List MethodList} {list : MethodList}
    (h : list ∈ visibleLists inheritance lists) : list ∈ lists := by
  unfold visibleLists at h
  rw [List.mem_reverse] at h
  split at h <;> split at h
  · exact List.mem_of_mem_take (List.mem_of_mem_drop h)
  · exact List.mem_of_mem_drop h
  · exact List.mem_of_mem_take h
  · exact h

namespace Widens

variable (h : Widens g g' i added mixins)

include h

lemma superclass_eq (c : ClassRef P) : g'.superclass c = g.superclass c := by
  unfold ClassGraph.superclass
  rw [h.superclass c.pair]

lemma hits_ownVisit {c : ClassRef P} (hc : ¬ Gains i added methodid c) (inheritance : ℕ) :
    (ownVisit g' c inheritance).hits methodid = (ownVisit g c inheritance).hits methodid := by
  unfold Visit.hits ownVisit
  rw [h.methodlists]
  by_cases hi : c.pair = i
  · rw [if_pos hi]
    cases hadded : added c.isMeta with
    | none => rw [Option.toList_none, List.append_nil]
    | some list =>
      have hnone : list.search methodid = none := by_contra fun hne => hc ⟨hi, list, hadded, hne⟩
      exact Invalidation.filterMap_visibleLists (by rw [hnone]; rfl) inheritance _
  · rw [if_neg hi, List.append_nil]

lemma widened_ownVisit {further : Visit P → Prop} (c : ClassRef P) (inheritance : ℕ) {path path' : List (Visit P)}
    (hrest : Widened methodid (Gains i added methodid) further path' path) :
    Widened methodid (Gains i added methodid) further (ownVisit g' c inheritance :: path')
      (ownVisit g c inheritance :: path) :=
  .visit rfl (fun hc => h.hits_ownVisit hc inheritance) hrest

/-- The mixins of a class object. -/
lemma widened_mixinVisits {c : ClassRef P} {reached : Prop} (hreached : c.pair = i → reached) (inheritance : ℕ) :
    Widened methodid (Gains i added methodid) (fun v => reached ∧ VisitsMixin g mixins v)
      (mixinVisits g' c inheritance) (mixinVisits g c inheritance) := by
  unfold mixinVisits
  rw [h.isMixin, h.mixins, List.reverse_append, List.filter_append, List.map_append]
  split
  · exact .nil
  refine Widened.prepend (fun v hv => ?_) ?_
  · -- the new ones come first
    obtain ⟨proto, hproto, rfl⟩ := List.mem_map.1 hv
    obtain ⟨hproto, hne⟩ := List.mem_filter.1 hproto
    rw [List.mem_reverse] at hproto
    split at hproto
    · rename_i hi
      refine ⟨hreached hi, hproto, fun list hlist => ?_⟩
      have hlist := mem_of_mem_visibleLists hlist
      have hother : (mixinRef c proto).pair ≠ i := fun heq => of_decide_eq_true hne (heq.trans hi.symm)
      rwa [h.methodlists, if_neg hother, List.append_nil] at hlist
    · cases hproto
  · induction List.filter _ (g.pair c.pair).mixins.reverse with
    | nil => exact .nil
    | cons proto protos ih =>
      have hinheritance : mixinInheritance g' c inheritance proto = mixinInheritance g c inheritance proto := by
        unfold mixinInheritance
        rw [h.inheritance]
      rw [List.map_cons, List.map_cons, hinheritance]
      exact h.widened_ownVisit (mixinRef c proto) _ ih

/-- **The way of a search.**  It leads past the new mixins only if the pair was on it. -/
lemma linearization (c : ClassRef P) (inheritance : ℕ) {reached : Prop}
    (hreached : ∀ v ∈ Search.linearization g c inheritance, v.cls.pair = i → reached) :
    Widened methodid (Gains i added methodid) (fun v => reached ∧ VisitsMixin g mixins v)
      (Search.linearization g' c inheritance) (Search.linearization g c inheritance) := by
  induction c using ClassGraph.superclass_induction g generalizing inheritance with
  | above c ih =>
    rw [linearization_visits] at hreached
    obtain ⟨hself, hrest⟩ := List.forall_mem_cons.1 hreached
    rw [linearization_visits, linearization_visits]
    refine h.widened_ownVisit c inheritance ((h.widened_mixinVisits hself inheritance).append ?_)
    unfold superVisits at hrest ⊢
    rw [h.superclass_eq]
    cases hs : g.superclass c with
    | none => exact .nil
    | some s =>
      rw [hs] at hrest
      have hinheritance : superInheritance g' c s inheritance = superInheritance g c s inheritance := by
        unfold superInheritance
        rw [h.inheritance]
      simp only [hinheritance] at hrest ⊢
      split
      · exact .nil
      · rename_i hflag
        rw [if_neg hflag] at hrest
        exact ih s hs _ fun v hv => hrest v (List.mem_append_right _ hv)

end Widens

end Graphs

/-! ## Loading -/

section Load

variable {env : Load.Environment} {u u' : Universe}

/-- The mixins of a category are added behind those of the class. -/
lemma addMixinids_eq_append {mixins mixinids result : List ℕ} (h : Load.addMixinids u mixins mixinids = .ok result) :
    ∃ new, result = mixins ++ new ∧ ∀ proto ∈ new, ∃ mixinid ∈ mixinids, u.lookup mixinid = some proto := by
  induction mixinids generalizing mixins with
  | nil =>
    cases h
    exact ⟨[], (List.append_nil _).symm, fun _ hproto => absurd hproto List.not_mem_nil⟩
  | cons mixinid mixinids ih =>
    unfold Load.addMixinids at h
    split at h
    · cases h
    rename_i proto hproto
    split at h
    · cases h
    obtain ⟨new, rfl, hnew⟩ := ih h
    have hnew : ∀ other ∈ new, ∃ id ∈ mixinid :: mixinids, u.lookup id = some other := by
      intro other hother
      obtain ⟨id, hid, hlookup⟩ := hnew other hother
      exact ⟨id, List.mem_cons_of_mem _ hid, hlookup⟩
    split
    · exact ⟨new, rfl, hnew⟩
    · refine ⟨proto :: new, by rw [List.append_assoc, List.singleton_append], ?_⟩
      exact List.forall_mem_cons.2 ⟨⟨mixinid, List.mem_cons_self, hproto⟩, hnew⟩

lemma inheritance_withCategory (info : Load.LoadCategory) (mixins : List ℕ) (pair : Pair) :
    (Load.withCategory info mixins pair).infraclass.inheritance = pair.infraclass.inheritance ∧
      (Load.withCategory info mixins pair).metaclass.inheritance = pair.metaclass.inheritance := by
  have hadd : ∀ (cls : Classes.Class) (list : Option MethodList),
      (Load.addCategoryMethodlist cls info.categoryid list).inheritance = cls.inheritance := by
    intro cls list
    unfold Load.addCategoryMethodlist
    cases list with
    | none => rfl
    | some list =>
      simp only
      split <;> rfl
  exact ⟨hadd pair.infraclass info.instancemethods, hadd pair.metaclass info.classmethods⟩

/-- A pair with one category more. -/
lemma widens_withCategory {info : Load.LoadCategory} {i : ℕ} {mixins : List ℕ}
    (hpair : ∀ j, u'.pair j = if j = i then Load.withCategory info ((u.pair i).mixins ++ mixins) (u.pair i) else u.pair j) :
    Widens u.graph u'.graph i info.methodlist mixins := by
  have hsame : ∀ {α : Type} (f : ClassPair ℕ → α),
      (∀ mixins (pair : Pair), f (Load.withCategory info mixins pair).toClassPair = f pair.toClassPair) →
        ∀ j, f (u'.graph.pair j) = f (u.graph.pair j) := by
    intro α f hf j
    rw [Universe.graph_pair, Universe.graph_pair, hpair]
    split
    · rename_i hj
      rw [hj, hf]
    · rfl
  refine ⟨hsame ClassPair.classid fun _ _ => rfl, hsame ClassPair.superclass fun _ _ => rfl,
    hsame ClassPair.isMixin fun _ _ => rfl, fun c => ?_, fun j => ?_, fun c => ?_⟩
  · obtain ⟨j, isMeta⟩ := c
    unfold ClassGraph.inheritance ClassGraph.toClass
    cases isMeta with
    | false =>
      exact hsame (fun pair => pair.infraclass.inheritance) (fun m pair => (inheritance_withCategory info m pair).1) j
    | true =>
      exact hsame (fun pair => pair.metaclass.inheritance) (fun m pair => (inheritance_withCategory info m pair).2) j
  · rw [Universe.graph_pair, Universe.graph_pair, hpair]
    split
    · rename_i hj
      rw [hj]
      rfl
    · exact (List.append_nil _).symm
  · obtain ⟨j, isMeta⟩ := c
    rw [Universe.graph_methodlists, Universe.graph_methodlists, hpair]
    by_cases hj : j = i
    · rw [if_pos hj, if_pos hj, Load.methodlists_withCategory, hj]
    · rw [if_neg hj, if_neg hj, List.append_nil]

/-- **A category that is loaded** adds its lists and mixins to the pair of its class. -/
lemma widens_install {info : Load.LoadCategory} (h : (Load.LoadItem.loadcategory info).install env u = .ok u') :
    ∃ i mixins, u.lookup info.classid = some i ∧
      (∀ proto ∈ mixins, ∃ mixinid ∈ info.mixinids, u.lookup mixinid = some proto) ∧
      Widens u.graph u'.graph i info.methodlist mixins := by
  obtain ⟨-, u₁, i, mixins, htable, hi, rfl, hmixins⟩ := Load.installCategory_eq_ok env h
  obtain ⟨-, table, rfl, -⟩ := Load.registerCategory_eq_ok htable
  obtain ⟨new, rfl, hnew⟩ := addMixinids_eq_append hmixins
  have hlt : i < ({ u with categorytable := table } : Universe).pairs.length := (Universe.lookup_eq_some.1 hi).1
  refine ⟨i, new, hi, hnew, @widens_withCategory u _ info i new fun j => ?_⟩
  rw [Universe.pair_modify hlt]
  rfl

end Load

end MulleObjcRuntime.Caches
