import MulleObjcRuntime.Initialize.Calls
import MulleObjcRuntime.Search.Super

/-!
# Whether +deinitialize mirrors +initialize

The lists whose `+initialize` is called for a class, compared with those whose `+deinitialize` is, when the same lists have
both.  The mixins are called for alike; the class itself is searched with different inheritance flags.

* `Mirrored` — the lists with a `+initialize` are those with a `+deinitialize`;
* `SameFirst` — two walks up the superclasses come upon the same list first;
* `deinitialize_mirrors_iff` — when the same lists are called.
-/

namespace MulleObjcRuntime.Initialize

open Classes Search

variable {P : Type} [DecidableEq P] {g : ClassGraph P}

/-- Only mixins are adopted, and a class that is not a mixin has a superclass that is not one. -/
structure Hierarchy (g : ClassGraph P) : Prop where
  mixins : ∀ p, ∀ q ∈ (g.pair p).mixins, (g.pair q).isMixin = true
  superclass : ∀ p q, (g.pair p).superclass = some q → (g.pair p).isMixin = false → (g.pair q).isMixin = false

/-- The method lists that implement `+initialize` are those that implement `+deinitialize`. -/
def Mirrored (g : ClassGraph P) : Prop :=
  ∀ cls, ∀ list ∈ g.methodlists cls,
    (list.search initializeMethodid).isSome = (list.search deinitializeMethodid).isSome

/-- The first list of a class object that is visible and has a `+initialize`. -/
def firstVisible (g : ClassGraph P) (cls : ClassRef P) (inheritance : ℕ) : Option MethodList :=
  (visibleLists inheritance (g.methodlists cls)).find? fun list => (list.search initializeMethodid).isSome

/-- Two walks from a class object up its superclasses, the first one without mixins: they come upon the same list first, or
upon none. -/
inductive SameFirst (g : ClassGraph P) : ClassRef P → ℕ → ℕ → Prop
  /-- the class object has the list, under the flags of either walk -/
  | here {cls : ClassRef P} {i j : ℕ} {list : MethodList} (hi : firstVisible g cls i = some list)
      (hj : firstVisible g cls j = some list) : SameFirst g cls i j
  /-- neither the class object nor a mixin has one, and the superclasses that only one of the walks goes on to have none -/
  | above {cls : ClassRef P} {i j : ℕ} (hi : firstVisible g cls i = none) (hj : firstVisible g cls j = none)
      (hmixins : implementers initializeMethodid (mixinVisits g cls j) = [])
      (hboth : ∀ s, g.superclass cls = some s → has i dontInheritSuperclass = false →
        has j dontInheritSuperclass = false →
        SameFirst g s (superInheritance g cls s i) (superInheritance g cls s j))
      (hfirst : ∀ s, g.superclass cls = some s → has i dontInheritSuperclass = false →
        has j dontInheritSuperclass = true →
        implementers initializeMethodid (linearization g s (superInheritance g cls s i)) = [])
      (hsecond : ∀ s, g.superclass cls = some s → has i dontInheritSuperclass = true →
        has j dontInheritSuperclass = false →
        implementers initializeMethodid (linearization g s (superInheritance g cls s j)) = []) :
      SameFirst g cls i j

/-- A search comes upon a method, and the first one does not shadow another one although it must not. -/
def Callable (g : ClassGraph P) (cls : ClassRef P) (inheritance methodid : ℕ) : Prop :=
  hits methodid (linearization g cls inheritance) ≠ [] ∧ ¬ Blocked (hits methodid (linearization g cls inheritance))

instance (cls : ClassRef P) (inheritance methodid : ℕ) : Decidable (Callable g cls inheritance methodid) :=
  inferInstanceAs (Decidable (_ ∧ _))

/-- The search for `+deinitialize` comes upon a list that may be called exactly if that for `+initialize` does, and upon
the same one. -/
def FindsAlike (g : ClassGraph P) (p : P) : Prop :=
  (Callable g ⟨p, true⟩ (initializeInheritance g p) initializeMethodid ↔
      Callable g ⟨p, true⟩ (deinitializeInheritance g p) deinitializeMethodid) ∧
    (Callable g ⟨p, true⟩ (initializeInheritance g p) initializeMethodid →
      SameFirst g ⟨p, true⟩ (initializeInheritance g p) (deinitializeInheritance g p))

/-! ## Implementers -/

section Implementers

omit [DecidableEq P]

lemma implementers_append (methodid : ℕ) (path path' : List (Visit P)) :
    implementers methodid (path ++ path') = implementers methodid path ++ implementers methodid path' := by
  simp [implementers, hits]

lemma implementers_visit (methodid : ℕ) (v : Visit P) :
    implementers methodid [v] =
      (v.lists.filter fun list => (list.search methodid).isSome).map fun list => (v.cls, list) := by
  simp only [implementers, hits, List.flatMap_cons, List.flatMap_nil, List.append_nil, Visit.hits]
  induction v.lists with
  | nil => rfl
  | cons list lists ih =>
    cases h : list.search methodid with
    | none => simpa [h] using ih
    | some m => simpa [h] using ih

lemma implementers_cons (methodid : ℕ) (v : Visit P) (path : List (Visit P)) :
    implementers methodid (v :: path) = implementers methodid [v] ++ implementers methodid path :=
  implementers_append methodid [v] path

lemma mem_implementers {methodid : ℕ} {path : List (Visit P)} {c : Called P} (h : c ∈ implementers methodid path) :
    ∃ v ∈ path, v.cls = c.1 ∧ c.2 ∈ v.lists := by
  obtain ⟨hit, hhit, rfl⟩ := List.mem_map.1 h
  obtain ⟨v, hv, hmem⟩ := List.mem_flatMap.1 hhit
  obtain ⟨list, hlist, hsearch⟩ := List.mem_filterMap.1 hmem
  obtain ⟨m, -, rfl⟩ := Option.map_eq_some_iff.1 hsearch
  exact ⟨v, hv, rfl, hlist⟩

lemma head_own (cls : ClassRef P) (inheritance : ℕ) :
    (implementers initializeMethodid [ownVisit g cls inheritance]).head? =
      (firstVisible g cls inheritance).map fun list => (cls, list) := by
  rw [implementers_visit, List.head?_map, List.head?_filter]
  rfl

lemma mem_visibleLists {inheritance : ℕ} {lists : List MethodList} {list : MethodList}
    (h : list ∈ visibleLists inheritance lists) : list ∈ lists := by
  rw [visibleLists, List.mem_reverse] at h
  split at h
  · have h := List.mem_of_mem_drop h
    split at h
    · exact List.mem_of_mem_take h
    · exact h
  · split at h
    · exact List.mem_of_mem_take h
    · exact h

lemma implementers_mirrored (hmirrored : Mirrored g) {path : List (Visit P)}
    (hpath : ∀ v ∈ path, ∀ list ∈ v.lists, list ∈ g.methodlists v.cls) :
    implementers deinitializeMethodid path = implementers initializeMethodid path := by
  induction path with
  | nil => rfl
  | cons v path ih =>
    rw [implementers_cons, implementers_cons initializeMethodid, ih fun w hw => hpath w (List.mem_cons_of_mem v hw),
      implementers_visit, implementers_visit]
    congr 2
    apply List.filter_congr
    intro list hlist
    exact (hmirrored v.cls list (hpath v (by simp) list hlist)).symm

end Implementers

/-! ## Visits -/

lemma lists_of_mem_linearization {cls : ClassRef P} {inheritance : ℕ} {v : Visit P}
    (hv : v ∈ linearization g cls inheritance) : ∀ list ∈ v.lists, list ∈ g.methodlists v.cls := by
  refine mem_linearization (motive := fun _ _ v => ∀ list ∈ v.lists, list ∈ g.methodlists v.cls) ?_ ?_ ?_ hv
  · intro cls inheritance list hlist
    exact mem_visibleLists hlist
  · intro cls inheritance v hv list hlist
    unfold mixinVisits at hv
    split at hv
    · cases hv
    · obtain ⟨proto, -, rfl⟩ := List.mem_map.1 hv
      exact mem_visibleLists hlist
  · intro _ _ _ v _ h
    exact h

lemma rank_of_mem_linearization (hg : Hierarchy g) {cls : ClassRef P} {inheritance : ℕ} {v : Visit P}
    (hv : v ∈ linearization g cls inheritance) : (g.pair v.cls.pair).isMixin = true ∨ g.rank v.cls ≤ g.rank cls := by
  refine mem_linearization (motive := fun cls _ v =>
    (g.pair v.cls.pair).isMixin = true ∨ g.rank v.cls ≤ g.rank cls) ?_ ?_ ?_ hv
  · intro cls inheritance
    exact Or.inr (Nat.le_refl _)
  · intro cls inheritance v hv
    exact Or.inl (hg.mixins _ _ (mem_mixinVisits hv))
  · intro cls supercls _ v hs h
    exact h.imp_right fun h => h.trans (ClassGraph.rank_superclass hs).le

omit [DecidableEq P] in
lemma superclass_not_mixin (hg : Hierarchy g) {cls s : ClassRef P} (hs : g.superclass cls = some s)
    (hcls : (g.pair cls.pair).isMixin = false) : (g.pair s.pair).isMixin = false := by
  rcases superclass_pair hs with h | ⟨-, h⟩
  · exact hg.superclass _ _ h hcls
  · rw [h]
    exact hcls

omit [DecidableEq P] in
lemma superInheritance_keeps {cls s : ClassRef P} {i flag : ℕ} (hsi : has i dontInheritSuperclassInheritance = true)
    (hflag : has i flag = true) : has (superInheritance g cls s i) flag = true := by
  rw [superInheritance, has_or, if_pos hsi, hflag, Bool.true_or]

lemma not_mixin_of_mem_linearization (hg : Hierarchy g) {cls : ClassRef P} {i : ℕ}
    (hp : has i dontInheritProtocols = true) (hsi : has i dontInheritSuperclassInheritance = true)
    (hcls : (g.pair cls.pair).isMixin = false) {v : Visit P} (hv : v ∈ linearization g cls i) :
    (g.pair v.cls.pair).isMixin = false := by
  refine mem_linearization (motive := fun cls i v => has i dontInheritProtocols = true →
    has i dontInheritSuperclassInheritance = true → (g.pair cls.pair).isMixin = false →
      (g.pair v.cls.pair).isMixin = false) ?_ ?_ ?_ hv hp hsi hcls
  · intro cls i _ _ hcls
    exact hcls
  · intro cls i v hv hp
    rw [mixinVisits, if_pos (Or.inl hp)] at hv
    cases hv
  · intro cls s i v hs ih hp hsi hcls
    exact ih (superInheritance_keeps hsi hp) (superInheritance_keeps hsi hsi) (superclass_not_mixin hg hs hcls)

/-! ## The first list on both walks -/

/-- What is found beyond a class object that is no mixin is found elsewhere. -/
lemma not_mem_beyond (hg : Hierarchy g) {cls : ClassRef P} (hcls : (g.pair cls.pair).isMixin = false) {j : ℕ}
    {list : MethodList} :
    (cls, list) ∉ implementers initializeMethodid (mixinVisits g cls j ++ superVisits g cls j) := by
  intro h
  obtain ⟨v, hv, hvcls, -⟩ := mem_implementers h
  rcases List.mem_append.1 hv with hv | hv
  · have := hg.mixins _ _ (mem_mixinVisits hv)
    rw [hvcls, hcls] at this
    cases this
  · unfold superVisits at hv
    rcases hs : g.superclass cls with _ | s
    · rw [hs] at hv
      cases hv
    · rw [hs] at hv
      simp only at hv
      split at hv
      · cases hv
      · have hlt := ClassGraph.rank_superclass hs
        rcases rank_of_mem_linearization hg hv with h | h
        · rw [hvcls, hcls] at h
          cases h
        · rw [hvcls] at h
          exact absurd hlt (Nat.not_lt.2 h)

lemma implementers_linearization (methodid : ℕ) (cls : ClassRef P) (inheritance : ℕ) :
    implementers methodid (linearization g cls inheritance) =
      implementers methodid [ownVisit g cls inheritance] ++
        implementers methodid (mixinVisits g cls inheritance ++ superVisits g cls inheritance) := by
  rw [linearization_visits, implementers_cons]

lemma head_linearization (cls : ClassRef P) (inheritance : ℕ) :
    (implementers initializeMethodid (linearization g cls inheritance)).head? =
      match firstVisible g cls inheritance with
      | some list => some (cls, list)
      | none => (implementers initializeMethodid (mixinVisits g cls inheritance ++ superVisits g cls inheritance)).head? := by
  rw [implementers_linearization, List.head?_append, head_own]
  cases firstVisible g cls inheritance with
  | none => rfl
  | some list => rfl

lemma superVisits_none {cls : ClassRef P} (hs : g.superclass cls = none) (inheritance : ℕ) :
    superVisits g cls inheritance = [] := by
  rw [superVisits, hs]

lemma superVisits_stop {cls : ClassRef P} {inheritance : ℕ} (h : has inheritance dontInheritSuperclass = true) :
    superVisits g cls inheritance = [] := by
  unfold superVisits
  cases g.superclass cls with
  | none => rfl
  | some s => exact if_pos h

lemma superVisits_some {cls s : ClassRef P} (hs : g.superclass cls = some s) {inheritance : ℕ}
    (h : has inheritance dontInheritSuperclass = false) :
    superVisits g cls inheritance = linearization g s (superInheritance g cls s inheritance) := by
  simp [superVisits, hs, h]

/-- A walk that goes on from a class object without mixins and one that finds something in a mixin come upon different lists. -/
lemma head_ne_of_mixins (hg : Hierarchy g) {cls : ClassRef P} (hcls : (g.pair cls.pair).isMixin = false) {i j : ℕ}
    (hp : has i dontInheritProtocols = true) (hsi : has i dontInheritSuperclassInheritance = true)
    (hmixins : implementers initializeMethodid (mixinVisits g cls j) ≠ []) :
    (implementers initializeMethodid (superVisits g cls i)).head? ≠
      (implementers initializeMethodid (mixinVisits g cls j ++ superVisits g cls j)).head? := by
  obtain ⟨c, cs, hc⟩ := List.exists_cons_of_ne_nil hmixins
  rw [implementers_append, hc, List.cons_append, List.head?_cons]
  intro h
  -- the first one is in a mixin
  obtain ⟨v, hv, hvcls, -⟩ := mem_implementers (hc ▸ List.mem_cons_self : c ∈ implementers _ (mixinVisits g cls j))
  have hmixin := hg.mixins _ _ (mem_mixinVisits hv)
  -- the other walk visits none
  obtain ⟨w, hw, hwcls, -⟩ := mem_implementers (List.mem_of_head? h)
  have hclass : (g.pair w.cls.pair).isMixin = false := by
    apply not_mixin_of_mem_linearization hg hp hsi hcls
    rw [linearization_visits]
    exact List.mem_cons_of_mem _ (List.mem_append_right _ hw)
  rw [hwcls, ← hvcls, hmixin] at hclass
  cases hclass

/-- **Two walks come upon the same list first exactly when `SameFirst` says so**, the first one without mixins. -/
lemma sameFirst_iff (hg : Hierarchy g) {cls : ClassRef P} (hcls : (g.pair cls.pair).isMixin = false) {i j : ℕ}
    (hp : has i dontInheritProtocols = true) (hsi : has i dontInheritSuperclassInheritance = true) :
    (implementers initializeMethodid (linearization g cls i)).head? =
        (implementers initializeMethodid (linearization g cls j)).head? ↔ SameFirst g cls i j := by
  induction cls using ClassGraph.superclass_induction g generalizing i j with
  | above cls ih =>
    have hmi : mixinVisits g cls i = [] := if_pos (Or.inl hp)
    have hup : ∀ s, g.superclass cls = some s →
        ((implementers initializeMethodid (linearization g s (superInheritance g cls s i))).head? =
            (implementers initializeMethodid (linearization g s (superInheritance g cls s j))).head? ↔
          SameFirst g s (superInheritance g cls s i) (superInheritance g cls s j)) := fun s hs =>
      ih s hs (superclass_not_mixin hg hs hcls) (superInheritance_keeps hsi hp) (superInheritance_keeps hsi hsi)
    rw [head_linearization, head_linearization, hmi, List.nil_append]
    rcases hi : firstVisible g cls i with _ | list <;> rcases hj : firstVisible g cls j with _ | list'
    · -- neither walk stays with the class object
      by_cases hmixins : implementers initializeMethodid (mixinVisits g cls j) = []
      · rw [implementers_append, hmixins, List.nil_append]
        constructor
        · intro h
          refine .above hi hj hmixins ?_ ?_ ?_
          · intro s hs hidesc hjdesc
            rw [superVisits_some hs hidesc, superVisits_some hs hjdesc] at h
            exact (hup s hs).1 h
          · intro s hs hidesc hjstop
            rw [superVisits_some hs hidesc, superVisits_stop hjstop] at h
            exact List.head?_eq_none_iff.1 h
          · intro s hs histop hjdesc
            rw [superVisits_stop histop, superVisits_some hs hjdesc] at h
            exact List.head?_eq_none_iff.1 h.symm
        · intro h
          cases h with
          | here hi' _ => rw [hi] at hi'; cases hi'
          | above _ _ _ hboth hfirst hsecond =>
            rcases hs : g.superclass cls with _ | s
            · rw [superVisits_none hs, superVisits_none hs]
            rcases hidesc : has i dontInheritSuperclass <;> rcases hjdesc : has j dontInheritSuperclass
            · rw [superVisits_some hs hidesc, superVisits_some hs hjdesc]
              exact (hup s hs).2 (hboth s hs hidesc hjdesc)
            · rw [superVisits_some hs hidesc, superVisits_stop hjdesc, hfirst s hs hidesc hjdesc]
              rfl
            · rw [superVisits_stop hidesc, superVisits_some hs hjdesc, hsecond s hs hidesc hjdesc]
              rfl
            · rw [superVisits_stop hidesc, superVisits_stop hjdesc]
      · constructor
        · intro h
          exact absurd h (head_ne_of_mixins hg hcls hp hsi hmixins)
        · intro h
          cases h with
          | here hi' _ => rw [hi] at hi'; cases hi'
          | above _ _ hmixins' => exact absurd hmixins' hmixins
    · simp only
      constructor
      · intro h
        have hmem := List.mem_of_head? h
        rw [← List.nil_append (superVisits g cls i), ← hmi] at hmem
        exact absurd hmem (not_mem_beyond hg hcls)
      · intro h
        cases h with
        | here hi' _ => rw [hi] at hi'; cases hi'
        | above _ hj' => rw [hj] at hj'; cases hj'
    · simp only
      constructor
      · intro h
        exact absurd (List.mem_of_head? h.symm) (not_mem_beyond hg hcls)
      · intro h
        cases h with
        | here _ hj' => rw [hj] at hj'; cases hj'
        | above hi' => rw [hi] at hi'; cases hi'
    · simp only [Option.some.injEq, Prod.mk.injEq, true_and]
      constructor
      · rintro rfl
        exact .here hi hj
      · intro h
        cases h with
        | here hi' hj' =>
          rw [hi] at hi'
          rw [hj] at hj'
          cases hi'
          cases hj'
          rfl
        | above hi' => rw [hi] at hi'; cases hi'

/-! ## Mixins -/

lemma callMixin_eq (methodid : ℕ) (mixin : P) :
    callMixin g methodid mixin =
      (implementers methodid [ownVisit g ⟨mixin, true⟩ allButDontInheritClass]).head?.toList := by
  unfold callMixin
  rw [callInitializeDeinitialize_eq, linearization_own (by decide) (by decide), if_neg]
  -- one list has one candidate at most
  have hlists : (ownVisit g ⟨mixin, true⟩ allButDontInheritClass).lists.length ≤ 1 := by
    have hcat : has allButDontInheritClass dontInheritCategories = true := by decide
    have hcls : has allButDontInheritClass dontInheritClass = false := by decide
    simp [ownVisit, visibleLists, hcat, hcls]
  have hlen : (hits methodid [ownVisit g ⟨mixin, true⟩ allButDontInheritClass]).length ≤ 1 := by
    rw [hits, List.flatMap_cons, List.flatMap_nil, List.append_nil]
    exact (List.length_filterMap_le _ _).trans hlists
  rintro ⟨first, rest, h, -, hrest⟩
  rw [h, List.length_cons] at hlen
  exact hrest (List.length_eq_zero_iff.1 (by omega))

lemma callMixin_mirrored (hmirrored : Mirrored g) (mixin : P) :
    callMixin g deinitializeMethodid mixin = callMixin g initializeMethodid mixin := by
  rw [callMixin_eq, callMixin_eq, implementers_mirrored hmirrored]
  intro v hv list hlist
  rw [List.mem_singleton.1 hv] at hlist ⊢
  exact mem_visibleLists hlist

lemma guard_bind {α : Type} {p : Prop} [Decidable p] (hp : p) (f : Unit → Option α) : (guard p >>= f) = f () := by
  have : (guard p : Option Unit) = some () := if_pos hp
  rw [this]
  rfl

lemma callMixinsInitialize_succ {fuel : ℕ} {owner : P} (howner : ¬ (g.pair owner).isMixin = true) :
    callMixinsInitialize g (fuel + 1) owner =
      (match (g.pair owner).superclass with
        | none => some []
        | some superclass => callMixinsInitialize g fuel superclass).map
        fun above => above ++ (enumerateMixins g owner).flatMap (callMixin g initializeMethodid) := by
  refine (guard_bind howner _).trans ?_
  cases (g.pair owner).superclass with
  | none => rfl
  | some superclass => exact (Option.map_eq_bind).symm

lemma callMixinsDeinitialize_succ {fuel : ℕ} {owner : P} (howner : ¬ (g.pair owner).isMixin = true) :
    callMixinsDeinitialize g (fuel + 1) owner =
      (match (g.pair owner).superclass with
        | none => some []
        | some superclass => callMixinsDeinitialize g fuel superclass).map
        fun above => (enumerateMixins g owner).reverse.flatMap (callMixin g deinitializeMethodid) ++ above := by
  refine (guard_bind howner _).trans ?_
  cases (g.pair owner).superclass with
  | none => rfl
  | some superclass => exact (Option.map_eq_bind).symm

/-- The mixins are called for alike, in the opposite order. -/
lemma callMixins_perm (hg : Hierarchy g) (hmirrored : Mirrored g) {fuel : ℕ} {owner : P} (hfuel : g.depth owner < fuel)
    (howner : (g.pair owner).isMixin = false) :
    ∃ xs ys, callMixinsInitialize g fuel owner = some xs ∧ callMixinsDeinitialize g fuel owner = some ys ∧ xs.Perm ys := by
  induction fuel generalizing owner with
  | zero => omega
  | succ fuel ih =>
    have hmixin : callMixin g deinitializeMethodid = callMixin g initializeMethodid :=
      funext fun mixin => callMixin_mirrored hmirrored mixin
    have hown : ((enumerateMixins g owner).flatMap (callMixin g initializeMethodid)).Perm
        ((enumerateMixins g owner).reverse.flatMap (callMixin g deinitializeMethodid)) := by
      rw [hmixin]
      exact (List.reverse_perm _).symm.flatMap_right _
    have hguard : ¬ (g.pair owner).isMixin = true := by
      rw [howner]
      exact Bool.false_ne_true
    rcases hs : (g.pair owner).superclass with _ | superclass
    · refine ⟨_, _, ?_, ?_, hown⟩
      · rw [callMixinsInitialize_succ hguard, hs]
        rfl
      · rw [callMixinsDeinitialize_succ hguard, hs]
        simp
    · have hdepth := g.depth_superclass owner superclass hs
      obtain ⟨xs, ys, hxs, hys, hperm⟩ := ih (by omega) (hg.superclass owner superclass hs howner)
      refine ⟨_, _, ?_, ?_, (hperm.append hown).trans List.perm_append_comm⟩
      · rw [callMixinsInitialize_succ hguard, hs]
        simp only [hxs, Option.map_some]
      · rw [callMixinsDeinitialize_succ hguard, hs]
        simp only [hys, Option.map_some]

/-! ## All calls for a class -/

lemma callInitializeDeinitialize_callable (cls : ClassRef P) (inheritance methodid : ℕ) :
    callInitializeDeinitialize g cls inheritance methodid =
      if Callable g cls inheritance methodid then
        (implementers methodid (linearization g cls inheritance)).head?.toList
      else [] := by
  rw [callInitializeDeinitialize_eq]
  by_cases hcallable : Callable g cls inheritance methodid
  · rw [if_pos hcallable, if_neg hcallable.2]
  · rw [if_neg hcallable]
    split
    · rfl
    · rename_i hblocked
      have hnil : hits methodid (linearization g cls inheritance) = [] :=
        not_not.1 fun h => hcallable ⟨h, hblocked⟩
      rw [implementers, hnil]
      rfl

omit [DecidableEq P] in
lemma head_implementers_isSome {methodid : ℕ} {path : List (Visit P)} (h : hits methodid path ≠ []) :
    ∃ c, (implementers methodid path).head? = some c := by
  obtain ⟨hit, rest, hhits⟩ := List.exists_cons_of_ne_nil h
  exact ⟨(hit.cls, hit.list), by rw [implementers, hhits]; rfl⟩

lemma toList_perm_iff {α : Type} {o o' : Option α} : o.toList.Perm o'.toList ↔ o = o' := by
  cases o <;> cases o' <;> simp

/-- The call for the class itself. -/
def ownInitializeCall (g : ClassGraph P) (p : P) : List (Called P) :=
  callInitializeDeinitialize g ⟨p, true⟩ (initializeInheritance g p) initializeMethodid

/-- The call for the class itself when it is over. -/
def ownDeinitializeCall (g : ClassGraph P) (p : P) : List (Called P) :=
  callInitializeDeinitialize g ⟨p, true⟩ (deinitializeInheritance g p) deinitializeMethodid

/-- The class itself is called for alike exactly when the two searches find alike. -/
lemma own_perm_iff (hg : Hierarchy g) (hmirrored : Mirrored g) {p : P} (hp : (g.pair p).isMixin = false) :
    (ownInitializeCall g p).Perm (ownDeinitializeCall g p) ↔ FindsAlike g p := by
  have hprotocols : has (initializeInheritance g p) dontInheritProtocols = true := by
    simp only [initializeInheritance, has_or]
    simp [show has dontInheritProtocols dontInheritProtocols = true by decide]
  have hsuper : has (initializeInheritance g p) dontInheritSuperclassInheritance = true := by
    simp only [initializeInheritance, has_or]
    simp [show has dontInheritSuperclassInheritance dontInheritSuperclassInheritance = true by decide]
  have hclass : (g.pair (⟨p, true⟩ : ClassRef P).pair).isMixin = false := hp
  have hsame := sameFirst_iff hg hclass (j := deinitializeInheritance g p) hprotocols hsuper
  rw [ownInitializeCall, ownDeinitializeCall, callInitializeDeinitialize_callable, callInitializeDeinitialize_callable,
    implementers_mirrored hmirrored fun v hv => lists_of_mem_linearization hv]
  unfold FindsAlike
  rw [← hsame]
  by_cases hi : Callable g ⟨p, true⟩ (initializeInheritance g p) initializeMethodid <;>
    by_cases hj : Callable g ⟨p, true⟩ (deinitializeInheritance g p) deinitializeMethodid
  · rw [if_pos hi, if_pos hj, toList_perm_iff]
    exact ⟨fun h => ⟨⟨fun _ => hj, fun _ => hi⟩, fun _ => h⟩, fun h => h.2 hi⟩
  · obtain ⟨c, hc⟩ := head_implementers_isSome hi.1
    rw [if_pos hi, if_neg hj, hc]
    constructor
    · intro h
      cases h.eq_nil
    · intro h
      exact absurd (h.1.1 hi) hj
  · obtain ⟨c, hc⟩ := head_implementers_isSome hj.1
    rw [implementers_mirrored hmirrored fun v hv => lists_of_mem_linearization hv] at hc
    rw [if_neg hi, if_pos hj, hc]
    constructor
    · intro h
      cases h.nil_eq
    · intro h
      exact absurd (h.1.2 hj) hi
  · rw [if_neg hi, if_neg hj]
    exact ⟨fun _ => ⟨⟨fun h => absurd h hi, fun h => absurd h hj⟩, fun h => absurd h hi⟩, fun _ => .refl _⟩

/-- **The lists called for `+deinitialize` are those called for `+initialize` exactly when the two searches find alike.** -/
theorem deinitialize_mirrors_iff (hg : Hierarchy g) (hmirrored : Mirrored g) {p : P} (hp : (g.pair p).isMixin = false) :
    ∃ xs ys, callInitialize g p = some xs ∧ callDeinitialize g p = some ys ∧ (xs.Perm ys ↔ FindsAlike g p) := by
  obtain ⟨xs, ys, hxs, hys, hperm⟩ := callMixins_perm hg hmirrored (Nat.lt_succ_self (g.depth p)) hp
  have hinit : callInitialize g p = some (ownInitializeCall g p ++ xs) := by
    simp [callInitialize, ownInitializeCall, hp, hxs]
  have hdeinit : callDeinitialize g p = some (ys ++ ownDeinitializeCall g p) := by
    simp [hp, hys, callDeinitialize, ownDeinitializeCall]
  refine ⟨_, _, hinit, hdeinit, ?_⟩
  rw [← own_perm_iff hg hmirrored hp]
  have hswap : (ys ++ ownDeinitializeCall g p).Perm (ownDeinitializeCall g p ++ xs) :=
    List.perm_append_comm.trans (hperm.symm.append_left _)
  constructor
  · intro h
    exact (List.perm_append_right_iff xs).1 (h.trans hswap)
  · intro h
    exact ((List.perm_append_right_iff xs).2 h).trans hswap.symm

/-- A `+deinitialize` and a `+initialize`. -/
def bothMethods (address : ℕ) : List Method :=
  [⟨address, deinitializeMethodid, 0, address⟩, ⟨address + 1, initializeMethodid, 0, address + 1⟩]

lemma sorted_bothMethods (address : ℕ) : Lib.BinarySearch.Sorted Method.methodid (bothMethods address) := by
  simp [Lib.BinarySearch.Sorted, bothMethods, deinitializeMethodid, initializeMethodid]

/-- A list with both methods. -/
def bothList (address : ℕ) : MethodList := ⟨0, bothMethods address, sorted_bothMethods address⟩

/-- A class `2` below a root class `1` that adopts the mixin `0`.  Only the mixin has a `+initialize` and a
`+deinitialize`. -/
def adoptingGraph : ClassGraph ℕ :=
  ClassGraph.ofList
    [ClassGraph.pairOf 3 none [] true ⟨0, [.empty]⟩ ⟨0, [bothList 100]⟩,
      ClassGraph.pairOf 1 none [0] false ⟨0, [.empty]⟩ ⟨0, [.empty]⟩,
      ClassGraph.pairOf 2 (some 1) [] false ⟨0, [.empty]⟩ ⟨0, [.empty]⟩]

lemma hierarchy_adoptingGraph : Hierarchy adoptingGraph where
  mixins := by
    refine ClassGraph.forall_pair_ofList (motive := fun pair => ∀ q ∈ pair.mixins,
      (adoptingGraph.pair q).isMixin = true) ?_ (by decide)
    intro q hq
    cases hq
  superclass := by
    refine ClassGraph.forall_pair_ofList (motive := fun pair => ∀ q, pair.superclass = some q →
      pair.isMixin = false → (adoptingGraph.pair q).isMixin = false) ?_ ?_
    · intro q hq
      cases hq
    · have h : ∀ p < 3, ∀ q ∈ (adoptingGraph.pair p).superclass, (adoptingGraph.pair q).isMixin = false := by decide
      intro p hp q hq _
      exact h p hp q hq

lemma mirrored_adoptingGraph : Mirrored adoptingGraph := by
  rintro ⟨p, isMeta⟩ list hlist
  have h : ∀ list ∈ (adoptingGraph.pair p).infraclass.methodlists ++ (adoptingGraph.pair p).metaclass.methodlists,
      (list.search initializeMethodid).isSome = (list.search deinitializeMethodid).isSome := by
    refine ClassGraph.forall_pair_ofList (motive := fun pair =>
      ∀ list ∈ pair.infraclass.methodlists ++ pair.metaclass.methodlists,
        (list.search initializeMethodid).isSome = (list.search deinitializeMethodid).isSome) ?_ (by decide) p
    intro list hlist
    cases hlist
  cases isMeta
  · exact h list (List.mem_append_left _ hlist)
  · exact h list (List.mem_append_right _ hlist)

/-- The root class finds no method of its own for either call. -/
theorem deinitialize_mirrors_iff_sample :
    ∃ xs ys, callInitialize adoptingGraph 1 = some xs ∧ callDeinitialize adoptingGraph 1 = some ys ∧
      (xs.Perm ys ↔ FindsAlike adoptingGraph 1) :=
  deinitialize_mirrors_iff hierarchy_adoptingGraph mirrored_adoptingGraph rfl

/-- The class itself has no `+initialize`, but `+deinitialize` is called once more for it, with the mixin's. -/
theorem deinitialize_repeats_mixin :
    Hierarchy adoptingGraph ∧ Mirrored adoptingGraph ∧ (adoptingGraph.pair 2).isMixin = false ∧
      ¬ ∃ xs ys, callInitialize adoptingGraph 2 = some xs ∧ callDeinitialize adoptingGraph 2 = some ys ∧ xs.Perm ys := by
  refine ⟨hierarchy_adoptingGraph, mirrored_adoptingGraph, rfl, ?_⟩
  rintro ⟨xs, ys, hxs, hys, hperm⟩
  have hinit : callInitialize adoptingGraph 2 = some [(⟨0, true⟩, bothList 100)] := by decide
  have hdeinit : callDeinitialize adoptingGraph 2 = some [(⟨0, true⟩, bothList 100), (⟨0, true⟩, bothList 100)] := by
    decide
  rw [hinit] at hxs
  rw [hdeinit] at hys
  cases hxs
  cases hys
  exact absurd hperm.length_eq (by decide)

end MulleObjcRuntime.Initialize
