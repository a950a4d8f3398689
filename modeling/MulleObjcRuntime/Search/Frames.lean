import MulleObjcRuntime.Search.Scan

/-!
# The frames of the search return what the scan says

One lemma for each function of the search, from the method lists of a class object to the mutual recursion:

* `searchMethodlists_visible` — the loop with its check for the last list runs over the visible lists;
* `searchSuperclass_cases`, `nextClass_cases` — all that a frame can do behind its own method lists;
* `searchMixins_settles`, `searchSuperclass_settles`, `nextClass_settles`, `searchFrame_settles`;
* `searchMethodInternal_settles` — the recursion, by induction on its depth.
-/

namespace MulleObjcRuntime.Search

open Classes

variable {P : Type} [DecidableEq P] {search : SearchArguments P} {g : ClassGraph P} {cls : ClassRef P}
  {found : Option Method} {inheritance : ℕ} {st : SearchState P}

/-! ## The visible lists -/

section Visible

omit [DecidableEq P]

lemma countMethod_inheritance (hcb : search.callback = none) {list : MethodList} {method : Method}
    {found' : Option Method} {i : ℕ} {st' : SearchState P}
    (h : countMethod search cls found inheritance list method st = .next found' i st') : i = inheritance := by
  rw [countMethod_eq hcb] at h
  unfold keepMethod at h
  split at h
  · cases h
  · split at h <;> cases h
    rfl

lemma searchMethodlist_inheritance (hcb : search.callback = none) {list : MethodList}
    {found' : Option Method} {i : ℕ} {st' : SearchState P}
    (h : searchMethodlist g search cls found inheritance list st = .next found' i st') : i = inheritance := by
  have hlook : ∀ st : SearchState P,
      lookInMethodlist g search cls found inheritance list st = .next found' i st' → i = inheritance := by
    intro st h
    unfold lookInMethodlist at h
    repeat' split at h
    all_goals first
      | exact countMethod_inheritance hcb h
      | (cases h; try rfl)
  unfold searchMethodlist at h
  repeat' split at h
  all_goals first
    | exact hlook _ h
    | (cases h; rfl)

lemma searchMethodlists_unbroken (hcb : search.callback = none)
    (hcls : has inheritance dontInheritClass = false) (n : ℕ) (lists : List MethodList) (i j : ℕ) :
    searchMethodlists g search cls n lists i found inheritance st =
      searchMethodlists g search cls 0 lists j found inheritance st := by
  induction lists generalizing i j found st with
  | nil => rfl
  | cons list rest ih =>
    rw [searchMethodlists_cons, searchMethodlists, if_neg (by simp [hcls])]
    cases hl : searchMethodlist g search cls found inheritance list st with
    | ret o st => rfl
    | next found' i' st' =>
      obtain rfl := searchMethodlist_inheritance hcb hl
      exact ih (i + 1) (j + 1)

/-- Under `DONT_INHERIT_CLASS` the last list enumerated is left out. -/
lemma searchMethodlists_break (hcb : search.callback = none)
    (hcls : has inheritance dontInheritClass = true) (n : ℕ) (lists : List MethodList) (i j : ℕ)
    (hn : i + lists.length = n) :
    searchMethodlists g search cls n lists i found inheritance st =
      searchMethodlists g search cls 0 lists.dropLast j found inheritance st := by
  induction lists generalizing i j found st with
  | nil => rfl
  | cons list rest ih =>
    cases rest with
    | nil =>
      rw [searchMethodlists, if_pos ⟨hcls, by simpa using hn⟩]
      rfl
    | cons list2 rest =>
      simp only [List.length_cons] at hn
      rw [List.dropLast_cons_cons, searchMethodlists_cons, searchMethodlists, if_neg (by omega)]
      cases hl : searchMethodlist g search cls found inheritance list st with
      | ret o st => rfl
      | next found' i' st' =>
        obtain rfl := searchMethodlist_inheritance hcb hl
        exact ih (i + 1) (j + 1) (by simp only [List.length_cons]; omega)

/-- **The loop runs over the visible lists.** -/
lemma searchMethodlists_visible (hcb : search.callback = none) :
    searchMethodlists g search cls (enumeratedCount g cls inheritance)
        ((g.methodlists cls).take (enumeratedCount g cls inheritance)).reverse 0 found inheritance st =
      searchMethodlists g search cls 0 (visibleLists inheritance (g.methodlists cls)) 0 found inheritance st := by
  unfold enumeratedCount visibleLists
  generalize g.methodlists cls = lists
  have hlists : lists.take lists.length = lists := List.take_length
  cases hcls : has inheritance dontInheritClass with
  | false =>
    simp only [Bool.false_eq_true, if_false]
    split
    · exact searchMethodlists_unbroken hcb hcls _ _ _ _
    · rw [hlists]
      exact searchMethodlists_unbroken hcb hcls _ _ _ _
  | true =>
    simp only [if_true, List.drop_one, ← List.dropLast_reverse]
    split
    · cases lists with
      | nil => rfl
      | cons list rest => exact searchMethodlists_break hcb hcls _ _ _ _ (by simp)
    · rw [hlists]
      exact searchMethodlists_break hcb hcls _ _ _ _ (by simp)

end Visible

/-! ## Mixins and superclass -/

section Frames

variable {frame : Frame P}

omit [DecidableEq P] in
lemma settles_nil (search : SearchArguments P) (g : ClassGraph P) (found : Option Method) (st : SearchState P) :
    Settles found st (scan search g st.mode []) (.ofFound found, st) := by
  cases found <;> simp [Settles, scan, Outcome.ofFound]

lemma searchMixins_cons (hcb : search.callback = none) (proto : P) (rest : List P) :
    searchMixins g search frame cls inheritance (proto :: rest) found st =
      if proto = cls.pair then searchMixins g search frame cls inheritance rest found st
      else
        mergeMethod found
          (frame (mixinRef cls proto) (inheritance ||| g.inheritance (mixinRef cls proto)) st)
          fun found st => searchMixins g search frame cls inheritance rest found st := by
  rw [searchMixins]
  simp only [hcb, mergeMethod, mixinRef]

/-- The mixins are scanned one after the other. -/
lemma searchMixins_settles (hcb : search.callback = none)
    (hframe : ∀ proto st, Plain st.mode →
      Settles none st
        (scan search g st.mode [ownVisit g (mixinRef cls proto)
          (inheritance ||| g.inheritance (mixinRef cls proto))])
        (frame (mixinRef cls proto) (inheritance ||| g.inheritance (mixinRef cls proto)) st))
    (mixins : List P) (found : Option Method) (st : SearchState P) (hready : Ready found st.mode) :
    Settles found st
      (scan search g st.mode ((mixins.filter (· ≠ cls.pair)).map fun proto =>
        ownVisit g (mixinRef cls proto) (inheritance ||| g.inheritance (mixinRef cls proto))))
      (searchMixins g search frame cls inheritance mixins found st) := by
  induction mixins generalizing found st with
  | nil => exact settles_nil _ _ _ _
  | cons proto rest ih =>
    rw [searchMixins_cons hcb]
    by_cases hp : proto = cls.pair
    · simp only [hp, ne_eq, not_true_eq_false, decide_false, Bool.false_eq_true, not_false_eq_true,
        List.filter_cons_of_neg, if_true]
      exact ih found st hready
    · rw [if_neg hp, List.filter_cons_of_pos (by simpa using hp), List.map_cons, ← List.singleton_append]
      exact mergeMethod_settles hready (hframe proto st hready.1) fun found st h => ih found st h

/-- The visits of the superclass, when the search goes on to it. -/
def superVisits (g : ClassGraph P) (cls : ClassRef P) (inheritance : ℕ) : List (Visit P) :=
  match g.superclass cls with
  | none => []
  | some supercls =>
    if has inheritance dontInheritSuperclass then []
    else linearization g supercls (superInheritance g cls supercls inheritance)

/-- The inheritance the superclass is searched with, as the source computes it. -/
def searchInheritance (g : ClassGraph P) (cls supercls : ClassRef P) (inheritance : ℕ) : ℕ :=
  let inheritance := inheritanceForSuper g cls supercls inheritance
  if has inheritance dontInheritSuperclassInheritance then inheritance else g.inheritance supercls

section Superclass

omit [DecidableEq P]

variable {α : Type} {x : α} {f : ClassRef P → α}

lemma superclass_skipped (h : g.superclass cls = none ∨ has inheritance dontInheritSuperclass = true) :
    (match g.superclass cls with
      | none => x
      | some supercls => if has inheritance dontInheritSuperclass then x else f supercls) = x := by
  rcases h with h | h
  · rw [h]
  · cases g.superclass cls with
    | none => rfl
    | some supercls => exact if_pos h

lemma superclass_taken {supercls : ClassRef P} (hs : g.superclass cls = some supercls)
    (hi : has inheritance dontInheritSuperclass = false) :
    (match g.superclass cls with
      | none => x
      | some supercls => if has inheritance dontInheritSuperclass then x else f supercls) = f supercls := by
  simp only [hs, hi, Bool.false_eq_true, if_false]

end Superclass

omit [DecidableEq P] in
lemma searchSuperclass_cases (g : ClassGraph P) (frame : Frame P) (cls : ClassRef P) (found : Option Method)
    (inheritance : ℕ) (st : SearchState P) :
    (g.superclass cls = none ∨ has inheritance dontInheritSuperclass = true) ∧
        searchSuperclass g frame cls found inheritance st = (.ofFound found, st) ∨
      ∃ supercls, g.superclass cls = some supercls ∧ has inheritance dontInheritSuperclass = false ∧
        searchSuperclass g frame cls found inheritance st =
          mergeMethod found (frame supercls (searchInheritance g cls supercls inheritance) st)
            fun found st => (.ofFound found, st) := by
  unfold searchSuperclass
  cases g.superclass cls with
  | none => exact Or.inl ⟨Or.inl rfl, rfl⟩
  | some supercls =>
    cases has inheritance dontInheritSuperclass with
    | true => exact Or.inl ⟨Or.inr rfl, rfl⟩
    | false => exact Or.inr ⟨supercls, rfl, rfl, rfl⟩

lemma superVisits_eq_nil (h : g.superclass cls = none ∨ has inheritance dontInheritSuperclass = true) :
    superVisits g cls inheritance = [] := superclass_skipped h

lemma superVisits_eq {supercls : ClassRef P} (hs : g.superclass cls = some supercls)
    (hi : has inheritance dontInheritSuperclass = false) :
    superVisits g cls inheritance = linearization g supercls (superInheritance g cls supercls inheritance) :=
  superclass_taken hs hi

lemma searchSuperclass_settles
    (hframe : ∀ supercls, g.superclass cls = some supercls → has inheritance dontInheritSuperclass = false →
      ∀ st, Plain st.mode →
        Settles none st
          (scan search g st.mode (linearization g supercls (superInheritance g cls supercls inheritance)))
          (frame supercls (searchInheritance g cls supercls inheritance) st))
    (hready : Ready found st.mode) :
    Settles found st (scan search g st.mode (superVisits g cls inheritance))
      (searchSuperclass g frame cls found inheritance st) := by
  rcases searchSuperclass_cases g frame cls found inheritance st with ⟨hno, heq⟩ | ⟨supercls, hs, hi, heq⟩
  · rw [heq, superVisits_eq_nil hno]
    exact settles_nil _ _ _ _
  · rw [heq, superVisits_eq hs hi, ← List.append_nil (linearization _ _ _)]
    exact mergeMethod_settles hready (hframe supercls hs hi st hready.1) fun found st _ => settles_nil _ _ _ _

/-- The inheritance `protocolSearchMethod` gives its mixins, before their own is added. -/
def mixinFlags (inheritance : ℕ) : ℕ :=
  (if has inheritance dontInheritProtocolCategories then dontInheritCategories else 0) |||
    (dontInheritSuperclass ||| dontInheritSuperclassInheritance ||| dontInheritProtocols)

lemma has_mixinFlags_protocols (inheritance i : ℕ) :
    has (mixinFlags inheritance ||| i) dontInheritProtocols = true := by
  simp [mixinFlags, has_or, (by decide : has dontInheritProtocols dontInheritProtocols = true)]

lemma has_mixinFlags_superclass (inheritance i : ℕ) :
    has (mixinFlags inheritance ||| i) dontInheritSuperclass = true := by
  simp [mixinFlags, has_or, (by decide : has dontInheritSuperclass dontInheritSuperclass = true)]

omit [DecidableEq P] in
lemma ownVisit_mixinFlags (ref : ClassRef P) :
    ownVisit g ref (mixinFlags inheritance ||| g.inheritance ref) =
      ownVisit g ref ((if has inheritance dontInheritProtocolCategories then dontInheritCategories else 0) |||
        g.inheritance ref) := by
  unfold ownVisit mixinFlags
  rw [visibleLists_congr]
  · simp [has_or, (by decide : has dontInheritSuperclass dontInheritCategories = false),
      (by decide : has dontInheritSuperclassInheritance dontInheritCategories = false),
      (by decide : has dontInheritProtocols dontInheritCategories = false)]
  · simp [has_or, (by decide : has dontInheritSuperclass dontInheritClass = false),
      (by decide : has dontInheritSuperclassInheritance dontInheritClass = false),
      (by decide : has dontInheritProtocols dontInheritClass = false)]

lemma nextClass_cases (search : SearchArguments P) (g : ClassGraph P) (frame : Frame P) (cls : ClassRef P)
    (found : Option Method) (inheritance : ℕ) (st : SearchState P) :
    (has inheritance dontInheritProtocols = true ∨ (g.pair cls.pair).isMixin = true) ∧
        nextClass g search frame cls found inheritance st = searchSuperclass g frame cls found inheritance st ∨
      has inheritance dontInheritProtocols = false ∧ (g.pair cls.pair).isMixin = false ∧
        nextClass g search frame cls found inheritance st =
          mergeMethod found
            (searchMixins g search frame cls (mixinFlags inheritance) (g.pair cls.pair).mixins.reverse none st)
            fun found st => searchSuperclass g frame cls found inheritance st := by
  unfold nextClass protocolSearchMethod
  cases has inheritance dontInheritProtocols with
  | true => exact Or.inl ⟨Or.inl rfl, rfl⟩
  | false =>
    cases (g.pair cls.pair).isMixin with
    | true => exact Or.inl ⟨Or.inr rfl, rfl⟩
    | false => exact Or.inr ⟨rfl, rfl, rfl⟩

lemma mixinVisits_eq_nil (h : has inheritance dontInheritProtocols = true ∨ (g.pair cls.pair).isMixin = true) :
    mixinVisits g cls inheritance = [] := if_pos h

lemma mixinVisits_eq (hp : has inheritance dontInheritProtocols = false) (hm : (g.pair cls.pair).isMixin = false) :
    mixinVisits g cls inheritance = ((g.pair cls.pair).mixins.reverse.filter (· ≠ cls.pair)).map fun proto =>
      ownVisit g (mixinRef cls proto) (mixinFlags inheritance ||| g.inheritance (mixinRef cls proto)) := by
  simp only [mixinVisits, hp, hm, Bool.false_eq_true, or_self, if_false, ownVisit_mixinFlags]
  rfl

/-- **The continuation of a frame** scans the mixins and then the superclass. -/
lemma nextClass_settles (hcb : search.callback = none)
    (hmixin : has inheritance dontInheritProtocols = false → ∀ proto st, Plain st.mode →
      Settles none st
        (scan search g st.mode [ownVisit g (mixinRef cls proto)
          (mixinFlags inheritance ||| g.inheritance (mixinRef cls proto))])
        (frame (mixinRef cls proto) (mixinFlags inheritance ||| g.inheritance (mixinRef cls proto)) st))
    (hsuper : ∀ supercls, g.superclass cls = some supercls → has inheritance dontInheritSuperclass = false →
      ∀ st, Plain st.mode →
        Settles none st
          (scan search g st.mode (linearization g supercls (superInheritance g cls supercls inheritance)))
          (frame supercls (searchInheritance g cls supercls inheritance) st))
    (hready : Ready found st.mode) :
    Settles found st (scan search g st.mode (mixinVisits g cls inheritance ++ superVisits g cls inheritance))
      (nextClass g search frame cls found inheritance st) := by
  rcases nextClass_cases search g frame cls found inheritance st with ⟨hno, heq⟩ | ⟨hp, hm, heq⟩
  · rw [heq, mixinVisits_eq_nil hno]
    exact searchSuperclass_settles hsuper hready
  · rw [heq, mixinVisits_eq hp hm]
    have hmixins := searchMixins_settles hcb (hmixin hp) (g.pair cls.pair).mixins.reverse none st (ready_none hready.1)
    exact mergeMethod_settles hready hmixins fun found st h => searchSuperclass_settles hsuper h

/-! ## One frame -/

lemma searchClass_settles (st : SearchState P) (hcb : search.callback = none)
    (hnext : ∀ found st, Settled st.mode →
      Settles found st (scan search g st.mode (mixinVisits g cls inheritance ++ superVisits g cls inheritance))
        (nextClass g search frame cls found inheritance st))
    {lists : List MethodList} {i : ℕ} (hm : Settled st.mode) :
    Settles none st
      ⟨st.mode, counted search g st.mode cls lists ++ (scan search g st.mode
        (mixinVisits g cls inheritance ++ superVisits g cls inheritance)).hits, false⟩
      ((searchMethodlists g search cls 0 lists i none inheritance st).andThen
        (afterMethodlists g search frame cls)) := by
  refine searchMethodlists_settles search g cls inheritance hcb hm (fun found' st' hst => ?_) lists i none st rfl
  have hm' : Settled st'.mode := hst ▸ hm
  rw [afterMethodlists, if_neg hm'.ne.1]
  have := hnext found' st' hm'
  rw [scan_settled hm', hst] at this
  rwa [scan_settled hm]

lemma searchClass_eq (hcb : search.callback = none) (hstop : g.classid cls ≠ search.stopClassid) :
    searchClass g search frame cls inheritance st =
      (searchMethodlists g search cls 0 (visibleLists inheritance (g.methodlists cls)) 0 none inheritance
        st).andThen (afterMethodlists g search frame cls) := by
  unfold searchClass
  rw [if_neg hstop]
  simp only [searchMethodlists_visible hcb]
  cases searchMethodlists g search cls 0 _ 0 none inheritance st <;> rfl

/-- **One frame** scans its own class object, the mixins and the superclass. -/
lemma searchFrame_settles (hcb : search.callback = none) (hstop : search.stopClassid = 0)
    (hnext : ∀ found st, Ready found st.mode →
      Settles found st (scan search g st.mode (mixinVisits g cls inheritance ++ superVisits g cls inheritance))
        (nextClass g search frame cls found inheritance st))
    (hm : Plain st.mode) :
    Settles none st
      (scan search g st.mode
        (ownVisit g cls inheritance :: (mixinVisits g cls inheritance ++ superVisits g cls inheritance)))
      (searchFrame g search frame cls inheritance st) := by
  have hsettled : ∀ found st, Settled st.mode →
      Settles found st (scan search g st.mode (mixinVisits g cls inheritance ++ superVisits g cls inheritance))
        (nextClass g search frame cls found inheritance st) := fun found st h => hnext found st (h.ready found)
  have hne : g.classid cls ≠ search.stopClassid := by
    rw [hstop]
    exact ClassGraph.classid_ne_zero
  obtain ⟨mode, error, result, reports⟩ := st
  simp only at hm ⊢
  cases hm with
  | settled hm =>
    have hframe : searchFrame g search frame cls inheritance ⟨mode, error, result, reports⟩ =
        searchClass g search frame cls inheritance ⟨mode, error, result, reports⟩ := by
      cases hm <;> rfl
    rw [hframe, searchClass_eq hcb hne, scan, scanVisit_settled hm, Scan.settled_andThen hm]
    exact searchClass_settles _ hcb hsettled hm
  | superMethod =>
    -- the class object is skipped, whether it is the anchor or not
    simp only [searchFrame]
    rw [scan, ownVisit, scanVisit_super]
    by_cases hc : search.classid = g.classid cls
    · rw [if_pos hc, if_pos hc, Scan.empty_andThen]
      exact hnext none ⟨.superMethod2, error, result, reports⟩
        (Settled.superMethod2.ready none)
    · rw [if_neg hc, if_neg hc, Scan.empty_andThen]
      exact hnext none ⟨.superMethod, error, result, reports⟩ (ready_none .superMethod)
  | overriddenMethod =>
    simp only [searchFrame]
    rw [scan, ownVisit, scanVisit_overridden]
    by_cases hc : search.classid = g.classid cls
    · rw [if_pos hc, if_pos hc, searchClass_eq hcb hne, searchMethodlists_overridden _ _ rfl]
      cases ha : afterCategory search.categoryid (visibleLists inheritance (g.methodlists cls)) with
      | none => simp [ListStep.andThen, afterMethodlists, Scan.andThen, Settles]
      | some rest =>
        have hm3 := Settled.overriddenMethod3
        simp only [Scan.settled_andThen hm3]
        exact searchClass_settles ⟨.overriddenMethod3, error, result, reports⟩ hcb hsettled hm3
    · rw [if_neg hc, if_neg hc, Scan.empty_andThen]
      exact hnext none ⟨.overriddenMethod, error, result, reports⟩ (ready_none .overriddenMethod)

end Frames

/-! ## The recursion -/

lemma linearization_visits (g : ClassGraph P) (cls : ClassRef P) (inheritance : ℕ) :
    linearization g cls inheritance =
      ownVisit g cls inheritance :: (mixinVisits g cls inheritance ++ superVisits g cls inheritance) :=
  linearization_eq g cls inheritance

/-- What holds of a class object, of its mixins and of what its superclass leads to, holds of every visit. -/
lemma mem_linearization {motive : ClassRef P → ℕ → Visit P → Prop}
    (own : ∀ cls inheritance, motive cls inheritance (ownVisit g cls inheritance))
    (mixin : ∀ cls inheritance, ∀ v ∈ mixinVisits g cls inheritance, motive cls inheritance v)
    (above : ∀ cls supercls inheritance v, g.superclass cls = some supercls →
      motive supercls (superInheritance g cls supercls inheritance) v → motive cls inheritance v) {v : Visit P}
    (hv : v ∈ linearization g cls inheritance) : motive cls inheritance v := by
  induction cls using ClassGraph.superclass_induction g generalizing inheritance with
  | above cls ih =>
    rw [linearization_visits] at hv
    rcases List.mem_cons.1 hv with rfl | hv
    · exact own cls inheritance
    · rcases List.mem_append.1 hv with hv | hv
      · exact mixin cls inheritance v hv
      · unfold superVisits at hv
        rcases hs : g.superclass cls with _ | supercls
        · rw [hs] at hv
          cases hv
        · rw [hs] at hv
          simp only at hv
          split at hv
          · cases hv
          · exact above cls supercls inheritance v hs (ih supercls hs hv)

lemma linearization_own (hp : has inheritance dontInheritProtocols = true)
    (hs : has inheritance dontInheritSuperclass = true) :
    linearization g cls inheritance = [ownVisit g cls inheritance] := by
  rw [linearization_visits, mixinVisits, if_pos (Or.inl hp), superVisits]
  cases g.superclass cls with
  | none => rfl
  | some supercls => simp [hs]

lemma linearization_mixin (i : ℕ) (ref : ClassRef P) :
    linearization g ref (mixinFlags i ||| g.inheritance ref) = [ownVisit g ref (mixinFlags i ||| g.inheritance ref)] :=
  linearization_own (has_mixinFlags_protocols i _) (has_mixinFlags_superclass i _)

lemma linearization_congr {i j : ℕ} (hroot : g.superclass cls = none)
    (hcat : has i dontInheritCategories = has j dontInheritCategories)
    (hcls : has i dontInheritClass = has j dontInheritClass) (hpi : has i dontInheritProtocols = true)
    (hpj : has j dontInheritProtocols = true) : linearization g cls i = linearization g cls j := by
  have hown : ownVisit g cls i = ownVisit g cls j := by
    unfold ownVisit
    rw [visibleLists_congr hcat hcls]
  rw [linearization_visits, linearization_visits, mixinVisits, mixinVisits, if_pos (Or.inl hpi),
    if_pos (Or.inl hpj), superVisits, superVisits, hroot, hown]

omit [DecidableEq P] in
lemma superclass_root {supercls : ClassRef P} (hs : g.superclass cls = some supercls)
    (hmeta : cls.isMeta = true) (hinfra : supercls.isMeta = false) : g.superclass supercls = none := by
  obtain ⟨p, isMeta⟩ := cls
  simp only at hmeta
  subst hmeta
  unfold ClassGraph.superclass at hs ⊢
  cases hq : (g.pair p).superclass with
  | some q =>
    simp only [hq] at hs
    cases hs
    cases hinfra
  | none =>
    simp only [hq] at hs
    cases hs
    simp [hq]

/-- The source passes on more flags than matter. -/
lemma linearization_searchInheritance {supercls : ClassRef P} (hs : g.superclass cls = some supercls) :
    linearization g supercls (searchInheritance g cls supercls inheritance) =
      linearization g supercls (superInheritance g cls supercls inheritance) := by
  unfold searchInheritance inheritanceForSuper superInheritance
  by_cases hwrap : has inheritance dontInheritProtocolMeta = true ∧ cls.isMeta = true ∧ supercls.isMeta = false
  · rw [if_pos hwrap, if_pos hwrap]
    have hroot := superclass_root hs hwrap.2.1 hwrap.2.2
    cases hi : has inheritance dontInheritSuperclassInheritance with
    | true =>
      simp only [if_true, has_or, hi, Bool.true_or]
      refine linearization_congr hroot ?_ ?_ ?_ ?_ <;>
        simp [has_or, (by decide : has dontInheritProtocolMeta dontInheritCategories = false),
          (by decide : has dontInheritProtocolMeta dontInheritClass = false),
          (by decide : has dontInheritProtocols dontInheritProtocols = true)]
    | false =>
      simp only [Bool.false_eq_true, if_false, has_or, if_true,
        (by decide : has dontInheritSuperclassInheritance dontInheritSuperclassInheritance = true),
        Bool.or_true, Bool.true_or]
      refine linearization_congr hroot ?_ ?_ ?_ ?_ <;>
        simp [has_or, (by decide : has dontInheritProtocolMeta dontInheritCategories = false),
          (by decide : has dontInheritProtocolMeta dontInheritClass = false),
          (by decide : has dontInheritSuperclassInheritance dontInheritCategories = false),
          (by decide : has dontInheritSuperclassInheritance dontInheritClass = false),
          (by decide : has dontInheritProtocols dontInheritProtocols = true)]
  · simp only [if_neg hwrap, Nat.or_zero]

omit [DecidableEq P] in
/-- **The induction over the frames of a search.**  Every depth that covers the superclasses is enough, and so is one frame
where the flags end the search: a mixin is searched with such flags, and a superclass is nearer to the root. -/
theorem frames_induction {motive : ℕ → ClassRef P → ℕ → Prop} {fuel : ℕ}
    (hfuel : g.rank cls + 2 ≤ fuel ∨ 0 < fuel ∧ has inheritance dontInheritProtocols = true ∧
      has inheritance dontInheritSuperclass = true)
    (hframe : ∀ fuel cls inheritance,
      (has inheritance dontInheritProtocols = false → ∀ proto i,
        motive fuel (mixinRef cls proto) (mixinFlags i ||| g.inheritance (mixinRef cls proto))) →
      (has inheritance dontInheritSuperclass = false → ∀ supercls, g.superclass cls = some supercls → ∀ i,
        motive fuel supercls i) →
      motive (fuel + 1) cls inheritance) :
    motive fuel cls inheritance := by
  induction fuel generalizing cls inheritance with
  | zero => omega
  | succ fuel ih =>
    refine hframe fuel cls inheritance (fun hp proto i => ?_) (fun hi supercls hs i => ?_)
    · apply ih (Or.inr ⟨_, has_mixinFlags_protocols i _, has_mixinFlags_superclass i _⟩)
      rcases hfuel with h | ⟨-, h, -⟩
      · omega
      · exact absurd h (by simp [hp])
    · apply ih (Or.inl _)
      have := ClassGraph.rank_superclass hs
      rcases hfuel with h | ⟨-, -, h⟩
      · omega
      · exact absurd h (by simp [hi])

/-- **The recursive search returns what the scan of the linearization says.** -/
theorem searchMethodInternal_settles (hcb : search.callback = none) (hstop : search.stopClassid = 0)
    {fuel : ℕ}
    (hfuel : g.rank cls + 2 ≤ fuel ∨ 0 < fuel ∧ has inheritance dontInheritProtocols = true ∧
      has inheritance dontInheritSuperclass = true)
    (hm : Plain st.mode) :
    Settles none st (scan search g st.mode (linearization g cls inheritance))
      (searchMethodInternal search g fuel cls inheritance st) := by
  refine frames_induction (motive := fun fuel cls inheritance => ∀ st : SearchState P, Plain st.mode →
    Settles none st (scan search g st.mode (linearization g cls inheritance))
      (searchMethodInternal search g fuel cls inheritance st)) hfuel (fun fuel cls inheritance hmixin hsuper st hm => ?_)
    st hm
  rw [linearization_visits]
  refine searchFrame_settles hcb hstop (fun found st hready => ?_) hm
  refine nextClass_settles hcb (fun hp proto st hm => ?_) (fun supercls hs hi st hm => ?_) hready
  · rw [← linearization_mixin]
    exact hmixin hp proto inheritance st hm
  · rw [← linearization_searchInheritance hs]
    exact hsuper hi supercls hs _ st hm

end MulleObjcRuntime.Search
