import MulleObjcRuntime.Search.Hidden

/-!
# The specific search

The search for the method of one category of one class has three stages: before the class object, before the list
of the category, and in it.

* `Station`, `stations` — the visits of a search, and which of them are mixins;
* `Look` — what a class object does with the stage of the search;
* `follow` — what the search does along its stations;
* `searchMethodInternal_follow` — the recursive search does just that;
* `specific_iff` — when exactly the method of that list is returned, and no other.
-/

namespace MulleObjcRuntime.Search

open Classes

variable {P : Type}

/-! ## The stations of a search -/

/-- A visit, and whether it is that of a mixin. -/
structure Station (P : Type) where
  visit : Visit P
  inMixin : Bool

section Stations

variable [DecidableEq P] (g : ClassGraph P) (cls : ClassRef P)

/-- The mixins of `cls`. -/
def mixinStations (inheritance : ℕ) : List (Station P) :=
  (mixinVisits g cls inheritance).map fun v => ⟨v, true⟩

/-- The stations, with a bound on the number of superclasses. -/
def stationsTo : ℕ → ClassRef P → ℕ → List (Station P)
  | 0, _, _ => []
  | n + 1, cls, inheritance =>
    ⟨ownVisit g cls inheritance, false⟩ :: (mixinStations g cls inheritance ++
      match g.superclass cls with
      | none => []
      | some supercls =>
        if has inheritance dontInheritSuperclass then []
        else stationsTo n supercls (searchInheritance g cls supercls inheritance))

/-- The stations of a search that starts at `cls`. -/
def stations (inheritance : ℕ) : List (Station P) := stationsTo g (g.rank cls + 1) cls inheritance

/-- The stations of the superclass, when the search goes on to it. -/
def superStations (inheritance : ℕ) : List (Station P) :=
  match g.superclass cls with
  | none => []
  | some supercls =>
    if has inheritance dontInheritSuperclass then []
    else stations g supercls (searchInheritance g cls supercls inheritance)

variable {g}

lemma stationsTo_bound {n m : ℕ} {cls : ClassRef P} (hn : g.rank cls < n) (hm : g.rank cls < m) (inheritance : ℕ) :
    stationsTo g n cls inheritance = stationsTo g m cls inheritance := by
  induction n generalizing m cls inheritance with
  | zero => omega
  | succ n ih =>
    obtain ⟨m, rfl⟩ : ∃ k, m = k + 1 := ⟨m - 1, by omega⟩
    unfold stationsTo
    cases hs : g.superclass cls with
    | none => rfl
    | some supercls =>
      have := ClassGraph.rank_superclass hs
      simp only
      rw [ih (m := m) (by omega) (by omega)]

lemma stations_eq (cls : ClassRef P) (inheritance : ℕ) :
    stations g cls inheritance =
      ⟨ownVisit g cls inheritance, false⟩ :: (mixinStations g cls inheritance ++ superStations g cls inheritance) := by
  rw [stations, stationsTo, superStations]
  cases hs : g.superclass cls with
  | none => rfl
  | some supercls =>
    have := ClassGraph.rank_superclass hs
    simp only
    rw [stationsTo_bound (n := g.rank cls) this (Nat.lt_succ_self _)]
    rfl

/-- **The stations are the visits of the linearization.** -/
theorem stations_visits (cls : ClassRef P) (inheritance : ℕ) :
    (stations g cls inheritance).map Station.visit = linearization g cls inheritance := by
  induction cls using ClassGraph.superclass_induction g generalizing inheritance with
  | above cls ih =>
    have hmixins : (mixinStations g cls inheritance).map Station.visit = mixinVisits g cls inheritance := by
      rw [mixinStations, List.map_map]
      exact List.map_id _
    have hsuper : (superStations g cls inheritance).map Station.visit = superVisits g cls inheritance := by
      unfold superStations superVisits
      cases hs : g.superclass cls with
      | none => rfl
      | some supercls =>
        simp only
        split
        · rfl
        · rw [← linearization_searchInheritance hs]
          exact ih supercls hs _
    rw [stations_eq, linearization_visits, List.map_cons, List.map_append, hmixins, hsuper]

end Stations

/-! ## What the search does along its stations -/

/-- What a class object does with the stage of the search: it is passed over, it lacks the category, or the list
that is searched lacks the method or has it. -/
inductive Look
  | pass
  | lacking
  | miss
  | hit (method : Method)

/-- The stages of a specific search between two class objects. -/
def Staged (mode : InternalMode) : Prop := mode = .specificMethod ∨ mode = .specificMethod3

section Follow

variable (g : ClassGraph P) (search : SearchArguments P)

/-- What the search finds in the list it searches. -/
def lookIn (list : MethodList) : Look :=
  match list.search search.methodid with
  | none => .miss
  | some method => .hit method

/-- A class object looks for its category when it has the class id; in the third stage it is its first list that is
searched. -/
def look (mode : InternalMode) (v : Visit P) : Look :=
  if mode = .specificMethod3 then
    match v.lists with
    | [] => .pass
    | list :: _ => lookIn search list
  else if search.classid = g.classid v.cls then
    match v.lists.find? fun list => search.categoryid = list.categoryid with
    | none => .lacking
    | some list => lookIn search list
  else .pass

lemma lookIn_cases (list : MethodList) : lookIn search list = .miss ∨ ∃ m, lookIn search list = .hit m := by
  unfold lookIn
  cases list.search search.methodid with
  | none => exact Or.inl rfl
  | some m => exact Or.inr ⟨m, rfl⟩

lemma look_specific3_ne (v : Visit P) : look g search .specificMethod3 v ≠ .lacking := by
  unfold look
  rw [if_pos rfl]
  cases v.lists with
  | nil => simp
  | cons list rest =>
    rcases lookIn_cases search list with h | ⟨m, h⟩ <;> simp [h]

/-- What the search does along its stations, when the method `found` is pending.  A class that misses ends the
search, a mixin that misses does not. -/
def follow : Option Method → SearchState P → List (Station P) → Outcome × SearchState P
  | found, st, [] => (.ofFound found, st)
  | found, st, s :: rest =>
    match look g search st.mode s.visit with
    | .pass => follow found st rest
    | .lacking => (.null, { st with mode := .specificMethod2, error := .EINVAL })
    | .miss =>
      if s.inMixin then follow found { st with mode := .specificMethod3 } rest
      else (.ofFound found, { st with mode := .specificMethod3 })
    | .hit method =>
      if found.isSome then (.null, { st with mode := .specificMethod3, error := .EEXIST })
      else if s.inMixin ∧ method.isHiddenOverrideFatal then
        follow (some method) { st with mode := .specificMethod3 } rest
      else (.found method, { st with mode := .specificMethod3 })

lemma follow_some (m : Method) (st : SearchState P) (path : List (Station P)) :
    (follow g search (some m) st path).1 = .found m ∨ (follow g search (some m) st path).1 = .null := by
  induction path generalizing st with
  | nil => exact Or.inl rfl
  | cons s rest ih =>
    rw [follow]
    split
    · exact ih st
    · exact Or.inr rfl
    · split
      · exact ih _
      · exact Or.inl rfl
    · exact Or.inr rfl

variable {g search}

/-- **A pending method is merged** with what is come upon after it. -/
lemma mergeMethod_follow {st : SearchState P} {path : List (Station P)} {found : Option Method}
    {r : Outcome × SearchState P} (hr : Alike r (follow g search none st path)) :
    Alike (mergeMethod found r fun found st => (.ofFound found, st)) (follow g search found st path) := by
  cases found with
  | none => rwa [mergeMethod_none]
  | some m =>
    induction path generalizing st with
    | nil =>
      obtain rfl := hr.eq (by simp [follow, Outcome.ofFound])
      exact Alike.refl _
    | cons s rest ih =>
      rw [follow] at hr ⊢
      cases hl : look g search st.mode s.visit with
      | pass =>
        simp only [hl] at hr ⊢
        exact ih hr
      | lacking =>
        simp only [hl] at hr ⊢
        exact alike_null (mergeMethod_null hr.1 _) rfl
      | miss =>
        simp only [hl] at hr ⊢
        cases hmixin : s.inMixin with
        | true =>
          simp only [hmixin, if_true] at hr ⊢
          exact ih hr
        | false =>
          simp only [hmixin, Bool.false_eq_true, if_false] at hr ⊢
          obtain rfl := hr.eq (by simp [Outcome.ofFound])
          exact Alike.refl _
      | hit method =>
        simp only [hl, Option.isSome_none, Option.isSome_some, Bool.false_eq_true, if_false, if_true] at hr ⊢
        have hcases : r.1 = .found method ∨ r.1 = .null := by
          split at hr
          · rw [hr.1]
            exact follow_some g search method _ rest
          · exact Or.inl hr.1
        exact alike_null (mergeMethod_some hcases) rfl

/-- A mixin's frame ends with the mixin; what it returned is merged and the search goes on. -/
lemma mergeMethod_mixin {st : SearchState P} {v : Visit P} {rest : List (Station P)} {found : Option Method}
    {r : Outcome × SearchState P} {k : Option Method → SearchState P → Outcome × SearchState P}
    (hm : Staged st.mode) (hr : Alike r (follow g search none st [⟨v, false⟩]))
    (hk : ∀ found st, Staged st.mode → Alike (k found st) (follow g search found st rest)) :
    Alike (mergeMethod found r k) (follow g search found st (⟨v, true⟩ :: rest)) := by
  rw [follow] at hr ⊢
  cases hl : look g search st.mode v with
  | pass =>
    simp only [hl, follow, Outcome.ofFound] at hr ⊢
    obtain rfl := hr.eq (by simp)
    exact hk found st hm
  | lacking =>
    simp only [hl] at hr ⊢
    exact alike_null (mergeMethod_null hr.1 _) rfl
  | miss =>
    simp only [hl, Outcome.ofFound, Bool.false_eq_true, if_false, if_true] at hr ⊢
    obtain rfl := hr.eq (by simp)
    exact hk found _ (Or.inr rfl)
  | hit method =>
    simp only [hl, Option.isSome_none, Bool.false_eq_true, if_false, false_and, true_and] at hr ⊢
    obtain rfl := hr.eq (by simp)
    cases found with
    | some m => exact alike_null rfl rfl
    | none =>
      simp only [mergeMethod, Option.isSome_none, Bool.false_eq_true, if_false]
      split
      · exact hk _ _ (Or.inr rfl)
      · exact Alike.refl _

/-- The mixins first, and then the superclass with what is pending. -/
lemma mergeMethod_append {st : SearchState P} {A B : List (Station P)} {found : Option Method}
    (hA : ∀ s ∈ A, s.inMixin = true) (hfound : ∀ m ∈ found, m.isHiddenOverrideFatal = true)
    {r : Outcome × SearchState P} {k : Option Method → SearchState P → Outcome × SearchState P}
    (hm : Staged st.mode) (hr : Alike r (follow g search found st A))
    (hk : ∀ found st, Staged st.mode → Alike (k found st) (follow g search found st B)) :
    Alike (mergeMethod none r k) (follow g search found st (A ++ B)) := by
  induction A generalizing found st with
  | nil =>
    cases found with
    | none =>
      obtain rfl := hr.eq (by simp [follow, Outcome.ofFound])
      exact hk none st hm
    | some m =>
      obtain rfl := hr.eq (by simp [follow, Outcome.ofFound])
      have hf : m.isHiddenOverrideFatal = true := hfound m rfl
      simp only [follow, Outcome.ofFound, mergeMethod, hf, Option.isSome_none, Bool.false_eq_true, if_false, if_true]
      exact hk (some m) st hm
  | cons s A ih =>
    have hrest : ∀ s ∈ A, s.inMixin = true := fun s hs => hA s (List.mem_cons_of_mem _ hs)
    have hs := hA s List.mem_cons_self
    rw [List.cons_append]
    rw [follow] at hr ⊢
    cases hl : look g search st.mode s.visit with
    | pass =>
      simp only [hl] at hr ⊢
      exact ih hrest hfound hm hr
    | lacking =>
      simp only [hl] at hr ⊢
      exact alike_null (mergeMethod_null hr.1 _) rfl
    | miss =>
      simp only [hl, hs, if_true] at hr ⊢
      exact ih hrest hfound (Or.inr rfl) hr
    | hit method =>
      cases found with
      | some m =>
        simp only [hl, Option.isSome_some, if_true] at hr ⊢
        exact alike_null (mergeMethod_null hr.1 _) rfl
      | none =>
        simp only [hl, hs, Option.isSome_none, Bool.false_eq_true, if_false, true_and] at hr ⊢
        by_cases hf : method.isHiddenOverrideFatal = true
        · simp only [hf, if_true] at hr ⊢
          exact ih hrest (fun m hm => by cases hm; exact hf) (Or.inr rfl) hr
        · simp only [hf, Bool.false_eq_true, if_false] at hr ⊢
          obtain rfl := hr.eq (by simp)
          simp only [mergeMethod, hf, Option.isSome_none, Bool.false_eq_true, if_false]
          exact Alike.refl _

end Follow

/-! ## The frames -/

section Frames

variable {search : SearchArguments P} {g : ClassGraph P} {cls : ClassRef P} {found : Option Method} {inheritance : ℕ}
  {st : SearchState P}

lemma lookInMethodlist_specific (hm : st.mode = .specificMethod3) (list : MethodList) :
    lookInMethodlist g search cls found inheritance list st =
      match lookIn search list with
      | .hit method => .ret (.found method) st
      | _ => .ret .fail st := by
  unfold lookInMethodlist lookIn methodlistSearch
  rw [hm]
  cases list.search search.methodid <;> rfl

/-- The loop in the third stage looks at the first list only. -/
lemma searchMethodlists_specific3 (hm : st.mode = .specificMethod3) (v : Visit P) (i : ℕ) :
    searchMethodlists g search cls 0 v.lists i found inheritance st =
      match look g search st.mode v with
      | .hit method => .ret (.found method) st
      | .miss => .ret .fail st
      | _ => .next found inheritance st := by
  unfold look
  rw [if_pos hm]
  cases hlists : v.lists with
  | nil => rfl
  | cons list rest =>
    have hstep : searchMethodlist g search cls found inheritance list st =
        lookInMethodlist g search cls found inheritance list st := by
      unfold searchMethodlist
      rw [hm]
    rw [searchMethodlists_cons, hstep, lookInMethodlist_specific hm]
    simp only [lookIn]
    cases list.search search.methodid <;> rfl

/-- The loop in the second stage looks for the category. -/
lemma searchMethodlists_specific2 (hm : st.mode = .specificMethod2) (lists : List MethodList) (i : ℕ) :
    searchMethodlists g search cls 0 lists i found inheritance st =
      match lists.find? fun list => search.categoryid = list.categoryid with
      | none => .next found inheritance st
      | some list =>
        match lookIn search list with
        | .hit method => .ret (.found method) { st with mode := .specificMethod3 }
        | _ => .ret .fail { st with mode := .specificMethod3 } := by
  induction lists generalizing i with
  | nil => rfl
  | cons list rest ih =>
    rw [searchMethodlists_cons]
    unfold searchMethodlist
    rw [hm]
    by_cases hc : search.categoryid = list.categoryid
    · simp only [hc, if_true, List.find?_cons, decide_true]
      rw [lookInMethodlist_specific rfl]
      cases lookIn search list <;> rfl
    · simp only [hc, if_false, List.find?_cons, decide_false]
      exact ih (i + 1)

variable [DecidableEq P] {frame : Frame P}

/-- The frames a class object's frame goes on to follow their stations. -/
structure NextFollows (search : SearchArguments P) (g : ClassGraph P) (frame : Frame P) (cls : ClassRef P)
    (inheritance : ℕ) : Prop where
  mixin : has inheritance dontInheritProtocols = false → ∀ proto st, Staged st.mode →
    Alike (frame (mixinRef cls proto) (mixinFlags inheritance ||| g.inheritance (mixinRef cls proto)) st)
      (follow g search none st
        [⟨ownVisit g (mixinRef cls proto) (mixinFlags inheritance ||| g.inheritance (mixinRef cls proto)), false⟩])
  super : ∀ supercls, g.superclass cls = some supercls → has inheritance dontInheritSuperclass = false →
    ∀ st, Staged st.mode →
      Alike (frame supercls (searchInheritance g cls supercls inheritance) st)
        (follow g search none st (stations g supercls (searchInheritance g cls supercls inheritance)))

lemma searchMixins_follow (hcb : search.callback = none) {i : ℕ}
    (hframe : ∀ proto st, Staged st.mode →
      Alike (frame (mixinRef cls proto) (i ||| g.inheritance (mixinRef cls proto)) st)
        (follow g search none st [⟨ownVisit g (mixinRef cls proto) (i ||| g.inheritance (mixinRef cls proto)), false⟩]))
    (mixins : List P) (hm : Staged st.mode) :
    Alike (searchMixins g search frame cls i mixins found st)
      (follow g search found st (((mixins.filter (· ≠ cls.pair)).map fun proto =>
        ownVisit g (mixinRef cls proto) (i ||| g.inheritance (mixinRef cls proto))).map fun v => ⟨v, true⟩)) := by
  induction mixins generalizing found st with
  | nil => exact Alike.refl _
  | cons proto rest ih =>
    rw [searchMixins_cons hcb]
    by_cases hp : proto = cls.pair
    · rw [if_pos hp, List.filter_cons_of_neg (by simp [hp])]
      exact ih hm
    · rw [if_neg hp, List.filter_cons_of_pos (by simpa using hp), List.map_cons, List.map_cons]
      exact mergeMethod_mixin hm (hframe proto st hm) fun found st' hm' => ih hm'

lemma superStations_eq_nil (h : g.superclass cls = none ∨ has inheritance dontInheritSuperclass = true) :
    superStations g cls inheritance = [] := superclass_skipped h

lemma superStations_eq {supercls : ClassRef P} (hs : g.superclass cls = some supercls)
    (hi : has inheritance dontInheritSuperclass = false) :
    superStations g cls inheritance = stations g supercls (searchInheritance g cls supercls inheritance) :=
  superclass_taken hs hi

lemma inMixin_of_mem_mixinStations {s : Station P} (hs : s ∈ mixinStations g cls inheritance) : s.inMixin = true := by
  obtain ⟨v, -, rfl⟩ := List.mem_map.1 hs
  rfl

lemma searchSuperclass_follow (hnext : NextFollows search g frame cls inheritance) (hm : Staged st.mode) :
    Alike (searchSuperclass g frame cls found inheritance st)
      (follow g search found st (superStations g cls inheritance)) := by
  rcases searchSuperclass_cases g frame cls found inheritance st with ⟨hno, heq⟩ | ⟨supercls, hs, hi, heq⟩
  · rw [heq, superStations_eq_nil hno]
    exact Alike.refl _
  · rw [heq, superStations_eq hs hi]
    exact mergeMethod_follow (hnext.super supercls hs hi st hm)

lemma nextClass_follow (hcb : search.callback = none) (hnext : NextFollows search g frame cls inheritance)
    (hm : Staged st.mode) :
    Alike (nextClass g search frame cls none inheritance st)
      (follow g search none st (mixinStations g cls inheritance ++ superStations g cls inheritance)) := by
  rcases nextClass_cases search g frame cls none inheritance st with ⟨hno, heq⟩ | ⟨hp, hmixin, heq⟩
  · rw [heq, mixinStations, mixinVisits_eq_nil hno]
    exact searchSuperclass_follow hnext hm
  · rw [heq]
    refine mergeMethod_append (fun s => inMixin_of_mem_mixinStations) (by simp) hm ?_ fun found st hm =>
      searchSuperclass_follow hnext hm
    rw [mixinStations, mixinVisits_eq hp hmixin]
    exact searchMixins_follow hcb (hnext.mixin hp) _ hm

/-- **One frame** follows the stations of its class object, the mixins and the superclass. -/
lemma searchFrame_follow (hcb : search.callback = none) (hstop : search.stopClassid = 0)
    (hnext : NextFollows search g frame cls inheritance) (hm : Staged st.mode) :
    Alike (searchFrame g search frame cls inheritance st) (follow g search none st (stations g cls inheritance)) := by
  have hne : g.classid cls ≠ search.stopClassid := by
    rw [hstop]
    exact ClassGraph.classid_ne_zero
  have hthen : ∀ st : SearchState P, Staged st.mode → Alike (nextClass g search frame cls none inheritance st)
      (follow g search none st (mixinStations g cls inheritance ++ superStations g cls inheritance)) :=
    fun st hm => nextClass_follow hcb hnext hm
  obtain ⟨mode, error, result, reports⟩ := st
  rw [stations_eq, follow]
  rcases hm with hm | hm
  · obtain rfl : mode = .specificMethod := hm
    simp only [searchFrame, look, ownVisit]
    by_cases hc : search.classid = g.classid cls
    · rw [if_pos hc, searchClass_eq hcb hne, searchMethodlists_specific2 rfl]
      simp only [hc, if_true, reduceCtorEq, if_false]
      cases hcat : (visibleLists inheritance (g.methodlists cls)).find? fun list => search.categoryid = list.categoryid with
      | none => exact Alike.refl _
      | some list =>
        rcases lookIn_cases search list with hl | ⟨m, hl⟩
        · simp only [hl, ListStep.andThen]
          exact Alike.refl _
        · simp only [hl, ListStep.andThen, Option.isSome_none, Bool.false_eq_true, if_false, false_and]
          exact Alike.refl _
    · rw [if_neg hc]
      simp only [hc, if_false, reduceCtorEq]
      exact hthen _ (Or.inl rfl)
  · obtain rfl : mode = .specificMethod3 := hm
    have hlists : searchMethodlists g search cls 0 (visibleLists inheritance (g.methodlists cls)) 0 none inheritance
        ⟨.specificMethod3, error, result, reports⟩ = _ :=
      searchMethodlists_specific3 rfl (ownVisit g cls inheritance) 0
    simp only [searchFrame]
    rw [searchClass_eq hcb hne, hlists]
    cases hl : look g search .specificMethod3 (ownVisit g cls inheritance) with
    | pass => exact hthen _ (Or.inr rfl)
    | lacking => exact absurd hl (look_specific3_ne _ _ _)
    | miss => exact Alike.refl _
    | hit method =>
      simp only [ListStep.andThen, Option.isSome_none, Bool.false_eq_true, if_false, false_and]
      exact Alike.refl _

lemma stations_own (hp : has inheritance dontInheritProtocols = true)
    (hs : has inheritance dontInheritSuperclass = true) :
    stations g cls inheritance = [⟨ownVisit g cls inheritance, false⟩] := by
  rw [stations_eq, mixinStations, mixinVisits, if_pos (Or.inl hp), superStations]
  cases g.superclass cls with
  | none => rfl
  | some supercls => simp [hs]

lemma stations_mixin (i : ℕ) (ref : ClassRef P) :
    stations g ref (mixinFlags i ||| g.inheritance ref) =
      [⟨ownVisit g ref (mixinFlags i ||| g.inheritance ref), false⟩] :=
  stations_own (has_mixinFlags_protocols i _) (has_mixinFlags_superclass i _)

/-- **The recursive search** follows its stations. -/
theorem searchMethodInternal_follow (hcb : search.callback = none) (hstop : search.stopClassid = 0) {fuel : ℕ}
    (hfuel : g.rank cls + 2 ≤ fuel ∨ 0 < fuel ∧ has inheritance dontInheritProtocols = true ∧
      has inheritance dontInheritSuperclass = true)
    (hm : Staged st.mode) :
    Alike (searchMethodInternal search g fuel cls inheritance st)
      (follow g search none st (stations g cls inheritance)) := by
  refine frames_induction (motive := fun fuel cls inheritance => ∀ st : SearchState P, Staged st.mode →
    Alike (searchMethodInternal search g fuel cls inheritance st) (follow g search none st (stations g cls inheritance)))
    hfuel (fun fuel cls inheritance hmixin hsuper st hm => ?_) st hm
  refine searchFrame_follow hcb hstop ⟨fun hp proto st hm => ?_, fun supercls hs hi => hsuper hi supercls hs _⟩ hm
  rw [← stations_mixin]
  exact hmixin hp proto inheritance st hm

end Frames

/-! ## What the search comes upon -/

section Answer

variable (g : ClassGraph P) (search : SearchArguments P)

/-- The methods in the way of the third stage: those of the first lists of the mixins, up to the first class that
has a list. -/
def leftover : List (Station P) → List Method
  | [] => []
  | s :: rest =>
    match s.visit.lists with
    | [] => leftover rest
    | list :: _ => (list.search search.methodid).toList ++ if s.inMixin then leftover rest else []

/-- The method of the first list of the category in the first class object with the class id, and what the search
would come upon after it: nothing after a class. -/
def atCategory : List (Station P) → Option (Option Method × List Method)
  | [] => none
  | s :: rest =>
    if search.classid = g.classid s.visit.cls then
      (s.visit.lists.find? fun list => search.categoryid = list.categoryid).map fun list =>
        (list.search search.methodid, if s.inMixin then leftover search rest else [])
    else atCategory rest

/-- What a search settles on: the first method, and nothing when it shadows another one although it must not. -/
def pickMethod : List Method → Option Method
  | [] => none
  | m :: rest => if m.isHiddenOverrideFatal = true ∧ rest ≠ [] then none else some m

/-- A method, or `NULL`. -/
def Outcome.ofMethod : Option Method → Outcome
  | none => .null
  | some m => .found m

/-- The method a search returns, or nothing. -/
def Ends (r : Outcome × SearchState P) : Option Method → Prop
  | none => r.1 = .fail ∧ r.2.error = .ENOENT ∨ r.1 = .null
  | some m => r.1 = .found m

variable {g search}

lemma follow_pending {m : Method} {st : SearchState P} (hm : st.mode = .specificMethod3) (path : List (Station P)) :
    (follow g search (some m) st path).1 = if leftover search path = [] then .found m else .null := by
  induction path generalizing st with
  | nil => rfl
  | cons s rest ih =>
    rw [follow, leftover, look, if_pos hm]
    cases s.visit.lists with
    | nil => exact ih hm
    | cons list lists =>
      obtain ⟨o, hs⟩ : ∃ o, list.search search.methodid = o := ⟨_, rfl⟩
      simp only [lookIn, hs]
      cases o with
      | some method => simp
      | none =>
        cases s.inMixin with
        | true => simpa using @ih { st with mode := .specificMethod3 } rfl
        | false => simp [Outcome.ofFound]

/-- A method that is come upon is returned unless it shadows what is come upon after it. -/
lemma ends_hit {m : Method} {st : SearchState P} (hm : st.mode = .specificMethod3) (inMixin : Bool)
    (rest : List (Station P)) :
    Ends (if inMixin = true ∧ m.isHiddenOverrideFatal = true then follow g search (some m) st rest
      else (.found m, st)) (pickMethod (m :: if inMixin = true then leftover search rest else [])) := by
  cases inMixin with
  | false => simp [pickMethod, Ends]
  | true =>
    cases hf : m.isHiddenOverrideFatal with
    | false => simp [pickMethod, hf, Ends]
    | true =>
      simp only [and_self, if_true, pickMethod, hf, true_and]
      have : (follow g search (some m) st rest).1 = if leftover search rest = [] then .found m else .null :=
        follow_pending hm rest
      by_cases hrest : leftover search rest = []
      · rw [if_pos hrest] at this
        rw [if_neg (by simp [hrest])]
        exact this
      · rw [if_neg hrest] at this
        rw [if_pos hrest]
        exact Or.inr this

lemma follow_ends3 {st : SearchState P} (hm : st.mode = .specificMethod3) (herror : st.error = .ENOENT)
    (path : List (Station P)) : Ends (follow g search none st path) (pickMethod (leftover search path)) := by
  induction path generalizing st with
  | nil => exact Or.inl ⟨rfl, herror⟩
  | cons s rest ih =>
    rw [follow, leftover, look, if_pos hm]
    cases s.visit.lists with
    | nil => exact ih hm herror
    | cons list lists =>
      simp only [lookIn]
      cases list.search search.methodid with
      | some method => exact ends_hit rfl s.inMixin rest
      | none =>
        cases s.inMixin with
        | true => simpa using @ih { st with mode := .specificMethod3 } rfl herror
        | false => exact Or.inl ⟨rfl, herror⟩

/-- **What a specific search returns**: the method of the list, or else what is come upon after it. -/
lemma follow_ends {st : SearchState P} (hm : st.mode = .specificMethod) (herror : st.error = .ENOENT)
    (path : List (Station P)) :
    Ends (follow g search none st path)
      (match atCategory g search path with
        | none => none
        | some (own, more) => pickMethod (own.toList ++ more)) := by
  induction path generalizing st with
  | nil => exact Or.inl ⟨rfl, herror⟩
  | cons s rest ih =>
    rw [follow, atCategory, look, if_neg (by rw [hm]; decide)]
    by_cases hc : search.classid = g.classid s.visit.cls
    · simp only [hc, if_true]
      cases s.visit.lists.find? fun list => search.categoryid = list.categoryid with
      | none => exact Or.inr rfl
      | some list =>
        simp only [lookIn, Option.map_some]
        cases list.search search.methodid with
        | some method => exact ends_hit rfl s.inMixin rest
        | none =>
          cases s.inMixin with
          | true =>
            have herror3 : ({ st with mode := .specificMethod3 } : SearchState P).error = .ENOENT := herror
            have h3 : Ends (follow g search none { st with mode := .specificMethod3 } rest)
              (pickMethod (leftover search rest)) := follow_ends3 rfl herror3 rest
            simpa using h3
          | false => exact Or.inl ⟨rfl, herror⟩
    · simp only [hc, if_false]
      exact ih hm herror

end Answer

/-! ## The specific search -/

/-- `mulle_objc_searcharguments_make_specific`. -/
def SearchArguments.makeSpecific (methodid classid categoryid : ℕ) : SearchArguments P :=
  ⟨.specificMethod, methodid, classid, categoryid, 0, none, 0, none⟩

section Specific

variable (g : ClassGraph P) (search : SearchArguments P)

/-- The methods that are asked for: those in the lists of the category, in a class object with the class id. -/
def specificMethods (path : List (Visit P)) : List Method :=
  path.flatMap fun v =>
    if search.classid = g.classid v.cls then
      (v.lists.filter fun list => search.categoryid = list.categoryid).filterMap fun list => list.search search.methodid
    else []

/-- One of the methods that are asked for is returned, and no method if there is none. -/
structure FindsSpecific (methods : List Method) (r : Outcome × SearchState P) : Prop where
  found : methods ≠ [] → ∃ m ∈ methods, r.1 = .found m
  missing : methods = [] → r.1 = .null

/-- The search does not go astray: either the first list of the category has a method that need not give way to
what is come upon after it; or it lacks the method, and what is come upon after it is asked for, or nothing is come
upon and nothing asked for. -/
def Confined (methods : List Method) : Option (Option Method × List Method) → Prop
  | none => methods = []
  | some (some m, more) => m.isHiddenOverrideFatal = true → more = []
  | some (none, more) =>
    match pickMethod more with
    | none => methods = []
    | some m => m ∈ methods

variable {g search}

lemma confined_nothing {methods more : List Method} (h : pickMethod more = none) :
    Confined methods (some (none, more)) ↔ methods = [] := by
  simp only [Confined, h]

lemma confined_other {methods more : List Method} {m : Method} (h : pickMethod more = some m) :
    Confined methods (some (none, more)) ↔ m ∈ methods := by
  simp only [Confined, h]

lemma mem_specificMethods_of_atCategory {path : List (Station P)} {m : Method} {more : List Method}
    (h : atCategory g search path = some (some m, more)) :
    m ∈ specificMethods g search (path.map Station.visit) := by
  induction path with
  | nil => cases h
  | cons s rest ih =>
    rw [atCategory] at h
    rw [specificMethods, List.map_cons, List.flatMap_cons, List.mem_append]
    by_cases hc : search.classid = g.classid s.visit.cls
    · rw [if_pos hc] at h ⊢
      obtain ⟨list, hlist, heq⟩ := Option.map_eq_some_iff.1 h
      left
      have hcategory := List.find?_some hlist
      exact List.mem_filterMap.2 ⟨list, List.mem_filter.2 ⟨List.mem_of_find?_eq_some hlist, hcategory⟩,
        (Prod.ext_iff.1 heq).1⟩
    · rw [if_neg hc] at h
      exact Or.inr (ih h)

lemma Ends.of_alike {r r' : Outcome × SearchState P} {o : Option Method} (hr' : Ends r' o) (h : Alike r r') :
    Ends r o := by
  cases o with
  | some m => exact h.1.trans hr'
  | none =>
    rcases hr' with ⟨hfail, herror⟩ | hnull
    · obtain rfl := h.eq (by rw [hfail]; decide)
      exact Or.inl ⟨hfail, herror⟩
    · exact Or.inr (h.1.trans hnull)

lemma Staged.not_relative {mode : InternalMode} (h : Staged mode) :
    ¬ (mode = .previousMethod ∨ mode = .superMethod ∨ mode = .overriddenMethod) := by
  rcases h with rfl | rfl <;> decide

lemma follow_mode {found : Option Method} {st : SearchState P} (hm : Staged st.mode) (path : List (Station P))
    (hne : (follow g search found st path).1 ≠ .null) : Staged (follow g search found st path).2.mode := by
  induction path generalizing found st with
  | nil => exact hm
  | cons s rest ih =>
    rw [follow] at hne ⊢
    cases hl : look g search st.mode s.visit with
    | pass =>
      simp only [hl] at hne ⊢
      exact ih hm hne
    | lacking =>
      simp only [hl] at hne
      exact absurd rfl hne
    | miss =>
      simp only [hl] at hne ⊢
      split at hne
      · rename_i hmixin
        rw [if_pos hmixin]
        exact ih (Or.inr rfl) hne
      · rename_i hmixin
        rw [if_neg hmixin]
        exact Or.inr rfl
    | hit method =>
      simp only [hl] at hne ⊢
      split at hne
      · exact absurd rfl hne
      · rename_i hfound
        rw [if_neg hfound]
        split at hne
        · rename_i hpending
          rw [if_pos hpending]
          exact ih (Or.inr rfl) hne
        · rename_i hpending
          rw [if_neg hpending]
          exact Or.inr rfl

lemma ends_whenMissing {r : Outcome × SearchState P} {o : Option Method} (hr : Ends r o)
    (hmode : r.1 ≠ .null → ¬ (r.2.mode = .previousMethod ∨ r.2.mode = .superMethod ∨ r.2.mode = .overriddenMethod)) :
    (whenMissing (checkAnchor r) fun st => (.null, st)).1 = .ofMethod o := by
  obtain ⟨ro, st⟩ := r
  cases o with
  | none =>
    rcases hr with ⟨hfail, herror⟩ | hnull
    · obtain rfl : ro = .fail := hfail
      obtain herror : st.error = .ENOENT := herror
      rw [checkAnchor, if_neg (hmode (by simp)), whenMissing_fail, if_neg (by rw [herror]; decide)]
      rfl
    · obtain rfl : ro = .null := hnull
      unfold checkAnchor
      split <;> rfl
  | some m =>
    obtain rfl : ro = .found m := hr
    rw [checkAnchor, if_neg (hmode (by simp))]
    rfl

lemma whenMissing_follow {st : SearchState P} {path : List (Station P)} {r : Outcome × SearchState P}
    {o : Option Method} (hm : Staged st.mode) (hr : Alike r (follow g search none st path))
    (hends : Ends (follow g search none st path) o) :
    (whenMissing (checkAnchor r) fun st => (.null, st)).1 = .ofMethod o := by
  refine ends_whenMissing (hends.of_alike hr) fun hne => ?_
  rw [hr.1] at hne
  rw [hr.eq hne]
  exact (follow_mode hm path hne).not_relative

/-- **What a specific search returns**, as its entry point leaves it. -/
lemma searchMethod_specific [DecidableEq P] (g : ClassGraph P) (cls : ClassRef P)
    (methodid classid categoryid inheritance : ℕ) :
    (searchMethod g [] cls (.makeSpecific methodid classid categoryid) inheritance).1 =
      .ofMethod (match atCategory g (.makeSpecific methodid classid categoryid) (stations g cls inheritance) with
        | none => none
        | some (own, more) => pickMethod (own.toList ++ more)) := by
  rw [searchMethod_eq .specificMethod rfl]
  exact whenMissing_follow (Or.inl rfl) (searchMethodInternal_follow rfl rfl (Or.inl (Nat.le_refl _)) (Or.inl rfl))
    (follow_ends rfl rfl _)

/-- **A specific search returns the method of the list that is asked for, and no other, exactly when it does not
go astray.**  It gives up at the first class object with the class id when this lacks the category, and the stage in
which every list counts is left over when a mixin's list of the category lacks the method. -/
theorem specific_iff [DecidableEq P] (g : ClassGraph P) (cls : ClassRef P)
    (methodid classid categoryid inheritance : ℕ) :
    FindsSpecific (specificMethods g (.makeSpecific methodid classid categoryid) (linearization g cls inheritance))
        (searchMethod g [] cls (.makeSpecific methodid classid categoryid) inheritance) ↔
      Confined (specificMethods g (.makeSpecific methodid classid categoryid) (linearization g cls inheritance))
        (atCategory g (.makeSpecific methodid classid categoryid) (stations g cls inheritance)) := by
  have hresult := searchMethod_specific g cls methodid classid categoryid inheritance
  have hmem : ∀ m more, atCategory g (.makeSpecific methodid classid categoryid) (stations g cls inheritance) =
      some (some m, more) → m ∈ specificMethods g (.makeSpecific methodid classid categoryid)
        (linearization g cls inheritance) := by
    intro m more h
    rw [← stations_visits]
    exact mem_specificMethods_of_atCategory h
  generalize searchMethod g [] cls _ inheritance = r at hresult ⊢
  generalize atCategory g _ _ = a at hresult hmem ⊢
  generalize specificMethods g _ _ = methods at hmem ⊢
  obtain _ | ⟨_ | m, more⟩ := a
  · -- the class or its category is missing
    exact ⟨fun h => by_contra fun hne => by simpa [hresult, Outcome.ofMethod] using h.found hne,
      fun h => ⟨fun hne => absurd h hne, fun _ => hresult⟩⟩
  · simp only [Option.toList_none, List.nil_append] at hresult
    cases hpick : pickMethod more with
    | none =>
      rw [hpick] at hresult
      rw [confined_nothing hpick]
      exact ⟨fun h => by_contra fun hne => by simpa [hresult, Outcome.ofMethod] using h.found hne,
        fun h => ⟨fun hne => absurd h hne, fun _ => hresult⟩⟩
    | some m =>
      rw [hpick] at hresult
      rw [confined_other hpick]
      constructor
      · intro h
        have hne : methods ≠ [] := fun hnil => by simpa [hresult, Outcome.ofMethod] using h.missing hnil
        obtain ⟨m', hm', heq⟩ := h.found hne
        rw [hresult] at heq
        obtain rfl : m = m' := by simpa [Outcome.ofMethod] using heq
        exact hm'
      · exact fun h => ⟨fun _ => ⟨m, h, hresult⟩, fun hnil => by simp [hnil] at h⟩
  · have hm := hmem m more rfl
    simp only [Option.toList_some, List.singleton_append, pickMethod] at hresult
    constructor
    · intro h hf
      by_contra hmore
      rw [if_pos ⟨hf, hmore⟩] at hresult
      obtain ⟨m', -, heq⟩ := h.found (List.ne_nil_of_mem hm)
      rw [hresult] at heq
      cases heq
    · intro h
      rw [if_neg fun hboth => hboth.2 (h hboth.1)] at hresult
      exact ⟨fun _ => ⟨m, hm, hresult⟩, fun hnil => by simp [hnil] at hm⟩

end Specific

/-- A class `2` that adopts the mixin `3`, below a root class `1` that has the method `7` in its category `42`; the
category `41` of the mixin lacks the method. -/
def leftoverGraph : ClassGraph ℕ :=
  ClassGraph.ofList
    [ClassGraph.pairOf 3 none [] true ⟨0, [.empty, .single 41 ⟨100, 8, 0, 1000⟩]⟩ ⟨0, [.empty]⟩,
      ClassGraph.pairOf 1 none [] false ⟨0, [.empty, .single 42 ⟨101, 7, 0, 1001⟩]⟩ ⟨0, [.empty]⟩,
      ClassGraph.pairOf 2 (some 1) [0] false ⟨0, [.empty]⟩ ⟨0, [.empty]⟩]

/-- The search for the method of the mixin's category returns the method of the root class's; and from the root
metaclass the category of the root class is not found, as the metaclass lacks it. -/
theorem specific_goes_astray :
    (searchMethod leftoverGraph [] ⟨2, false⟩ (.makeSpecific 7 3 41) 0).1 = .found ⟨101, 7, 0, 1001⟩ ∧
      ¬ FindsSpecific (specificMethods leftoverGraph (.makeSpecific 7 3 41) (linearization leftoverGraph ⟨2, false⟩ 0))
        (searchMethod leftoverGraph [] ⟨2, false⟩ (.makeSpecific 7 3 41) 0) ∧
      ¬ FindsSpecific (specificMethods leftoverGraph (.makeSpecific 7 1 42) (linearization leftoverGraph ⟨1, true⟩ 0))
        (searchMethod leftoverGraph [] ⟨1, true⟩ (.makeSpecific 7 1 42) 0) := by
  refine ⟨by decide, fun h => ?_, fun h => ?_⟩
  · have := h.missing (by decide)
    revert this
    decide
  · obtain ⟨m, -, hm⟩ := h.found (by decide)
    have : (searchMethod leftoverGraph [] ⟨1, true⟩ (.makeSpecific 7 1 42) 0).1 = .null := by decide
    rw [this] at hm
    cases hm

end MulleObjcRuntime.Search
