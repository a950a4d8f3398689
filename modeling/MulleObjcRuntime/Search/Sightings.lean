import MulleObjcRuntime.Search.Callback

/-!
# What a search comes upon

With any callback and any stop class, but for the specific search.

* `entry` — how the mode changes at a class object, and which of its methods count there;
* `countHits` — the loop over the method lists, told by the methods that count;
* `searchFrame_eq` — a frame is such a loop and the rest of the frame.
-/

namespace MulleObjcRuntime.Search

open Classes

variable {P : Type}

/-! ## A class object on the way -/

/-- The modes in which the methods of a list count; a previous search counts them before its method is met, too. -/
def Active (mode : InternalMode) : Prop := Settled mode ∨ mode = .previousMethod

/-- The modes a search can be in between two class objects, but for the specific search. -/
def Underway (mode : InternalMode) : Prop := Active mode ∨ mode = .superMethod ∨ mode = .overriddenMethod

section Entry

variable (search : SearchArguments P) (g : ClassGraph P)

/-- The mode in which a class object is searched and the methods that count there; none where the search ends with
`NULL`, because of the stop class or for want of a category. -/
def entry (mode : InternalMode) (v : Visit P) : Option (InternalMode × List (Hit P)) :=
  match mode with
  | .superMethod => some (if search.classid = g.classid v.cls then .superMethod2 else .superMethod, [])
  | .overriddenMethod =>
    if search.classid = g.classid v.cls then
      if g.classid v.cls = search.stopClassid then none
      else
        (afterCategory search.categoryid v.lists).map fun rest =>
          (.overriddenMethod3, counted search g .overriddenMethod3 v.cls rest)
    else some (.overriddenMethod, [])
  | mode =>
    if g.classid v.cls = search.stopClassid then none else some (mode, counted search g mode v.cls v.lists)

/-- The loop over the method lists of a class object, over the methods that count. -/
def countHits : List (Hit P) → Option Method → ℕ → SearchState P → ListStep P
  | [], found, inheritance, st => .next found inheritance st
  | h :: rest, found, inheritance, st =>
    if st.mode = .previousMethod ∧ isPreviousMethod search h.method = true then
      countHits rest found inheritance { st with mode := .previousMethod2 }
    else
      match countMethod search h.cls found inheritance h.list h.method st with
      | .next found inheritance st => countHits rest found inheritance st
      | .ret o st => .ret o st

end Entry

section Loop

variable {search : SearchArguments P} {g : ClassGraph P} {cls : ClassRef P} {found : Option Method}
  {inheritance : ℕ} {st : SearchState P}

lemma Active.ne {mode : InternalMode} (h : Active mode) :
    ¬ (mode = .overriddenMethod2 ∨ mode = .specificMethod2) ∧ mode ≠ .superMethod ∧ mode ≠ .overriddenMethod := by
  rcases h with h | rfl
  · cases h <;> decide
  · decide

lemma counted_cons (mode : InternalMode) (list : MethodList) (rest : List MethodList) :
    counted search g mode cls (list :: rest) = counted search g mode cls [list] ++ counted search g mode cls rest := by
  unfold counted
  rw [← List.filterMap_append]
  rfl

lemma counted_previousMethod (lists : List MethodList) :
    counted search g .previousMethod cls lists = counted search g .previousMethod2 cls lists := by
  simp [counted, methodlistSearch]

/-- One list has at most one method that counts. -/
lemma searchMethodlist_active (hm : Active st.mode) (list : MethodList) :
    searchMethodlist g search cls found inheritance list st =
      countHits search (counted search g st.mode cls [list]) found inheritance st := by
  have hcount : ∀ method, countHits search [⟨cls, list, method⟩] found inheritance st =
      if st.mode = .previousMethod ∧ isPreviousMethod search method = true then
        .next found inheritance { st with mode := .previousMethod2 }
      else countMethod search cls found inheritance list method st := by
    intro method
    unfold countHits
    simp only
    split
    · rfl
    · cases countMethod search cls found inheritance list method st <;> rfl
  rcases hm with h | h
  · rw [searchMethodlist_settled h]
    unfold counted
    by_cases hanchor : st.mode = .overriddenMethod3 ∧ isAnchor g search cls list = true
    · simp [hanchor, countHits]
    · rw [if_neg hanchor]
      cases hs : methodlistSearch search st.mode list with
      | none => simp [hanchor, hs, countHits]
      | some method =>
        have hne : ¬ (st.mode = .previousMethod ∧ isPreviousMethod search method = true) := fun hp =>
          h.ne.2 (Or.inl hp.1)
        simp only [List.filterMap_cons, hanchor, if_false, hs, Option.map_some, List.filterMap_nil]
        rw [hcount, if_neg hne]
  · rw [h] at hcount ⊢
    unfold searchMethodlist lookInMethodlist counted
    rw [h]
    cases hs : methodlistSearch search .previousMethod list with
    | none => simp [hs, countHits]
    | some method =>
      simp only [List.filterMap_cons, hs, Option.map_some, List.filterMap_nil, reduceCtorEq, false_and, if_false]
      rw [hcount]
      simp

/-- The loop after a method that counts: the result has been written, and the superclass may have been ruled out. -/
structure Goes (search : SearchArguments P) (h : Hit P) (inheritance : ℕ) (st : SearchState P)
    (found' : Option Method) (inheritance' : ℕ) (st' : SearchState P) : Prop where
  found : found' = none ∧ search.callback ≠ none ∨ found' = some h.method
  inheritance : inheritance' = inheritance ∨ inheritance' = inheritance ||| dontInheritSuperclass
  mode : st'.mode = st.mode
  error : st'.error = st.error
  result : st'.result = some h

lemma Goes.callback {search : SearchArguments P} {h : Hit P} {inheritance : ℕ} {st : SearchState P}
    {found' : Option Method} {inheritance' : ℕ} {st' : SearchState P}
    (hgoes : Goes search h inheritance st found' inheritance' st') (hfound : found' = none) :
    search.callback ≠ none := by
  rcases hgoes.found with ⟨-, hcb⟩ | hsome
  · exact hcb
  · rw [hfound] at hsome
    cases hsome

/-- What becomes of a method that counts when nothing has been found before it. -/
lemma countMethod_cases (search : SearchArguments P) (inheritance : ℕ) (h : Hit P) (st : SearchState P) :
    (∃ found' i st', countMethod search h.cls none inheritance h.list h.method st = .next found' i st' ∧
      Goes search h inheritance st found' i st') ∨
    ∃ o st', countMethod search h.cls none inheritance h.list h.method st = .ret o st' ∧
      (o = .null ∨ o = .found h.method ∧ st'.mode = st.mode ∧ st'.error = st.error) ∧ st'.result = some h := by
  have hkeep : ∀ st' : SearchState P, st'.mode = st.mode → st'.error = st.error → st'.result = some h →
      (∃ found' i st'', keepMethod inheritance h.method st' = .next found' i st'' ∧
        Goes search h inheritance st found' i st'') ∨
      ∃ o st'', keepMethod inheritance h.method st' = .ret o st'' ∧
        (o = .null ∨ o = .found h.method ∧ st''.mode = st.mode ∧ st''.error = st.error) ∧ st''.result = some h := by
    intro st' hmode herror hresult
    unfold keepMethod
    split
    · exact Or.inl ⟨_, _, _, rfl, Or.inr rfl, Or.inl rfl, hmode, herror, hresult⟩
    · exact Or.inr ⟨_, _, rfl, Or.inr ⟨rfl, hmode, herror⟩, hresult⟩
  unfold countMethod
  simp only [Option.isSome_none, Bool.false_eq_true, if_false]
  cases hcb : search.callback with
  | none => exact hkeep _ rfl rfl rfl
  | some f =>
    have hf : search.callback ≠ none := by simp [hcb]
    simp only
    split
    · exact Or.inl ⟨_, _, _, rfl, Or.inl ⟨rfl, hf⟩, Or.inl rfl, rfl, rfl, rfl⟩
    · exact hkeep _ rfl rfl rfl
    · exact Or.inl ⟨_, _, _, rfl, Or.inl ⟨rfl, hf⟩, Or.inr rfl, rfl, rfl, rfl⟩
    · exact Or.inr ⟨_, _, rfl, Or.inl rfl, rfl⟩
    · exact Or.inr ⟨_, _, rfl, Or.inl rfl, rfl⟩

lemma countMethod_pending (search : SearchArguments P) (cls : ClassRef P) (m : Method) (inheritance : ℕ)
    (list : MethodList) (method : Method) (st : SearchState P) :
    countMethod search cls (some m) inheritance list method st = .ret .null { st with error := .EEXIST } := rfl

/-- What the loop goes on with is as active as before, and the flags other than that of the superclass are the same. -/
lemma countHits_next {hits : List (Hit P)} {found' : Option Method} {i : ℕ} {st' : SearchState P}
    (hm : Active st.mode) (h : countHits search hits found inheritance st = .next found' i st') :
    Active st'.mode ∧ (i = inheritance ∨ i = inheritance ||| dontInheritSuperclass) ∧
      (st'.mode = st.mode ∨ st.mode = .previousMethod ∧ st'.mode = .previousMethod2) := by
  induction hits generalizing found inheritance st with
  | nil =>
    cases h
    exact ⟨hm, Or.inl rfl, Or.inl rfl⟩
  | cons hit rest ih =>
    unfold countHits at h
    by_cases hp : st.mode = .previousMethod ∧ isPreviousMethod search hit.method = true
    · rw [if_pos hp] at h
      obtain ⟨h1, h2, h3⟩ := ih (Or.inl .previousMethod2) h
      refine ⟨h1, h2, Or.inr ⟨hp.1, ?_⟩⟩
      rcases h3 with h3 | ⟨h3, -⟩
      · exact h3
      · cases h3
    · rw [if_neg hp] at h
      cases found with
      | some m =>
        rw [countMethod_pending] at h
        cases h
      | none =>
        rcases countMethod_cases search inheritance hit st with ⟨found'', i', st'', hcount, hgoes⟩ | ⟨o, st'', hcount, -, -⟩
        · rw [hcount] at h
          obtain ⟨h1, h2, h3⟩ := ih (hgoes.mode ▸ hm) h
          rw [hgoes.mode] at h3
          refine ⟨h1, ?_, h3⟩
          rcases hgoes.inheritance with rfl | rfl
          · exact h2
          · rw [Nat.or_assoc, Nat.or_self] at h2
            exact Or.inr (h2.elim id id)
        · rw [hcount] at h
          cases h

lemma countHits_append (hits more : List (Hit P)) :
    countHits search (hits ++ more) found inheritance st =
      match countHits search hits found inheritance st with
      | .next found inheritance st => countHits search more found inheritance st
      | .ret o st => .ret o st := by
  induction hits generalizing found inheritance st with
  | nil => rfl
  | cons h rest ih =>
    rw [List.cons_append, countHits, countHits]
    split
    · exact ih
    · cases countMethod search h.cls found inheritance h.list h.method st with
      | next found inheritance st => exact ih
      | ret o st => rfl

/-- **The loop over the method lists** is the loop over the methods that count. -/
lemma searchMethodlists_active (hm : Active st.mode) (lists : List MethodList) (i : ℕ) :
    searchMethodlists g search cls 0 lists i found inheritance st =
      countHits search (counted search g st.mode cls lists) found inheritance st := by
  induction lists generalizing i found inheritance st with
  | nil => rfl
  | cons list rest ih =>
    rw [searchMethodlists_cons, searchMethodlist_active hm, counted_cons st.mode list rest, countHits_append]
    cases hfirst : countHits search (counted search g st.mode cls [list]) found inheritance st with
    | ret o st' => rfl
    | next found' i' st' =>
      obtain ⟨hm', -, hmode⟩ := countHits_next hm hfirst
      simp only
      rw [ih hm']
      rcases hmode with hmode | ⟨hprevious, hmode⟩
      · rw [hmode]
      · rw [hmode, hprevious, counted_previousMethod]

/-- The modes of the loop over the method lists. -/
def Looping (mode : InternalMode) : Prop :=
  Active mode ∨ mode = .overriddenMethod2 ∨ mode = .specificMethod2 ∨ mode = .specificMethod3

/-- The loop goes on with the same flags, but for that of the superclass. -/
lemma searchMethodlist_next (hm : Looping st.mode) {list : MethodList} {found' : Option Method} {i : ℕ}
    {st' : SearchState P} (h : searchMethodlist g search cls found inheritance list st = .next found' i st') :
    Looping st'.mode ∧ has i dontInheritClass = has inheritance dontInheritClass := by
  have hlook : ∀ st' : SearchState P, st'.mode = .specificMethod3 → ∀ found' i st'',
      lookInMethodlist g search cls found inheritance list st' ≠ .next found' i st'' := by
    intro st' hm found' i st'' h
    unfold lookInMethodlist at h
    rw [hm] at h
    cases hs : methodlistSearch search .specificMethod3 list <;> (rw [hs] at h; cases h)
  rcases hm with hm | hm | hm | hm
  · rw [searchMethodlist_active hm] at h
    obtain ⟨hm', hi, -⟩ := countHits_next hm h
    refine ⟨Or.inl hm', ?_⟩
    rcases hi with rfl | rfl
    · rfl
    · rw [has_or, (by decide : has dontInheritSuperclass dontInheritClass = false), Bool.or_false]
  · unfold searchMethodlist at h
    simp only [hm] at h
    split at h <;> cases h
    · exact ⟨Or.inl (Or.inl .overriddenMethod3), rfl⟩
    · exact ⟨Or.inr (Or.inl hm), rfl⟩
  · unfold searchMethodlist at h
    simp only [hm] at h
    split at h
    · exact absurd h (hlook _ rfl _ _ _)
    · cases h
      exact ⟨Or.inr (Or.inr (Or.inl hm)), rfl⟩
  · unfold searchMethodlist at h
    simp only [hm] at h
    exact absurd h (hlook _ hm _ _ _)

/-- Under `DONT_INHERIT_CLASS` the last list enumerated is left out. -/
lemma searchMethodlists_unlessLast (n : ℕ) (lists : List MethodList) (i j : ℕ) (hn : lists = [] ∨ i + lists.length = n)
    (hm : Looping st.mode) :
    searchMethodlists g search cls n lists i found inheritance st =
      searchMethodlists g search cls 0
        (if has inheritance dontInheritClass then lists.dropLast else lists) j found inheritance st := by
  induction lists generalizing i j found inheritance st with
  | nil => split <;> rfl
  | cons list rest ih =>
    have hlength : i + (rest.length + 1) = n := by simpa using hn
    rw [searchMethodlists]
    by_cases hlast : has inheritance dontInheritClass = true ∧ rest = []
    · obtain ⟨hcls, rfl⟩ := hlast
      rw [if_pos ⟨hcls, by simpa using hlength⟩, if_pos hcls]
      rfl
    · have hgo : ¬ (has inheritance dontInheritClass = true ∧ i + 1 = n) := fun h =>
        hlast ⟨h.1, List.eq_nil_of_length_eq_zero (by omega)⟩
      have hlists : (if has inheritance dontInheritClass = true then (list :: rest).dropLast else list :: rest) =
          list :: if has inheritance dontInheritClass = true then rest.dropLast else rest := by
        cases rest with
        | nil => rw [if_neg fun hcls => hlast ⟨hcls, rfl⟩, if_neg fun hcls => hlast ⟨hcls, rfl⟩]
        | cons list' rest => split <;> rfl
      rw [if_neg hgo, hlists, searchMethodlists_cons]
      cases hfirst : searchMethodlist g search cls found inheritance list st with
      | ret o st' => rfl
      | next found' i' st' =>
        obtain ⟨hm', hclass⟩ := searchMethodlist_next hm hfirst
        simp only
        rw [← hclass]
        exact ih (i + 1) (j + 1) (Or.inr (by omega)) hm'

/-- The loop runs over the visible lists. -/
lemma searchMethodlists_looping (hm : Looping st.mode) :
    searchMethodlists g search cls (enumeratedCount g cls inheritance)
        ((g.methodlists cls).take (enumeratedCount g cls inheritance)).reverse 0 found inheritance st =
      searchMethodlists g search cls 0 (visibleLists inheritance (g.methodlists cls)) 0 found inheritance st := by
  have hlength : ((g.methodlists cls).take (enumeratedCount g cls inheritance)).reverse = [] ∨
      0 + ((g.methodlists cls).take (enumeratedCount g cls inheritance)).reverse.length =
        enumeratedCount g cls inheritance := by
    unfold enumeratedCount
    cases g.methodlists cls with
    | nil => exact Or.inl (by simp)
    | cons list rest =>
      right
      split <;> simp
  have hvisible : (if has inheritance dontInheritClass = true
      then ((g.methodlists cls).take (enumeratedCount g cls inheritance)).reverse.dropLast
      else ((g.methodlists cls).take (enumeratedCount g cls inheritance)).reverse) =
      visibleLists inheritance (g.methodlists cls) := by
    unfold visibleLists enumeratedCount
    have hlists : (g.methodlists cls).take (g.methodlists cls).length = g.methodlists cls := List.take_length
    simp only [List.dropLast_reverse, List.drop_one]
    split <;> split <;> simp [hlists]
  rw [searchMethodlists_unlessLast _ _ 0 0 hlength hm, hvisible]

end Loop

/-! ## One frame -/

section Frame

variable [DecidableEq P] {search : SearchArguments P} {g : ClassGraph P} {frame : Frame P} {cls : ClassRef P}
  {inheritance : ℕ} {st : SearchState P}

lemma searchClass_looping (hm : Looping st.mode) (hstop : g.classid cls ≠ search.stopClassid) :
    searchClass g search frame cls inheritance st =
      (searchMethodlists g search cls 0 (visibleLists inheritance (g.methodlists cls)) 0 none inheritance
        st).andThen (afterMethodlists g search frame cls) := by
  unfold searchClass
  rw [if_neg hstop]
  simp only [searchMethodlists_looping hm]
  cases searchMethodlists g search cls 0 _ 0 none inheritance st <;> rfl

omit [DecidableEq P] in
lemma entry_super (lists : List MethodList) :
    entry search g .superMethod ⟨cls, lists⟩ =
      some (if search.classid = g.classid cls then .superMethod2 else .superMethod, []) := rfl

omit [DecidableEq P] in
lemma entry_overridden (lists : List MethodList) :
    entry search g .overriddenMethod ⟨cls, lists⟩ =
      if search.classid = g.classid cls then
        if g.classid cls = search.stopClassid then none
        else
          (afterCategory search.categoryid lists).map fun rest =>
            (.overriddenMethod3, counted search g .overriddenMethod3 cls rest)
      else some (.overriddenMethod, []) := rfl

omit [DecidableEq P] in
lemma entry_of_active {mode : InternalMode} (hm : Active mode) (lists : List MethodList) :
    entry search g mode ⟨cls, lists⟩ =
      if g.classid cls = search.stopClassid then none else some (mode, counted search g mode cls lists) := by
  rcases hm with hm | rfl
  · cases hm <;> rfl
  · rfl

omit [DecidableEq P] in
/-- Only methods that count in an active mode are come upon. -/
lemma entry_active {mode mode' : InternalMode} {v : Visit P} {hits : List (Hit P)} (hm : Underway mode)
    (h : entry search g mode v = some (mode', hits)) : Underway mode' ∧ (hits ≠ [] → Active mode') := by
  have hother : mode ≠ .superMethod → mode ≠ .overriddenMethod → Active mode := fun h1 h2 =>
    hm.resolve_right fun h => h.elim h1 h2
  unfold entry at h
  split at h
  · obtain ⟨rfl, rfl⟩ : _ = mode' ∧ [] = hits := by simpa using h
    refine ⟨?_, fun h => absurd rfl h⟩
    split
    · exact Or.inl (Or.inl .superMethod2)
    · exact Or.inr (Or.inl rfl)
  · split at h
    · split at h
      · cases h
      · obtain ⟨rest, -, h⟩ := Option.map_eq_some_iff.1 h
        cases h
        exact ⟨Or.inl (Or.inl .overriddenMethod3), fun _ => Or.inl .overriddenMethod3⟩
    · cases h
      exact ⟨Or.inr (Or.inr rfl), fun h => absurd rfl h⟩
  · rename_i h1 h2
    split at h
    · cases h
    · cases h
      exact ⟨hm, fun _ => hother h1 h2⟩

lemma afterMethodlists_active {found : Option Method} (hm : Underway st.mode) :
    afterMethodlists g search frame cls found inheritance st = nextClass g search frame cls found inheritance st := by
  have hne : ¬ (st.mode = .overriddenMethod2 ∨ st.mode = .specificMethod2) := by
    rcases hm with hm | hm | hm
    · exact hm.ne.1
    · rw [hm]
      decide
    · rw [hm]
      decide
  exact if_neg hne

lemma countHits_andThen {hits : List (Hit P)} {found : Option Method} (hm : Active st.mode) :
    (countHits search hits found inheritance st).andThen (afterMethodlists g search frame cls) =
      (countHits search hits found inheritance st).andThen (nextClass g search frame cls) := by
  cases hloop : countHits search hits found inheritance st with
  | ret o st' => rfl
  | next found' i st' =>
    obtain ⟨hm', -, -⟩ := countHits_next hm hloop
    exact afterMethodlists_active (Or.inl hm')

/-- **A frame** ends at once where there is no entry, and otherwise goes through the methods that count and on to the
mixins and the superclass. -/
lemma searchFrame_eq (search : SearchArguments P) (g : ClassGraph P) (frame : Frame P) (cls : ClassRef P)
    (inheritance : ℕ) (st : SearchState P) (hm : Underway st.mode) :
    match entry search g st.mode (ownVisit g cls inheritance) with
    | none => ∃ st', searchFrame g search frame cls inheritance st = (.null, st') ∧ st'.result = st.result
    | some (mode, hits) => searchFrame g search frame cls inheritance st =
        (countHits search hits none inheritance { st with mode := mode }).andThen (nextClass g search frame cls) := by
  obtain ⟨mode, error, result, reports⟩ := st
  rcases hm with hm | rfl | rfl
  · have hframe : searchFrame g search frame cls inheritance ⟨mode, error, result, reports⟩ =
        searchClass g search frame cls inheritance ⟨mode, error, result, reports⟩ := by
      unfold searchFrame
      rcases hm with hm | rfl
      · cases hm <;> rfl
      · rfl
    rw [hframe, ownVisit, entry_of_active hm]
    by_cases hstop : g.classid cls = search.stopClassid
    · simp only [if_pos hstop]
      exact ⟨_, if_pos hstop, rfl⟩
    · simp only [if_neg hstop]
      rw [searchClass_looping (Or.inl hm) hstop, searchMethodlists_active hm]
      exact countHits_andThen hm
  · rw [ownVisit, entry_super]
    simp only [searchFrame]
    by_cases hc : search.classid = g.classid cls
    · simp only [if_pos hc]
      rfl
    · simp only [if_neg hc]
      rfl
  · rw [ownVisit, entry_overridden]
    simp only [searchFrame]
    by_cases hc : search.classid = g.classid cls
    · simp only [if_pos hc]
      by_cases hstop : g.classid cls = search.stopClassid
      · simp only [if_pos hstop]
        exact ⟨_, if_pos hstop, rfl⟩
      · simp only [if_neg hstop]
        rw [searchClass_looping (Or.inr (Or.inl rfl)) hstop, searchMethodlists_overridden _ _ rfl]
        cases hcat : afterCategory search.categoryid (visibleLists inheritance (g.methodlists cls)) with
        | none => exact ⟨_, rfl, rfl⟩
        | some rest =>
          simp only [Option.map_some]
          rw [searchMethodlists_active (Or.inl .overriddenMethod3)]
          exact countHits_andThen (Or.inl .overriddenMethod3)
    · simp only [if_neg hc]
      rfl

end Frame

end MulleObjcRuntime.Search
