import MulleObjcRuntime.Search.Callback
import MulleObjcRuntime.Search.Hidden

/-!
# Collecting searches

* `Collects` — what a part of the search does with the callback;
* `mergeMethod_collects`, `searchMixins_collects`, `searchMethodlists_collects` — how the parts compose;
* `searchMethodInternal_collects` — the recursion, by induction on its depth;
* `collect_iff` — the callback is called once for each match, unless it ends the search at a match in a mixin.
-/

namespace MulleObjcRuntime.Search

open Classes

variable {P : Type} [DecidableEq P]

/-! ## What a part of the search does with the callback -/

section Collects

variable {search : SearchArguments P} {f : List (Report P) → WalkCommand} {g : ClassGraph P} {frame : Frame P}
  {cls : ClassRef P} {inheritance : ℕ} {st st' : SearchState P} {C D : List (Call P)}

/-- The state after some calls, but for the result. -/
structure After (st : SearchState P) (reports : List (Report P)) (st' : SearchState P) : Prop where
  mode : st'.mode = st.mode
  error : st'.error = st.error
  reports : st'.reports = reports

/-- No method that is called for is a fatal hidden override. -/
def NotFatal (C : List (Call P)) : Prop :=
  ∀ c ∈ C, ∀ h, c.report.result = some h → h.method.isHiddenOverrideFatal = false

/-- A part of the search makes the calls `C`: it goes through all of them, or ends with the method at which the
callback ends it, unless this is in a mixin. -/
structure Collects (f : List (Report P) → WalkCommand) (C : List (Call P)) (st : SearchState P)
    (r : Outcome × SearchState P) : Prop where
  ok : AllOk f st.reports C → r.1 = .fail ∧ After st (told C st.reports) r.2
  done : ∀ pre c, EndsAt f st.reports C pre c → c.inMixin = false →
    ∃ h, c.report.result = some h ∧ r.1 = .found h.method ∧ r.2.result = some h ∧
      After st (told (pre ++ [c]) st.reports) r.2
  again : ∀ pre c, EndsAt f st.reports C pre c → c.inMixin = true →
    (told (pre ++ [c]) st.reports).length < r.2.reports.length

/-- The loop over the method lists makes the calls `C`, none of which is about a mixin. -/
structure ListCollects (f : List (Report P) → WalkCommand) (C : List (Call P)) (inheritance : ℕ)
    (st : SearchState P) (s : ListStep P) : Prop where
  own : ∀ c ∈ C, c.inMixin = false
  ok : AllOk f st.reports C → ∃ st', s = .next none inheritance st' ∧ After st (told C st.reports) st'
  done : ∀ pre c, EndsAt f st.reports C pre c →
    ∃ h st', c.report.result = some h ∧ s = .ret (.found h.method) st' ∧ st'.result = some h ∧
      After st (told (pre ++ [c]) st.reports) st'

omit [DecidableEq P] in
lemma NotFatal.append : NotFatal (C ++ D) ↔ NotFatal C ∧ NotFatal D := by
  unfold NotFatal
  simp only [List.mem_append, or_imp, forall_and]

omit [DecidableEq P] in
lemma After.refl (st : SearchState P) : After st st.reports st := ⟨rfl, rfl, rfl⟩

omit [DecidableEq P] in
lemma After.trans {st'' : SearchState P} (h : After st (told C st.reports) st')
    (h' : After st' (told D st'.reports) st'') : After st (told (C ++ D) st.reports) st'' :=
  ⟨h'.mode.trans h.mode, h'.error.trans h.error, by rw [h'.reports, h.reports, told_append]⟩

omit [DecidableEq P] in
lemma collects_nil (f : List (Report P) → WalkCommand) (st : SearchState P) : Collects f [] st (.fail, st) where
  ok _ := ⟨rfl, After.refl st⟩
  done _ _ h := absurd h not_endsAt_nil
  again _ _ h := absurd h not_endsAt_nil

omit [DecidableEq P] in
lemma AllOk.not_endsAt {pre : List (Call P)} {c : Call P} {reports : List (Report P)} (hok : AllOk f reports C) :
    ¬ EndsAt f reports C pre c := by
  rintro ⟨⟨post, rfl⟩, -, hdone⟩
  rw [told_append] at hdone
  have := (allOk_append.1 hok).2.1
  rw [show (told [c] (told pre reports)) = c.report :: told pre reports from rfl] at hdone
  rw [this] at hdone
  cases hdone

omit [DecidableEq P] in
/-- The first calls are gone through. -/
lemma Collects.of_ok {r : Outcome × SearchState P} (hok : AllOk f st.reports C)
    (h : After st (told C st.reports) st') (hr : Collects f D st' r) : Collects f (C ++ D) st r where
  ok hall := by
    obtain ⟨h1, h2⟩ := hr.ok (by rw [h.reports]; exact (allOk_append.1 hall).2)
    exact ⟨h1, h.trans h2⟩
  done pre c he hc := by
    obtain he' | ⟨-, pre', rfl, he'⟩ := he.append
    · exact absurd he' hok.not_endsAt
    · rw [← h.reports] at he'
      obtain ⟨hit, h1, h2, h3, h4⟩ := hr.done pre' c he' hc
      rw [List.append_assoc]
      exact ⟨hit, h1, h2, h3, h.trans h4⟩
  again pre c he hc := by
    obtain he' | ⟨-, pre', rfl, he'⟩ := he.append
    · exact absurd he' hok.not_endsAt
    · rw [← h.reports] at he'
      have := hr.again pre' c he' hc
      rwa [h.reports, ← told_append, ← List.append_assoc] at this

omit [DecidableEq P] in
lemma Collects.of_not_ok {r : Outcome × SearchState P} (hok : ¬ AllOk f st.reports C)
    (hdone : ∀ pre c, EndsAt f st.reports C pre c → c.inMixin = false →
      ∃ h, c.report.result = some h ∧ r.1 = .found h.method ∧ r.2.result = some h ∧
        After st (told (pre ++ [c]) st.reports) r.2)
    (hagain : ∀ pre c, EndsAt f st.reports C pre c → c.inMixin = true →
      (told (pre ++ [c]) st.reports).length < r.2.reports.length) : Collects f (C ++ D) st r where
  ok hall := absurd (allOk_append.1 hall).1 hok
  done pre c he hc := hdone pre c (he.append.resolve_right fun h => hok h.1) hc
  again pre c he hc := hagain pre c (he.append.resolve_right fun h => hok h.1) hc

omit [DecidableEq P] in
lemma mergeMethod_collects {r : Outcome × SearchState P}
    {k : Option Method → SearchState P → Outcome × SearchState P} (hC : NotFatal C) (hr : Collects f C st r)
    (hk : ∀ st', st'.mode = st.mode → Collects f D st' (k none st'))
    (hgrows : ∀ found st, Grows st (k found st).2) : Collects f (C ++ D) st (mergeMethod none r k) := by
  by_cases hok : AllOk f st.reports C
  · obtain ⟨h1, h2⟩ := hr.ok hok
    obtain ⟨o, st'⟩ := r
    obtain rfl : o = .fail := h1
    exact .of_ok hok h2 (hk st' h2.mode)
  · refine .of_not_ok hok (fun pre c he hc => ?_) fun pre c he hc => ?_
    · obtain ⟨h, h1, h2, h3, h4⟩ := hr.done pre c he hc
      obtain ⟨o, st'⟩ := r
      obtain rfl : o = .found h.method := h2
      refine ⟨h, h1, ?_⟩
      simp only [mergeMethod, hC c he.mem h h1, Option.isSome_none, Bool.false_eq_true, if_false]
      exact ⟨trivial, h3, h4⟩
    · exact Nat.lt_of_lt_of_le (hr.again pre c he hc) (mergeMethod_grows hgrows)

/-! ### The method lists -/

omit [DecidableEq P] in
/-- The state once the callback has been called about a hit. -/
def called (st : SearchState P) (inheritance : ℕ) (h : Hit P) : SearchState P :=
  { st with result := some h, reports := ⟨h.cls, inheritance, some h⟩ :: st.reports }

omit [DecidableEq P] in
lemma endsAt_singleton {reports : List (Report P)} {pre : List (Call P)} {c d : Call P}
    (h : EndsAt f reports [d] pre c) : pre = [] ∧ c = d ∧ f (d.report :: reports) = .done := by
  obtain ⟨⟨post, hsplit⟩, -, hdone⟩ := h
  cases pre with
  | cons d' pre => simp at hsplit
  | nil =>
    obtain rfl : d = c := by simpa using (List.cons.inj hsplit).1
    exact ⟨rfl, rfl, hdone⟩

omit [DecidableEq P] in
lemma countMethod_collects (hcb : search.callback = some f) {list : MethodList} {method : Method}
    (hfatal : method.isHiddenOverrideFatal = false) :
    ListCollects f [⟨⟨cls, inheritance, some ⟨cls, list, method⟩⟩, false⟩] inheritance st
      (countMethod search cls none inheritance list method st) where
  own := by simp
  ok hok := by
    have : f (⟨cls, inheritance, some ⟨cls, list, method⟩⟩ :: st.reports) = .ok := hok.1
    refine ⟨called st inheritance ⟨cls, list, method⟩, ?_, rfl, rfl, rfl⟩
    simp [countMethod, called, hcb, this]
  done pre c he := by
    obtain ⟨rfl, rfl, hdone⟩ := endsAt_singleton he
    refine ⟨⟨cls, list, method⟩, called st inheritance ⟨cls, list, method⟩, rfl, ?_, rfl, rfl, rfl, rfl⟩
    simp only at hdone
    simp [countMethod, called, keepMethod, hcb, hdone, hfatal]

omit [DecidableEq P] in
lemma listCollects_nil (f : List (Report P) → WalkCommand) (inheritance : ℕ) (st : SearchState P) :
    ListCollects f [] inheritance st (.next none inheritance st) where
  own := by simp
  ok _ := ⟨st, rfl, After.refl st⟩
  done _ _ h := absurd h not_endsAt_nil

omit [DecidableEq P] in
lemma searchMethodlist_collects (hcb : search.callback = some f) (hm : st.mode = .default) {list : MethodList}
    (hfatal : NotFatal (listCalls search.methodid cls inheritance false [list])) :
    ListCollects f (listCalls search.methodid cls inheritance false [list]) inheritance st
      (searchMethodlist g search cls none inheritance list st) := by
  rw [searchMethodlist_counting (Or.inl hm)]
  unfold listCalls at hfatal ⊢
  cases hs : list.search search.methodid with
  | none => simpa [hs] using listCollects_nil f inheritance st
  | some method =>
    have hp : ¬ (st.mode = .previousMethod ∧ isPreviousMethod search method = true) := fun h => by simp [hm] at h
    simp only [List.filterMap_cons, hs, Option.map_some, List.filterMap_nil, if_neg hp] at hfatal ⊢
    exact countMethod_collects hcb (hfatal _ (List.mem_singleton_self _) _ rfl)

omit [DecidableEq P] in
lemma listCalls_cons (methodid : ℕ) (inMixin : Bool) (list : MethodList) (rest : List MethodList) :
    listCalls methodid cls inheritance inMixin (list :: rest) =
      listCalls methodid cls inheritance inMixin [list] ++ listCalls methodid cls inheritance inMixin rest := by
  unfold listCalls
  rw [← List.filterMap_append]
  rfl

/-- The lists that are looked into: under `DONT_INHERIT_CLASS` the last one enumerated is left out. -/
def unlessLast (inheritance : ℕ) (lists : List MethodList) : List MethodList :=
  if has inheritance dontInheritClass then lists.dropLast else lists

lemma unlessLast_cons {inheritance : ℕ} {list : MethodList} {rest : List MethodList}
    (h : ¬ (has inheritance dontInheritClass = true ∧ rest = [])) :
    unlessLast inheritance (list :: rest) = list :: unlessLast inheritance rest := by
  unfold unlessLast
  cases rest with
  | nil => rw [if_neg fun hcls => h ⟨hcls, rfl⟩, if_neg fun hcls => h ⟨hcls, rfl⟩]
  | cons list' rest => split <;> rfl

omit [DecidableEq P] in
lemma visibleLists_eq_unlessLast (g : ClassGraph P) (cls : ClassRef P) (inheritance : ℕ) :
    visibleLists inheritance (g.methodlists cls) =
      unlessLast inheritance ((g.methodlists cls).take (enumeratedCount g cls inheritance)).reverse := by
  unfold visibleLists unlessLast enumeratedCount
  have hlists : (g.methodlists cls).take (g.methodlists cls).length = g.methodlists cls := List.take_length
  simp only [List.dropLast_reverse, List.drop_one]
  split <;> split <;> simp [hlists]

omit [DecidableEq P] in
/-- The loop over the method lists, which ends early under `DONT_INHERIT_CLASS`. -/
lemma searchMethodlists_collects (hcb : search.callback = some f) {n : ℕ} (lists : List MethodList) (i : ℕ)
    (hn : lists = [] ∨ i + lists.length = n) (hm : st.mode = .default)
    (hfatal : NotFatal (listCalls search.methodid cls inheritance false (unlessLast inheritance lists))) :
    ListCollects f (listCalls search.methodid cls inheritance false (unlessLast inheritance lists)) inheritance st
      (searchMethodlists g search cls n lists i none inheritance st) := by
  induction lists generalizing i st with
  | nil =>
    have : unlessLast inheritance [] = [] := by unfold unlessLast; split <;> rfl
    rw [this]
    exact listCollects_nil f inheritance st
  | cons list rest ih =>
    have hlength : i + (rest.length + 1) = n := by simpa using hn
    rw [searchMethodlists]
    by_cases hlast : has inheritance dontInheritClass = true ∧ rest = []
    · obtain ⟨hcls, rfl⟩ := hlast
      rw [if_pos ⟨hcls, by simpa using hlength⟩, unlessLast, if_pos hcls]
      exact listCollects_nil f inheritance st
    · have hgo : ¬ (has inheritance dontInheritClass = true ∧ i + 1 = n) := fun h =>
        hlast ⟨h.1, List.eq_nil_of_length_eq_zero (by omega)⟩
      rw [unlessLast_cons hlast, listCalls_cons, NotFatal.append] at hfatal
      rw [if_neg hgo, unlessLast_cons hlast, listCalls_cons]
      have hfirst := searchMethodlist_collects (g := g) hcb hm hfatal.1
      by_cases hok : AllOk f st.reports (listCalls search.methodid cls inheritance false [list])
      · obtain ⟨st', hnext, hafter⟩ := hfirst.ok hok
        rw [hnext]
        have hrest := ih (i + 1) (Or.inr (by omega)) (hafter.mode.trans hm) hfatal.2
        refine ⟨fun c hc => (List.mem_append.1 hc).elim (hfirst.own c) (hrest.own c), fun hall => ?_,
          fun pre c he => ?_⟩
        · obtain ⟨st'', h1, h2⟩ := hrest.ok (by rw [hafter.reports]; exact (allOk_append.1 hall).2)
          exact ⟨st'', h1, hafter.trans h2⟩
        · obtain he' | ⟨-, pre', rfl, he'⟩ := he.append
          · exact absurd he' hok.not_endsAt
          · rw [← hafter.reports] at he'
            obtain ⟨h, st'', h1, h2, h3, h4⟩ := hrest.done pre' c he'
            rw [List.append_assoc]
            exact ⟨h, st'', h1, h2, h3, hafter.trans h4⟩
      · refine ⟨fun c hc => ?_, fun hall => absurd (allOk_append.1 hall).1 hok, fun pre c he => ?_⟩
        · rw [← listCalls_cons] at hc
          unfold listCalls at hc
          obtain ⟨l, -, hl⟩ := List.mem_filterMap.1 hc
          obtain ⟨m, -, rfl⟩ := Option.map_eq_some_iff.1 hl
          rfl
        · obtain ⟨h, st', h1, h2, h3, h4⟩ := hfirst.done pre c (he.append.resolve_right fun h => hok h.1)
          rw [h2]
          exact ⟨h, st', h1, rfl, h3, h4⟩

/-! ### Mixins and superclass -/

omit [DecidableEq P] in
lemma ownCalls_inMixin (g : ClassGraph P) (methodid : ℕ) (cls : ClassRef P) (inheritance : ℕ) :
    ∀ c ∈ ownCalls g methodid cls inheritance true, c.inMixin = true := by
  intro c hc
  unfold ownCalls listCalls at hc
  obtain ⟨l, -, hl⟩ := List.mem_filterMap.1 hc
  obtain ⟨m, -, rfl⟩ := Option.map_eq_some_iff.1 hl
  rfl

/-- The call as it looks from inside the mixin. -/
def Call.alone (c : Call P) : Call P := { c with inMixin := false }

omit [DecidableEq P] in
lemma ownCalls_alone (g : ClassGraph P) (methodid : ℕ) (cls : ClassRef P) (inheritance : ℕ) :
    (ownCalls g methodid cls inheritance true).map Call.alone = ownCalls g methodid cls inheritance false := by
  unfold ownCalls listCalls
  rw [List.map_filterMap]
  refine List.filterMap_congr fun list _ => ?_
  rw [Option.map_map]
  rfl

omit [DecidableEq P] in
lemma told_alone (C : List (Call P)) (reports : List (Report P)) :
    told (C.map Call.alone) reports = told C reports := by
  unfold told
  rw [List.map_map]
  rfl

omit [DecidableEq P] in
lemma allOk_alone {C : List (Call P)} {reports : List (Report P)} :
    AllOk f reports (C.map Call.alone) ↔ AllOk f reports C := by
  induction C generalizing reports with
  | nil => rfl
  | cons c C ih =>
    rw [List.map_cons, AllOk, AllOk, ih]
    rfl

omit [DecidableEq P] in
lemma EndsAt.alone {C pre : List (Call P)} {c : Call P} {reports : List (Report P)} (h : EndsAt f reports C pre c) :
    EndsAt f reports (C.map Call.alone) (pre.map Call.alone) c.alone := by
  obtain ⟨⟨post, rfl⟩, hok, hdone⟩ := h
  refine ⟨⟨post.map Call.alone, by simp⟩, allOk_alone.2 hok, ?_⟩
  rw [← List.map_singleton, ← List.map_append, told_alone]
  exact hdone

/-- The mixins one after the other: a match that ends the search is told to the callback a second time. -/
lemma searchMixins_collects (hcb : search.callback = some f)
    (hgrows : ∀ ref inheritance st, Grows st (frame ref inheritance st).2) (mixins : List P)
    (hframe : ∀ proto ∈ mixins.filter (· ≠ cls.pair), ∀ st, st.mode = .default →
      Collects f
        (ownCalls g search.methodid (mixinRef cls proto) (inheritance ||| g.inheritance (mixinRef cls proto)) false) st
        (frame (mixinRef cls proto) (inheritance ||| g.inheritance (mixinRef cls proto)) st))
    (hm : st.mode = .default) :
    Collects f ((mixins.filter (· ≠ cls.pair)).flatMap fun proto =>
        ownCalls g search.methodid (mixinRef cls proto) (inheritance ||| g.inheritance (mixinRef cls proto)) true) st
      (searchMixins g search frame cls inheritance mixins none st) := by
  induction mixins generalizing st with
  | nil => exact collects_nil f st
  | cons proto rest ih =>
    by_cases hp : proto = cls.pair
    · rw [List.filter_cons_of_neg (by simp [hp])] at hframe ⊢
      rw [searchMixins, if_pos hp]
      exact ih hframe hm
    · rw [List.filter_cons_of_pos (by simpa using hp)] at hframe ⊢
      rw [List.flatMap_cons]
      have ih := fun (st' : SearchState P) (hm' : st'.mode = .default) =>
        ih (fun proto hproto => hframe proto (List.mem_cons_of_mem _ hproto)) hm'
      have h := hframe proto List.mem_cons_self st hm
      rw [← ownCalls_alone] at h
      by_cases hok : AllOk f st.reports
          (ownCalls g search.methodid (mixinRef cls proto) (inheritance ||| g.inheritance (mixinRef cls proto)) true)
      · obtain ⟨h1, h2⟩ := h.ok (allOk_alone.2 hok)
        rw [told_alone] at h2
        obtain ⟨o, st', hr⟩ : ∃ o st',
            frame (mixinRef cls proto) (inheritance ||| g.inheritance (mixinRef cls proto)) st = (o, st') := ⟨_, _, rfl⟩
        rw [hr] at h1 h2
        obtain rfl : o = .fail := h1
        rw [searchMixins_fail hp hr]
        exact .of_ok hok h2 (ih _ (h2.mode.trans hm))
      · refine .of_not_ok hok (fun pre c he hc => ?_) fun pre c he _ => ?_
        · rw [ownCalls_inMixin _ _ _ _ c he.mem] at hc
          cases hc
        · obtain ⟨hit, -, h2, -, h4⟩ := h.done _ _ he.alone rfl
          obtain ⟨o, st', hr⟩ : ∃ o st',
              frame (mixinRef cls proto) (inheritance ||| g.inheritance (mixinRef cls proto)) st = (o, st') :=
            ⟨_, _, rfl⟩
          rw [hr] at h2 h4
          obtain rfl : o = .found hit.method := h2
          rw [searchMixins_found hp hr]
          have : st'.reports.length < (afterMixin search cls inheritance none hit.method st' fun found st =>
              searchMixins g search frame cls inheritance rest found st).2.reports.length :=
            afterMixin_again hcb fun found st => searchMixins_grows hgrows rest
          rw [h4.reports, ← List.map_singleton, ← List.map_append, told_alone] at this
          exact this

omit [DecidableEq P] in
lemma NotFatal.alone {C : List (Call P)} (h : NotFatal C) : NotFatal (C.map Call.alone) := by
  intro c hc
  obtain ⟨d, hd, rfl⟩ := List.mem_map.1 hc
  exact h d hd

/-- The frames a class object's frame goes on to make their calls: those of the mixins, which their flags end
there, and that of the superclass. -/
structure NextCollects (search : SearchArguments P) (f : List (Report P) → WalkCommand) (g : ClassGraph P)
    (frame : Frame P) (cls : ClassRef P) (inheritance : ℕ) : Prop where
  grows : ∀ ref inheritance st, Grows st (frame ref inheritance st).2
  mixin : has inheritance dontInheritProtocols = false → ∀ proto st, st.mode = .default →
    NotFatal (ownCalls g search.methodid (mixinRef cls proto)
      (mixinFlags inheritance ||| g.inheritance (mixinRef cls proto)) false) →
    Collects f (ownCalls g search.methodid (mixinRef cls proto)
        (mixinFlags inheritance ||| g.inheritance (mixinRef cls proto)) false) st
      (frame (mixinRef cls proto) (mixinFlags inheritance ||| g.inheritance (mixinRef cls proto)) st)
  super : ∀ supercls, g.superclass cls = some supercls → has inheritance dontInheritSuperclass = false →
    ∀ st, st.mode = .default →
      NotFatal (calls g search.methodid supercls (searchInheritance g cls supercls inheritance)) →
      Collects f (calls g search.methodid supercls (searchInheritance g cls supercls inheritance)) st
        (frame supercls (searchInheritance g cls supercls inheritance) st)

section Next

variable (hcb : search.callback = some f) (hnext : NextCollects search f g frame cls inheritance)
include hnext

lemma searchSuperclass_collects (hm : st.mode = .default)
    (hfatal : NotFatal (superCalls g search.methodid cls inheritance)) :
    Collects f (superCalls g search.methodid cls inheritance) st
      (searchSuperclass g frame cls none inheritance st) := by
  rcases searchSuperclass_cases g frame cls none inheritance st with ⟨hno, heq⟩ | ⟨supercls, hs, hi, heq⟩
  · rw [heq, superCalls_eq_nil hno]
    exact collects_nil f st
  · rw [superCalls_eq hs hi] at hfatal ⊢
    rw [heq, ← List.append_nil (calls _ _ _ _)]
    exact mergeMethod_collects hfatal (hnext.super supercls hs hi st hm hfatal) (fun st' _ => collects_nil f st')
      fun _ _ => Nat.le_refl _

include hcb

lemma nextClass_collects (hm : st.mode = .default)
    (hfatal : NotFatal (mixinCalls g search.methodid cls inheritance ++ superCalls g search.methodid cls inheritance)) :
    Collects f (mixinCalls g search.methodid cls inheritance ++ superCalls g search.methodid cls inheritance) st
      (nextClass g search frame cls none inheritance st) := by
  obtain ⟨hmixins, hsuper⟩ := NotFatal.append.1 hfatal
  rcases nextClass_cases search g frame cls none inheritance st with ⟨hno, heq⟩ | ⟨hp, hmixin, heq⟩
  · rw [heq, mixinCalls, if_pos hno]
    exact searchSuperclass_collects hnext hm hsuper
  · have hcalls : Collects f (mixinCalls g search.methodid cls inheritance) st
        (searchMixins g search frame cls (mixinFlags inheritance) (g.pair cls.pair).mixins.reverse none st) := by
      rw [mixinCalls, if_neg (by simp [hp, hmixin])] at hmixins ⊢
      refine searchMixins_collects hcb hnext.grows _ (fun proto hproto st hm => hnext.mixin hp proto st hm ?_) hm
      rw [← ownCalls_alone]
      exact NotFatal.alone fun c hc => hmixins c (List.mem_flatMap.2 ⟨proto, hproto, hc⟩)
    rw [heq]
    exact mergeMethod_collects hmixins hcalls (fun st' hm' => searchSuperclass_collects hnext (hm'.trans hm) hsuper)
      fun found st => searchSuperclass_grows hnext.grows

/-- A frame that searches its own class object. -/
lemma searchFrame_collects (hstop : search.stopClassid = 0) (hm : st.mode = .default)
    (hfatal : NotFatal (calls g search.methodid cls inheritance)) :
    Collects f (calls g search.methodid cls inheritance) st (searchFrame g search frame cls inheritance st) := by
  rw [calls_eq, NotFatal.append] at hfatal
  have hframe : searchFrame g search frame cls inheritance st = searchClass g search frame cls inheritance st := by
    unfold searchFrame
    rw [hm]
  rw [calls_eq, hframe, searchClass, if_neg (by rw [hstop]; exact ClassGraph.classid_ne_zero)]
  have hlists : ListCollects f (listCalls search.methodid cls inheritance false
        (unlessLast inheritance ((g.methodlists cls).take (enumeratedCount g cls inheritance)).reverse)) inheritance st
      (searchMethodlists g search cls (enumeratedCount g cls inheritance)
        ((g.methodlists cls).take (enumeratedCount g cls inheritance)).reverse 0 none inheritance st) := by
    refine searchMethodlists_collects hcb _ 0 ?_ hm ?_
    · unfold enumeratedCount
      cases g.methodlists cls with
      | nil => simp
      | cons list rest =>
        right
        split <;> simp
    · rw [← visibleLists_eq_unlessLast]
      exact hfatal.1
  rw [← visibleLists_eq_unlessLast] at hlists
  change ListCollects f (ownCalls g search.methodid cls inheritance false) inheritance st _ at hlists
  by_cases hok : AllOk f st.reports (ownCalls g search.methodid cls inheritance false)
  · obtain ⟨st', h1, h2⟩ := hlists.ok hok
    simp only [h1, afterMethodlists, h2.mode, hm]
    exact .of_ok hok h2 (nextClass_collects hcb hnext (h2.mode.trans hm) hfatal.2)
  · refine .of_not_ok hok (fun pre c he _ => ?_) fun pre c he hc => ?_
    · obtain ⟨h, st', h1, h2, h3, h4⟩ := hlists.done pre c he
      simp only [h2]
      exact ⟨h, h1, rfl, h3, h4⟩
    · rw [hlists.own c he.mem] at hc
      cases hc

end Next

lemma calls_own {methodid : ℕ} (hp : has inheritance dontInheritProtocols = true)
    (hs : has inheritance dontInheritSuperclass = true) :
    calls g methodid cls inheritance = ownCalls g methodid cls inheritance false := by
  rw [calls_eq, mixinCalls, if_pos (Or.inl hp), superCalls]
  cases g.superclass cls with
  | none => simp
  | some supercls => simp [hs]

/-- **The recursive search makes its calls**, at every depth that covers the superclasses. -/
theorem searchMethodInternal_collects (hcb : search.callback = some f) (hstop : search.stopClassid = 0) {fuel : ℕ}
    (hfuel : g.rank cls + 2 ≤ fuel ∨ 0 < fuel ∧ has inheritance dontInheritProtocols = true ∧
      has inheritance dontInheritSuperclass = true)
    (hm : st.mode = .default) (hfatal : NotFatal (calls g search.methodid cls inheritance)) :
    Collects f (calls g search.methodid cls inheritance) st
      (searchMethodInternal search g fuel cls inheritance st) := by
  refine frames_induction (motive := fun fuel cls inheritance => ∀ st : SearchState P, st.mode = .default →
    NotFatal (calls g search.methodid cls inheritance) → Collects f (calls g search.methodid cls inheritance) st
      (searchMethodInternal search g fuel cls inheritance st))
    hfuel (fun fuel cls inheritance hmixin hsuper st hm hfatal => ?_) st hm hfatal
  refine searchFrame_collects hcb ⟨searchMethodInternal_grows search g fuel, fun hp proto st hm hfatal => ?_,
    fun supercls hs hi => hsuper hi supercls hs _⟩ hstop hm hfatal
  -- a mixin is searched with flags that end the search there
  rw [← calls_own (has_mixinFlags_protocols inheritance _) (has_mixinFlags_superclass inheritance _)] at hfatal ⊢
  exact hmixin hp proto inheritance st hm hfatal

end Collects

/-! ## The collecting search -/

/-- `mulle_objc_searcharguments_make_default` with a callback. -/
def SearchArguments.makeCollect (methodid : ℕ) (f : List (Report P) → WalkCommand) : SearchArguments P :=
  { (makeDefault methodid : SearchArguments P) with callback := some f }

section Collecting

variable {f : List (Report P) → WalkCommand} {C : List (Call P)} {methodid : ℕ} {g : ClassGraph P}
  {cls : ClassRef P} {inheritance : ℕ}

/-- The callback answers `ok` to the calls before the one at `last` and `done` to that one, or `ok` to all. -/
def Answers (f : List (Report P) → WalkCommand) (C : List (Call P)) : Option ℕ → Prop
  | none => AllOk f [] C
  | some k => k < C.length ∧ AllOk f [] (C.take k) ∧ f (told (C.take (k + 1)) []) = .done

/-- The callback was called once for each match up to the one at `last`, in their order, and that match is
returned; without a `last` it was called once for each match, and no method is returned. -/
def Collected (candidates : List (Hit P)) (last : Option ℕ) (r : Outcome × SearchState P) : Prop :=
  r.2.reports.reverse.map Report.result =
      (match last with | none => candidates | some k => candidates.take (k + 1)).map some ∧
    Returns r (last.bind fun k => candidates[k]?)

omit [DecidableEq P] in
lemma Answers.endsAt {k : ℕ} {c : Call P} (h : Answers f C (some k)) (hc : C[k]? = some c) :
    EndsAt f [] C (C.take k) c := by
  obtain ⟨hk, hok, hdone⟩ := h
  obtain ⟨-, rfl⟩ := List.getElem?_eq_some_iff.1 hc
  refine ⟨⟨C.drop (k + 1), ?_⟩, hok, ?_⟩
  · rw [← List.drop_eq_getElem_cons hk, List.take_append_drop]
  · rwa [List.take_append_getElem hk]

omit [DecidableEq P] in
lemma told_results (C : List (Call P)) :
    (told C []).reverse.map Report.result = C.map fun c => c.report.result := by
  unfold told
  rw [List.append_nil, List.reverse_reverse, List.map_map]
  rfl

omit [DecidableEq P] in
lemma whenMissing_reports (r : Outcome × SearchState P) :
    (whenMissing (checkAnchor r) fun st => (.null, st)).2.reports = r.2.reports := by
  obtain ⟨o, st⟩ := r
  unfold checkAnchor
  split
  · rfl
  · cases o with
    | fail =>
      rw [whenMissing_fail]
      split <;> rfl
    | _ => rfl

lemma calls_notFatal
    (hfatal : ∀ h ∈ hits methodid (linearization g cls inheritance), h.method.isHiddenOverrideFatal = false) :
    NotFatal (calls g methodid cls inheritance) := by
  intro c hc h hresult
  have : some h ∈ (calls g methodid cls inheritance).map fun c => c.report.result :=
    List.mem_map.2 ⟨c, hc, hresult⟩
  rw [calls_results] at this
  obtain ⟨h', hh', heq⟩ := List.mem_map.1 this
  exact hfatal h (Option.some.inj heq ▸ hh')

/-- **A collecting search calls its callback once for each match, in their order, and returns the match at which
it is told to stop, exactly when this match is not in a mixin.**  In a mixin the callback is called for the same
match again. -/
theorem collect_iff (g : ClassGraph P) (cls : ClassRef P) (methodid inheritance : ℕ)
    (f : List (Report P) → WalkCommand) (last : Option ℕ)
    (hfatal : ∀ h ∈ hits methodid (linearization g cls inheritance), h.method.isHiddenOverrideFatal = false)
    (hanswers : Answers f (calls g methodid cls inheritance) last) :
    Collected (hits methodid (linearization g cls inheritance)) last
        (searchMethod g [] cls (.makeCollect methodid f) inheritance) ↔
      ∀ k c, last = some k → (calls g methodid cls inheritance)[k]? = some c → c.inMixin = false := by
  have hresults : (calls g methodid cls inheritance).map (fun c => c.report.result) =
      (hits methodid (linearization g cls inheritance)).map some := calls_results cls inheritance
  have hr : Collects f (calls g (SearchArguments.makeCollect methodid f).methodid cls inheritance)
      ⟨.default, .ENOENT, none, []⟩
      (searchMethodInternal (.makeCollect methodid f) g (g.rank cls + 2) cls inheritance
        ⟨.default, .ENOENT, none, []⟩) :=
    searchMethodInternal_collects rfl rfl (Or.inl (Nat.le_refl _)) rfl (calls_notFatal hfatal)
  rw [searchMethod_eq .default rfl, searchMethodOnce]
  change Collects f (calls g methodid cls inheritance) _ _ at hr
  generalize searchMethodInternal _ g _ cls inheritance _ = r at hr
  have hcheck : r.2.mode = .default → checkAnchor r = r := fun h => by
    rw [checkAnchor, if_neg (by rw [h]; decide)]
  generalize calls g methodid cls inheritance = C at *
  generalize hits methodid (linearization g cls inheritance) = M at *
  cases last with
  | none =>
    obtain ⟨h1, h2⟩ := hr.ok hanswers
    refine ⟨fun _ k c h => by simp at h, fun _ => ?_⟩
    rw [hcheck h2.mode]
    obtain ⟨o, st⟩ := r
    obtain rfl : o = .fail := h1
    have herror : st.error = .ENOENT := h2.error
    have hreports : st.reports = told C [] := h2.reports
    rw [whenMissing_fail, if_neg (by rw [herror]; decide)]
    refine ⟨?_, rfl⟩
    rw [hreports, told_results, hresults]
  | some k =>
    have hk : k < C.length := hanswers.1
    have hc : C[k]? = some C[k] := List.getElem?_eq_getElem hk
    have hends := hanswers.endsAt hc
    have htake : C.take k ++ [C[k]] = C.take (k + 1) := List.take_append_getElem hk
    constructor
    · intro hcollected k' c hk' hc'
      obtain rfl : k = k' := by simpa using hk'
      obtain rfl : C[k] = c := by simpa [hc] using hc'
      by_contra hmixin
      have hmore := hr.again _ _ hends (by simpa using hmixin)
      have hlength := congrArg List.length hcollected.1
      rw [whenMissing_reports] at hlength
      rw [htake, length_told] at hmore
      simp only [List.length_map, List.length_reverse, List.length_take, List.length_nil, Nat.add_zero]
        at hlength hmore
      have := congrArg List.length hresults
      simp only [List.length_map] at this
      omega
    · intro hmixin
      obtain ⟨h, h1, h2, h3, h4⟩ := hr.done _ _ hends (hmixin k C[k] rfl hc)
      have hM : M[k]? = some h := by
        have : (M.map some)[k]? = some (some h) := by rw [← hresults, List.getElem?_map, hc, Option.map_some, h1]
        simpa using this
      rw [hcheck h4.mode]
      obtain ⟨o, st⟩ := r
      obtain rfl : o = .found h.method := h2
      have hreports : st.reports = told (C.take k ++ [C[k]]) [] := h4.reports
      rw [whenMissing_found]
      refine ⟨?_, ?_⟩
      · rw [hreports, told_results, htake, List.map_take, hresults, ← List.map_take]
      · rw [Option.bind_some, hM]
        exact ⟨rfl, h3⟩

end Collecting

/-- A callback that ends the search at the first match, which is in the root class. -/
theorem collect_iff_sample :
    Collected (hits 7 (linearization sampleGraph ⟨2, false⟩ 0)) (some 0)
        (searchMethod sampleGraph [] ⟨2, false⟩ (.makeCollect 7 fun _ => .done) 0) := by
  refine (collect_iff sampleGraph ⟨2, false⟩ 7 0 (fun _ => .done) (some 0) (by decide)
    ⟨by decide, trivial, rfl⟩).2 fun k c hk hc => ?_
  obtain rfl : 0 = k := by simpa using hk
  have hown : ((calls sampleGraph 7 ⟨2, false⟩ 0)[0]?).map Call.inMixin = some false := by decide
  rw [hc] at hown
  simpa using hown

/-- A root class `1` that has the method `7` from the mixin `0` only. -/
def mixinOnlyGraph : ClassGraph ℕ :=
  ClassGraph.ofList
    [ClassGraph.pairOf 2 none [] true ⟨0, [.single 0 ⟨100, 7, 0, 1000⟩]⟩ ⟨0, [.empty]⟩,
      ClassGraph.pairOf 1 none [0] false ⟨0, [.empty]⟩ ⟨0, [.empty]⟩]

/-- The callback, which ends the search at the only match, is called for it twice. -/
theorem mixin_match_told_twice :
    Answers (fun _ => .done) (calls mixinOnlyGraph 7 ⟨1, false⟩ 0) (some 0) ∧
      (searchMethod mixinOnlyGraph [] ⟨1, false⟩ (.makeCollect 7 fun _ => .done) 0).2.reports.length = 2 ∧
      ¬ Collected (hits 7 (linearization mixinOnlyGraph ⟨1, false⟩ 0)) (some 0)
        (searchMethod mixinOnlyGraph [] ⟨1, false⟩ (.makeCollect 7 fun _ => .done) 0) := by
  refine ⟨⟨by decide, trivial, rfl⟩, by decide, fun h => ?_⟩
  have := congrArg List.length h.1
  revert this
  decide

end MulleObjcRuntime.Search
