import MulleObjcRuntime.Impcache.Table
import MulleObjcRuntime.Invalidation.Threads
import MulleObjcRuntime.Lib.Runs

/-!
# Entries that are out of date

* `uncached`, `SlotsAgree` — what a lookup yields without the cache, and that the caches say the same;
* `Local.holds`, `Undisturbed` — the searches whose results a lookup still uses, and that an added list does not change them;
* `ThreadsInv` — an entry that is out of date is in a cache that some thread has still to replace;
* `ThreadsInv.begin` — a new operation keeps the invariant;
* `ThreadsInv.install` and its siblings — the accesses to a class keep it.
-/

namespace MulleObjcRuntime.Invalidation

open Classes Search Impcache Lib.Interleaving Lib.Runs

variable {ι P : Type} [DecidableEq ι] [DecidableEq P] (rt : Runtime P)

/-- What a lookup yields that asks no cache. -/
def uncached (g : ClassGraph P) (cls : ClassRef P) (methodid : ℕ) : Option Method :=
  (defaultsearchMethod g cls methodid).or (searchForwardmethod rt g cls)

/-- Whatever is in the cache of a class is what a lookup yields without it. -/
def SlotsAgree (s : Shared P) : Prop :=
  ∀ cls ∈ rt.classes, ∀ methodid ≠ 0, ∀ imp, (s.classes cls).current.cached methodid = some imp →
    ∃ method, uncached rt s.graph cls methodid = some method ∧ method.implementation = imp

/-- All threads are done. -/
def Finished (s : ThreadsState ι P) : Prop := ∀ i, s.thread i = .idle

/-- The searches whose results a lookup still uses: from the search to the end of the fill. -/
def Local.holds : Local P → List (ClassRef P × ℕ)
  | .needsForward cls methodid _ | .searchingForward cls methodid _ => [(cls, methodid)]
  | .storingForward cls methodid _ _ => [(cls, methodid), (cls, forwardMethodid)]
  | .filling cls methodid _ | .reading cls methodid _ | .growing cls methodid _ _ | .adding cls methodid _ _ =>
    [(cls, methodid)]
  | _ => []

/-- A search whose result is in use: a lookup is behind it, or the class keeps it as its forward method. -/
def InUse (s : ThreadsState ι P) (cls : ClassRef P) (methodid : ℕ) : Prop :=
  (∃ i, (cls, methodid) ∈ (s.thread i).holds) ∨
    (methodid = forwardMethodid ∧ (s.shared.classes cls).forwardmethod ≠ none)

/-- A step adds no method list that changes a search whose result is in use. -/
def Undisturbed (s : ThreadsState ι P) : ι × Option (Command P) → Prop
  | (_, some (.addMethodlist cls list)) =>
    ∀ c methodid, InUse s c methodid →
      defaultsearchMethod (addMethodlist s.shared.graph cls list) c methodid =
        defaultsearchMethod s.shared.graph c methodid
  | _ => True

/-! ## The invariant -/

/-- The method a lookup has found: in the lists, or by forwarding. -/
def Found (s : Shared P) (cls : ClassRef P) (methodid : ℕ) (method : Method) : Prop :=
  defaultsearchMethod s.graph cls methodid = some method ∨
    (defaultsearchMethod s.graph cls methodid = none ∧ (s.classes cls).forwardmethod = some method)

/-- A cache nobody has seen yet. -/
def Unused (cache : Cache) : Prop := cache.Valid rt.shift ∧ cache.n = 0

/-- What holds of a class at all times. -/
structure ClassOk (s : Shared P) (cls : ClassRef P) : Prop where
  valid : ∀ a, ((s.classes cls).cache a).Valid rt.shift
  pivot_lt : (s.classes cls).pivot < (s.classes cls).count
  ready : ∀ a methodid, methodid ≠ 0 → ((s.classes cls).cache a).cached methodid ≠ none →
    (s.classes cls).cacheReady = true ∧ rt.alwaysEmptyCache cls = false
  counted : (s.classes cls).cacheReady = true → rt.alwaysEmptyCache cls = true ∨ s.cachecount_1 ≠ 0
  forward : ∀ method, (s.classes cls).forwardmethod = some method → searchForwardmethod rt s.graph cls = some method

/-- A lookup that fills the cache. -/
structure Caching (s : Shared P) (cls : ClassRef P) (methodid : ℕ) (method : Method) : Prop where
  methodid_ne : methodid ≠ 0
  found : Found s cls methodid method
  ready : (s.classes cls).cacheReady = true
  notEmpty : rt.alwaysEmptyCache cls = false

/-- A new cache is one nobody has seen. -/
def Swap.Ok : Swap → Prop
  | .resize _ => True
  | .reread new => Unused rt new
  | .exchange new _ => Unused rt new

/-- What a thread relies on. -/
def Local.Ok (s : Shared P) : Local P → Prop
  | .searching _ methodid _ => methodid ≠ 0
  | .needsForward cls methodid _ | .searchingForward cls methodid _ =>
    methodid ≠ 0 ∧ defaultsearchMethod s.graph cls methodid = none
  | .storingForward cls methodid _ method =>
    methodid ≠ 0 ∧ defaultsearchMethod s.graph cls methodid = none ∧
      searchForwardmethod rt s.graph cls = some method
  | .filling cls methodid method => methodid ≠ 0 ∧ Found s cls methodid method
  | .reading cls methodid method => Caching rt s cls methodid method
  | .growing cls methodid method swap => Caching rt s cls methodid method ∧ swap.Ok rt
  | .adding cls methodid method cache =>
    Caching rt s cls methodid method ∧ method.implementation ≠ 0 ∧ cache < (s.classes cls).count
  | .swapping _ _ swap _ => swap.Ok rt
  | .installing _ new => Unused rt new ∧ s.cachecount_1 ≠ 0
  | .marking cls => rt.alwaysEmptyCache cls = true ∨ s.cachecount_1 ≠ 0
  | _ => True

/-- A swap that will replace the cache in force. -/
def Swap.Replaces (pivot : ℕ) : Swap → Prop
  | .resize _ | .reread _ => True
  | .exchange _ old => old = pivot

/-- Some method of a list has the id. -/
def HasId (methods : List Method) (methodid : ℕ) : Prop := ∃ m ∈ methods, m.methodid = methodid

/-- A thread has still to look for an id in the cache of a class, or is about to replace the cache. -/
def Local.Handles (pivot : ℕ) (cls : ClassRef P) (methodid : ℕ) : Local P → Prop
  | .added list => HasId list.methods methodid
  | .walking list rest => cls ∈ rest ∧ HasId list.methods methodid
  | .visiting list c methods rest =>
    (cls ∈ rest ∧ HasId list.methods methodid) ∨ (cls = c ∧ HasId methods methodid)
  | .probing list c m methods rest cache =>
    (cls ∈ rest ∧ HasId list.methods methodid) ∨
      (cls = c ∧ (HasId methods methodid ∨ (methodid = m ∧ cache = pivot)))
  | .swapping list c swap rest => (cls ∈ rest ∧ HasId list.methods methodid) ∨ (cls = c ∧ swap.Replaces pivot)
  | _ => False

/-- An entry that is not what a lookup finds is in a cache that some thread has still to replace. -/
def Covered (s : ThreadsState ι P) : Prop :=
  ∀ cls ∈ rt.classes, ∀ methodid ≠ 0, ∀ imp, (s.shared.classes cls).current.cached methodid = some imp →
    (∃ method, Found s.shared cls methodid method ∧ method.implementation = imp) ∨
      ∃ i, (s.thread i).Handles (s.shared.classes cls).pivot cls methodid

/-- The invariant. -/
structure ThreadsInv (s : ThreadsState ι P) : Prop where
  classOk : ∀ cls, ClassOk rt s.shared cls
  ok : ∀ i, (s.thread i).Ok rt s.shared
  covered : Covered rt s

variable {rt}

omit [DecidableEq ι] [DecidableEq P] in
lemma not_handles {s : ThreadsState ι P} {i : ι} {l : Local P} (hi : s.thread i = l)
    (hl : ∀ pivot c methodid, ¬ l.Handles pivot c methodid) :
    ∀ pivot c methodid, ¬ (s.thread i).Handles pivot c methodid := by
  rw [hi]
  exact hl

/-! ## What the others rely on -/

/-- What can become of the shared state apart from the method lists. -/
structure Later (s s' : Shared P) : Prop where
  counted : s.cachecount_1 ≠ 0 → s'.cachecount_1 ≠ 0
  count_le : ∀ cls, (s.classes cls).count ≤ (s'.classes cls).count
  ready : ∀ cls, (s.classes cls).cacheReady = true → (s'.classes cls).cacheReady = true
  forward : ∀ cls method, (s.classes cls).forwardmethod = some method → (s'.classes cls).forwardmethod = some method

omit [DecidableEq P] in
lemma Later.refl (s : Shared P) : Later s s := ⟨id, fun _ => Nat.le_refl _, fun _ => id, fun _ _ => id⟩

lemma Found.later {s s' : Shared P} (hlater : Later s s') {cls : ClassRef P} {methodid : ℕ} {method : Method}
    (h : Found s cls methodid method)
    (hsearch : defaultsearchMethod s'.graph cls methodid = defaultsearchMethod s.graph cls methodid) :
    Found s' cls methodid method := by
  unfold Found
  rw [hsearch]
  exact h.imp_right fun h => ⟨h.1, hlater.forward cls method h.2⟩

lemma Caching.later {s s' : Shared P} (hlater : Later s s') {cls : ClassRef P} {methodid : ℕ} {method : Method}
    (h : Caching rt s cls methodid method)
    (hsearch : defaultsearchMethod s'.graph cls methodid = defaultsearchMethod s.graph cls methodid) :
    Caching rt s' cls methodid method :=
  ⟨h.methodid_ne, h.found.later hlater hsearch, hlater.ready cls h.ready, h.notEmpty⟩

/-- What a thread relies on stays, if the searches do whose results it uses. -/
lemma Local.Ok.later {s s' : Shared P} {l : Local P} (h : l.Ok rt s) (hlater : Later s s')
    (hsearch : ∀ p ∈ l.holds, defaultsearchMethod s'.graph p.1 p.2 = defaultsearchMethod s.graph p.1 p.2) :
    l.Ok rt s' := by
  cases l with
  | needsForward cls methodid mode =>
    have := hsearch (cls, methodid) (by simp [Local.holds])
    exact ⟨h.1, this.trans h.2⟩
  | searchingForward cls methodid mode =>
    have := hsearch (cls, methodid) (by simp [Local.holds])
    exact ⟨h.1, this.trans h.2⟩
  | storingForward cls methodid mode method =>
    have hid := hsearch (cls, methodid) (by simp [Local.holds])
    have hforward := hsearch (cls, forwardMethodid) (by simp [Local.holds])
    refine ⟨h.1, hid.trans h.2.1, ?_⟩
    have := h.2.2
    unfold searchForwardmethod at this ⊢
    simp only at hforward
    rwa [hforward]
  | filling cls methodid method => exact ⟨h.1, h.2.later hlater (hsearch (cls, methodid) (by simp [Local.holds]))⟩
  | reading cls methodid method => exact Caching.later hlater h (hsearch (cls, methodid) (by simp [Local.holds]))
  | growing cls methodid method swap => exact ⟨h.1.later hlater (hsearch (cls, methodid) (by simp [Local.holds])), h.2⟩
  | adding cls methodid method cache =>
    exact ⟨h.1.later hlater (hsearch (cls, methodid) (by simp [Local.holds])), h.2.1,
      Nat.lt_of_lt_of_le h.2.2 (hlater.count_le cls)⟩
  | installing cls new => exact ⟨h.1, hlater.counted h.2⟩
  | marking cls => exact h.imp_right hlater.counted
  | idle | searching | added | walking | visiting | probing | swapping => exact h

/-! ## Steps -/

/-- The invariant after a step: the shared state is in order, the thread that moves is, the searches in use stay, and an
entry is either found by a lookup now, or it was there before and the thread has not given it up. -/
lemma ThreadsInv.moved {s : ThreadsState ι P} (h : ThreadsInv rt s) {i : ι} {shared : Shared P} {l : Local P}
    (hlater : Later s.shared shared) (hclasses : ∀ cls, ClassOk rt shared cls) (hok : l.Ok rt shared)
    (hsearch : ∀ j, ∀ p ∈ (s.thread j).holds,
      defaultsearchMethod shared.graph p.1 p.2 = defaultsearchMethod s.shared.graph p.1 p.2)
    (hcovered : ∀ cls ∈ rt.classes, ∀ methodid ≠ 0, ∀ imp,
      (shared.classes cls).current.cached methodid = some imp →
        (∃ method, Found shared cls methodid method ∧ method.implementation = imp) ∨
          l.Handles (shared.classes cls).pivot cls methodid ∨
          ((shared.classes cls).pivot = (s.shared.classes cls).pivot ∧
            ∃ j ≠ i, (s.thread j).Handles (s.shared.classes cls).pivot cls methodid)) :
    ThreadsInv rt (s.moved i shared l) := by
  refine ⟨hclasses, ?_, ?_⟩
  · exact (forall_moved fun _ (l : Local P) => l.Ok rt shared).2 ⟨hok, fun j _ => (h.ok j).later hlater (hsearch j)⟩
  · intro cls hcls methodid hid imp himp
    rcases hcovered cls hcls methodid hid imp himp with hfound | hhandles | ⟨hpivot, j, hj, hhandles⟩
    · exact Or.inl hfound
    · refine Or.inr ⟨i, ?_⟩
      rw [moved_self]
      exact hhandles
    · refine Or.inr ⟨j, ?_⟩
      rw [moved_ne hj, moved_shared, hpivot]
      exact hhandles

lemma ThreadsInv.moved_local {s : ThreadsState ι P} (h : ThreadsInv rt s) {i : ι} {l : Local P} (hok : l.Ok rt s.shared)
    (hhandles : ∀ cls ∈ rt.classes, ∀ methodid ≠ 0, (s.shared.classes cls).current.cached methodid ≠ none →
      (s.thread i).Handles (s.shared.classes cls).pivot cls methodid →
        l.Handles (s.shared.classes cls).pivot cls methodid) :
    ThreadsInv rt (s.moved i s.shared l) := by
  refine h.moved (Later.refl _) h.classOk hok (fun _ _ _ => rfl) ?_
  intro cls hcls methodid hid imp himp
  rcases h.covered cls hcls methodid hid imp himp with hfound | ⟨j, hj⟩
  · exact Or.inl hfound
  · by_cases hji : j = i
    · subst hji
      exact Or.inr (Or.inl (hhandles cls hcls methodid hid (by rw [himp]; exact Option.some_ne_none _) hj))
    · exact Or.inr (Or.inr ⟨rfl, j, hji, hj⟩)

lemma classes_setClass_self (s : Shared P) (cls : ClassRef P) (c : ClassCaches) : (s.setClass cls c).classes cls = c := by
  simp [Shared.setClass]

lemma classes_setClass_ne (s : Shared P) {cls cls' : ClassRef P} (h : cls' ≠ cls) (c : ClassCaches) :
    (s.setClass cls c).classes cls' = s.classes cls' := by
  simp [Shared.setClass, h]

/-- A step that changes one class. -/
lemma ThreadsInv.moved_class {s : ThreadsState ι P} (h : ThreadsInv rt s) {i : ι} {cls : ClassRef P}
    {c : ClassCaches} {l : Local P}
    (hcount : (s.shared.classes cls).count ≤ c.count)
    (hready : (s.shared.classes cls).cacheReady = true → c.cacheReady = true)
    (hforward : ∀ method, (s.shared.classes cls).forwardmethod = some method → c.forwardmethod = some method)
    (hclass : ClassOk rt (s.shared.setClass cls c) cls) (hok : l.Ok rt (s.shared.setClass cls c))
    (hothers : ∀ cls' ≠ cls, ∀ pivot methodid, (s.thread i).Handles pivot cls' methodid → l.Handles pivot cls' methodid)
    (hcovered : cls ∈ rt.classes → ∀ methodid ≠ 0, ∀ imp, c.current.cached methodid = some imp →
      (∃ method, Found (s.shared.setClass cls c) cls methodid method ∧ method.implementation = imp) ∨
        l.Handles c.pivot cls methodid ∨
        (c.pivot = (s.shared.classes cls).pivot ∧
          ∃ j ≠ i, (s.thread j).Handles (s.shared.classes cls).pivot cls methodid)) :
    ThreadsInv rt (s.moved i (s.shared.setClass cls c) l) := by
  have hlater : Later s.shared (s.shared.setClass cls c) := by
    refine ⟨id, ?_, ?_, ?_⟩ <;> intro cls'
    all_goals by_cases hcls : cls' = cls
    all_goals first
      | subst hcls; rw [classes_setClass_self]; assumption
      | rw [classes_setClass_ne _ hcls]
    · exact id
    · exact fun _ => id
  refine h.moved hlater ?_ hok (fun _ _ _ => rfl) ?_
  · intro cls'
    by_cases hcls : cls' = cls
    · subst hcls
      exact hclass
    · have := h.classOk cls'
      refine ⟨?_, ?_, ?_, ?_, ?_⟩ <;> rw [classes_setClass_ne _ hcls]
      · exact this.valid
      · exact this.pivot_lt
      · exact this.ready
      · exact this.counted
      · exact this.forward
  · intro cls' hcls' methodid hid imp himp
    by_cases hcls : cls' = cls
    · subst hcls
      rw [classes_setClass_self] at himp ⊢
      exact hcovered hcls' methodid hid imp himp
    · rw [classes_setClass_ne _ hcls] at himp ⊢
      rcases h.covered cls' hcls' methodid hid imp himp with ⟨method, hfound, himp⟩ | ⟨j, hj⟩
      · exact Or.inl ⟨method, hfound.later hlater rfl, himp⟩
      · by_cases hji : j = i
        · subst hji
          exact Or.inr (Or.inl (hothers cls' hcls _ methodid hj))
        · exact Or.inr (Or.inr ⟨rfl, j, hji, hj⟩)

omit [DecidableEq ι] in
lemma ThreadsInv.covered_without {s : ThreadsState ι P} (h : ThreadsInv rt s) {i : ι}
    (hi : ∀ pivot cls methodid, ¬ (s.thread i).Handles pivot cls methodid) {cls : ClassRef P} (hcls : cls ∈ rt.classes)
    {methodid imp : ℕ} (hid : methodid ≠ 0) (himp : (s.shared.classes cls).current.cached methodid = some imp) :
    (∃ method, Found s.shared cls methodid method ∧ method.implementation = imp) ∨
      ∃ j ≠ i, (s.thread j).Handles (s.shared.classes cls).pivot cls methodid := by
  refine (h.covered cls hcls methodid hid imp himp).imp_right ?_
  rintro ⟨j, hj⟩
  refine ⟨j, ?_, hj⟩
  rintro rfl
  exact hi _ _ _ hj

/-- A step of a thread that handles nothing, and that changes one class: its cache has the entries it had, and others that a
lookup finds. -/
lemma ThreadsInv.moved_class_quiet {s : ThreadsState ι P} (h : ThreadsInv rt s) {i : ι} {cls : ClassRef P}
    {c : ClassCaches}
    {l : Local P} (hi : ∀ pivot cls methodid, ¬ (s.thread i).Handles pivot cls methodid)
    (hcount : (s.shared.classes cls).count = c.count) (hpivot : c.pivot = (s.shared.classes cls).pivot)
    (hready : (s.shared.classes cls).cacheReady = true → c.cacheReady = true)
    (hforward : ∀ method, (s.shared.classes cls).forwardmethod = some method → c.forwardmethod = some method)
    (hclass : ClassOk rt (s.shared.setClass cls c) cls) (hok : l.Ok rt (s.shared.setClass cls c))
    (hentries : ∀ methodid ≠ 0, ∀ imp, c.current.cached methodid = some imp →
      (s.shared.classes cls).current.cached methodid = some imp ∨
        ∃ method, Found (s.shared.setClass cls c) cls methodid method ∧ method.implementation = imp) :
    ThreadsInv rt (s.moved i (s.shared.setClass cls c) l) := by
  refine h.moved_class (Nat.le_of_eq hcount) hready hforward hclass hok ?_ ?_
  · intro cls' _ pivot methodid hhandles
    exact absurd hhandles (hi _ _ _)
  · intro hcls methodid hid imp himp
    rcases hentries methodid hid imp himp with hold | hfound
    · rcases h.covered_without hi hcls hid hold with ⟨method, hfound, himp⟩ | hj
      · refine Or.inl ⟨method, ?_, himp⟩
        unfold Found at hfound ⊢
        rw [classes_setClass_self]
        exact hfound.imp_right fun hnone => ⟨hnone.1, hforward method hnone.2⟩
      · exact Or.inr (Or.inr ⟨hpivot, hj⟩)
    · exact Or.inl hfound

/-! ### New operations -/

lemma ThreadsInv.begin_addMethodlist {s : ThreadsState ι P} (h : ThreadsInv rt s) {i : ι} (hidle : s.thread i = .idle)
    {cls : ClassRef P} {list : MethodList}
    (hundisturbed : Undisturbed s (i, some (.addMethodlist cls list))) :
    ThreadsInv rt (s.moved i { s.shared with graph := addMethodlist s.shared.graph cls list } (.added list)) := by
  have hlater : Later s.shared { s.shared with graph := addMethodlist s.shared.graph cls list } :=
    ⟨id, fun _ => Nat.le_refl _, fun _ => id, fun _ _ => id⟩
  have hnothing := not_handles hidle fun _ _ _ => id
  refine h.moved hlater ?_ trivial ?_ ?_
  · intro c
    refine ⟨(h.classOk c).valid, (h.classOk c).pivot_lt, (h.classOk c).ready, (h.classOk c).counted, ?_⟩
    intro method hmethod
    have hsame := hundisturbed c forwardMethodid
      (Or.inr ⟨rfl, by simp only at hmethod; rw [hmethod]; exact Option.some_ne_none _⟩)
    have hforward := (h.classOk c).forward method hmethod
    unfold searchForwardmethod at hforward ⊢
    simp only
    rwa [hsame]
  · intro j p hp
    exact hundisturbed p.1 p.2 (Or.inl ⟨j, hp⟩)
  · intro c hc methodid hid imp himp
    by_cases hhas : HasId list.methods methodid
    · exact Or.inr (Or.inl hhas)
    · have hsame := defaultsearchMethod_addMethodlist s.shared.graph cls
        (fun m hm hmid => hhas ⟨m, hm, hmid⟩ : ∀ m ∈ list.methods, m.methodid ≠ methodid) c
      rcases h.covered_without hnothing hc hid himp with ⟨method, hfound, himp⟩ | ⟨j, hj⟩
      · exact Or.inl ⟨method, hfound.later hlater hsame, himp⟩
      · exact Or.inr (Or.inr ⟨rfl, j, hj⟩)

lemma ThreadsInv.begin_count {s : ThreadsState ι P} (h : ThreadsInv rt s) {i : ι} (hidle : s.thread i = .idle)
    {l : Local P}
    (hok : l.Ok rt { s.shared with cachecount_1 := s.shared.cachecount_1 + 1 }) :
    ThreadsInv rt (s.moved i { s.shared with cachecount_1 := s.shared.cachecount_1 + 1 } l) := by
  have hlater : Later s.shared { s.shared with cachecount_1 := s.shared.cachecount_1 + 1 } :=
    ⟨fun _ => Nat.succ_ne_zero _, fun _ => Nat.le_refl _, fun _ => id, fun _ _ => id⟩
  refine h.moved hlater ?_ hok (fun _ _ _ => rfl) ?_
  · intro c
    exact ⟨(h.classOk c).valid, (h.classOk c).pivot_lt, (h.classOk c).ready, fun _ => Or.inr (Nat.succ_ne_zero _),
      (h.classOk c).forward⟩
  · intro c hc methodid hid imp himp
    have hnothing := not_handles hidle fun _ _ _ => id
    rcases h.covered_without hnothing hc hid himp with ⟨method, hfound, himp⟩ | ⟨j, hj⟩
    · exact Or.inl ⟨method, hfound.later hlater rfl, himp⟩
    · exact Or.inr (Or.inr ⟨rfl, j, hj⟩)

lemma ThreadsInv.moved_quiet {s : ThreadsState ι P} (h : ThreadsInv rt s) {i : ι} {l : Local P} (hok : l.Ok rt s.shared)
    (hi : ∀ pivot cls methodid, ¬ (s.thread i).Handles pivot cls methodid) : ThreadsInv rt (s.moved i s.shared l) :=
  h.moved_local hok fun _ _ _ _ _ hhandles => absurd hhandles (hi _ _ _)

/-- **A new operation keeps the invariant.** -/
lemma ThreadsInv.begin {s : ThreadsState ι P} (h : ThreadsInv rt s) {i : ι} (hidle : s.thread i = .idle)
    {command : Command P}
    (hundisturbed : Undisturbed s (i, some command)) {shared : Shared P} {l : Local P}
    (hbegin : begin rt s.shared command = some (shared, l)) : ThreadsInv rt (s.moved i shared l) := by
  have hnothing := not_handles hidle fun _ _ _ => id
  cases command with
  | lookup cls methodid mode =>
    simp only [Invalidation.begin] at hbegin
    split at hbegin
    · cases hbegin
    · rename_i hid
      split at hbegin
      · cases hbegin
        exact h.moved_quiet hid hnothing
      · split at hbegin
        · cases hbegin
        · cases hbegin
          exact h.moved_quiet hid hnothing
        · split at hbegin
          · cases hbegin
            exact h.moved_quiet hid hnothing
          · split at hbegin
            · cases hbegin
            · cases hbegin
              exact h.moved_quiet trivial hnothing
  | addMethodlist cls list =>
    simp only [Invalidation.begin] at hbegin
    split at hbegin
    · cases hbegin
      exact h.begin_addMethodlist hidle hundisturbed
    · cases hbegin
  | setupInitialCache cls =>
    simp only [Invalidation.begin] at hbegin
    split at hbegin
    · cases hbegin
    split at hbegin
    · rename_i halways
      cases hbegin
      exact h.moved_quiet (Or.inl halways) hnothing
    · cases hbegin
      refine h.begin_count hidle ⟨⟨(impcacheNew_installed _ _).toValid, impcacheNew_n _ _⟩, Nat.succ_ne_zero _⟩

/-! ### Accesses to a class -/

lemma setClass_self (s : Shared P) (cls : ClassRef P) : s.setClass cls (s.classes cls) = s := by
  unfold Shared.setClass
  rw [Function.update_eq_self]

/-- A new cache is swapped in: nothing is cached any more. -/
lemma ThreadsInv.install {s : ThreadsState ι P} (h : ThreadsInv rt s) {i : ι} {cls : ClassRef P} {new : Cache}
    {l : Local P}
    (hnew : Unused rt new) (hok : l.Ok rt (s.shared.setClass cls ((s.shared.classes cls).install new)))
    (hothers : ∀ cls' ≠ cls, ∀ pivot methodid, (s.thread i).Handles pivot cls' methodid → l.Handles pivot cls' methodid) :
    ThreadsInv rt (s.moved i (s.shared.setClass cls ((s.shared.classes cls).install new)) l) := by
  have hclass := h.classOk cls
  have hcurrent : ((s.shared.classes cls).install new).current = new := by
    unfold ClassCaches.current ClassCaches.install
    simp
  refine h.moved_class (Nat.le_succ _) id (fun _ => id) ?_ hok hothers ?_
  · refine ⟨?_, ?_, ?_, ?_, ?_⟩ <;> rw [classes_setClass_self]
    · intro a
      simp only [ClassCaches.install, Function.update_apply]
      split
      · exact hnew.1
      · exact hclass.valid a
    · exact Nat.lt_succ_self _
    · intro a methodid hid hcached
      simp only [ClassCaches.install, Function.update_apply] at hcached
      split at hcached
      · exact absurd (hnew.1.cached_of_empty hnew.2 hid) hcached
      · exact hclass.ready a methodid hid hcached
    · exact hclass.counted
    · exact hclass.forward
  · intro _ methodid hid imp himp
    rw [hcurrent, hnew.1.cached_of_empty hnew.2 hid] at himp
    cases himp

/-- A class remembers its forward method. -/
lemma ThreadsInv.store_forward {s : ThreadsState ι P} (h : ThreadsInv rt s) {i : ι} {cls : ClassRef P} {methodid : ℕ}
    {mode : LookupMode} {method : Method} (hi : s.thread i = .storingForward cls methodid mode method) {l : Local P}
    (hok : l.Ok rt (s.shared.setClass cls { s.shared.classes cls with forwardmethod := some method })) :
    ThreadsInv rt (s.moved i (s.shared.setClass cls { s.shared.classes cls with forwardmethod := some method }) l) := by
  have hclass := h.classOk cls
  have hthread := h.ok i
  rw [hi] at hthread
  obtain ⟨hid, hnone, hsearch⟩ := hthread
  -- another thread may have stored it meanwhile, the same one
  have hsame : ∀ other, (s.shared.classes cls).forwardmethod = some other → some method = some other := by
    intro other hother
    rw [← hsearch, hclass.forward other hother]
  refine h.moved_class_quiet (by rw [hi]; exact fun _ _ _ => id) rfl rfl id hsame ?_ hok fun _ _ _ => Or.inl
  refine ⟨?_, ?_, ?_, ?_, ?_⟩ <;> rw [classes_setClass_self]
  · exact hclass.valid
  · exact hclass.pivot_lt
  · exact hclass.ready
  · exact hclass.counted
  · rintro other hother
    cases hother
    exact hsearch

lemma ThreadsInv.mark {s : ThreadsState ι P} (h : ThreadsInv rt s) {i : ι} {cls : ClassRef P}
    (hi : s.thread i = .marking cls) :
    ThreadsInv rt (s.moved i (s.shared.setClass cls { s.shared.classes cls with cacheReady := true }) .idle) := by
  have hclass := h.classOk cls
  have hcounted := h.ok i
  rw [hi] at hcounted
  refine h.moved_class_quiet (by rw [hi]; exact fun _ _ _ => id) rfl rfl (fun _ => rfl) (fun _ => id) ?_ trivial
    fun _ _ _ => Or.inl
  refine ⟨?_, ?_, ?_, ?_, ?_⟩ <;> rw [classes_setClass_self]
  · exact hclass.valid
  · exact hclass.pivot_lt
  · intro a methodid hid hcached
    exact ⟨rfl, (hclass.ready a methodid hid hcached).2⟩
  · exact fun _ => hcounted
  · exact hclass.forward

/-- An entry is added, maybe to a cache that is no longer in force. -/
lemma ThreadsInv.add {s : ThreadsState ι P} (h : ThreadsInv rt s) {i : ι} {cls : ClassRef P} {methodid a : ℕ}
    {method : Method}
    (hi : s.thread i = .adding cls methodid method a) {fuel : ℕ} {filled : Cache}
    (hadd : addFunctionpointerEntry rt.shift fuel ((s.shared.classes cls).cache a) method.implementation methodid =
      some (some filled)) :
    ThreadsInv rt (s.moved i
      (s.shared.setClass cls
        { s.shared.classes cls with cache := Function.update (s.shared.classes cls).cache a filled }) .idle) := by
  have hclass := h.classOk cls
  have hthread := h.ok i
  rw [hi] at hthread
  obtain ⟨hcaching, himp, -⟩ := hthread
  obtain ⟨hvalid, hadded, -, -⟩ := (hclass.valid a).add hcaching.methodid_ne himp hadd
  refine h.moved_class_quiet (by rw [hi]; exact fun _ _ _ => id) rfl rfl id (fun _ => id) ?_ trivial ?_
  · refine ⟨?_, ?_, ?_, ?_, ?_⟩ <;> rw [classes_setClass_self]
    · intro b
      simp only [Function.update_apply]
      split
      · exact hvalid
      · exact hclass.valid b
    · exact hclass.pivot_lt
    · intro b k hk hcached
      simp only [Function.update_apply] at hcached
      split at hcached
      · by_cases hkid : k = methodid
        · exact ⟨hcaching.ready, hcaching.notEmpty⟩
        · rw [hadded k hk, if_neg hkid] at hcached
          exact hclass.ready a k hk hcached
      · exact hclass.ready b k hk hcached
    · exact hclass.counted
    · exact hclass.forward
  · intro k hk v hv
    simp only [ClassCaches.current, Function.update_apply] at hv ⊢
    split at hv
    · rename_i hpivot
      rw [hpivot]
      rw [hadded k hk] at hv
      split at hv
      · rename_i hkid
        subst hkid
        rcases hcached : ((s.shared.classes cls).cache a).cached k with _ | w
        · rw [hcached] at hv
          cases hv
          refine Or.inr ⟨method, ?_, rfl⟩
          have hfound := hcaching.found
          unfold Found at hfound ⊢
          rwa [classes_setClass_self]
        · rw [hcached] at hv
          exact Or.inl hv
      · exact Or.inl hv
    · exact Or.inl hv

lemma cached_of_probe_free {shift fuel offset methodid : ℕ} {cache : Cache} (hvalid : cache.Valid shift)
    (hid : methodid ≠ 0) (hprobe : probeEntryoffset shift cache methodid fuel methodid = some offset)
    (hfree : (cache.entryAt shift offset).uniqueid = 0) : cache.cached methodid = none := by
  rw [hvalid.probeEntryoffset_eq, Option.map_eq_some_iff] at hprobe
  obtain ⟨i, hprobe, rfl⟩ := hprobe
  rw [← absent_iff hid]
  refine hvalid.chained.absent_of_free hprobe ?_
  rwa [Cache.entryAt, sizeofCacheentry, Nat.mul_div_cancel _ (Nat.two_pow_pos shift), ← content_eq_none] at hfree

omit [DecidableEq P] in
lemma growWithStrategy_unused (cache : Cache) (strategy : CacheSizing) :
    Unused rt (growWithStrategy rt.shift cache strategy) :=
  ⟨(impcacheNew_installed _ _).toValid, impcacheNew_n _ _⟩

/-- An access of a swap, in a thread that goes on to `l`. -/
lemma ThreadsInv.advance_swap {s : ThreadsState ι P} (h : ThreadsInv rt s) {i : ι} {cls : ClassRef P} {swap : Swap}
    (hswap : swap.Ok rt) {l : Local P}
    (hok : l.Ok rt (s.shared.setClass cls (swap.advance rt (s.shared.classes cls)).1))
    (hothers : ∀ cls' ≠ cls, ∀ pivot methodid, (s.thread i).Handles pivot cls' methodid → l.Handles pivot cls' methodid)
    (hkeep : (swap.advance rt (s.shared.classes cls)).1 = s.shared.classes cls → ∀ methodid,
      (s.thread i).Handles (s.shared.classes cls).pivot cls methodid →
        l.Handles (s.shared.classes cls).pivot cls methodid) :
    ThreadsInv rt (s.moved i (s.shared.setClass cls (swap.advance rt (s.shared.classes cls)).1) l) := by
  have hstay : (swap.advance rt (s.shared.classes cls)).1 = s.shared.classes cls →
      ThreadsInv rt (s.moved i (s.shared.setClass cls (swap.advance rt (s.shared.classes cls)).1) l) := by
    intro hsame
    rw [hsame, setClass_self] at hok ⊢
    refine h.moved_local hok ?_
    intro cls' _ methodid _ _ hhandles
    by_cases hcls : cls' = cls
    · subst hcls
      exact hkeep hsame methodid hhandles
    · exact hothers cls' hcls _ methodid hhandles
  cases swap with
  | resize strategy => exact hstay rfl
  | reread new => exact hstay rfl
  | exchange new old =>
    by_cases hpivot : (s.shared.classes cls).pivot = old
    · have hinstall : (Swap.advance rt (s.shared.classes cls) (.exchange new old)).1 =
          (s.shared.classes cls).install new := if_pos hpivot
      rw [hinstall] at hok ⊢
      exact h.install hswap hok hothers
    · exact hstay (if_neg hpivot)

omit [DecidableEq P] in
lemma Swap.Ok.next {swap next : Swap} {c : ClassCaches} (h : swap.Ok rt) (hnext : (swap.advance rt c).2 = some next) :
    next.Ok rt ∧ (swap.advance rt c).1 = c ∧ next.Replaces c.pivot := by
  cases swap with
  | resize strategy =>
    cases hnext
    exact ⟨growWithStrategy_unused _ _, rfl, trivial⟩
  | reread new =>
    cases hnext
    exact ⟨h, rfl, rfl⟩
  | exchange new old => cases hnext

omit [DecidableEq P] in
lemma Swap.replaced {swap : Swap} {c : ClassCaches} (hnext : (swap.advance rt c).2 = none)
    (hsame : (swap.advance rt c).1 = c) : ¬ swap.Replaces c.pivot := by
  cases swap with
  | resize strategy => cases hnext
  | reread new => cases hnext
  | exchange new old =>
    rintro rfl
    have hinstall : c.install new = c := by
      have := hsame
      simpa [Swap.advance] using this
    have := congrArg ClassCaches.count hinstall
    simp [ClassCaches.install] at this

lemma Swap.later (swap : Swap) (s : Shared P) (cls : ClassRef P) :
    Later s (s.setClass cls (swap.advance rt (s.classes cls)).1) := by
  have hsame : Later s (s.setClass cls (s.classes cls)) := by
    rw [setClass_self]
    exact Later.refl s
  cases swap with
  | resize strategy => exact hsame
  | reread new => exact hsame
  | exchange new old =>
    by_cases hpivot : (s.classes cls).pivot = old
    · have hinstall : (Swap.advance rt (s.classes cls) (.exchange new old)).1 = (s.classes cls).install new :=
        if_pos hpivot
      rw [hinstall]
      refine ⟨id, ?_, ?_, ?_⟩ <;> intro cls' <;> by_cases hcls : cls' = cls
      · subst hcls
        rw [classes_setClass_self]
        exact Nat.le_succ _
      · rw [classes_setClass_ne _ hcls]
      · subst hcls
        rw [classes_setClass_self]
        exact id
      · rw [classes_setClass_ne _ hcls]
        exact id
      · subst hcls
        rw [classes_setClass_self]
        exact fun _ => id
      · rw [classes_setClass_ne _ hcls]
        exact fun _ => id
    · have hstay : (Swap.advance rt (s.classes cls) (.exchange new old)).1 = s.classes cls := if_neg hpivot
      rw [hstay]
      exact hsame

end MulleObjcRuntime.Invalidation
