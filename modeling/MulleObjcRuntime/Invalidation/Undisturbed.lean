import MulleObjcRuntime.Invalidation.Fresh

/-!
# When no invalidation is lost

* `ThreadsInv.advance` — a thread that goes on keeps the invariant;
* `agrees_of_undisturbed` — if no added method list changes a search whose result is in use, the caches agree with the
  searches once all threads are done;
* `stale_after_search` — a method list that is added between the search and the fill of a lookup leaves a stale entry.
-/

namespace MulleObjcRuntime.Invalidation

open Classes Search Impcache Lib.Interleaving Lib.Runs

variable {ι P : Type} [DecidableEq ι] [DecidableEq P] {rt : Runtime P} {s : ThreadsState ι P} {i : ι}

lemma afterSearch_ok {shared : Shared P} {cls : ClassRef P} {methodid : ℕ} {mode : LookupMode} {method : Method}
    (hid : methodid ≠ 0) (hfound : Found shared cls methodid method) :
    (afterSearch cls methodid mode method).Ok rt shared := by
  unfold afterSearch
  split
  · trivial
  · exact ⟨hid, hfound⟩

omit [DecidableEq P] in
lemma notFound_eq {mode : LookupMode} {l : Local P} (h : notFound mode = some l) : l = .idle := by
  unfold notFound at h
  split at h
  · cases h
  · exact (Option.some.inj h).symm

/-! ## The accesses of a lookup -/

lemma ThreadsInv.advance_search (h : ThreadsInv rt s) {shared : Shared P} {l : Local P} {cls : ClassRef P}
    {methodid : ℕ}
    {mode : LookupMode} (hi : s.thread i = .searching cls methodid mode)
    (hadvance : advance rt s.shared (s.thread i) = some (shared, l)) : ThreadsInv rt (s.moved i shared l) := by
  have hid := h.ok i
  rw [hi] at hid hadvance
  have hnothing := not_handles hi fun _ _ _ => id
  simp only [advance] at hadvance
  split at hadvance
  · rename_i method hsearch
    cases hadvance
    exact h.moved_quiet (afterSearch_ok hid (Or.inl hsearch)) hnothing
  · rename_i hsearch
    split at hadvance
    · cases hadvance
      exact h.moved_quiet ⟨hid, hsearch⟩ hnothing
    · obtain ⟨l', hl', heq⟩ := Option.map_eq_some_iff.1 hadvance
      cases heq
      rw [notFound_eq hl']
      exact h.moved_quiet trivial hnothing

lemma ThreadsInv.advance_needsForward (h : ThreadsInv rt s) {shared : Shared P} {l : Local P} {cls : ClassRef P}
    {methodid : ℕ}
    {mode : LookupMode} (hi : s.thread i = .needsForward cls methodid mode)
    (hadvance : advance rt s.shared (s.thread i) = some (shared, l)) : ThreadsInv rt (s.moved i shared l) := by
  have hthread := h.ok i
  rw [hi] at hthread hadvance
  obtain ⟨hid, hnone⟩ := hthread
  have hnothing := not_handles hi fun _ _ _ => id
  simp only [advance] at hadvance
  split at hadvance
  · rename_i method hforward
    cases hadvance
    exact h.moved_quiet (afterSearch_ok hid (Or.inr ⟨hnone, hforward⟩)) hnothing
  · cases hadvance
    exact h.moved_quiet ⟨hid, hnone⟩ hnothing

lemma ThreadsInv.advance_searchingForward (h : ThreadsInv rt s) {shared : Shared P} {l : Local P} {cls : ClassRef P}
    {methodid : ℕ}
    {mode : LookupMode} (hi : s.thread i = .searchingForward cls methodid mode)
    (hadvance : advance rt s.shared (s.thread i) = some (shared, l)) : ThreadsInv rt (s.moved i shared l) := by
  have hthread := h.ok i
  rw [hi] at hthread hadvance
  obtain ⟨hid, hnone⟩ := hthread
  have hnothing := not_handles hi fun _ _ _ => id
  simp only [advance] at hadvance
  split at hadvance
  · rename_i method hforward
    cases hadvance
    exact h.moved_quiet ⟨hid, hnone, hforward⟩ hnothing
  · obtain ⟨l', hl', heq⟩ := Option.map_eq_some_iff.1 hadvance
    cases heq
    rw [notFound_eq hl']
    exact h.moved_quiet trivial hnothing

lemma ThreadsInv.advance_storingForward (h : ThreadsInv rt s) {shared : Shared P} {l : Local P} {cls : ClassRef P}
    {methodid : ℕ}
    {mode : LookupMode} {method : Method} (hi : s.thread i = .storingForward cls methodid mode method)
    (hadvance : advance rt s.shared (s.thread i) = some (shared, l)) : ThreadsInv rt (s.moved i shared l) := by
  have hthread := h.ok i
  rw [hi] at hthread hadvance
  obtain ⟨hid, hnone, -⟩ := hthread
  simp only [advance] at hadvance
  cases hadvance
  apply h.store_forward hi
  apply afterSearch_ok hid
  refine Or.inr ⟨hnone, ?_⟩
  rw [classes_setClass_self]

lemma ThreadsInv.advance_filling (h : ThreadsInv rt s) {shared : Shared P} {l : Local P} {cls : ClassRef P}
    {methodid : ℕ}
    {method : Method} (hi : s.thread i = .filling cls methodid method)
    (hadvance : advance rt s.shared (s.thread i) = some (shared, l)) : ThreadsInv rt (s.moved i shared l) := by
  have hthread := h.ok i
  rw [hi] at hthread hadvance
  obtain ⟨hid, hfound⟩ := hthread
  have hnothing := not_handles hi fun _ _ _ => id
  simp only [advance] at hadvance
  cases hadvance
  refine h.moved_quiet ?_ hnothing
  split
  · trivial
  · rename_i hready
    simp only [keptOut, Bool.or_eq_true, Bool.not_eq_true', not_or, Bool.not_eq_true, Bool.not_eq_false] at hready
    exact ⟨hid, hfound, hready.2, hready.1.1.1⟩

lemma ThreadsInv.advance_reading (h : ThreadsInv rt s) {shared : Shared P} {l : Local P} {cls : ClassRef P}
    {methodid : ℕ}
    {method : Method} (hi : s.thread i = .reading cls methodid method)
    (hadvance : advance rt s.shared (s.thread i) = some (shared, l)) : ThreadsInv rt (s.moved i shared l) := by
  have hcaching := h.ok i
  rw [hi] at hcaching hadvance
  have hnothing := not_handles hi fun _ _ _ => id
  simp only [advance] at hadvance
  split at hadvance
  · cases hadvance
  rename_i himp
  split at hadvance
  · cases hadvance
    exact h.moved_quiet ⟨hcaching, trivial⟩ hnothing
  · cases hadvance
    exact h.moved_quiet ⟨hcaching, himp, (h.classOk cls).pivot_lt⟩ hnothing

lemma ThreadsInv.advance_growing (h : ThreadsInv rt s) {shared : Shared P} {l : Local P} {cls : ClassRef P}
    {methodid : ℕ}
    {method : Method} {swap : Swap} (hi : s.thread i = .growing cls methodid method swap)
    (hadvance : advance rt s.shared (s.thread i) = some (shared, l)) : ThreadsInv rt (s.moved i shared l) := by
  have hthread := h.ok i
  rw [hi] at hthread hadvance
  obtain ⟨hcaching, hswap⟩ := hthread
  have hnothing := not_handles hi fun _ _ _ => id
  have hlater : Caching rt (s.shared.setClass cls (swap.advance rt (s.shared.classes cls)).1) cls methodid method :=
    hcaching.later (swap.later s.shared cls) rfl
  simp only [advance] at hadvance
  split at hadvance
  · rename_i next hnext
    cases hadvance
    exact h.advance_swap hswap ⟨hlater, (hswap.next hnext).1⟩ (fun _ _ _ _ hh => absurd hh (hnothing _ _ _))
      fun _ _ hh => absurd hh (hnothing _ _ _)
  · cases hadvance
    exact h.advance_swap hswap hlater (fun _ _ _ _ hh => absurd hh (hnothing _ _ _))
      fun _ _ hh => absurd hh (hnothing _ _ _)

lemma ThreadsInv.advance_adding (h : ThreadsInv rt s) {shared : Shared P} {l : Local P} {cls : ClassRef P}
    {methodid cache : ℕ}
    {method : Method} (hi : s.thread i = .adding cls methodid method cache)
    (hadvance : advance rt s.shared (s.thread i) = some (shared, l)) : ThreadsInv rt (s.moved i shared l) := by
  have hthread := h.ok i
  rw [hi] at hthread hadvance
  have hnothing := not_handles hi fun _ _ _ => id
  simp only [advance] at hadvance
  split at hadvance
  · cases hadvance
  · cases hadvance
    exact h.moved_quiet hthread.1 hnothing
  · rename_i filled hadd
    cases hadvance
    exact h.add hi hadd

/-! ## The accesses behind an added method list -/

lemma ThreadsInv.advance_added (h : ThreadsInv rt s) {shared : Shared P} {l : Local P} {list : MethodList}
    (hi : s.thread i = .added list) (hadvance : advance rt s.shared (s.thread i) = some (shared, l)) :
    ThreadsInv rt (s.moved i shared l) := by
  rw [hi] at hadvance
  simp only [advance] at hadvance
  cases hadvance
  refine h.moved_local (by split <;> trivial) ?_
  intro cls hcls methodid hid hcached hhandles
  rw [hi] at hhandles
  split
  · rename_i hstop
    rw [Bool.or_eq_true, List.isEmpty_iff, beq_iff_eq] at hstop
    rcases hstop with hnil | hcount
    · -- a list without methods
      obtain ⟨m, hm, -⟩ := hhandles
      rw [hnil] at hm
      cases hm
    · -- no class has a cache yet
      obtain ⟨hready, hnotEmpty⟩ := (h.classOk cls).ready _ methodid hid hcached
      rcases (h.classOk cls).counted hready with halways | hne
      · rw [hnotEmpty] at halways
        cases halways
      · exact absurd hcount hne
  · exact ⟨hcls, hhandles⟩

lemma ThreadsInv.advance_walking (h : ThreadsInv rt s) {shared : Shared P} {l : Local P} {list : MethodList}
    {rest : List (ClassRef P)}
    (hi : s.thread i = .walking list rest) (hadvance : advance rt s.shared (s.thread i) = some (shared, l)) :
    ThreadsInv rt (s.moved i shared l) := by
  rw [hi] at hadvance
  cases rest with
  | nil =>
    simp only [advance] at hadvance
    cases hadvance
    refine h.moved_local trivial ?_
    rintro cls - methodid - - hhandles
    rw [hi] at hhandles
    cases hhandles.1
  | cons c rest =>
    simp only [advance] at hadvance
    cases hadvance
    refine h.moved_local (by split <;> trivial) ?_
    intro cls hcls methodid hid hcached hhandles
    rw [hi] at hhandles
    obtain ⟨hmem, hhas⟩ := hhandles
    rcases List.mem_cons.1 hmem with rfl | hmem
    · -- a class with entries is ready
      rw [if_pos ((h.classOk cls).ready _ methodid hid hcached).1]
      exact Or.inr ⟨rfl, hhas⟩
    · split
      · exact Or.inl ⟨hmem, hhas⟩
      · exact ⟨hmem, hhas⟩

lemma ThreadsInv.advance_visiting (h : ThreadsInv rt s) {shared : Shared P} {l : Local P} {list : MethodList}
    {c : ClassRef P}
    {methods : List Method} {rest : List (ClassRef P)} (hi : s.thread i = .visiting list c methods rest)
    (hadvance : advance rt s.shared (s.thread i) = some (shared, l)) : ThreadsInv rt (s.moved i shared l) := by
  rw [hi] at hadvance
  cases methods with
  | nil =>
    simp only [advance] at hadvance
    cases hadvance
    refine h.moved_local trivial ?_
    rintro cls - methodid - - hhandles
    rw [hi] at hhandles
    rcases hhandles with hrest | ⟨-, m, hm, -⟩
    · exact hrest
    · cases hm
  | cons method methods =>
    simp only [advance] at hadvance
    cases hadvance
    refine h.moved_local (by split <;> trivial) ?_
    intro cls hcls methodid hid hcached hhandles
    rw [hi] at hhandles
    rcases hhandles with hrest | ⟨rfl, m, hm, hmid⟩
    · split
      · exact Or.inl hrest
      · exact Or.inl hrest
    · -- a class with entries is not one that has none
      have hnotEmpty := ((h.classOk cls).ready _ methodid hid hcached).2
      rw [hnotEmpty, if_neg Bool.false_ne_true]
      rcases List.mem_cons.1 hm with rfl | hm
      · exact Or.inr ⟨rfl, Or.inr ⟨hmid.symm, rfl⟩⟩
      · exact Or.inr ⟨rfl, Or.inl ⟨m, hm, hmid⟩⟩

lemma ThreadsInv.advance_probing (h : ThreadsInv rt s) {shared : Shared P} {l : Local P} {list : MethodList}
    {c : ClassRef P}
    {m a : ℕ} {methods : List Method} {rest : List (ClassRef P)}
    (hi : s.thread i = .probing list c m methods rest a)
    (hadvance : advance rt s.shared (s.thread i) = some (shared, l)) : ThreadsInv rt (s.moved i shared l) := by
  rw [hi] at hadvance
  -- nothing is cached for the id: the other methods are left
  have hmiss : (∀ methodid ≠ 0, methodid = m → ((s.shared.classes c).cache a).cached methodid = none) →
      ThreadsInv rt (s.moved i s.shared (.visiting list c methods rest)) := by
    intro hnone
    refine h.moved_local trivial ?_
    intro cls hcls methodid hid hcached hhandles
    rw [hi] at hhandles
    rcases hhandles with hrest | ⟨rfl, hhas | ⟨hm, rfl⟩⟩
    · exact Or.inl hrest
    · exact Or.inr ⟨rfl, hhas⟩
    · exact absurd (hnone methodid hid hm) hcached
  have hvalid := (h.classOk c).valid a
  simp only [advance] at hadvance
  split at hadvance
  · rename_i hn
    cases hadvance
    exact hmiss fun methodid hid _ => hvalid.cached_of_empty hn hid
  split at hadvance
  · cases hadvance
  · rename_i offset hprobe
    split at hadvance
    · rename_i hfree
      cases hadvance
      refine hmiss fun methodid hid hm => ?_
      subst hm
      exact cached_of_probe_free hvalid hid hprobe hfree
    · cases hadvance
      refine h.moved_local trivial ?_
      intro cls hcls methodid hid hcached hhandles
      rw [hi] at hhandles
      rcases hhandles with hrest | ⟨rfl, -⟩
      · exact Or.inl hrest
      · exact Or.inr ⟨rfl, trivial⟩

lemma ThreadsInv.advance_swapping (h : ThreadsInv rt s) {shared : Shared P} {l : Local P} {list : MethodList}
    {c : ClassRef P}
    {swap : Swap} {rest : List (ClassRef P)} (hi : s.thread i = .swapping list c swap rest)
    (hadvance : advance rt s.shared (s.thread i) = some (shared, l)) : ThreadsInv rt (s.moved i shared l) := by
  have hswap := h.ok i
  rw [hi] at hswap hadvance
  simp only [advance] at hadvance
  split at hadvance
  · rename_i next hnext
    obtain ⟨hok, -, hreplaces⟩ := hswap.next hnext
    cases hadvance
    refine h.advance_swap hswap hok ?_ ?_
    · intro cls hcls pivot methodid hhandles
      rw [hi] at hhandles
      exact Or.inl (hhandles.resolve_right fun hc => hcls hc.1)
    · intro _ methodid hhandles
      exact Or.inr ⟨rfl, hreplaces⟩
  · rename_i hnext
    cases hadvance
    refine h.advance_swap hswap trivial ?_ ?_
    · intro cls hcls pivot methodid hhandles
      rw [hi] at hhandles
      exact hhandles.resolve_right fun hc => hcls hc.1
    · intro hsame methodid hhandles
      rw [hi] at hhandles
      exact hhandles.resolve_right fun hc => Swap.replaced hnext hsame hc.2

/-- **A thread that goes on keeps the invariant.** -/
lemma ThreadsInv.advance (h : ThreadsInv rt s) {shared : Shared P} {l : Local P}
    (hadvance : advance rt s.shared (s.thread i) = some (shared, l)) : ThreadsInv rt (s.moved i shared l) := by
  rcases hi : s.thread i with _ | _ | _ | _ | _ | _ | _ | _ | _ | _ | _ | _ | _ | _ | ⟨cls, new⟩ | cls
  · rw [hi] at hadvance
    cases hadvance
  · exact h.advance_search hi hadvance
  · exact h.advance_needsForward hi hadvance
  · exact h.advance_searchingForward hi hadvance
  · exact h.advance_storingForward hi hadvance
  · exact h.advance_filling hi hadvance
  · exact h.advance_reading hi hadvance
  · exact h.advance_growing hi hadvance
  · exact h.advance_adding hi hadvance
  · exact h.advance_added hi hadvance
  · exact h.advance_walking hi hadvance
  · exact h.advance_visiting hi hadvance
  · exact h.advance_probing hi hadvance
  · exact h.advance_swapping hi hadvance
  · -- the first cache of a class
    have hthread := h.ok i
    rw [hi] at hthread hadvance
    simp only [Invalidation.advance] at hadvance
    split at hadvance
    · cases hadvance
      exact h.install hthread.1 (Or.inr hthread.2) fun _ _ _ _ hhandles => by rw [hi] at hhandles; exact hhandles
    · cases hadvance
  · rw [hi] at hadvance
    cases hadvance
    exact h.mark hi

/-- **A step that leaves the searches in use alone keeps the invariant.** -/
theorem ThreadsInv.step {s' : ThreadsState ι P} {a : ι × Option (Command P)} (h : ThreadsInv rt s)
    (hundisturbed : Undisturbed s a)
    (hstep : threadsStep rt s a = some s') : ThreadsInv rt s' := by
  obtain ⟨i, _ | command⟩ := a
  · obtain ⟨⟨shared, l⟩, hadvance, rfl⟩ := Option.map_eq_some_iff.1 hstep
    exact h.advance hadvance
  · simp only [threadsStep] at hstep
    split at hstep
    · rename_i hidle
      obtain ⟨⟨shared, l⟩, hbegin, rfl⟩ := Option.map_eq_some_iff.1 hstep
      exact h.begin hidle hundisturbed hbegin
    · cases hstep

omit [DecidableEq ι] in
lemma threadsStart_inv (rt : Runtime P) (g : ClassGraph P) : ThreadsInv rt (threadsStart ι g) := by
  refine ⟨?_, fun _ => trivial, ?_⟩
  · intro cls
    refine ⟨fun _ => zeroCache_valid _, Nat.zero_lt_one, ?_, ?_, ?_⟩
    · intro a methodid hid hcached
      exact absurd (zeroCache_cached methodid hid) hcached
    · intro hready
      cases hready
    · intro method hmethod
      cases hmethod
  · intro cls _ methodid hid imp himp
    cases (zeroCache_cached methodid hid).symm.trans himp

omit [DecidableEq ι] in
lemma ThreadsInv.agrees (h : ThreadsInv rt s) (hfinished : Finished s) : SlotsAgree rt s.shared := by
  intro cls hcls methodid hid imp himp
  rcases h.covered cls hcls methodid hid imp himp with ⟨method, hfound, himp⟩ | ⟨i, hi⟩
  · refine ⟨method, ?_, himp⟩
    unfold uncached
    rcases hfound with hsearch | ⟨hnone, hforward⟩
    · rw [hsearch]
      rfl
    · rw [hnone, (h.classOk cls).forward method hforward]
      rfl
  · rw [hfinished i] at hi
    cases hi

/-- **No invalidation is lost** in a run in which no added method list changes a search whose result is in use. -/
theorem agrees_of_undisturbed (rt : Runtime P) (g : ClassGraph P) {acts : List (ι × Option (Command P))}
    (h : EachStep (threadsStep rt) Undisturbed (threadsStart ι g) acts) :
    Throughout (threadsStep rt) (fun s => Finished s → SlotsAgree rt s.shared) (threadsStart ι g) acts := by
  have hinv : Throughout (threadsStep rt) (ThreadsInv rt) (threadsStart ι g) acts :=
    h.throughout (threadsStart_inv rt g) fun s a t hs ha ht => hs.step ha ht
  exact hinv.mono fun s hs => hs.agrees

/-- An added list has neither a method with an id whose search a lookup still uses, nor one for `forward:`. -/
def Apart [Fintype ι] (s : ThreadsState ι P) : ι × Option (Command P) → Prop
  | (_, some (.addMethodlist _ list)) =>
    ∀ m ∈ list.methods, m.methodid ≠ forwardMethodid ∧ ∀ i, ∀ p ∈ (s.thread i).holds, m.methodid ≠ p.2
  | _ => True

instance [Fintype ι] (s : ThreadsState ι P) : DecidablePred (Apart s) := fun a =>
  match a with
  | (_, some (.addMethodlist _ list)) => inferInstanceAs (Decidable (∀ m ∈ list.methods, m.methodid ≠ forwardMethodid ∧
      ∀ i, ∀ p ∈ (s.thread i).holds, m.methodid ≠ p.2))
  | (_, some (.lookup ..)) | (_, some (.setupInitialCache ..)) | (_, none) => isTrue trivial

omit [DecidableEq ι] in
lemma Apart.undisturbed [Fintype ι] {a : ι × Option (Command P)} (h : Apart s a) : Undisturbed s a := by
  obtain ⟨i, _ | ⟨⟩ | ⟨cls, list⟩ | ⟨⟩⟩ := a
  case none => trivial
  case some.lookup => trivial
  case some.setupInitialCache => trivial
  case some.addMethodlist =>
    intro c methodid huse
    refine defaultsearchMethod_addMethodlist s.shared.graph cls (fun m hm => ?_) c
    obtain ⟨hforward, hheld⟩ := h m hm
    rcases huse with ⟨i, hi⟩ | ⟨rfl, -⟩
    · exact hheld i _ hi
    · exact hforward

/-- A class with the method `7`. -/
def staleGraph : ClassGraph ℕ :=
  ClassGraph.ofList
    [ClassGraph.pairOf 1 none [] false ⟨0, [.single 0 ⟨101, 7, 0, 1001⟩]⟩ ⟨0, [.empty]⟩]

lemma staleFillrate_le : 90 ≤ 90 := Nat.le_refl 90

/-- A runtime with this class. -/
def staleRuntime : Runtime ℕ where
  shift := 4
  fillrate := 90
  fillrate_le := staleFillrate_le
  initialCacheSize := 4
  methodCall := 0
  classes := [⟨0, false⟩, ⟨0, true⟩]
  classdefaultsForwardmethod := none
  alwaysEmptyCache _ := false
  isNotThreadAffine _ := false

/-- A category that overrides the method. -/
def staleCategory : MethodList := .single 41 ⟨102, 7, 0, 1002⟩

/-- A thread is done. -/
def Local.isIdle : Local P → Bool
  | .idle => true
  | _ => false

omit [DecidableEq P] in
lemma eq_idle_of_isIdle {l : Local P} (h : l.isIdle = true) : l = .idle := by
  cases l <;> first | rfl | cases h

/-- A class with the methods `7` and `9`. -/
def twoMethodsGraph : ClassGraph ℕ :=
  ClassGraph.ofList
    [ClassGraph.pairOf 1 none [] false ⟨0, [.single 0 ⟨101, 7, 0, 1001⟩, .single 1 ⟨103, 9, 0, 1003⟩]⟩ ⟨0, [.empty]⟩]

/-- The method `7` is cached.  One thread has searched for `9` when the other adds the category, looks into all caches and
throws the one with `7` away; then the first thread fills the new one, and looks `7` up again. -/
def overriddenRun : List (Bool × Option (Command ℕ)) :=
  [(false, some (.setupInitialCache ⟨0, false⟩)), (false, none), (false, none),
    (false, some (.lookup ⟨0, false⟩ 7 ⟨false, false, true, false, false⟩)), (false, none), (false, none), (false, none),
    (false, none),
    (false, some (.lookup ⟨0, false⟩ 9 ⟨false, false, true, false, false⟩)), (false, none),
    (true, some (.addMethodlist ⟨0, false⟩ staleCategory)), (true, none), (true, none), (true, none), (true, none),
    (true, none), (true, none), (true, none), (true, none), (true, none),
    (false, none), (false, none), (false, none),
    (false, some (.lookup ⟨0, false⟩ 7 ⟨false, false, true, false, false⟩)), (false, none), (false, none), (false, none),
    (false, none)]

lemma run_read {g : ClassGraph ℕ} {acts : List (Bool × Option (Command ℕ))} {s : ThreadsState Bool ℕ}
    (hs : run (threadsStep staleRuntime) (threadsStart Bool g) acts = some s) {β : Type} (f : ThreadsState Bool ℕ → β) {b : β}
    (h : (run (threadsStep staleRuntime) (threadsStart Bool g) acts).map f = some b) : f s = b := by
  rw [hs] at h
  exact Option.some.inj h

/-- All threads are done, and the new method is in the cache of the class. -/
theorem agrees_of_undisturbed_sample :
    ∃ s, run (threadsStep staleRuntime) (threadsStart Bool twoMethodsGraph) overriddenRun = some s ∧ Finished s ∧
      SlotsAgree staleRuntime s.shared ∧ (s.shared.classes ⟨0, false⟩).current.cached 7 = some 1002 ∧
      (s.shared.classes ⟨0, false⟩).current.cached 9 = some 1003 := by
  obtain ⟨s, hs⟩ : ∃ s, run (threadsStep staleRuntime) (threadsStart Bool twoMethodsGraph) overriddenRun = some s :=
    Option.isSome_iff_exists.1 (by decide +kernel)
  have hfinished : Finished s := by
    intro i
    cases i
    · exact eq_idle_of_isIdle (run_read hs (fun s => (s.thread false).isIdle) (by decide +kernel))
    · exact eq_idle_of_isIdle (run_read hs (fun s => (s.thread true).isIdle) (by decide +kernel))
  have hapart : EachStep (threadsStep staleRuntime) Apart (threadsStart Bool twoMethodsGraph) overriddenRun := by
    decide +kernel
  have hagrees := agrees_of_undisturbed staleRuntime twoMethodsGraph (hapart.mono fun _ _ => Apart.undisturbed)
  exact ⟨s, hs, hfinished, hagrees.last hs hfinished,
    run_read hs (fun s => (s.shared.classes ⟨0, false⟩).current.cached 7) (by decide +kernel),
    run_read hs (fun s => (s.shared.classes ⟨0, false⟩).current.cached 9) (by decide +kernel)⟩

/-- One thread has searched for the method when the other adds the category and looks into all caches. -/
def staleRun : List (Bool × Option (Command ℕ)) :=
  [(false, some (.setupInitialCache ⟨0, false⟩)), (false, none), (false, none),
    (false, some (.lookup ⟨0, false⟩ 7 ⟨false, false, true, false, false⟩)), (false, none),
    (true, some (.addMethodlist ⟨0, false⟩ staleCategory)), (true, none), (true, none), (true, none), (true, none),
    (true, none), (true, none), (true, none),
    (false, none), (false, none), (false, none)]

/-- The lookup fills the cache with what it has found before. -/
theorem stale_after_search :
    ∃ s, run (threadsStep staleRuntime) (threadsStart Bool staleGraph) staleRun = some s ∧ Finished s ∧
      ¬ SlotsAgree staleRuntime s.shared := by
  obtain ⟨s, hs⟩ : ∃ s, run (threadsStep staleRuntime) (threadsStart Bool staleGraph) staleRun = some s :=
    Option.isSome_iff_exists.1 (by decide)
  have hcached : (s.shared.classes ⟨0, false⟩).current.cached 7 = some 1001 :=
    run_read hs (fun s => (s.shared.classes ⟨0, false⟩).current.cached 7) (by decide)
  have huncached : uncached staleRuntime s.shared.graph ⟨0, false⟩ 7 = some ⟨102, 7, 0, 1002⟩ :=
    run_read hs (fun s => uncached staleRuntime s.shared.graph ⟨0, false⟩ 7) (by decide +kernel)
  refine ⟨s, hs, ?_, ?_⟩
  · intro i
    cases i
    · exact eq_idle_of_isIdle (run_read hs (fun s => (s.thread false).isIdle) (by decide))
    · exact eq_idle_of_isIdle (run_read hs (fun s => (s.thread true).isIdle) (by decide))
  · intro hagrees
    obtain ⟨method, hmethod, himp⟩ := hagrees ⟨0, false⟩ (by decide) 7 (by decide) 1001 hcached
    rw [huncached] at hmethod
    cases hmethod
    cases himp

end MulleObjcRuntime.Invalidation
