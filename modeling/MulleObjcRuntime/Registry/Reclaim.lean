import MulleObjcRuntime.Impcache.Reclaim

/-!
# Class caches that are swapped under the eyes of other threads

The threads of a program look up classes in the class cache of a universe, fill it, and invalidate it, which puts the
empty cache of the universe in its place.  That is done by a compare and swap that tells what it has found only, not if it
has swapped.

* `ClasscacheUse` — where a thread is in its use of the class cache, and `ClasscacheUse.step`, its next access;
* `ClasscachesSafe` — no access goes to a cache that is gone, none is freed twice, and none is lost;
* `classcaches_safe_iff` — this is so unless a compare and swap fails that has found what it has expected.
-/

namespace MulleObjcRuntime.Registry

open Impcache Lib.Interleaving Lib.Reclamation

/-- Where a thread is.  The first are those of `_mulle_objc_universe_probe_infraclass_inline_nofast`, then come
`_mulle_objc_universe_fill_classcache`, `_mulle_objc_universe_add_classcacheentry_swapcaches` and
`_mulle_objc_universe_invalidate_classcache`.  The caller of a fill reads the class from the entry. -/
inductive ClasscacheUse
  | idle
  | probeClass (classid : ℕ)
  | probe (classid c offset : ℕ)
  | readValue (c : ℕ)
  | fill (call : AddCall)
  | checkGrow (call : AddCall) (c : ℕ)
  | adding (call : AddCall) (c : ℕ) (a : Adding)
  | grow (call : AddCall) (old : ℕ)
  | cas (call : AddCall) (cache old : ℕ)
  | free (call : AddCall) (cache : ℕ)
  | abafree (old cache : ℕ)
  | invalidate (expect : Option ℕ)
  | abafreeOld (old : ℕ)

section Step

variable {ι : Type} (shift fillrate empty : ℕ)

/-- The new cache of `_mulle_objc_universe_add_classcacheentry_swapcaches`.  The first entry of the probe is free. -/
def swapcachesNew (call : AddCall) (old : Cache) : Cache :=
  let cache := cacheNewUncut shift (old.size * 2)
  ((addPointerInactive shift 1 cache call.pointer call.uniqueid).map Prod.snd).getD cache

/-- The next access of a thread.  When it is to a new cache, the allocator gives it the address `fresh`.  A weak compare
and swap may fail in spite of what it finds. -/
def ClasscacheUse.step (fresh : ℕ) (spurious : Bool) (heap : ClassCaches ι) : ClasscacheUse → ClassCaches ι × ClasscacheUse
  | .idle => (heap, .idle)
  | .probeClass classid => (heap, .probe classid heap.pivot classid)
  | .probe classid c offset =>
    let cache := heap.caches c
    let offset := offset &&& cache.mask
    let entry := cache.entryAt shift offset
    (heap, if entry.uniqueid = classid then .readValue c
      else if entry.uniqueid = 0 then .idle
      else .probe classid c (offset + sizeofCacheentry shift))
  | .readValue _ => (heap, .idle)
  | .fill call => (heap, .checkGrow call heap.pivot)
  | .checkGrow call c =>
    (heap, if shouldGrow (heap.caches c) fillrate then .grow call c else .adding call c .ready)
  | .adding call _ (.done none) => (heap, .fill call)
  | .adding _ c (.done (some _)) => (heap, .readValue c)
  | .adding call c a =>
    let (cache, a) := a.step shift (heap.caches c) call
    ({ heap with caches := Function.update heap.caches c cache }, .adding call c a)
  | .grow call old =>
    ({ heap with
        memory := heap.memory.alloc fresh
        caches := Function.update heap.caches fresh (swapcachesNew shift call (heap.caches old)) },
      .cas call fresh old)
  | .cas call cache old =>
    if heap.pivot = old then
      ({ heap with pivot := cache }, if old = empty then .readValue cache else .abafree old cache)
    else (heap, .free call cache)
  | .free call cache => ({ heap with memory := heap.memory.free cache }, .fill call)
  | .abafree old cache => ({ heap with memory := heap.memory.abafree old }, .readValue cache)
  | .invalidate expect =>
    if heap.pivot = empty then (heap, .idle)
    else if expect = some heap.pivot then
      (if spurious then heap else { heap with pivot := empty }, .abafreeOld heap.pivot)
    else (heap, .invalidate (some heap.pivot))
  | .abafreeOld old => ({ heap with memory := heap.memory.abafree old }, .idle)

/-- What a thread begins when it is idle. -/
inductive ClasscacheUse.Begins : ClasscacheUse → Prop
  | probeClass (classid : ℕ) : Begins (.probeClass classid)
  | fill (call : AddCall) : Begins (.fill call)
  | invalidate : Begins (.invalidate none)

/-- What a thread does: it begins something, it checks in while it is idle, or it goes on. -/
inductive ClasscacheAct [DecidableEq ι] (weak : Bool) (i : ι) :
    ClassCaches ι → ClasscacheUse → ClassCaches ι → ClasscacheUse → Prop
  | begins {heap : ClassCaches ι} {u : ClasscacheUse} (h : u.Begins) : ClasscacheAct weak i heap .idle heap u
  | checkin {heap : ClassCaches ι} :
    ClasscacheAct weak i heap .idle { heap with memory := heap.memory.checkin i } .idle
  | goes {heap : ClassCaches ι} {u : ClasscacheUse} (fresh : ℕ) (spurious : Bool) (hfresh : ¬ heap.memory.Live fresh)
      (hspurious : spurious → weak) :
    ClasscacheAct weak i heap u (u.step shift fillrate empty fresh spurious heap).1
      (u.step shift fillrate empty fresh spurious heap).2

/-- The universe has its empty cache, and all threads are idle. -/
def classcachesStart (ι : Type) : Threads ι (ClassCaches ι) ClasscacheUse :=
  ⟨⟨startMemory (· = empty) empty, empty, fun _ => zeroCache⟩, fun _ => .idle⟩

/-- The states that any interleaving of the threads leads to. -/
def ClasscachesReachable [DecidableEq ι] (weak : Bool) (s : Threads ι (ClassCaches ι) ClasscacheUse) : Prop :=
  Threads.Reachable (ClasscacheAct shift fillrate empty weak) (classcachesStart empty ι) s

end Step

/-! ## What a thread has to do with caches -/

/-- The cache that the next access of a thread goes to. -/
def ClasscacheUse.touches : ClasscacheUse → Option ℕ
  | .probe _ c _ | .readValue c | .checkGrow _ c | .grow _ c | .free _ c | .abafree c _ | .abafreeOld c => some c
  | .adding _ _ (.done _) => none
  | .adding _ c _ => some c
  | _ => none

/-- The cache that a thread is about to give back. -/
def ClasscacheUse.gives : ClasscacheUse → Option ℕ
  | .free _ c | .abafree c _ | .abafreeOld c => some c
  | _ => none

/-- **The class caches are reclaimed safely** in a state: no access is to a cache that is gone; what is given back is not
the empty cache of the universe and not installed, and given back by one thread and for the first time; nobody else accesses a cache that is freed at once; and
when all threads are idle, only the empty cache and the one of the universe have not been given back. -/
structure ClasscachesSafe {ι : Type} (empty : ℕ) (s : Threads ι (ClassCaches ι) ClasscacheUse) : Prop where
  live : ∀ i b, (s.thread i).touches = some b → s.shared.memory.Live b
  once : ∀ i b, (s.thread i).gives = some b → s.shared.memory.Owned b ∧ b ≠ empty ∧ b ≠ s.shared.pivot ∧
    ∀ j ≠ i, (s.thread j).gives ≠ some b
  apart : ∀ i call b, s.thread i = .free call b → ∀ j ≠ i, (s.thread j).touches ≠ some b
  installed : s.shared.memory.Owned s.shared.pivot
  kept : (∀ i, s.thread i = .idle) → ∀ b, s.shared.memory.Owned b → b = empty ∨ b = s.shared.pivot

/-- The caches of a thread by the rules of `Lib.Reclamation`. -/
def ClasscacheUse.hands : ClasscacheUse → Hands
  | .probe _ c _ | .readValue c | .checkGrow _ c | .adding _ c _ | .grow _ c => ⟨none, none, {c}⟩
  | .cas _ cache _ | .free _ cache => ⟨some cache, none, ∅⟩
  | .abafree old cache => ⟨none, some old, {cache}⟩
  | .abafreeOld old => ⟨none, some old, ∅⟩
  | _ => ⟨none, none, ∅⟩

variable {ι : Type} [DecidableEq ι] {shift fillrate empty b : ℕ} {weak : Bool} {i : ι} {heap heap' : ClassCaches ι}
  {u u' : ClasscacheUse} {s : Threads ι (ClassCaches ι) ClasscacheUse}

/-! ## Compare and swaps that do not fail without a reason -/

/-- **What a thread does keeps to the rules.** -/
lemma ClasscacheAct.allowed (h : ClasscacheAct shift fillrate empty false i heap u heap' u') :
    Allowed (· = empty) i heap.cell u.hands heap'.cell u'.hands := by
  cases h with
  | begins h => cases h <;> exact .refl _ _
  | checkin => exact .step Act.checkin (.refl _ _)
  | goes fresh spurious hfresh hspurious =>
    have hspurious : spurious = false := by simpa using hspurious
    subst hspurious
    cases u with
    | idle => exact .refl _ _
    | probeClass | fill => exact allowed_look heap.cell
    | probe classid c offset =>
      unfold ClasscacheUse.step
      simp only
      split
      · exact .refl _ _
      · split
        · exact allowed_forget _ _ _ (Set.empty_subset _)
        · exact .refl _ _
    | readValue c => exact allowed_forget _ _ _ (Set.empty_subset _)
    | checkGrow call c =>
      unfold ClasscacheUse.step
      simp only
      split <;> exact .refl _ _
    | adding call c a =>
      rcases a with _ | _ | _ | _ | _ | _ | _ | ⟨_ | _⟩
      case done.none => exact allowed_forget _ _ _ (Set.empty_subset _)
      all_goals exact .refl _ _
    | grow call old =>
      exact Solo.trans (.step (Act.alloc hfresh) (.refl _ _)) (allowed_forget _ _ _ (Set.empty_subset _))
    | cas call cache old =>
      unfold ClasscacheUse.step
      simp only
      split
      · -- the cache is in, and the old one comes out unless it is the empty one
        rename_i hpivot
        subst hpivot
        have hinstall : Allowed (· = empty) i heap.cell ⟨some cache, none, ∅⟩ ⟨heap.memory, cache⟩ _ :=
          allowed_install heap.cell cache
        by_cases hempty : heap.pivot = empty
        · rw [show leave (· = empty) heap.cell.installed = none from if_pos hempty] at hinstall
          rwa [if_pos hempty]
        · rw [show leave (· = empty) heap.cell.installed = some heap.pivot from if_neg hempty] at hinstall
          rwa [if_neg hempty]
      · exact .refl _ _
    | free call cache => exact .step Act.free (.refl _ _)
    | abafree old cache => exact .step Act.abafree (.refl _ _)
    | invalidate expect =>
      unfold ClasscacheUse.step
      simp only
      split
      · exact .refl _ _
      · rename_i hempty
        split
        · have hclear : Act (· = empty) i heap.cell ⟨none, none, ∅⟩ ⟨heap.memory, empty⟩ _ := Act.clear rfl
          rw [show leave (· = empty) heap.cell.installed = some heap.pivot from if_neg hempty] at hclear
          exact .step hclear (.refl _ _)
        · exact .refl _ _
    | abafreeOld old => exact .step Act.abafree (.refl _ _)

lemma ClasscachesReachable.sound (h : ClasscachesReachable shift fillrate empty false s) :
    Sound (· = empty) ⟨s.shared.cell, fun i => (s.thread i).hands⟩ :=
  Reachable.sound h ClassCaches.cell ClasscacheUse.hands ⟨empty, rfl⟩ fun _ _ _ _ _ hact => hact.allowed

omit [DecidableEq ι] in
lemma ClasscacheUse.known_of_touches (h : u.touches = some b) : b ∈ u.hands.known ∨ u.hands.Holds b := by
  cases u with
  | adding call c a =>
    cases a <;> cases h <;> exact Or.inl rfl
  | free | abafree | abafreeOld =>
    cases h
    right
    simp [hands, Hands.Holds]
  | idle | probeClass | fill | invalidate | cas => cases h
  | _ =>
    cases h
    exact Or.inl rfl

omit [DecidableEq ι] in
lemma ClasscacheUse.holds_of_gives (h : u.gives = some b) : u.hands.Holds b := by
  cases u <;> cases h <;> simp [hands, Hands.Holds]

lemma ClasscachesReachable.safe (h : ClasscachesReachable shift fillrate empty false s) : ClasscachesSafe empty s := by
  have hsound := h.sound
  refine ⟨?_, ?_, ?_, hsound.installed_owned, ?_⟩
  · intro i b hb
    exact hsound.live (ClasscacheUse.known_of_touches hb)
  · intro i b hb
    obtain ⟨howned, hpivot, hothers⟩ := hsound.once (ClasscacheUse.holds_of_gives hb)
    obtain ⟨-, hempty, -⟩ := hsound.held_owned i b (ClasscacheUse.holds_of_gives hb)
    exact ⟨howned, hempty, hpivot, fun j hj hb' => hothers j hj (ClasscacheUse.holds_of_gives hb')⟩
  · intro i call b hi j hj hb
    have hfresh : (s.thread i).hands.fresh = some b := by rw [hi, ClasscacheUse.hands]
    exact hsound.apart hfresh hj (ClasscacheUse.known_of_touches hb)
  · intro hidle b hb
    refine hsound.kept_idle ?_ hb
    rintro i b (hb | hb) <;> simp [hidle i, ClasscacheUse.hands] at hb

/-! ## Compare and swaps that fail for no reason -/

/-- The threads can come to where one of them is there. -/
def Comes (shift fillrate empty : ℕ) (weak : Bool) (i : ι) (heap : ClassCaches ι) (u : ClasscacheUse) : Prop :=
  ∃ s : Threads ι (ClassCaches ι) ClasscacheUse, ClasscachesReachable shift fillrate empty weak s ∧ s.shared = heap ∧
    s.thread i = u

lemma Comes.begins (h : Comes shift fillrate empty weak i heap .idle) (hu : u.Begins) :
    Comes shift fillrate empty weak i heap u := by
  obtain ⟨s, hs, rfl, hi⟩ := h
  exact ⟨_, hs.step ⟨i, s.shared, u, by rw [hi]; exact .begins hu, rfl⟩, rfl, moved_self i _ _⟩

lemma Comes.goes (h : Comes shift fillrate empty weak i heap u) (fresh : ℕ) (spurious : Bool)
    (hfresh : heap.memory.allocated fresh = false) (hspurious : spurious → weak)
    (hstep : u.step shift fillrate empty fresh spurious heap = (heap', u')) :
    Comes shift fillrate empty weak i heap' u' := by
  obtain ⟨s, hs, rfl, rfl⟩ := h
  have hheap : heap' = ((s.thread i).step shift fillrate empty fresh spurious s.shared).1 := by rw [hstep]
  have hu : u' = ((s.thread i).step shift fillrate empty fresh spurious s.shared).2 := by rw [hstep]
  subst hheap hu
  refine ⟨_, hs.step ⟨i, _, _, .goes fresh spurious ?_ hspurious, rfl⟩, rfl, moved_self i _ _⟩
  rintro ⟨hallocated, -⟩
  rw [hfresh] at hallocated
  cases hallocated

omit [DecidableEq ι] in
lemma shouldGrow_zeroCache (fillrate : ℕ) : shouldGrow zeroCache fillrate = true := by
  unfold shouldGrow zeroCache
  split <;> simp

lemma Comes.filled (h : Comes shift fillrate empty weak i heap .idle) (call : AddCall) {fresh fresh' : ℕ}
    (hfresh : heap.memory.allocated fresh = false) (hfresh' : heap.memory.allocated fresh' = false)
    (hne : fresh' ≠ fresh) (hpivot : heap.pivot = empty) (hempty : heap.caches empty = zeroCache) :
    ∃ heap' : ClassCaches ι, Comes shift fillrate empty weak i heap' .idle ∧ heap'.pivot = fresh ∧
      heap'.memory.allocated fresh' = false := by
  have hread : Comes shift fillrate empty weak i heap (.checkGrow call empty) :=
    (h.begins (.fill call)).goes fresh false hfresh (by simp) (by simp [ClasscacheUse.step, hpivot])
  have hgrow : Comes shift fillrate empty weak i heap (.grow call empty) :=
    hread.goes fresh false hfresh (by simp) (by simp [ClasscacheUse.step, hempty, shouldGrow_zeroCache])
  have hcas := hgrow.goes fresh false hfresh (by simp) rfl
  have hleft : (heap.memory.alloc fresh).allocated fresh' = false := by simpa [Memory.alloc, hne] using hfresh'
  have hswapped := hcas.goes fresh' false hleft (by simp) (if_pos hpivot)
  rw [if_pos rfl] at hswapped
  exact ⟨_, hswapped.goes fresh' false hleft (by simp) rfl, rfl, hleft⟩

lemma Comes.invalidated (h : Comes shift fillrate empty true i heap .idle) {fresh : ℕ}
    (hfresh : heap.memory.allocated fresh = false) (hpivot : heap.pivot ≠ empty) :
    Comes shift fillrate empty true i heap (.abafreeOld heap.pivot) := by
  have hfound : Comes shift fillrate empty true i heap (.invalidate (some heap.pivot)) :=
    (h.begins .invalidate).goes fresh false hfresh (by simp) (by simp [ClasscacheUse.step, hpivot])
  exact hfound.goes fresh true hfresh (by simp) (by simp [ClasscacheUse.step, hpivot])

/-- **The class caches are reclaimed safely in every interleaving of the threads, if and only if no compare and swap fails
that finds what it expects.**  The loop of `_mulle_objc_universe_invalidate_classcache` takes it for a success. -/
theorem classcaches_safe_iff [Nonempty ι] :
    (∀ s : Threads ι (ClassCaches ι) ClasscacheUse, ClasscachesReachable shift fillrate empty weak s →
      ClasscachesSafe empty s) ↔ weak = false := by
  constructor
  · intro h
    by_contra hweak
    have hweak : weak = true := by simpa using hweak
    subst hweak
    obtain ⟨i⟩ := ‹Nonempty ι›
    have hidle : Comes shift fillrate empty true i (classcachesStart empty ι).shared .idle := ⟨_, .start, rfl, rfl⟩
    obtain ⟨heap, hfilled, hpivot, hleft⟩ := hidle.filled ⟨7, 16, by decide, by decide⟩
      (by simp [classcachesStart, startMemory] : _ = _) (by simp [classcachesStart, startMemory] : _ = _)
      (by omega : empty + 2 ≠ empty + 1) rfl rfl
    -- the cache is given back, but it is installed
    obtain ⟨s, hs, rfl, hi⟩ := hfilled.invalidated hleft (by omega)
    exact ((h s hs).once i s.shared.pivot (by rw [hi]; rfl)).2.2.1 rfl
  · rintro rfl s hs
    exact hs.safe

/-- Two threads, and compare and swaps that fail with a reason only. -/
theorem classcaches_safe_iff_two :
    (∀ s : Threads Bool (ClassCaches Bool) ClasscacheUse, ClasscachesReachable 4 0 0 false s → ClasscachesSafe 0 s) ↔
      false = false := classcaches_safe_iff

end MulleObjcRuntime.Registry
