import MulleObjcRuntime.Impcache.Adders
import MulleObjcRuntime.Impcache.Fillrate
import MulleObjcRuntime.Lib.Reclamation

/-!
# Method caches that are swapped under the eyes of other threads

The threads of a program look into the method cache of a class, fill it, and invalidate it.  A cache that is swapped out
is freed by `_mulle_allocator_abafree` when all threads have checked in, one that could not be swapped in is freed at
once.  The address of a cache that is gone may be that of the next one.

* `CacheUse` — where a thread is in its use of the method cache, and `CacheUse.step`, its next access;
* `CacheUse.hands` — which caches it has to do with, by the rules of `Lib.Reclamation`;
* `impcaches_reclaimed` — no access goes to a cache that is gone, none is freed twice, and none is lost.
-/

namespace MulleObjcRuntime.Impcache

open Lib.Interleaving Lib.Reclamation

/-- The cache of a class, as an address, what is at the addresses of caches, and what the allocator keeps of them. -/
structure ClassCaches (ι : Type) where
  memory : Memory ι
  pivot : ℕ
  caches : ℕ → Cache

/-- What `_mulle_objc_class_convenient_swap_impcache` is called for: to go on with a fill, or to end an invalidation. -/
inductive SwapReason
  | fill (call : AddCall)
  | invalidate

/-- `enum mulle_objc_cachesizing_t` of the swap. -/
def SwapReason.strategy : SwapReason → CacheSizing
  | .fill _ => .grow
  | .invalidate => .stagnate

/-- Where a thread is.  The first are those of `_mulle_objc_class_probe_implementation_inline`, then come
`_mulle_objc_class_fill_impcachepivot_imp`, `_mulle_objc_class_invalidate_impcacheentry`,
`_mulle_objc_class_convenient_swap_impcache`, `_mulle_objc_impcachepivot_convenient_swap` and
`_mulle_objc_impcachepivot_swap`. -/
inductive CacheUse
  | idle
  | lookup (uniqueid : ℕ)
  | probe (uniqueid c offset : ℕ)
  | readValue (c : ℕ)
  | fill (call : AddCall)
  | checkGrow (call : AddCall) (c : ℕ)
  | adding (call : AddCall) (c : ℕ) (a : Adding)
  | invalidate (uniqueid : ℕ)
  | readCount (uniqueid c : ℕ)
  | probeKey (uniqueid c offset : ℕ)
  | probeValue (uniqueid c offset : ℕ)
  | readEntry (c offset : ℕ)
  | swap (reason : SwapReason)
  | grow (reason : SwapReason) (old : ℕ)
  | readOld (reason : SwapReason) (icache : ℕ)
  | cas (reason : SwapReason) (icache old : ℕ)
  | free (reason : SwapReason) (icache : ℕ)
  | abafree (reason : SwapReason) (old : ℕ)

/-- What follows on a swap: `continue` in the loop of a fill, or the end. -/
def SwapReason.next : SwapReason → CacheUse
  | .fill call => .fill call
  | .invalidate => .idle

section Step

variable {ι : Type} (shift fillrate : ℕ)

/-- The next access of a thread.  When it is to a new cache, the allocator gives it the address `fresh`. -/
def CacheUse.step (fresh : ℕ) (heap : ClassCaches ι) : CacheUse → ClassCaches ι × CacheUse
  | .idle => (heap, .idle)
  | .lookup uniqueid => (heap, .probe uniqueid heap.pivot uniqueid)
  | .probe uniqueid c offset =>
    let cache := heap.caches c
    let offset := offset &&& cache.mask
    let entry := cache.entryAt shift offset
    (heap, if entry.uniqueid = uniqueid then .readValue c
      else if entry.uniqueid = 0 then .idle
      else .probe uniqueid c (offset + sizeofCacheentry shift))
  | .readValue _ => (heap, .idle)
  | .fill call => (heap, .checkGrow call heap.pivot)
  | .checkGrow call c =>
    (heap, if shouldGrow (heap.caches c) fillrate then .swap (.fill call) else .adding call c .ready)
  | .adding call _ (.done none) => (heap, .fill call)
  | .adding _ _ (.done (some _)) => (heap, .idle)
  | .adding call c a =>
    let (cache, a) := a.step shift (heap.caches c) call
    ({ heap with caches := Function.update heap.caches c cache }, .adding call c a)
  | .invalidate uniqueid => (heap, .readCount uniqueid heap.pivot)
  | .readCount uniqueid c =>
    (heap, if (heap.caches c).n = 0 then .idle
      else if uniqueid = 0 then .swap .invalidate
      else .probeKey uniqueid c uniqueid)
  | .probeKey uniqueid c offset =>
    let offset := offset &&& (heap.caches c).mask
    (heap, if ((heap.caches c).entryAt shift offset).uniqueid = uniqueid then .readEntry c offset
      else .probeValue uniqueid c offset)
  | .probeValue uniqueid c offset =>
    (heap, if ((heap.caches c).entryAt shift offset).value = 0 then .readEntry c offset
      else .probeKey uniqueid c (offset + sizeofCacheentry shift))
  | .readEntry c offset =>
    (heap, if ((heap.caches c).entryAt shift offset).uniqueid = 0 then .idle else .swap .invalidate)
  | .swap reason => (heap, .grow reason heap.pivot)
  | .grow reason old =>
    ({ heap with
        memory := heap.memory.alloc fresh
        caches := Function.update heap.caches fresh (growWithStrategy shift (heap.caches old) reason.strategy) },
      .readOld reason fresh)
  | .readOld reason icache => (heap, .cas reason icache heap.pivot)
  | .cas reason icache old =>
    if heap.pivot = old then ({ heap with pivot := icache }, .abafree reason old) else (heap, .free reason icache)
  | .free reason icache => ({ heap with memory := heap.memory.free icache }, reason.next)
  | .abafree reason old => ({ heap with memory := heap.memory.abafree old }, reason.next)

/-- What a thread begins when it is idle. -/
inductive CacheUse.Begins : CacheUse → Prop
  | lookup (uniqueid : ℕ) : Begins (.lookup uniqueid)
  | fill (call : AddCall) : Begins (.fill call)
  | invalidate (uniqueid : ℕ) : Begins (.invalidate uniqueid)

/-- What a thread does: it begins something, it checks in while it is idle, or it goes on.  The allocator gives it no
address of a cache that is not gone. -/
inductive CacheAct [DecidableEq ι] (i : ι) : ClassCaches ι → CacheUse → ClassCaches ι → CacheUse → Prop
  | begins {heap : ClassCaches ι} {u : CacheUse} (h : u.Begins) : CacheAct i heap .idle heap u
  | checkin {heap : ClassCaches ι} :
    CacheAct i heap .idle { heap with memory := heap.memory.checkin i } .idle
  | goes {heap : ClassCaches ι} {u : CacheUse} (fresh : ℕ) (hfresh : ¬ heap.memory.Live fresh) :
    CacheAct i heap u (u.step shift fillrate fresh heap).1 (u.step shift fillrate fresh heap).2

/-- The class has its first cache, at some address, and all threads are idle. -/
def impcachesStart (ι : Type) (size c : ℕ) : Threads ι (ClassCaches ι) CacheUse :=
  ⟨⟨startMemory (fun _ => False) c, c, fun _ => impcacheNew shift size⟩, fun _ => .idle⟩

/-- The states that any interleaving of the threads leads to. -/
def ImpcachesReachable [DecidableEq ι] (size c : ℕ) (s : Threads ι (ClassCaches ι) CacheUse) : Prop :=
  Threads.Reachable (CacheAct shift fillrate) (impcachesStart shift ι size c) s

end Step

/-! ## What a thread has to do with caches -/

/-- The cache that the next access of a thread goes to. -/
def CacheUse.touches : CacheUse → Option ℕ
  | .probe _ c _ | .readValue c | .checkGrow _ c | .readCount _ c | .probeKey _ c _ | .probeValue _ c _
  | .readEntry c _ | .grow _ c | .free _ c | .abafree _ c => some c
  | .adding _ _ (.done _) => none
  | .adding _ c _ => some c
  | _ => none

/-- The cache that a thread is about to give back. -/
def CacheUse.gives : CacheUse → Option ℕ
  | .free _ c | .abafree _ c => some c
  | _ => none

/-- The caches of a thread by the rules of `Lib.Reclamation`. -/
def CacheUse.hands : CacheUse → Hands
  | .probe _ c _ | .readValue c | .checkGrow _ c | .adding _ c _ | .readCount _ c | .probeKey _ c _
  | .probeValue _ c _ | .readEntry c _ | .grow _ c => ⟨none, none, {c}⟩
  | .readOld _ icache | .cas _ icache _ | .free _ icache => ⟨some icache, none, ∅⟩
  | .abafree _ old => ⟨none, some old, ∅⟩
  | _ => ⟨none, none, ∅⟩

/-- What the rules are about. -/
def ClassCaches.cell {ι : Type} (heap : ClassCaches ι) : Shared ι := ⟨heap.memory, heap.pivot⟩

variable {ι : Type} [DecidableEq ι] {shift fillrate size c : ℕ} {i : ι} {heap heap' : ClassCaches ι} {u u' : CacheUse}

/-! ## A step of a thread by the rules -/

omit [DecidableEq ι] in
lemma hands_next (reason : SwapReason) : reason.next.hands = ⟨none, none, ∅⟩ := by cases reason <;> rfl

/-- **What a thread does keeps to the rules.** -/
lemma CacheAct.allowed (h : CacheAct shift fillrate i heap u heap' u') :
    Allowed (fun _ => False) i heap.cell u.hands heap'.cell u'.hands := by
  cases h with
  | begins h => cases h <;> exact .refl _ _
  | checkin => exact .step Act.checkin (.refl _ _)
  | goes fresh hfresh =>
    cases u with
    | idle => exact .refl _ _
    | swap | lookup | fill | invalidate => exact allowed_look heap.cell
    | probe uniqueid c offset =>
      unfold CacheUse.step
      simp only
      split
      · exact .refl _ _
      · split
        · exact allowed_forget _ _ _ (Set.empty_subset _)
        · exact .refl _ _
    | readValue c => exact allowed_forget _ _ _ (Set.empty_subset _)
    | checkGrow call c =>
      unfold CacheUse.step
      simp only
      split
      · exact allowed_forget _ _ _ (Set.empty_subset _)
      · exact .refl _ _
    | adding call c a =>
      rcases a with _ | _ | _ | _ | _ | _ | _ | ⟨_ | _⟩
      case done.none | done.some => exact allowed_forget _ _ _ (Set.empty_subset _)
      all_goals exact .refl _ _
    | readCount uniqueid c =>
      unfold CacheUse.step
      simp only
      split
      · exact allowed_forget _ _ _ (Set.empty_subset _)
      · split
        · exact allowed_forget _ _ _ (Set.empty_subset _)
        · exact .refl _ _
    | probeKey | probeValue =>
      unfold CacheUse.step
      simp only
      split <;> exact .refl _ _
    | readEntry c offset =>
      unfold CacheUse.step
      simp only
      split <;> exact allowed_forget _ _ _ (Set.empty_subset _)
    | grow reason old =>
      exact Solo.trans (.step (Act.alloc hfresh) (.refl _ _)) (allowed_forget _ _ _ (Set.empty_subset _))
    | readOld => exact .refl _ _
    | cas reason icache old =>
      unfold CacheUse.step
      simp only
      split
      · rename_i hpivot
        subst hpivot
        exact Solo.trans (.step Act.install (.refl _ _)) (allowed_forget _ _ _ (Set.empty_subset _))
      · exact .refl _ _
    | free reason icache =>
      unfold CacheUse.step
      rw [hands_next]
      exact .step Act.free (.refl _ _)
    | abafree reason old =>
      unfold CacheUse.step
      rw [hands_next]
      exact .step Act.abafree (.refl _ _)

/-! ## All threads -/

variable {s : Threads ι (ClassCaches ι) CacheUse} {b : ℕ}

lemma ImpcachesReachable.sound (h : ImpcachesReachable shift fillrate size c s) :
    Sound (fun _ => False) ⟨s.shared.cell, fun i => (s.thread i).hands⟩ :=
  Reachable.sound h ClassCaches.cell CacheUse.hands ⟨c, rfl⟩ fun _ _ _ _ _ hact => hact.allowed

omit [DecidableEq ι] in
lemma CacheUse.known_of_touches (h : u.touches = some b) : b ∈ u.hands.known ∨ u.hands.Holds b := by
  cases u with
  | adding call c a =>
    cases a <;> cases h <;> exact Or.inl rfl
  | free | abafree =>
    cases h
    right
    simp [hands, Hands.Holds]
  | idle | lookup | fill | invalidate | swap | readOld | cas => cases h
  | _ =>
    cases h
    exact Or.inl rfl

omit [DecidableEq ι] in
lemma CacheUse.holds_of_gives (h : u.gives = some b) : u.hands.Holds b := by
  cases u <;> cases h <;> simp [hands, Hands.Holds]

lemma ImpcachesReachable.begins (h : ImpcachesReachable shift fillrate size c s) (i : ι) (hi : s.thread i = .idle)
    (hu : u.Begins) : ImpcachesReachable shift fillrate size c (s.moved i s.shared u) :=
  h.step ⟨i, _, _, by rw [hi]; exact .begins hu, rfl⟩

/-- A thread goes on a number of times. -/
def going (shift fillrate fresh : ℕ) (i : ι) : ℕ → Threads ι (ClassCaches ι) CacheUse → Threads ι (ClassCaches ι) CacheUse
  | 0, s => s
  | k + 1, s =>
    let s := going shift fillrate fresh i k s
    s.moved i ((s.thread i).step shift fillrate fresh s.shared).1 ((s.thread i).step shift fillrate fresh s.shared).2

lemma ImpcachesReachable.goes (h : ImpcachesReachable shift fillrate size c s) (i : ι) (fresh n : ℕ)
    (hfresh : ∀ k < n, (going shift fillrate fresh i k s).shared.memory.allocated fresh = false) :
    ImpcachesReachable shift fillrate size c (going shift fillrate fresh i n s) := by
  induction n with
  | zero => exact h
  | succ n ih =>
    refine (ih fun k hk => hfresh k (by omega)).step ⟨i, _, _, .goes fresh ?_, rfl⟩
    rintro ⟨hallocated, -⟩
    rw [hfresh n (by omega)] at hallocated
    cases hallocated

/-- **The method caches are reclaimed safely**, in every interleaving of threads that call, fill and invalidate.  No
access is to a cache that is gone; what is given back is not installed, and given back by one thread and for the first
time; nobody else accesses a cache that is freed at once; and when all threads are idle, only the cache of the class has
not been given back. -/
theorem impcaches_reclaimed (h : ImpcachesReachable shift fillrate size c s) :
    (∀ i b, (s.thread i).touches = some b → s.shared.memory.Live b) ∧
    (∀ i b, (s.thread i).gives = some b → s.shared.memory.Owned b ∧ b ≠ s.shared.pivot ∧
      ∀ j ≠ i, (s.thread j).gives ≠ some b) ∧
    (∀ i reason b, s.thread i = .free reason b → ∀ j ≠ i, (s.thread j).touches ≠ some b) ∧
    s.shared.memory.Owned s.shared.pivot ∧
    ((∀ i, s.thread i = .idle) → ∀ b, s.shared.memory.Owned b → b = s.shared.pivot) := by
  have hsound := h.sound
  refine ⟨?_, ?_, ?_, hsound.installed_owned, ?_⟩
  · intro i b hb
    exact hsound.live (CacheUse.known_of_touches hb)
  · intro i b hb
    obtain ⟨howned, hpivot, hothers⟩ := hsound.once (CacheUse.holds_of_gives hb)
    exact ⟨howned, hpivot, fun j hj hb' => hothers j hj (CacheUse.holds_of_gives hb')⟩
  · intro i reason b hi j hj hb
    have hfresh : (s.thread i).hands.fresh = some b := by rw [hi, CacheUse.hands]
    exact hsound.apart hfresh hj (CacheUse.known_of_touches hb)
  · intro hidle b hb
    refine (hsound.kept_idle ?_ hb).resolve_left not_false
    rintro i b (hb | hb) <;> simp [hidle i, CacheUse.hands] at hb

/-- A thread is looking into a cache that another one has just swapped out. -/
theorem impcaches_reclaimed_sample : ∃ s : Threads Bool (ClassCaches Bool) CacheUse,
    (s.thread true).touches = some 0 ∧ (s.thread false).gives = some 0 ∧
    (∀ i b, (s.thread i).touches = some b → s.shared.memory.Live b) ∧
    (∀ i b, (s.thread i).gives = some b → s.shared.memory.Owned b ∧ b ≠ s.shared.pivot ∧
      ∀ j ≠ i, (s.thread j).gives ≠ some b) ∧
    (∀ i reason b, s.thread i = .free reason b → ∀ j ≠ i, (s.thread j).touches ≠ some b) ∧
    s.shared.memory.Owned s.shared.pivot ∧
    ((∀ i, s.thread i = .idle) → ∀ b, s.shared.memory.Owned b → b = s.shared.pivot) := by
  have hstart : ImpcachesReachable 4 0 4 0 (impcachesStart 4 Bool 4 0) := .start
  -- a method is cached
  have hfilled := (hstart.begins false rfl (.fill ⟨7, 16, by decide, by decide⟩)).goes false 1 9 (by decide)
  -- it is called
  have hlooks := (hfilled.begins true rfl (.lookup 16)).goes true 1 1 (by decide)
  -- the cache is invalidated
  have hswapped := ((hlooks.begins false rfl (.invalidate 0)).goes false 1 4 (by decide)).goes false 2 2 (by decide)
  exact ⟨_, rfl, rfl, impcaches_reclaimed hswapped⟩

end MulleObjcRuntime.Impcache
