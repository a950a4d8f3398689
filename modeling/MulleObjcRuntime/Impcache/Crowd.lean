import MulleObjcRuntime.Impcache.Adders
import MulleObjcRuntime.Impcache.Fillrate

/-!
# Threads that fill one cache

The fill loop of a class's method cache, `_mulle_objc_class_fill_impcachepivot_imp`, run by several threads at the default
fill rate.  The count is read, and the cache found large enough, long before the entry takes a slot.

* `Filling` — where a fill is, and `Filling.step`, its next access;
* `CrowdInv` — how many slots can be taken while the count has not caught up;
* `crowd_leaves_slot_iff` — how many threads leave a slot without a value.
-/

namespace MulleObjcRuntime.Impcache

open Lib.OpenAddressing Lib.PowerOfTwo Lib.Interleaving

/-- The caches that have been allocated, and which is the one of the class. -/
structure CacheHeap where
  caches : ℕ → Cache
  fresh : ℕ
  pivot : ℕ

/-- Where a fill is.  A swap reads the cache of the class once for the size of the new cache and once more for the
compare and swap. -/
inductive Filling
  | idle
  | readPivot (call : AddCall)
  | checkGrow (call : AddCall) (c : ℕ)
  | growCache (call : AddCall)
  | readOld (call : AddCall) (grown : ℕ)
  | swapPivot (call : AddCall) (grown old : ℕ)
  | adding (call : AddCall) (c : ℕ) (a : Adding)

/-- Another content of a cache. -/
def CacheHeap.write (heap : CacheHeap) (c : ℕ) (cache : Cache) : CacheHeap :=
  { heap with caches := Function.update heap.caches c cache }

/-- A new cache. -/
def CacheHeap.alloc (heap : CacheHeap) (cache : Cache) : CacheHeap :=
  { heap.write heap.fresh cache with fresh := heap.fresh + 1 }

/-- The next access of a fill. -/
def Filling.step (shift : ℕ) (heap : CacheHeap) : Filling → CacheHeap × Filling
  | .idle => (heap, .idle)
  | .readPivot call => (heap, .checkGrow call heap.pivot)
  | .checkGrow call c => (heap, if shouldGrow (heap.caches c) 0 then .growCache call else .adding call c .ready)
  | .growCache call =>
    (heap.alloc (growWithStrategy shift (heap.caches heap.pivot) .grow), .readOld call heap.fresh)
  | .readOld call grown => (heap, .swapPivot call grown heap.pivot)
  | .swapPivot call grown old =>
    (if heap.pivot = old then { heap with pivot := grown } else heap, .readPivot call)
  | .adding call _ (.done none) => (heap, .readPivot call)
  | .adding _ _ (.done (some _)) => (heap, .idle)
  | .adding call c a =>
    let (cache, a) := a.step shift (heap.caches c) call
    (heap.write c cache, .adding call c a)

/-- What a thread does: it begins a fill, or goes on with one. -/
def crowdAct {ι : Type} (shift : ℕ) (_ : ι) (heap : CacheHeap) (f : Filling) (heap' : CacheHeap) (f' : Filling) : Prop :=
  (f = .idle ∧ heap' = heap ∧ ∃ call, f' = .readPivot call) ∨ (heap', f') = f.step shift heap

/-- The class has a new cache, and no thread fills it yet. -/
def crowdStart (ι : Type) (shift size : ℕ) : Threads ι CacheHeap Filling :=
  ⟨⟨fun _ => impcacheNew shift size, 1, 0⟩, fun _ => .idle⟩

/-- The states that any interleaving of the threads leads to. -/
def CrowdReachable {ι : Type} [DecidableEq ι] (shift size : ℕ) (s : Threads ι CacheHeap Filling) : Prop :=
  Threads.Reachable (crowdAct shift) (crowdStart ι shift size) s

/-! ## What is counted -/

/-- How many slots have a value. -/
def Cache.taken (cache : Cache) : ℕ := cache.entries.countP fun e => e.value != 0

/-- Whether a call may still take a slot. -/
def Adding.pending : Adding → ℕ
  | .ready | .readKey _ | .readValue _ | .swap _ => 1
  | _ => 0

/-- Whether a call has taken a slot that is not counted yet. -/
def Adding.uncounted : Adding → ℕ
  | .increment _ => 1
  | _ => 0

/-- Whether a fill may still take a slot of a cache. -/
def Filling.pending (c : ℕ) : Filling → ℕ
  | .adding _ c' a => if c' = c then a.pending else 0
  | _ => 0

/-- Whether a fill has taken a slot of a cache that is not counted yet. -/
def Filling.uncounted (c : ℕ) : Filling → ℕ
  | .adding _ c' a => if c' = c then a.uncounted else 0
  | _ => 0

/-- The entry a call looks at is one of the cache, and has a value once the call has put its own there. -/
def Adding.Placed (shift : ℕ) (cache : Cache) : Adding → Prop
  | .readValue offset | .swap offset | .checkKey offset => offset / 2 ^ shift < cache.entries.length
  | .increment offset | .writeKey offset =>
    offset / 2 ^ shift < cache.entries.length ∧ (cache.entryAt shift offset).value ≠ 0
  | _ => True

/-- What a fill knows: its caches are there. -/
def Filling.Placed (shift : ℕ) (heap : CacheHeap) : Filling → Prop
  | .checkGrow _ c => c < heap.fresh
  | .readOld _ grown | .swapPivot _ grown _ => grown < heap.fresh
  | .adding _ c a => c < heap.fresh ∧ a.Placed shift (heap.caches c)
  | _ => True

/-- What holds of a cache that threads fill. -/
structure CrowdCache (shift size : ℕ) (cache : Cache) : Prop where
  laid : cache.Laid shift
  size_eq : cache.size = cache.entries.length
  le_size : impcacheSize size ≤ cache.size
  le_max : cache.size ≤ maxCacheSize
  keyed : ∀ p, (cache.entry p).uniqueid ≠ 0 → (cache.entry p).value ≠ 0

/-- **What holds of the threads at all times.**  A slot that is taken is counted, or its thread is about to; and the
slots that are taken and may be taken exceed the third at which a cache grows by one for each thread. -/
structure CrowdInv {ι : Type} [Fintype ι] (shift size : ℕ) (s : Threads ι CacheHeap Filling) : Prop where
  pivot_lt : s.shared.pivot < s.shared.fresh
  cache : ∀ c < s.shared.fresh, CrowdCache shift size (s.shared.caches c)
  placed : ∀ i, (s.thread i).Placed shift s.shared
  counted : ∀ c < s.shared.fresh, (s.shared.caches c).taken = (s.shared.caches c).n + s.total (Filling.uncounted c)
  bounded : ∀ c < s.shared.fresh,
    3 * ((s.shared.caches c).taken + s.total (Filling.pending c)) + 1 ≤ (s.shared.caches c).size + 3 * Fintype.card ι

variable {ι : Type} {shift size offset c : ℕ} {cache cache' : Cache} {heap : CacheHeap} {call : AddCall} {a a' : Adding}
  {f f' : Filling}

/-! ## One access to a cache -/

lemma modify_eq (g : CacheEntry → CacheEntry) {i : ℕ} (hi : i < cache.entries.length) :
    cache.entries.modify i g = cache.entries.set i (g (cache.entry i)) := by
  refine List.ext_getElem? fun j => ?_
  rw [List.getElem?_modify, List.getElem?_set]
  by_cases hij : i = j
  · subst hij
    simp [hi, Cache.entry]
  · simp [hij]

lemma taken_writeValue {pointer : ℕ} (hpointer : pointer ≠ 0) (hlt : offset / 2 ^ shift < cache.entries.length)
    (hvalue : (cache.entryAt shift offset).value = 0) :
    (cache.writeValue shift offset pointer).taken = cache.taken + 1 := by
  have hentry : (cache.entries[offset / 2 ^ shift]).value = 0 := by
    rw [← List.getD_eq_getElem _ ⟨0, 0⟩ hlt]
    exact hvalue
  unfold Cache.taken Cache.writeValue sizeofCacheentry
  simp only [modify_eq _ hlt]
  rw [List.countP_set hlt]
  simp [hentry, hpointer]

lemma taken_writeKey (uniqueid : ℕ) (hlt : offset / 2 ^ shift < cache.entries.length)
    (hvalue : (cache.entryAt shift offset).value ≠ 0) :
    (cache.writeKey shift offset uniqueid).taken = cache.taken := by
  have hentry : (cache.entries[offset / 2 ^ shift]).value ≠ 0 := by
    rw [← List.getD_eq_getElem _ ⟨0, 0⟩ hlt]
    exact hvalue
  have hentry' : (cache.entry (offset / 2 ^ shift)).value ≠ 0 := hvalue
  have hpos : 0 < cache.entries.countP fun e => e.value != 0 :=
    List.countP_pos_iff.2 ⟨_, List.getElem_mem hlt, by simpa using hentry⟩
  unfold Cache.taken Cache.writeKey sizeofCacheentry
  simp only [modify_eq _ hlt]
  rw [List.countP_set hlt]
  simp [hentry, hentry']
  omega

/-- What an access leaves as it is: the layout of the cache, and which slots have values. -/
structure Keeps (cache cache' : Cache) : Prop where
  mask_eq : cache'.mask = cache.mask
  size_eq : cache'.size = cache.size
  length_eq : cache'.entries.length = cache.entries.length
  value_ne : ∀ p, (cache.entry p).value ≠ 0 → (cache'.entry p).value ≠ 0

lemma Keeps.refl (cache : Cache) : Keeps cache cache := ⟨rfl, rfl, rfl, fun _ h => h⟩

lemma Adding.Placed.mono (h : a.Placed shift cache) (hkeeps : Keeps cache cache') : a.Placed shift cache' := by
  rcases a with _ | offset | offset | offset | offset | offset | offset | entry
  case increment | writeKey => exact ⟨by rw [hkeeps.length_eq]; exact h.1, hkeeps.value_ne _ h.2⟩
  case readValue | swap | checkKey =>
    unfold Placed
    rw [hkeeps.length_eq]
    exact h
  all_goals trivial

/-- **What an access does to the counts**: a slot that is taken is one that could be taken before, and is counted
next. -/
structure Counts (shift : ℕ) (cache cache' : Cache) (a a' : Adding) : Prop where
  keeps : Keeps cache cache'
  keyed : ∀ p, (cache'.entry p).uniqueid ≠ 0 → (cache'.entry p).value ≠ 0
  placed : a'.Placed shift cache'
  counted : cache'.taken + (a.uncounted + cache.n) = cache.taken + (a'.uncounted + cache'.n)
  bounded : cache'.taken + a'.pending ≤ cache.taken + a.pending

lemma Adding.step_counts (hlaid : cache.Laid shift)
    (hkeyed : ∀ p, (cache.entry p).uniqueid ≠ 0 → (cache.entry p).value ≠ 0) (hplaced : a.Placed shift cache)
    (hdone : ∀ entry, a ≠ .done entry) (hstep : (cache', a') = a.step shift cache call) :
    Counts shift cache cache' a a' := by
  have hpos : ∀ offset, (offset &&& cache.mask) / 2 ^ shift < cache.entries.length := by
    intro offset
    rw [hlaid.div_mask, Nat.mul_div_cancel _ (Nat.two_pow_pos shift)]
    exact Nat.mod_lt _ hlaid.length_pos
  rcases a with _ | offset | offset | offset | offset | offset | offset | entry
  · cases hstep
    exact ⟨Keeps.refl _, hkeyed, trivial, rfl, le_rfl⟩
  · cases hstep
    refine ⟨Keeps.refl _, hkeyed, ?_, ?_, ?_⟩
    · split <;> exact hpos offset
    · split <;> rfl
    · split <;> exact le_rfl
  · cases hstep
    refine ⟨Keeps.refl _, hkeyed, ?_, ?_, ?_⟩
    · split
      · exact hplaced
      · trivial
    · split <;> rfl
    · split <;> exact le_rfl
  · rw [Adding.step] at hstep
    split at hstep
    · -- the slot is taken
      rename_i hvalue
      cases hstep
      have htaken := taken_writeValue call.pointer_ne hplaced hvalue
      have hentry := entry_writeValue hplaced call.pointer
      refine ⟨⟨rfl, rfl, by simp [Cache.writeValue], ?_⟩, ?_, ⟨?_, ?_⟩, ?_, ?_⟩
      · intro p hp
        rw [hentry]
        split
        · exact call.pointer_ne
        · exact hp
      · intro p hp
        rw [hentry] at hp ⊢
        split
        · exact call.pointer_ne
        · rename_i hne
          rw [if_neg hne] at hp
          exact hkeyed p hp
      · have hlt : offset / 2 ^ shift < cache.entries.length := hplaced
        simpa [Cache.writeValue] using hlt
      · rw [entryAt_eq, hentry, if_pos rfl]
        exact call.pointer_ne
      · rw [htaken]
        show cache.taken + 1 + (0 + cache.n) = cache.taken + (1 + cache.n)
        omega
      · rw [htaken]
        exact le_rfl
    · cases hstep
      exact ⟨Keeps.refl _, hkeyed, hplaced, rfl, Nat.le_succ _⟩
  · cases hstep
    exact ⟨Keeps.refl _, hkeyed, trivial, rfl, le_rfl⟩
  · -- it is counted
    cases hstep
    refine ⟨⟨rfl, rfl, rfl, fun _ h => h⟩, hkeyed, hplaced, ?_, le_rfl⟩
    show cache.taken + (1 + cache.n) = cache.taken + (0 + (cache.n + 1))
    omega
  · cases hstep
    have htaken := taken_writeKey call.uniqueid hplaced.1 hplaced.2
    have hentry := entry_writeKey hplaced.1 call.uniqueid
    refine ⟨⟨rfl, rfl, by simp [Cache.writeKey], ?_⟩, ?_, trivial, ?_, ?_⟩
    · intro p hp
      rw [hentry]
      split <;> exact hp
    · intro p hp
      rw [hentry] at hp ⊢
      split
      · rename_i heq
        rw [heq]
        exact hplaced.2
      · rename_i hne
        rw [if_neg hne] at hp
        exact hkeyed p hp
    · rw [htaken]
      rfl
    · rw [htaken]
      exact le_rfl
  · exact absurd rfl (hdone entry)

/-! ## One access of a fill -/

lemma pending_add_uncounted_le (c : ℕ) (f : Filling) : f.pending c + f.uncounted c ≤ 1 := by
  rcases f with _ | _ | _ | _ | _ | _ | ⟨_, c', a⟩
  case adding =>
    have hle : a.pending + a.uncounted ≤ 1 := by cases a <;> simp [Adding.pending, Adding.uncounted]
    simp only [Filling.pending, Filling.uncounted]
    by_cases hc : c' = c
    · rwa [if_pos hc, if_pos hc]
    · rw [if_neg hc, if_neg hc]
      exact Nat.zero_le 1
  all_goals exact Nat.zero_le 1

lemma Filling.Placed.weight_eq_zero (h : f.Placed shift heap) (hc : heap.fresh ≤ c) :
    f.pending c = 0 ∧ f.uncounted c = 0 := by
  rcases f with _ | _ | _ | _ | _ | _ | ⟨_, c', a⟩
  case adding =>
    obtain ⟨hlt, -⟩ := h
    have hne : ¬ c' = c := by omega
    exact ⟨if_neg hne, if_neg hne⟩
  all_goals exact ⟨rfl, rfl⟩

lemma Filling.Placed.mono {heap' : CacheHeap} (h : f.Placed shift heap) (hfresh : heap.fresh ≤ heap'.fresh)
    (hkeeps : ∀ c < heap.fresh, Keeps (heap.caches c) (heap'.caches c)) : f.Placed shift heap' := by
  rcases f with _ | _ | _ | _ | _ | _ | ⟨_, c', a⟩
  case checkGrow => exact lt_of_lt_of_le h hfresh
  case readOld => exact lt_of_lt_of_le h hfresh
  case swapPivot => exact lt_of_lt_of_le h hfresh
  case adding => exact ⟨lt_of_lt_of_le h.1 hfresh, h.2.mono (hkeeps c' h.1)⟩
  all_goals trivial

variable [Fintype ι] [DecidableEq ι] {s : Threads ι CacheHeap Filling} {i : ι}

namespace CrowdInv

/-- A step that leaves the caches alone. -/
lemma reads {heap' : CacheHeap} (h : CrowdInv shift size s) (hcaches : heap'.caches = s.shared.caches)
    (hfresh : heap'.fresh = s.shared.fresh) (hpivot : heap'.pivot < s.shared.fresh) (hplaced : f'.Placed shift heap')
    (huncounted : ∀ c, f'.uncounted c = (s.thread i).uncounted c)
    (hbounded : ∀ c < s.shared.fresh, f'.pending c ≤ (s.thread i).pending c ∨
      3 * (s.shared.caches c).n + 1 ≤ (s.shared.caches c).size) : CrowdInv shift size (s.moved i heap' f') := by
  have hcounted : ∀ c < s.shared.fresh, (s.shared.caches c).taken =
      (s.shared.caches c).n + (s.moved i heap' f').total (Filling.uncounted c) := by
    intro c hc
    have := total_moved (s := s) (Filling.uncounted c) i heap' f'
    rw [huncounted c] at this
    rw [h.counted c hc]
    omega
  refine ⟨by rw [moved_shared, hfresh]; exact hpivot, ?_, ?_, ?_, ?_⟩
  · intro c hc
    rw [moved_shared, hfresh] at hc
    rw [moved_shared, hcaches]
    exact h.cache c hc
  · refine (forall_moved fun _ (f : Filling) => f.Placed shift heap').2 ⟨hplaced, fun j _ => ?_⟩
    refine (h.placed j).mono (le_of_eq hfresh.symm) fun c _ => ?_
    rw [hcaches]
    exact Keeps.refl _
  · intro c hc
    rw [moved_shared, hfresh] at hc
    rw [moved_shared, hcaches]
    exact hcounted c hc
  · intro c hc
    rw [moved_shared, hfresh] at hc
    rw [moved_shared, hcaches]
    rcases hbounded c hc with hle | hcheck
    · have := total_moved (s := s) (Filling.pending c) i heap' f'
      have := h.bounded c hc
      omega
    · -- the count is below the third, and what it lacks is one for each thread at most
      have hsum := total_le (s := s.moved i heap' f') (pending_add_uncounted_le c)
      rw [total_add, mul_one] at hsum
      rw [hcounted c hc]
      omega

/-- A new cache in the heap. -/
lemma alloc (h : CrowdInv shift size s) (hnew : CrowdCache shift size cache) (htaken : cache.taken = 0)
    (hn : cache.n = 0) (hsize : 0 < cache.size) (hplaced : f'.Placed shift (s.shared.alloc cache))
    (hzero : ∀ c, f'.pending c = 0 ∧ f'.uncounted c = 0)
    (hold : ∀ c, (s.thread i).pending c = 0 ∧ (s.thread i).uncounted c = 0) :
    CrowdInv shift size (s.moved i (s.shared.alloc cache) f') := by
  have hother : ∀ c < s.shared.fresh, (s.shared.alloc cache).caches c = s.shared.caches c := by
    intro c hc
    simp [CacheHeap.alloc, CacheHeap.write, Function.update_of_ne (Nat.ne_of_lt hc)]
  have hself : (s.shared.alloc cache).caches s.shared.fresh = cache := by
    simp [CacheHeap.alloc, CacheHeap.write]
  have htotal : ∀ c, (s.moved i (s.shared.alloc cache) f').total (Filling.pending c) = s.total (Filling.pending c) ∧
      (s.moved i (s.shared.alloc cache) f').total (Filling.uncounted c) = s.total (Filling.uncounted c) := by
    intro c
    have hpending := total_moved (s := s) (Filling.pending c) i (s.shared.alloc cache) f'
    have huncounted := total_moved (s := s) (Filling.uncounted c) i (s.shared.alloc cache) f'
    rw [(hzero c).1, (hold c).1] at hpending
    rw [(hzero c).2, (hold c).2] at huncounted
    omega
  -- no thread knows of the new cache
  have hfresh : s.total (Filling.pending s.shared.fresh) = 0 ∧ s.total (Filling.uncounted s.shared.fresh) = 0 :=
    ⟨total_eq_zero fun j => ((h.placed j).weight_eq_zero le_rfl).1,
      total_eq_zero fun j => ((h.placed j).weight_eq_zero le_rfl).2⟩
  have hcases : ∀ c < (s.shared.alloc cache).fresh, c < s.shared.fresh ∨ c = s.shared.fresh := fun c hc =>
    Nat.lt_succ_iff_lt_or_eq.1 hc
  refine ⟨Nat.lt_succ_of_lt h.pivot_lt, ?_, ?_, ?_, ?_⟩
  · intro c hc
    rw [moved_shared] at hc ⊢
    rcases hcases c hc with hlt | rfl
    · rw [hother c hlt]
      exact h.cache c hlt
    · rwa [hself]
  · refine (forall_moved fun _ (f : Filling) => f.Placed shift (s.shared.alloc cache)).2 ⟨hplaced, fun j _ => ?_⟩
    refine (h.placed j).mono (Nat.le_succ _) fun c hc => ?_
    rw [hother c hc]
    exact Keeps.refl _
  · intro c hc
    rw [moved_shared] at hc ⊢
    rw [(htotal c).2]
    rcases hcases c hc with hlt | rfl
    · rw [hother c hlt]
      exact h.counted c hlt
    · rw [hself, htaken, hn, hfresh.2]
  · intro c hc
    rw [moved_shared] at hc ⊢
    rw [(htotal c).1]
    rcases hcases c hc with hlt | rfl
    · rw [hother c hlt]
      exact h.bounded c hlt
    · rw [hself, htaken, hfresh.1]
      omega

/-- An access to a cache. -/
lemma adds (h : CrowdInv shift size s) (hi : s.thread i = .adding call c a)
    (hcounts : Counts shift (s.shared.caches c) cache' a a') :
    CrowdInv shift size (s.moved i (s.shared.write c cache') (.adding call c a')) := by
  have hplaced := h.placed i
  rw [hi] at hplaced
  obtain ⟨hc, -⟩ := hplaced
  have hself : (s.shared.write c cache').caches c = cache' := by simp [CacheHeap.write]
  have hother : ∀ b, b ≠ c → (s.shared.write c cache').caches b = s.shared.caches b := by
    intro b hb
    simp [CacheHeap.write, hb]
  have hkeeps : ∀ b, Keeps (s.shared.caches b) ((s.shared.write c cache').caches b) := by
    intro b
    by_cases hb : b = c
    · subst hb
      rw [hself]
      exact hcounts.keeps
    · rw [hother b hb]
      exact Keeps.refl _
  have hpending := fun b => total_moved (s := s) (Filling.pending b) i (s.shared.write c cache') (.adding call c a')
  have huncounted := fun b => total_moved (s := s) (Filling.uncounted b) i (s.shared.write c cache') (.adding call c a')
  rw [hi] at hpending huncounted
  simp only [Filling.pending] at hpending
  simp only [Filling.uncounted] at huncounted
  refine ⟨h.pivot_lt, ?_, ?_, ?_, ?_⟩
  · intro b hb
    rw [moved_shared]
    by_cases hbc : b = c
    · subst hbc
      have hold := h.cache b hb
      rw [hself]
      refine ⟨?_, ?_, ?_, ?_, hcounts.keyed⟩
      · obtain ⟨bits, hlength, hmask⟩ := hold.laid
        exact ⟨bits, by rw [hcounts.keeps.length_eq, hlength], by rw [hcounts.keeps.mask_eq, hmask]⟩
      · rw [hcounts.keeps.size_eq, hcounts.keeps.length_eq, hold.size_eq]
      · rw [hcounts.keeps.size_eq]
        exact hold.le_size
      · rw [hcounts.keeps.size_eq]
        exact hold.le_max
    · rw [hother b hbc]
      exact h.cache b hb
  · have hadding : (Filling.adding call c a').Placed shift (s.shared.write c cache') :=
      ⟨hc, by rw [hself]; exact hcounts.placed⟩
    exact (forall_moved fun _ (f : Filling) => f.Placed shift (s.shared.write c cache')).2
      ⟨hadding, fun j _ => (h.placed j).mono le_rfl fun b _ => hkeeps b⟩
  · intro b hb
    rw [moved_shared]
    have hb' := huncounted b
    have hold := h.counted b hb
    by_cases hbc : b = c
    · subst hbc
      rw [if_pos rfl, if_pos rfl] at hb'
      rw [hself]
      have := hcounts.counted
      omega
    · rw [if_neg (Ne.symm hbc), if_neg (Ne.symm hbc)] at hb'
      rw [hother b hbc, hold]
      omega
  · intro b hb
    rw [moved_shared]
    have hb' := hpending b
    have hold := h.bounded b hb
    by_cases hbc : b = c
    · subst hbc
      rw [if_pos rfl, if_pos rfl] at hb'
      rw [hself, hcounts.keeps.size_eq]
      have := hcounts.bounded
      omega
    · rw [if_neg (Ne.symm hbc), if_neg (Ne.symm hbc)] at hb'
      rw [hother b hbc]
      omega

omit [Fintype ι] [DecidableEq ι] in
lemma crowdCache_new {size' : ℕ} (hle : impcacheSize size ≤ impcacheSize size') :
    CrowdCache shift size (impcacheNew shift size') ∧ (impcacheNew shift size').taken = 0 := by
  have hinstalled := impcacheNew_installed shift size'
  refine ⟨⟨hinstalled.laid, hinstalled.size_eq, hle, ?_, ?_⟩, ?_⟩
  · obtain ⟨bits, -, hmax, hbits⟩ := impcacheSize_eq size'
    show impcacheSize size' ≤ 2 ^ 22
    rw [hbits]
    exact Nat.pow_le_pow_right two_pos hmax
  · intro p hp
    unfold Cache.entry impcacheNew Cache.uncut at hp
    simp only [List.getD_eq_getElem?_getD, List.getElem?_replicate] at hp
    split at hp <;> exact absurd rfl hp
  · simp [Cache.taken, impcacheNew, Cache.uncut, List.countP_replicate]

lemma impcacheSize_grow (h : CrowdCache shift size cache) :
    impcacheSize size ≤ impcacheSize (getResize cache .grow % 2 ^ 32) := by
  have hmax : cache.size ≤ 2 ^ 22 := h.le_max
  rw [getResize, Nat.mod_eq_of_lt (by omega)]
  obtain ⟨b, hb2, hb22, hb⟩ := impcacheSize_eq size
  obtain ⟨bits, hlength, -⟩ := h.laid
  have hle := h.le_size
  rw [h.size_eq, hlength] at hle ⊢
  rw [hb] at hle ⊢
  have hbits : b ≤ bits := (Nat.pow_le_pow_iff_right (by omega : 1 < 2)).1 hle
  rw [← Nat.pow_succ, impcacheSize_two_pow (by omega)]
  exact Nat.pow_le_pow_right (by omega) (by omega)

omit [DecidableEq ι] in
lemma start (ι : Type) [Fintype ι] (shift size : ℕ) : CrowdInv shift size (crowdStart ι shift size) := by
  obtain ⟨hcache, htaken⟩ := @crowdCache_new shift size size le_rfl
  have hzero : ∀ c, (crowdStart ι shift size).total (Filling.pending c) = 0 ∧
      (crowdStart ι shift size).total (Filling.uncounted c) = 0 := by
    intro c
    exact ⟨total_eq_zero fun _ => rfl, total_eq_zero fun _ => rfl⟩
  have hmin := (impcacheNew_installed shift size).min_le
  refine ⟨Nat.zero_lt_one, fun _ _ => hcache, fun _ => trivial, ?_, ?_⟩
  · intro c _
    rw [(hzero c).2]
    exact htaken
  · intro c _
    rw [(hzero c).1]
    show 3 * ((impcacheNew shift size).taken + 0) + 1 ≤ (impcacheNew shift size).size + 3 * Fintype.card ι
    unfold minCacheSize at hmin
    omega

/-- **Every access keeps the invariant.** -/
theorem step {heap' : CacheHeap} (h : CrowdInv shift size s)
    (hact : crowdAct shift i s.shared (s.thread i) heap' f') : CrowdInv shift size (s.moved i heap' f') := by
  have hplaced := h.placed i
  rcases hact with ⟨hi, rfl, call, rfl⟩ | hstep
  · refine h.reads rfl rfl h.pivot_lt trivial (fun c => ?_) fun c _ => Or.inl (Nat.zero_le _)
    rw [hi]
    rfl
  rcases hi : s.thread i with _ | call | ⟨call, c⟩ | call | ⟨call, grown⟩ | ⟨call, grown, old⟩ | ⟨call, c, a⟩
  all_goals rw [hi] at hstep hplaced
  case idle =>
    cases hstep
    refine h.reads rfl rfl h.pivot_lt trivial (fun c => ?_) fun c _ => Or.inl (Nat.zero_le _)
    rw [hi]
  case readPivot =>
    cases hstep
    refine h.reads rfl rfl h.pivot_lt h.pivot_lt (fun c => ?_) fun c _ => Or.inl (Nat.zero_le _)
    rw [hi]
    rfl
  case checkGrow =>
    cases hstep
    by_cases hgrow : shouldGrow (s.shared.caches c) 0 = true
    · rw [if_pos hgrow]
      refine h.reads rfl rfl h.pivot_lt trivial (fun b => ?_) fun b _ => Or.inl (Nat.zero_le _)
      rw [hi]
      rfl
    · -- the count is below a third of the size
      rw [if_neg hgrow]
      have hthird : 3 * (s.shared.caches c).n + 1 ≤ (s.shared.caches c).size := by
        have : ¬ (s.shared.caches c).n * 3 ≥ (s.shared.caches c).size := by simpa [shouldGrow] using hgrow
        omega
      refine h.reads rfl rfl h.pivot_lt ⟨hplaced, trivial⟩ (fun b => ?_) fun b _ => ?_
      · rw [hi]
        by_cases hb : c = b
        · exact if_pos hb
        · exact if_neg hb
      · by_cases hb : c = b
        · subst hb
          exact Or.inr hthird
        · exact Or.inl (by rw [Filling.pending, if_neg hb]; exact Nat.zero_le _)
  case growCache =>
    cases hstep
    obtain ⟨hcache, htaken⟩ := crowdCache_new (impcacheSize_grow (h.cache _ h.pivot_lt))
    have hmin := (impcacheNew_installed shift (getResize (s.shared.caches s.shared.pivot) .grow % 2 ^ 32)).min_le
    refine h.alloc hcache htaken rfl (lt_of_lt_of_le (by decide) hmin) (Nat.lt_succ_self _) (fun _ => ⟨rfl, rfl⟩) fun _ => ?_
    rw [hi]
    exact ⟨rfl, rfl⟩
  case readOld =>
    cases hstep
    refine h.reads rfl rfl h.pivot_lt hplaced (fun c => ?_) fun c _ => Or.inl (Nat.zero_le _)
    rw [hi]
    rfl
  case swapPivot =>
    cases hstep
    refine h.reads ?_ ?_ ?_ trivial (fun c => ?_) fun c _ => Or.inl (Nat.zero_le _)
    · split <;> rfl
    · split <;> rfl
    · split
      · exact hplaced
      · exact h.pivot_lt
    · rw [hi]
      rfl
  case adding =>
    by_cases hdone : ∃ entry, a = .done entry
    · -- it begins anew, or is at its end
      obtain ⟨entry, rfl⟩ := hdone
      rcases entry with _ | offset
      all_goals
        cases hstep
        refine h.reads rfl rfl h.pivot_lt trivial (fun b => ?_) fun b _ => Or.inl (Nat.zero_le _)
        rw [hi]
        exact (ite_self 0).symm
    · have hne : ∀ entry, a ≠ .done entry := fun entry hentry => hdone ⟨entry, hentry⟩
      have hcache := h.cache c hplaced.1
      have hadds : (heap', f') = (s.shared.write c (a.step shift (s.shared.caches c) call).1,
          .adding call c (a.step shift (s.shared.caches c) call).2) := by
        rw [hstep]
        cases a
        case done entry => exact absurd rfl (hne entry)
        all_goals rfl
      cases hadds
      exact h.adds hi (Adding.step_counts hcache.laid hcache.keyed hplaced.2 hne rfl)

end CrowdInv

theorem CrowdReachable.inv (h : CrowdReachable shift size s) : CrowdInv shift size s :=
  Threads.Reachable.invariant h (CrowdInv.start ι shift size) fun _ _ _ _ hinv hact => hinv.step hact

omit [DecidableEq ι] in
lemma CrowdInv.slot (h : CrowdInv shift size s) (hthreads : 3 * Fintype.card ι ≤ 2 * impcacheSize size)
    (hc : c < s.shared.fresh) : ∃ e ∈ (s.shared.caches c).entries, e.value = 0 := by
  have hcache := h.cache c hc
  have hbounded := h.bounded c hc
  have hle := hcache.le_size
  have hlt : (s.shared.caches c).taken < (s.shared.caches c).entries.length := by
    rw [← hcache.size_eq]
    omega
  by_contra hfull
  have htaken : (s.shared.caches c).taken = (s.shared.caches c).entries.length := by
    rw [Cache.taken, List.countP_eq_length]
    intro e he
    have : e.value ≠ 0 := fun hvalue => hfull ⟨e, he, hvalue⟩
    simpa using this
  omega

/-! ## A call that is not disturbed -/

/-- The accesses of one call. -/
def addAct (shift : ℕ) (call : AddCall) (cache : Cache) (a : Adding) (cache' : Cache) (a' : Adding) : Prop :=
  (cache', a') = a.step shift cache call

lemma solo_probe {fuel o : ℕ} (hprobe : probeEntryoffset shift cache call.uniqueid fuel offset = some o) :
    Solo (addAct shift call) cache (.readKey offset) cache (.swap o) := by
  induction fuel generalizing offset with
  | zero => cases hprobe
  | succ fuel ih =>
    rw [probeEntryoffset] at hprobe
    split at hprobe
    · rename_i hkey
      cases hprobe
      refine .step ?_ (.refl _ _)
      simp [addAct, Adding.step, hkey]
    · rename_i hkey
      have hread : addAct shift call cache (.readKey offset) cache (.readValue (offset &&& cache.mask)) := by
        simp [addAct, Adding.step, hkey]
      split at hprobe
      · rename_i hvalue
        cases hprobe
        refine .step hread (.step ?_ (.refl _ _))
        simp [addAct, Adding.step, hvalue]
      · rename_i hvalue
        refine .step hread (.step ?_ (ih hprobe))
        simp [addAct, Adding.step, hvalue]

/-- **An adder without a concurrent writer makes the accesses of a call that is not disturbed.** -/
theorem solo_add {fuel : ℕ}
    (hadd : addFunctionpointerEntry shift fuel cache call.pointer call.uniqueid = some (some cache')) :
    ∃ o, Solo (addAct shift call) cache .ready cache' (.done (some o)) := by
  unfold addFunctionpointerEntry at hadd
  obtain ⟨o, hprobe, hentry⟩ := Option.map_eq_some_iff.1 hadd
  refine ⟨o, .step rfl ((solo_probe hprobe).trans ?_)⟩
  simp only at hentry
  split at hentry
  · -- the id has the slot already
    rename_i hvalue
    split at hentry
    · rename_i hkey
      cases hentry
      have hswap : addAct shift call cache (.swap o) cache (.checkKey o) := by
        simp [addAct, Adding.step, hvalue]
      have hcheck : addAct shift call cache (.checkKey o) cache (.done (some o)) := by
        simp [addAct, Adding.step, hkey]
      exact .step hswap (.step hcheck (.refl _ _))
    · cases hentry
  · rename_i hvalue
    have hvalue := not_not.1 hvalue
    cases hentry
    have hwritten : Cache.writeKey shift { cache.writeValue shift o call.pointer with n := cache.n + 1 } o call.uniqueid =
        { cache with
          n := cache.n + 1
          entries := cache.entries.set (o / sizeofCacheentry shift) ⟨call.uniqueid, call.pointer⟩ } := by
      unfold Cache.writeKey Cache.writeValue
      simp only [Cache.mk.injEq, true_and]
      refine List.ext_getElem? fun j => ?_
      simp only [List.getElem?_modify, List.getElem?_set]
      by_cases hj : o / sizeofCacheentry shift = j
      · subst hj
        rcases lt_or_ge (o / sizeofCacheentry shift) cache.entries.length with hlt | hge
        · simp [hlt]
        · simp [Nat.not_lt.2 hge]
      · simp [hj]
    have hswap : addAct shift call cache (.swap o) (cache.writeValue shift o call.pointer) (.increment o) := by
      simp [addAct, Adding.step, hvalue]
    rw [← hwritten]
    exact .step hswap (.step rfl (.step rfl (.refl _ _)))

/-! ## A crowd that fills the cache up -/

omit [Fintype ι] [DecidableEq ι] in
/-- The accesses to a cache as part of a fill. -/
lemma solo_adding (i : ι) (hsolo : Solo (addAct shift call) cache a cache' a') (heap : CacheHeap) (c : ℕ) :
    Solo (crowdAct shift i) (heap.write c cache) (.adding call c a) (heap.write c cache') (.adding call c a') := by
  induction hsolo with
  | refl => exact .refl _ _
  | @step C₁ C₂ _ a₁ a₂ _ hact _ ih =>
    by_cases hdone : ∃ entry, a₁ = .done entry
    · obtain ⟨entry, rfl⟩ := hdone
      cases hact
      exact ih
    · refine .step (Or.inr ?_) ih
      have hself : (heap.write c C₁).caches c = C₁ := by simp [CacheHeap.write]
      have hwrite : ∀ C, (heap.write c C₁).write c C = heap.write c C := by
        intro C
        simp [CacheHeap.write]
      have hstep : (C₂, a₂) = a₁.step shift C₁ call := hact
      cases a₁
      case done entry => exact absurd ⟨entry, rfl⟩ hdone
      all_goals
        simp only [Filling.step, hself, hwrite, ← hstep]

/-- The class has never had another cache than its first, which is filled by now. -/
def CacheHeap.first (shift size : ℕ) (cache : Cache) : CacheHeap :=
  CacheHeap.write ⟨fun _ => impcacheNew shift size, 1, 0⟩ 0 cache

omit [Fintype ι] [DecidableEq ι] in
lemma first_caches (shift size : ℕ) (cache : Cache) : (CacheHeap.first shift size cache).caches 0 = cache := by
  simp [CacheHeap.first, CacheHeap.write]

omit [Fintype ι] in
lemma crowd_begin (ι : Type) [DecidableEq ι] (shift size : ℕ) :
    CrowdReachable shift size ⟨CacheHeap.first shift size (impcacheNew shift size), fun _ : ι => .idle⟩ := by
  have hstart : CrowdReachable shift size (crowdStart ι shift size) := Threads.Reachable.start
  have hfirst : CacheHeap.first shift size (impcacheNew shift size) = ⟨fun _ => impcacheNew shift size, 1, 0⟩ := by
    unfold CacheHeap.first CacheHeap.write
    rw [Function.update_eq_self]
  rw [hfirst]
  exact hstart

omit [Fintype ι] in
lemma crowd_check {th : ι → Filling} (h : CrowdReachable shift size ⟨CacheHeap.first shift size cache, th⟩)
    (hi : th i = .idle) (hn : cache.n * 3 < cache.size) (call : AddCall) :
    CrowdReachable shift size
      ⟨CacheHeap.first shift size cache, Function.update th i (.adding call 0 .ready)⟩ := by
  have hgrow : shouldGrow cache 0 = false := by simpa [shouldGrow] using hn
  have hcheck : (CacheHeap.first shift size cache, Filling.adding call 0 .ready) =
      Filling.step shift (CacheHeap.first shift size cache) (.checkGrow call 0) := by
    simp [Filling.step, first_caches, hgrow]
  have hsolo : Solo (crowdAct shift i) (CacheHeap.first shift size cache) (th i)
      (CacheHeap.first shift size cache) (.adding call 0 .ready) :=
    .step (Or.inl ⟨hi, rfl, call, rfl⟩) (.step (Or.inr rfl) (.step (Or.inr hcheck) (.refl _ _)))
  exact Threads.Reachable.solo h hsolo

omit [Fintype ι] in
lemma crowd_add {th : ι → Filling} {fuel : ℕ} (h : CrowdReachable shift size ⟨CacheHeap.first shift size cache, th⟩)
    (hi : th i = .adding call 0 .ready)
    (hadd : addFunctionpointerEntry shift fuel cache call.pointer call.uniqueid = some (some cache')) :
    CrowdReachable shift size ⟨CacheHeap.first shift size cache', Function.update th i .idle⟩ := by
  obtain ⟨o, hsolo⟩ := solo_add hadd
  have hadding := (solo_adding i hsolo ⟨fun _ => impcacheNew shift size, 1, 0⟩ 0).trans
    (.step (Or.inr rfl) (.refl _ _))
  rw [← hi] at hadding
  exact Threads.Reachable.solo h hadding

/-- The call with the id `k + 1`. -/
def crewCall (k : ℕ) : AddCall := ⟨1, k + 1, one_ne_zero, Nat.succ_ne_zero k⟩

/-- A cache with the entries of the first calls. -/
structure FilledBy (shift size k : ℕ) (cache : Cache) : Prop where
  installed : cache.Installed shift
  size_eq : cache.size = impcacheSize size
  n_eq : cache.n = k
  cached_eq : ∀ uniqueid > k, cache.cached uniqueid = none

lemma Cache.Installed.add_new {pointer : ℕ} (h : cache.Installed shift) (hlt : cache.n < cache.size) (hid : uniqueid ≠ 0)
    (hpointer : pointer ≠ 0) (hnone : cache.cached uniqueid = none) :
    ∃ cache', addFunctionpointerEntry shift cache.entries.length cache pointer uniqueid = some (some cache') ∧
      cache'.Installed shift ∧ cache'.size = cache.size ∧ cache'.n = cache.n + 1 ∧
      ∀ k ≠ 0, k ≠ uniqueid → cache'.cached k = cache.cached k := by
  have hne := h.toValid.add_ne_none pointer hid (h.hasEmptySlot_iff.2 hlt) le_rfl
  obtain ⟨r, hr⟩ := Option.ne_none_iff_exists'.1 hne
  rcases r with _ | cache'
  · exact absurd hr h.toValid.add_ne_taken
  obtain ⟨hvalid, hadded, hsize, hlength⟩ := h.toValid.add hid hpointer hr
  have hn := h.toValid.add_n hid hr
  rw [if_pos hnone] at hn
  refine ⟨cache', hr, ⟨hvalid, by rw [hsize, hlength, h.size_eq], by rw [hsize]; exact h.min_le⟩, hsize, hn, ?_⟩
  intro k hk hku
  rw [hadded k hk, if_neg hku]

lemma filledBy_zero (shift size : ℕ) : FilledBy shift size 0 (impcacheNew shift size) := by
  have hinstalled := impcacheNew_installed shift size
  exact ⟨hinstalled, rfl, rfl, fun id hid => hinstalled.toValid.cached_of_empty rfl (by omega)⟩

lemma FilledBy.next {k : ℕ} (h : FilledBy shift size k cache) (hk : k < impcacheSize size) :
    ∃ cache' fuel, addFunctionpointerEntry shift fuel cache (crewCall k).pointer (crewCall k).uniqueid =
      some (some cache') ∧ FilledBy shift size (k + 1) cache' := by
  obtain ⟨cache', hadd, hinstalled, hsize, hn, hother⟩ := h.installed.add_new (by rw [h.n_eq, h.size_eq]; exact hk)
    (crewCall k).uniqueid_ne (crewCall k).pointer_ne (h.cached_eq _ (Nat.lt_succ_self k))
  refine ⟨cache', _, hadd, hinstalled, by rw [hsize, h.size_eq], by rw [hn, h.n_eq], ?_⟩
  intro uniqueid hid
  rw [hother uniqueid (by omega) (by show uniqueid ≠ k + 1; omega)]
  exact h.cached_eq uniqueid (by omega)

section Crew

variable {threads : ℕ}

/-- The threads from `m` up to `l` have found the cache large enough. -/
def crew (threads k m l : ℕ) (j : Fin threads) : Filling :=
  if m ≤ j.val ∧ j.val < l then .adding (crewCall (k + j.val)) 0 .ready else .idle

lemma crowd_third (hpos : 0 < threads) {k : ℕ} (hk : 3 * k < impcacheSize size + 3) :
    ∃ cache, FilledBy shift size k cache ∧
      CrowdReachable shift size ⟨CacheHeap.first shift size cache, fun _ : Fin threads => .idle⟩ := by
  induction k with
  | zero =>
    exact ⟨_, filledBy_zero shift size, crowd_begin (Fin threads) shift size⟩
  | succ k ih =>
    obtain ⟨cache, hfilled, hreach⟩ := ih (by omega)
    obtain ⟨cache', fuel, hadd, hfilled'⟩ := hfilled.next (by omega)
    have hchecked := crowd_check hreach (i := ⟨0, hpos⟩) rfl (by rw [hfilled.n_eq, hfilled.size_eq]; omega) (crewCall k)
    have hadded := crowd_add hchecked (Function.update_self _ _ _) hadd
    rw [Function.update_idem, Function.update_eq_self] at hadded
    exact ⟨cache', hfilled', hadded⟩

/-- Many threads find the cache large enough. -/
lemma crowd_checks {k l : ℕ} (hk : 3 * k < impcacheSize size) (hl : l ≤ threads) (hfilled : FilledBy shift size k cache)
    (hreach : CrowdReachable shift size ⟨CacheHeap.first shift size cache, fun _ : Fin threads => .idle⟩) :
    CrowdReachable shift size ⟨CacheHeap.first shift size cache, crew threads k 0 l⟩ := by
  induction l with
  | zero =>
    have hidle : crew threads k 0 0 = fun _ => .idle := funext fun j => if_neg (by omega)
    rwa [hidle]
  | succ l ih =>
    have hidle : crew threads k 0 l ⟨l, hl⟩ = .idle := if_neg (by simp)
    have hchecked := crowd_check (ih (by omega)) hidle (by rw [hfilled.n_eq, hfilled.size_eq]; omega) (crewCall (k + l))
    have hnext : Function.update (crew threads k 0 l) ⟨l, hl⟩ (.adding (crewCall (k + l)) 0 .ready) =
        crew threads k 0 (l + 1) := by
      refine funext fun j => ?_
      by_cases hj : j = ⟨l, hl⟩
      · subst hj
        rw [Function.update_self]
        exact (if_pos (by simp)).symm
      · have hne : j.val ≠ l := fun heq => hj (Fin.ext heq)
        rw [Function.update_of_ne hj]
        unfold crew
        simp only [show (0 ≤ j.val ∧ j.val < l) ↔ (0 ≤ j.val ∧ j.val < l + 1) by omega]
    rwa [hnext] at hchecked

/-- All of them add their entries. -/
lemma crowd_adds {k l m : ℕ} (hl : l ≤ threads) (hkl : k + l ≤ impcacheSize size) (hm : m ≤ l)
    (hfilled : FilledBy shift size k cache)
    (hreach : CrowdReachable shift size ⟨CacheHeap.first shift size cache, crew threads k 0 l⟩) :
    ∃ cache', FilledBy shift size (k + m) cache' ∧
      CrowdReachable shift size ⟨CacheHeap.first shift size cache', crew threads k m l⟩ := by
  induction m with
  | zero => exact ⟨cache, hfilled, hreach⟩
  | succ m ih =>
    obtain ⟨before, hbefore, hreach'⟩ := ih (by omega)
    obtain ⟨after, fuel, hadd, hafter⟩ := hbefore.next (by omega)
    have hi : crew threads k m l ⟨m, by omega⟩ = .adding (crewCall (k + m)) 0 .ready :=
      if_pos ⟨le_rfl, by simp only; omega⟩
    have hadded := crowd_add hreach' hi hadd
    have hnext : Function.update (crew threads k m l) ⟨m, by omega⟩ .idle = crew threads k (m + 1) l := by
      refine funext fun j => ?_
      by_cases hj : j = ⟨m, by omega⟩
      · subst hj
        rw [Function.update_self]
        exact (if_neg (by simp)).symm
      · have hne : j.val ≠ m := fun heq => hj (Fin.ext heq)
        rw [Function.update_of_ne hj]
        unfold crew
        simp only [show (m ≤ j.val ∧ j.val < l) ↔ (m + 1 ≤ j.val ∧ j.val < l) by omega]
    rw [hnext] at hadded
    exact ⟨after, hafter, hadded⟩

/-- **More threads than two thirds of the slots fill the cache up.** -/
lemma crowd_fills (hthreads : 2 * impcacheSize size < 3 * threads) :
    ∃ cache, CrowdReachable shift size ⟨CacheHeap.first shift size cache, fun _ : Fin threads => .idle⟩ ∧
      ∀ e ∈ cache.entries, e.uniqueid ≠ 0 ∧ e.value ≠ 0 := by
  have hmin := (impcacheNew_installed shift size).min_le
  have hmin : 4 ≤ impcacheSize size := hmin
  -- what one thread can add, and what is left for the others
  obtain ⟨k, l, hk, hkl, hl⟩ : ∃ k l, 3 * k < impcacheSize size ∧ k + l = impcacheSize size ∧ l ≤ threads :=
    ⟨(impcacheSize size - 1) / 3, impcacheSize size - (impcacheSize size - 1) / 3, by omega, by omega, by omega⟩
  obtain ⟨third, hthird, hreach⟩ : ∃ cache, FilledBy shift size k cache ∧
      CrowdReachable shift size ⟨CacheHeap.first shift size cache, fun _ : Fin threads => .idle⟩ :=
    crowd_third (by omega) (by omega)
  obtain ⟨cache, hfilled, hfull⟩ := crowd_adds hl (le_of_eq hkl) le_rfl hthird (crowd_checks hk hl hthird hreach)
  have hidle : crew threads k l l = fun _ => .idle := funext fun j => if_neg (by omega)
  rw [hidle] at hfull
  refine ⟨cache, hfull, ?_⟩
  have hcount := hfilled.installed.count
  rw [hfilled.n_eq, hkl, ← hfilled.size_eq, hfilled.installed.size_eq, eq_comm, List.countP_eq_length] at hcount
  intro e he
  have hkey : e.uniqueid ≠ 0 := by simpa using hcount e he
  exact ⟨hkey, fun hvalue => hkey ((hfilled.installed.keyed e he).2 hvalue)⟩

end Crew

/-- **A slot stays without a value, and every probe ends, exactly when the threads are two thirds of the slots at
most.** -/
theorem crowd_leaves_slot_iff (shift size threads : ℕ) :
    (∀ s : Threads (Fin threads) CacheHeap Filling, CrowdReachable shift size s → ∀ c < s.shared.fresh,
      (∃ e ∈ (s.shared.caches c).entries, e.value = 0) ∧
      ∀ uniqueid ≠ 0, ∀ probe : Probe, ∃ fuel, probe.read shift fuel (s.shared.caches c) uniqueid ≠ none) ↔
    3 * threads ≤ 2 * impcacheSize size := by
  constructor
  · intro hall
    by_contra hthreads
    obtain ⟨cache, hreach, hfull⟩ := @crowd_fills shift size threads (not_le.1 hthreads)
    obtain ⟨⟨e, he, hvalue⟩, -⟩ := hall _ hreach 0 Nat.zero_lt_one
    rw [first_caches] at he
    exact (hfull e he).2 hvalue
  · intro hthreads s hreach c hc
    have hinv := hreach.inv
    have hslot := hinv.slot (by rwa [Fintype.card_fin]) hc
    have hcache := hinv.cache c hc
    have hkeyed : (s.shared.caches c).Keyed := by
      intro e he hkey
      obtain ⟨p, hp, rfl⟩ := List.mem_iff_getElem.1 he
      have hentry : (s.shared.caches c).entry p = (s.shared.caches c).entries[p] := List.getD_eq_getElem _ _ hp
      rw [← hentry] at hkey ⊢
      exact hcache.keyed p hkey
    exact ⟨hslot, fun uniqueid hid probe => probe.read_ends hcache.laid hkeyed hid hslot⟩

/-- A cache of the least size with no slot left. -/
def crowdedCache : Cache := ⟨4, 4, 48, [⟨1, 1⟩, ⟨2, 1⟩, ⟨3, 1⟩, ⟨4, 1⟩]⟩

lemma crowdedCache_valid : crowdedCache.Valid 4 := by
  have hadd : addAll 4 4 (Cache.uncut 4 (2 ^ 2)) ([1, 2, 3, 4].map fun id => ⟨.functionpointerEntry, 1, id⟩) =
    some crowdedCache := rfl
  exact ((holds_uncut 4 2).addAll (by decide) hadd).valid

/-- **Three threads fill a cache of four slots up**: one entry is there, all three find the cache large enough and add
theirs, and no probe for another id ends. -/
theorem three_threads_fill_up :
    CrowdReachable 4 4 ⟨CacheHeap.first 4 4 crowdedCache, fun _ : Fin 3 => .idle⟩ ∧
      ∀ (probe : Probe) (fuel : ℕ), probe.read 4 fuel crowdedCache 5 = none := by
  refine ⟨?_, fun probe fuel => crowdedCache_valid.read_full (by decide) (by decide) (by decide) probe⟩
  have h₀ := crowd_begin (Fin 3) 4 4
  have h₁ := crowd_check h₀ (i := 0) rfl (by decide) (crewCall 0)
  have h₂ : CrowdReachable 4 4 ⟨CacheHeap.first 4 4 ⟨1, 4, 48, [⟨1, 1⟩, ⟨0, 0⟩, ⟨0, 0⟩, ⟨0, 0⟩]⟩, _⟩ :=
    @crowd_add _ 4 4 _ _ _ _ 0 _ 4 h₁ rfl rfl
  have h₃ := crowd_check h₂ (i := 0) rfl (by decide) (crewCall 1)
  have h₄ := crowd_check h₃ (i := 1) rfl (by decide) (crewCall 2)
  have h₅ := crowd_check h₄ (i := 2) rfl (by decide) (crewCall 3)
  have h₆ : CrowdReachable 4 4 ⟨CacheHeap.first 4 4 ⟨2, 4, 48, [⟨1, 1⟩, ⟨2, 1⟩, ⟨0, 0⟩, ⟨0, 0⟩]⟩, _⟩ :=
    @crowd_add _ 4 4 _ _ _ _ 0 _ 4 h₅ rfl rfl
  have h₇ : CrowdReachable 4 4 ⟨CacheHeap.first 4 4 ⟨3, 4, 48, [⟨1, 1⟩, ⟨2, 1⟩, ⟨3, 1⟩, ⟨0, 0⟩]⟩, _⟩ :=
    @crowd_add _ 4 4 _ _ _ _ 1 _ 4 h₆ rfl rfl
  have h₈ : CrowdReachable 4 4 ⟨CacheHeap.first 4 4 crowdedCache, _⟩ :=
    @crowd_add _ 4 4 _ _ _ _ 2 _ 4 h₇ rfl rfl
  have hreach : ∀ th : Fin 3 → Filling, CrowdReachable 4 4 ⟨CacheHeap.first 4 4 crowdedCache, th⟩ →
      (th = fun _ => .idle) → CrowdReachable 4 4 ⟨CacheHeap.first 4 4 crowdedCache, fun _ : Fin 3 => .idle⟩ := by
    rintro th h rfl
    exact h
  refine hreach _ h₈ (funext fun j => ?_)
  match j with
  | 0 => rfl
  | 1 => rfl
  | 2 => rfl

end MulleObjcRuntime.Impcache
