import MulleObjcRuntime.Instances.Layout
import MulleObjcRuntime.Lib.Bytes
import MulleObjcRuntime.Lib.Runs

/-!
# Instances that are used again

A thread keeps the memory of its freed instances, for each class in a list of its own, and a later instance of the class
gets it again.

* `Infraclass`, `Thread`, `State` — the classes, what a thread knows, and the memory of its instances;
* `step` — an instance is allocated or freed, or something is written to it;
* `Place`, `Owned` — a block of memory is that of a live instance, is kept for a class or is freed;
* `Starts` — a new instance has as much memory as asked for, with zeroes in it;
* `reuse_sound` — both hold in every run.

The list that keeps blocks is that of a library: a block that is taken off is the first one, and its link is cleared.
-/

namespace MulleObjcRuntime.Instances

open Lib.Bytes Lib.Runs

/-! ## Classes and memory -/

/-- A class by the sizes that it is created with.  They have a sum that is a `size_t`. -/
structure Infraclass (t : Target) where
  instancesize : ℕ
  headerextrasize : ℕ
  threadaffine : Bool
  fits : t.sizeofObjectheader + instancesize + headerextrasize < t.sizes

/-- The `_mulle_objc_class` in it -/
def Infraclass.base {t : Target} (infra : Infraclass t) : Class := classInit t infra.instancesize infra.headerextrasize

/-- What is read of a `_mulle_objc_threadinfo`, the registered classes by their class indexes, which are counted up, and
the bytes of some pointers and of the id of the thread. -/
structure Thread (t : Target) where
  objectallocator : ℕ
  classes : ℕ → Option (Infraclass t)
  isa : ℕ → List Byte
  link : Option ℕ → List Byte
  id : List Byte
  length_isa : ∀ index, (isa index).length = t.pointerSize
  length_link : ∀ block, (link block).length = t.pointerSize
  length_id : id.length = t.pointerSize

/-- A live instance: its block, the index of its class and the size of its extra bytes -/
structure Object where
  block : ℕ
  index : ℕ
  extra : ℕ
deriving DecidableEq, Repr

/-- The blocks with their sizes and their bytes, from the start of a block on; the live instances, the
`reuseallocsperclassindex`, what was given back to an allocator, and all the blocks that allocators gave. -/
structure State where
  size : ℕ → ℕ
  bytes : ℕ → Memory
  live : List Object
  pools : ℕ → List ℕ
  freed : List ℕ
  blocks : List ℕ

/-- No memory -/
def State.new : State := ⟨fun _ => 0, fun _ _ => 0, [], fun _ => [], [], []⟩

/-- `memset( &mem[ a], 0, n)` -/
def memset (mem : Memory) (a n : ℕ) : Memory := fun x => if a ≤ x ∧ x < a + n then 0 else mem x

/-- The bytes of one block change. -/
def State.setBytes (s : State) (block : ℕ) (mem : Memory) : State :=
  { s with bytes := Function.update s.bytes block mem }

/-! ## Allocating and freeing -/

section Source

variable {t : Target} (thread : Thread t) (infra : Infraclass t)

/-- `_mulle_linkedlistentry_chain` -/
def chain (s : State) (index block : ℕ) : State :=
  { s.setBytes block ((s.bytes block).store 0 (thread.link (s.pools index).head?)) with
    pools := Function.update s.pools index (block :: s.pools index) }

/-- `_mulle_linkedlistentry_unchain` -/
def unchain (t : Target) (s : State) (index : ℕ) : Option (ℕ × State) :=
  match s.pools index with
  | [] => none
  | block :: rest =>
    some (block, { s.setBytes block (memset (s.bytes block) 0 t.pointerSize) with
      pools := Function.update s.pools index rest })

/-- `_mulle_objc_infraclass_reuse_alloc_thread` -/
def reuseAllocThread (s : State) (index size allocator : ℕ) : Option (ℕ × State) :=
  if size ≠ infra.base.allocationsize then none
  else if thread.objectallocator ≠ allocator then none
  else unchain t s index

/-- `_mulle_objc_infraclass_keep_alloc_thread`, `none` if the block is not kept -/
def keepAllocThread (s : State) (index block allocator : ℕ) : Option State :=
  if thread.objectallocator ≠ allocator then none
  else some (chain thread (s.setBytes block (memset (s.bytes block) 0 infra.base.allocationsize)) index block)

/-- What an allocator does that has this block to give: one that it never gave before or that it got back. -/
def allocatorAlloc (s : State) (block size : ℕ) (mem : Memory) : Option State :=
  if block ∈ s.blocks ∧ block ∉ s.freed then none
  else
    some { s.setBytes block mem with
      size := Function.update s.size block size
      freed := s.freed.filter (· ≠ block)
      blocks := block :: s.blocks }

/-- `_mulle_objc_infraclass_alloc_calloc` if zeroed, else `_mulle_objc_infraclass_alloc_malloc`, with what was in the
memory of the allocator -/
def infraclassAlloc (s : State) (index size allocator : ℕ) (zeroed : Bool) (block : ℕ) (mem : Memory) :
    Option (ℕ × State) :=
  match reuseAllocThread thread infra s index size allocator with
  | some r => some r
  | none => (allocatorAlloc s block size (if zeroed then memset mem 0 size else mem)).map fun s => (block, s)

/-- `_mulle_objc_objectheader_init`, for the header in a block -/
def objectheaderInit (index : ℕ) (zeroed : Bool) (mem : Memory) : Memory :=
  let header := allocGetObjectheader 0 infra.base.headerextrasize
  let mem :=
    if zeroed then mem
    else memset mem (objectheaderGetAlloc header infra.base.headerextrasize)
      (t.sizeofObjectheader - t.pointerSize + infra.base.headerextrasize)
  let mem := mem.store (header + (t.sizeofObjectheader - t.pointerSize)) (thread.isa index)
  if t.taoObjectHeader && infra.threadaffine then mem.store (header + t.pointerSize) thread.id else mem

/-- `_mulle_objc_infraclass_allocator_alloc_instance_extra` if zeroed, else
`_mulle_objc_infraclass_allocator_alloc_instance_extra_nonzeroed` -/
def allocInstance (s : State) (index extra allocator : ℕ) (zeroed : Bool) (block : ℕ) (mem : Memory) : Option State :=
  (instanceSize t infra.base extra).bind fun size =>
    (infraclassAlloc thread infra s index size allocator zeroed block mem).map fun r =>
      { r.2.setBytes r.1 (objectheaderInit thread infra index zeroed (r.2.bytes r.1)) with
        live := ⟨r.1, index, extra⟩ :: r.2.live }

/-- `_mulle_objc_infraclass_allocator_free_instance` -/
def freeInstance (s : State) (index block allocator : ℕ) : State :=
  let s := { s with live := s.live.filter fun o => o.block ≠ block }
  match keepAllocThread thread infra s index block allocator with
  | some s => s
  | none => { s with freed := block :: s.freed }

end Source

/-! ## Runs -/

/-- What a program does with instances.  For an allocation it is said what the allocator gives, if it is asked. -/
inductive Action
  | alloc (index extra allocator : ℕ) (zeroed : Bool) (block : ℕ) (mem : Memory)
  | free (block allocator : ℕ)
  | write (block offset : ℕ) (bytes : List Byte)

/-- One action.  Classes are registered, allocators give what they have, and a program frees and writes to instances that
are live. -/
def step {t : Target} (thread : Thread t) (s : State) : Action → Option State
  | .alloc index extra allocator zeroed block mem =>
    (thread.classes index).bind fun infra => allocInstance thread infra s index extra allocator zeroed block mem
  | .free block allocator =>
    (s.live.find? fun o => o.block = block).bind fun o =>
      (thread.classes o.index).map fun infra => freeInstance thread infra s o.index block allocator
  | .write block offset bytes =>
    if block ∈ s.live.map (·.block) ∧ offset + bytes.length ≤ s.size block then
      some (s.setBytes block ((s.bytes block).store offset bytes))
    else none

/-! ## What holds of the blocks -/

/-- Where a block is -/
inductive Place
  | live
  | pool (index : ℕ)
  | freed
deriving DecidableEq, Repr

/-- The block is there. -/
def At (s : State) (block : ℕ) : Place → Prop
  | .live => block ∈ s.live.map (·.block)
  | .pool index => block ∈ s.pools index
  | .freed => block ∈ s.freed

/-- Every block is in one place, no two live instances share a block, and no block is kept twice. -/
structure Owned (s : State) : Prop where
  place : ∀ block ∈ s.blocks, ∃! place, At s block place
  live : (s.live.map (·.block)).Nodup
  pools : ∀ index, (s.pools index).Nodup

/-- The header extra, the `_retaincount_1` and the instance variables of an instance, from the start of its block on -/
def zeroes {t : Target} (infra : Infraclass t) : List Region :=
  let header := allocGetObjectheader 0 infra.base.headerextrasize
  [⟨0, infra.base.headerextrasize⟩, ⟨header + (t.sizeofObjectheader - 2 * t.pointerSize), t.pointerSize⟩,
    ⟨objectheaderGetObject t header, infra.instancesize⟩]

/-- An allocation gives an instance whose block is as large as asked for, and if it is a zeroing one, the instance starts
with zeroes. -/
def Starts {t : Target} (thread : Thread t) (s : State) : Action → Prop
  | .alloc index extra allocator zeroed block mem =>
    ∀ infra, thread.classes index = some infra →
      ∀ s', step thread s (.alloc index extra allocator zeroed block mem) = some s' →
        ∃ o, s'.live = o :: s.live ∧ o.index = index ∧ infra.base.allocationsize + extra ≤ s'.size o.block ∧
          (zeroed = true → ∀ r ∈ zeroes infra, ∀ x, r.Has x → s'.bytes o.block x = 0)
  | _ => True

/-! ## What a step does -/

section Step

/-- An instance gets a block that was kept. -/
def State.reused (s : State) (o : Object) (rest : List ℕ) (mem : Memory) : State :=
  { s.setBytes o.block mem with
    live := o :: s.live
    pools := Function.update s.pools o.index rest }

/-- An instance gets a block from an allocator. -/
def State.given (s : State) (o : Object) (size : ℕ) (mem : Memory) : State :=
  { s.setBytes o.block mem with
    size := Function.update s.size o.block size
    live := o :: s.live
    freed := s.freed.filter (· ≠ o.block)
    blocks := o.block :: s.blocks }

/-- The block of an instance is kept. -/
def State.kept (s : State) (index block : ℕ) (mem : Memory) : State :=
  { s.setBytes block mem with
    live := s.live.filter fun o => o.block ≠ block
    pools := Function.update s.pools index (block :: s.pools index) }

/-- An allocator gets the block of an instance back. -/
def State.givenBack (s : State) (block : ℕ) : State :=
  { s with
    live := s.live.filter fun o => o.block ≠ block
    freed := block :: s.freed }

variable {t : Target} {thread : Thread t} {infra : Infraclass t} {s s' : State}
  {index extra allocator block : ℕ} {zeroed : Bool} {mem : Memory}

/-- The bytes of a block that was kept, when an instance has got it -/
def reusedBytes (thread : Thread t) (infra : Infraclass t) (index : ℕ) (zeroed : Bool) (mem : Memory) : Memory :=
  objectheaderInit thread infra index zeroed (memset mem 0 t.pointerSize)

/-- The bytes of a block from an allocator, when an instance has got it -/
def givenBytes (thread : Thread t) (infra : Infraclass t) (index size : ℕ) (zeroed : Bool) (mem : Memory) : Memory :=
  objectheaderInit thread infra index zeroed (if zeroed then memset mem 0 size else mem)

/-- The bytes of a block that is kept -/
def keptBytes (thread : Thread t) (infra : Infraclass t) (next : Option ℕ) (mem : Memory) : Memory :=
  (memset mem 0 infra.base.allocationsize).store 0 (thread.link next)

lemma base_allocationsize (infra : Infraclass t) :
    infra.base.allocationsize = t.sizeofObjectheader + infra.instancesize + infra.headerextrasize :=
  Nat.mod_eq_of_lt infra.fits

lemma base_headerextrasize_le (infra : Infraclass t) : infra.base.headerextrasize ≤ infra.headerextrasize :=
  Nat.mod_le _ _

lemma two_mul_pointerSize_le (t : Target) : 2 * t.pointerSize ≤ t.sizeofObjectheader := by
  have hpos := t.pointerSize_pos
  unfold Target.sizeofObjectheader
  split <;> omega

lemma instanceSize_eq_some {size : ℕ} (h : instanceSize t infra.base extra = some size) :
    size = infra.base.allocationsize + extra := by
  have hpos : 0 < infra.base.allocationsize := by
    have hheader : 0 < t.sizeofObjectheader := sizeofObjectheader_pos
    rw [base_allocationsize]
    omega
  have hlt : infra.base.allocationsize < t.sizes := Nat.mod_lt _ sizes_pos
  by_cases hsum : infra.base.allocationsize + extra < t.sizes
  · rw [instanceSize_of_lt hpos hsum] at h
    exact (Option.some.inj h).symm
  · rw [(instanceSize_eq_none_iff hlt).mpr (Or.inr (Nat.le_of_not_lt hsum))] at h
    cases h

/-- **An allocation: the first block that is kept for the class, or one from an allocator.** -/
lemma allocInstance_cases (h : allocInstance thread infra s index extra allocator zeroed block mem = some s') :
    (∃ b rest, extra = 0 ∧ s.pools index = b :: rest ∧
        s' = s.reused ⟨b, index, extra⟩ rest (reusedBytes thread infra index zeroed (s.bytes b))) ∨
      (¬ (block ∈ s.blocks ∧ block ∉ s.freed) ∧
        s' = s.given ⟨block, index, extra⟩ (infra.base.allocationsize + extra)
          (givenBytes thread infra index (infra.base.allocationsize + extra) zeroed mem)) := by
  obtain ⟨size, hsize, h⟩ := Option.bind_eq_some_iff.mp h
  have hsize := instanceSize_eq_some hsize
  obtain ⟨⟨b, s₁⟩, halloc, rfl⟩ := Option.map_eq_some_iff.mp h
  unfold infraclassAlloc at halloc
  cases hreuse : reuseAllocThread thread infra s index size allocator with
  | some r =>
    simp only [hreuse, Option.some.injEq] at halloc
    subst halloc
    unfold reuseAllocThread at hreuse
    split at hreuse
    · cases hreuse
    · split at hreuse
      · cases hreuse
      · rename_i hequal _
        unfold unchain at hreuse
        cases hpool : s.pools index with
        | nil =>
          simp only [hpool] at hreuse
          cases hreuse
        | cons b' rest =>
          simp only [hpool, Option.some.injEq, Prod.mk.injEq] at hreuse
          obtain ⟨rfl, rfl⟩ := hreuse
          refine Or.inl ⟨b', rest, by omega, rfl, ?_⟩
          simp only [State.reused, State.setBytes, reusedBytes, Function.update_self, Function.update_idem]
  | none =>
    simp only [hreuse] at halloc
    obtain ⟨s₂, halloc, hpair⟩ := Option.map_eq_some_iff.mp halloc
    obtain ⟨rfl, rfl⟩ := Prod.mk.inj hpair
    unfold allocatorAlloc at halloc
    split at halloc
    · cases halloc
    · rename_i hfree
      cases halloc
      refine Or.inr ⟨hfree, ?_⟩
      simp only [State.given, State.setBytes, givenBytes, Function.update_self, Function.update_idem, hsize]

/-- **A block that is freed is kept for the class, or an allocator gets it back.** -/
lemma freeInstance_cases (thread : Thread t) (infra : Infraclass t) (s : State) (index block allocator : ℕ) :
    freeInstance thread infra s index block allocator =
        s.kept index block (keptBytes thread infra (s.pools index).head? (s.bytes block)) ∨
      freeInstance thread infra s index block allocator = s.givenBack block := by
  unfold freeInstance
  by_cases hallocator : thread.objectallocator = allocator
  · have hkeep (s : State) : keepAllocThread thread infra s index block allocator =
        some (chain thread (s.setBytes block (memset (s.bytes block) 0 infra.base.allocationsize)) index block) :=
      if_neg (not_not.mpr hallocator)
    left
    simp only [hkeep, State.kept, State.setBytes, chain, keptBytes, Function.update_self, Function.update_idem]
  · have hkeep (s : State) : keepAllocThread thread infra s index block allocator = none := if_pos hallocator
    right
    simp only [hkeep, State.givenBack]

end Step

/-! ## The invariant -/

section Invariant

variable {t : Target} {thread : Thread t} {infra : Infraclass t} {s s' : State} {block : ℕ} {place : Place}

/-- A block is in one place at most, the blocks in some place are the known ones. -/
structure Placed (s : State) : Prop where
  unique : ∀ block place place', At s block place → At s block place' → place = place'
  known : ∀ block, block ∈ s.blocks ↔ ∃ place, At s block place

/-- The blocks are in their places, those of instances and those that are kept for a class are large enough for it, and
what is kept is zero but for the link. -/
structure ReuseInv (thread : Thread t) (s : State) : Prop where
  placed : Placed s
  live : (s.live.map (·.block)).Nodup
  pools : ∀ index, (s.pools index).Nodup
  room : ∀ o ∈ s.live, ∀ infra, thread.classes o.index = some infra → infra.base.allocationsize ≤ s.size o.block
  kept : ∀ index, ∀ block ∈ s.pools index, ∀ infra, thread.classes index = some infra →
    infra.base.allocationsize ≤ s.size block ∧
      ∀ x, t.pointerSize ≤ x → x < infra.base.allocationsize → s.bytes block x = 0

lemma ReuseInv.owned (h : ReuseInv thread s) : Owned s where
  place block hblock := by
    obtain ⟨place, hplace⟩ := (h.placed.known block).mp hblock
    exact ⟨place, hplace, fun place' hplace' => h.placed.unique block place' place hplace' hplace⟩
  live := h.live
  pools := h.pools

lemma inv_new (thread : Thread t) : ReuseInv thread State.new where
  placed := by
    refine ⟨fun block place place' hplace => ?_, fun block => iff_of_false List.not_mem_nil ?_⟩
    · cases place <;> exact absurd hplace List.not_mem_nil
    · rintro ⟨place, hplace⟩
      cases place <;> exact absurd hplace List.not_mem_nil
  live := List.nodup_nil
  pools _ := List.nodup_nil
  room o ho := absurd ho List.not_mem_nil
  kept index block hblock := absurd hblock List.not_mem_nil

/-- One block is moved. -/
def Moves (s s' : State) (block : ℕ) (place : Place) : Prop :=
  ∀ x p, At s' x p ↔ if x = block then p = place else At s x p

/-- **When one block is moved, blocks stay placed.** -/
lemma Placed.move (h : Placed s) (hmove : Moves s s' block place)
    (hblocks : ∀ x, x ∈ s'.blocks ↔ x = block ∨ x ∈ s.blocks) : Placed s' where
  unique x p p' hp hp' := by
    rw [hmove] at hp hp'
    by_cases hx : x = block
    · rw [if_pos hx] at hp hp'
      exact hp.trans hp'.symm
    · rw [if_neg hx] at hp hp'
      exact h.unique x p p' hp hp'
  known x := by
    rw [hblocks]
    simp only [hmove x]
    by_cases hx : x = block
    · simp only [if_pos hx]
      exact iff_of_true (Or.inl hx) ⟨place, rfl⟩
    · simp only [if_neg hx]
      rw [or_iff_right hx, h.known]

lemma Moves.at_of_ne {x : ℕ} {p : Place} (hmove : Moves s s' block place) (hp : p ≠ place) (hat : At s' x p) :
    x ≠ block ∧ At s x p := by
  rw [hmove] at hat
  by_cases hx : x = block
  · rw [if_pos hx] at hat
    exact absurd hat hp
  · rw [if_neg hx] at hat
    exact ⟨hx, hat⟩

lemma Placed.not_at (h : Placed s) (hplace : At s block place) (place' : Place) (hne : place' ≠ place) :
    ¬ At s block place' :=
  fun hplace' => hne (h.unique block place' place hplace' hplace)

lemma Placed.blocks_iff (h : Placed s) (hplace : At s block place) (x : ℕ) : x ∈ s.blocks ↔ x = block ∨ x ∈ s.blocks := by
  constructor
  · exact Or.inr
  · rintro (rfl | hx)
    · exact (h.known x).mpr ⟨place, hplace⟩
    · exact hx

/-! ## Moving a block -/

section Move

variable {o : Object} {rest : List ℕ} {mem : Memory} {index size x : ℕ}

lemma mem_live_filter : x ∈ (s.live.filter fun o => o.block ≠ block).map (·.block) ↔ x ≠ block ∧ x ∈ s.live.map (·.block) := by
  simp only [List.mem_map, List.mem_filter, decide_eq_true_eq]
  constructor
  · rintro ⟨o, ⟨ho, hne⟩, rfl⟩
    exact ⟨hne, o, ho, rfl⟩
  · rintro ⟨hne, o, ho, rfl⟩
    exact ⟨o, ⟨ho, hne⟩, rfl⟩

lemma mem_update_pools {pools : ℕ → List ℕ} {blocks : List ℕ} {i : ℕ} :
    x ∈ Function.update pools index blocks i ↔ if i = index then x ∈ blocks else x ∈ pools i := by
  by_cases hi : i = index
  · rw [hi, Function.update_self, if_pos rfl]
  · rw [Function.update_of_ne hi, if_neg hi]

/-- From the blocks that are kept for a class to the live instances -/
lemma moves_reused (h : ReuseInv thread s) (hpool : s.pools o.index = o.block :: rest) :
    Moves s (s.reused o rest mem) o.block .live := by
  have hat : At s o.block (.pool o.index) := by
    show o.block ∈ s.pools o.index
    rw [hpool]
    exact List.mem_cons_self
  have hrest : o.block ∉ rest := by
    have hnodup := h.pools o.index
    rw [hpool] at hnodup
    exact (List.nodup_cons.mp hnodup).1
  intro x p
  by_cases hx : x = o.block
  · subst hx
    rw [if_pos rfl]
    cases p with
    | live => exact iff_of_true List.mem_cons_self rfl
    | pool i =>
      refine iff_of_false (fun hmem => ?_) Place.noConfusion
      have hmem := mem_update_pools.mp hmem
      split at hmem
      · exact hrest hmem
      · rename_i hi
        exact h.placed.not_at hat (.pool i) (fun heq => hi (Place.pool.inj heq)) hmem
    | freed => exact iff_of_false (h.placed.not_at hat .freed Place.noConfusion) Place.noConfusion
  · rw [if_neg hx]
    cases p with
    | live => exact List.mem_cons.trans (or_iff_right hx)
    | pool i =>
      refine mem_update_pools.trans ?_
      split
      · rename_i hi
        show x ∈ rest ↔ x ∈ s.pools i
        rw [hi, hpool, List.mem_cons, or_iff_right hx]
      · exact Iff.rfl
    | freed => exact Iff.rfl

/-- From nowhere or from the freed blocks to the live instances -/
lemma moves_given (h : ReuseInv thread s) (hfree : ¬ (o.block ∈ s.blocks ∧ o.block ∉ s.freed)) :
    Moves s (s.given o size mem) o.block .live := by
  have hfreed (p : Place) (hp : At s o.block p) : p = .freed := by
    have hmem : o.block ∈ s.freed := by
      by_contra hmem
      exact hfree ⟨(h.placed.known o.block).mpr ⟨p, hp⟩, hmem⟩
    exact h.placed.unique o.block p .freed hp hmem
  intro x p
  by_cases hx : x = o.block
  · subst hx
    rw [if_pos rfl]
    cases p with
    | live => exact iff_of_true List.mem_cons_self rfl
    | pool i => exact iff_of_false (fun hmem => Place.noConfusion (hfreed (.pool i) hmem)) Place.noConfusion
    | freed =>
      refine iff_of_false (fun hmem => ?_) Place.noConfusion
      exact of_decide_eq_true (List.mem_filter.mp hmem).2 rfl
  · rw [if_neg hx]
    cases p with
    | live => exact List.mem_cons.trans (or_iff_right hx)
    | pool i => exact Iff.rfl
    | freed => exact List.mem_filter.trans (and_iff_left (decide_eq_true hx))

/-- From the live instances to the blocks that are kept for a class -/
lemma moves_kept (h : ReuseInv thread s) (hlive : At s block .live) :
    Moves s (s.kept index block mem) block (.pool index) := by
  intro x p
  by_cases hx : x = block
  · subst hx
    rw [if_pos rfl]
    cases p with
    | live => exact iff_of_false (fun hmem => (mem_live_filter.mp hmem).1 rfl) Place.noConfusion
    | pool i =>
      refine mem_update_pools.trans ?_
      by_cases hi : i = index
      · rw [if_pos hi, hi]
        exact iff_of_true List.mem_cons_self rfl
      · rw [if_neg hi]
        exact iff_of_false (h.placed.not_at hlive (.pool i) Place.noConfusion) fun heq => hi (Place.pool.inj heq)
    | freed => exact iff_of_false (h.placed.not_at hlive .freed Place.noConfusion) Place.noConfusion
  · rw [if_neg hx]
    cases p with
    | live => exact mem_live_filter.trans (and_iff_right hx)
    | pool i =>
      refine mem_update_pools.trans ?_
      split
      · rename_i hi
        rw [hi, List.mem_cons, or_iff_right hx]
        rfl
      · exact Iff.rfl
    | freed => exact Iff.rfl

lemma moves_givenBack (h : ReuseInv thread s) (hlive : At s block .live) :
    Moves s (s.givenBack block) block .freed := by
  intro x p
  by_cases hx : x = block
  · subst hx
    rw [if_pos rfl]
    cases p with
    | live => exact iff_of_false (fun hmem => (mem_live_filter.mp hmem).1 rfl) Place.noConfusion
    | pool i => exact iff_of_false (h.placed.not_at hlive (.pool i) Place.noConfusion) Place.noConfusion
    | freed => exact iff_of_true List.mem_cons_self rfl
  · rw [if_neg hx]
    cases p with
    | live => exact mem_live_filter.trans (and_iff_right hx)
    | pool i => exact Iff.rfl
    | freed => exact List.mem_cons.trans (or_iff_right hx)

end Move

/-! ## Bytes -/

section Bytes

variable {mem : Memory} {index a n x : ℕ} {next : Option ℕ}

lemma memset_of_mem (hle : a ≤ x) (hlt : x < a + n) : memset mem a n x = 0 := if_pos ⟨hle, hlt⟩

lemma memset_of_not_mem (h : x < a ∨ a + n ≤ x) : memset mem a n x = mem x := if_neg (by omega)

lemma keptBytes_eq_zero (hle : t.pointerSize ≤ x) (hlt : x < infra.base.allocationsize) :
    keptBytes thread infra next mem x = 0 := by
  unfold keptBytes
  rw [Memory.store_of_not_mem (Or.inr _), memset_of_mem (Nat.zero_le x) (by omega)]
  rw [thread.length_link]
  omega

/-- An instance in zeroed memory has other bytes only in the isa and the thread of its header. -/
lemma objectheaderInit_of_not_mem
    (hisa : x < infra.base.headerextrasize + (t.sizeofObjectheader - t.pointerSize) ∨
      infra.base.headerextrasize + t.sizeofObjectheader ≤ x)
    (hthread : t.taoObjectHeader = true →
      x < infra.base.headerextrasize + t.pointerSize ∨ infra.base.headerextrasize + 2 * t.pointerSize ≤ x) :
    objectheaderInit thread infra index true mem x = mem x := by
  have hheader := two_mul_pointerSize_le t
  have hset : (mem.store (0 + infra.base.headerextrasize + (t.sizeofObjectheader - t.pointerSize)) (thread.isa index)) x =
      mem x := by
    apply Memory.store_of_not_mem
    rw [thread.length_isa]
    omega
  unfold objectheaderInit allocGetObjectheader
  by_cases htao : t.taoObjectHeader && infra.threadaffine
  · have hthread := hthread (Bool.and_eq_true_iff.mp htao).1
    simp only [if_pos htao, if_true]
    rw [Memory.store_of_not_mem, hset]
    rw [thread.length_id]
    omega
  · simp only [if_neg htao, if_true]
    exact hset

lemma zeroes_spec {r : Region} (hr : r ∈ zeroes infra) (hx : r.Has x) (index : ℕ) (mem : Memory) :
    x < infra.base.allocationsize ∧ objectheaderInit thread infra index true mem x = mem x := by
  have hpos := t.pointerSize_pos
  have hextra := base_headerextrasize_le infra
  have hheader : t.sizeofObjectheader = t.pointerSize * if t.taoObjectHeader then 4 else 2 := rfl
  rw [base_allocationsize]
  obtain ⟨hle, hlt⟩ := hx
  unfold zeroes allocGetObjectheader objectheaderGetObject at hr
  simp only [List.mem_cons, List.not_mem_nil, or_false] at hr
  cases htao : t.taoObjectHeader
  · rw [htao, if_neg Bool.false_ne_true] at hheader
    rcases hr with rfl | rfl | rfl <;> simp only at hle hlt <;>
      exact ⟨by omega, objectheaderInit_of_not_mem (by omega) fun h => absurd (htao.symm.trans h) Bool.false_ne_true⟩
  · rw [htao, if_pos rfl] at hheader
    rcases hr with rfl | rfl | rfl <;> simp only at hle hlt <;>
      exact ⟨by omega, objectheaderInit_of_not_mem (by omega) fun _ => by omega⟩

end Bytes

/-! ## What each step keeps -/

section Keep

variable {o : Object} {rest : List ℕ} {mem : Memory} {index size allocator : ℕ}

lemma setBytes_bytes_of_ne {x : ℕ} (hx : x ≠ block) : (s.setBytes block mem).bytes x = s.bytes x :=
  Function.update_of_ne hx _ _

lemma inv_reused (h : ReuseInv thread s) (hpool : s.pools o.index = o.block :: rest) :
    ReuseInv thread (s.reused o rest mem) := by
  have hmove : Moves s (s.reused o rest mem) o.block .live := moves_reused h hpool
  have hmem : o.block ∈ s.pools o.index := by
    rw [hpool]
    exact List.mem_cons_self
  have hat : At s o.block (.pool o.index) := hmem
  refine ⟨h.placed.move hmove (h.placed.blocks_iff hat), ?_, fun i => ?_, ?_, fun i b hb infra hinfra => ?_⟩
  · exact List.nodup_cons.mpr ⟨h.placed.not_at hat .live Place.noConfusion, h.live⟩
  · show (Function.update s.pools o.index rest i).Nodup
    by_cases hi : i = o.index
    · have hnodup := h.pools o.index
      rw [hpool] at hnodup
      rw [hi, Function.update_self]
      exact (List.nodup_cons.mp hnodup).2
    · rw [Function.update_of_ne hi]
      exact h.pools i
  · exact List.forall_mem_cons.mpr ⟨fun infra hinfra => (h.kept o.index o.block hmem infra hinfra).1, h.room⟩
  · have hb : At (s.reused o rest mem) b (.pool i) := hb
    obtain ⟨hne, hb⟩ := hmove.at_of_ne Place.noConfusion hb
    show _ ∧ ∀ x, _ → _ → (s.setBytes o.block mem).bytes b x = 0
    rw [setBytes_bytes_of_ne hne]
    exact h.kept i b hb infra hinfra

lemma inv_given (h : ReuseInv thread s) (hfree : ¬ (o.block ∈ s.blocks ∧ o.block ∉ s.freed))
    (hsize : ∀ infra, thread.classes o.index = some infra → infra.base.allocationsize ≤ size) :
    ReuseInv thread (s.given o size mem) := by
  have hmove : Moves s (s.given o size mem) o.block .live := moves_given h hfree
  have hlive : o.block ∉ s.live.map (·.block) := by
    intro hmem
    have hat : At s o.block .live := hmem
    refine hfree ⟨(h.placed.known o.block).mpr ⟨_, hat⟩, h.placed.not_at hat .freed Place.noConfusion⟩
  refine ⟨h.placed.move hmove (fun x => List.mem_cons), List.nodup_cons.mpr ⟨hlive, h.live⟩, h.pools, ?_,
    fun i b hb infra hinfra => ?_⟩
  · refine List.forall_mem_cons.mpr ⟨fun infra hinfra => ?_, fun o' ho' infra hinfra => ?_⟩
    · show infra.base.allocationsize ≤ Function.update s.size o.block size o.block
      rw [Function.update_self]
      exact hsize infra hinfra
    · have hne : o'.block ≠ o.block := by
        intro heq
        exact hlive (heq ▸ List.mem_map_of_mem ho')
      show infra.base.allocationsize ≤ Function.update s.size o.block size o'.block
      rw [Function.update_of_ne hne]
      exact h.room o' ho' infra hinfra
  · have hb : At (s.given o size mem) b (.pool i) := hb
    obtain ⟨hne, hb⟩ := hmove.at_of_ne Place.noConfusion hb
    show _ ≤ Function.update s.size o.block size b ∧ ∀ x, _ → _ → (s.setBytes o.block mem).bytes b x = 0
    rw [setBytes_bytes_of_ne hne, Function.update_of_ne hne]
    exact h.kept i b hb infra hinfra

lemma nodup_live_filter (h : ReuseInv thread s) : ((s.live.filter fun o => o.block ≠ block).map (·.block)).Nodup :=
  (List.filter_sublist.map _).nodup h.live

lemma inv_kept (h : ReuseInv thread s) (ho : o ∈ s.live) (hinfra : thread.classes o.index = some infra)
    {next : Option ℕ} :
    ReuseInv thread (s.kept o.index o.block (keptBytes thread infra next mem)) := by
  have hlive : At s o.block .live := List.mem_map_of_mem ho
  have hmove : Moves s (s.kept o.index o.block (keptBytes thread infra next mem)) o.block (.pool o.index) :=
    moves_kept h hlive
  refine ⟨h.placed.move hmove (h.placed.blocks_iff hlive), nodup_live_filter h, fun i => ?_,
    fun o' ho' => h.room o' (List.mem_of_mem_filter ho'), fun i b hb infra' hinfra' => ?_⟩
  · show (Function.update s.pools o.index (o.block :: s.pools o.index) i).Nodup
    by_cases hi : i = o.index
    · rw [hi, Function.update_self]
      exact List.nodup_cons.mpr ⟨h.placed.not_at hlive (.pool o.index) Place.noConfusion, h.pools o.index⟩
    · rw [Function.update_of_ne hi]
      exact h.pools i
  · have hb : At (s.kept o.index o.block (keptBytes thread infra next mem)) b (.pool i) := hb
    rw [hmove] at hb
    show _ ∧ ∀ x, _ → _ → (s.setBytes o.block (keptBytes thread infra next mem)).bytes b x = 0
    by_cases hne : b = o.block
    · rw [if_pos hne] at hb
      cases hb
      cases hinfra.symm.trans hinfra'
      subst hne
      refine ⟨h.room o ho infra hinfra, fun x hle hlt => ?_⟩
      show Function.update s.bytes o.block (keptBytes thread infra next mem) o.block x = 0
      rw [Function.update_self]
      exact keptBytes_eq_zero hle hlt
    · rw [if_neg hne] at hb
      rw [setBytes_bytes_of_ne hne]
      exact h.kept i b hb infra' hinfra'

lemma inv_givenBack (h : ReuseInv thread s) (hlive : At s block .live) : ReuseInv thread (s.givenBack block) := by
  have hmove : Moves s (s.givenBack block) block .freed := moves_givenBack h hlive
  exact ⟨h.placed.move hmove (h.placed.blocks_iff hlive), nodup_live_filter h, h.pools,
    fun o ho => h.room o (List.mem_of_mem_filter ho), h.kept⟩

lemma inv_write (h : ReuseInv thread s) (hlive : At s block .live) : ReuseInv thread (s.setBytes block mem) := by
  have hsame (x : Nat) (p : Place) : At (s.setBytes block mem) x p ↔ At s x p := by cases p <;> exact Iff.rfl
  refine ⟨⟨fun x p p' hp hp' => ?_, fun x => ?_⟩, h.live, h.pools, h.room, fun i b hb infra hinfra => ?_⟩
  · exact h.placed.unique x p p' ((hsame x p).mp hp) ((hsame x p').mp hp')
  · simp only [hsame]
    exact h.placed.known x
  · have hne : b ≠ block := by
      rintro rfl
      exact h.placed.not_at hlive (.pool i) Place.noConfusion hb
    rw [setBytes_bytes_of_ne hne]
    exact h.kept i b hb infra hinfra

end Keep

/-! ## Runs of instances -/

/-- **The step lemma.** -/
theorem ReuseInv.step (h : ReuseInv thread s) {a : Action} (hstep : Instances.step thread s a = some s') :
    ReuseInv thread s' := by
  cases a with
  | alloc index extra allocator zeroed block mem =>
    obtain ⟨infra, hinfra, halloc⟩ := Option.bind_eq_some_iff.mp hstep
    rcases allocInstance_cases halloc with ⟨b, rest, -, hpool, rfl⟩ | ⟨hfree, rfl⟩
    · exact inv_reused h hpool
    · apply inv_given h hfree
      intro infra' hinfra'
      cases hinfra.symm.trans hinfra'
      exact Nat.le_add_right _ _
  | free block allocator =>
    obtain ⟨o, ho, hfree⟩ := Option.bind_eq_some_iff.mp hstep
    obtain ⟨infra, hinfra, rfl⟩ := Option.map_eq_some_iff.mp hfree
    have hlive : o ∈ s.live := List.mem_of_find?_eq_some ho
    obtain rfl : o.block = block := by
      have hblock := List.find?_some ho
      exact of_decide_eq_true hblock
    rcases freeInstance_cases thread infra s o.index o.block allocator with heq | heq
    · rw [heq]
      exact inv_kept h hlive hinfra
    · rw [heq]
      exact inv_givenBack h (List.mem_map_of_mem hlive)
  | write block offset bytes =>
    rw [Instances.step, Option.ite_none_right_eq_some] at hstep
    obtain ⟨⟨hlive, -⟩, hstep⟩ := hstep
    cases hstep
    exact inv_write h hlive

/-- **What an allocation gives**, used before or not. -/
theorem ReuseInv.starts (h : ReuseInv thread s) (a : Action) : Starts thread s a := by
  cases a with
  | free block allocator => trivial
  | write block offset bytes => trivial
  | alloc index extra allocator zeroed block mem =>
    intro infra hinfra s' hstep
    rw [Instances.step, hinfra, Option.bind_some] at hstep
    rcases allocInstance_cases hstep with ⟨b, rest, rfl, hpool, rfl⟩ | ⟨-, rfl⟩
    · have hb : b ∈ s.pools index := by
        rw [hpool]
        exact List.mem_cons_self
      obtain ⟨hroom, hzero⟩ := h.kept index b hb infra hinfra
      refine ⟨⟨b, index, 0⟩, rfl, rfl, hroom, ?_⟩
      rintro rfl r hr x hx
      obtain ⟨hlt, hinit⟩ := zeroes_spec hr hx index (memset (s.bytes b) 0 t.pointerSize)
      show Function.update s.bytes b (reusedBytes thread infra index true (s.bytes b)) b x = 0
      rw [Function.update_self, reusedBytes, hinit]
      -- the link was there, behind it there have been zeroes
      by_cases hlink : x < t.pointerSize
      · exact memset_of_mem (Nat.zero_le x) (by omega)
      · rw [memset_of_not_mem (by omega)]
        exact hzero x (by omega) hlt
    · refine ⟨⟨block, index, extra⟩, rfl, rfl, ?_, ?_⟩
      · show _ ≤ Function.update s.size block _ block
        rw [Function.update_self]
      · rintro rfl r hr x hx
        obtain ⟨hlt, hinit⟩ := zeroes_spec hr hx index (memset mem 0 (infra.base.allocationsize + extra))
        show Function.update s.bytes block
          (givenBytes thread infra index (infra.base.allocationsize + extra) true mem) block x = 0
        rw [Function.update_self, givenBytes, if_pos rfl, hinit]
        exact memset_of_mem (Nat.zero_le x) (by omega)

end Invariant

/-- **In every run each block is in one place, and each allocation gives a block of its own that is large enough and, if it
is a zeroing one, zero.** -/
theorem reuse_sound {t : Target} (thread : Thread t) (actions : List Action) :
    Throughout (step thread) Owned State.new actions ∧ EachStep (step thread) (Starts thread) State.new actions := by
  have hinv : ∀ s, ReuseInv thread s → Throughout (step thread) Owned s actions ∧
      EachStep (step thread) (Starts thread) s actions := by
    induction actions with
    | nil => exact fun s h => ⟨h.owned, trivial⟩
    | cons a actions ih =>
      intro s h
      exact ⟨⟨h.owned, fun s' hstep => (ih s' (h.step hstep)).1⟩, h.starts a, fun s' hstep => (ih s' (h.step hstep)).2⟩
  exact hinv State.new (inv_new thread)

/-- A thread with one class, of eight bytes of instance variables -/
def sampleThread : Thread lp64 where
  objectallocator := 7
  classes index := if index = 1 then some ⟨8, 0, false, by decide⟩ else none
  isa _ := List.replicate 8 1
  link _ := List.replicate 8 2
  id := List.replicate 8 3
  length_isa _ := rfl
  length_link _ := rfl
  length_id := rfl

/-- The second instance gets the block of the first one, the allocator is not asked. -/
example :
    (run (step sampleThread) State.new
        [.alloc 1 4 7 true 100 fun _ => 5, .write 100 16 [9, 9], .free 100 7, .alloc 1 0 7 true 200 fun _ => 5]).map
      (fun s => (s.live, s.pools 1, s.blocks, (s.bytes 100).load 0 24)) =
        some ([⟨100, 1, 0⟩], [], [100], List.replicate 8 0 ++ List.replicate 8 1 ++ List.replicate 8 0) := by
  decide +kernel

end MulleObjcRuntime.Instances
