import Mathlib.Order.Interval.Finset.Nat
import MulleObjcRuntime.Impcache.Map

/-!
# What a mask of 32 bits reaches

The size of a cache is a word of 32 bits, and so is its mask, which is larger by the size of an entry.  From
`2 ^ 32` bytes of entries on the mask is cut off, and the probes come to the first entries only.

* `Cache.reached` — the cache without the entries that no probe comes to;
* `Probe.read_reached`, `Adder.add_reached` — the probes and the adders are those of that cache;
* `map_law_iff` — when a cache is a map.
-/

namespace MulleObjcRuntime.Impcache

open Lib.OpenAddressing Lib.PowerOfTwo

variable {shift fuel bits uniqueid pointer index offset : ℕ} {cache cache' : Cache} {free : CacheEntry → Bool}

/-- The number of entries the probes come to. -/
def Cache.reach (shift : ℕ) (cache : Cache) : ℕ := cache.mask / sizeofCacheentry shift + 1

/-- The cache without the entries that no probe comes to. -/
def Cache.reached (shift : ℕ) (cache : Cache) : Cache :=
  { cache with entries := cache.entries.take (cache.reach shift) }

/-! ## Probes and adders -/

lemma entryAt_reached (shift : ℕ) (cache : Cache) (offset : ℕ) :
    (cache.reached shift).entryAt shift (offset &&& cache.mask) = cache.entryAt shift (offset &&& cache.mask) := by
  have hlt : (offset &&& cache.mask) / sizeofCacheentry shift < cache.reach shift :=
    Nat.lt_succ_of_le (Nat.div_le_div_right Nat.and_le_right)
  unfold Cache.entryAt Cache.reached
  rw [List.getD_eq_getElem?_getD, List.getD_eq_getElem?_getD, List.getElem?_take_of_lt hlt]

lemma probeUntil_reached {α β : Type} {hit : ℕ → ℕ → CacheEntry → α} {miss : ℕ → α} {g g' : α → β}
    (hhit : ∀ index offset entry, g (hit index (offset &&& cache.mask) entry) = g' (hit index (offset &&& cache.mask) entry))
    (hmiss : ∀ offset, g (miss (offset &&& cache.mask)) = g' (miss (offset &&& cache.mask))) :
    (probeUntil shift (cache.reached shift) uniqueid free hit miss fuel index offset).map g =
      (probeUntil shift cache uniqueid free hit miss fuel index offset).map g' := by
  induction fuel generalizing index offset with
  | zero => rfl
  | succ fuel ih =>
    unfold probeUntil
    simp only [show (cache.reached shift).mask = cache.mask from rfl, entryAt_reached]
    split
    · rw [Option.map_some, Option.map_some, hhit]
    split
    · rw [Option.map_some, Option.map_some, hmiss]
    · exact ih

lemma probeEntryoffset_map {β : Type} {g g' : ℕ → β}
    (h : ∀ offset, g (offset &&& cache.mask) = g' (offset &&& cache.mask)) :
    (probeEntryoffset shift (cache.reached shift) uniqueid fuel offset).map g =
      (probeEntryoffset shift cache uniqueid fuel offset).map g' := by
  rw [probeEntryoffset_eq_until shift _ uniqueid fuel 0, probeEntryoffset_eq_until shift _ uniqueid fuel 0]
  exact probeUntil_reached (fun _ => fun offset _ => h offset) h

/-- **The probes come to the entries that are reached only.** -/
theorem Probe.read_reached (shift fuel : ℕ) (cache : Cache) (uniqueid : ℕ) (probe : Probe) :
    probe.read shift fuel (cache.reached shift) uniqueid = probe.read shift fuel cache uniqueid := by
  have hmask : (cache.reached shift).mask = cache.mask := rfl
  cases probe
  case pointer => exact probeUntil_reached (fun _ _ _ => rfl) fun _ => rfl
  case functionpointer => exact probeUntil_reached (fun _ _ _ => rfl) fun _ => rfl
  case impcachepivot => exact probeUntil_reached (fun _ _ _ => rfl) fun _ => rfl
  case entryoffset => exact probeEntryoffset_map fun offset => by rw [entryAt_reached]
  case entryindex =>
    simp only [Probe.read, hmask, entryAt_reached]
    exact probeUntil_reached (fun _ _ _ => rfl) fun _ => rfl
  case classCacheentry =>
    refine probeUntil_reached (fun _ offset _ => ?_) fun _ => rfl
    rw [Option.map_some, Option.map_some, entryAt_reached]

lemma withEntry_reached (shift : ℕ) (cache : Cache) (pointer uniqueid offset : ℕ) :
    (cache.withEntry shift pointer uniqueid offset).reached shift =
      (cache.reached shift).withEntry shift pointer uniqueid offset := by
  unfold Cache.reached Cache.withEntry Cache.reach
  simp only [List.take_set]

/-- What an adder makes of the cache at the offset its probe has ended at. -/
def Adder.place (shift : ℕ) (cache : Cache) (pointer uniqueid offset : ℕ) (adder : Adder) : Option Cache :=
  let entry := cache.entryAt shift offset
  match adder with
  | .pointerInactive => some (if entry.value ≠ 0 then cache else cache.withEntry shift pointer uniqueid offset)
  | .functionpointerInactive => some (if entry.uniqueid ≠ 0 then cache else cache.withEntry shift pointer uniqueid offset)
  | .pointerEntry | .functionpointerEntry =>
    if entry.value ≠ 0 then (if entry.uniqueid = uniqueid then some cache else none)
    else some (cache.withEntry shift pointer uniqueid offset)

lemma Adder.add_eq_place (shift fuel : ℕ) (cache : Cache) (pointer uniqueid : ℕ) (adder : Adder) :
    adder.add shift fuel cache pointer uniqueid =
      ((probeEntryoffset shift cache uniqueid fuel uniqueid).map fun offset =>
        adder.place shift cache pointer uniqueid offset).join := by
  unfold Adder.add addPointerInactive addFunctionpointerInactive addPointerEntry addFunctionpointerEntry Adder.place
  rcases probeEntryoffset shift cache uniqueid fuel uniqueid with _ | offset
  · cases adder <;> rfl
  · cases adder <;> simp only [Option.map_some, Option.join_some] <;> split_ifs <;> rfl

/-- **The adders add among the entries that are reached only.** -/
theorem Adder.add_reached (shift fuel : ℕ) (cache : Cache) (pointer uniqueid : ℕ) (adder : Adder) :
    adder.add shift fuel (cache.reached shift) pointer uniqueid =
      (adder.add shift fuel cache pointer uniqueid).map (Cache.reached shift) := by
  have hplace : ∀ offset, adder.place shift (cache.reached shift) pointer uniqueid (offset &&& cache.mask) =
      (adder.place shift cache pointer uniqueid (offset &&& cache.mask)).map (Cache.reached shift) := by
    intro offset
    unfold Adder.place
    rw [entryAt_reached]
    cases adder <;> simp only [← withEntry_reached] <;> split_ifs <;> rfl
  have hmap : (probeEntryoffset shift (cache.reached shift) uniqueid fuel uniqueid).map (fun offset =>
      adder.place shift (cache.reached shift) pointer uniqueid offset) =
    (probeEntryoffset shift cache uniqueid fuel uniqueid).map fun offset =>
      (adder.place shift cache pointer uniqueid offset).map (Cache.reached shift) := probeEntryoffset_map hplace
  rw [add_eq_place, add_eq_place, hmap]
  rcases probeEntryoffset shift cache uniqueid fuel uniqueid with _ | offset <;> rfl

lemma masked_of_probeEntryoffset {from' : ℕ} (h : probeEntryoffset shift cache uniqueid fuel from' = some offset) :
    ∃ x, offset = x &&& cache.mask := by
  induction fuel generalizing from' with
  | zero => cases h
  | succ fuel ih =>
    unfold probeEntryoffset at h
    simp only at h
    split at h
    · exact ⟨_, (Option.some.inj h).symm⟩
    split at h
    · exact ⟨_, (Option.some.inj h).symm⟩
    · exact ih h

lemma Adder.add_beyond {adder : Adder} (hadd : adder.add shift fuel cache pointer uniqueid = some cache') :
    cache'.size = cache.size ∧ cache'.mask = cache.mask ∧
      cache'.entries.drop (cache.reach shift) = cache.entries.drop (cache.reach shift) := by
  rw [add_eq_place, Option.join_eq_some_iff, Option.map_eq_some_iff] at hadd
  obtain ⟨offset, hprobe, hplace⟩ := hadd
  obtain ⟨x, rfl⟩ := masked_of_probeEntryoffset hprobe
  have hlt : (x &&& cache.mask) / sizeofCacheentry shift < cache.reach shift :=
    Nat.lt_succ_of_le (Nat.div_le_div_right Nat.and_le_right)
  have hcases : cache' = cache ∨ cache' = cache.withEntry shift pointer uniqueid (x &&& cache.mask) := by
    unfold Adder.place at hplace
    cases adder <;> simp only at hplace <;> split_ifs at hplace <;> simp_all
  rcases hcases with rfl | rfl
  · exact ⟨rfl, rfl, rfl⟩
  · exact ⟨rfl, rfl, List.drop_set_of_lt hlt⟩

lemma addAll_reached (shift fuel : ℕ) (cache : Cache) (additions : List Addition) :
    addAll shift fuel (cache.reached shift) additions = (addAll shift fuel cache additions).map (Cache.reached shift) := by
  induction additions generalizing cache with
  | nil => rfl
  | cons a additions ih =>
    unfold addAll at ih ⊢
    rw [List.foldlM_cons, List.foldlM_cons, a.adder.add_reached]
    cases a.adder.add shift fuel cache a.pointer a.uniqueid with
    | none => rfl
    | some after => exact ih after

lemma addAll_beyond {additions : List Addition} (hadd : addAll shift fuel cache additions = some cache') :
    cache'.size = cache.size ∧ cache'.mask = cache.mask ∧
      cache'.entries.drop (cache.reach shift) = cache.entries.drop (cache.reach shift) := by
  induction additions generalizing cache with
  | nil =>
    cases hadd
    exact ⟨rfl, rfl, rfl⟩
  | cons a additions ih =>
    unfold addAll at ih hadd
    rw [List.foldlM_cons, Option.bind_eq_bind, Option.bind_eq_some_iff] at hadd
    obtain ⟨after, hafter, hrest⟩ := hadd
    obtain ⟨hsize, hmask, hdrop⟩ := a.adder.add_beyond hafter
    obtain ⟨hsize', hmask', hdrop'⟩ := ih hrest
    have hreach : after.reach shift = cache.reach shift := by rw [Cache.reach, Cache.reach, hmask]
    rw [hreach] at hdrop'
    exact ⟨hsize'.trans hsize, hmask'.trans hmask, hdrop'.trans hdrop⟩

/-! ## New caches -/

/-- The number of entries that are reached in a new cache, as its binary logarithm. -/
def reachBits (shift bits : ℕ) : ℕ := min bits (32 - shift)

lemma reach_cacheInit (shift bits : ℕ) : (cacheInit shift (2 ^ bits)).reach shift = 2 ^ reachBits shift bits := by
  unfold Cache.reach cacheInit sizeofCacheentry reachBits
  rw [mask_mod, Nat.mul_div_cancel _ (Nat.two_pow_pos shift), Nat.sub_add_cancel Nat.one_le_two_pow]

lemma reached_cacheInit (shift bits : ℕ) : (cacheInit shift (2 ^ bits)).reached shift =
    ⟨0, 2 ^ bits, (2 ^ reachBits shift bits - 1) * 2 ^ shift, List.replicate (2 ^ reachBits shift bits) ⟨0, 0⟩⟩ := by
  have hle : 2 ^ reachBits shift bits ≤ 2 ^ bits := Nat.pow_le_pow_right two_pos (min_le_left _ _)
  unfold Cache.reached
  rw [reach_cacheInit]
  unfold cacheInit sizeofCacheentry
  rw [mask_mod, List.take_replicate, min_eq_left hle]
  rfl

lemma holds_reached (shift bits : ℕ) :
    Holds shift (reachBits shift bits) [] ((cacheInit shift (2 ^ bits)).reached shift) := by
  rw [reached_cacheInit]
  have hvalid := valid_replicate shift (reachBits shift bits) 0 (2 ^ bits) rfl
  exact ⟨hvalid, by simp, fun k hk => hvalid.cached_of_empty rfl hk, rfl⟩

lemma cacheInit_eq_uncut (hle : bits + shift ≤ 32) : cacheInit shift (2 ^ bits) = Cache.uncut shift (2 ^ bits) := by
  unfold cacheInit Cache.uncut sizeofCacheentry
  rw [mask_mod, min_eq_left (by omega)]

/-! ## The map law -/

section MapLaw

variable {additions : List Addition}

/-- The ids that have been added. -/
def addedIds (additions : List Addition) : Finset ℕ := (additions.map Addition.uniqueid).toFinset

/-- Every probe finds under every id the value that was added first, and the count is the number of ids. -/
def MapLaw (shift : ℕ) (cache : Cache) (additions : List Addition) : Prop :=
  (∀ uniqueid ≠ 0, uniqueid < 2 ^ 32 → ∀ fuel ≥ cache.entries.length, ∀ probe : Probe,
    probe.read shift fuel cache uniqueid = some (firstAdded additions uniqueid)) ∧
  cache.n = (addedIds additions).card

lemma Holds.hasEmptySlot_iff (h : Holds shift bits additions cache) :
    cache.HasEmptySlot ↔ (addedIds additions).card < 2 ^ bits := by
  have hle : cache.n ≤ cache.entries.length := by
    rw [h.valid.count]
    exact List.countP_le_length
  rw [addedIds, ← h.n_eq, ← h.length_eq, show cache.n < cache.entries.length ↔ ¬ cache.n = cache.entries.length by omega,
    h.valid.count, List.countP_eq_length]
  unfold Cache.HasEmptySlot
  simp

lemma exists_absent (hcard : (addedIds additions).card ≤ 2 ^ 31) :
    ∃ uniqueid ≠ 0, uniqueid < 2 ^ 32 ∧ firstAdded additions uniqueid = none := by
  obtain ⟨uniqueid, hmem, hnot⟩ := Finset.exists_mem_notMem_of_card_lt_card
    (s := addedIds additions) (t := Finset.Ioo 0 (2 ^ 32)) (by rw [Nat.card_Ioo]; omega)
  obtain ⟨hpos, hlt⟩ := Finset.mem_Ioo.1 hmem
  exact ⟨uniqueid, hpos.ne', hlt, firstAdded_eq_none.2 hnot⟩

/-- **A cache is a map exactly when its mask is not cut off, or when not all that it reaches is taken.** -/
theorem map_law_iff (hbits : bits < 32)
    (hsane : ∀ a ∈ additions, a.uniqueid ≠ 0 ∧ a.uniqueid < 2 ^ 32 ∧ a.pointer ≠ 0)
    (hadd : addAll shift fuel (cacheInit shift (2 ^ bits)) additions = some cache) (hempty : cache.HasEmptySlot) :
    MapLaw shift cache additions ↔ bits + shift ≤ 32 ∨ (addedIds additions).card < 2 ^ (32 - shift) := by
  have hsane' : ∀ a ∈ additions, a.uniqueid ≠ 0 ∧ a.pointer ≠ 0 := fun a ha => ⟨(hsane a ha).1, (hsane a ha).2.2⟩
  have hreached : Holds shift (reachBits shift bits) additions (cache.reached shift) :=
    (holds_reached shift bits).addAll hsane' (by rw [addAll_reached, hadd]; rfl)
  have hle : (cache.reached shift).entries.length ≤ cache.entries.length := List.length_take_le' _ _
  constructor
  · rintro ⟨hread, -⟩
    by_contra hcut
    obtain ⟨hcut, hmany⟩ := not_or.1 hcut
    -- all that is reached is taken, so that no probe for another id ends
    have hbits' : reachBits shift bits = 32 - shift := min_eq_right (by omega)
    have hfull : ¬ (cache.reached shift).HasEmptySlot := by
      rw [hreached.hasEmptySlot_iff, hbits']
      exact hmany
    have hcard : (addedIds additions).card ≤ 2 ^ 31 :=
      calc (addedIds additions).card = (cache.reached shift).n := hreached.n_eq.symm
        _ ≤ (cache.reached shift).entries.length := by
          rw [hreached.valid.count]
          exact List.countP_le_length
        _ = 2 ^ (32 - shift) := by rw [hreached.length_eq, hbits']
        _ ≤ 2 ^ 31 := Nat.pow_le_pow_right two_pos (by omega)
    obtain ⟨uniqueid, hid, hlt, habsent⟩ := exists_absent hcard
    have hprobe := hread uniqueid hid hlt _ le_rfl .pointer
    rw [← Probe.read_reached, hreached.valid.read_full hid hfull (by rw [hreached.cached_eq uniqueid hid, habsent])] at hprobe
    cases hprobe
  · intro hcond
    have hslot : (cache.reached shift).HasEmptySlot := by
      rw [hreached.hasEmptySlot_iff, reachBits]
      by_cases hfits : bits + shift ≤ 32
      · -- the whole cache is reached
        rw [min_eq_left (by omega)]
        rw [cacheInit_eq_uncut hfits] at hadd
        exact ((holds_uncut shift bits).addAll hsane' hadd).hasEmptySlot_iff.1 hempty
      · rw [min_eq_right (by omega)]
        exact hcond.resolve_left hfits
    refine ⟨?_, hreached.n_eq⟩
    intro uniqueid hid _ fuel hfuel probe
    rw [← Probe.read_reached, ← hreached.cached_eq uniqueid hid]
    exact hreached.valid.read_cached hid hslot (hle.trans hfuel) probe

/-- Two ids that collide, one of them added twice. -/
def sampleAdditions : List Addition := [⟨.pointerInactive, 7, 16⟩, ⟨.functionpointerEntry, 9, 80⟩, ⟨.pointerEntry, 11, 16⟩]

theorem map_law_iff_sample :
    MapLaw 4 ⟨2, 4, 48, [⟨0, 0⟩, ⟨16, 7⟩, ⟨80, 9⟩, ⟨0, 0⟩]⟩ sampleAdditions ↔
      2 + 4 ≤ 32 ∨ (addedIds sampleAdditions).card < 2 ^ (32 - 4) :=
  @map_law_iff 4 4 2 _ sampleAdditions (by decide) (by decide) (by decide) (by decide)

/-! ## A mask that is cut off -/

/-- Calls that add the ids `1` to `n`. -/
def countingAdditions (n : ℕ) : List Addition := (List.range n).map fun i => ⟨.functionpointerEntry, 1, i + 1⟩

lemma countingAdditions_succ (n : ℕ) :
    countingAdditions (n + 1) = countingAdditions n ++ [⟨.functionpointerEntry, 1, n + 1⟩] := by
  unfold countingAdditions
  rw [List.range_succ, List.map_append]
  rfl

lemma card_countingAdditions (n : ℕ) : (addedIds (countingAdditions n)).card = n := by
  have hmap : (countingAdditions n).map Addition.uniqueid = (List.range n).map (· + 1) := by
    unfold countingAdditions
    rw [List.map_map]
    rfl
  rw [addedIds, hmap, List.toFinset_card_of_nodup, List.length_map, List.length_range]
  exact List.nodup_range.map (add_left_injective 1)

lemma countingAdditions_sane {n : ℕ} : ∀ a ∈ countingAdditions n, a.uniqueid ≠ 0 ∧ a.pointer ≠ 0 := by
  intro a ha
  unfold countingAdditions at ha
  obtain ⟨i, -, rfl⟩ := List.mem_map.1 ha
  exact ⟨Nat.succ_ne_zero i, one_ne_zero⟩

/-- As many ids as are reached can be added. -/
lemma exists_addAll_counting (shift bits : ℕ) {n : ℕ} (hn : n ≤ 2 ^ reachBits shift bits) :
    ∃ cache, addAll shift (2 ^ bits) (cacheInit shift (2 ^ bits)) (countingAdditions n) = some cache := by
  induction n with
  | zero => exact ⟨_, rfl⟩
  | succ n ih =>
    obtain ⟨cache, hadd⟩ := ih (by omega)
    have hreached : Holds shift (reachBits shift bits) (countingAdditions n) (cache.reached shift) :=
      (holds_reached shift bits).addAll countingAdditions_sane (by rw [addAll_reached, hadd]; rfl)
    have hempty : (cache.reached shift).HasEmptySlot := by
      rw [hreached.hasEmptySlot_iff, card_countingAdditions]
      omega
    have hfuel : (cache.reached shift).entries.length ≤ 2 ^ bits := by
      rw [hreached.length_eq]
      exact Nat.pow_le_pow_right two_pos (min_le_left _ _)
    have hne : addFunctionpointerEntry shift (2 ^ bits) (cache.reached shift) 1 (n + 1) ≠ none :=
      hreached.valid.add_ne_none 1 (Nat.succ_ne_zero n) hempty hfuel
    obtain ⟨r, hr⟩ := Option.ne_none_iff_exists'.1 hne
    rcases r with _ | after
    · exact absurd hr hreached.valid.add_ne_taken
    have hafter : Adder.functionpointerEntry.add shift (2 ^ bits) (cache.reached shift) 1 (n + 1) = some after := by
      rw [Adder.add, hr]
      rfl
    rw [Adder.add_reached, Option.map_eq_some_iff] at hafter
    obtain ⟨cache', hcache', -⟩ := hafter
    refine ⟨cache', ?_⟩
    unfold addAll at hadd ⊢
    rw [countingAdditions_succ, List.foldlM_append, hadd]
    simp only [Option.bind_eq_bind, Option.bind_some, List.foldlM_cons, hcache', List.foldlM_nil]
    rfl

lemma hasEmptySlot_of_cut (hcut : reachBits shift bits < bits)
    (hadd : addAll shift fuel (cacheInit shift (2 ^ bits)) additions = some cache) : cache.HasEmptySlot := by
  obtain ⟨-, -, hdrop⟩ := addAll_beyond hadd
  rw [reach_cacheInit] at hdrop
  have hlt : 2 ^ reachBits shift bits < 2 ^ bits := Nat.pow_lt_pow_right one_lt_two hcut
  have hbeyond : (cacheInit shift (2 ^ bits)).entries.drop (2 ^ reachBits shift bits) =
      List.replicate (2 ^ bits - 2 ^ reachBits shift bits) ⟨0, 0⟩ := List.drop_replicate
  refine ⟨⟨0, 0⟩, List.mem_of_mem_drop (i := 2 ^ reachBits shift bits) ?_, rfl⟩
  rw [hdrop, hbeyond]
  exact List.mem_replicate.2 ⟨by omega, rfl⟩

lemma read_counting {n : ℕ} (hn : n = 2 ^ reachBits shift bits)
    (hadd : addAll shift fuel (cacheInit shift (2 ^ bits)) (countingAdditions n) = some cache) (probe : Probe) (rounds : ℕ) :
    probe.read shift rounds cache (n + 1) = none := by
  have hreached : Holds shift (reachBits shift bits) (countingAdditions n) (cache.reached shift) :=
    (holds_reached shift bits).addAll countingAdditions_sane (by rw [addAll_reached, hadd]; rfl)
  have hnone : (cache.reached shift).cached (n + 1) = none := by
    rw [hreached.cached_eq _ (Nat.succ_ne_zero n), firstAdded_eq_none, List.mem_toFinset]
    unfold countingAdditions
    simp
  rw [← Probe.read_reached]
  refine hreached.valid.read_full (Nat.succ_ne_zero n) ?_ hnone probe
  rw [hreached.hasEmptySlot_iff, card_countingAdditions, hn]
  exact lt_irrefl _

/-- In a cache of `2 ^ 29` entries of 16 bytes, `2 ^ 28` ids take all that is reached, and no probe for another id
ends. -/
theorem not_mapLaw_counting : ∃ cache,
    addAll 4 (2 ^ 29) (cacheInit 4 (2 ^ 29)) (countingAdditions (2 ^ 28)) = some cache ∧ cache.HasEmptySlot ∧
      (∀ (probe : Probe) (fuel : ℕ), probe.read 4 fuel cache (2 ^ 28 + 1) = none) ∧
      ¬ MapLaw 4 cache (countingAdditions (2 ^ 28)) := by
  have hbits : reachBits 4 29 = 28 := rfl
  have hn : 2 ^ 28 = 2 ^ reachBits 4 29 := by rw [hbits]
  obtain ⟨cache, hadd⟩ := exists_addAll_counting 4 29 hn.le
  have hread := read_counting hn hadd
  refine ⟨cache, hadd, hasEmptySlot_of_cut (by rw [hbits]; omega) hadd, hread, ?_⟩
  rintro ⟨hlaw, -⟩
  have hprobe := hlaw (2 ^ 28 + 1) (by omega) (by omega) _ le_rfl .pointer
  rw [hread] at hprobe
  cases hprobe

end MapLaw

end MulleObjcRuntime.Impcache
