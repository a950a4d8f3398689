import Mathlib.Data.Finset.Card
import MulleObjcRuntime.Impcache.Table

/-!
# A cache as a map

The other probes and adders of `mulle-objc-cache.c` and `mulle-objc-cache.h`, and what they have in common:

* `Probe` — the probes that others use, which end at an entry without a key or at one without a value;
* `Adder` — the ways to add an entry to a cache that is large enough;
* `Probe.read_eq_some`, `Cache.Valid.read_cached` — every probe reads what is cached;
* `Holds` — the cache holds what has been added to it in whichever way, and `Holds.addAll`: so does every cache.
-/

namespace MulleObjcRuntime.Impcache

open Lib.OpenAddressing Lib.PowerOfTwo

/-! ## The probes -/

section Probing

variable (shift : ℕ) (cache : Cache) (uniqueid : ℕ)

/-- The loop of the probes.  What is made of the entry with the id depends on the number of entries passed, on the
offset and on the entry, what is made of a `free` one that comes first on its offset. -/
def probeUntil {α : Type} (free : CacheEntry → Bool) (hit : ℕ → ℕ → CacheEntry → α) (miss : ℕ → α) :
    ℕ → ℕ → ℕ → Option α
  | 0, _, _ => none
  | fuel + 1, index, offset =>
    let offset := offset &&& cache.mask
    let entry := cache.entryAt shift offset
    if entry.uniqueid = uniqueid then some (hit index offset entry)
    else if free entry then some (miss offset)
    else probeUntil free hit miss fuel (index + 1) (offset + sizeofCacheentry shift)

/-- An entry has no value yet. -/
def CacheEntry.hasNoValue (entry : CacheEntry) : Bool := entry.value == 0

/-- An entry has no key yet. -/
def CacheEntry.hasNoKey (entry : CacheEntry) : Bool := entry.uniqueid == 0

/-- `_mulle_objc_cache_probe_pointer`. -/
def probePointer (fuel : ℕ) : Option ℕ :=
  probeUntil shift cache uniqueid CacheEntry.hasNoValue (fun _ _ entry => entry.value) (fun _ => 0) fuel 0 uniqueid

/-- `_mulle_objc_cache_probe_functionpointer`. -/
def probeFunctionpointer (fuel : ℕ) : Option ℕ :=
  probeUntil shift cache uniqueid CacheEntry.hasNoValue (fun _ _ entry => entry.value) (fun _ => 0) fuel 0 uniqueid

/-- `_mulle_objc_cache_probe_entryindex`, the number of entries passed. -/
def probeEntryindex (fuel : ℕ) : Option ℤ :=
  probeUntil shift cache uniqueid CacheEntry.hasNoValue (fun index _ _ => (index : ℤ)) (fun _ => -1) fuel 0
    uniqueid

/-- `_mulle_objc_class_probe_cacheentry_inline`, with the offset of the entry for its address. -/
def probeCacheentryInline (fuel : ℕ) : Option (Option ℕ) :=
  probeUntil shift cache uniqueid CacheEntry.hasNoKey (fun _ offset _ => some offset) (fun _ => none) fuel 0
    uniqueid

/-- `_mulle_objc_impcachepivot_probe_inline`. -/
def impcachepivotProbeInline (fuel : ℕ) : Option ℕ :=
  probeUntil shift cache uniqueid CacheEntry.hasNoKey (fun _ _ entry => entry.value) (fun _ => 0) fuel 0 uniqueid

end Probing

/-- The probes. -/
inductive Probe
  | pointer
  | functionpointer
  | entryoffset
  | entryindex
  | classCacheentry
  | impcachepivot
deriving DecidableEq, Repr

/-- A pointer that is not `NULL`. -/
def nonNull (pointer : ℕ) : Option ℕ := if pointer = 0 then none else some pointer

/-- Which entries a probe takes for free: some look for the value, some for the key. -/
def Probe.free : Probe → CacheEntry → Bool
  | .pointer | .functionpointer | .entryoffset | .entryindex => CacheEntry.hasNoValue
  | .classCacheentry | .impcachepivot => CacheEntry.hasNoKey

/-- The value a caller gets by a probe, or a miss.  An offset and an index are those of an entry, which is asked for
its key or its value. -/
def Probe.read (shift fuel : ℕ) (cache : Cache) (uniqueid : ℕ) : Probe → Option (Option ℕ)
  | .pointer => (probePointer shift cache uniqueid fuel).map nonNull
  | .functionpointer => (probeFunctionpointer shift cache uniqueid fuel).map nonNull
  | .entryoffset => (probeEntryoffset shift cache uniqueid fuel uniqueid).map fun offset =>
      let entry := cache.entryAt shift offset
      if entry.uniqueid = 0 then none else some entry.value
  | .entryindex => (probeEntryindex shift cache uniqueid fuel).map fun index =>
      if index = -1 then none
      else some (cache.entryAt shift ((uniqueid + index.toNat * sizeofCacheentry shift) &&& cache.mask)).value
  | .classCacheentry => (probeCacheentryInline shift cache uniqueid fuel).map fun entry =>
      entry.map fun offset => (cache.entryAt shift offset).value
  | .impcachepivot => (impcachepivotProbeInline shift cache uniqueid fuel).map nonNull

/-! ## The adders -/

section Adding

variable (shift fuel : ℕ) (cache : Cache) (pointer uniqueid : ℕ)

/-- A cache with an entry more. -/
def Cache.withEntry (offset : ℕ) : Cache :=
  { cache with
    n := cache.n + 1
    entries := cache.entries.set (offset / sizeofCacheentry shift) ⟨uniqueid, pointer⟩ }

/-- `_mulle_objc_cache_add_pointer_inactive`: the offset of the entry for its address, and the cache. -/
def addPointerInactive : Option (ℕ × Cache) :=
  (probeEntryoffset shift cache uniqueid fuel uniqueid).map fun offset =>
    if (cache.entryAt shift offset).value ≠ 0 then (offset, cache)
    else (offset, cache.withEntry shift pointer uniqueid offset)

/-- `_mulle_objc_cache_add_functionpointer_inactive`. -/
def addFunctionpointerInactive : Option (ℕ × Cache) :=
  (probeEntryoffset shift cache uniqueid fuel uniqueid).map fun offset =>
    if (cache.entryAt shift offset).uniqueid ≠ 0 then (offset, cache)
    else (offset, cache.withEntry shift pointer uniqueid offset)

/-- `_mulle_objc_cache_add_pointer_entry`: the compare and swap takes a slot without a value; when it fails, the slot
may have the id already. -/
def addPointerEntry : Option (Option (ℕ × Cache)) :=
  (probeEntryoffset shift cache uniqueid fuel uniqueid).map fun offset =>
    let entry := cache.entryAt shift offset
    if entry.value ≠ 0 then (if entry.uniqueid = uniqueid then some (offset, cache) else none)
    else some (offset, cache.withEntry shift pointer uniqueid offset)

end Adding

/-- The ways to add an entry. -/
inductive Adder
  | pointerInactive
  | functionpointerInactive
  | pointerEntry
  | functionpointerEntry
deriving DecidableEq, Repr

/-- The cache after a call that returns an entry. -/
def Adder.add (shift fuel : ℕ) (cache : Cache) (pointer uniqueid : ℕ) : Adder → Option Cache
  | .pointerInactive => (addPointerInactive shift fuel cache pointer uniqueid).map Prod.snd
  | .functionpointerInactive => (addFunctionpointerInactive shift fuel cache pointer uniqueid).map Prod.snd
  | .pointerEntry => (addPointerEntry shift fuel cache pointer uniqueid).join.map Prod.snd
  | .functionpointerEntry => (addFunctionpointerEntry shift fuel cache pointer uniqueid).join

/-- A call of an adder. -/
structure Addition where
  adder : Adder
  pointer : ℕ
  uniqueid : ℕ
deriving DecidableEq, Repr

/-- The cache after calls that all return an entry. -/
def addAll (shift fuel : ℕ) (cache : Cache) (additions : List Addition) : Option Cache :=
  additions.foldlM (fun cache a => a.adder.add shift fuel cache a.pointer a.uniqueid) cache

/-- The value of the first call with an id. -/
def firstAdded (additions : List Addition) (uniqueid : ℕ) : Option ℕ :=
  (additions.find? fun a => a.uniqueid == uniqueid).map Addition.pointer

/-! ## Where a probe ends -/

variable {shift fuel index offset uniqueid : ℕ} {cache cache' : Cache} {r : Option ℕ}

/-- The entry `d` entries after an offset, around the end. -/
def Cache.entryFrom (shift : ℕ) (cache : Cache) (offset d : ℕ) : CacheEntry :=
  cache.entries.getD ((offset / 2 ^ shift + d) % cache.entries.length) ⟨0, 0⟩

/-- The probe for an id passes `d` entries and ends at the next. -/
structure Ends (shift fuel : ℕ) (cache : Cache) (uniqueid : ℕ) (free : CacheEntry → Bool) (offset d : ℕ) : Prop where
  lt : d < fuel
  passed : ∀ j < d, (cache.entryFrom shift offset j).uniqueid ≠ uniqueid ∧ free (cache.entryFrom shift offset j) = false
  ends : (cache.entryFrom shift offset d).uniqueid = uniqueid ∨ free (cache.entryFrom shift offset d) = true

variable {free : CacheEntry → Bool}

lemma Cache.Laid.entryAt_zero (h : cache.Laid shift) (offset : ℕ) :
    cache.entryAt shift (offset &&& cache.mask) = cache.entryFrom shift offset 0 := by
  rw [h.entryAt_mask, entryFrom, Nat.add_zero]

lemma Cache.Laid.entryFrom_next (h : cache.Laid shift) (offset d : ℕ) :
    cache.entryFrom shift ((offset &&& cache.mask) + sizeofCacheentry shift) d =
      cache.entryFrom shift offset (d + 1) := by
  rw [entryFrom, entryFrom, Nat.add_mod, h.div_next, ← Nat.add_mod, show offset / 2 ^ shift + 1 + d =
    offset / 2 ^ shift + (d + 1) by omega]

lemma Ends.eq_zero {d : ℕ} (h : Ends shift fuel cache uniqueid free offset d)
    (hzero : (cache.entryFrom shift offset 0).uniqueid = uniqueid ∨ free (cache.entryFrom shift offset 0) = true) :
    d = 0 := by
  by_contra hd
  obtain ⟨hkey, hfree⟩ := h.passed 0 (by omega)
  rcases hzero with hzero | hzero
  · exact hkey hzero
  · rw [hfree] at hzero
    cases hzero

/-- A probe that does not end at once ends as the one from the next entry on. -/
lemma Cache.Laid.ends_succ (h : cache.Laid shift) {d : ℕ}
    (hkey : (cache.entryFrom shift offset 0).uniqueid ≠ uniqueid)
    (hfree : free (cache.entryFrom shift offset 0) = false) :
    Ends shift fuel cache uniqueid free ((offset &&& cache.mask) + sizeofCacheentry shift) d ↔
      Ends shift (fuel + 1) cache uniqueid free offset (d + 1) := by
  constructor
  · rintro ⟨hlt, hpassed, hends⟩
    refine ⟨by omega, ?_, by rwa [h.entryFrom_next] at hends⟩
    intro j hj
    rcases Nat.eq_zero_or_pos j with rfl | hj0
    · exact ⟨hkey, hfree⟩
    · have := hpassed (j - 1) (by omega)
      rwa [h.entryFrom_next, show j - 1 + 1 = j by omega] at this
  · rintro ⟨hlt, hpassed, hends⟩
    refine ⟨by omega, ?_, by rwa [h.entryFrom_next]⟩
    intro j hj
    rw [h.entryFrom_next]
    exact hpassed (j + 1) (by omega)

/-- **The loop of the probes goes through the entries one by one.** -/
theorem probeUntil_eq_some (h : cache.Laid shift) {α : Type} {hit : ℕ → ℕ → CacheEntry → α} {miss : ℕ → α} {r : α} :
    probeUntil shift cache uniqueid free hit miss fuel index offset = some r ↔
      ∃ d, Ends shift fuel cache uniqueid free offset d ∧
        r = if (cache.entryFrom shift offset d).uniqueid = uniqueid then
            hit (index + d) ((offset / 2 ^ shift + d) % cache.entries.length * 2 ^ shift) (cache.entryFrom shift offset d)
          else miss ((offset / 2 ^ shift + d) % cache.entries.length * 2 ^ shift) := by
  induction fuel generalizing index offset with
  | zero =>
    unfold probeUntil
    constructor
    · intro hr
      cases hr
    · rintro ⟨d, ⟨hlt, -, -⟩, -⟩
      omega
  | succ fuel ih =>
    unfold probeUntil
    simp only [h.entryAt_zero]
    by_cases hends : (cache.entryFrom shift offset 0).uniqueid = uniqueid ∨ free (cache.entryFrom shift offset 0) = true
    · -- the probe ends here
      have hhere : ∀ r' : ℕ → α, (∃ d, Ends shift (fuel + 1) cache uniqueid free offset d ∧ r = r' d) ↔ r' 0 = r := by
        intro r'
        constructor
        · rintro ⟨d, hd, rfl⟩
          rw [hd.eq_zero hends]
        · rintro rfl
          exact ⟨0, ⟨by omega, by omega, hends⟩, rfl⟩
      rw [hhere, h.div_mask]
      split
      · rw [Option.some_inj, Nat.add_zero, Nat.add_zero]
      · rename_i hkey
        rw [if_pos (hends.resolve_left hkey), Option.some_inj, Nat.add_zero]
    · -- it goes on
      obtain ⟨hkey, hfree⟩ := not_or.1 hends
      have hfree := Bool.not_eq_true _ ▸ hfree
      rw [if_neg hkey, hfree, if_neg Bool.false_ne_true, ih]
      have hpos : ∀ d, (((offset &&& cache.mask) + sizeofCacheentry shift) / 2 ^ shift + d) % cache.entries.length =
          (offset / 2 ^ shift + (d + 1)) % cache.entries.length := by
        intro d
        rw [Nat.add_mod, h.div_next, ← Nat.add_mod, Nat.add_assoc, Nat.add_comm 1]
      simp only [h.ends_succ hkey hfree, h.entryFrom_next, hpos]
      constructor
      · rintro ⟨d, hd, rfl⟩
        exact ⟨d + 1, hd, by rw [show index + 1 + d = index + (d + 1) by omega]⟩
      · rintro ⟨d, hd, rfl⟩
        rcases Nat.eq_zero_or_pos d with rfl | hd0
        · exact absurd hd.ends hends
        · obtain ⟨d, rfl⟩ : ∃ d', d = d' + 1 := ⟨d - 1, by omega⟩
          exact ⟨d, hd, by rw [show index + 1 + d = index + (d + 1) by omega]⟩

/-! ## What a probe reads -/

/-- An entry that has its key has its value.  The value alone can be there while an entry is being added. -/
def Cache.Keyed (cache : Cache) : Prop := ∀ e ∈ cache.entries, e.uniqueid ≠ 0 → e.value ≠ 0

lemma Cache.Laid.entryFrom_mem (h : cache.Laid shift) (offset d : ℕ) :
    cache.entryFrom shift offset d ∈ cache.entries := by
  have hlt := Nat.mod_lt (offset / 2 ^ shift + d) h.length_pos
  rw [entryFrom, List.getD_eq_getElem _ _ hlt]
  exact List.getElem_mem hlt

lemma entryAt_pos (cache : Cache) (offset d : ℕ) :
    cache.entryAt shift ((offset / 2 ^ shift + d) % cache.entries.length * 2 ^ shift) =
      cache.entryFrom shift offset d := by
  rw [Cache.entryAt, sizeofCacheentry, Nat.mul_div_cancel _ (Nat.two_pow_pos shift), Cache.entryFrom]

lemma Cache.Laid.entryAt_index (h : cache.Laid shift) (offset d : ℕ) :
    cache.entryAt shift ((offset + d * sizeofCacheentry shift) &&& cache.mask) = cache.entryFrom shift offset d := by
  rw [h.entryAt_mask, sizeofCacheentry, Nat.add_mul_div_right _ _ (Nat.two_pow_pos shift), entryFrom]

lemma probeEntryoffset_eq_until (shift : ℕ) (cache : Cache) (uniqueid fuel index offset : ℕ) :
    probeEntryoffset shift cache uniqueid fuel offset =
      probeUntil shift cache uniqueid CacheEntry.hasNoValue (fun _ offset _ => offset) (fun offset => offset) fuel index
        offset := by
  induction fuel generalizing index offset with
  | zero => rfl
  | succ fuel ih =>
    unfold probeEntryoffset probeUntil
    simp only [CacheEntry.hasNoValue, beq_iff_eq, ← ih]

/-- A probe through what is made of its entry. -/
lemma probeUntil_map (h : cache.Laid shift) {α : Type} {hit : ℕ → ℕ → CacheEntry → α} {miss : ℕ → α}
    (g : α → Option ℕ)
    (hhit : ∀ d, (cache.entryFrom shift uniqueid d).uniqueid = uniqueid →
      g (hit d ((uniqueid / 2 ^ shift + d) % cache.entries.length * 2 ^ shift) (cache.entryFrom shift uniqueid d)) =
        some (cache.entryFrom shift uniqueid d).value)
    (hmiss : ∀ d, free (cache.entryFrom shift uniqueid d) = true →
      g (miss ((uniqueid / 2 ^ shift + d) % cache.entries.length * 2 ^ shift)) = none) :
    (probeUntil shift cache uniqueid free hit miss fuel 0 uniqueid).map g = some r ↔
      ∃ d, Ends shift fuel cache uniqueid free uniqueid d ∧
        r = if (cache.entryFrom shift uniqueid d).uniqueid = uniqueid then
          some (cache.entryFrom shift uniqueid d).value else none := by
  have hread : ∀ d, Ends shift fuel cache uniqueid free uniqueid d →
      g (if (cache.entryFrom shift uniqueid d).uniqueid = uniqueid then
          hit (0 + d) ((uniqueid / 2 ^ shift + d) % cache.entries.length * 2 ^ shift)
            (cache.entryFrom shift uniqueid d)
        else miss ((uniqueid / 2 ^ shift + d) % cache.entries.length * 2 ^ shift)) =
      if (cache.entryFrom shift uniqueid d).uniqueid = uniqueid then
        some (cache.entryFrom shift uniqueid d).value else none := by
    intro d hd
    split
    · rename_i hkey
      rw [Nat.zero_add, hhit d hkey]
    · rename_i hkey
      exact hmiss d (hd.ends.resolve_left hkey)
  simp only [Option.map_eq_some_iff, probeUntil_eq_some h]
  constructor
  · rintro ⟨_, ⟨d, hd, rfl⟩, rfl⟩
    exact ⟨d, hd, hread d hd⟩
  · rintro ⟨d, hd, rfl⟩
    exact ⟨_, ⟨d, hd, rfl⟩, hread d hd⟩

/-- **Every probe reads the entry it ends at**: its value under the id, a miss otherwise. -/
theorem Probe.read_eq_some (h : cache.Laid shift) (hkeyed : cache.Keyed) (hid : uniqueid ≠ 0) (probe : Probe) :
    probe.read shift fuel cache uniqueid = some r ↔
      ∃ d, Ends shift fuel cache uniqueid probe.free uniqueid d ∧
        r = if (cache.entryFrom shift uniqueid d).uniqueid = uniqueid then
          some (cache.entryFrom shift uniqueid d).value else none := by
  have hvalue : ∀ d, (cache.entryFrom shift uniqueid d).uniqueid = uniqueid →
      (cache.entryFrom shift uniqueid d).value ≠ 0 := by
    intro d hkey
    exact hkeyed _ (h.entryFrom_mem _ _) (by rwa [hkey])
  have hnonNull : ∀ d, (cache.entryFrom shift uniqueid d).uniqueid = uniqueid →
      nonNull (cache.entryFrom shift uniqueid d).value = some (cache.entryFrom shift uniqueid d).value := by
    intro d hkey
    exact if_neg (hvalue d hkey)
  cases probe
  case pointer => exact probeUntil_map h nonNull hnonNull fun _ _ => rfl
  case functionpointer => exact probeUntil_map h nonNull hnonNull fun _ _ => rfl
  case impcachepivot => exact probeUntil_map h nonNull hnonNull fun _ _ => rfl
  case classCacheentry =>
    refine probeUntil_map h _ (fun d _ => ?_) fun _ _ => rfl
    rw [Option.map_some, entryAt_pos]
  case entryindex =>
    refine probeUntil_map h _ (fun d _ => ?_) fun _ _ => rfl
    rw [if_neg (by omega), Int.toNat_natCast, h.entryAt_index]
  case entryoffset =>
    unfold Probe.read
    rw [probeEntryoffset_eq_until shift cache uniqueid fuel 0]
    refine probeUntil_map h _ (fun d hkey => ?_) fun d hfree => ?_
    · rw [entryAt_pos, if_neg (by rwa [hkey])]
    · rw [entryAt_pos, if_pos]
      by_contra hkey
      have hzero : (cache.entryFrom shift uniqueid d).value = 0 := by simpa [Probe.free, CacheEntry.hasNoValue] using hfree
      exact hkeyed _ (h.entryFrom_mem _ _) hkey hzero

/-- **A slot without a value ends every probe.** -/
theorem Probe.read_ends (h : cache.Laid shift) (hkeyed : cache.Keyed) (hid : uniqueid ≠ 0)
    (hslot : ∃ e ∈ cache.entries, e.value = 0) (probe : Probe) :
    ∃ fuel, probe.read shift fuel cache uniqueid ≠ none := by
  obtain ⟨e, he, hvalue⟩ := hslot
  have hkey : e.uniqueid = 0 := by
    by_contra hkey
    exact hkeyed e he hkey hvalue
  obtain ⟨p, hp, rfl⟩ := List.mem_iff_getElem.1 he
  obtain ⟨d, -, hd⟩ := exists_step (uniqueid / 2 ^ shift) hp
  have hentry : cache.entryFrom shift uniqueid d = cache.entries[p] := by
    rw [Cache.entryFrom, hd, List.getD_eq_getElem _ _ hp]
  have hends : ∃ d, (cache.entryFrom shift uniqueid d).uniqueid = uniqueid ∨
      probe.free (cache.entryFrom shift uniqueid d) = true := by
    refine ⟨d, Or.inr ?_⟩
    rw [hentry]
    cases probe <;> simp [Probe.free, CacheEntry.hasNoValue, CacheEntry.hasNoKey, hkey, hvalue]
  refine ⟨Nat.find hends + 1, Option.ne_none_iff_exists'.2 ⟨_, (probe.read_eq_some h hkeyed hid).2
    ⟨Nat.find hends, ⟨by omega, fun j hj => ?_, Nat.find_spec hends⟩, rfl⟩⟩⟩
  obtain ⟨hkey, hfree⟩ := not_or.1 (Nat.find_min hends hj)
  exact ⟨hkey, by simpa using hfree⟩

namespace Cache.Valid

lemma isKeyed (h : cache.Valid shift) : cache.Keyed := by
  intro e he hkey
  rwa [Ne, ← h.keyed e he]

lemma stops_entryFrom (h : cache.Valid shift) (probe : Probe) (d : ℕ) :
    Stops cache.slot uniqueid ((home shift uniqueid + d) % cache.entries.length) ↔
      (cache.entryFrom shift uniqueid d).uniqueid = uniqueid ∨
        probe.free (cache.entryFrom shift uniqueid d) = true := by
  have hlt := Nat.mod_lt (uniqueid / 2 ^ shift + d) h.length_pos
  have hfree : probe.free (cache.entryFrom shift uniqueid d) = true ↔
      (cache.entryFrom shift uniqueid d).uniqueid = 0 := by
    have hzero := h.keyed _ (h.isLaid.entryFrom_mem uniqueid d)
    cases probe <;> simp [Probe.free, CacheEntry.hasNoValue, CacheEntry.hasNoKey, hzero]
  rw [hfree, home, stops_iff hlt, entryFrom, List.getD_eq_getElem _ _ hlt]
  exact or_comm

lemma ends_iff (h : cache.Valid shift) (probe : Probe) {d : ℕ} :
    Ends shift fuel cache uniqueid probe.free uniqueid d ↔
      d < fuel ∧ Stops cache.slot uniqueid ((home shift uniqueid + d) % cache.entries.length) ∧
        ∀ j < d, ¬ Stops cache.slot uniqueid ((home shift uniqueid + j) % cache.entries.length) := by
  simp only [h.stops_entryFrom probe, not_or, Bool.not_eq_true]
  constructor
  · rintro ⟨hlt, hpassed, hends⟩
    exact ⟨hlt, hends, hpassed⟩
  · rintro ⟨hlt, hends, hpassed⟩
    exact ⟨hlt, hpassed, hends⟩

/-- **Every probe is a lookup in the table.** -/
theorem read_eq (h : cache.Valid shift) (hid : uniqueid ≠ 0) (probe : Probe) :
    probe.read shift fuel cache uniqueid =
      lookup cache.entries.length cache.slot uniqueid fuel (home shift uniqueid) := by
  have hvalue : ∀ d, Stops cache.slot uniqueid ((home shift uniqueid + d) % cache.entries.length) →
      (if (cache.entryFrom shift uniqueid d).uniqueid = uniqueid then
        some (cache.entryFrom shift uniqueid d).value else none) =
      (cache.slot ((home shift uniqueid + d) % cache.entries.length)).map Prod.snd := by
    intro d hstops
    have hlt := Nat.mod_lt (uniqueid / 2 ^ shift + d) h.length_pos
    rw [home, stops_iff hlt] at hstops
    rw [home, slot_of_lt hlt, entryFrom, List.getD_eq_getElem _ _ hlt]
    unfold CacheEntry.content
    rcases hstops with hzero | hkey
    · rw [if_neg (by rw [hzero]; exact Ne.symm hid), if_pos hzero]
      rfl
    · rw [if_pos hkey, if_neg (by rwa [hkey])]
      rfl
  ext r
  rw [probe.read_eq_some h.isLaid h.isKeyed hid, lookup, Option.map_eq_some_iff]
  simp only [h.ends_iff probe, probe_eq_some]
  constructor
  · rintro ⟨d, ⟨hlt, hstops, hpassed⟩, rfl⟩
    exact ⟨_, ⟨d, hlt, rfl, hstops, hpassed⟩, (hvalue d hstops).symm⟩
  · rintro ⟨_, ⟨d, hlt, rfl, hstops, hpassed⟩, rfl⟩
    exact ⟨d, ⟨hlt, hstops, hpassed⟩, (hvalue d hstops).symm⟩

/-- **Every probe reads what is cached.** -/
theorem read_cached (h : cache.Valid shift) (hid : uniqueid ≠ 0) (hempty : cache.HasEmptySlot)
    (hfuel : cache.entries.length ≤ fuel) (probe : Probe) :
    probe.read shift fuel cache uniqueid = some (cache.cached uniqueid) := by
  rw [h.read_eq hid]
  rcases hcached : cache.cached uniqueid with _ | v
  · exact lookup_absent ((absent_iff hid).2 hcached) (hasEmptySlot_iff.1 hempty) hfuel _
  · exact h.chained.lookup_stored ((h.stored_iff hid).2 hcached) hfuel

/-- In a full table no probe for an id that is not cached ends. -/
theorem read_full (h : cache.Valid shift) (hid : uniqueid ≠ 0) (hfull : ¬ cache.HasEmptySlot)
    (hnone : cache.cached uniqueid = none) (probe : Probe) : probe.read shift fuel cache uniqueid = none := by
  rw [h.read_eq hid]
  exact lookup_full ((absent_iff hid).2 hnone) (fun hfree => hfull (hasEmptySlot_iff.2 hfree)) h.length_pos _ _

end Cache.Valid

/-! ## What the adders have in common -/

/-- In a table the slot that is found for an id has the id, or neither a key nor a value.  The assertions of the adders
hold. -/
lemma Cache.Valid.probeEntryoffset_spec (h : cache.Valid shift)
    (hprobe : probeEntryoffset shift cache uniqueid fuel uniqueid = some offset) :
    ((cache.entryAt shift offset).value ≠ 0 → (cache.entryAt shift offset).uniqueid = uniqueid) ∧
      ((cache.entryAt shift offset).uniqueid = 0 ↔ (cache.entryAt shift offset).value = 0) := by
  rw [probeEntryoffset_eq_until shift cache uniqueid fuel 0, probeUntil_eq_some h.isLaid] at hprobe
  obtain ⟨d, hd, rfl⟩ := hprobe
  simp only [ite_self, entryAt_pos]
  refine ⟨fun hvalue => hd.ends.resolve_right ?_, h.keyed _ (h.isLaid.entryFrom_mem _ _)⟩
  simpa [CacheEntry.hasNoValue] using hvalue

/-- **All adders add the same entry.** -/
theorem Cache.Valid.adder_eq (h : cache.Valid shift) (adder : Adder) (pointer : ℕ) :
    adder.add shift fuel cache pointer uniqueid = (addFunctionpointerEntry shift fuel cache pointer uniqueid).join := by
  unfold Adder.add addPointerInactive addFunctionpointerInactive addPointerEntry addFunctionpointerEntry
  rcases hprobe : probeEntryoffset shift cache uniqueid fuel uniqueid with _ | offset
  · cases adder <;> rfl
  · obtain ⟨hkey, hzero⟩ := h.probeEntryoffset_spec hprobe
    by_cases hvalue : (cache.entryAt shift offset).value = 0
    · cases adder <;> simp [hvalue, hzero, Cache.withEntry]
    · have hset : (cache.entryAt shift offset).uniqueid ≠ 0 := fun hkey => hvalue (hzero.1 hkey)
      rw [hkey hvalue] at hset
      cases adder <;> simp [hvalue, hkey hvalue, hset]

lemma Cache.Valid.add_n (h : cache.Valid shift) (hid : uniqueid ≠ 0) {pointer : ℕ}
    (hadd : addFunctionpointerEntry shift fuel cache pointer uniqueid = some (some cache')) :
    cache'.n = if cache.cached uniqueid = none then cache.n + 1 else cache.n := by
  obtain ⟨i, hi, hprobe, ⟨hkey, -, hr⟩ | ⟨hfree, hr⟩⟩ := h.add_eq hadd
  · cases hr
    rw [if_neg]
    rw [← absent_iff hid]
    intro habsent
    refine habsent i hi (uniqueid, (cache.entries[i]).value) ?_ rfl
    rw [Option.mem_def, slot_of_lt hi, content_eq_some, hkey]
    exact ⟨hid, rfl⟩
  · cases hr
    rw [if_pos ((absent_iff hid).1 (h.chained.absent_of_free hprobe hfree))]

/-! ## What has been added -/

lemma firstAdded_append (additions : List Addition) (a : Addition) (uniqueid : ℕ) :
    firstAdded (additions ++ [a]) uniqueid =
      (firstAdded additions uniqueid).or (if a.uniqueid = uniqueid then some a.pointer else none) := by
  unfold firstAdded
  rw [List.find?_append, List.find?_singleton]
  cases List.find? (fun a => a.uniqueid == uniqueid) additions <;>
    by_cases ha : a.uniqueid = uniqueid <;> simp [ha]

lemma firstAdded_eq_none {additions : List Addition} :
    firstAdded additions uniqueid = none ↔ uniqueid ∉ (additions.map Addition.uniqueid).toFinset := by
  unfold firstAdded
  simp

/-- A cache that holds what has been added to it. -/
structure Holds (shift bits : ℕ) (additions : List Addition) (cache : Cache) : Prop where
  valid : cache.Valid shift
  length_eq : cache.entries.length = 2 ^ bits
  cached_eq : ∀ k ≠ 0, cache.cached k = firstAdded additions k
  n_eq : cache.n = (additions.map Addition.uniqueid).toFinset.card

lemma holds_uncut (shift bits : ℕ) : Holds shift bits [] (Cache.uncut shift (2 ^ bits)) := by
  have hvalid : (Cache.uncut shift (2 ^ bits)).Valid shift := valid_replicate shift bits 0 _ rfl
  exact ⟨hvalid, by simp [Cache.uncut], fun k hk => hvalid.cached_of_empty rfl hk, rfl⟩

lemma Holds.add {bits : ℕ} {additions : List Addition} {a : Addition} (h : Holds shift bits additions cache)
    (hid : a.uniqueid ≠ 0) (hpointer : a.pointer ≠ 0)
    (hadd : a.adder.add shift fuel cache a.pointer a.uniqueid = some cache') :
    Holds shift bits (additions ++ [a]) cache' := by
  rw [h.valid.adder_eq, Option.join_eq_some_iff] at hadd
  obtain ⟨hvalid, hadded, -, hlength⟩ := h.valid.add hid hpointer hadd
  refine ⟨hvalid, by rw [hlength, h.length_eq], ?_, ?_⟩
  · intro k hk
    rw [hadded k hk, firstAdded_append, h.cached_eq k hk, h.cached_eq _ hid]
    by_cases hka : a.uniqueid = k
    · subst hka
      rw [if_pos rfl, if_pos rfl]
      cases firstAdded additions a.uniqueid <;> rfl
    · rw [if_neg (Ne.symm hka), if_neg hka, Option.or_none]
  · have hn := h.valid.add_n hid hadd
    rw [h.cached_eq _ hid, h.n_eq] at hn
    rw [List.map_append, List.toFinset_append, hn, Finset.union_comm]
    simp only [List.map_cons, List.map_nil, List.toFinset_cons, List.toFinset_nil, insert_empty_eq,
      Finset.singleton_union]
    split
    · rename_i hnew
      rw [Finset.card_insert_of_notMem (firstAdded_eq_none.1 hnew)]
    · rename_i hold
      rw [Finset.insert_eq_of_mem (not_not.1 fun hnew => hold (firstAdded_eq_none.2 hnew))]

/-- **What calls of the adders leave in a new cache.** -/
theorem Holds.addAll {bits : ℕ} {additions : List Addition} (h : Holds shift bits [] cache)
    (hsane : ∀ a ∈ additions, a.uniqueid ≠ 0 ∧ a.pointer ≠ 0)
    (hadd : addAll shift fuel cache additions = some cache') : Holds shift bits additions cache' := by
  induction additions using List.reverseRecOn generalizing cache' with
  | nil =>
    cases hadd
    exact h
  | append_singleton additions a ih =>
    unfold Impcache.addAll at hadd
    rw [List.foldlM_append, Option.bind_eq_bind, Option.bind_eq_some_iff] at hadd
    obtain ⟨before, hbefore, hlast⟩ := hadd
    rw [List.foldlM_cons, Option.bind_eq_bind, Option.bind_eq_some_iff] at hlast
    obtain ⟨after, hafter, hnil⟩ := hlast
    cases hnil
    obtain ⟨hid, hpointer⟩ := hsane a (by simp)
    exact (ih (fun a ha => hsane a (by simp [ha])) hbefore).add hid hpointer hafter

end MulleObjcRuntime.Impcache
