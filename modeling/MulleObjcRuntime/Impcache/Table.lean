import Mathlib.Data.List.GetD
import MulleObjcRuntime.Impcache.Defs
import MulleObjcRuntime.Lib.OpenAddressing

/-!
# The method cache as a table

* `Cache.cached` — the value under an id, read off the entries without probing;
* `Cache.Valid` — what holds of every cache: the mask fits the entries, and they form an open addressing table;
* `Valid.probeLoop_home`, `Valid.collisionLoop_home` — both loops read what is cached;
* `Valid.add`, `impcacheNew_installed`, `fillImpcachepivotImp_spec` — the operations keep it, and what they cache.
-/

namespace MulleObjcRuntime.Impcache

open Classes Lib.OpenAddressing Lib.PowerOfTwo

/-- The value under an id. -/
def Cache.cached (cache : Cache) (uniqueid : ℕ) : Option ℕ :=
  (cache.entries.find? fun e => e.uniqueid == uniqueid).map CacheEntry.value

/-- An entry has no key yet. -/
def Cache.HasEmptySlot (cache : Cache) : Prop := ∃ e ∈ cache.entries, e.uniqueid = 0

instance (cache : Cache) : Decidable cache.HasEmptySlot := by
  unfold Cache.HasEmptySlot
  infer_instance

/-- The position a probe for an id starts at. -/
def home (shift uniqueid : ℕ) : ℕ := uniqueid / 2 ^ shift

/-- An entry as the content of a slot. -/
def CacheEntry.content (e : CacheEntry) : Option (ℕ × ℕ) :=
  if e.uniqueid = 0 then none else some (e.uniqueid, e.value)

/-- The slots of a cache. -/
def Cache.slot (cache : Cache) (i : ℕ) : Option (ℕ × ℕ) := (cache.entries.getD i ⟨0, 0⟩).content

/-- The mask fits the entries, and there is a power of two of them. -/
def Cache.Laid (shift : ℕ) (cache : Cache) : Prop :=
  ∃ bits, cache.entries.length = 2 ^ bits ∧ cache.mask = (2 ^ bits - 1) * 2 ^ shift

/-- What holds of a cache at all times. -/
structure Cache.Valid (shift : ℕ) (cache : Cache) : Prop where
  laid : ∃ bits, cache.entries.length = 2 ^ bits ∧ cache.mask = (2 ^ bits - 1) * 2 ^ shift
  chained : Chained cache.entries.length (home shift) cache.slot
  keyed : ∀ e ∈ cache.entries, e.uniqueid = 0 ↔ e.value = 0
  count : cache.n = cache.entries.countP fun e => e.uniqueid != 0

variable {shift fuel uniqueid imp offset i v : ℕ} {cache cache' : Cache}

/-! ## Slots -/

lemma content_eq_none {e : CacheEntry} : e.content = none ↔ e.uniqueid = 0 := by
  unfold CacheEntry.content
  split <;> simp_all

lemma content_eq_some {e : CacheEntry} {p : ℕ × ℕ} : e.content = some p ↔ e.uniqueid ≠ 0 ∧ (e.uniqueid, e.value) = p := by
  unfold CacheEntry.content
  split <;> simp_all

lemma slot_of_lt (hi : i < cache.entries.length) : cache.slot i = (cache.entries[i]).content := by
  rw [Cache.slot, List.getD_eq_getElem _ _ hi]

lemma stops_iff (hi : i < cache.entries.length) :
    Stops cache.slot uniqueid i ↔ (cache.entries[i]).uniqueid = 0 ∨ (cache.entries[i]).uniqueid = uniqueid := by
  unfold Stops
  rw [slot_of_lt hi]
  unfold CacheEntry.content
  by_cases hkey : (cache.entries[i]).uniqueid = 0 <;> simp [hkey]

lemma hasEmptySlot_iff : cache.HasEmptySlot ↔ HasFree cache.entries.length cache.slot := by
  unfold Cache.HasEmptySlot HasFree
  constructor
  · rintro ⟨e, he, hkey⟩
    obtain ⟨i, hi, rfl⟩ := List.mem_iff_getElem.1 he
    exact ⟨i, hi, by rw [slot_of_lt hi, content_eq_none, hkey]⟩
  · rintro ⟨i, hi, hslot⟩
    rw [slot_of_lt hi, content_eq_none] at hslot
    exact ⟨_, List.getElem_mem hi, hslot⟩

lemma absent_iff (hid : uniqueid ≠ 0) :
    Absent cache.entries.length cache.slot uniqueid ↔ cache.cached uniqueid = none := by
  unfold Absent Cache.cached
  rw [Option.map_eq_none_iff, List.find?_eq_none]
  constructor
  · intro h e he hkey
    obtain ⟨i, hi, rfl⟩ := List.mem_iff_getElem.1 he
    have hkey : (cache.entries[i]).uniqueid = uniqueid := by simpa using hkey
    refine h i hi (uniqueid, (cache.entries[i]).value) ?_ rfl
    rw [Option.mem_def, slot_of_lt hi, content_eq_some]
    exact ⟨hkey ▸ hid, by rw [hkey]⟩
  · rintro h i hi e he rfl
    rw [Option.mem_def, slot_of_lt hi, content_eq_some] at he
    obtain ⟨-, rfl⟩ := he
    exact h _ (List.getElem_mem hi) (by simp)

/-- What is cached is what is stored. -/
lemma Cache.Valid.stored_iff (h : cache.Valid shift) (hid : uniqueid ≠ 0) :
    Stored cache.entries.length cache.slot (uniqueid, v) ↔ cache.cached uniqueid = some v := by
  have hstored : ∀ v, cache.cached uniqueid = some v → Stored cache.entries.length cache.slot (uniqueid, v) := by
    intro v hv
    unfold Cache.cached at hv
    obtain ⟨e, he, rfl⟩ := Option.map_eq_some_iff.1 hv
    have hkey : e.uniqueid = uniqueid := by simpa using List.find?_some he
    obtain ⟨i, hi, rfl⟩ := List.mem_iff_getElem.1 (List.mem_of_find?_eq_some he)
    refine ⟨i, hi, ?_⟩
    rw [slot_of_lt hi, content_eq_some, hkey]
    exact ⟨hid, rfl⟩
  constructor
  · intro hs
    have hne : cache.cached uniqueid ≠ none := by
      rw [Ne, ← absent_iff hid]
      exact not_absent.2 ⟨v, hs⟩
    obtain ⟨v', hv'⟩ := Option.ne_none_iff_exists'.1 hne
    have := h.chained.unique hs (hstored v' hv') rfl
    cases this
    exact hv'
  · exact hstored v

/-! ## The loops -/

namespace Cache.Laid

lemma length_pos (h : cache.Laid shift) : 0 < cache.entries.length := by
  obtain ⟨bits, hlength, -⟩ := h
  rw [hlength]
  exact Nat.two_pow_pos bits

lemma div_mask (h : cache.Laid shift) (offset : ℕ) :
    offset &&& cache.mask = offset / 2 ^ shift % cache.entries.length * 2 ^ shift := by
  obtain ⟨bits, hlength, hmask⟩ := h
  rw [hlength, hmask, and_mask]

lemma entryAt_mask (h : cache.Laid shift) (offset : ℕ) :
    cache.entryAt shift (offset &&& cache.mask) =
      cache.entries.getD (offset / 2 ^ shift % cache.entries.length) ⟨0, 0⟩ := by
  rw [entryAt, sizeofCacheentry, h.div_mask, Nat.mul_div_cancel _ (Nat.two_pow_pos shift)]

lemma div_next (h : cache.Laid shift) (offset : ℕ) :
    ((offset &&& cache.mask) + sizeofCacheentry shift) / 2 ^ shift % cache.entries.length =
      (offset / 2 ^ shift + 1) % cache.entries.length := by
  rw [sizeofCacheentry, Nat.add_div_right _ (Nat.two_pow_pos shift), h.div_mask,
    Nat.mul_div_cancel _ (Nat.two_pow_pos shift), Nat.mod_add_mod]

end Cache.Laid

namespace Cache.Valid

lemma isLaid (h : cache.Valid shift) : cache.Laid shift := h.laid

lemma length_pos (h : cache.Valid shift) : 0 < cache.entries.length := h.isLaid.length_pos

/-- **The loop of the calls is a lookup in the table.** -/
theorem probeLoop_eq (h : cache.Valid shift) (hid : uniqueid ≠ 0) :
    probeLoop shift cache uniqueid fuel offset =
      lookup cache.entries.length cache.slot uniqueid fuel (offset / 2 ^ shift) := by
  induction fuel generalizing offset with
  | zero => rfl
  | succ fuel ih =>
    rw [lookup_succ, Cache.slot, probeLoop]
    simp only [h.isLaid.entryAt_mask, ih]
    rw [lookup_congr (h.isLaid.div_next offset)]
    generalize cache.entries.getD (offset / 2 ^ shift % cache.entries.length) ⟨0, 0⟩ = e
    unfold CacheEntry.content
    by_cases hkey : e.uniqueid = 0
    · simp [hkey, Ne.symm hid]
    · simp [hkey]

/-- **The loop of the collision callbacks is a lookup from the second position on.** -/
theorem collisionLoop_eq (h : cache.Valid shift) (hid : uniqueid ≠ 0) :
    collisionLoop shift cache uniqueid fuel offset =
      lookup cache.entries.length cache.slot uniqueid fuel (offset / 2 ^ shift + 1) := by
  have hstep : ∀ offset, (offset + sizeofCacheentry shift) / 2 ^ shift = offset / 2 ^ shift + 1 := by
    intro offset
    rw [sizeofCacheentry, Nat.add_div_right _ (Nat.two_pow_pos shift)]
  induction fuel generalizing offset with
  | zero => rfl
  | succ fuel ih =>
    rw [lookup_succ, Cache.slot, collisionLoop]
    simp only [h.isLaid.entryAt_mask, ih]
    rw [hstep, h.isLaid.div_mask, hstep, Nat.mul_div_cancel _ (Nat.two_pow_pos shift),
      lookup_congr (Nat.mod_add_mod (offset / 2 ^ shift + 1) cache.entries.length 1)]
    generalize cache.entries.getD ((offset / 2 ^ shift + 1) % cache.entries.length) ⟨0, 0⟩ = e
    unfold CacheEntry.content
    by_cases hkey : e.uniqueid = 0
    · simp [hkey, Ne.symm hid]
    · simp [hkey]

/-- **Looking for a free offset is a probe of the table.** -/
theorem probeEntryoffset_eq (h : cache.Valid shift) :
    probeEntryoffset shift cache uniqueid fuel offset =
      (probe cache.entries.length cache.slot uniqueid fuel (offset / 2 ^ shift)).map (· * 2 ^ shift) := by
  induction fuel generalizing offset with
  | zero => rfl
  | succ fuel ih =>
    have hlt := Nat.mod_lt (offset / 2 ^ shift) h.length_pos
    have hkeyed := h.keyed _ (List.getElem_mem hlt)
    rw [probe, probeEntryoffset]
    simp only [h.isLaid.entryAt_mask, ih]
    rw [probe_congr (h.isLaid.div_next offset), List.getD_eq_getElem _ _ hlt, h.isLaid.div_mask]
    by_cases hkey : cache.entries[offset / 2 ^ shift % cache.entries.length].uniqueid = uniqueid
    · rw [if_pos hkey, if_pos ((stops_iff hlt).2 (Or.inr hkey))]
      rfl
    · by_cases hzero : cache.entries[offset / 2 ^ shift % cache.entries.length].uniqueid = 0
      · rw [if_neg hkey, if_pos (hkeyed.1 hzero), if_pos ((stops_iff hlt).2 (Or.inl hzero))]
        rfl
      · rw [if_neg hkey, if_neg (fun hvalue => hzero (hkeyed.2 hvalue)),
          if_neg fun hstops => ((stops_iff hlt).1 hstops).elim hzero hkey]

lemma cached_of_lookup (h : cache.Valid shift) (hid : uniqueid ≠ 0) {i v : ℕ}
    (hlookup : lookup cache.entries.length cache.slot uniqueid fuel i = some (some v)) : cache.cached uniqueid = some v := by
  rw [lookup, Option.map_eq_some_iff] at hlookup
  obtain ⟨q, hprobe, hvalue⟩ := hlookup
  obtain ⟨d, -, rfl, hstops, -⟩ := probe_eq_some.1 hprobe
  obtain ⟨⟨k, v'⟩, hslot, hv⟩ := Option.map_eq_some_iff.1 hvalue
  have hk : k = uniqueid := hstops (k, v') hslot
  have hv : v' = v := hv
  subst hk hv
  exact (h.stored_iff hid).1 ⟨_, Nat.mod_lt _ h.length_pos, hslot⟩

/-- **From its home position on, the loop of the calls reads what is cached**, unless the id is not cached and the
table is full. -/
theorem probeLoop_home (h : cache.Valid shift) (hid : uniqueid ≠ 0)
    (hends : cache.cached uniqueid ≠ none ∨ cache.HasEmptySlot) (hfuel : cache.entries.length ≤ fuel) :
    probeLoop shift cache uniqueid fuel uniqueid = some (cache.cached uniqueid) := by
  rw [h.probeLoop_eq hid]
  rcases hcached : cache.cached uniqueid with _ | v
  · have hempty := hends.resolve_left (not_not_intro hcached)
    exact lookup_absent ((absent_iff hid).2 hcached) (hasEmptySlot_iff.1 hempty) hfuel _
  · exact h.chained.lookup_stored ((h.stored_iff hid).2 hcached) hfuel

/-- **The loop of the collision callbacks misses no entry**: after a first slot with another id, or with none, it reads
what the loop of the calls reads. -/
theorem collisionLoop_home (h : cache.Valid shift) (hid : uniqueid ≠ 0)
    (hfirst : (cache.entryAt shift (uniqueid &&& cache.mask)).uniqueid ≠ uniqueid)
    (hfuel : cache.entries.length ≤ fuel) :
    collisionLoop shift cache uniqueid fuel uniqueid = probeLoop shift cache uniqueid fuel uniqueid := by
  rw [h.probeLoop_eq hid, h.collisionLoop_eq hid]
  refine h.chained.lookup_skip h.length_pos ?_ hfuel
  intro e he
  rw [h.isLaid.entryAt_mask] at hfirst
  rw [Option.mem_def, Cache.slot, content_eq_some] at he
  obtain ⟨-, rfl⟩ := he
  exact hfirst

lemma cached_first (h : cache.Valid shift) (hid : uniqueid ≠ 0)
    (hfirst : (cache.entryAt shift (uniqueid &&& cache.mask)).uniqueid = uniqueid) :
    cache.cached uniqueid = some (cache.entryAt shift (uniqueid &&& cache.mask)).value := by
  rw [← h.stored_iff hid]
  refine ⟨_, Nat.mod_lt (home shift uniqueid) h.length_pos, ?_⟩
  rw [h.isLaid.entryAt_mask] at hfirst ⊢
  rw [Cache.slot, content_eq_some]
  refine ⟨?_, ?_⟩
  · rw [show home shift uniqueid = uniqueid / 2 ^ shift from rfl, hfirst]
    exact hid
  · exact Prod.ext hfirst rfl

lemma cached_first_empty (h : cache.Valid shift) (hid : uniqueid ≠ 0)
    (hfirst : (cache.entryAt shift (uniqueid &&& cache.mask)).uniqueid = 0) : cache.cached uniqueid = none := by
  have hlt := Nat.mod_lt (home shift uniqueid) h.length_pos
  have hempty : cache.HasEmptySlot := by
    rw [h.isLaid.entryAt_mask] at hfirst
    rw [hasEmptySlot_iff]
    exact ⟨_, hlt, content_eq_none.2 hfirst⟩
  have hprobe := h.probeLoop_home hid (Or.inr hempty) (Nat.le_succ _)
  rw [probeLoop] at hprobe
  simp only [hfirst] at hprobe
  rw [if_neg (Ne.symm hid)] at hprobe
  simpa using hprobe.symm

end Cache.Valid

/-! ## A new entry -/

lemma slot_set_self (imp : ℕ) (hi : i < cache.entries.length) (huniqueid : uniqueid ≠ 0) :
    Cache.slot { cache with n := cache.n + 1, entries := cache.entries.set i ⟨uniqueid, imp⟩ } i =
      some (uniqueid, imp) := by
  rw [slot_of_lt (by simpa using hi), content_eq_some]
  simp [huniqueid]

lemma slot_set_ne {j : ℕ} (hij : j ≠ i) :
    Cache.slot { cache with n := cache.n + 1, entries := cache.entries.set i ⟨uniqueid, imp⟩ } j =
      cache.slot j := by
  unfold Cache.slot
  simp only [List.getD_eq_getElem?_getD]
  rw [List.getElem?_set_ne (Ne.symm hij)]

lemma Cache.Valid.insert (h : cache.Valid shift) (hid : uniqueid ≠ 0) (himp : imp ≠ 0)
    (hprobe : probe cache.entries.length cache.slot uniqueid fuel (home shift uniqueid) = some i)
    (hi : i < cache.entries.length) (hfree : cache.slot i = none) :
    Cache.Valid shift { cache with n := cache.n + 1, entries := cache.entries.set i ⟨uniqueid, imp⟩ } := by
  have hzero : (cache.entries[i]).uniqueid = 0 := by rwa [slot_of_lt hi, content_eq_none] at hfree
  refine ⟨?_, ?_, ?_, ?_⟩
  · obtain ⟨bits, hlength, hmask⟩ := h.laid
    exact ⟨bits, by simpa using hlength, hmask⟩
  · simp only [List.length_set]
    exact h.chained.insert hprobe hfree (slot_set_self imp hi hid) fun j hj => slot_set_ne hj
  · intro e he
    rcases List.mem_or_eq_of_mem_set he with he | rfl
    · exact h.keyed e he
    · simp [hid, himp]
  · simp only
    rw [List.countP_set hi, h.count]
    simp [hzero, hid]

/-- What a new entry changes. -/
lemma cached_insert (h : cache.Valid shift)
    (h' : Cache.Valid shift { cache with n := cache.n + 1, entries := cache.entries.set i ⟨uniqueid, imp⟩ })
    (hid : uniqueid ≠ 0) (hi : i < cache.entries.length) (hfree : cache.slot i = none) {k : ℕ} (hk : k ≠ 0)
    (hnone : cache.cached uniqueid = none) :
    Cache.cached { cache with n := cache.n + 1, entries := cache.entries.set i ⟨uniqueid, imp⟩ } k =
      if k = uniqueid then some imp else cache.cached k := by
  have hstored := fun v => stored_insert (e := (k, v)) hi hfree (slot_set_self imp hi hid)
    (fun j hj => slot_set_ne hj)
  have hcached : ∀ v, Cache.cached
      { cache with n := cache.n + 1, entries := cache.entries.set i ⟨uniqueid, imp⟩ } k = some v ↔
      cache.cached k = some v ∨ (k = uniqueid ∧ v = imp) := by
    intro v
    have := hstored v
    rw [Prod.mk.injEq, h.stored_iff hk] at this
    rw [← this, ← h'.stored_iff hk]
    simp
  ext v
  rw [hcached]
  by_cases hku : k = uniqueid
  · subst hku
    rw [if_pos rfl, hnone]
    simp [eq_comm]
  · rw [if_neg hku]
    simp [hku]

/-- What an entry added under an id leaves under an id: the first entry stays. -/
def Added (cache : Cache) (imp uniqueid : ℕ) (cache' : Cache) : Prop :=
  ∀ k ≠ 0, cache'.cached k = if k = uniqueid then some ((cache.cached uniqueid).getD imp) else cache.cached k

/-- Where an entry is added: its id has the slot already, or the slot is free. -/
lemma Cache.Valid.add_eq (h : cache.Valid shift) {r : Option Cache}
    (hadd : addFunctionpointerEntry shift fuel cache imp uniqueid = some r) :
    ∃ i, ∃ hi : i < cache.entries.length,
      probe cache.entries.length cache.slot uniqueid fuel (home shift uniqueid) = some i ∧
      (((cache.entries[i]).uniqueid = uniqueid ∧ (cache.entries[i]).value ≠ 0 ∧ r = some cache) ∨
        (cache.slot i = none ∧
          r = some { cache with n := cache.n + 1, entries := cache.entries.set i ⟨uniqueid, imp⟩ })) := by
  unfold addFunctionpointerEntry at hadd
  rw [h.probeEntryoffset_eq, Option.map_map, Option.map_eq_some_iff] at hadd
  obtain ⟨i, hprobe, rfl⟩ := hadd
  obtain ⟨d, -, rfl, hstops, -⟩ := probe_eq_some.1 hprobe
  have hi := Nat.mod_lt (uniqueid / 2 ^ shift + d) h.length_pos
  refine ⟨_, hi, hprobe, ?_⟩
  generalize (uniqueid / 2 ^ shift + d) % cache.entries.length = i at hprobe hstops hi ⊢
  have hentry : cache.entryAt shift (i * 2 ^ shift) = cache.entries[i] := by
    rw [Cache.entryAt, sizeofCacheentry, Nat.mul_div_cancel _ (Nat.two_pow_pos shift), List.getD_eq_getElem _ _ hi]
  have hkeyed := h.keyed _ (List.getElem_mem hi)
  simp only [Function.comp_apply, hentry]
  by_cases hvalue : (cache.entries[i]).value = 0
  · right
    rw [if_neg (not_not_intro hvalue), sizeofCacheentry, Nat.mul_div_cancel _ (Nat.two_pow_pos shift), slot_of_lt hi,
      content_eq_none]
    exact ⟨hkeyed.2 hvalue, rfl⟩
  · left
    have hkey : (cache.entries[i]).uniqueid = uniqueid :=
      ((stops_iff hi).1 hstops).resolve_left fun hzero => hvalue (hkeyed.1 hzero)
    rw [if_pos hvalue, if_pos hkey]
    exact ⟨hkey, hvalue, rfl⟩

lemma Cache.Valid.add_ne_taken (h : cache.Valid shift) :
    addFunctionpointerEntry shift fuel cache imp uniqueid ≠ some none := by
  intro hadd
  obtain ⟨i, hi, -, ⟨-, -, h⟩ | ⟨-, h⟩⟩ := h.add_eq hadd <;> cases h

/-- **Adding an entry keeps the table.** -/
theorem Cache.Valid.add (h : cache.Valid shift) (hid : uniqueid ≠ 0) (himp : imp ≠ 0)
    (hadd : addFunctionpointerEntry shift fuel cache imp uniqueid = some (some cache')) :
    cache'.Valid shift ∧ Added cache imp uniqueid cache' ∧
      cache'.size = cache.size ∧ cache'.entries.length = cache.entries.length := by
  obtain ⟨i, hi, hprobe, ⟨hkey, -, hr⟩ | ⟨hfree, hr⟩⟩ := h.add_eq hadd
  · -- the entry of the id stays
    cases hr
    have hcached : cache.cached uniqueid = some (cache.entries[i]).value := by
      rw [← h.stored_iff hid]
      refine ⟨i, hi, ?_⟩
      rw [slot_of_lt hi, content_eq_some, hkey]
      exact ⟨hid, rfl⟩
    refine ⟨h, ?_, rfl, rfl⟩
    intro k _
    split
    · rename_i hk
      rw [hk, hcached]
      rfl
    · rfl
  · -- a free slot takes the new entry
    cases hr
    have hvalid := h.insert hid himp hprobe hi hfree
    have hnone := (absent_iff hid).1 (h.chained.absent_of_free hprobe hfree)
    refine ⟨hvalid, ?_, rfl, by simp⟩
    intro k hk
    rw [cached_insert h hvalid hid hi hfree hk hnone, hnone]
    rfl

/-! ## New caches -/

/-- **A cache gets a power of two as its size**, whatever was asked for. -/
theorem impcacheSize_eq (size : ℕ) : ∃ bits, 2 ≤ bits ∧ bits ≤ 22 ∧ impcacheSize size = 2 ^ bits := by
  obtain ⟨x, hx, hmin, hmax⟩ : ∃ x, impcacheSize size =
      (if x &&& (x - 1) ≠ 0 then smear (smear (smear (smear (smear (x - 1) 1) 2) 4) 8) 16 + 1 else x) ∧
      4 ≤ x ∧ x ≤ 2 ^ 22 := by
    refine ⟨_, rfl, ?_, ?_⟩ <;> (unfold minCacheSize maxCacheSize; split <;> split <;> omega)
  have hbounds : ∀ bits, 4 ≤ 2 ^ bits → 2 ^ bits ≤ 2 ^ 22 → 2 ≤ bits ∧ bits ≤ 22 := by
    intro bits hmin hmax
    exact ⟨(Nat.pow_le_pow_iff_right (by omega : 1 < 2)).1 (show 2 ^ 2 ≤ 2 ^ bits by omega),
      (Nat.pow_le_pow_iff_right (by omega : 1 < 2)).1 hmax⟩
  rw [hx]
  split
  · rw [smear_fill (by omega) (by omega), Nat.sub_add_cancel Nat.one_le_two_pow]
    have hlow := Nat.lt_log2_self (n := x - 1)
    have hlog : (x - 1).log2 < 22 := (Nat.log2_lt (by omega)).2 (by omega)
    have hhigh : 2 ^ ((x - 1).log2 + 1) ≤ 2 ^ 22 := Nat.pow_le_pow_right (by omega) hlog
    obtain ⟨h2, h22⟩ := hbounds _ (by omega) hhigh
    exact ⟨_, h2, h22, rfl⟩
  · rename_i hpow
    obtain ⟨bits, hbits⟩ := (Nat.and_sub_one_eq_zero_iff_isPowerOfTwo (n := x) (by omega)).1 (not_not.1 hpow)
    obtain ⟨h2, h22⟩ := hbounds bits (by omega) (by omega)
    exact ⟨bits, h2, h22, hbits⟩

lemma valid_replicate (shift bits n size : ℕ) (hn : n = 0) :
    Cache.Valid shift ⟨n, size, (2 ^ bits - 1) * 2 ^ shift, List.replicate (2 ^ bits) ⟨0, 0⟩⟩ := by
  refine ⟨⟨bits, by simp, rfl⟩, ?_, ?_, ?_⟩
  · refine chained_empty _ fun i hi => ?_
    rw [slot_of_lt hi, content_eq_none]
    simp
  · intro e he
    simp [List.eq_of_mem_replicate he]
  · simp [hn, List.countP_replicate]

lemma zeroCache_valid (shift : ℕ) : zeroCache.Valid shift := by
  simpa [zeroCache] using valid_replicate shift 0 0 0 rfl

lemma zeroCache_cached (uniqueid : ℕ) (hid : uniqueid ≠ 0) : zeroCache.cached uniqueid = none := by
  simp [zeroCache, Cache.cached, Ne.symm hid]

/-- A cache that was made by `mulle_objc_impcache_new`. -/
structure Cache.Installed (shift : ℕ) (cache : Cache) : Prop extends cache.Valid shift where
  size_eq : cache.size = cache.entries.length
  min_le : minCacheSize ≤ cache.size

/-- **A new cache is one, and nothing is cached in it.** -/
theorem impcacheNew_installed (shift size : ℕ) : (impcacheNew shift size).Installed shift := by
  obtain ⟨bits, h2, -, hbits⟩ := impcacheSize_eq size
  have hmin : 2 ^ 2 ≤ 2 ^ bits := Nat.pow_le_pow_right (by omega) h2
  refine ⟨?_, ?_, ?_⟩
  · unfold impcacheNew Cache.uncut sizeofCacheentry
    rw [hbits]
    exact valid_replicate shift bits 0 _ rfl
  · simp [impcacheNew, Cache.uncut]
  · simp only [impcacheNew, Cache.uncut, hbits, minCacheSize]
    omega

lemma impcacheNew_n (shift size : ℕ) : (impcacheNew shift size).n = 0 := rfl

lemma Cache.Valid.cached_of_empty (h : cache.Valid shift) (hn : cache.n = 0) {k : ℕ} (hk : k ≠ 0) :
    cache.cached k = none := by
  rw [h.count, List.countP_eq_zero] at hn
  rw [← absent_iff hk]
  intro i hi e he
  rw [Option.mem_def, slot_of_lt hi, content_eq_some] at he
  have := hn _ (List.getElem_mem hi)
  simp at this
  exact absurd this he.1

/-! ## Filling -/

section Fill

variable {cfg : Config} {rounds : ℕ}

/-- What a fill leaves under the ids: what was there, or its own entry. -/
structure Filled (cache : Cache) (imp uniqueid : ℕ) (cache' : Cache) : Prop where
  old_or_new : ∀ k ≠ 0, ∀ v, cache'.cached k = some v → cache.cached k = some v ∨ (k = uniqueid ∧ v = imp)
  filled : cache'.cached uniqueid ≠ none

lemma Added.filled (h : Added cache imp uniqueid cache') (hid : uniqueid ≠ 0) : Filled cache imp uniqueid cache' := by
  refine ⟨fun k hk v hv => ?_, ?_⟩
  · rw [h k hk] at hv
    split at hv
    · rename_i hku
      subst hku
      rcases hcached : cache.cached k with _ | w
      · rw [hcached] at hv
        exact Or.inr ⟨rfl, (Option.some.inj hv).symm⟩
      · rw [hcached] at hv
        exact Or.inl hv
    · exact Or.inl hv
  · rw [h uniqueid hid, if_pos rfl]
    simp

/-- **A fill keeps the table.** -/
theorem fillImpcachepivotImp_spec (h : cache.Installed cfg.shift) (hid : uniqueid ≠ 0) (himp : imp ≠ 0)
    (hfill : fillImpcachepivotImp cfg fuel imp uniqueid rounds cache = some cache') :
    cache'.Installed cfg.shift ∧ Filled cache imp uniqueid cache' := by
  induction rounds generalizing cache with
  | zero => cases hfill
  | succ rounds ih =>
    unfold fillImpcachepivotImp at hfill
    split at hfill
    · -- a new cache: it is filled instead
      have hnew : (growWithStrategy cfg.shift cache .grow).Installed cfg.shift := impcacheNew_installed _ _
      obtain ⟨hinstalled, hfilled⟩ := ih hnew hfill
      refine ⟨hinstalled, fun k hk v hv => ?_, hfilled.filled⟩
      rcases hfilled.old_or_new k hk v hv with hold | hown
      · rw [hnew.cached_of_empty (impcacheNew_n _ _) hk] at hold
        cases hold
      · exact Or.inr hown
    · split at hfill
      · cases hfill
      · rename_i hadd
        exact absurd hadd h.toValid.add_ne_taken
      · rename_i hadd
        cases hfill
        obtain ⟨hvalid, hadded, hsize, hlength⟩ := h.toValid.add hid himp hadd
        refine ⟨⟨hvalid, ?_, ?_⟩, hadded.filled hid⟩
        · rw [hsize, hlength, h.size_eq]
        · rw [hsize]
          exact h.min_le

lemma Cache.Installed.hasEmptySlot_iff (h : cache.Installed shift) : cache.HasEmptySlot ↔ cache.n < cache.size := by
  have hle : cache.n ≤ cache.size := by
    rw [h.count, h.size_eq]
    exact List.countP_le_length
  rw [show cache.n < cache.size ↔ ¬ cache.n = cache.size by omega, h.count, h.size_eq, List.countP_eq_length]
  unfold Cache.HasEmptySlot
  simp

lemma hasEmptySlot_of_not_grow (h : cache.Installed cfg.shift) (hgrow : shouldGrow cache cfg.fillrate = false) :
    cache.HasEmptySlot := by
  rw [h.hasEmptySlot_iff]
  by_contra hfull
  have hmin := h.min_le
  have hrate := cfg.fillrate_le
  unfold shouldGrow at hgrow
  unfold minCacheSize at hmin
  split at hgrow
  · have : ¬ cache.n * 3 ≥ cache.size := by simpa using hgrow
    omega
  · have : ¬ cache.n * 100 ≥ cache.size * cfg.fillrate := by simpa using hgrow
    exact this (Nat.mul_le_mul (by omega) (by omega))

lemma not_grow_of_empty (h : cache.Installed cfg.shift) (hn : cache.n = 0) :
    shouldGrow cache cfg.fillrate = false := by
  have hmin := h.min_le
  unfold minCacheSize at hmin
  unfold shouldGrow
  rw [hn]
  split
  · simp only [decide_eq_false_iff_not]
    omega
  · rename_i hrate
    have : 0 < cache.size * cfg.fillrate := Nat.mul_pos (by omega) (by omega)
    simp only [decide_eq_false_iff_not]
    omega

lemma Cache.Valid.add_ne_none (imp : ℕ) (h : cache.Valid shift) (hid : uniqueid ≠ 0) (hempty : cache.HasEmptySlot)
    (hfuel : cache.entries.length ≤ fuel) : addFunctionpointerEntry shift fuel cache imp uniqueid ≠ none := by
  unfold addFunctionpointerEntry
  rw [Ne, Option.map_eq_none_iff, h.probeEntryoffset_eq, Option.map_eq_none_iff]
  by_cases hcached : cache.cached uniqueid = none
  · obtain ⟨p, -, hp, -⟩ := probe_absent ((absent_iff hid).2 hcached) (hasEmptySlot_iff.1 hempty) hfuel
      (uniqueid / 2 ^ shift)
    rw [hp]
    simp
  · obtain ⟨v, hv⟩ := Option.ne_none_iff_exists'.1 hcached
    obtain ⟨i, hi, hslot⟩ := (h.stored_iff hid).2 hv
    have := h.chained.probe_stored hi hslot hfuel
    simp only [home] at this
    rw [this]
    simp

lemma add_ne_none (imp : ℕ) (h : cache.Installed cfg.shift) (hid : uniqueid ≠ 0)
    (hgrow : shouldGrow cache cfg.fillrate = false) (hfuel : cache.entries.length ≤ fuel ∨ (cache.n = 0 ∧ 0 < fuel)) :
    addFunctionpointerEntry cfg.shift fuel cache imp uniqueid ≠ none := by
  rcases hfuel with hfuel | ⟨hn, hfuel⟩
  · exact h.toValid.add_ne_none imp hid (hasEmptySlot_of_not_grow h hgrow) hfuel
  · -- an empty cache: the first slot is free
    unfold addFunctionpointerEntry
    rw [Ne, Option.map_eq_none_iff, h.toValid.probeEntryoffset_eq, Option.map_eq_none_iff]
    intro hnone
    have hlt := Nat.mod_lt (uniqueid / 2 ^ cfg.shift) h.length_pos
    rw [h.count, List.countP_eq_zero] at hn
    refine probe_eq_none.1 hnone 0 hfuel (stops_of_free ?_)
    rw [Nat.add_zero, slot_of_lt hlt, content_eq_none]
    simpa using hn _ (List.getElem_mem hlt)

/-- **A fill ends**, after one growth at most. -/
theorem fillImpcachepivotImp_ne_none (imp : ℕ) (h : cache.Installed cfg.shift) (hid : uniqueid ≠ 0)
    (hrounds : 2 ≤ rounds) (hfuel : cache.entries.length ≤ fuel ∨ (cache.n = 0 ∧ 0 < fuel)) (hpos : 0 < fuel) :
    fillImpcachepivotImp cfg fuel imp uniqueid rounds cache ≠ none := by
  have hadds : ∀ {cache : Cache} (rounds : ℕ), cache.Installed cfg.shift → shouldGrow cache cfg.fillrate = false →
      (cache.entries.length ≤ fuel ∨ (cache.n = 0 ∧ 0 < fuel)) →
      fillImpcachepivotImp cfg fuel imp uniqueid (rounds + 1) cache ≠ none := by
    intro cache rounds h hgrow hfuel
    obtain ⟨r, hr⟩ := Option.ne_none_iff_exists'.1 (add_ne_none imp h hid hgrow hfuel)
    unfold fillImpcachepivotImp
    rw [hgrow, hr]
    rcases r with _ | cache'
    · exact absurd hr h.toValid.add_ne_taken
    · simp
  obtain ⟨rounds, rfl⟩ : ∃ r, rounds = r + 2 := ⟨rounds - 2, by omega⟩
  by_cases hgrow : shouldGrow cache cfg.fillrate = false
  · exact hadds _ h hgrow hfuel
  · have hnew : (growWithStrategy cfg.shift cache .grow).Installed cfg.shift := impcacheNew_installed _ _
    have := hadds rounds hnew (not_grow_of_empty hnew (impcacheNew_n _ _)) (Or.inr ⟨impcacheNew_n _ _, hpos⟩)
    unfold fillImpcachepivotImp
    rwa [if_pos (by simpa using hgrow)]

end Fill

end MulleObjcRuntime.Impcache
