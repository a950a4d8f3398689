import MulleObjcRuntime.Registry.Steps

/-!
# The class cache, and lookups

* `fillClasscacheOffset` — the fill of the class cache with the entry that it returns;
* `Usable`, `fillClasscacheOffset_spec` — the caches of a universe, and what a fill makes of them;
* `lookupInfraclassInlineNodelegate` — a lookup through the table of fast classes or the class cache, without the
  missing-class delegate;
* `lookup_fast`, `lookup_cached`, `lookup_missing`, `lookup_found` — what a lookup yields.

As in `Kvccache.Defs`, the assertion of `_mulle_objc_cache_add_pointer_entry` is off, and sizes and masks are numbers:
those of the source for up to `2 ^ 28` classes.
-/

namespace MulleObjcRuntime.Registry

open Impcache Lib.OpenAddressing

/-! ## Filling the class cache -/

section Fill

variable (cfg : Impcache.Config) (fuel pointer uniqueid : ℕ)

/-- `_mulle_objc_universe_fill_classcache`, with the offset of the entry for its address. -/
def fillClasscacheOffset : ℕ → Cache → Option (ℕ × Cache)
  | 0, _ => none
  | rounds + 1, cache =>
    if shouldGrow cache cfg.fillrate then
      addPointerInactive cfg.shift fuel (cacheNewUncut cfg.shift (cache.size * 2)) pointer uniqueid
    else
      match addPointerEntry cfg.shift fuel cache pointer uniqueid with
      | none => none
      | some none => fillClasscacheOffset rounds cache
      | some (some entry) => some entry

end Fill

/-- A cache that a universe has: the empty one or one that a fill has made, with an empty slot. -/
structure Usable (shift : ℕ) (cache : Cache) : Prop extends cache.Valid shift where
  hasEmptySlot : cache.HasEmptySlot
  made : cache = zeroCache ∨ cache.Installed shift

section Usable

variable {cfg : Impcache.Config} {shift fuel pointer uniqueid rounds offset : ℕ} {cache cache' : Cache}

lemma usable_zeroCache (shift : ℕ) : Usable shift zeroCache := ⟨zeroCache_valid shift, by decide, Or.inl rfl⟩

lemma Usable.installed (h : Usable cfg.shift cache) (hgrow : shouldGrow cache cfg.fillrate = false) :
    cache.Installed cfg.shift := by
  rcases h.made with rfl | hinstalled
  · unfold shouldGrow zeroCache at hgrow
    simp at hgrow
  · exact hinstalled

lemma Usable.cacheNewUncut (h : Usable shift cache) : (cacheNewUncut shift (cache.size * 2)).Installed shift := by
  rcases h.made with rfl | hinstalled
  · exact uncut_installed shift (le_refl 2)
  · obtain ⟨bits, hbits, hsize⟩ := hinstalled.size_two_pow
    have hmin := hinstalled.min_le
    rw [Impcache.cacheNewUncut, if_neg (by omega), hsize, ← Nat.pow_succ]
    exact uncut_installed shift (Nat.le_succ_of_le hbits)

lemma cached_entryAt (h : cache.Valid shift) (hid : uniqueid ≠ 0)
    (hkey : (cache.entryAt shift offset).uniqueid = uniqueid) :
    cache.cached uniqueid = some (cache.entryAt shift offset).value := by
  have hlt : offset / sizeofCacheentry shift < cache.entries.length := by
    by_contra hge
    rw [Cache.entryAt, List.getD_eq_default _ _ (not_lt.1 hge)] at hkey
    exact hid hkey.symm
  rw [← h.stored_iff hid]
  refine ⟨_, hlt, ?_⟩
  rw [slot_of_lt hlt, content_eq_some]
  rw [Cache.entryAt, List.getD_eq_getElem _ _ hlt] at hkey ⊢
  rw [hkey]
  exact ⟨hid, rfl⟩

lemma entryAt_added (h : cache.Valid shift) (hprobe : probeEntryoffset shift cache uniqueid fuel uniqueid = some offset) :
    ((if (cache.entryAt shift offset).value ≠ 0 then cache
      else cache.withEntry shift pointer uniqueid offset).entryAt shift offset).uniqueid = uniqueid := by
  split
  · rename_i hvalue
    exact (h.probeEntryoffset_spec hprobe).1 hvalue
  · rw [h.probeEntryoffset_eq, Option.map_eq_some_iff] at hprobe
    obtain ⟨i, hi, rfl⟩ := hprobe
    obtain ⟨d, -, rfl, -⟩ := probe_eq_some.1 hi
    have hlt := Nat.mod_lt (uniqueid / 2 ^ shift + d) h.length_pos
    rw [Cache.entryAt, Cache.withEntry, sizeofCacheentry, Nat.mul_div_cancel _ (Nat.two_pow_pos shift),
      List.getD_eq_getElem _ _ (by simpa using hlt)]
    simp

/-- What a fill that adds to a cache returns. -/
structure FilledWith (shift : ℕ) (cache : Cache) (pointer uniqueid offset : ℕ) (cache' : Cache) : Prop where
  valid : cache'.Valid shift
  entry : (cache'.entryAt shift offset).value = (cache.cached uniqueid).getD pointer
  added : Added cache pointer uniqueid cache'
  size_eq : cache'.size = cache.size ∧ cache'.entries.length = cache.entries.length
  n_eq : cache'.n = if cache.cached uniqueid = none then cache.n + 1 else cache.n

lemma filledWith_of_add (h : cache.Valid shift) (hid : uniqueid ≠ 0) (hpointer : pointer ≠ 0)
    (hadd : addFunctionpointerEntry shift fuel cache pointer uniqueid = some (some cache'))
    (hprobe : probeEntryoffset shift cache uniqueid fuel uniqueid = some offset)
    (hcache : cache' = if (cache.entryAt shift offset).value ≠ 0 then cache
      else cache.withEntry shift pointer uniqueid offset) :
    FilledWith shift cache pointer uniqueid offset cache' := by
  obtain ⟨hvalid, hadded, hsize⟩ := h.add hid hpointer hadd
  refine ⟨hvalid, ?_, hadded, hsize, h.add_n hid hadd⟩
  have hentry := cached_entryAt hvalid hid (hcache ▸ entryAt_added h hprobe)
  rw [hadded uniqueid hid, if_pos rfl] at hentry
  exact (Option.some.inj hentry).symm

lemma addPointerInactive_spec (h : cache.Installed cfg.shift) (hn : cache.n = 0) (hid : uniqueid ≠ 0)
    (hpointer : pointer ≠ 0) (hfuel : 0 < fuel) :
    ∃ offset cache', addPointerInactive cfg.shift fuel cache pointer uniqueid = some (offset, cache') ∧
      FilledWith cfg.shift cache pointer uniqueid offset cache' := by
  have hne := add_ne_none pointer h hid (not_grow_of_empty h hn) (Or.inr ⟨hn, hfuel⟩)
  obtain ⟨r, hr⟩ := Option.ne_none_iff_exists'.1 hne
  rcases r with _ | cache'
  · exact absurd hr h.toValid.add_ne_taken
  have hadd : Adder.pointerInactive.add cfg.shift fuel cache pointer uniqueid = _ :=
    h.toValid.adder_eq .pointerInactive pointer
  rw [hr] at hadd
  obtain ⟨⟨offset, _⟩, hinactive, rfl⟩ := Option.map_eq_some_iff.1 hadd
  refine ⟨offset, _, hinactive, ?_⟩
  unfold addPointerInactive at hinactive
  obtain ⟨offset', hprobe, hpair⟩ := Option.map_eq_some_iff.1 hinactive
  split at hpair
  · rename_i hvalue
    cases hpair
    exact filledWith_of_add h.toValid hid hpointer hr hprobe (if_pos hvalue).symm
  · rename_i hvalue
    cases hpair
    exact filledWith_of_add h.toValid hid hpointer hr hprobe (if_neg hvalue).symm

lemma addPointerEntry_spec (h : cache.Valid shift) (hempty : cache.HasEmptySlot) (hid : uniqueid ≠ 0)
    (hpointer : pointer ≠ 0) (hfuel : cache.entries.length ≤ fuel) :
    ∃ offset cache', addPointerEntry shift fuel cache pointer uniqueid = some (some (offset, cache')) ∧
      FilledWith shift cache pointer uniqueid offset cache' := by
  obtain ⟨r, hr⟩ := Option.ne_none_iff_exists'.1 (h.add_ne_none pointer hid hempty hfuel)
  rcases r with _ | cache'
  · exact absurd hr h.add_ne_taken
  have hadd : Adder.pointerEntry.add shift fuel cache pointer uniqueid = _ := h.adder_eq .pointerEntry pointer
  rw [hr] at hadd
  obtain ⟨⟨offset, _⟩, hentry, rfl⟩ := Option.map_eq_some_iff.1 hadd
  have hentry := Option.join_eq_some_iff.1 hentry
  refine ⟨offset, _, hentry, ?_⟩
  unfold addPointerEntry at hentry
  obtain ⟨offset', hprobe, hpair⟩ := Option.map_eq_some_iff.1 hentry
  dsimp only at hpair
  split at hpair
  · rename_i hvalue
    split at hpair
    · cases hpair
      exact filledWith_of_add h hid hpointer hr hprobe (if_pos hvalue).symm
    · cases hpair
  · rename_i hvalue
    cases hpair
    exact filledWith_of_add h hid hpointer hr hprobe (if_neg hvalue).symm

/-- There is room for an entry: the cache is to grow, has the id or has another empty slot. -/
def HasRoom (cfg : Impcache.Config) (cache : Cache) (uniqueid : ℕ) : Prop :=
  shouldGrow cache cfg.fillrate = true ∨ cache.cached uniqueid ≠ none ∨ cache.n + 1 < cache.size

instance : Decidable (HasRoom cfg cache uniqueid) := inferInstanceAs (Decidable (_ ∨ _ ∨ _))

/-- **A fill returns an entry with the class, or with the class that was cached under its id**, and caches nothing
else. -/
theorem fillClasscacheOffset_spec (h : Usable cfg.shift cache) (hid : uniqueid ≠ 0) (hpointer : pointer ≠ 0)
    (hfuel : cache.entries.length < fuel) (hrounds : 0 < rounds) :
    ∃ offset cache', fillClasscacheOffset cfg fuel pointer uniqueid rounds cache = some (offset, cache') ∧
      ((cache'.entryAt cfg.shift offset).value = pointer ∨
        cache.cached uniqueid = some (cache'.entryAt cfg.shift offset).value) ∧
      (∀ k ≠ 0, ∀ v, cache'.cached k = some v → cache.cached k = some v ∨ (k = uniqueid ∧ v = pointer)) ∧
      (HasRoom cfg cache uniqueid → Usable cfg.shift cache') := by
  obtain ⟨rounds, rfl⟩ : ∃ r, rounds = r + 1 := ⟨rounds - 1, by omega⟩
  unfold fillClasscacheOffset
  by_cases hgrow : shouldGrow cache cfg.fillrate = true
  · -- the first entry of a grown cache
    rw [if_pos hgrow]
    have hnew := h.cacheNewUncut
    obtain ⟨offset, cache', hadd, hfilled⟩ := addPointerInactive_spec hnew rfl hid hpointer (by omega : 0 < fuel)
    have hnone : ∀ k ≠ 0, (Impcache.cacheNewUncut cfg.shift (cache.size * 2)).cached k = none :=
      fun k hk => hnew.toValid.cached_of_empty rfl hk
    have hinstalled : cache'.Installed cfg.shift :=
      ⟨hfilled.valid, by rw [hfilled.size_eq.1, hfilled.size_eq.2, hnew.size_eq], by rw [hfilled.size_eq.1]; exact hnew.min_le⟩
    refine ⟨offset, cache', hadd, Or.inl ?_, fun k hk v hv => Or.inr ?_, fun _ => ⟨hfilled.valid, ?_, Or.inr hinstalled⟩⟩
    · rw [hfilled.entry, hnone _ hid]
      rfl
    · rw [hfilled.added k hk, hnone _ hk, hnone _ hid] at hv
      split at hv
      · rename_i hku
        exact ⟨hku, (Option.some.inj hv).symm⟩
      · cases hv
    · have hmin := hinstalled.min_le
      have hn := hfilled.n_eq
      rw [if_pos (hnone _ hid), show (Impcache.cacheNewUncut cfg.shift (cache.size * 2)).n = 0 from rfl] at hn
      unfold minCacheSize at hmin
      exact hinstalled.hasEmptySlot_iff.2 (by omega)
  · -- an entry more
    rw [if_neg hgrow]
    have hinstalled := h.installed (Bool.eq_false_iff.2 hgrow)
    obtain ⟨offset, cache', hadd, hfilled⟩ :=
      addPointerEntry_spec h.toValid h.hasEmptySlot hid hpointer (by omega : cache.entries.length ≤ fuel)
    have hinstalled' : cache'.Installed cfg.shift :=
      ⟨hfilled.valid, by rw [hfilled.size_eq.1, hfilled.size_eq.2, hinstalled.size_eq],
        by rw [hfilled.size_eq.1]; exact hinstalled.min_le⟩
    rw [hadd]
    refine ⟨offset, cache', rfl, ?_, fun k hk v hv => ?_, fun hroom => ⟨hfilled.valid, ?_, Or.inr hinstalled'⟩⟩
    · rw [hfilled.entry]
      rcases cache.cached uniqueid with _ | w
      · exact Or.inl rfl
      · exact Or.inr rfl
    · exact (hfilled.added.filled hid).old_or_new k hk v hv
    · have hold := hinstalled.hasEmptySlot_iff.1 h.hasEmptySlot
      have hn := hfilled.n_eq
      rw [hinstalled'.hasEmptySlot_iff, hfilled.size_eq.1]
      rcases hroom with hgrow' | hcached | hlt
      · exact absurd hgrow' hgrow
      · rw [if_neg hcached] at hn
        omega
      · split at hn <;> omega

end Usable

/-! ## Lookups -/

section Lookups

variable (cfg : Config) (fuel : ℕ) (u : Universe) (classid : ℕ)

/-- `_mulle_objc_universe_probe_infraclass_inline_nofast` -/
def probeInfraclassInlineNofast : Option ℕ :=
  probeUntil cfg.caches.shift u.classcache classid CacheEntry.hasNoKey (fun _ _ entry => entry.value) (fun _ => 0) fuel 0
    classid

/-- `_mulle_objc_universe_refresh_classcache_nodelegate`, with the offset of the entry for its address; `some none` for
`NULL`. -/
def refreshClasscacheNodelegate : Option (Option (ℕ × Universe)) :=
  match u.classtable.lookup classid with
  | none => some none
  | some infra =>
    (fillClasscacheOffset cfg.caches fuel infra (u.classid infra) fuel u.classcache).map fun (offset, classcache) =>
      some (offset, { u with classcache })

/-- `_mulle_objc_universe_lookup_infraclass_inline_nofast_nodelegate` -/
def lookupInfraclassInlineNofastNodelegate : Option (ℕ × Universe) :=
  match probeInfraclassInlineNofast cfg fuel u classid with
  | none => none
  | some infra =>
    if infra ≠ 0 then some (infra, u)
    else
      match refreshClasscacheNodelegate cfg fuel u classid with
      | none => none
      | some none => some (0, u)
      | some (some (offset, u)) => some ((u.classcache.entryAt cfg.caches.shift offset).value, u)

/-- `_mulle_objc_universe_lookup_infraclass_inline_nodelegate`, with `__MULLE_OBJC_FCS__` -/
def lookupInfraclassInlineNodelegate : Option (ℕ × Universe) :=
  match getFastclasstableIndex cfg classid with
  | some index => some (u.fastclasstable index, u)
  | none => lookupInfraclassInlineNofastNodelegate cfg fuel u classid

variable {cfg fuel u classid} {infra index : ℕ}

lemma lookup_fast (h : getFastclasstableIndex cfg classid = some index) :
    lookupInfraclassInlineNodelegate cfg fuel u classid = some (u.fastclasstable index, u) := by
  unfold lookupInfraclassInlineNodelegate
  rw [h]

section Nofast

variable (hnofast : getFastclasstableIndex cfg classid = none) (h : Usable cfg.caches.shift u.classcache)
  (hid : classid ≠ 0) (hfuel : u.classcache.entries.length < fuel)
include h hid hfuel

lemma probe_nofast : (probeInfraclassInlineNofast cfg fuel u classid).map nonNull = some (u.classcache.cached classid) :=
  h.toValid.read_cached hid h.hasEmptySlot (le_of_lt hfuel) .impcachepivot

include hnofast

lemma lookup_cached (hcached : u.classcache.cached classid = some infra) :
    lookupInfraclassInlineNodelegate cfg fuel u classid = some (infra, u) := by
  have hprobe := probe_nofast h hid hfuel
  rw [hcached] at hprobe
  obtain ⟨x, hx, hvalue⟩ := Option.map_eq_some_iff.1 hprobe
  unfold nonNull at hvalue
  split at hvalue
  · cases hvalue
  · rename_i hne
    cases hvalue
    unfold lookupInfraclassInlineNodelegate lookupInfraclassInlineNofastNodelegate
    simp only [hnofast, hx, ne_eq, hne, not_false_eq_true, if_true]

lemma lookup_uncached (hcached : u.classcache.cached classid = none) :
    lookupInfraclassInlineNodelegate cfg fuel u classid =
      match refreshClasscacheNodelegate cfg fuel u classid with
      | none => none
      | some none => some (0, u)
      | some (some (offset, u)) => some ((u.classcache.entryAt cfg.caches.shift offset).value, u) := by
  have hprobe := probe_nofast h hid hfuel
  rw [hcached] at hprobe
  obtain ⟨x, hx, hvalue⟩ := Option.map_eq_some_iff.1 hprobe
  unfold nonNull at hvalue
  split at hvalue
  · rename_i hzero
    unfold lookupInfraclassInlineNodelegate lookupInfraclassInlineNofastNodelegate
    simp only [hnofast, hx, ne_eq, hzero, not_true_eq_false, if_false]
  · cases hvalue

lemma lookup_missing (hcached : u.classcache.cached classid = none) (htable : u.table classid = none) :
    lookupInfraclassInlineNodelegate cfg fuel u classid = some (0, u) := by
  have hlookup : u.classtable.lookup classid = none := htable
  rw [lookup_uncached hnofast h hid hfuel hcached, refreshClasscacheNodelegate, hlookup]

/-- **A lookup after a miss yields the class in the classtable, or what is cached under that class's own classid**, and
caches the class there. -/
lemma lookup_found (hcached : u.classcache.cached classid = none) (htable : u.table classid = some infra)
    (hinfra : infra ≠ 0) (hinfraid : u.classid infra ≠ 0) :
    ∃ found classcache, lookupInfraclassInlineNodelegate cfg fuel u classid = some (found, { u with classcache }) ∧
      (found = infra ∨ u.classcache.cached (u.classid infra) = some found) ∧
      (∀ k ≠ 0, ∀ v, classcache.cached k = some v → u.classcache.cached k = some v ∨ (k = u.classid infra ∧ v = infra)) ∧
      (HasRoom cfg.caches u.classcache (u.classid infra) → Usable cfg.caches.shift classcache) := by
  have hlookup : u.classtable.lookup classid = some infra := htable
  obtain ⟨offset, classcache, hfill, hentry, hkeeps, hroom⟩ :=
    fillClasscacheOffset_spec h hinfraid hinfra hfuel (Nat.zero_lt_of_lt hfuel)
  rw [lookup_uncached hnofast h hid hfuel hcached, refreshClasscacheNodelegate, hlookup]
  simp only [hfill, Option.map_some]
  exact ⟨_, classcache, rfl, hentry, hkeeps, hroom⟩

end Nofast

end Lookups

end MulleObjcRuntime.Registry
