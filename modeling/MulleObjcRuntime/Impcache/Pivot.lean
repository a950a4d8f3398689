import MulleObjcRuntime.Impcache.Map

/-!
# Filling the cache of a pivot

`_mulle_objc_impcachepivot_fill` adds an entry to the cache that a pivot has, which it replaces by a larger one first if
need be.  Other threads may be faster for a while, then the call runs alone.

* `fillRound`, `impcachepivotFill` — the loop, with the variable that the test at its end is about;
* `Cache.Takes` — where the probe for an id ends, the entry can be, or it is there already;
* `fillsRight_iff` — when the call returns the entry it should return.
-/

namespace MulleObjcRuntime.Impcache

/-- What the variable `entry` holds: `NULL`, what was in its place before, or an entry, here its offset. -/
inductive EntryVariable
  | null
  | garbage
  | entry (offset : ℕ)
deriving DecidableEq, Repr

section Fill

variable (cfg : Config) (strategy : CacheSizing) (fuel imp uniqueid : ℕ)

/-- `_mulle_objc_impcachepivot_convenient_swap`, by the cache that is in the pivot then.  The new cache is punted if others
have been faster. -/
def impcachepivotConvenientSwap (others : Option Cache) (newCache : Cache) : Cache := others.getD newCache

/-- A round of the loop: the cache in the pivot and the variable.  If others are faster, they leave another cache or other
entries; to swap the cache or to add an entry fails. -/
def fillRound (others : Option Cache) (entry : EntryVariable) (cache : Cache) : Option (Cache × EntryVariable) :=
  if shouldGrow cache cfg.fillrate then
    -- this is where the source has a `continue`
    some (impcachepivotConvenientSwap others (growWithStrategy cfg.shift cache strategy), entry)
  else
    match others with
    | some cache => some (cache, .null)
    | none =>
      (addPointerEntry cfg.shift fuel cache imp uniqueid).map fun
        | none => (cache, .null)
        | some (offset, cache) => (cache, .entry offset)

/-- `_mulle_objc_impcachepivot_fill`, with a bound on its rounds: the cache in the pivot and the entry that is returned.
Nothing is assigned to `entry` ahead of the loop.  In the first rounds others are faster. -/
def impcachepivotFill : ℕ → List Cache → EntryVariable → Cache → Option (Cache × EntryVariable)
  | 0, _, _, _ => none
  | rounds + 1, others, entry, cache =>
    match fillRound cfg strategy fuel imp uniqueid others.head? entry cache with
    | none => none
    | some (cache, .null) => impcachepivotFill rounds others.tail .null cache
    | some (cache, entry) => some (cache, entry)

/-- What is returned is an entry of the cache in the pivot, with the id and the implementation. -/
def Returned.Right (r : Cache × EntryVariable) : Prop :=
  ∃ offset, r.2 = .entry offset ∧ offset / sizeofCacheentry cfg.shift < r.1.entries.length ∧
    r.1.entryAt cfg.shift offset = ⟨uniqueid, imp⟩

/-- The call returns, with enough rounds for its loops, and what it returns is right. -/
def FillsRight (others : List Cache) (entry : EntryVariable) (cache : Cache) : Prop :=
  ∃ bound, ∀ rounds ≥ bound, ∀ fuel ≥ bound, ∃ r,
    impcachepivotFill cfg strategy fuel imp uniqueid rounds others entry cache = some r ∧
      Returned.Right cfg imp uniqueid r

end Fill

/-- From the home of the id on, the first entry with the id or without a value is one without a value, or it has this
value. -/
def Cache.Takes (shift : ℕ) (cache : Cache) (imp uniqueid : ℕ) : Prop :=
  ∃ fuel d, Ends shift fuel cache uniqueid CacheEntry.hasNoValue uniqueid d ∧
    ((cache.entryFrom shift uniqueid d).value = 0 ∨ cache.entryFrom shift uniqueid d = ⟨uniqueid, imp⟩)

variable {cfg : Config} {strategy : CacheSizing} {shift fuel imp uniqueid d : ℕ} {cache : Cache}

/-! ## Adding -/

lemma probeEntryoffset_eq_some (h : cache.Laid shift) {offset : ℕ} :
    probeEntryoffset shift cache uniqueid fuel uniqueid = some offset ↔
      ∃ d, Ends shift fuel cache uniqueid CacheEntry.hasNoValue uniqueid d ∧
        offset = (uniqueid / 2 ^ shift + d) % cache.entries.length * 2 ^ shift := by
  rw [probeEntryoffset_eq_until shift cache uniqueid fuel 0, probeUntil_eq_some h]
  simp only [ite_self]

lemma Ends.mono {fuel' : ℕ} {free : CacheEntry → Bool} (h : Ends shift fuel cache uniqueid free uniqueid d)
    (hle : fuel ≤ fuel') : Ends shift fuel' cache uniqueid free uniqueid d :=
  ⟨h.lt.trans_le hle, h.passed, h.ends⟩

lemma Ends.unique {fuel' d' : ℕ} {free : CacheEntry → Bool} (h : Ends shift fuel cache uniqueid free uniqueid d)
    (h' : Ends shift fuel' cache uniqueid free uniqueid d') : d = d' := by
  have hnot : ∀ {fuel fuel' d d' : ℕ}, Ends shift fuel cache uniqueid free uniqueid d →
      Ends shift fuel' cache uniqueid free uniqueid d' → ¬ d < d' := by
    intro fuel fuel' d d' h h' hlt
    obtain ⟨hkey, hfree⟩ := h'.passed d hlt
    rcases h.ends with hends | hends
    · exact hkey hends
    · rw [hfree] at hends
      cases hends
  have hle := hnot h h'
  have hge := hnot h' h
  omega

/-- The entry is added where the probe ends, or it is there. -/
lemma addPointerEntry_of_ends (imp : ℕ) (h : cache.Laid cfg.shift)
    (hd : Ends cfg.shift fuel cache uniqueid CacheEntry.hasNoValue uniqueid d) :
    ∃ offset cache', addPointerEntry cfg.shift fuel cache imp uniqueid = some (some (offset, cache')) ∧
      (Returned.Right cfg imp uniqueid (cache', .entry offset) ↔ (cache.entryFrom cfg.shift uniqueid d).value = 0 ∨
        cache.entryFrom cfg.shift uniqueid d = ⟨uniqueid, imp⟩) := by
  have hprobe := (probeEntryoffset_eq_some h).mpr ⟨d, hd, rfl⟩
  have hentry : cache.entryAt cfg.shift ((uniqueid / 2 ^ cfg.shift + d) % cache.entries.length * 2 ^ cfg.shift) =
      cache.entryFrom cfg.shift uniqueid d := entryAt_pos cache uniqueid d
  have hlt := Nat.mod_lt (uniqueid / 2 ^ cfg.shift + d) h.length_pos
  generalize hoffset : (uniqueid / 2 ^ cfg.shift + d) % cache.entries.length * 2 ^ cfg.shift = offset at hprobe hentry
  have hindex : offset / sizeofCacheentry cfg.shift < cache.entries.length := by
    rw [← hoffset, sizeofCacheentry, Nat.mul_div_cancel _ (Nat.two_pow_pos cfg.shift)]
    exact hlt
  unfold addPointerEntry
  rw [hprobe, Option.map_some, hentry]
  by_cases hvalue : (cache.entryFrom cfg.shift uniqueid d).value = 0
  · -- the free entry is taken
    refine ⟨offset, cache.withEntry cfg.shift imp uniqueid offset, ?_, iff_of_true ?_ (Or.inl hvalue)⟩
    · simp only [hvalue, ne_eq, not_true_eq_false, if_false]
    · refine ⟨offset, rfl, ?_, ?_⟩
      · simpa [Cache.withEntry] using hindex
      · simp [Cache.withEntry, Cache.entryAt, hindex]
  · -- the probe has ended at the id
    have hkey : (cache.entryFrom cfg.shift uniqueid d).uniqueid = uniqueid := by
      refine hd.ends.resolve_right fun hfree => hvalue ?_
      simpa [CacheEntry.hasNoValue] using hfree
    refine ⟨offset, cache, ?_, ?_⟩
    · simp only [hvalue, hkey, ne_eq, not_false_eq_true, if_true]
    · rw [or_iff_right hvalue, ← hentry]
      constructor
      · rintro ⟨_, ⟨⟩, -, hright⟩
        exact hright
      · exact fun hright => ⟨offset, rfl, hindex, hright⟩

lemma addPointerEntry_eq_none (imp : ℕ) (h : cache.Laid shift)
    (hnone : ∀ d, ¬ Ends shift fuel cache uniqueid CacheEntry.hasNoValue uniqueid d) :
    addPointerEntry shift fuel cache imp uniqueid = none := by
  unfold addPointerEntry
  rw [Option.map_eq_none_iff, Option.eq_none_iff_forall_ne_some]
  intro offset hoffset
  obtain ⟨d, hd, -⟩ := (probeEntryoffset_eq_some h).mp hoffset
  exact hnone d hd

lemma takes_growWithStrategy : (growWithStrategy shift cache strategy).Takes shift imp uniqueid := by
  have hinstalled : (growWithStrategy shift cache strategy).Installed shift := impcacheNew_installed shift _
  have hmem := hinstalled.isLaid.entryFrom_mem uniqueid 0
  have hvalue : ((growWithStrategy shift cache strategy).entryFrom shift uniqueid 0).value = 0 := by
    rw [List.eq_of_mem_replicate hmem]
  refine ⟨1, 0, ⟨by omega, by omega, Or.inr ?_⟩, Or.inl hvalue⟩
  simpa [CacheEntry.hasNoValue] using hvalue

/-- A table that has an entry to spare takes an entry unless the id is cached with another value. -/
theorem Cache.Valid.takes_iff (h : cache.Valid shift) (hid : uniqueid ≠ 0) (hempty : cache.HasEmptySlot) :
    cache.Takes shift imp uniqueid ↔ ∀ v, cache.cached uniqueid = some v → v = imp := by
  obtain ⟨d, hd, hcached⟩ := (Probe.entryoffset.read_eq_some h.isLaid h.isKeyed hid).mp
    (h.read_cached hid hempty (le_refl _) .entryoffset)
  have hvalue : (cache.entryFrom shift uniqueid d).uniqueid = uniqueid → (cache.entryFrom shift uniqueid d).value ≠ 0 := by
    intro hkey
    exact h.isKeyed _ (h.isLaid.entryFrom_mem _ _) (by rwa [hkey])
  have htakes : ((cache.entryFrom shift uniqueid d).value = 0 ∨ cache.entryFrom shift uniqueid d = ⟨uniqueid, imp⟩) ↔
      ∀ v, cache.cached uniqueid = some v → v = imp := by
    rw [hcached]
    by_cases hkey : (cache.entryFrom shift uniqueid d).uniqueid = uniqueid
    · rw [if_pos hkey, or_iff_right (hvalue hkey)]
      generalize cache.entryFrom shift uniqueid d = entry at hkey ⊢
      obtain ⟨key, value⟩ := entry
      simp only [CacheEntry.mk.injEq, Option.some.injEq, forall_eq'] at hkey ⊢
      exact and_iff_right hkey
    · have hfree : (cache.entryFrom shift uniqueid d).value = 0 := by
        simpa [Probe.free, CacheEntry.hasNoValue] using hd.ends.resolve_left hkey
      rw [if_neg hkey]
      exact iff_of_true (Or.inl hfree) (by simp)
  rw [← htakes]
  constructor
  · rintro ⟨fuel', d', hd', hends⟩
    rwa [← hd.unique hd'] at hends
  · exact fun hends => ⟨_, d, hd, hends⟩

/-! ## Rounds -/

section Rounds

variable {rounds : ℕ} {others : List Cache} {entry : EntryVariable}

lemma impcachepivotFill_of_not_grow (hgrow : shouldGrow cache cfg.fillrate = false) :
    impcachepivotFill cfg strategy fuel imp uniqueid rounds others entry cache =
      impcachepivotFill cfg strategy fuel imp uniqueid rounds others .null cache := by
  cases rounds with
  | zero => rfl
  | succ rounds =>
    have hround : fillRound cfg strategy fuel imp uniqueid others.head? entry cache =
        fillRound cfg strategy fuel imp uniqueid others.head? .null cache := by
      unfold fillRound
      rw [hgrow]
      rfl
    rw [impcachepivotFill, impcachepivotFill, hround]

lemma fillsRight_of_not_grow (hgrow : shouldGrow cache cfg.fillrate = false) :
    FillsRight cfg strategy imp uniqueid others entry cache ↔ FillsRight cfg strategy imp uniqueid others .null cache := by
  unfold FillsRight
  simp only [impcachepivotFill_of_not_grow hgrow]

lemma impcachepivotFill_garbage (hgrow : shouldGrow cache cfg.fillrate = true) :
    ∃ cache', impcachepivotFill cfg strategy fuel imp uniqueid (rounds + 1) others .garbage cache =
      some (cache', .garbage) := by
  have hround : fillRound cfg strategy fuel imp uniqueid others.head? .garbage cache =
      some (impcachepivotConvenientSwap others.head? (growWithStrategy cfg.shift cache strategy), .garbage) :=
    if_pos hgrow
  rw [impcachepivotFill, hround]
  exact ⟨_, rfl⟩

lemma not_fillsRight_garbage (hgrow : shouldGrow cache cfg.fillrate = true) :
    ¬ FillsRight cfg strategy imp uniqueid others .garbage cache := by
  rintro ⟨bound, hbound⟩
  obtain ⟨r, hr, offset, hoffset, -⟩ := hbound (bound + 1) (by omega) bound (le_refl bound)
  obtain ⟨cache', hgarbage⟩ := impcachepivotFill_garbage hgrow
  rw [hgarbage] at hr
  cases hr
  cases hoffset

lemma impcachepivotFill_others (others : List Cache) (cache : Cache) :
    impcachepivotFill cfg strategy fuel imp uniqueid (others.length + rounds) others .null cache =
      impcachepivotFill cfg strategy fuel imp uniqueid rounds [] .null (others.getLastD cache) := by
  induction others generalizing cache with
  | nil => rw [List.length_nil, Nat.zero_add, List.getLastD_nil]
  | cons other others ih =>
    have hround : fillRound cfg strategy fuel imp uniqueid (some other) .null cache = some (other, .null) := by
      unfold fillRound
      split <;> rfl
    rw [List.length_cons, Nat.add_right_comm, impcachepivotFill, List.head?_cons, hround]
    simp only [List.tail_cons, ih, List.getLastD_cons]

lemma impcachepivotFill_grow (hgrow : shouldGrow cache cfg.fillrate = true) :
    impcachepivotFill cfg strategy fuel imp uniqueid (1 + rounds) [] .null cache =
      impcachepivotFill cfg strategy fuel imp uniqueid rounds [] .null (growWithStrategy cfg.shift cache strategy) := by
  have hround : fillRound cfg strategy fuel imp uniqueid none .null cache =
      some (growWithStrategy cfg.shift cache strategy, .null) := if_pos hgrow
  rw [Nat.add_comm, impcachepivotFill, List.head?_nil, hround]
  rfl

lemma impcachepivotFill_add (hgrow : shouldGrow cache cfg.fillrate = false) {offset : ℕ} {cache' : Cache}
    (hadd : addPointerEntry cfg.shift fuel cache imp uniqueid = some (some (offset, cache'))) :
    impcachepivotFill cfg strategy fuel imp uniqueid (rounds + 1) [] .null cache = some (cache', .entry offset) := by
  have hround : fillRound cfg strategy fuel imp uniqueid none .null cache = some (cache', .entry offset) := by
    simp [fillRound, hgrow, hadd]
  rw [impcachepivotFill, List.head?_nil, hround]

lemma fillsRight_congr {others' : List Cache} {entry' : EntryVariable} {cache' : Cache} (k : ℕ)
    (h : ∀ rounds fuel, impcachepivotFill cfg strategy fuel imp uniqueid (k + rounds) others entry cache =
      impcachepivotFill cfg strategy fuel imp uniqueid rounds others' entry' cache') :
    FillsRight cfg strategy imp uniqueid others entry cache ↔
      FillsRight cfg strategy imp uniqueid others' entry' cache' := by
  constructor
  · rintro ⟨bound, hbound⟩
    refine ⟨bound, fun rounds hrounds fuel hfuel => ?_⟩
    rw [← h]
    exact hbound (k + rounds) (by omega) fuel hfuel
  · rintro ⟨bound, hbound⟩
    refine ⟨k + bound, fun rounds hrounds fuel hfuel => ?_⟩
    obtain ⟨rounds, rfl⟩ := Nat.exists_eq_add_of_le (by omega : k ≤ rounds)
    rw [h]
    exact hbound rounds (by omega) fuel (by omega)

/-- The call by itself, on a cache that need not grow. -/
lemma fillsRight_alone (h : cache.Laid cfg.shift) (hgrow : shouldGrow cache cfg.fillrate = false) :
    FillsRight cfg strategy imp uniqueid [] .null cache ↔ cache.Takes cfg.shift imp uniqueid := by
  constructor
  · rintro ⟨bound, hbound⟩
    obtain ⟨r, hr, hright⟩ := hbound (bound + 1) (by omega) (bound + 1) (by omega)
    by_cases hends : ∃ d, Ends cfg.shift (bound + 1) cache uniqueid CacheEntry.hasNoValue uniqueid d
    · obtain ⟨d, hd⟩ := hends
      obtain ⟨offset, cache', hadd, hiff⟩ := addPointerEntry_of_ends imp h hd
      rw [impcachepivotFill_add hgrow hadd] at hr
      cases hr
      exact ⟨_, d, hd, hiff.mp hright⟩
    · have hround : fillRound cfg strategy (bound + 1) imp uniqueid none .null cache = none := by
        simp [fillRound, hgrow, addPointerEntry_eq_none imp h (not_exists.mp hends)]
      rw [impcachepivotFill, List.head?_nil, hround] at hr
      cases hr
  · rintro ⟨bound, d, hd, htakes⟩
    refine ⟨bound + 1, fun rounds hrounds fuel hfuel => ?_⟩
    obtain ⟨rounds, rfl⟩ := Nat.exists_eq_add_one.mpr (by omega : 0 < rounds)
    obtain ⟨offset, cache', hadd, hiff⟩ := addPointerEntry_of_ends imp h (hd.mono (by omega : bound ≤ fuel))
    exact ⟨_, impcachepivotFill_add hgrow hadd, hiff.mpr htakes⟩

lemma fillsRight_nil (h : cache.Laid cfg.shift) :
    FillsRight cfg strategy imp uniqueid [] .null cache ↔
      shouldGrow cache cfg.fillrate = true ∨ cache.Takes cfg.shift imp uniqueid := by
  cases hgrow : shouldGrow cache cfg.fillrate with
  | false => rw [fillsRight_alone h hgrow, or_iff_right Bool.false_ne_true]
  | true =>
    have hinstalled : (growWithStrategy cfg.shift cache strategy).Installed cfg.shift := impcacheNew_installed cfg.shift _
    have hsmall := not_grow_of_empty hinstalled (impcacheNew_n cfg.shift _)
    rw [fillsRight_congr 1 fun rounds fuel => impcachepivotFill_grow hgrow, fillsRight_alone hinstalled.isLaid hsmall]
    exact iff_of_true takes_growWithStrategy (Or.inl rfl)

end Rounds

/-! ## The call -/

/-- **The call returns the right entry exactly if there was a `NULL` in the place of its variable or the cache has not to
grow at once, and the cache it comes to in the end has to grow or takes the entry.** -/
theorem fillsRight_iff {others : List Cache} {entry : EntryVariable} (hentry : entry = .null ∨ entry = .garbage)
    (hcache : cache.Laid cfg.shift) (hothers : ∀ other ∈ others, other.Laid cfg.shift) :
    FillsRight cfg strategy imp uniqueid others entry cache ↔
      (entry = .null ∨ shouldGrow cache cfg.fillrate = false) ∧
        (shouldGrow (others.getLastD cache) cfg.fillrate = true ∨
          (others.getLastD cache).Takes cfg.shift imp uniqueid) := by
  have hlast : (others.getLastD cache).Laid cfg.shift := by
    rw [List.getLastD_eq_getLast?]
    cases hother : others.getLast? with
    | none => exact hcache
    | some other => exact hothers other (List.mem_of_getLast? hother)
  have hrounds := fun rounds fuel => @impcachepivotFill_others cfg strategy fuel imp uniqueid rounds others cache
  have hnull : FillsRight cfg strategy imp uniqueid others .null cache ↔ _ :=
    (fillsRight_congr others.length hrounds).trans (fillsRight_nil hlast)
  rcases hentry with rfl | rfl
  · rw [hnull, and_iff_right (Or.inl rfl)]
  · rw [or_iff_right (by decide)]
    cases hgrow : shouldGrow cache cfg.fillrate with
    | false =>
      rw [fillsRight_of_not_grow hgrow, hnull]
      exact (and_iff_right rfl).symm
    | true => exact iff_of_false (not_fillsRight_garbage hgrow) fun h => Bool.false_ne_true h.1.symm

lemma wideFillrate_le : 0 ≤ 90 := Nat.zero_le 90

/-- The configuration of a 64 bit runtime. -/
def wideConfig : Config := ⟨4, 0, wideFillrate_le, 4, 0⟩

/-- A cache with two of its four entries set, which has to grow. -/
def halfFull : Cache := ⟨2, 4, 48, [⟨0, 0⟩, ⟨16, 7⟩, ⟨0, 0⟩, ⟨48, 9⟩]⟩

lemma laid_halfFull : halfFull.Laid wideConfig.shift := ⟨2, rfl, rfl⟩

/-- With a `NULL` in the place of the variable, the cache grows and takes the entry. -/
theorem fillsRight_halfFull : FillsRight wideConfig .grow 5 32 [halfFull] .null halfFull :=
  (fillsRight_iff (Or.inl rfl) laid_halfFull (by simpa using laid_halfFull)).mpr ⟨Or.inl rfl, Or.inl (by decide)⟩

/-- With anything else in its place, this is what is returned, and the entry is not in the cache. -/
theorem not_fillsRight_halfFull :
    impcachepivotFill wideConfig .grow 8 5 32 8 [] .garbage halfFull = some (Cache.uncut 4 8, .garbage) ∧
      ¬ FillsRight wideConfig .grow 5 32 [] .garbage halfFull :=
  ⟨by decide +kernel, not_fillsRight_garbage (by decide)⟩

end MulleObjcRuntime.Impcache
