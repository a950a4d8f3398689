import MulleObjcRuntime.Kvccache.Defs

/-!
# What a key value coding cache has been told

* `History` — the infos that a class keeps, has freed and has lost, without a cache;
* `Tracks` — a class does what its history says, `Tracks.set`, `Tracks.invalidate`;
* `lookup_run` — a lookup finds what the history has kept;
* `infos_accounted` — every info and every cache is kept, freed, or lost, and only one of that.

What is said here of all runs is said of the code without its assertions, and of runs with up to `2 ^ 28` ids, in which
the masks fit 32 bits.
-/

namespace MulleObjcRuntime.Kvccache

open Impcache Registry

/-- What a class has been told: how large its cache is, the infos in it by their order, those that have been freed, and
those that are in none although they have been taken. -/
structure History where
  size : ℕ
  kept : List ℕ
  freed : List ℕ
  lost : List ℕ
deriving DecidableEq, Repr

section History

variable (idOf : ℕ → ℕ)

/-- An info with the id is kept. -/
def History.has (h : History) (id : ℕ) : Bool := h.kept.any fun info => idOf info == id

/-- An info is set.  A cache that is half full is thrown away with all that is kept; otherwise the first info of an id is
kept, and others are lost. -/
def History.set (h : History) (info : ℕ) : History :=
  if h.kept.length ≥ h.size / 2 then ⟨max 4 (h.size * 2), [info], h.freed ++ h.kept, h.lost⟩
  else if h.has idOf (idOf info) then { h with lost := h.lost ++ [info] }
  else { h with kept := h.kept ++ [info] }

def History.apply (h : History) : KvcStep → History
  | .set info => h.set idOf info
  | .invalidate => ⟨0, [], h.freed ++ h.kept, h.lost⟩

/-- The history of steps, from the first on. -/
def history (steps : List KvcStep) : History := steps.foldl (History.apply idOf) ⟨0, [], [], []⟩

/-- What a history answers for a key. -/
def History.answer (infos : ℕ → Kvcinfo) (h : History) (id : ℕ) (key : List Char) : KvcAnswer :=
  match h.kept.find? fun info => idOf info == id with
  | none => .null
  | some info => if (infos info).cKey = key then .info info else .conflict

end History

/-- The info that a step sets. -/
def KvcStep.info? : KvcStep → Option ℕ
  | .set info => some info
  | .invalidate => none

/-- The infos that steps set. -/
def setInfos (steps : List KvcStep) : List ℕ := steps.filterMap KvcStep.info?

/-- The infos in a cache. -/
def values (cache : Cache) : List ℕ :=
  (cache.entries.map CacheEntry.value).filter (· ≠ 0)

variable {cfg : Registry.Config} {shift fuel bits uniqueid info : ℕ} {infos : ℕ → Kvcinfo} {cache cache' : Cache}

/-! ## An info more in a cache -/

lemma values_set {i : ℕ} (hi : i < cache.entries.length) (hzero : (cache.entries[i]).value = 0) (hinfo : info ≠ 0) :
    (values { cache with n := cache.n + 1, entries := cache.entries.set i ⟨uniqueid, info⟩ }).Perm
      (info :: values cache) := by
  have hsplit : cache.entries = cache.entries.take i ++ cache.entries[i] :: cache.entries.drop (i + 1) := by
    rw [← List.drop_eq_getElem_cons hi, List.take_append_drop]
  have hset := List.set_eq_take_append_cons_drop (l := cache.entries) (i := i) (a := ⟨uniqueid, info⟩)
  rw [if_pos hi] at hset
  unfold values
  rw [hset]
  nth_rewrite 3 [hsplit]
  simp only [List.map_append, List.map_cons, List.filter_append, hzero]
  rw [List.filter_cons_of_pos (by simpa using hinfo), List.filter_cons_of_neg (by simp)]
  exact List.perm_middle

lemma hasEmptySlot_of_lt (h : cache.Valid shift) (hn : cache.n < cache.entries.length) : cache.HasEmptySlot := by
  by_contra hfull
  have hall : ∀ e ∈ cache.entries, e.uniqueid ≠ 0 := fun e he hkey => hfull ⟨e, he, hkey⟩
  have hcount : cache.n = cache.entries.length := by
    rw [h.count, List.countP_eq_length]
    intro e he
    simpa using hall e he
  omega

/-- **What an info more makes of a cache with an empty slot**: if its id is new it is there, and if not nothing
changes. -/
lemma adds (h : cache.Valid shift) (hempty : cache.HasEmptySlot) (hid : uniqueid ≠ 0) (hinfo : info ≠ 0)
    (hfuel : cache.entries.length ≤ fuel) :
    ∃ cache', (∀ adder : Adder, adder.add shift fuel cache info uniqueid = some cache') ∧ cache'.size = cache.size ∧
      ((cache.cached uniqueid ≠ none ∧ cache' = cache) ∨
        (cache.cached uniqueid = none ∧ (values cache').Perm (info :: values cache))) := by
  obtain ⟨r, hr⟩ := Option.ne_none_iff_exists'.1 (h.add_ne_none info hid hempty hfuel)
  rcases r with _ | cache'
  · exact absurd hr h.add_ne_taken
  refine ⟨cache', fun adder => ?_, (h.add hid hinfo hr).2.2.1, ?_⟩
  · rw [h.adder_eq, hr]
    rfl
  · obtain ⟨i, hi, hprobe, ⟨hkey, -, hcache⟩ | ⟨hfree, hcache⟩⟩ := h.add_eq hr
    · cases hcache
      refine Or.inl ⟨?_, rfl⟩
      rw [Ne, ← absent_iff hid]
      intro habsent
      refine habsent i hi (uniqueid, (cache.entries[i]).value) ?_ rfl
      rw [Option.mem_def, slot_of_lt hi, content_eq_some, hkey]
      exact ⟨hid, rfl⟩
    · cases hcache
      refine Or.inr ⟨(absent_iff hid).1 (h.chained.absent_of_free hprobe hfree), ?_⟩
      rw [slot_of_lt hi, content_eq_none] at hfree
      exact values_set hi ((h.keyed _ (List.getElem_mem hi)).1 hfree) hinfo

/-! ## A class and its history -/

lemma keyid_ne_zero (cfg : Registry.Config) (key : List Char) : (uniqueidFromString cfg key).toNat ≠ 0 := by
  have hne : uniqueidFromString cfg key ≠ 0 := by
    unfold uniqueidFromString
    split
    · decide
    · simp only
      split
      · decide
      · rename_i hne
        exact hne
  intro hzero
  exact hne (BitVec.eq_of_toNat_eq hzero)

/-- The infos that are kept, as what has been added to a cache. -/
def additions (cfg : Registry.Config) (infos : ℕ → Kvcinfo) (kept : List ℕ) : List Addition :=
  kept.map fun info => ⟨.pointerEntry, info, keyid cfg infos info⟩

lemma firstAdded_additions (kept : List ℕ) (id : ℕ) :
    firstAdded (additions cfg infos kept) id = kept.find? fun info => keyid cfg infos info == id := by
  unfold firstAdded additions
  rw [List.find?_map, Option.map_map]
  simp [Function.comp_def]

/-- **A class does what its history says.** -/
structure Tracks (cfg : Registry.Config) (shift : ℕ) (infos : ℕ → Kvcinfo) (cls : KvcClass) (h : History) : Prop where
  size_eq : cls.cache.size = h.size
  holds : ∃ bits, Holds shift bits (additions cfg infos h.kept) cls.cache ∧
    (cls.pivot = none ∧ h.size = 0 ∧ h.kept = [] ∧ bits = 0 ∨ cls.pivot ≠ none ∧ 2 ≤ bits ∧ h.size = 2 ^ bits)
  half : 2 * h.kept.length ≤ h.size
  distinct : (h.kept.map (keyid cfg infos)).Nodup
  values_perm : (values cls.cache).Perm h.kept
  freed_perm : cls.freedInfos.Perm h.freed
  caches_perm : (cls.freedCaches ++ cls.pivot.toList).Perm (List.range cls.caches)

lemma tracks_init : Tracks cfg shift infos KvcClass.init ⟨0, [], [], []⟩ := by
  refine ⟨rfl, ⟨0, ⟨zeroCache_valid shift, rfl, ?_, rfl⟩, Or.inl ⟨rfl, rfl, rfl, rfl⟩⟩, le_rfl, by simp, ?_, .refl _, ?_⟩
  · intro k hk
    rw [KvcClass.init, zeroCache_cached k hk]
    rfl
  · simp [KvcClass.init, values, zeroCache]
  · simp [KvcClass.init]

namespace Tracks

variable {cls : KvcClass} {h h' : History}

lemma n_eq (ht : Tracks cfg shift infos cls h) : cls.cache.n = h.kept.length := by
  obtain ⟨bits, hholds, -⟩ := ht.holds
  have hids : (additions cfg infos h.kept).map Addition.uniqueid = h.kept.map (keyid cfg infos) := by
    simp [additions, Function.comp_def]
  rw [hholds.n_eq, hids, List.toFinset_card_of_nodup ht.distinct, List.length_map]

lemma cached_eq (ht : Tracks cfg shift infos cls h) {id : ℕ} (hid : id ≠ 0) :
    cls.cache.cached id = h.kept.find? fun info => keyid cfg infos info == id := by
  obtain ⟨bits, hholds, -⟩ := ht.holds
  rw [hholds.cached_eq id hid, firstAdded_additions]

lemma hasEmptySlot (ht : Tracks cfg shift infos cls h) : cls.cache.HasEmptySlot := by
  obtain ⟨bits, hholds, hpivot⟩ := ht.holds
  refine hasEmptySlot_of_lt hholds.valid ?_
  have hhalf := ht.half
  have hpos := Nat.two_pow_pos bits
  rw [ht.n_eq, hholds.length_eq]
  rcases hpivot with ⟨-, hsize, -⟩ | ⟨-, -, hsize⟩ <;> omega

/-- **A lookup answers what the history does.** -/
lemma lookup (ht : Tracks cfg shift infos cls h) (hinfos : ∀ info ∈ h.kept, info ≠ 0)
    (hfuel : cls.cache.entries.length ≤ fuel) (key : List Char) :
    lookupKvcinfo cfg shift fuel infos cls key =
      some (h.answer (keyid cfg infos) infos (uniqueidFromString cfg key).toNat key) := by
  obtain ⟨bits, hholds, -⟩ := ht.holds
  have hid := keyid_ne_zero cfg key
  have hread := hholds.valid.read_cached hid ht.hasEmptySlot hfuel .pointer
  rw [ht.cached_eq hid] at hread
  obtain ⟨info, hprobe, hinfo⟩ := Option.map_eq_some_iff.1 hread
  unfold lookupKvcinfo History.answer
  rw [hprobe, Option.map_some]
  congr 1
  rcases hfind : h.kept.find? fun info => keyid cfg infos info == (uniqueidFromString cfg key).toNat with _ | found
  · rw [hfind] at hinfo
    have hzero : info = 0 := by
      unfold nonNull at hinfo
      split at hinfo
      · assumption
      · cases hinfo
    rw [if_pos hzero]
  · rw [hfind] at hinfo
    have hne := hinfos found (List.mem_of_find?_eq_some hfind)
    have heq : info = found ∧ info ≠ 0 := by
      unfold nonNull at hinfo
      split at hinfo
      · cases hinfo
      · rename_i hne
        exact ⟨Option.some_inj.1 hinfo, hne⟩
    obtain ⟨rfl, hne⟩ := heq
    rw [if_neg hne]
    by_cases hkey : (infos info).cKey = key
    · simp [hkey]
    · simp [hkey]

/-- What is thrown away when another cache, or none, takes the place of the one of the class. -/
lemma swapped (ht : Tracks cfg shift infos cls h) {pivot : Option ℕ} {caches : ℕ}
    (hcaches : (cls.freedCaches ++ cls.pivot.toList ++ pivot.toList).Perm (List.range caches))
    (hholds : ∃ bits, Holds shift bits (additions cfg infos h'.kept) cache ∧
      (pivot = none ∧ h'.size = 0 ∧ h'.kept = [] ∧ bits = 0 ∨ pivot ≠ none ∧ 2 ≤ bits ∧ h'.size = 2 ^ bits))
    (hsize : cache.size = h'.size) (hhalf : 2 * h'.kept.length ≤ h'.size)
    (hdistinct : (h'.kept.map (keyid cfg infos)).Nodup) (hvalues : (values cache).Perm h'.kept)
    (hfreed : h'.freed = h.freed ++ h.kept) :
    Tracks cfg shift infos
      (match cls.pivot with
        | none => { cls with cache, pivot, caches }
        | some number => { cls with cache, pivot, caches }.abafree cls.cache number) h' := by
  rcases hpivot : cls.pivot with _ | number
  · rw [hpivot] at hcaches
    have hkept : h.kept = [] := by
      obtain ⟨bits, -, ⟨-, -, hkept, -⟩ | ⟨hne, -⟩⟩ := ht.holds
      · exact hkept
      · exact absurd hpivot hne
    refine ⟨hsize, hholds, hhalf, hdistinct, hvalues, ?_, by simpa using hcaches⟩
    rw [hfreed, hkept, List.append_nil]
    exact ht.freed_perm
  · rw [hpivot] at hcaches
    refine ⟨hsize, hholds, hhalf, hdistinct, hvalues, ?_, by simpa [KvcClass.abafree] using hcaches⟩
    rw [hfreed]
    exact ht.freed_perm.append ht.values_perm

lemma two_pow_ge {bits : ℕ} (hbits : 2 ≤ bits) : 4 ≤ 2 ^ bits :=
  calc 4 = 2 ^ 2 := rfl
    _ ≤ 2 ^ bits := Nat.pow_le_pow_right (by omega) hbits

lemma cacheNewUncut_eq (ht : Tracks cfg shift infos cls h) :
    ∃ bits, 2 ≤ bits ∧ max 4 (h.size * 2) = 2 ^ bits ∧ cacheNewUncut shift (cls.cache.size * 2) = Cache.uncut shift (2 ^ bits) := by
  obtain ⟨bits, -, ⟨-, hsize, -⟩ | ⟨-, hbits, hsize⟩⟩ := ht.holds
  · refine ⟨2, le_rfl, by rw [hsize]; rfl, ?_⟩
    rw [ht.size_eq, hsize]
    rfl
  · have hpow := two_pow_ge hbits
    refine ⟨bits + 1, by omega, by rw [Nat.pow_succ, hsize]; omega, ?_⟩
    rw [ht.size_eq, hsize, cacheNewUncut, if_neg (by unfold minCacheSize; omega), Nat.pow_succ]

/-- **An info is set as the history has it, and always with success.** -/
lemma set (ht : Tracks cfg shift infos cls h) (hinfo : info ≠ 0) (hfuel : max 4 (h.size * 2) ≤ fuel) :
    ∃ cls', setKvcinfo cfg shift fuel infos cls info = some (0, cls') ∧
      Tracks cfg shift infos cls' (h.set (keyid cfg infos) info) := by
  have hid : keyid cfg infos info ≠ 0 := keyid_ne_zero cfg _
  unfold setKvcinfo History.set
  rw [ht.n_eq, ht.size_eq, Nat.shiftRight_eq_div_pow, Nat.pow_one]
  by_cases hhalf : h.kept.length ≥ h.size / 2
  · -- a new cache with this info only
    rw [if_pos hhalf, if_pos hhalf]
    obtain ⟨bits, hbits, hmax, hnew⟩ := ht.cacheNewUncut_eq
    have hpow := two_pow_ge hbits
    have hempty := holds_uncut shift bits
    have hfuel' : (Cache.uncut shift (2 ^ bits)).entries.length ≤ fuel := by
      rw [hempty.length_eq, ← hmax]
      exact hfuel
    obtain ⟨cache', hadd, hsize, hvalues⟩ := adds hempty.valid
      (hasEmptySlot_of_lt hempty.valid (by simp [Cache.uncut])) hid hinfo hfuel'
    have hvalues := hvalues.resolve_left fun hcached => hcached.1 (hempty.valid.cached_of_empty rfl hid)
    obtain ⟨⟨offset, _⟩, hentry, rfl⟩ := Option.map_eq_some_iff.1 (hadd .pointerInactive)
    refine ⟨_, by rw [addCacheentryBySwappingCaches, hnew, hentry]; rfl, ?_⟩
    refine ht.swapped ?_ ⟨bits, ?_, Or.inr ⟨by simp, hbits, hmax⟩⟩ ?_ ?_ ?_ ?_ rfl
    · rw [List.range_succ]
      exact ht.caches_perm.append_right _
    · exact hempty.add hid hinfo (hadd .pointerEntry)
    · rw [hsize, hmax]
      rfl
    · simp only [List.length_singleton]
      omega
    · simp
    · simpa [values, Cache.uncut] using hvalues.2
  · -- the cache has room
    rw [if_neg hhalf, if_neg hhalf]
    obtain ⟨bits, hholds, hpivot⟩ := ht.holds
    have hpivot : cls.pivot ≠ none ∧ 2 ≤ bits ∧ h.size = 2 ^ bits := by
      refine hpivot.resolve_left ?_
      rintro ⟨-, hsize, -⟩
      omega
    have hfuel' : cls.cache.entries.length ≤ fuel := by
      rw [hholds.length_eq, ← hpivot.2.2]
      omega
    obtain ⟨cache', hadd, hsize, hcases⟩ := adds hholds.valid ht.hasEmptySlot hid hinfo hfuel'
    have hentry : ∃ offset, addPointerEntry shift fuel cls.cache info (keyid cfg infos info) =
        some (some (offset, cache')) := by
      obtain ⟨⟨offset, _⟩, hentry, rfl⟩ := Option.map_eq_some_iff.1 (hadd .pointerEntry)
      exact ⟨offset, Option.join_eq_some_iff.1 hentry⟩
    obtain ⟨offset, hentry⟩ := hentry
    refine ⟨{ cls with cache := cache' }, by rw [hentry]; rfl, ?_⟩
    have hhas : h.has (keyid cfg infos) (keyid cfg infos info) = true ↔ cls.cache.cached (keyid cfg infos info) ≠ none := by
      rw [ht.cached_eq hid, History.has]
      simp
    rcases hcases with ⟨hcached, rfl⟩ | ⟨hcached, hvalues⟩
    · -- an info with the id is there
      rw [if_pos (hhas.2 hcached)]
      exact ⟨ht.size_eq, ⟨bits, hholds, Or.inr hpivot⟩, ht.half, ht.distinct, ht.values_perm, ht.freed_perm,
        ht.caches_perm⟩
    · rw [if_neg (fun hh => hhas.1 hh hcached)]
      refine ⟨by rw [hsize, ht.size_eq], ⟨bits, ?_, Or.inr hpivot⟩, ?_, ?_, ?_, ht.freed_perm, ht.caches_perm⟩
      · rw [additions, List.map_append]
        exact hholds.add (a := ⟨.pointerEntry, info, keyid cfg infos info⟩) hid hinfo (hadd .pointerEntry)
      · simp only [List.length_append, List.length_singleton]
        omega
      · rw [ht.cached_eq hid, List.find?_eq_none] at hcached
        simp only [List.map_append, List.map_cons, List.map_nil, List.nodup_append, List.nodup_singleton]
        refine ⟨ht.distinct, trivial, ?_⟩
        rintro _ hmem _ hlast rfl
        obtain ⟨other, hother, heq⟩ := List.mem_map.1 hmem
        rw [List.mem_singleton] at hlast
        exact hcached other hother (by simp [heq, hlast])
      · exact hvalues.trans ((ht.values_perm.cons info).trans (List.perm_append_singleton info h.kept).symm)

/-- An invalidation. -/
lemma invalidate (ht : Tracks cfg shift infos cls h) :
    Tracks cfg shift infos (invalidateKvccache cls).2 (h.apply (keyid cfg infos) .invalidate) := by
  rcases hpivot : cls.pivot with _ | number
  · -- nothing has been kept
    obtain ⟨bits, hholds, ⟨-, hsize, hkept, -⟩ | ⟨hne, -⟩⟩ := ht.holds
    · have happly : h.apply (keyid cfg infos) .invalidate = h := by
        rw [History.apply, hkept, List.append_nil, ← hsize, ← hkept]
      rw [invalidateKvccache, hpivot, happly]
      exact ht
    · exact absurd hpivot hne
  · have hzero : Tracks cfg shift infos KvcClass.init ⟨0, [], [], []⟩ := tracks_init
    have hcaches : (cls.freedCaches ++ cls.pivot.toList ++ (none : Option ℕ).toList).Perm (List.range cls.caches) := by
      simpa using ht.caches_perm
    have hswapped : Tracks cfg shift infos _ (h.apply (keyid cfg infos) .invalidate) :=
      ht.swapped hcaches hzero.holds rfl le_rfl hzero.distinct hzero.values_perm rfl
    rw [hpivot] at hswapped
    rw [invalidateKvccache, hpivot]
    exact hswapped

end Tracks

/-! ## Runs -/

lemma History.size_apply_le (idOf : ℕ → ℕ) (h : History) (step : KvcStep) {k : ℕ} (hk : h.size ≤ 2 * 2 ^ k) :
    (h.apply idOf step).size ≤ 2 * 2 ^ (k + 1) := by
  have hpos := Nat.two_pow_pos k
  cases step with
  | set info =>
    unfold apply History.set
    simp only
    rw [Nat.pow_succ]
    split
    · simp only
      omega
    · split <;> (simp only; omega)
  | invalidate => exact Nat.zero_le _

lemma History.kept_subset (idOf : ℕ → ℕ) (h : History) (step : KvcStep) :
    ∀ info ∈ (h.apply idOf step).kept, info ∈ h.kept ∨ step = .set info := by
  cases step with
  | set new =>
    intro info hinfo
    unfold apply History.set at hinfo
    simp only at hinfo
    split at hinfo
    · simp only [List.mem_singleton] at hinfo
      exact Or.inr (by rw [hinfo])
    · split at hinfo
      · exact Or.inl hinfo
      · simp only [List.mem_append, List.mem_singleton] at hinfo
        exact hinfo.imp_right fun heq => by rw [heq]
  | invalidate =>
    intro info hinfo
    cases hinfo

/-- **A class does what its history says, in the course of time.** -/
theorem run_tracks {steps : List KvcStep} (hinfos : ∀ info ∈ setInfos steps, info ≠ 0)
    (hfuel : 2 * 2 ^ steps.length ≤ fuel) :
    ∃ cls, KvcClass.run cfg shift fuel infos KvcClass.init steps = some cls ∧
      Tracks cfg shift infos cls (history (keyid cfg infos) steps) ∧
      (history (keyid cfg infos) steps).size ≤ 2 * 2 ^ steps.length ∧
      ∀ info ∈ (history (keyid cfg infos) steps).kept, info ≠ 0 := by
  induction steps using List.reverseRecOn with
  | nil => exact ⟨_, rfl, tracks_init, by simp [history], by simp [history]⟩
  | append_singleton steps step ih =>
    rw [List.length_append, List.length_singleton] at hfuel
    have hpow : 2 ^ (steps.length + 1) = 2 ^ steps.length * 2 := Nat.pow_succ _ _
    have hpos := Nat.two_pow_pos steps.length
    have hbefore : ∀ info ∈ setInfos steps, info ≠ 0 := fun info hinfo =>
      hinfos info (by rw [setInfos, List.filterMap_append]; exact List.mem_append_left _ hinfo)
    obtain ⟨cls, hrun, ht, hsize, hkept⟩ := ih hbefore (by omega)
    have hlast : ∀ info, step = .set info → info ≠ 0 := by
      rintro info rfl
      exact hinfos info (by simp [setInfos, KvcStep.info?])
    have hhistory : history (keyid cfg infos) (steps ++ [step]) =
        (history (keyid cfg infos) steps).apply (keyid cfg infos) step := by simp [history]
    have hstep : ∃ cls', step.apply cfg shift fuel infos cls = some cls' ∧
        Tracks cfg shift infos cls' ((history (keyid cfg infos) steps).apply (keyid cfg infos) step) := by
      cases step with
      | set info =>
        obtain ⟨cls', hset, ht'⟩ := ht.set (hlast info rfl) (by omega : _ ≤ fuel)
        exact ⟨cls', by rw [KvcStep.apply, hset]; rfl, ht'⟩
      | invalidate => exact ⟨_, rfl, ht.invalidate⟩
    obtain ⟨cls', hstep, ht'⟩ := hstep
    refine ⟨cls', ?_, by rwa [hhistory], ?_, ?_⟩
    · unfold KvcClass.run at hrun ⊢
      rw [List.foldlM_append, hrun]
      simpa using hstep
    · rw [hhistory, List.length_append, List.length_singleton]
      exact History.size_apply_le _ _ _ hsize
    · intro info hinfo
      rw [hhistory] at hinfo
      rcases History.kept_subset _ _ _ info hinfo with hinfo | hinfo
      · exact hkept info hinfo
      · exact hlast info hinfo

/-- **A lookup finds the first info of its key that the cache has been told since it was made**, or tells that it is one
of another key. -/
theorem lookup_run {steps : List KvcStep} (hinfos : ∀ info ∈ setInfos steps, info ≠ 0)
    (hfuel : 2 * 2 ^ steps.length ≤ fuel) :
    ∃ cls, KvcClass.run cfg shift fuel infos KvcClass.init steps = some cls ∧
      ∀ key, lookupKvcinfo cfg shift fuel infos cls key =
        some ((history (keyid cfg infos) steps).answer (keyid cfg infos) infos (uniqueidFromString cfg key).toNat key) := by
  obtain ⟨cls, hrun, ht, hsize, hkept⟩ := run_tracks hinfos hfuel
  refine ⟨cls, hrun, fun key => ht.lookup hkept ?_ key⟩
  have hpos := Nat.two_pow_pos steps.length
  obtain ⟨bits, hholds, ⟨-, -, -, hbits⟩ | ⟨-, -, hbits⟩⟩ := ht.holds
  · rw [hholds.length_eq, hbits]
    omega
  · rw [hholds.length_eq]
    omega

/-! ## What becomes of the infos -/

/-- What is set is kept, freed or lost. -/
lemma history_perm (idOf : ℕ → ℕ) (steps : List KvcStep) :
    ((history idOf steps).kept ++ (history idOf steps).freed ++ (history idOf steps).lost).Perm (setInfos steps) := by
  induction steps using List.reverseRecOn with
  | nil => exact .refl _
  | append_singleton steps step ih =>
    have hhistory : history idOf (steps ++ [step]) = (history idOf steps).apply idOf step := by simp [history]
    have hset : setInfos (steps ++ [step]) = setInfos steps ++ step.info?.toList := by
      cases step <;> simp [setInfos, KvcStep.info?]
    rw [hhistory, hset]
    generalize history idOf steps = h at ih
    rw [List.perm_iff_count] at ih ⊢
    intro info
    have hcount := ih info
    simp only [List.count_append] at hcount ⊢
    cases step with
    | invalidate =>
      simp only [History.apply, KvcStep.info?, Option.toList_none, List.count_nil, List.count_append]
      omega
    | set new =>
      simp only [History.apply, History.set, KvcStep.info?, Option.toList_some]
      split
      · simp only [List.count_append]
        omega
      · split <;> (simp only [List.count_append]; omega)

/-- **Every info that has been set is in the cache, has been freed, or is lost, and only one of that**; and every cache
that has been made is the one of the class or has been freed, once.  A call tells none of that: it returns `0`. -/
theorem infos_accounted {steps : List KvcStep} (hinfos : ∀ info ∈ setInfos steps, info ≠ 0)
    (hfuel : 2 * 2 ^ (steps.length + 1) ≤ fuel) :
    ∃ cls, KvcClass.run cfg shift fuel infos KvcClass.init steps = some cls ∧
      (values cls.cache ++ cls.freedInfos ++ (history (keyid cfg infos) steps).lost).Perm (setInfos steps) ∧
      (cls.freedCaches ++ cls.pivot.toList).Perm (List.range cls.caches) ∧
      ∀ info ≠ 0, ∃ cls', setKvcinfo cfg shift fuel infos cls info = some (0, cls') := by
  have hpow : 2 ^ (steps.length + 1) = 2 ^ steps.length * 2 := Nat.pow_succ _ _
  have hpos := Nat.two_pow_pos steps.length
  obtain ⟨cls, hrun, ht, hsize, -⟩ := run_tracks hinfos (by omega : 2 * 2 ^ steps.length ≤ fuel)
  refine ⟨cls, hrun, ?_, ht.caches_perm, ?_⟩
  · exact ((ht.values_perm.append ht.freed_perm).append_right _).trans (history_perm _ steps)
  · intro info hinfo
    obtain ⟨cls', hset, -⟩ := ht.set hinfo (by omega : _ ≤ fuel)
    exact ⟨cls', hset⟩

/-- Two keys with one hash, and another one. -/
def sampleInfos : ℕ → Kvcinfo
  | 1 => kvcinfoNew ['c', 'o', 's', 't', 'a', 'r', 'r', 'i', 'n', 'g']
  | 2 => kvcinfoNew ['l', 'i', 'q', 'u', 'i', 'd']
  | _ => kvcinfoNew ['n', 'a', 'm', 'e']

/-- The second info is lost, the first one is freed, and the third one stays. -/
def sampleSteps : List KvcStep := [.set 1, .set 2, .invalidate, .set 3]

theorem lookup_run_sample :
    ∃ cls, KvcClass.run Registry.sampleConfig 4 32 sampleInfos KvcClass.init sampleSteps = some cls ∧
      ∀ key, lookupKvcinfo Registry.sampleConfig 4 32 sampleInfos cls key =
        some ((history (keyid Registry.sampleConfig sampleInfos) sampleSteps).answer (keyid Registry.sampleConfig sampleInfos) sampleInfos
          (uniqueidFromString Registry.sampleConfig key).toNat key) :=
  lookup_run (by decide) (by decide)

theorem infos_accounted_sample :
    ∃ cls, KvcClass.run Registry.sampleConfig 4 64 sampleInfos KvcClass.init sampleSteps = some cls ∧
      (values cls.cache ++ cls.freedInfos ++ (history (keyid Registry.sampleConfig sampleInfos) sampleSteps).lost).Perm
        (setInfos sampleSteps) ∧
      (cls.freedCaches ++ cls.pivot.toList).Perm (List.range cls.caches) ∧
      ∀ info ≠ 0, ∃ cls', setKvcinfo Registry.sampleConfig 4 64 sampleInfos cls info = some (0, cls') :=
  infos_accounted (by decide) (by decide)

example : history (keyid Registry.sampleConfig sampleInfos) sampleSteps = ⟨4, [3], [1], [2]⟩ := by decide

end MulleObjcRuntime.Kvccache
