import MulleObjcRuntime.Caches.Methods

/-!
# The statistics of a cache

`mulle_objc_cache_calculate_hits` counts how far the entries of a cache are from where they are looked for.

* `calculateHits` — `mulle_objc_cache_calculate_hits`;
* `probeRounds` — how many rounds the loop of a call makes until it finds an id;
* `CountsProbes` — what is counted are these rounds;
* `hits_count_probes` — so it is for the cache of every class, in every state of a run.
-/

namespace MulleObjcRuntime.Caches

open Classes Impcache Dispatch Lib.OpenAddressing Lib.Runs

/-- What is counted: all entries, and those that are found at once, in the second and in the third round, or later. -/
structure Hits where
  total : ℕ
  counts : ℕ → ℕ

section Hits

variable (shift : ℕ) (cache : Cache)

/-- How many entries an entry is away from where it is looked for first. -/
def steps (uniqueid offset : ℕ) : ℕ :=
  let expected := uniqueid &&& cache.mask
  -- wrap around
  (if expected > offset then cache.size * sizeofCacheentry shift - expected + offset else offset - expected) /
    sizeofCacheentry shift

/-- The loop of `mulle_objc_cache_calculate_hits`. -/
def hitsLoop : List CacheEntry → ℕ → Hits → Hits
  | [], _, hits => hits
  | p :: rest, offset, hits =>
    hitsLoop rest (offset + sizeofCacheentry shift)
      (if p.uniqueid ≠ 0 then
        let steps := steps shift cache p.uniqueid offset
        let steps := if steps > 3 then 3 else steps
        ⟨hits.total + 1, Function.update hits.counts steps (hits.counts steps + 1)⟩
      else hits)

/-- `mulle_objc_cache_calculate_hits` -/
def calculateHits : Hits :=
  if cache.size = 0 then ⟨0, fun _ => 0⟩
  else if cache.n = 0 then ⟨0, fun _ => 0⟩
  else hitsLoop shift cache cache.entries 0 ⟨0, fun _ => 0⟩

/-- The rounds that the loop of a call makes until it finds an id. -/
def probeRounds (uniqueid : ℕ) : ℕ :=
  ((List.range (cache.entries.length + 1)).find? fun fuel =>
    (probeLoop shift cache uniqueid fuel uniqueid).isSome).getD 0

/-- **What is counted are the rounds that calls make**: each cached id is counted once, at the number of rounds after the
first one, or at 3 if there are more. -/
structure CountsProbes : Prop where
  rounds : ∀ uniqueid ≠ 0, cache.cached uniqueid ≠ none → ∀ fuel,
    probeLoop shift cache uniqueid fuel uniqueid =
      if probeRounds shift cache uniqueid ≤ fuel then some (cache.cached uniqueid) else none
  total : (calculateHits shift cache).total = cache.n
  found : ∀ k < 3, (calculateHits shift cache).counts k =
    cache.entries.countP fun e => e.uniqueid ≠ 0 ∧ probeRounds shift cache e.uniqueid = k + 1
  later : (calculateHits shift cache).counts 3 =
    cache.entries.countP fun e => e.uniqueid ≠ 0 ∧ 3 < probeRounds shift cache e.uniqueid

end Hits

variable {shift uniqueid i d fuel : ℕ} {cache : Cache}

/-! ## Rounds -/

/-- How many slots of a chain come before the one of an id. -/
def Dist (shift : ℕ) (cache : Cache) (uniqueid i d : ℕ) : Prop :=
  (home shift uniqueid + d) % cache.entries.length = i ∧
    ∀ j < d, ¬ Stops cache.slot uniqueid ((home shift uniqueid + j) % cache.entries.length)

lemma exists_dist (h : cache.Valid shift) (hi : i < cache.entries.length) (hkey : (cache.entries[i]).uniqueid ≠ 0) :
    ∃ d < cache.entries.length, Dist shift cache (cache.entries[i]).uniqueid i d := by
  have hslot : cache.slot i = some ((cache.entries[i]).uniqueid, (cache.entries[i]).value) := by
    rw [slot_of_lt hi, content_eq_some]
    exact ⟨hkey, rfl⟩
  obtain ⟨d, hd, hbefore⟩ := h.chained i hi _ hslot
  exact ⟨d, Chained.dist_lt hi hd hslot hbefore, hd, hbefore⟩

/-- The loop of a call needs one round more than there are slots before. -/
lemma probeLoop_dist (h : cache.Valid shift) (hi : i < cache.entries.length) (hkey : (cache.entries[i]).uniqueid ≠ 0)
    (hdist : Dist shift cache (cache.entries[i]).uniqueid i d) (fuel : ℕ) :
    probeLoop shift cache (cache.entries[i]).uniqueid fuel (cache.entries[i]).uniqueid =
      if d + 1 ≤ fuel then some (some (cache.entries[i]).value) else none := by
  have hslot : cache.slot i = some ((cache.entries[i]).uniqueid, (cache.entries[i]).value) := by
    rw [slot_of_lt hi, content_eq_some]
    exact ⟨hkey, rfl⟩
  obtain ⟨hd, hbefore⟩ := hdist
  rw [h.probeLoop_eq hkey, lookup]
  by_cases hfuel : d + 1 ≤ fuel
  · have hprobe : probe cache.entries.length cache.slot (cache.entries[i]).uniqueid fuel
        (home shift (cache.entries[i]).uniqueid) = some i :=
      probe_eq_some.2 ⟨d, hfuel, hd, stops_of_key hslot, hbefore⟩
    rw [if_pos hfuel, show (cache.entries[i]).uniqueid / 2 ^ shift = home shift (cache.entries[i]).uniqueid from rfl,
      hprobe, Option.map_some, hslot, Option.map_some]
  · have hprobe : probe cache.entries.length cache.slot (cache.entries[i]).uniqueid fuel
        (home shift (cache.entries[i]).uniqueid) = none :=
      probe_eq_none.2 fun j hj => hbefore j (by omega)
    rw [if_neg hfuel, show (cache.entries[i]).uniqueid / 2 ^ shift = home shift (cache.entries[i]).uniqueid from rfl,
      hprobe, Option.map_none]

lemma probeRounds_eq (h : cache.Valid shift) (hi : i < cache.entries.length) (hkey : (cache.entries[i]).uniqueid ≠ 0)
    (hlt : d < cache.entries.length) (hdist : Dist shift cache (cache.entries[i]).uniqueid i d) :
    probeRounds shift cache (cache.entries[i]).uniqueid = d + 1 := by
  have hisSome : ∀ fuel, (probeLoop shift cache (cache.entries[i]).uniqueid fuel (cache.entries[i]).uniqueid).isSome =
      decide (d + 1 ≤ fuel) := by
    intro fuel
    rw [probeLoop_dist h hi hkey hdist]
    split <;> simp [*]
  unfold probeRounds
  simp only [hisSome]
  have hfind : (List.range (cache.entries.length + 1)).find? (fun fuel => decide (d + 1 ≤ fuel)) = some (d + 1) := by
    rw [List.find?_range_eq_some]
    refine ⟨by simp, by simp; omega, fun j hj => by simp; omega⟩
  rw [hfind, Option.getD_some]

/-- What is computed for an entry is how many slots are before it. -/
lemma steps_eq (h : cache.Laid shift) (hsize : cache.size = cache.entries.length) (hlt : d < cache.entries.length)
    (hd : (home shift uniqueid + d) % cache.entries.length = i) :
    steps shift cache uniqueid (i * sizeofCacheentry shift) = d := by
  have hpos : 0 < 2 ^ shift := Nat.two_pow_pos shift
  have hhome := Nat.mod_lt (home shift uniqueid) h.length_pos
  unfold steps sizeofCacheentry
  simp only [h.div_mask, hsize]
  rw [show uniqueid / 2 ^ shift = home shift uniqueid from rfl]
  rw [← Nat.mod_add_mod] at hd
  by_cases haround : home shift uniqueid % cache.entries.length + d < cache.entries.length
  · rw [Nat.mod_eq_of_lt haround] at hd
    have hle : ¬ home shift uniqueid % cache.entries.length * 2 ^ shift > i * 2 ^ shift :=
      not_lt.2 (Nat.mul_le_mul_right _ (by omega))
    rw [if_neg hle, ← Nat.sub_mul, Nat.mul_div_cancel _ hpos]
    omega
  · rw [Nat.mod_eq_sub_mod (by omega), Nat.mod_eq_of_lt (by omega)] at hd
    have hgt : home shift uniqueid % cache.entries.length * 2 ^ shift > i * 2 ^ shift :=
      Nat.mul_lt_mul_of_pos_right (by omega) hpos
    rw [if_pos hgt, ← Nat.sub_mul, ← Nat.add_mul, Nat.mul_div_cancel _ hpos]
    omega

/-! ## The count -/

/-- The loop counts the entries with a key, each one where it belongs. -/
lemma hitsLoop_eq (place : CacheEntry → ℕ) {es : List CacheEntry}
    (hplace : ∀ j (hj : j < es.length), (es[j]).uniqueid ≠ 0 →
      min (steps shift cache (es[j]).uniqueid ((i + j) * sizeofCacheentry shift)) 3 = place es[j]) (hits : Hits) :
    hitsLoop shift cache es (i * sizeofCacheentry shift) hits =
      ⟨hits.total + es.countP fun e => e.uniqueid != 0,
        fun k => hits.counts k + es.countP fun e => e.uniqueid ≠ 0 ∧ place e = k⟩ := by
  induction es generalizing i hits with
  | nil => rfl
  | cons p rest ih =>
    have hrest : ∀ j (hj : j < rest.length), (rest[j]).uniqueid ≠ 0 →
        min (steps shift cache (rest[j]).uniqueid ((i + 1 + j) * sizeofCacheentry shift)) 3 = place rest[j] := by
      intro j hj hkey
      have := hplace (j + 1) (by simpa using hj) (by simpa using hkey)
      rwa [show i + (j + 1) = i + 1 + j by omega] at this
    rw [hitsLoop, show i * sizeofCacheentry shift + sizeofCacheentry shift = (i + 1) * sizeofCacheentry shift by
      rw [Nat.add_mul, Nat.one_mul], ih hrest]
    by_cases hkey : p.uniqueid = 0
    · simp [hkey]
    · have hfirst : min (steps shift cache p.uniqueid (i * sizeofCacheentry shift)) 3 = place p :=
        hplace 0 (by simp) hkey
      have hcase : (if steps shift cache p.uniqueid (i * sizeofCacheentry shift) > 3 then 3
          else steps shift cache p.uniqueid (i * sizeofCacheentry shift)) = place p := by
        rw [← hfirst]
        split <;> omega
      simp only [ne_eq, hkey, not_false_eq_true, if_true, hcase]
      congr 1
      · simp [hkey]
        omega
      · funext k
        rw [List.countP_cons]
        by_cases hk : k = place p
        · subst hk
          simp [hkey]
          omega
        · simp [hk, Ne.symm hk]

/-- **The statistics of a valid cache.** -/
lemma countsProbes_of_valid (h : cache.Valid shift) (hsize : cache.n ≠ 0 → cache.size = cache.entries.length) :
    CountsProbes shift cache := by
  have hrounds : ∀ i (hi : i < cache.entries.length), (cache.entries[i]).uniqueid ≠ 0 →
      ∃ d < cache.entries.length, Dist shift cache (cache.entries[i]).uniqueid i d ∧
        probeRounds shift cache (cache.entries[i]).uniqueid = d + 1 := by
    intro i hi hkey
    obtain ⟨d, hlt, hdist⟩ := exists_dist h hi hkey
    exact ⟨d, hlt, hdist, probeRounds_eq h hi hkey hlt hdist⟩
  have hhits : calculateHits shift cache = ⟨cache.n, fun k => cache.entries.countP fun e =>
      e.uniqueid ≠ 0 ∧ min (probeRounds shift cache e.uniqueid - 1) 3 = k⟩ := by
    by_cases hn : cache.n = 0
    · have hnone : ∀ e ∈ cache.entries, e.uniqueid = 0 := by
        have hcount := h.count
        rw [hn, eq_comm, List.countP_eq_zero] at hcount
        intro e he
        simpa using hcount e he
      have hcounts : (fun _ => 0 : ℕ → ℕ) = fun k => cache.entries.countP fun e =>
          e.uniqueid ≠ 0 ∧ min (probeRounds shift cache e.uniqueid - 1) 3 = k := by
        funext k
        rw [eq_comm, List.countP_eq_zero]
        intro e he
        simp [hnone e he]
      unfold calculateHits
      rw [if_pos hn, hn, ← hcounts]
      split <;> rfl
    · have hplace : ∀ j (hj : j < cache.entries.length), (cache.entries[j]).uniqueid ≠ 0 →
          min (steps shift cache (cache.entries[j]).uniqueid ((0 + j) * sizeofCacheentry shift)) 3 =
            min (probeRounds shift cache (cache.entries[j]).uniqueid - 1) 3 := by
        intro j hj hkey
        obtain ⟨d, hlt, hdist, hrounds⟩ := hrounds j hj hkey
        rw [Nat.zero_add, steps_eq h.isLaid (hsize hn) hlt hdist.1, hrounds, Nat.add_sub_cancel]
      have hpos : cache.size ≠ 0 := by
        rw [hsize hn]
        exact h.length_pos.ne'
      have hloop := hitsLoop_eq (fun e => min (probeRounds shift cache e.uniqueid - 1) 3) hplace ⟨0, fun _ => 0⟩
      rw [Nat.zero_mul] at hloop
      unfold calculateHits
      rw [if_neg hpos, if_neg hn, hloop, h.count]
      simp
  refine ⟨fun uniqueid hid hcached fuel => ?_, ?_, fun k hk => ?_, ?_⟩
  · obtain ⟨v, hv⟩ := Option.ne_none_iff_exists'.1 hcached
    obtain ⟨i, hi, hslot⟩ := (h.stored_iff hid).2 hv
    rw [slot_of_lt hi, content_eq_some] at hslot
    obtain ⟨hkey, hpair⟩ := hslot
    obtain ⟨rfl, rfl⟩ := Prod.mk.inj hpair
    obtain ⟨d, hlt, hdist, hrounds⟩ := hrounds i hi hkey
    rw [probeLoop_dist h hi hkey hdist, hrounds, hv]
  · rw [hhits]
  · rw [hhits]
    refine List.countP_congr fun e he => ?_
    obtain ⟨i, hi, rfl⟩ := List.mem_iff_getElem.1 he
    simp only [decide_eq_true_eq]
    refine and_congr_right fun hkey => ?_
    obtain ⟨d, -, -, hrounds⟩ := hrounds i hi hkey
    omega
  · rw [hhits]
    refine List.countP_congr fun e he => ?_
    simp only [decide_eq_true_eq]
    refine and_congr_right fun hkey => ?_
    omega

/-! ## Runs -/

/-- **In every state of a run, the statistics of every class count the rounds that calls on it make.** -/
theorem hits_count_probes {p : Setting} (hfits : p.Fits) (classdefaults : ℕ) (ops : List Operation) :
    Throughout (step p) (fun rt => ∀ cls, CountsProbes p.shift (rt.states cls).cache) (Runtime.initial classdefaults)
      ops := by
  refine (steady_throughout hfits (steady_initial p classdefaults) ops).mono fun rt h cls => ?_
  have hinv := (h.sound cls).toInv
  refine countsProbes_of_valid hinv.valid fun hn => ?_
  have hnormal : (rt.states cls).callback = .normal := by
    by_contra hne
    rw [hinv.zero hne] at hn
    exact hn rfl
  exact (hinv.installed hnormal).2.size_eq

/-! ## A sample -/

lemma crowdedMethods_sorted :
    Lib.BinarySearch.Sorted Method.methodid [(⟨101, 16, 0, 700⟩ : Method), ⟨102, 80, 0, 701⟩] := by
  unfold Lib.BinarySearch.Sorted
  decide

/-- Two methods that are looked for in the same slot first. -/
def crowdedCalls : List Operation :=
  loading (sampleClass (some ⟨0, [⟨101, 16, 0, 700⟩, ⟨102, 80, 0, 701⟩], crowdedMethods_sorted⟩)) ++
    [.call .standard ⟨0, false⟩ 80, .call .standard ⟨0, false⟩ 16]

theorem hits_count_probes_crowded :
    Throughout (step sampleSetting) (fun rt => ∀ cls, CountsProbes sampleSetting.shift (rt.states cls).cache)
        (Runtime.initial 0) crowdedCalls ∧
      (run (step sampleSetting) (Runtime.initial 0) crowdedCalls).map (fun rt =>
        let hits := calculateHits sampleSetting.shift (rt.states ⟨0, false⟩).cache
        (hits.total, [0, 1, 2, 3].map hits.counts)) = some (2, [1, 1, 0, 0]) :=
  ⟨hits_count_probes sampleSetting_fits 0 crowdedCalls, by decide +kernel⟩

end MulleObjcRuntime.Caches
