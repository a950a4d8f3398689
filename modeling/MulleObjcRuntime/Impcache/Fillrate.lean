import Mathlib.Logic.Relation
import MulleObjcRuntime.Impcache.Reach

/-!
# The fill rate and the last empty slot

A probe for an id that is not cached ends at an empty slot only, and it has to be one that the mask reaches.  The fill
loops grow a cache before they add an entry to it, by its size and the count before the entry.

* `cachepivotFillFunctionpointer`, `fillClasscache` — the fill loops other than the one of a class's method cache;
* `RateFits`, `Spare` — what the fill of a method cache keeps;
* `FillReachable`, `GrowsTo` — the caches that a single adder brings about, and their sizes;
* `keeps_empty_slot_iff` — the sizes and fill rates for which they keep an empty slot.
-/

namespace MulleObjcRuntime.Impcache

open Lib.OpenAddressing Lib.PowerOfTwo

/-! ## The fill loops -/

/-- `mulle_objc_cache_new`; the size is a word of 32 bits. -/
def cacheNew (shift size : ℕ) : Cache :=
  let size := size % 2 ^ 32
  cacheInit shift (if size < minCacheSize then minCacheSize else size)

/-- `mulle_objc_cache_new` for a size whose mask fits 32 bits, which goes for up to `2 ^ 28` entries of 16 bytes. -/
def cacheNewUncut (shift size : ℕ) : Cache := Cache.uncut shift (if size < minCacheSize then minCacheSize else size)

section Fill

variable (cfg : Config) (fuel pointer uniqueid : ℕ)

/-- `_mulle_objc_cachepivot_fill_functionpointer`; `_mulle_objc_cache_grow_with_strategy` makes the new cache. -/
def cachepivotFillFunctionpointer : ℕ → Cache → Option Cache
  | 0, _ => none
  | rounds + 1, cache =>
    if shouldGrow cache cfg.fillrate then
      cachepivotFillFunctionpointer rounds (cacheNew cfg.shift (getResize cache .grow))
    else
      match addFunctionpointerEntry cfg.shift fuel cache pointer uniqueid with
      | none => none
      | some none => cachepivotFillFunctionpointer rounds cache
      | some (some cache) => some cache

/-- `_mulle_objc_universe_add_classcacheentry_swapcaches`. -/
def addClasscacheentrySwapcaches (cache : Cache) : Option Cache :=
  (addPointerInactive cfg.shift fuel (cacheNew cfg.shift (cache.size * 2)) pointer uniqueid).map Prod.snd

/-- `_mulle_objc_universe_fill_classcache`: the entry goes into a grown cache before that is swapped in. -/
def fillClasscache : ℕ → Cache → Option Cache
  | 0, _ => none
  | rounds + 1, cache =>
    if shouldGrow cache cfg.fillrate then addClasscacheentrySwapcaches cfg fuel pointer uniqueid cache
    else
      match addPointerEntry cfg.shift fuel cache pointer uniqueid with
      | none => none
      | some none => fillClasscache rounds cache
      | some (some (_, cache)) => some cache

end Fill

/-- The fill loops. -/
inductive FillLoop
  | impcache
  | cachepivot
  | classcache
deriving DecidableEq, Repr

/-- The cache after a fill loop has returned. -/
def FillLoop.fill (cfg : Config) (fuel pointer uniqueid rounds : ℕ) (cache : Cache) : FillLoop → Option Cache
  | .impcache => fillImpcachepivotImp cfg fuel pointer uniqueid rounds cache
  | .cachepivot => cachepivotFillFunctionpointer cfg fuel pointer uniqueid rounds cache
  | .classcache => fillClasscache cfg fuel pointer uniqueid rounds cache

/-- A cache of this size, filled up to one entry below its size, has to grow. -/
def RateFits (size fillrate : ℕ) : Prop := fillrate = 0 ∨ size * fillrate ≤ (size - 1) * 100

instance (size fillrate : ℕ) : Decidable (RateFits size fillrate) := by
  unfold RateFits
  infer_instance

variable {cfg : Config} {fuel pointer uniqueid rounds bits : ℕ} {cache cache' : Cache}

/-! ## Sizes and rates -/

lemma rateFits_of_ten_le {size fillrate : ℕ} (hsize : 10 ≤ size) (hrate : fillrate ≤ 90) : RateFits size fillrate := by
  right
  calc size * fillrate ≤ size * 90 := Nat.mul_le_mul_left _ hrate
    _ ≤ (size - 1) * 100 := by omega

lemma RateFits.mono {size size' fillrate : ℕ} (h : RateFits size fillrate) (hpos : 0 < size) (hle : size ≤ size')
    (hrate : fillrate ≤ 90) : RateFits size' fillrate := by
  rcases h with hzero | h
  · exact Or.inl hzero
  · right
    obtain ⟨d, rfl⟩ := Nat.exists_eq_add_of_le hle
    calc (size + d) * fillrate = size * fillrate + d * fillrate := Nat.add_mul _ _ _
      _ ≤ (size - 1) * 100 + d * 100 := Nat.add_le_add h (Nat.mul_le_mul_left _ (by omega))
      _ = (size + d - 1) * 100 := by omega

lemma impcacheSize_two_pow (hbits : 2 ≤ bits) : impcacheSize (2 ^ bits) = 2 ^ min bits 22 := by
  have hmin : 2 ^ 2 ≤ 2 ^ bits := Nat.pow_le_pow_right (by omega) hbits
  have hpow : ∀ b, 2 ^ b &&& (2 ^ b - 1) = 0 := by
    intro b
    exact (Nat.and_sub_one_eq_zero_iff_isPowerOfTwo (Nat.two_pow_pos b).ne').2 ⟨b, rfl⟩
  have hclamp : (if 2 ^ bits > maxCacheSize then maxCacheSize else 2 ^ bits) = 2 ^ min bits 22 := by
    have hmax : maxCacheSize = 2 ^ 22 := rfl
    rcases le_or_gt bits 22 with hle | hlt
    · have := Nat.pow_le_pow_right (n := 2) (by omega) hle
      rw [if_neg (by omega), min_eq_left hle]
    · have := Nat.pow_lt_pow_right (a := 2) (by omega) hlt
      rw [if_pos (by omega), min_eq_right (by omega), hmax]
  unfold impcacheSize minCacheSize
  simp only [if_neg (show ¬ 2 ^ bits < 4 by omega), hclamp]
  rw [if_neg (not_not_intro (hpow _))]

lemma uncut_installed (shift : ℕ) (hbits : 2 ≤ bits) : (Cache.uncut shift (2 ^ bits)).Installed shift := by
  have hmin : 2 ^ 2 ≤ 2 ^ bits := Nat.pow_le_pow_right (by omega) hbits
  refine ⟨valid_replicate shift bits 0 _ rfl, by simp [Cache.uncut], ?_⟩
  simp only [Cache.uncut, minCacheSize]
  omega

lemma Cache.Installed.size_two_pow {shift : ℕ} (h : cache.Installed shift) : ∃ bits, 2 ≤ bits ∧ cache.size = 2 ^ bits := by
  obtain ⟨bits, hlength, -⟩ := h.laid
  have hmin : 2 ^ 2 ≤ 2 ^ bits := by
    rw [← hlength, ← h.size_eq]
    exact h.min_le
  exact ⟨bits, (Nat.pow_le_pow_iff_right (by omega : 1 < 2)).1 hmin, by rw [h.size_eq, hlength]⟩

/-! ## An empty slot to spare -/

/-- A cache that reaches `reach` of its `size` entries has to grow when one of these is left. -/
def ReachFits (reach size fillrate : ℕ) : Prop :=
  if fillrate = 0 then size ≤ (reach - 1) * 3 else size * fillrate ≤ (reach - 1) * 100

instance (reach size fillrate : ℕ) : Decidable (ReachFits reach size fillrate) := by
  unfold ReachFits
  infer_instance

lemma RateFits.reachFits {size fillrate : ℕ} (h : RateFits size fillrate) (hsize : 4 ≤ size) :
    ReachFits size size fillrate := by
  unfold ReachFits
  split
  · omega
  · rename_i hrate
    exact h.resolve_left hrate

lemma ReachFits.next_lt {reach : ℕ} (h : ReachFits reach cache.size cfg.fillrate)
    (hgrow : shouldGrow cache cfg.fillrate = false) : cache.n + 1 < reach := by
  unfold ReachFits at h
  unfold shouldGrow at hgrow
  split at hgrow
  · rename_i hzero
    have : ¬ cache.n * 3 ≥ cache.size := by simpa using hgrow
    rw [if_pos hzero] at h
    omega
  · rename_i hrate
    have : ¬ cache.n * 100 ≥ cache.size * cfg.fillrate := by simpa using hgrow
    rw [if_neg hrate] at h
    omega

lemma ReachFits.grows {reach : ℕ} (h : ReachFits reach cache.size cfg.fillrate) (hn : reach ≤ cache.n + 1) :
    shouldGrow cache cfg.fillrate = true := by
  by_contra hgrow
  have := h.next_lt (by simpa using hgrow)
  omega

lemma not_grow_of_not_reachFits {reach : ℕ} (h : ¬ ReachFits reach cache.size cfg.fillrate) (hn : cache.n < reach) :
    shouldGrow cache cfg.fillrate = false := by
  unfold ReachFits at h
  unfold shouldGrow
  split
  · rename_i hzero
    rw [if_pos hzero] at h
    rw [decide_eq_false_iff_not]
    omega
  · rename_i hrate
    rw [if_neg hrate] at h
    rw [decide_eq_false_iff_not]
    omega

/-- What a single adder keeps in a method cache: an empty slot, and a size that fits the fill rate. -/
structure Spare (cfg : Config) (cache : Cache) : Prop extends cache.Installed cfg.shift where
  lt : cache.n < cache.size
  le_max : cache.size ≤ maxCacheSize
  fits : RateFits cache.size cfg.fillrate

lemma spare_uncut (hbits : 2 ≤ bits) (hmax : bits ≤ 22) (hfits : RateFits (2 ^ bits) cfg.fillrate) :
    Spare cfg (Cache.uncut cfg.shift (2 ^ bits)) :=
  ⟨uncut_installed cfg.shift hbits, Nat.two_pow_pos bits, Nat.pow_le_pow_right two_pos hmax, hfits⟩

namespace Spare

lemma growWithStrategy (h : Spare cfg cache) : Spare cfg (growWithStrategy cfg.shift cache .grow) := by
  obtain ⟨bits, hbits, hsize⟩ := h.toInstalled.size_two_pow
  have hmax : 2 ^ bits ≤ 2 ^ 22 := hsize ▸ h.le_max
  have hmax' : bits ≤ 22 := (Nat.pow_le_pow_iff_right one_lt_two).1 hmax
  have hnew : Impcache.growWithStrategy cfg.shift cache .grow = Cache.uncut cfg.shift (2 ^ min (bits + 1) 22) := by
    rw [Impcache.growWithStrategy, getResize, impcacheNew, hsize, Nat.mod_eq_of_lt (by omega), ← Nat.pow_succ,
      impcacheSize_two_pow (by omega)]
  rw [hnew]
  refine spare_uncut (by omega) (by omega) ?_
  have hfits := h.fits
  rw [hsize] at hfits
  exact hfits.mono (Nat.two_pow_pos bits) (Nat.pow_le_pow_right (by omega) (by omega)) cfg.fillrate_le

lemma add (h : Spare cfg cache) (hid : uniqueid ≠ 0) (hpointer : pointer ≠ 0)
    (hgrow : shouldGrow cache cfg.fillrate = false)
    (hadd : addFunctionpointerEntry cfg.shift fuel cache pointer uniqueid = some (some cache')) : Spare cfg cache' := by
  obtain ⟨hvalid, -, hsize, hlength⟩ := h.toValid.add hid hpointer hadd
  have hn : cache'.n ≤ cache.n + 1 := by
    rw [h.toValid.add_n hid hadd]
    split <;> omega
  have hnext : cache.n + 1 < cache.size := (h.fits.reachFits h.min_le).next_lt hgrow
  refine ⟨⟨hvalid, by rw [hsize, hlength, h.size_eq], by rw [hsize]; exact h.min_le⟩, by omega, ?_, ?_⟩
  · rw [hsize]
    exact h.le_max
  · rw [hsize]
    exact h.fits

lemma fillImpcachepivotImp (h : Spare cfg cache) (hid : uniqueid ≠ 0) (hpointer : pointer ≠ 0)
    (hfill : fillImpcachepivotImp cfg fuel pointer uniqueid rounds cache = some cache') : Spare cfg cache' := by
  induction rounds generalizing cache with
  | zero => cases hfill
  | succ rounds ih =>
    unfold Impcache.fillImpcachepivotImp at hfill
    split at hfill
    · exact ih h.growWithStrategy hfill
    · rename_i hgrow
      split at hfill
      · cases hfill
      · exact ih h hfill
      · rename_i hadd
        cases hfill
        exact h.add hid hpointer (by simpa using hgrow) hadd

end Spare

/-! ## The caches of a single adder -/

/-- The caches that a single adder makes of a new one with `2 ^ bits` entries, while none has more than `limit`. -/
inductive FillReachable (cfg : Config) (limit bits : ℕ) : Cache → Prop
  | new : FillReachable cfg limit bits (cacheInit cfg.shift (2 ^ bits))
  | fill {cache cache' : Cache} (h : FillReachable cfg limit bits cache) (loop : FillLoop)
      (fuel pointer uniqueid rounds : ℕ) (hid : uniqueid ≠ 0) (hpointer : pointer ≠ 0)
      (hfill : loop.fill cfg fuel pointer uniqueid rounds cache = some cache') (hlimit : cache'.size ≤ limit) :
      FillReachable cfg limit bits cache'

/-- The size of the next cache. -/
def FillLoop.nextSize (size : ℕ) : FillLoop → ℕ
  | .impcache => impcacheSize (size * 2 % 2 ^ 32)
  | .cachepivot | .classcache => if size * 2 % 2 ^ 32 < minCacheSize then minCacheSize else size * 2 % 2 ^ 32

/-- The sizes up to `limit` that growing comes to. -/
def GrowsTo (limit : ℕ) : ℕ → ℕ → Prop :=
  Relation.ReflTransGen fun size next => next ≤ limit ∧ ∃ loop : FillLoop, next = loop.nextSize size

/-- A cache of `2 ^ bits` entries of which `2 ^ r` are reached, and these are a table. -/
structure Made (cfg : Config) (bits r : ℕ) (cache : Cache) : Prop where
  size_eq : cache.size = 2 ^ bits
  reach_eq : cache.reach cfg.shift = 2 ^ r
  length_eq : (cache.reached cfg.shift).entries.length = 2 ^ r
  valid : (cache.reached cfg.shift).Valid cfg.shift

lemma made_cacheInit (cfg : Config) (bits : ℕ) :
    Made cfg bits (reachBits cfg.shift bits) (cacheInit cfg.shift (2 ^ bits)) :=
  ⟨rfl, reach_cacheInit _ _, (holds_reached _ _).length_eq, (holds_reached _ _).valid⟩

section Fills

variable {r : ℕ} {adder : Adder}

namespace Made

lemma hasEmptySlot_iff (h : Made cfg bits r cache) : (cache.reached cfg.shift).HasEmptySlot ↔ cache.n < 2 ^ r := by
  have hn : cache.n = (cache.reached cfg.shift).entries.countP fun e => e.uniqueid != 0 := h.valid.count
  have hle : cache.n ≤ 2 ^ r := by
    rw [hn, ← h.length_eq]
    exact List.countP_le_length
  rw [show cache.n < 2 ^ r ↔ ¬ cache.n = 2 ^ r by omega, hn, ← h.length_eq, List.countP_eq_length]
  unfold Cache.HasEmptySlot
  simp

lemma add (h : Made cfg bits r cache) (hid : uniqueid ≠ 0) (hpointer : pointer ≠ 0)
    (hadd : adder.add cfg.shift fuel cache pointer uniqueid = some cache') :
    Made cfg bits r cache' ∧ Added (cache.reached cfg.shift) pointer uniqueid (cache'.reached cfg.shift) ∧
      cache'.n = if (cache.reached cfg.shift).cached uniqueid = none then cache.n + 1 else cache.n := by
  obtain ⟨hsize, hmask, -⟩ := adder.add_beyond hadd
  have hreached := adder.add_reached cfg.shift fuel cache pointer uniqueid
  rw [hadd, h.valid.adder_eq, Option.map_some, Option.join_eq_some_iff] at hreached
  obtain ⟨hvalid, hadded, -, hlength⟩ := h.valid.add hid hpointer hreached
  have hn : (cache'.reached cfg.shift).n = _ := h.valid.add_n hid hreached
  refine ⟨⟨by rw [hsize, h.size_eq], ?_, by rw [hlength, h.length_eq], hvalid⟩, hadded, hn⟩
  rw [Cache.reach, hmask]
  exact h.reach_eq

lemma exists_add (h : Made cfg bits r cache) (adder : Adder) (pointer : ℕ) (hid : uniqueid ≠ 0) (hlt : cache.n < 2 ^ r) :
    ∃ cache', adder.add cfg.shift (2 ^ r) cache pointer uniqueid = some cache' := by
  have hne : addFunctionpointerEntry cfg.shift (2 ^ r) (cache.reached cfg.shift) pointer uniqueid ≠ none :=
    h.valid.add_ne_none pointer hid (h.hasEmptySlot_iff.2 hlt) h.length_eq.le
  obtain ⟨after, hafter⟩ := Option.ne_none_iff_exists'.1 hne
  rcases after with _ | after
  · exact absurd hafter h.valid.add_ne_taken
  have hadd := adder.add_reached cfg.shift (2 ^ r) cache pointer uniqueid
  rw [h.valid.adder_eq, hafter, Option.join_some, eq_comm, Option.map_eq_some_iff] at hadd
  obtain ⟨cache', hcache', -⟩ := hadd
  exact ⟨cache', hcache'⟩

end Made

lemma not_grow_cacheInit (cfg : Config) (bits : ℕ) : shouldGrow (cacheInit cfg.shift (2 ^ bits)) cfg.fillrate = false := by
  have hpos : 0 < (cacheInit cfg.shift (2 ^ bits)).size := Nat.two_pow_pos bits
  have hn : (cacheInit cfg.shift (2 ^ bits)).n = 0 := rfl
  unfold shouldGrow
  split
  · rw [decide_eq_false_iff_not]
    omega
  · rename_i hrate
    have := Nat.mul_pos hpos (Nat.pos_of_ne_zero hrate)
    rw [decide_eq_false_iff_not]
    omega

lemma FillLoop.nextSize_two_pow (loop : FillLoop) (hbits : 2 ≤ bits) (hlt : bits < 32) :
    ∃ next, 2 ≤ next ∧ next < 32 ∧ loop.nextSize (2 ^ bits) = 2 ^ next := by
  have hmin : 2 ^ 2 ≤ 2 ^ bits := Nat.pow_le_pow_right two_pos hbits
  rcases Nat.lt_or_ge bits 31 with hlt' | hge
  · have hnext : 2 ^ bits * 2 % 2 ^ 32 = 2 ^ (bits + 1) := by
      rw [← Nat.pow_succ, Nat.mod_eq_of_lt (Nat.pow_lt_pow_right one_lt_two (by omega))]
    have hle : 2 ^ bits ≤ 2 ^ (bits + 1) := Nat.pow_le_pow_right two_pos (by omega)
    cases loop with
    | impcache =>
      refine ⟨min (bits + 1) 22, by omega, by omega, ?_⟩
      rw [nextSize, hnext, impcacheSize_two_pow (by omega)]
    | cachepivot | classcache =>
      refine ⟨bits + 1, by omega, by omega, ?_⟩
      rw [nextSize, hnext, if_neg (by unfold minCacheSize; omega)]
  · -- the largest size is doubled to nothing
    obtain rfl : bits = 31 := by omega
    exact ⟨2, le_rfl, by omega, by cases loop <;> rfl⟩

/-- The cache that a fill loop puts in place of one that has to grow. -/
def FillLoop.grown (shift : ℕ) (cache : Cache) : FillLoop → Cache
  | .impcache => growWithStrategy shift cache .grow
  | .cachepivot | .classcache => cacheNew shift (cache.size * 2)

lemma FillLoop.grown_eq (loop : FillLoop) {shift : ℕ} (hshift : shift ≤ 10) (cache : Cache) :
    loop.grown shift cache = cacheInit shift (loop.nextSize cache.size) := by
  cases loop with
  | impcache =>
    obtain ⟨next, -, hnext, heq⟩ := impcacheSize_eq (cache.size * 2 % 2 ^ 32)
    rw [grown, growWithStrategy, getResize, impcacheNew, nextSize, heq, cacheInit_eq_uncut (by omega)]
  | cachepivot | classcache => rfl

/-- What the loops add to a cache that has not to grow. -/
lemma FillLoop.fill_of_not_grow (loop : FillLoop) (hgrow : shouldGrow cache cfg.fillrate = false)
    (hfill : loop.fill cfg fuel pointer uniqueid rounds cache = some cache') :
    ∃ adder : Adder, adder.add cfg.shift fuel cache pointer uniqueid = some cache' := by
  cases loop with
  | impcache =>
    refine ⟨.functionpointerEntry, ?_⟩
    induction rounds with
    | zero => cases hfill
    | succ rounds ih =>
      simp only [fill, fillImpcachepivotImp, hgrow, Bool.false_eq_true, if_false] at hfill
      split at hfill
      · cases hfill
      · exact ih hfill
      · rename_i hadd
        cases hfill
        rw [Adder.add, hadd, Option.join_some]
  | cachepivot =>
    refine ⟨.functionpointerEntry, ?_⟩
    induction rounds with
    | zero => cases hfill
    | succ rounds ih =>
      simp only [fill, cachepivotFillFunctionpointer, hgrow, Bool.false_eq_true, if_false] at hfill
      split at hfill
      · cases hfill
      · exact ih hfill
      · rename_i hadd
        cases hfill
        rw [Adder.add, hadd, Option.join_some]
  | classcache =>
    refine ⟨.pointerEntry, ?_⟩
    induction rounds with
    | zero => cases hfill
    | succ rounds ih =>
      simp only [fill, fillClasscache, hgrow, Bool.false_eq_true, if_false] at hfill
      split at hfill
      · cases hfill
      · exact ih hfill
      · rename_i hadd
        cases hfill
        rw [Adder.add, hadd]
        rfl

/-- What the loops add to the cache they put in place of one that has to grow. -/
lemma FillLoop.fill_of_grow {loop : FillLoop} (hgrow : shouldGrow cache cfg.fillrate = true)
    (hnew : shouldGrow (loop.grown cfg.shift cache) cfg.fillrate = false)
    (hfill : loop.fill cfg fuel pointer uniqueid rounds cache = some cache') :
    ∃ adder : Adder, adder.add cfg.shift fuel (loop.grown cfg.shift cache) pointer uniqueid = some cache' := by
  cases rounds with
  | zero => cases loop <;> cases hfill
  | succ rounds =>
    cases loop with
    | impcache =>
      unfold fill fillImpcachepivotImp at hfill
      rw [if_pos hgrow] at hfill
      exact fill_of_not_grow .impcache hnew hfill
    | cachepivot =>
      unfold fill cachepivotFillFunctionpointer at hfill
      rw [if_pos hgrow] at hfill
      exact fill_of_not_grow .cachepivot hnew hfill
    | classcache =>
      unfold fill fillClasscache at hfill
      rw [if_pos hgrow] at hfill
      exact ⟨.pointerInactive, hfill⟩

/-- How a loop adds to the cache that it has put in place of another. -/
def FillLoop.firstAdder : FillLoop → Adder
  | .impcache | .cachepivot => .functionpointerEntry
  | .classcache => .pointerInactive

lemma FillLoop.fill_grown {loop : FillLoop} (hgrow : shouldGrow cache cfg.fillrate = true)
    (hnew : shouldGrow (loop.grown cfg.shift cache) cfg.fillrate = false)
    (hadd : loop.firstAdder.add cfg.shift fuel (loop.grown cfg.shift cache) pointer uniqueid = some cache') :
    loop.fill cfg fuel pointer uniqueid 2 cache = some cache' := by
  cases loop with
  | impcache =>
    have hentry := Option.join_eq_some_iff.1 hadd
    unfold grown at hnew hentry
    simp only [fill, fillImpcachepivotImp, hgrow, hnew, hentry, if_true, Bool.false_eq_true, if_false]
  | cachepivot =>
    have hentry := Option.join_eq_some_iff.1 hadd
    unfold grown at hnew hentry
    simp only [fill, cachepivotFillFunctionpointer, getResize, hgrow, hnew, hentry, if_true, Bool.false_eq_true, if_false]
  | classcache =>
    unfold fill fillClasscache
    rw [if_pos hgrow]
    exact hadd

lemma FillLoop.fill_added (hgrow : shouldGrow cache cfg.fillrate = false)
    (hadd : Adder.functionpointerEntry.add cfg.shift fuel cache pointer uniqueid = some cache') :
    FillLoop.impcache.fill cfg fuel pointer uniqueid 1 cache = some cache' := by
  have hentry := Option.join_eq_some_iff.1 hadd
  simp only [fill, fillImpcachepivotImp, hgrow, hentry, Bool.false_eq_true, if_false]

end Fills

/-! ## Sizes and rates that keep an empty slot -/

/-- A cache of this size has to grow when one of the entries that its mask reaches is left. -/
def SizeFits (shift size fillrate : ℕ) : Prop := ReachFits (min size (2 ^ (32 - shift))) size fillrate

instance (shift size fillrate : ℕ) : Decidable (SizeFits shift size fillrate) := by
  unfold SizeFits
  infer_instance

lemma two_pow_reachBits (shift bits : ℕ) : 2 ^ reachBits shift bits = min (2 ^ bits) (2 ^ (32 - shift)) := by
  rcases le_total bits (32 - shift) with hle | hle
  · rw [reachBits, min_eq_left hle, min_eq_left (Nat.pow_le_pow_right two_pos hle)]
  · rw [reachBits, min_eq_right hle, min_eq_right (Nat.pow_le_pow_right two_pos hle)]

lemma sizeFits_iff {shift fillrate : ℕ} (hbits : 2 ≤ bits) (hle : bits + shift ≤ 32) :
    SizeFits shift (2 ^ bits) fillrate ↔ RateFits (2 ^ bits) fillrate := by
  have hmin : 2 ^ 2 ≤ 2 ^ bits := Nat.pow_le_pow_right two_pos hbits
  rw [SizeFits, ← two_pow_reachBits, reachBits, min_eq_left (by omega)]
  constructor
  · intro h
    unfold ReachFits at h
    split at h
    · rename_i hzero
      exact Or.inl hzero
    · exact Or.inr h
  · intro h
    exact h.reachFits hmin

section Single

variable {limit b : ℕ}

/-- A slot to spare among those that are reached. -/
structure Room (cfg : Config) (bits : ℕ) (cache : Cache) : Prop where
  two_le : 2 ≤ bits
  lt_word : bits < 32
  made : Made cfg bits (reachBits cfg.shift bits) cache
  lt : cache.n < 2 ^ reachBits cfg.shift bits

lemma room_cacheInit (cfg : Config) (hbits : 2 ≤ bits) (hlt : bits < 32) : Room cfg bits (cacheInit cfg.shift (2 ^ bits)) :=
  ⟨hbits, hlt, made_cacheInit cfg bits, Nat.two_pow_pos _⟩

/-- **A single adder keeps a slot to spare** when all sizes that it comes to fit the fill rate. -/
theorem FillReachable.room (hshift : cfg.shift ≤ 10) (hbits : 2 ≤ bits) (hlt : bits < 32)
    (hfits : ∀ size, GrowsTo limit (2 ^ bits) size → SizeFits cfg.shift size cfg.fillrate)
    (h : FillReachable cfg limit bits cache) : ∃ b, GrowsTo limit (2 ^ bits) (2 ^ b) ∧ Room cfg b cache := by
  induction h with
  | new => exact ⟨bits, .refl, room_cacheInit cfg hbits hlt⟩
  | @fill cache cache' _ loop fuel pointer uniqueid rounds hid hpointer hfill hlimit ih =>
    obtain ⟨b, hgrows, hroom⟩ := ih
    rcases hgrow : shouldGrow cache cfg.fillrate with _ | _
    · -- the entry is added
      obtain ⟨adder, hadd⟩ := FillLoop.fill_of_not_grow loop hgrow hfill
      obtain ⟨hmade, -, hn⟩ := hroom.made.add hid hpointer hadd
      have hfit := hfits _ hgrows
      rw [SizeFits, ← two_pow_reachBits, ← hroom.made.size_eq] at hfit
      have hnext := hfit.next_lt hgrow
      refine ⟨b, hgrows, hroom.two_le, hroom.lt_word, hmade, ?_⟩
      rw [hn]
      split <;> omega
    · -- it is the first one of a new cache
      obtain ⟨next, htwo, hword, hnext⟩ := loop.nextSize_two_pow hroom.two_le hroom.lt_word
      have hgrown := loop.grown_eq hshift cache
      rw [hroom.made.size_eq, hnext] at hgrown
      obtain ⟨adder, hadd⟩ := FillLoop.fill_of_grow hgrow (by rw [hgrown]; exact not_grow_cacheInit cfg next) hfill
      rw [hgrown] at hadd
      obtain ⟨hmade, -, hn⟩ := (made_cacheInit cfg next).add hid hpointer hadd
      have hsize := hmade.size_eq
      refine ⟨next, hgrows.tail ⟨by rw [← hsize]; exact hlimit, loop, hnext.symm⟩, htwo, hword, hmade, ?_⟩
      have hreach : 2 ^ 2 ≤ 2 ^ reachBits cfg.shift next := Nat.pow_le_pow_right two_pos (le_min htwo (by omega))
      have hzero : (cacheInit cfg.shift (2 ^ next)).n = 0 := rfl
      rw [hn, hzero]
      split <;> omega

/-- A cache with the ids from `1` on in it. -/
structure Counted (cfg : Config) (limit bits b k : ℕ) (cache : Cache) : Prop where
  reachable : FillReachable cfg limit bits cache
  made : Made cfg b (reachBits cfg.shift b) cache
  n_eq : cache.n = k
  absent : ∀ uniqueid > k, (cache.reached cfg.shift).cached uniqueid = none

lemma Counted.add {k : ℕ} (h : Counted cfg limit bits b k cache) (hlimit : 2 ^ b ≤ limit)
    (hk : k < 2 ^ reachBits cfg.shift b) (hgrow : shouldGrow cache cfg.fillrate = false) :
    ∃ cache', Counted cfg limit bits b (k + 1) cache' := by
  have hid := Nat.succ_ne_zero k
  obtain ⟨cache', hadd⟩ := h.made.exists_add .functionpointerEntry 1 hid (by rw [h.n_eq]; exact hk)
  obtain ⟨hmade, hadded, hn⟩ := h.made.add hid one_ne_zero hadd
  rw [if_pos (h.absent _ (by omega)), h.n_eq] at hn
  have hfill := FillLoop.fill_added hgrow hadd
  refine ⟨cache', h.reachable.fill _ _ _ _ _ hid one_ne_zero hfill (by rw [hmade.size_eq]; exact hlimit), hmade, hn, ?_⟩
  intro uniqueid hlt
  rw [hadded uniqueid (by omega), if_neg (by omega)]
  exact h.absent uniqueid (by omega)

lemma Counted.fills {n k : ℕ} (h : Counted cfg limit bits b n cache) (hlimit : 2 ^ b ≤ limit) (hnk : n ≤ k)
    (hk : k ≤ 2 ^ reachBits cfg.shift b) :
    (∃ m < k, ∃ cache, Counted cfg limit bits b m cache ∧ shouldGrow cache cfg.fillrate = true) ∨
      ∃ cache, Counted cfg limit bits b k cache := by
  induction k, hnk using Nat.le_induction with
  | base => exact Or.inr ⟨cache, h⟩
  | succ k hnk ih =>
    rcases ih (by omega) with ⟨m, hm, hgrown⟩ | ⟨cache, hcounted⟩
    · exact Or.inl ⟨m, by omega, hgrown⟩
    · rcases hgrow : shouldGrow cache cfg.fillrate with _ | _
      · exact Or.inr (hcounted.add hlimit (by omega) hgrow)
      · exact Or.inl ⟨k, by omega, cache, hcounted, hgrow⟩

/-- What the fill loops are to keep. -/
def KeepsEmptySlot (cfg : Config) (limit bits : ℕ) : Prop :=
  ∀ cache, FillReachable cfg limit bits cache → cache.HasEmptySlot ∧
    ∀ uniqueid ≠ 0, uniqueid < 2 ^ 32 → ∀ probe : Probe, ∃ fuel, probe.read cfg.shift fuel cache uniqueid ≠ none

lemma Counted.sizeFits {n : ℕ} (h : Counted cfg limit bits b n cache) (hlimit : 2 ^ b ≤ limit) (hlt : b < 32)
    (hn : n ≤ 2 ^ reachBits cfg.shift b) (hall : KeepsEmptySlot cfg limit bits) : SizeFits cfg.shift (2 ^ b) cfg.fillrate := by
  by_contra hfits
  rw [SizeFits, ← two_pow_reachBits] at hfits
  rcases h.fills hlimit hn le_rfl with ⟨m, hm, cache, hcounted, hgrow⟩ | ⟨cache, hcounted⟩
  · rw [← hcounted.made.size_eq] at hfits
    rw [not_grow_of_not_reachFits hfits (by rw [hcounted.n_eq]; exact hm)] at hgrow
    cases hgrow
  · have hfull : ¬ (cache.reached cfg.shift).HasEmptySlot := by
      rw [hcounted.made.hasEmptySlot_iff, hcounted.n_eq]
      exact lt_irrefl _
    have hle : 2 ^ reachBits cfg.shift b ≤ 2 ^ 31 := Nat.pow_le_pow_right two_pos (by unfold reachBits; omega)
    have hid := Nat.succ_ne_zero (2 ^ reachBits cfg.shift b)
    obtain ⟨fuel, hread⟩ := (hall cache hcounted.reachable).2 _ hid (by omega) .pointer
    rw [← Probe.read_reached] at hread
    exact hread (hcounted.made.valid.read_full hid hfull (hcounted.absent _ (Nat.lt_succ_self _)) .pointer)

/-- A size that fits is left for the next one. -/
lemma Counted.next {n : ℕ} (h : Counted cfg limit bits b n cache) (hshift : cfg.shift ≤ 10) (hn : n ≤ 1) (htwo : 2 ≤ b)
    (hlimit : 2 ^ b ≤ limit) (hfits : SizeFits cfg.shift (2 ^ b) cfg.fillrate) {loop : FillLoop} {next : ℕ}
    (hnext : loop.nextSize (2 ^ b) = 2 ^ next) (hnextlimit : 2 ^ next ≤ limit) :
    ∃ cache, Counted cfg limit bits next 1 cache := by
  have hreach : 2 ^ 2 ≤ 2 ^ reachBits cfg.shift b := Nat.pow_le_pow_right two_pos (le_min htwo (by omega))
  obtain ⟨m, cache, hcounted, hgrow⟩ : ∃ m cache, Counted cfg limit bits b m cache ∧ shouldGrow cache cfg.fillrate = true := by
    rcases h.fills hlimit (show n ≤ 2 ^ reachBits cfg.shift b - 1 by omega) (by omega) with
      ⟨m, -, cache, hcounted, hgrow⟩ | ⟨cache, hcounted⟩
    · exact ⟨m, cache, hcounted, hgrow⟩
    · rw [SizeFits, ← two_pow_reachBits, ← hcounted.made.size_eq] at hfits
      exact ⟨_, cache, hcounted, hfits.grows (by rw [hcounted.n_eq]; omega)⟩
  have hgrown := loop.grown_eq hshift cache
  rw [hcounted.made.size_eq, hnext] at hgrown
  have hmade := made_cacheInit cfg next
  have hnew := not_grow_cacheInit cfg next
  obtain ⟨cache', hadd⟩ := hmade.exists_add loop.firstAdder 1 one_ne_zero (Nat.two_pow_pos _)
  obtain ⟨hmade', hadded, hn'⟩ := hmade.add one_ne_zero one_ne_zero hadd
  have hnone : ∀ k ≠ 0, ((cacheInit cfg.shift (2 ^ next)).reached cfg.shift).cached k = none :=
    fun k hk => hmade.valid.cached_of_empty rfl hk
  rw [if_pos (hnone 1 one_ne_zero)] at hn'
  rw [← hgrown] at hnew hadd
  have hfill := FillLoop.fill_grown hgrow hnew hadd
  refine ⟨cache', hcounted.reachable.fill _ _ _ _ _ one_ne_zero one_ne_zero hfill
    (by rw [hmade'.size_eq]; exact hnextlimit), hmade', hn', ?_⟩
  intro uniqueid hlt
  rw [hadded uniqueid (by omega), if_neg (by omega)]
  exact hnone uniqueid (by omega)

/-- **An empty slot stays, and every probe ends, exactly when all sizes that growing comes to fit the fill rate.** -/
theorem keeps_empty_slot_iff (cfg : Config) (hshift : cfg.shift ≤ 10) (limit bits : ℕ) (hbits : 2 ≤ bits) (hlt : bits < 32)
    (hlimit : 2 ^ bits ≤ limit) :
    KeepsEmptySlot cfg limit bits ↔ ∀ size, GrowsTo limit (2 ^ bits) size → SizeFits cfg.shift size cfg.fillrate := by
  constructor
  · intro hall
    -- along the sizes there is always a cache with one entry at most
    have hcounted : ∀ size, GrowsTo limit (2 ^ bits) size → ∃ b, 2 ≤ b ∧ b < 32 ∧ size = 2 ^ b ∧ 2 ^ b ≤ limit ∧
        ∃ n ≤ 1, ∃ cache, Counted cfg limit bits b n cache := by
      intro size hgrows
      induction hgrows with
      | refl =>
        have hmade := made_cacheInit cfg bits
        exact ⟨bits, hbits, hlt, rfl, hlimit, 0, zero_le_one, _, FillReachable.new, hmade, rfl,
          fun k hk => hmade.valid.cached_of_empty rfl hk.ne'⟩
      | tail _ hstep ih =>
        obtain ⟨hle, loop, rfl⟩ := hstep
        obtain ⟨b, htwo, hword, rfl, hsize, n, hn, cache, hcounted⟩ := ih
        obtain ⟨next, hnext2, hnextword, hnext⟩ := loop.nextSize_two_pow htwo hword
        rw [hnext] at hle
        have hfits := hcounted.sizeFits hsize hword (hn.trans Nat.one_le_two_pow) hall
        exact ⟨next, hnext2, hnextword, hnext, hle, 1, le_rfl, hcounted.next hshift hn htwo hsize hfits hnext hle⟩
    intro size hgrows
    obtain ⟨b, -, hword, rfl, hsize, n, hn, cache, hcounted⟩ := hcounted size hgrows
    exact hcounted.sizeFits hsize hword (hn.trans Nat.one_le_two_pow) hall
  · intro hfits cache hreach
    obtain ⟨b, -, hroom⟩ := hreach.room hshift hbits hlt hfits
    have hempty := hroom.made.hasEmptySlot_iff.2 hroom.lt
    have hslot : cache.HasEmptySlot := hempty.imp fun _ he => ⟨List.mem_of_mem_take he.1, he.2⟩
    refine ⟨hslot, ?_⟩
    intro uniqueid hid _ probe
    refine ⟨(cache.reached cfg.shift).entries.length, ?_⟩
    rw [← Probe.read_reached, hroom.made.valid.read_cached hid hempty le_rfl probe]
    simp

/-- While the caches stay within what a mask of 32 bits reaches, it is the first size that matters. -/
theorem sizeFits_all_iff (hshift : 2 ≤ cfg.shift) (hbits : 2 ≤ bits) (hlimit : 2 ^ bits ≤ limit)
    (hreach : limit ≤ 2 ^ (32 - cfg.shift)) :
    (∀ size, GrowsTo limit (2 ^ bits) size → SizeFits cfg.shift size cfg.fillrate) ↔ RateFits (2 ^ bits) cfg.fillrate := by
  have hword : ∀ b, 2 ^ b ≤ limit → b ≤ 32 - cfg.shift :=
    fun b hb => (Nat.pow_le_pow_iff_right one_lt_two).1 (hb.trans hreach)
  have hone : cfg.shift ≤ 30 := by
    have := hword bits hlimit
    omega
  constructor
  · intro hall
    have hle := hword bits hlimit
    exact (sizeFits_iff hbits (by omega)).1 (hall _ .refl)
  · intro hfits size hgrows
    have hsize : ∃ b, 2 ≤ b ∧ 2 ^ b ≤ limit ∧ size = 2 ^ b ∧ RateFits (2 ^ b) cfg.fillrate := by
      induction hgrows with
      | refl => exact ⟨bits, hbits, hlimit, rfl, hfits⟩
      | tail _ hstep ih =>
        obtain ⟨hle, loop, rfl⟩ := hstep
        obtain ⟨b, htwo, hb, rfl, hfit⟩ := ih
        have hb' := hword b hb
        have hdouble : 2 ^ b * 2 % 2 ^ 32 = 2 ^ (b + 1) := by
          rw [← Nat.pow_succ, Nat.mod_eq_of_lt (Nat.pow_lt_pow_right one_lt_two (by omega))]
        have hnext : RateFits (2 ^ (b + 1)) cfg.fillrate :=
          hfit.mono (Nat.two_pow_pos b) (Nat.pow_le_pow_right two_pos (Nat.le_succ b)) cfg.fillrate_le
        have hmin : 2 ^ 2 ≤ 2 ^ (b + 1) := Nat.pow_le_pow_right two_pos (by omega)
        cases loop with
        | impcache =>
          rw [FillLoop.nextSize, hdouble, impcacheSize_two_pow (by omega)] at hle ⊢
          refine ⟨min (b + 1) 22, by omega, hle, rfl, ?_⟩
          rcases le_or_gt (b + 1) 22 with hsmall | hlarge
          · rwa [min_eq_left hsmall]
          · rw [min_eq_right hlarge.le]
            exact rateFits_of_ten_le (by omega) cfg.fillrate_le
        | cachepivot | classcache =>
          rw [FillLoop.nextSize, hdouble, if_neg (by unfold minCacheSize; omega)] at hle ⊢
          exact ⟨b + 1, by omega, hle, rfl, hnext⟩
    obtain ⟨b, htwo, hb, rfl, hfit⟩ := hsize
    have hb' := hword b hb
    exact (sizeFits_iff htwo (by omega)).2 hfit

end Single

/-- The largest fill rate, with entries of 16 bytes. -/
def sampleConfig : Config where
  shift := 4
  fillrate := 90
  fillrate_le := Nat.le_refl 90
  initialCacheSize := 8
  methodCall := 0

theorem keeps_empty_slot_iff_sample :
    KeepsEmptySlot sampleConfig (2 ^ 28) 4 ↔ ∀ size, GrowsTo (2 ^ 28) (2 ^ 4) size → SizeFits 4 size 90 :=
  keeps_empty_slot_iff sampleConfig (by decide) (2 ^ 28) 4 (by decide) (by decide) (by decide)

/-- A cache of `MULLE_OBJC_DEFAULT_CACHE_SIZE` entries with the eighth entry added. -/
def fullCache : Cache := ⟨8, 8, 112, [⟨128, 1⟩, ⟨16, 1⟩, ⟨32, 1⟩, ⟨48, 1⟩, ⟨64, 1⟩, ⟨80, 1⟩, ⟨96, 1⟩, ⟨112, 1⟩]⟩

lemma fullCache_reachable : FillReachable sampleConfig 8 3 fullCache := by
  have h₀ : FillReachable sampleConfig 8 3 _ := FillReachable.new
  have h₁ := h₀.fill .impcache 1 1 16 1 (by decide) (by decide) rfl (by decide)
  have h₂ := h₁.fill .impcache 1 1 32 1 (by decide) (by decide) rfl (by decide)
  have h₃ := h₂.fill .impcache 1 1 48 1 (by decide) (by decide) rfl (by decide)
  have h₄ := h₃.fill .impcache 1 1 64 1 (by decide) (by decide) rfl (by decide)
  have h₅ := h₄.fill .impcache 1 1 80 1 (by decide) (by decide) rfl (by decide)
  have h₆ := h₅.fill .impcache 1 1 96 1 (by decide) (by decide) rfl (by decide)
  have h₇ := h₆.fill .impcache 1 1 112 1 (by decide) (by decide) rfl (by decide)
  exact h₇.fill .impcache 1 1 128 1 (by decide) (by decide) rfl (by decide)

lemma fullCache_valid : fullCache.Valid 4 := by
  have hadd : addAll 4 1 (Cache.uncut 4 (2 ^ 3))
      ([16, 32, 48, 64, 80, 96, 112, 128].map fun id => ⟨.functionpointerEntry, 1, id⟩) = some fullCache := rfl
  exact ((holds_uncut 4 3).addAll (by decide) hadd).valid

/-- At a fill rate of 90 a cache with eight entries fills up, and no probe for another id ends. -/
theorem last_empty_slot_is_filled : FillReachable sampleConfig 8 3 fullCache ∧ ¬ fullCache.HasEmptySlot ∧
    (∀ (probe : Probe) (fuel : ℕ), probe.read 4 fuel fullCache 7 = none) ∧ ¬ KeepsEmptySlot sampleConfig 8 3 := by
  have hfull : ¬ fullCache.HasEmptySlot := by decide
  refine ⟨fullCache_reachable, hfull, ?_, fun hall => hfull (hall fullCache fullCache_reachable).1⟩
  intro probe fuel
  exact fullCache_valid.read_full (by decide) hfull (by decide) probe

end MulleObjcRuntime.Impcache
