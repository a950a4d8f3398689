import Mathlib.Data.Set.Operations
import MulleObjcRuntime.Impcache.Table

/-!
# The sizes of caches in 32 bits

Sizes, masks and ids are unsigned words of 32 bits.  The sizes are small enough for the arithmetic to be exact.

* `CacheentryLayout` — what an entry is made of;
* `Words.impcacheNew`, `Words.getResize` — a new cache, and the size of the next one, word by word;
* `toCache_impcacheNew`, `toNat_getResize` — the words are the numbers of `Cache`;
* `range_and_mask` — what the mask makes of the ids;
* `sized_impcacheNew`, `sized_getResize` — the sizes that are asked for, and the sizes there are.
-/

namespace MulleObjcRuntime.Impcache

/-- An entry has a key and a value, and a thread and a class where it remembers them
(`MULLE_OBJC_CACHEENTRY_REMEMBERS_THREAD_CLASS`).  Each of them takes the room of a pointer. -/
structure CacheentryLayout where
  /-- A pointer has 64 bits, not 32. -/
  wide : Bool
  remembersThreadClass : Bool

namespace CacheentryLayout

variable (l : CacheentryLayout)

/-- `sizeof( struct _mulle_objc_cacheentry)` -/
def sizeof : ℕ := (if l.wide then 8 else 4) * (if l.remembersThreadClass then 4 else 2)

/-- The logarithm of the size, which is asserted to be a power of two. -/
def shift : ℕ := (if l.wide then 3 else 2) + (if l.remembersThreadClass then 2 else 1)

lemma sizeof_eq : l.sizeof = sizeofCacheentry l.shift := by
  obtain ⟨wide, remembers⟩ := l
  cases wide <;> cases remembers <;> rfl

lemma shift_le : l.shift ≤ 5 := by
  obtain ⟨wide, remembers⟩ := l
  cases wide <;> cases remembers <;> decide

end CacheentryLayout

/-! ## Numbers -/

/-- A number, rounded up to a power of two. -/
def roundedUp (x : ℕ) : ℕ :=
  if x &&& (x - 1) ≠ 0 then
    Lib.PowerOfTwo.smear (Lib.PowerOfTwo.smear (Lib.PowerOfTwo.smear (Lib.PowerOfTwo.smear
      (Lib.PowerOfTwo.smear (x - 1) 1) 2) 4) 8) 16 + 1
  else x

lemma impcacheSize_eq_roundedUp (size : ℕ) : impcacheSize size = roundedUp (min (max size minCacheSize) maxCacheSize) := by
  have hclamp : (if (if size < minCacheSize then minCacheSize else size) > maxCacheSize then maxCacheSize
      else if size < minCacheSize then minCacheSize else size) = min (max size minCacheSize) maxCacheSize := by
    have hmin : minCacheSize = 4 := rfl
    have hmax : maxCacheSize = 2 ^ 22 := rfl
    split <;> split <;> omega
  rw [← hclamp]
  rfl

lemma le_roundedUp {x : ℕ} (hx : 2 ≤ x) (hlt : x < 2 ^ 32) : x ≤ roundedUp x := by
  unfold roundedUp
  split
  · have hlog := Nat.lt_log2_self (n := x - 1)
    rw [Lib.PowerOfTwo.smear_fill (by omega) (by omega)]
    omega
  · exact le_refl x

lemma min_le_impcacheSize (size : ℕ) : min size maxCacheSize ≤ impcacheSize size := by
  have hmin : minCacheSize = 4 := rfl
  have hmax : maxCacheSize = 2 ^ 22 := rfl
  have hle : min (max size minCacheSize) maxCacheSize ≤ roundedUp (min (max size minCacheSize) maxCacheSize) :=
    le_roundedUp (by omega) (by omega)
  rw [impcacheSize_eq_roundedUp]
  omega

namespace Words

/-- What is set of a `_mulle_objc_cache`, and the number of entries it has room for. -/
structure CacheWords where
  size : UInt32
  mask : UInt32
  slots : ℕ

/-- A word, and again `i` places down -/
def smear (size i : UInt32) : UInt32 := size ||| size >>> i

/-- The part of `mulle_objc_impcache_new` that rounds a size up. -/
def roundUp (size : UInt32) : UInt32 :=
  if size &&& (size - 1) ≠ 0 then smear (smear (smear (smear (smear (size - 1) 1) 2) 4) 8) 16 + 1 else size

/-- The size `mulle_objc_impcache_new` gives a cache. -/
def impcacheSize (size : UInt32) : UInt32 :=
  let size := if size < .ofNat minCacheSize then .ofNat minCacheSize else size
  let size := if size > .ofNat maxCacheSize then .ofNat maxCacheSize else size
  roundUp size

/-- `mulle_objc_impcache_new`.  The struct itself has room for one entry. -/
def impcacheNew (l : CacheentryLayout) (size : UInt32) : CacheWords :=
  let size := impcacheSize size
  ⟨size, (size - 1) * .ofNat l.sizeof, 1 + (size - 1).toNat⟩

/-- `_mulle_objc_cache_get_resize` -/
def getResize (cache : CacheWords) : CacheSizing → UInt32
  | .stagnate => cache.size
  | .shrink => if cache.size ≤ .ofNat minCacheSize * 2 then .ofNat minCacheSize else cache.size >>> 1
  | .grow => cache.size * 2

/-- The cache with numbers for the words. -/
def CacheWords.toCache (cache : CacheWords) : Cache :=
  ⟨0, cache.size.toNat, cache.mask.toNat, List.replicate cache.slots ⟨0, 0⟩⟩

/-- A cache has the size it should have, if this size was asked for, and its mask leads to all of its entries and to
nothing else. -/
structure Sized (l : CacheentryLayout) (request : UInt32) (cache : CacheWords) : Prop where
  power : ∃ bits, cache.size.toNat = 2 ^ bits
  min_le : minCacheSize ≤ cache.size.toNat
  le_max : cache.size.toNat ≤ maxCacheSize
  request_le : min request.toNat maxCacheSize ≤ cache.size.toNat
  /-- no operation on words has lost anything -/
  exact : cache.toCache = Impcache.impcacheNew l.shift request.toNat
  slots : Set.range (fun uniqueid : UInt32 => (uniqueid &&& cache.mask).toNat) =
    {offset | ∃ i < cache.slots, offset = i * l.sizeof}

/-! ## Words and numbers -/

lemma toNat_smear {x : UInt32} {n i : ℕ} (hx : x.toNat = n) (hi : i < 32) :
    (smear x (.ofNat i)).toNat = Lib.PowerOfTwo.smear n i := by
  have hmod : (UInt32.ofNat i).toNat % 32 = i := by
    rw [UInt32.toNat_ofNat']
    omega
  rw [smear, UInt32.toNat_or, UInt32.toNat_shiftRight, hmod, hx, Lib.PowerOfTwo.smear]

lemma toNat_pred {x : UInt32} (hx : 0 < x.toNat) : (x - 1).toNat = x.toNat - 1 :=
  UInt32.toNat_sub_of_le x 1 (UInt32.le_iff_toNat_le.mpr hx)

lemma toNat_roundUp {x : UInt32} (hpos : 0 < x.toNat) (hlt : roundedUp x.toNat < 2 ^ 32) :
    (roundUp x).toNat = roundedUp x.toNat := by
  have hpred := toNat_pred hpos
  have hbits : (x &&& (x - 1) ≠ 0) ↔ x.toNat &&& (x.toNat - 1) ≠ 0 := by
    rw [← hpred, ← UInt32.toNat_and, not_iff_not, ← UInt32.toNat_inj]
    rfl
  unfold roundUp
  unfold roundedUp at hlt ⊢
  by_cases h : x.toNat &&& (x.toNat - 1) ≠ 0
  · rw [if_pos h] at hlt ⊢
    have hsmear := toNat_smear (toNat_smear (toNat_smear (toNat_smear (toNat_smear hpred (by decide : 1 < 32))
      (by decide : 2 < 32)) (by decide : 4 < 32)) (by decide : 8 < 32)) (by decide : 16 < 32)
    rw [if_pos (hbits.mpr h)]
    refine (UInt32.toNat_add _ 1).trans ?_
    exact (congrArg (fun n => (n + 1) % 2 ^ 32) hsmear).trans (Nat.mod_eq_of_lt hlt)
  · rw [if_neg h, if_neg (mt hbits.mp h)]

lemma toNat_impcacheSize (size : UInt32) : (impcacheSize size).toNat = Impcache.impcacheSize size.toNat := by
  have hmin : (UInt32.ofNat minCacheSize).toNat = minCacheSize := rfl
  have hmax : (UInt32.ofNat maxCacheSize).toNat = maxCacheSize := rfl
  obtain ⟨bits, -, h22, hbits⟩ := impcacheSize_eq size.toNat
  have hle : 2 ^ bits ≤ 2 ^ 22 := Nat.pow_le_pow_right (by omega) h22
  obtain ⟨x, hx, hword⟩ : ∃ x : UInt32, x.toNat = min (max size.toNat minCacheSize) maxCacheSize ∧
      impcacheSize size = roundUp x := by
    refine ⟨_, ?_, rfl⟩
    simp only [gt_iff_lt, UInt32.lt_iff_toNat_lt, apply_ite UInt32.toNat, hmin, hmax]
    unfold minCacheSize maxCacheSize
    split <;> split <;> omega
  rw [impcacheSize_eq_roundedUp, ← hx] at hbits ⊢
  rw [hword, toNat_roundUp (by rw [hx]; unfold minCacheSize maxCacheSize; omega) (by omega)]

section

variable (l : CacheentryLayout) (request : UInt32)

lemma size_impcacheNew : ∃ bits, 2 ≤ bits ∧ bits ≤ 22 ∧ (impcacheNew l request).size.toNat = 2 ^ bits := by
  obtain ⟨bits, h2, h22, hbits⟩ := impcacheSize_eq request.toNat
  exact ⟨bits, h2, h22, (toNat_impcacheSize request).trans hbits⟩

lemma mask_impcacheNew : (impcacheNew l request).mask.toNat = ((impcacheNew l request).size.toNat - 1) * l.sizeof := by
  obtain ⟨bits, h2, h22, hbits⟩ := size_impcacheNew l request
  have hle : 2 ^ bits ≤ 2 ^ 22 := Nat.pow_le_pow_right (by omega) h22
  have hpos : 0 < (impcacheNew l request).size.toNat := hbits ▸ Nat.two_pow_pos bits
  have hsizeof : l.sizeof ≤ 32 := by
    rw [l.sizeof_eq]
    exact Nat.pow_le_pow_right (by omega) l.shift_le
  have hword : (UInt32.ofNat l.sizeof).toNat = l.sizeof := by
    rw [UInt32.toNat_ofNat']
    omega
  have hprod : ((impcacheNew l request).size.toNat - 1) * l.sizeof ≤ 2 ^ 22 * 32 := Nat.mul_le_mul (by omega) hsizeof
  have hmask : (impcacheNew l request).mask = ((impcacheNew l request).size - 1) * .ofNat l.sizeof := rfl
  rw [hmask, UInt32.toNat_mul, toNat_pred hpos, hword]
  omega

/-- **The words of a new cache are its numbers.** -/
theorem toCache_impcacheNew : (impcacheNew l request).toCache = Impcache.impcacheNew l.shift request.toNat := by
  obtain ⟨bits, -, -, hbits⟩ := size_impcacheNew l request
  have hpos : 0 < (impcacheNew l request).size.toNat := hbits ▸ Nat.two_pow_pos bits
  have hsize : (impcacheNew l request).size.toNat = Impcache.impcacheSize request.toNat := toNat_impcacheSize request
  have hslots : (impcacheNew l request).slots = (impcacheNew l request).size.toNat := by
    have hpred := toNat_pred hpos
    show 1 + ((impcacheNew l request).size - 1).toNat = _
    omega
  rw [CacheWords.toCache, mask_impcacheNew, hslots, hsize, l.sizeof_eq]
  rfl

end

/-- **The next size is exact**, for a cache that has been made. -/
theorem toNat_getResize {cache : CacheWords} (hmin : minCacheSize ≤ cache.size.toNat)
    (hmax : cache.size.toNat ≤ maxCacheSize) (strategy : CacheSizing) :
    (getResize cache strategy).toNat = Impcache.getResize cache.toCache strategy := by
  unfold minCacheSize at hmin
  unfold maxCacheSize at hmax
  cases strategy with
  | stagnate => rfl
  | shrink =>
    have htwice : (UInt32.ofNat minCacheSize * 2).toNat = minCacheSize * 2 := rfl
    simp only [getResize, UInt32.le_iff_toNat_le, htwice, apply_ite UInt32.toNat, UInt32.toNat_shiftRight]
    rfl
  | grow =>
    have htwo : (2 : UInt32).toNat = 2 := rfl
    simp only [getResize, UInt32.toNat_mul, htwo]
    exact Nat.mod_eq_of_lt (by omega)

/-! ## Masks -/

/-- What a shifted mask leaves of the ids: the offsets of all entries. -/
theorem range_and_mask {bits shift : ℕ} {mask : UInt32} (hle : bits + shift ≤ 32)
    (hmask : mask.toNat = (2 ^ bits - 1) * 2 ^ shift) :
    Set.range (fun uniqueid : UInt32 => (uniqueid &&& mask).toNat) = {offset | ∃ i < 2 ^ bits, offset = i * 2 ^ shift} := by
  ext offset
  simp only [Set.mem_range, Set.mem_ofPred_eq, UInt32.toNat_and, hmask, Lib.PowerOfTwo.and_mask]
  constructor
  · rintro ⟨uniqueid, rfl⟩
    exact ⟨_, Nat.mod_lt _ (Nat.two_pow_pos bits), rfl⟩
  · rintro ⟨i, hi, rfl⟩
    have hlt : i * 2 ^ shift < 2 ^ 32 := by
      calc i * 2 ^ shift < 2 ^ bits * 2 ^ shift := Nat.mul_lt_mul_of_pos_right hi (Nat.two_pow_pos shift)
        _ = 2 ^ (bits + shift) := (pow_add 2 bits shift).symm
        _ ≤ 2 ^ 32 := Nat.pow_le_pow_right (by omega) hle
    refine ⟨.ofNat (i * 2 ^ shift), ?_⟩
    rw [UInt32.toNat_ofNat', Nat.mod_eq_of_lt hlt, Nat.mul_div_cancel _ (Nat.two_pow_pos shift), Nat.mod_eq_of_lt hi]

/-- **A new cache has the right size.** -/
theorem sized_impcacheNew (l : CacheentryLayout) (request : UInt32) : Sized l request (impcacheNew l request) := by
  obtain ⟨bits, h2, h22, hbits⟩ := size_impcacheNew l request
  have hmin : 2 ^ 2 ≤ 2 ^ bits := Nat.pow_le_pow_right (by omega) h2
  have hmax : 2 ^ bits ≤ 2 ^ 22 := Nat.pow_le_pow_right (by omega) h22
  have hexact := toCache_impcacheNew l request
  have hslots : (impcacheNew l request).slots = 2 ^ bits := by
    have hlength := congrArg (fun cache => cache.entries.length) hexact
    have hsize := congrArg Cache.size hexact
    simp only [CacheWords.toCache, Impcache.impcacheNew, Cache.uncut, List.length_replicate] at hlength hsize
    rw [hlength, ← hsize, hbits]
  refine ⟨⟨bits, hbits⟩, ?_, ?_, ?_, hexact, ?_⟩
  · rw [hbits]
    exact hmin
  · rw [hbits]
    exact hmax
  · exact (min_le_impcacheSize request.toNat).trans (toNat_impcacheSize request).ge
  · have hshift := l.shift_le
    have hmask := mask_impcacheNew l request
    rw [hbits, l.sizeof_eq] at hmask
    rw [hslots, l.sizeof_eq]
    exact range_and_mask (by omega) hmask

/-- **The sizes of caches**: every request is met by a power of two within the bounds, and so is every size that a cache
of any request is to have next. -/
theorem sized_getResize (l : CacheentryLayout) (request : UInt32) (strategy : CacheSizing) :
    Sized l request (impcacheNew l request) ∧
      (getResize (impcacheNew l request) strategy).toNat =
        Impcache.getResize (impcacheNew l request).toCache strategy ∧
      Sized l (getResize (impcacheNew l request) strategy) (impcacheNew l (getResize (impcacheNew l request) strategy)) := by
  have h := sized_impcacheNew l request
  exact ⟨h, toNat_getResize h.min_le h.le_max strategy, sized_impcacheNew l _⟩

end Words

end MulleObjcRuntime.Impcache
