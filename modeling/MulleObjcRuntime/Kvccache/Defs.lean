import MulleObjcRuntime.Registry.Defs

/-!
# The key value coding cache of a class

`mulle-objc-kvccache.c`, and what `mulle-objc-class.h` makes of it.

* `KvcClass` — the cache in a class, the infos, and what has been given to `mulle_allocator_abafree`;
* `setKvcinfo`, `lookupKvcinfo`, `invalidateKvccache` — the operations;
* `KvcStep`, `KvcClass.run` — what is done to a class in the course of time.

There is one thread.  A `for(;;)` loop has a bound on its rounds and yields `none` when it is used up.

The assertion of `_mulle_objc_cache_add_pointer_entry`, that an entry with the id has the pointer as well, is off: with
assertions the second info of an id ends the program.  Sizes and masks are words of 32 bits in the source, and numbers
here; these agree in runs with up to `2 ^ 28` ids, whose caches have masks that fit.
-/

namespace MulleObjcRuntime.Kvccache

open Impcache Registry

/-- A `_mulle_objc_kvcinfo` as `_mulle_objc_kvcinfo_new` leaves it.  The implementations, the method ids and the offset
are for the caller. -/
structure Kvcinfo where
  cKey : List Char
  valueType : List Char
deriving DecidableEq, Repr

/-- `_mulle_objc_kvcinfo_new` -/
def kvcinfoNew (cKey : List Char) : Kvcinfo := ⟨cKey, List.replicate 4 '@'⟩

/-- What is read and written here of a class.  The caches of the class are numbered; the empty cache of the universe has
no number.  An info is its address. -/
structure KvcClass where
  cache : Cache
  pivot : Option ℕ
  caches : ℕ
  freedInfos : List ℕ
  freedCaches : List ℕ

/-- `_mulle_objc_class_init`: the class begins with the empty cache of the universe. -/
def KvcClass.init : KvcClass := ⟨zeroCache, none, 0, [], []⟩

/-- `_mulle_objc_kvccache_abafree`: the infos in the entries and the cache; to free `NULL` does nothing. -/
def KvcClass.abafree (cls : KvcClass) (old : Cache) (number : ℕ) : KvcClass :=
  { cls with
    freedInfos := cls.freedInfos ++ (old.entries.map CacheEntry.value).filter (· ≠ 0)
    freedCaches := cls.freedCaches ++ [number] }

section Operations

variable (cfg : Registry.Config) (shift fuel : ℕ) (infos : ℕ → Kvcinfo)

/-- `keyid = mulle_objc_uniqueid_from_string( info->cKey)` -/
def keyid (info : ℕ) : ℕ := (uniqueidFromString cfg (infos info).cKey).toNat

/-- `_mulle_objc_kvccachepivot_add_cacheentry_by_swapping_caches`, which nobody disturbs. -/
def addCacheentryBySwappingCaches (cls : KvcClass) (info : ℕ) : Option KvcClass :=
  (addPointerInactive shift fuel (cacheNewUncut shift (cls.cache.size * 2)) info (keyid cfg infos info)).map fun r =>
    let swapped := { cls with cache := r.2, pivot := some cls.caches, caches := cls.caches + 1 }
    match cls.pivot with
    | none => swapped
    | some number => swapped.abafree cls.cache number

/-- `_mulle_objc_kvccachepivot_set_kvcinfo` by way of `_mulle_objc_class_set_kvcinfo`. -/
def setKvcinfo (cls : KvcClass) (info : ℕ) : Option (ℤ × KvcClass) :=
  if cls.cache.n ≥ cls.cache.size >>> 1 then
    (addCacheentryBySwappingCaches cfg shift fuel infos cls info).map fun cls => (0, cls)
  else
    (addPointerEntry shift fuel cls.cache info (keyid cfg infos info)).map fun
      | some (_, cache) => (0, { cls with cache })
      | none => (-1, cls)

/-- What `_mulle_objc_kvccache_lookup_kvcinfo` returns: `NULL`, `MULLE_OBJC_KVCINFO_CONFLICT` or an info. -/
inductive KvcAnswer
  | null
  | conflict
  | info (address : ℕ)
deriving DecidableEq, Repr

/-- `_mulle_objc_kvccache_lookup_kvcinfo` by way of `_mulle_objc_class_lookup_kvcinfo`. -/
def lookupKvcinfo (cls : KvcClass) (key : List Char) : Option KvcAnswer :=
  (probePointer shift cls.cache (uniqueidFromString cfg key).toNat fuel).map fun info =>
    if info = 0 then .null
    else if (infos info).cKey ≠ key then .conflict
    else .info info

/-- `_mulle_objc_kvccachepivot_invalidate` by way of `_mulle_objc_class_invalidate_kvccache`. -/
def invalidateKvccache (cls : KvcClass) : ℤ × KvcClass :=
  match cls.pivot with
  | none => (0, cls)
  | some number => (1, { cls with cache := zeroCache, pivot := none }.abafree cls.cache number)

/-- What is done to a class. -/
inductive KvcStep
  | set (info : ℕ)
  | invalidate
deriving DecidableEq, Repr

/-- The class after a step. -/
def KvcStep.apply (cls : KvcClass) : KvcStep → Option KvcClass
  | .set info => (setKvcinfo cfg shift fuel infos cls info).map Prod.snd
  | .invalidate => some (invalidateKvccache cls).2

/-- The class after steps, if all of them return. -/
def KvcClass.run (cls : KvcClass) (steps : List KvcStep) : Option KvcClass :=
  steps.foldlM (KvcStep.apply cfg shift fuel infos) cls

end Operations

end MulleObjcRuntime.Kvccache
