import MulleObjcRuntime.Classes.Method
import MulleObjcRuntime.Lib.Fallible
import MulleObjcRuntime.Lib.PowerOfTwo

/-!
# The method cache of a class

The caches of `mulle-objc-cache.c` and `mulle-objc-impcache.c` and what a class does with its own:

* `Cache` — the entries with the shifted mask; `probeLoop`, `collisionLoop`, `probeEntryoffset` — its probe loops;
* `addFunctionpointerEntry`, `impcacheNew` — a new entry, and a new cache;
* `ClassState` — the cache that is installed in a class, with the state bits that govern it;
* `fillImpcacheMethod`, `invalidateImpcacheentry` — what is written to the cache, and when it is thrown away;
* `setupInitializeCache`, `setupInitialCacheIfNeeded` — the caches before, during and after `+initialize`.

There is no concurrent writer, so that every compare and swap finds what was read before.  A `for(;;)` loop has a
bound on its rounds and yields `none` when it is used up.
-/

namespace MulleObjcRuntime.Impcache

open Classes Lib.PowerOfTwo

/-- A `_mulle_objc_cacheentry`; what is not set is `0`. -/
structure CacheEntry where
  uniqueid : ℕ
  value : ℕ
deriving DecidableEq, Repr

/-- A `_mulle_objc_cache`.  The mask is shifted by the size of an entry, so that it applies to byte offsets. -/
structure Cache where
  n : ℕ
  size : ℕ
  mask : ℕ
  entries : List CacheEntry
deriving DecidableEq, Repr

/-- `MULLE_OBJC_MIN_CACHE_SIZE`. -/
def minCacheSize : ℕ := 4

/-- `MULLE_OBJC_MAX_CACHE_SIZE`. -/
def maxCacheSize : ℕ := 4 * 1024 * 1024

/-- `sizeof( struct _mulle_objc_cacheentry)`, which must be a power of two. -/
def sizeofCacheentry (shift : ℕ) : ℕ := 2 ^ shift

/-! ## Probing -/

section Probing

variable (shift : ℕ) (cache : Cache) (uniqueid : ℕ)

/-- The entry at a byte offset. -/
def Cache.entryAt (offset : ℕ) : CacheEntry :=
  cache.entries.getD (offset / sizeofCacheentry shift) ⟨0, 0⟩

/-- The loop that most calls have: the value of the entry with the id, or nothing when an entry without a key comes
first. -/
def probeLoop : ℕ → ℕ → Option (Option ℕ)
  | 0, _ => none
  | fuel + 1, offset =>
    let offset := offset &&& cache.mask
    let entry := cache.entryAt shift offset
    if entry.uniqueid = uniqueid then some (some entry.value)
    else if entry.uniqueid = 0 then some none
    else probeLoop fuel (offset + sizeofCacheentry shift)

/-- The loop of the collision callbacks, which steps on before it looks. -/
def collisionLoop : ℕ → ℕ → Option (Option ℕ)
  | 0, _ => none
  | fuel + 1, offset =>
    let offset := (offset + sizeofCacheentry shift) &&& cache.mask
    let entry := cache.entryAt shift offset
    if entry.uniqueid = uniqueid then some (some entry.value)
    else if entry.uniqueid = 0 then some none
    else collisionLoop fuel offset

/-- `_mulle_objc_cache_probe_entryoffset`: the offset of the entry with the id or of the first one without a
value. -/
def probeEntryoffset : ℕ → ℕ → Option ℕ
  | 0, _ => none
  | fuel + 1, offset =>
    let offset := offset &&& cache.mask
    let entry := cache.entryAt shift offset
    if entry.uniqueid = uniqueid then some offset
    else if entry.value = 0 then some offset
    else probeEntryoffset fuel (offset + sizeofCacheentry shift)

end Probing

/-- `_mulle_objc_cache_should_grow`. -/
def shouldGrow (cache : Cache) (fillrate : ℕ) : Bool :=
  if fillrate = 0 then cache.n * 3 ≥ cache.size else cache.n * 100 ≥ cache.size * fillrate

/-- `_mulle_objc_cache_add_functionpointer_entry`: the cache with the entry, or `none` when the slot has a value
under another id. -/
def addFunctionpointerEntry (shift fuel : ℕ) (cache : Cache) (pointer uniqueid : ℕ) : Option (Option Cache) :=
  (probeEntryoffset shift cache uniqueid fuel uniqueid).map fun offset =>
    let entry := cache.entryAt shift offset
    if entry.value ≠ 0 then (if entry.uniqueid = uniqueid then some cache else none)
    else
      some { cache with
        n := cache.n + 1
        entries := cache.entries.set (offset / sizeofCacheentry shift) ⟨uniqueid, pointer⟩ }

/-! ## New caches -/

/-- `enum mulle_objc_cachesizing_t`. -/
inductive CacheSizing
  | shrink
  | stagnate
  | grow
deriving DecidableEq, Repr

/-- `_mulle_objc_cache_get_resize`. -/
def getResize (cache : Cache) : CacheSizing → ℕ
  | .stagnate => cache.size
  | .shrink => if cache.size ≤ minCacheSize * 2 then minCacheSize else cache.size >>> 1
  | .grow => cache.size * 2

/-- The size `mulle_objc_impcache_new` gives a cache: one that is not a power of two is rounded up to the next. -/
def impcacheSize (size : ℕ) : ℕ :=
  let size := if size < minCacheSize then minCacheSize else size
  let size := if size > maxCacheSize then maxCacheSize else size
  if size &&& (size - 1) ≠ 0 then smear (smear (smear (smear (smear (size - 1) 1) 2) 4) 8) 16 + 1
  else size

/-- A new cache whose mask reaches all its entries. -/
def Cache.uncut (shift size : ℕ) : Cache :=
  ⟨0, size, (size - 1) * sizeofCacheentry shift, List.replicate size ⟨0, 0⟩⟩

/-- `_mulle_objc_cache_init` on zeroed memory; a mask that does not fit its 32 bits is cut off. -/
def cacheInit (shift size : ℕ) : Cache :=
  ⟨0, size, (size - 1) * sizeofCacheentry shift % 2 ^ 32, List.replicate size ⟨0, 0⟩⟩

/-- `mulle_objc_impcache_new`, without the callbacks.  The mask fits: there are at most `maxCacheSize` entries. -/
def impcacheNew (shift size : ℕ) : Cache := Cache.uncut shift (impcacheSize size)

/-- `_mulle_objc_impcache_grow_with_strategy`, without the callbacks; the new size is a word of 32 bits. -/
def growWithStrategy (shift : ℕ) (cache : Cache) (strategy : CacheSizing) : Cache :=
  impcacheNew shift (getResize cache strategy % 2 ^ 32)

/-- The cache in `initial_impcache` and `empty_impcache`: one entry that is never set. -/
def zeroCache : Cache := ⟨0, 0, 0, [⟨0, 0⟩]⟩

/-! ## The cache of a class -/

/-- Which of the three `_mulle_objc_impcache_callback` records is in force. -/
inductive ImpcacheCallback
  | initial
  | empty
  | normal
deriving DecidableEq, Repr

/-- What calls read and change of a `_mulle_objc_class`; `initializing` is a bit of its infraclass.  A fast method
without an entry in `vtab` still has its fault handler there. -/
structure ClassState where
  callback : ImpcacheCallback
  cache : Cache
  vtab : List (ℕ × ℕ)
  forwardmethod : Option Method
  initializing : Bool
  cacheReady : Bool
  alwaysEmptyCache : Bool
  isNotThreadAffine : Bool

/-- A class as `mulle_objc_universe_new_classpair` leaves it. -/
def ClassState.new : ClassState := ⟨.initial, zeroCache, [], none, false, false, false, false⟩

/-- Why a call does not get to its method: the runtime has given up, or a loop has used up its rounds. -/
inductive Stop
  | methodNotFound (methodid : ℕ)
  | superNotFound (superid : ℕ)
  | callTooEarly (uniqueid : ℕ)
  | outOfFuel
deriving DecidableEq, Repr

/-- The configuration the caches depend on: the size of an entry, `config.cache_fillrate`, what `will_init_cache`
makes of `MULLE_OBJC_DEFAULT_CACHE_SIZE` and `debug.method_call`. -/
structure Config where
  shift : ℕ
  fillrate : ℕ
  fillrate_le : fillrate ≤ 90
  initialCacheSize : ℕ
  methodCall : ℕ

/-- `MULLE_OBJC_UNIVERSE_CALL_TRACE_BIT`. -/
def universeCallTraceBit : ℕ := 1

/-- `MULLE_OBJC_UNIVERSE_CALL_TAO_BIT`. -/
def universeCallTaoBit : ℕ := 2

/-- The test `universe->debug.method_call & bit`. -/
def Config.debugs (cfg : Config) (bit : ℕ) : Bool := cfg.methodCall &&& bit != 0

/-- `_mulle_objc_method_user_attribute_4`. -/
def methodUserAttribute4 : ℕ := 0x0008000

/-- `_mulle_objc_method_is_threadaffine`. -/
def methodIsThreadaffine (method : Method) : Bool := method.bits &&& methodUserAttribute4 == 0

section Fill

variable (cfg : Config) (fuel : ℕ)

/-- `_mulle_objc_class_fill_impcachepivot_imp`; the id can also be a superid. -/
def fillImpcachepivotImp (imp uniqueid : ℕ) : ℕ → Cache → Option Cache
  | 0, _ => none
  | rounds + 1, cache =>
    if shouldGrow cache cfg.fillrate then
      fillImpcachepivotImp imp uniqueid rounds (growWithStrategy cfg.shift cache .grow)
    else
      match addFunctionpointerEntry cfg.shift fuel cache imp uniqueid with
      | none => none
      | some none => fillImpcachepivotImp imp uniqueid rounds cache
      | some (some cache) => some cache

/-- `_mulle_objc_class_fill_impcache_method`. -/
def fillImpcacheMethod (cls : ClassState) (method : Method) (uniqueid : ℕ) : Except Stop ClassState :=
  if cls.alwaysEmptyCache then .ok cls
  else if cfg.debugs universeCallTraceBit then .ok cls
  else if cfg.debugs universeCallTaoBit && !cls.isNotThreadAffine && methodIsThreadaffine method then .ok cls
  else if !cls.cacheReady then (if cls.initializing then .ok cls else .error (.callTooEarly uniqueid))
  else
    match fillImpcachepivotImp cfg fuel method.implementation uniqueid fuel cls.cache with
    | none => .error .outOfFuel
    | some cache => .ok { cls with cache }

/-- `_mulle_objc_class_invalidate_impcacheentry`: without an id the cache is thrown away if it has entries, with one
if it has an entry for it. -/
def invalidateImpcacheentry (cls : ClassState) (uniqueid : ℕ) : Except Stop (Bool × ClassState) :=
  if cls.alwaysEmptyCache then .ok (false, cls)
  else if cls.cache.n = 0 then .ok (false, cls)
  else
    let swapped := (true, { cls with cache := growWithStrategy cfg.shift cls.cache .stagnate })
    if uniqueid = 0 then .ok swapped
    else
      match probeEntryoffset cfg.shift cls.cache uniqueid fuel uniqueid with
      | none => .error .outOfFuel
      | some offset => if (cls.cache.entryAt cfg.shift offset).uniqueid = 0 then .ok (false, cls) else .ok swapped

/-- `_mulle_objc_class_setup_initialize_cache`: the empty cache takes the place of the initial one. -/
def setupInitializeCache (cls : ClassState) : ClassState :=
  if cls.callback = .initial then { cls with callback := .empty, cache := zeroCache } else cls

/-- `_mulle_objc_class_setup_initial_cache`: a first cache takes the place of the empty one. -/
def setupInitialCache (cls : ClassState) : ClassState :=
  if cls.alwaysEmptyCache then cls
  else if cls.callback = .empty then
    { cls with callback := .normal, cache := impcacheNew cfg.shift cfg.initialCacheSize }
  else cls

/-- `_mulle_objc_class_setup_initial_cache_if_needed`. -/
def setupInitialCacheIfNeeded (cls : ClassState) : ClassState :=
  if cls.cacheReady then cls else { setupInitialCache cfg cls with cacheReady := true }

end Fill

end MulleObjcRuntime.Impcache
