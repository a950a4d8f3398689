import MulleObjcRuntime.Dispatch.Calls

/-!
# Throwing away the cache of a class

* `Cache.Valid.probeLoop_eq_some`, `Cache.Valid.cached_of_offset` — what the loops over a cache come to, when they end;
* `Idle` — a class that is to have no cache has none;
* `Clears` — what an invalidation for some methods does to a class: nothing, or it throws away all that is cached;
* `invalidateImpcache_clears`, `invalidateCaches_clears` — an invalidation that ends does just that.
-/

namespace MulleObjcRuntime.Dispatch

open Classes Impcache

/-! ## Loops that end -/

section Loops

variable {shift uniqueid fuel offset : ℕ} {cache : Cache}

lemma probeLoop_eq_some (h : cache.Valid shift) (hid : uniqueid ≠ 0) {r : Option ℕ}
    (hloop : probeLoop shift cache uniqueid fuel uniqueid = some r) : r = cache.cached uniqueid := by
  rw [h.probeLoop_eq hid, Lib.OpenAddressing.lookup, Option.map_eq_some_iff] at hloop
  obtain ⟨i, hprobe, rfl⟩ := hloop
  obtain ⟨d, -, hi, hstops, -⟩ := Lib.OpenAddressing.probe_eq_some.1 hprobe
  have hlt : i < cache.entries.length := hi ▸ Nat.mod_lt _ h.length_pos
  cases hslot : cache.slot i with
  | none =>
    rw [(absent_iff hid).1 (h.chained.absent_of_free hprobe hslot)]
    rfl
  | some e =>
    obtain ⟨k, v⟩ := e
    have hk : k = uniqueid := hstops _ hslot
    subst hk
    rw [(h.stored_iff hid).1 ⟨i, hlt, hslot⟩]
    rfl

lemma entryAt_keyed (h : cache.Valid shift) (offset : ℕ) :
    (cache.entryAt shift offset).uniqueid = 0 ↔ (cache.entryAt shift offset).value = 0 := by
  unfold Cache.entryAt
  rw [List.getD_eq_getElem?_getD]
  cases hget : cache.entries[offset / sizeofCacheentry shift]? with
  | none => simp
  | some e => exact h.keyed e (List.mem_of_getElem? hget)

lemma probeLoop_eq_map (h : cache.Valid shift) (uniqueid fuel offset : ℕ) :
    probeLoop shift cache uniqueid fuel offset = (probeEntryoffset shift cache uniqueid fuel offset).map fun offset =>
      if (cache.entryAt shift offset).uniqueid = uniqueid then some (cache.entryAt shift offset).value else none := by
  induction fuel generalizing offset with
  | zero => rfl
  | succ fuel ih =>
    have hkeyed := entryAt_keyed h (offset &&& cache.mask)
    unfold probeLoop probeEntryoffset
    by_cases hid : (cache.entryAt shift (offset &&& cache.mask)).uniqueid = uniqueid
    · simp only [hid, if_true, Option.map_some]
    · by_cases hzero : (cache.entryAt shift (offset &&& cache.mask)).uniqueid = 0
      · simp only [if_neg hid, if_pos hzero, if_pos (hkeyed.1 hzero), Option.map_some]
      · simp only [if_neg hid, if_neg hzero, if_neg fun hvalue => hzero (hkeyed.2 hvalue), ih]

lemma cached_of_offset (h : cache.Valid shift) (hid : uniqueid ≠ 0)
    (hoffset : probeEntryoffset shift cache uniqueid fuel uniqueid = some offset)
    (hzero : (cache.entryAt shift offset).uniqueid = 0) : cache.cached uniqueid = none := by
  have hloop := probeLoop_eq_map h uniqueid fuel uniqueid
  rw [hoffset, Option.map_some, hzero, if_neg (Ne.symm hid)] at hloop
  exact (probeLoop_eq_some h hid hloop).symm

end Loops

/-! ## One class -/

variable {p : Setting} {state state' : ClassState}

/-- A class with `MULLE_OBJC_CLASS_ALWAYS_EMPTY_CACHE` has no cache of its own. -/
def Idle (state : ClassState) : Prop := state.alwaysEmptyCache = true → state.callback ≠ .normal

/-- The class with a new cache of the same size. -/
def cleared (p : Setting) (state : ClassState) : ClassState :=
  { state with cache := growWithStrategy p.shift state.cache .stagnate }

lemma cached_cleared (p : Setting) (state : ClassState) {k : ℕ} (hk : k ≠ 0) :
    (cleared p state).cache.cached k = none :=
  (impcacheNew_installed _ _).cached_of_empty (impcacheNew_n _ _) hk

lemma normal_of_cached (h : state.Inv p.toConfig) {k v : ℕ} (hk : k ≠ 0) (hv : state.cache.cached k = some v) :
    state.callback = .normal := by
  by_contra hne
  rw [h.zero hne, zeroCache_cached k hk] at hv
  cases hv

lemma cached_of_idle (h : state.Inv p.toConfig) (hidle : Idle state) (halways : state.alwaysEmptyCache = true) {k : ℕ}
    (hk : k ≠ 0) : state.cache.cached k = none := by
  rw [h.zero (hidle halways)]
  exact zeroCache_cached k hk

lemma Sound.idle (hs : Sound p state) : Idle state := by
  intro halways
  rw [hs.caching] at halways
  cases halways

lemma Sound.cleared (hs : Sound p state) (hnormal : state.callback = .normal) : Sound p (cleared p state) := by
  have hspare := hs.spare hnormal
  obtain ⟨bits, hbits, hsize⟩ := hspare.toInstalled.size_two_pow
  have hnew : growWithStrategy p.shift state.cache .stagnate = Cache.uncut p.shift (2 ^ min bits 22) := by
    have hmax : 2 ^ bits ≤ 2 ^ 22 := hsize ▸ hspare.le_max
    rw [growWithStrategy, getResize, impcacheNew, hsize, Nat.mod_eq_of_lt (by omega), impcacheSize_two_pow hbits]
  refine ⟨Step.inv hs.toInv (Step.swap state .stagnate hnormal), fun _ => ?_, hs.caching⟩
  show Spare p.toConfig (growWithStrategy p.shift state.cache .stagnate)
  rw [hnew]
  apply spare_uncut (by omega) (by omega)
  have hfits := hspare.fits
  rw [hsize] at hfits
  rcases le_or_gt bits 22 with hle | hlt
  · rw [min_eq_left hle]
    exact hfits
  · rw [min_eq_right hlt.le]
    exact rateFits_of_ten_le (by omega) p.fillrate_le

/-- What an invalidation for some methods does to a class: nothing, or it gets a new cache.  What is cached then was
cached before, and is not for one of the methods. -/
structure Clears (p : Setting) (methods : List Method) (state state' : ClassState) : Prop where
  kept_or_cleared : state' = state ∨ state.callback = .normal ∧ state' = cleared p state
  cached : ∀ k ≠ 0, ∀ v, state'.cache.cached k = some v →
    state.cache.cached k = some v ∧ ∀ method ∈ methods, method.methodid ≠ k

/-- The invalidation for one method tells whether the cache has been thrown away; if not, the method is not cached. -/
lemma invalidateImpcacheentry_clears (h : state.Inv p.toConfig) (hidle : Idle state) {fuel uniqueid : ℕ}
    (hid : uniqueid ≠ 0) {swapped : Bool}
    (hinvalidate : invalidateImpcacheentry p.toConfig fuel state uniqueid = .ok (swapped, state')) :
    (swapped = true ∧ state.callback = .normal ∧ state' = cleared p state) ∨
      (swapped = false ∧ state' = state ∧ state.cache.cached uniqueid = none) := by
  unfold invalidateImpcacheentry at hinvalidate
  split at hinvalidate
  · rename_i halways
    cases hinvalidate
    exact Or.inr ⟨rfl, rfl, cached_of_idle h hidle halways hid⟩
  split at hinvalidate
  · rename_i hn
    cases hinvalidate
    exact Or.inr ⟨rfl, rfl, h.valid.cached_of_empty hn hid⟩
  rename_i hn
  simp only at hinvalidate
  split at hinvalidate
  · cases hinvalidate
  rename_i offset hoffset
  split at hinvalidate
  · rename_i hzero
    cases hinvalidate
    exact Or.inr ⟨rfl, rfl, cached_of_offset h.valid hid hoffset hzero⟩
  · cases hinvalidate
    exact Or.inl ⟨rfl, h.normal_of_entries hn, rfl⟩

/-- **The invalidation for the methods of a list**: it is over as soon as the cache has been thrown away. -/
lemma invalidateImpcache_clears (h : state.Inv p.toConfig) (hidle : Idle state) {methods : List Method}
    (hmethods : ∀ method ∈ methods, method.methodid ≠ 0) (hinvalidate : invalidateImpcache p state methods = .ok state') :
    Clears p methods state state' := by
  induction methods with
  | nil =>
    cases hinvalidate
    exact ⟨Or.inl rfl, fun k _ v hv => ⟨hv, by simp⟩⟩
  | cons method methods ih =>
    rw [List.forall_mem_cons] at hmethods
    unfold invalidateImpcache at hinvalidate
    split at hinvalidate
    · cases hinvalidate
    · rename_i hentry
      cases hinvalidate
      rcases invalidateImpcacheentry_clears h hidle hmethods.1 hentry with ⟨-, hnormal, rfl⟩ | ⟨hswapped, -⟩
      · refine ⟨Or.inr ⟨hnormal, rfl⟩, fun k hk v hv => ?_⟩
        rw [cached_cleared p state hk] at hv
        cases hv
      · cases hswapped
    · rename_i hentry
      rcases invalidateImpcacheentry_clears h hidle hmethods.1 hentry with ⟨hswapped, -⟩ | ⟨-, rfl, hnone⟩
      · cases hswapped
      · have hrest := ih hmethods.2 hinvalidate
        refine ⟨hrest.kept_or_cleared, fun k hk v hv => ?_⟩
        obtain ⟨hcached, hmissing⟩ := hrest.cached k hk v hv
        refine ⟨hcached, List.forall_mem_cons.2 ⟨fun heq => ?_, hmissing⟩⟩
        rw [heq, hcached] at hnone
        cases hnone

/-- **One class of the walk.** -/
lemma invalidateCaches_clears (h : state.Inv p.toConfig) (hidle : Idle state) {list : MethodList}
    (hmethods : ∀ method ∈ list.methods, method.methodid ≠ 0) (hinvalidate : invalidateCaches p list state = .ok state') :
    Clears p list.methods state state' := by
  unfold invalidateCaches at hinvalidate
  split at hinvalidate
  · rename_i hready
    cases hinvalidate
    refine ⟨Or.inl rfl, fun k hk v hv => ?_⟩
    rw [(h.installed (normal_of_cached h hk hv)).1] at hready
    cases hready
  · exact invalidateImpcache_clears h hidle hmethods hinvalidate

namespace Clears

variable {methods : List Method}

lemma inv (hclears : Clears p methods state state') (h : state.Inv p.toConfig) : state'.Inv p.toConfig := by
  rcases hclears.kept_or_cleared with rfl | ⟨hnormal, rfl⟩
  · exact h
  · exact Step.inv h (Step.swap state .stagnate hnormal)

lemma sound (hclears : Clears p methods state state') (hs : Sound p state) : Sound p state' := by
  rcases hclears.kept_or_cleared with rfl | ⟨hnormal, rfl⟩
  · exact hs
  · exact hs.cleared hnormal

lemma kept (hclears : Clears p methods state state') : ∃ cache, state' = { state with cache } := by
  rcases hclears.kept_or_cleared with rfl | ⟨-, rfl⟩
  · exact ⟨state'.cache, rfl⟩
  · exact ⟨_, rfl⟩

end Clears

end MulleObjcRuntime.Dispatch
