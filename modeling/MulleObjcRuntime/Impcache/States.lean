import MulleObjcRuntime.Impcache.Table

/-!
# The reachable states of a class's method cache

* `Step` — what happens to the cache of a class: its set up, fills, growths and invalidations;
* `Reachable` — the states that come about;
* `ClassState.Inv` — which cache is installed when, and that it is a table; `Step.inv` and `Reachable.inv`.
-/

namespace MulleObjcRuntime.Impcache

open Classes

/-- One step of a class's cache without a concurrent writer.  The caches of the set up are swapped in when the class
is initializing, the first cache after the empty one. -/
inductive Step (cfg : Config) : ClassState → ClassState → Prop
  | initializing (cls : ClassState) : Step cfg cls { cls with initializing := true }
  | setupInitializeCache (cls : ClassState) (hinit : cls.initializing = true) :
      Step cfg cls (setupInitializeCache cls)
  | setupInitialCache (cls : ClassState) (hcallback : cls.callback ≠ .initial) :
      Step cfg cls (setupInitialCacheIfNeeded cfg cls)
  | fill (cls cls' : ClassState) (fuel uniqueid : ℕ) (method : Method) (hid : uniqueid ≠ 0)
      (himp : method.implementation ≠ 0) (hfill : fillImpcacheMethod cfg fuel cls method uniqueid = .ok cls') :
      Step cfg cls cls'
  | swap (cls : ClassState) (strategy : CacheSizing) (hcallback : cls.callback = .normal) :
      Step cfg cls { cls with cache := growWithStrategy cfg.shift cls.cache strategy }
  | invalidate (cls cls' : ClassState) (fuel uniqueid : ℕ) (swapped : Bool)
      (hinvalidate : invalidateImpcacheentry cfg fuel cls uniqueid = .ok (swapped, cls')) : Step cfg cls cls'
  | alwaysEmptyCache (cls : ClassState) : Step cfg cls { cls with alwaysEmptyCache := true }
  | other (cls : ClassState) (vtab : List (ℕ × ℕ)) (forwardmethod : Option Method) (isNotThreadAffine : Bool) :
      Step cfg cls { cls with vtab, forwardmethod, isNotThreadAffine }

/-- The states the cache of a new class gets into. -/
inductive Reachable (cfg : Config) : ClassState → Prop
  | new : Reachable cfg ClassState.new
  | step {cls cls' : ClassState} (h : Reachable cfg cls) (hstep : Step cfg cls cls') : Reachable cfg cls'

/-- Which cache a class has when.  A class that is ready and still has the empty cache is to have no other. -/
structure ClassState.Inv (cfg : Config) (cls : ClassState) : Prop where
  valid : cls.cache.Valid cfg.shift
  zero : cls.callback ≠ .normal → cls.cache = zeroCache
  installed : cls.callback = .normal → cls.cacheReady = true ∧ cls.cache.Installed cfg.shift
  initializing : cls.callback ≠ .initial → cls.initializing = true
  ready : cls.cacheReady = true → cls.callback ≠ .initial ∧ (cls.callback = .empty → cls.alwaysEmptyCache = true)

variable {cfg : Config} {cls cls' : ClassState} {fuel uniqueid : ℕ}

lemma ClassState.Inv.withCache (h : cls.Inv cfg) (hcallback : cls.callback = .normal) {cache : Cache}
    (hcache : cache.Installed cfg.shift) : ClassState.Inv cfg { cls with cache } :=
  ⟨hcache.toValid, fun hne => absurd hcallback hne, fun _ => ⟨(h.installed hcallback).1, hcache⟩, h.initializing,
    h.ready⟩

lemma ClassState.Inv.normal (h : cls.Inv cfg) (hready : cls.cacheReady = true)
    (halways : cls.alwaysEmptyCache = false) : cls.callback = .normal := by
  obtain ⟨hinitial, hempty⟩ := h.ready hready
  rcases hc : cls.callback with _ | _ | _
  · exact absurd hc hinitial
  · rw [hempty hc] at halways
    cases halways
  · rfl

lemma ClassState.Inv.normal_of_entries (h : cls.Inv cfg) (hn : cls.cache.n ≠ 0) : cls.callback = .normal := by
  by_contra hne
  rw [h.zero hne] at hn
  exact hn rfl

/-- What a fill does to a class: nothing, or an entry more in its cache. -/
lemma fillImpcacheMethod_eq_ok {method : Method} (h : fillImpcacheMethod cfg fuel cls method uniqueid = .ok cls') :
    cls' = cls ∨ ∃ cache, cls.cacheReady = true ∧ cls.alwaysEmptyCache = false ∧
      fillImpcachepivotImp cfg fuel method.implementation uniqueid fuel cls.cache = some cache ∧
      cls' = { cls with cache } := by
  unfold fillImpcacheMethod at h
  by_cases halways : cls.alwaysEmptyCache = true
  · rw [if_pos halways] at h
    exact Or.inl (Except.ok.inj h).symm
  rw [if_neg halways] at h
  by_cases htrace : cfg.debugs universeCallTraceBit = true
  · rw [if_pos htrace] at h
    exact Or.inl (Except.ok.inj h).symm
  rw [if_neg htrace] at h
  split at h
  · exact Or.inl (Except.ok.inj h).symm
  split at h
  · split at h
    · exact Or.inl (Except.ok.inj h).symm
    · cases h
  rename_i hready
  split at h
  · cases h
  · rename_i cache hfill
    exact Or.inr ⟨cache, by simpa using hready, by simpa using halways, hfill, (Except.ok.inj h).symm⟩

/-- What an invalidation does to a class: nothing, or a new cache. -/
lemma invalidateImpcacheentry_eq_ok {swapped : Bool}
    (h : invalidateImpcacheentry cfg fuel cls uniqueid = .ok (swapped, cls')) :
    cls' = cls ∨ (cls.cache.n ≠ 0 ∧ cls' = { cls with cache := growWithStrategy cfg.shift cls.cache .stagnate }) := by
  unfold invalidateImpcacheentry at h
  split at h
  · cases h
    exact Or.inl rfl
  split at h
  · cases h
    exact Or.inl rfl
  rename_i hn
  simp only at h
  split at h
  · cases h
    exact Or.inr ⟨hn, rfl⟩
  split at h
  · cases h
  split at h
  · cases h
    exact Or.inl rfl
  · cases h
    exact Or.inr ⟨hn, rfl⟩

lemma ClassState.Inv.setupInitializeCache (h : cls.Inv cfg) (hinit : cls.initializing = true) :
    (setupInitializeCache cls).Inv cfg := by
  unfold Impcache.setupInitializeCache
  split
  · rename_i hcallback
    refine ⟨zeroCache_valid _, fun _ => rfl, ?_, fun _ => hinit, ?_⟩
    · intro hnormal
      cases hnormal
    · intro hready
      exact absurd hcallback (h.ready hready).1
  · exact h

lemma ClassState.Inv.setupInitialCacheIfNeeded (h : cls.Inv cfg) (hcallback : cls.callback ≠ .initial) :
    (setupInitialCacheIfNeeded cfg cls).Inv cfg := by
  unfold Impcache.setupInitialCacheIfNeeded
  split
  · exact h
  rename_i hready
  unfold setupInitialCache
  split
  · rename_i halways
    exact ⟨h.valid, h.zero, fun hnormal => ⟨rfl, (h.installed hnormal).2⟩, h.initializing,
      fun _ => ⟨hcallback, fun _ => halways⟩⟩
  split
  · have hnew := impcacheNew_installed cfg.shift cfg.initialCacheSize
    refine ⟨hnew.toValid, fun hne => absurd rfl hne, fun _ => ⟨rfl, hnew⟩, fun _ => h.initializing hcallback, ?_⟩
    intro _
    exact ⟨by simp, by simp⟩
  · rename_i hempty
    exact ⟨h.valid, h.zero, fun hnormal => ⟨rfl, (h.installed hnormal).2⟩, h.initializing,
      fun _ => ⟨hcallback, fun he => absurd he hempty⟩⟩

lemma setupInitialCacheIfNeeded_empty (cfg : Config) (hempty : cls.callback = .empty) (hn : cls.cache.n = 0) :
    (setupInitialCacheIfNeeded cfg cls).callback ≠ .initial ∧ (setupInitialCacheIfNeeded cfg cls).cache.n = 0 := by
  unfold Impcache.setupInitialCacheIfNeeded setupInitialCache
  by_cases hready : cls.cacheReady = true
  · simp [hready, hempty, hn]
  · by_cases halways : cls.alwaysEmptyCache = true
    · simp [hready, halways, hempty, hn]
    · simp [hready, halways, hempty, impcacheNew_n]

/-- **A step keeps the invariant.** -/
theorem Step.inv (h : cls.Inv cfg) (hstep : Step cfg cls cls') : cls'.Inv cfg := by
  cases hstep with
  | initializing => exact ⟨h.valid, h.zero, h.installed, fun _ => rfl, h.ready⟩
  | setupInitializeCache hinit => exact h.setupInitializeCache hinit
  | setupInitialCache hcallback => exact h.setupInitialCacheIfNeeded hcallback
  | fill _ fuel uniqueid method hid himp hfill =>
    rcases fillImpcacheMethod_eq_ok hfill with rfl | ⟨cache, hready, halways, hcache, rfl⟩
    · exact h
    · have hnormal := h.normal hready halways
      exact h.withCache hnormal (fillImpcachepivotImp_spec (h.installed hnormal).2 hid himp hcache).1
  | swap strategy hcallback => exact h.withCache hcallback (impcacheNew_installed _ _)
  | invalidate _ fuel uniqueid swapped hinvalidate =>
    rcases invalidateImpcacheentry_eq_ok hinvalidate with rfl | ⟨hn, rfl⟩
    · exact h
    · exact h.withCache (h.normal_of_entries hn) (impcacheNew_installed _ _)
  | alwaysEmptyCache =>
    exact ⟨h.valid, h.zero, h.installed, h.initializing, fun hready => ⟨(h.ready hready).1, fun _ => rfl⟩⟩
  | other => exact ⟨h.valid, h.zero, h.installed, h.initializing, h.ready⟩

lemma ClassState.new_inv (cfg : Config) : ClassState.new.Inv cfg := by
  refine ⟨zeroCache_valid _, fun _ => rfl, ?_, ?_, ?_⟩
  · intro hnormal
    cases hnormal
  · intro hne
    exact absurd rfl hne
  · intro hready
    cases hready

/-- **Every reachable cache is a table.** -/
theorem Reachable.inv (h : Reachable cfg cls) : cls.Inv cfg := by
  induction h with
  | new => exact ClassState.new_inv cfg
  | step _ hstep ih => exact hstep.inv ih

end MulleObjcRuntime.Impcache
