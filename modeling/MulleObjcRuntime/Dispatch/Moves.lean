import Mathlib.Logic.Relation
import MulleObjcRuntime.Dispatch.Runtime

/-!
# What an operation does to a class

* `Sound` — what holds of the state of a class at all times;
* `Key`, `found` — what a class is asked for, and the method a search comes to;
* `Move` — the changes of a class: its set up, its forward method, an entry in its cache, a fast method;
* `Move.inv`, `Move.sound` — what a move keeps;
* `Move.cached`, `Move.forwardmethod`, `Move.vtab` — what a move can add.
-/

namespace MulleObjcRuntime.Dispatch

open Classes Impcache Relation

variable (p : Setting) (u : Universe) (cls : ClassRef ℕ)

/-! ## Classes -/

/-- What holds of a class at all times: its cache is a table with an empty slot. -/
structure Sound (state : ClassState) : Prop extends state.Inv p.toConfig where
  spare : state.callback = .normal → Spare p.toConfig state.cache
  caching : state.alwaysEmptyCache = false

/-- The first cache of a class, and with it all others, has a size that fits the fill rate. -/
def Setting.Fits : Prop := RateFits (impcacheSize p.initialCacheSize) p.fillrate

/-- No method of a class has `NULL` for its implementation. -/
def Implemented : Prop :=
  (∀ methodid method, Invalidation.defaultsearchMethod u.graph cls methodid = some method → method.implementation ≠ 0) ∧
    ∀ methodid classid method, supersearchMethod u.graph cls methodid classid = some method → method.implementation ≠ 0

/-- What a class is asked for. -/
inductive Key
  | method (methodid : ℕ)
  | super (superid : ℕ)
deriving DecidableEq

/-- The id in the cache. -/
def Key.uniqueid : Key → ℕ
  | .method methodid => methodid
  | .super superid => superid

/-- The method a search comes to, when the forward method is `forward`. -/
def found (forward : Option Method) : Key → Option Method
  | .method methodid => (Invalidation.defaultsearchMethod u.graph cls methodid).or forward
  | .super superid =>
    (p.superids superid).bind fun (classid, methodid) => (supersearchMethod u.graph cls methodid classid).or forward

/-- One change of a class that is asked for `key`. -/
inductive Move (key : Key) : ClassState → ClassState → Prop
  | begins (state : ClassState) (h : state.initializing = false) :
      Move key state (setupInitializeCache { state with initializing := true })
  | ends (state : ClassState) (h : state.callback ≠ .initial) :
      Move key state (setupInitialCacheIfNeeded p.toConfig state)
  | remembers (state : ClassState) (method : Method) (h : state.forwardmethod = none)
      (hmethod : freshForwardmethod p u cls = some method) : Move key state { state with forwardmethod := some method }
  | fills (state state' : ClassState) (method : Method) (fuel : ℕ) (hid : key.uniqueid ≠ 0)
      (hmethod : found p u cls state.forwardmethod key = some method)
      (hfill : fillImpcacheMethod p.toConfig fuel state method key.uniqueid = .ok state') : Move key state state'
  | slots (state : ClassState) (methodid index imp : ℕ) (hkey : key = .method methodid) (hid : methodid ≠ 0)
      (hindex : getFastmethodtableIndex (environment p cls) methodid = some index)
      (hfree : state.vtab.lookup index = none) (hdebug : p.methodCall = 0)
      (himp : state.cache.cached methodid = some imp ∨
        state.cache.cached methodid = none ∧ ∃ method, found p u cls state.forwardmethod key = some method ∧
          method.implementation = imp) :
      Move key state { state with vtab := (index, imp) :: state.vtab }

/-- Several changes. -/
abbrev Moves (key : Key) : ClassState → ClassState → Prop := ReflTransGen (Move p u cls key)

variable {p u cls} {key : Key} {state state' : ClassState}

/-! ## The parts of a set up -/

section Setup

@[simp] lemma setupInitializeCache_forwardmethod : (setupInitializeCache state).forwardmethod = state.forwardmethod := by
  unfold setupInitializeCache
  split <;> rfl

@[simp] lemma setupInitializeCache_vtab : (setupInitializeCache state).vtab = state.vtab := by
  unfold setupInitializeCache
  split <;> rfl

@[simp] lemma setupInitializeCache_initializing :
    (setupInitializeCache state).initializing = state.initializing := by
  unfold setupInitializeCache
  split <;> rfl

@[simp] lemma setupInitializeCache_always :
    (setupInitializeCache state).alwaysEmptyCache = state.alwaysEmptyCache := by
  unfold setupInitializeCache
  split <;> rfl

@[simp] lemma setupInitialCache_forwardmethod (cfg : Config) :
    (setupInitialCacheIfNeeded cfg state).forwardmethod = state.forwardmethod := by
  unfold setupInitialCacheIfNeeded setupInitialCache
  repeat' split <;> try rfl

@[simp] lemma setupInitialCache_vtab (cfg : Config) : (setupInitialCacheIfNeeded cfg state).vtab = state.vtab := by
  unfold setupInitialCacheIfNeeded setupInitialCache
  repeat' split <;> try rfl

@[simp] lemma setupInitialCache_initializing (cfg : Config) :
    (setupInitialCacheIfNeeded cfg state).initializing = state.initializing := by
  unfold setupInitialCacheIfNeeded setupInitialCache
  repeat' split <;> try rfl

@[simp] lemma setupInitialCache_always (cfg : Config) :
    (setupInitialCacheIfNeeded cfg state).alwaysEmptyCache = state.alwaysEmptyCache := by
  unfold setupInitialCacheIfNeeded setupInitialCache
  repeat' split <;> try rfl

lemma cached_setupInitializeCache (state : ClassState) {k v : ℕ} (hk : k ≠ 0) (h : (setupInitializeCache state).cache.cached k = some v) :
    state.cache.cached k = some v := by
  unfold setupInitializeCache at h
  split at h
  · rw [zeroCache_cached k hk] at h
    cases h
  · exact h

lemma cached_setupInitialCache (cfg : Config) (state : ClassState) {k v : ℕ} (hk : k ≠ 0)
    (h : (setupInitialCacheIfNeeded cfg state).cache.cached k = some v) : state.cache.cached k = some v := by
  unfold setupInitialCacheIfNeeded setupInitialCache at h
  split at h
  · exact h
  split at h
  · exact h
  split at h
  · rw [(impcacheNew_installed cfg.shift cfg.initialCacheSize).cached_of_empty (impcacheNew_n _ _) hk] at h
    cases h
  · exact h

/-- A first cache is set up with an empty slot. -/
lemma spare_setupInitialCache (hfits : p.Fits) (hspare : state.callback = .normal → Spare p.toConfig state.cache)
    (hnormal : (setupInitialCacheIfNeeded p.toConfig state).callback = .normal) :
    Spare p.toConfig (setupInitialCacheIfNeeded p.toConfig state).cache := by
  unfold setupInitialCacheIfNeeded setupInitialCache at hnormal ⊢
  split
  · rename_i hready
    rw [if_pos hready] at hnormal
    exact hspare hnormal
  rename_i hready
  rw [if_neg hready] at hnormal
  split
  · rename_i halways
    rw [if_pos halways] at hnormal
    exact hspare hnormal
  rename_i halways
  rw [if_neg halways] at hnormal
  split
  · obtain ⟨bits, hbits, hmax, hsize⟩ := impcacheSize_eq p.initialCacheSize
    have hfits : RateFits (2 ^ bits) p.fillrate := hsize ▸ hfits
    show Spare p.toConfig (Cache.uncut p.shift (impcacheSize p.initialCacheSize))
    rw [hsize]
    exact spare_uncut hbits hmax hfits
  · rename_i hempty
    rw [if_neg hempty] at hnormal
    exact hspare hnormal

lemma beginInitialize_eq_some {new : ClassState} (h : beginInitialize state = some new) :
    state.initializing = false ∧ new = setupInitializeCache { state with initializing := true } := by
  unfold beginInitialize at h
  split at h
  · cases h
  · rename_i hinit
    cases h
    exact ⟨by simpa using hinit, rfl⟩

lemma endInitialize_eq_some {new : ClassState} (h : endInitialize p state = some new) :
    state.callback ≠ .initial ∧ new = setupInitialCacheIfNeeded p.toConfig state := by
  unfold endInitialize at h
  split at h
  · cases h
  · rename_i hcallback
    cases h
    exact ⟨hcallback, rfl⟩

end Setup

/-! ## What a move keeps -/

lemma fill_kept {cfg : Config} {fuel uniqueid : ℕ} {method : Method}
    (h : fillImpcacheMethod cfg fuel state method uniqueid = .ok state') : ∃ cache, state' = { state with cache } := by
  rcases fillImpcacheMethod_eq_ok h with rfl | ⟨cache, -, -, -, rfl⟩
  · exact ⟨state'.cache, rfl⟩
  · exact ⟨cache, rfl⟩

lemma sound_new : Sound p ClassState.new := by
  refine ⟨ClassState.new_inv _, ?_, rfl⟩
  intro hnormal
  cases hnormal

lemma Sound.ends (h : Sound p state) (uniqueid : ℕ) :
    state.cache.cached uniqueid ≠ none ∨ state.cache.HasEmptySlot := by
  right
  by_cases hnormal : state.callback = .normal
  · have hspare := h.spare hnormal
    exact hspare.toInstalled.hasEmptySlot_iff.2 hspare.lt
  · rw [h.zero hnormal]
    decide

lemma found_ne_zero (hu : Implemented u cls) {forward : Option Method}
    (hforward : ∀ method ∈ forward, method.implementation ≠ 0) {method : Method}
    (h : found p u cls forward key = some method) : method.implementation ≠ 0 := by
  cases key with
  | method methodid =>
    rcases Option.or_eq_some_iff.1 h with h | ⟨-, h⟩
    · exact hu.1 _ _ h
    · exact hforward _ h
  | super superid =>
    obtain ⟨⟨classid, methodid⟩, -, h⟩ := Option.bind_eq_some_iff.1 h
    rcases Option.or_eq_some_iff.1 h with h | ⟨-, h⟩
    · exact hu.2 _ _ _ h
    · exact hforward _ h

/-- What holds of the forward method a class remembers. -/
def Forwards (state : ClassState) : Prop := ∀ method ∈ state.forwardmethod, method.implementation ≠ 0

lemma freshForwardmethod_ne_zero (hu : Implemented u cls) {method : Method}
    (h : freshForwardmethod p u cls = some method) : method.implementation ≠ 0 := by
  rcases Option.or_eq_some_iff.1 h with h | ⟨-, h⟩
  · exact hu.1 _ _ h
  · exact p.forwardmethod_ne_zero _ h

lemma Move.forwards (hu : Implemented u cls) (h : Move p u cls key state state') (hf : Forwards state) :
    Forwards state' := by
  cases h with
  | begins => simpa [Forwards] using hf
  | ends => simpa [Forwards] using hf
  | remembers method h hmethod =>
    intro m hm
    cases Option.some.inj hm
    exact freshForwardmethod_ne_zero hu hmethod
  | fills _ method fuel hid hmethod hfill =>
    obtain ⟨cache, rfl⟩ := fill_kept hfill
    exact hf
  | slots => exact hf

lemma Move.inv (hu : Implemented u cls) (h : Move p u cls key state state') (hf : Forwards state)
    (hs : state.Inv p.toConfig) : state'.Inv p.toConfig := by
  cases h with
  | begins hinit =>
    have h₁ : ClassState.Inv p.toConfig { state with initializing := true } := Step.inv hs (Step.initializing _)
    exact h₁.setupInitializeCache rfl
  | ends hcallback => exact hs.setupInitialCacheIfNeeded hcallback
  | remembers => exact ⟨hs.valid, hs.zero, hs.installed, hs.initializing, hs.ready⟩
  | fills _ method fuel hid hmethod hfill =>
    exact Step.inv hs (Step.fill _ _ fuel key.uniqueid method hid (found_ne_zero hu hf hmethod) hfill)
  | slots => exact ⟨hs.valid, hs.zero, hs.installed, hs.initializing, hs.ready⟩

lemma Move.sound (hfits : p.Fits) (hu : Implemented u cls) (h : Move p u cls key state state') (hf : Forwards state)
    (hs : Sound p state) : Sound p state' := by
  have hinv := h.inv hu hf hs.toInv
  cases h with
  | begins hinit =>
    refine ⟨hinv, fun hnormal => ?_, by simpa using hs.caching⟩
    unfold setupInitializeCache at hnormal ⊢
    split
    · rename_i hinitial
      rw [if_pos hinitial] at hnormal
      cases hnormal
    · rename_i hinitial
      rw [if_neg hinitial] at hnormal
      exact hs.spare hnormal
  | ends hcallback => exact ⟨hinv, spare_setupInitialCache hfits hs.spare, by simpa using hs.caching⟩
  | remembers => exact ⟨hinv, hs.spare, hs.caching⟩
  | fills _ method fuel hid hmethod hfill =>
    have himp := found_ne_zero hu hf hmethod
    refine ⟨hinv, ?_, ?_⟩
    · rcases fillImpcacheMethod_eq_ok hfill with rfl | ⟨cache, -, -, hcache, rfl⟩
      · exact hs.spare
      · exact fun hnormal => (hs.spare hnormal).fillImpcachepivotImp hid himp hcache
    · obtain ⟨cache, rfl⟩ := fill_kept hfill
      exact hs.caching
  | slots => exact ⟨hinv, hs.spare, hs.caching⟩

lemma Move.cached (hu : Implemented u cls) (h : Move p u cls key state state') (hf : Forwards state)
    (hs : state.Inv p.toConfig) {k v : ℕ} (hk : k ≠ 0) (hv : state'.cache.cached k = some v) :
    state.cache.cached k = some v ∨ k = key.uniqueid ∧
      ∃ method, found p u cls state.forwardmethod key = some method ∧ method.implementation = v := by
  cases h with
  | begins => exact Or.inl (cached_setupInitializeCache { state with initializing := true } hk hv)
  | ends => exact Or.inl (cached_setupInitialCache _ _ hk hv)
  | remembers => exact Or.inl hv
  | fills _ method fuel hid hmethod hfill =>
    rcases fillImpcacheMethod_eq_ok hfill with rfl | ⟨cache, hready, halways, hcache, rfl⟩
    · exact Or.inl hv
    · have hnormal := hs.normal hready halways
      have hfilled := (fillImpcachepivotImp_spec (hs.installed hnormal).2 hid (found_ne_zero hu hf hmethod) hcache).2
      rcases hfilled.old_or_new k hk v hv with hold | ⟨rfl, rfl⟩
      · exact Or.inl hold
      · exact Or.inr ⟨rfl, method, hmethod, rfl⟩
  | slots => exact Or.inl hv

lemma Move.forwardmethod (h : Move p u cls key state state') : state'.forwardmethod = state.forwardmethod ∨
    state.forwardmethod = none ∧ state'.forwardmethod = freshForwardmethod p u cls := by
  cases h with
  | begins => exact Or.inl (by simp)
  | ends => exact Or.inl (by simp)
  | remembers method h hmethod => exact Or.inr ⟨h, hmethod.symm⟩
  | fills _ method fuel hid hmethod hfill =>
    obtain ⟨cache, rfl⟩ := fill_kept hfill
    exact Or.inl rfl
  | slots => exact Or.inl rfl

lemma Move.vtab (h : Move p u cls key state state') : state'.vtab = state.vtab ∨
    ∃ methodid index imp, key = .method methodid ∧ methodid ≠ 0 ∧
      getFastmethodtableIndex (environment p cls) methodid = some index ∧ state.vtab.lookup index = none ∧
      state'.vtab = (index, imp) :: state.vtab ∧ (state.cache.cached methodid = some imp ∨
        state.cache.cached methodid = none ∧ ∃ method, found p u cls state.forwardmethod key = some method ∧
          method.implementation = imp) := by
  cases h with
  | begins => exact Or.inl (by simp)
  | ends => exact Or.inl (by simp)
  | remembers => exact Or.inl rfl
  | fills _ method fuel hid hmethod hfill =>
    obtain ⟨cache, rfl⟩ := fill_kept hfill
    exact Or.inl rfl
  | slots methodid index imp hkey hid hindex hfree _ himp =>
    exact Or.inr ⟨methodid, index, imp, hkey, hid, hindex, hfree, rfl, himp⟩

lemma Move.vtab_of_debug (hdebug : p.methodCall ≠ 0) (h : Move p u cls key state state') : state'.vtab = state.vtab := by
  cases h with
  | begins => exact setupInitializeCache_vtab
  | ends => exact setupInitialCache_vtab _
  | remembers => rfl
  | fills _ method fuel hid hmethod hfill =>
    obtain ⟨cache, rfl⟩ := fill_kept hfill
    rfl
  | slots methodid index imp hkey hid hindex hfree hzero => exact absurd hzero hdebug

end MulleObjcRuntime.Dispatch
