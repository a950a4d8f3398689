import MulleObjcRuntime.Impcache.Calls
import MulleObjcRuntime.Impcache.States

/-!
# All call paths select the same implementation

* `selected` — what a call is to select: what is cached, else what the refresh function yields;
* `Quiet` — a search leaves the class as it is, once the class is being set up;
* `callProbing_eq` and its siblings — each access to the cache ends with `selected`, whichever callback it falls into;
* `calls_agree` — the call paths on every reachable cache;
* `fast_methods_bypass_the_cache` — the paths that prefer fast methods do not look into the cache for them.
-/

namespace MulleObjcRuntime.Impcache

open Classes

variable {W : Type} (env : Environment W) (search : ℕ → State W → Except Stop (Method × State W))

/-- The state in which the cache is asked: the initial cache makes the class be set up. -/
def prepared (s : State W) : State W := if s.cls.callback = .initial then (classSetup env s).2 else s

/-- **What a call by `uniqueid` is to select**: the cached implementation if the id is cached, otherwise the one the
refresh function yields. -/
def selected (fuel uniqueid : ℕ) (s : State W) : Selection W :=
  match (prepared env s).cls.cache.cached uniqueid with
  | some imp => .ok (imp, prepared env s)
  | none => refreshed env search fuel uniqueid (prepared env s)

/-- A search on a class that is being set up, or has been, at most remembers its forward method. -/
structure Quiet : Prop where
  quiet : ∀ uniqueid s method s', s.cls.initializing = true → search uniqueid s = .ok (method, s') →
    ∃ forwardmethod, s' = { s with cls := { s.cls with forwardmethod } }
  ends : ∀ uniqueid s, search uniqueid s ≠ .error .outOfFuel

variable {search} {s s' : State W} {fuel uniqueid : ℕ}

/-! ## Searching -/

section Searching

lemma defaultsearchMethod_initializing (hinit : s.cls.initializing = true) (methodid : ℕ) :
    defaultsearchMethod env methodid s = (env.defaultsearch s.world methodid, s) := by
  simp [defaultsearchMethod, setupBeforeSearch, hinit]

lemma getForwardmethodLazyNofail_quiet {missingMethod : ℕ} {method : Method} (hinit : s.cls.initializing = true)
    (h : getForwardmethodLazyNofail env missingMethod s = .ok (method, s')) :
    ∃ forwardmethod, s' = { s with cls := { s.cls with forwardmethod } } := by
  unfold getForwardmethodLazyNofail lazygetForwardmethod at h
  rw [defaultsearchMethod_initializing env hinit] at h
  rcases hf : s.cls.forwardmethod with _ | m
  · simp only [hf] at h
    split at h
    · rename_i heq
      cases h
      exact ⟨_, (Prod.mk.inj heq).2.symm⟩
    · cases h
  · simp only [hf] at h
    cases h
    exact ⟨some method, by rw [← hf]⟩

lemma getForwardmethodLazyNofail_ends (missingMethod : ℕ) (s : State W) :
    getForwardmethodLazyNofail env missingMethod s ≠ .error .outOfFuel := by
  unfold getForwardmethodLazyNofail
  split <;> simp

lemma searchMethodNofail_quiet : Quiet (searchMethodNofail env) := by
  constructor
  · intro methodid s method s' hinit h
    unfold searchMethodNofail at h
    rw [defaultsearchMethod_initializing env hinit] at h
    split at h
    · rename_i heq
      cases h
      exact ⟨s.cls.forwardmethod, (Prod.mk.inj heq).2.symm⟩
    · rename_i heq
      rw [← (Prod.mk.inj heq).2] at h
      exact getForwardmethodLazyNofail_quiet env hinit h
  · intro methodid s
    unfold searchMethodNofail
    split
    · simp
    · exact getForwardmethodLazyNofail_ends env _ _

lemma supersearchMethodNofail_quiet : Quiet (supersearchMethodNofail env) := by
  constructor
  · intro superid s method s' hinit h
    unfold supersearchMethodNofail at h
    split at h
    · cases h
    · simp only [setupBeforeSearch, hinit, Bool.true_or, if_true] at h
      split at h
      · cases h
        exact ⟨s.cls.forwardmethod, rfl⟩
      · exact getForwardmethodLazyNofail_quiet env hinit h
  · intro superid s
    unfold supersearchMethodNofail
    split
    · simp
    · simp only
      split
      · simp
      · exact getForwardmethodLazyNofail_ends env _ _

end Searching

/-! ## Refreshing -/

lemma fill_idle (cls : ClassState) (h : cls.Inv env.toConfig) (hnormal : cls.callback ≠ .normal)
    (hinit : cls.initializing = true) (method : Method) :
    fillImpcacheMethod env.toConfig fuel cls method uniqueid = .ok cls := by
  unfold fillImpcacheMethod
  by_cases halways : cls.alwaysEmptyCache = true
  · rw [if_pos halways]
  · have hready : cls.cacheReady = false := by
      by_contra hready
      exact hnormal (h.normal (by simpa using hready) (by simpa using halways))
    simp [halways, hready, hinit]

/-- A fill of a reachable cache ends. -/
lemma fill_ends (cls : ClassState) (h : cls.Inv env.toConfig) (hid : uniqueid ≠ 0) (hfuel : 2 ≤ fuel)
    (hprobes : cls.cache.entries.length ≤ fuel ∨ cls.cache.n = 0) (method : Method) :
    fillImpcacheMethod env.toConfig fuel cls method uniqueid ≠ .error .outOfFuel := by
  unfold fillImpcacheMethod
  split
  · simp
  rename_i halways
  split
  · simp
  split
  · simp
  split
  · split <;> simp
  rename_i hready
  have hnormal := h.normal (by simpa using hready) (by simpa using halways)
  have hfill := fillImpcachepivotImp_ne_none method.implementation (h.installed hnormal).2 hid
    hfuel (hprobes.imp_right fun hn => ⟨hn, by omega⟩) (by omega)
  split
  · rename_i hnone
    exact absurd hnone hfill
  · simp

lemma refreshed_idle (hquiet : Quiet search) (h : s.cls.Inv env.toConfig) (hnormal : s.cls.callback ≠ .normal)
    (hinit : s.cls.initializing = true) : refreshed env search fuel uniqueid s = callSlow search uniqueid s := by
  unfold refreshed refreshNofail callSlow
  rcases hsearch : search uniqueid s with stop | ⟨method, s'⟩
  · rfl
  · obtain ⟨forwardmethod, rfl⟩ := hquiet.quiet _ _ _ _ hinit hsearch
    have hidle : fillImpcacheMethod env.toConfig fuel { s.cls with forwardmethod } method uniqueid =
        .ok { s.cls with forwardmethod } :=
      fill_idle env { s.cls with forwardmethod }
        ⟨h.valid, h.zero, h.installed, h.initializing, h.ready⟩ hnormal hinit method
    simp only [bind, Except.bind, hidle]
    rfl

lemma classSetup_begins (h : s.cls.Inv env.toConfig) (hinitial : s.cls.callback = .initial)
    (hinit : s.cls.initializing ≠ true) : ∃ s', classSetup env s = (false, s') ∧ s'.cls.Inv env.toConfig ∧
      s'.cls.callback ≠ .initial ∧ s'.cls.cache.n = 0 := by
  have h₁ : ClassState.Inv env.toConfig { s.cls with initializing := true } := Step.inv h (Step.initializing _)
  have hempty : (setupInitializeCache { s.cls with initializing := true }).callback = .empty := by
    simp [setupInitializeCache, hinitial]
  have h₂ := h₁.setupInitializeCache rfl
  have hn : (setupInitializeCache { s.cls with initializing := true }).cache.n = 0 := by
    rw [h₂.zero (by rw [hempty]; simp)]
    rfl
  obtain ⟨hcallback, hn⟩ := setupInitialCacheIfNeeded_empty env.toConfig hempty hn
  refine ⟨⟨env.runInitialize s.world, _⟩, ?_, h₂.setupInitialCacheIfNeeded (by rw [hempty]; simp), hcallback, hn⟩
  exact if_neg hinit

lemma classSetup_inv (h : s.cls.Inv env.toConfig) (hinitial : s.cls.callback = .initial) :
    (classSetup env s).2.cls.Inv env.toConfig ∧ (classSetup env s).2.cls.initializing = true ∧
      (classSetup env s).2.cls.cache.n = 0 := by
  by_cases hinit : s.cls.initializing = true
  · have hsetup : classSetup env s = (true, s) := by simp [classSetup, hinit]
    rw [hsetup]
    refine ⟨h, hinit, ?_⟩
    rw [h.zero (by rw [hinitial]; simp)]
    rfl
  · obtain ⟨s', hsetup, hinv, hcallback, hn⟩ := classSetup_begins env h hinitial hinit
    rw [hsetup]
    exact ⟨hinv, hinv.initializing hcallback, hn⟩

lemma prepared_inv (h : s.cls.Inv env.toConfig) :
    (prepared env s).cls.Inv env.toConfig ∧ (prepared env s).cls.initializing = true ∧
      (prepared env s = s ∨ (prepared env s).cls.cache.n = 0) := by
  unfold prepared
  split
  · rename_i hinitial
    obtain ⟨hinv, hinit, hn⟩ := classSetup_inv env h hinitial
    exact ⟨hinv, hinit, Or.inr hn⟩
  · rename_i hinitial
    exact ⟨h, h.initializing hinitial, Or.inl rfl⟩

/-- **The initial cache sets up the class and goes on as the new cache does.** -/
lemma callNeedcache_eq (hquiet : Quiet search) (h : s.cls.Inv env.toConfig) (hinitial : s.cls.callback = .initial)
    (hid : uniqueid ≠ 0) {rounds : ℕ} (hrounds : 0 < rounds) :
    callNeedcache env search fuel uniqueid rounds s = selected env search fuel uniqueid s := by
  obtain ⟨hinv, hinit, hn⟩ := classSetup_inv env h hinitial
  have hselected : selected env search fuel uniqueid s =
      refreshed env search fuel uniqueid (classSetup env s).2 := by
    unfold selected prepared
    rw [if_pos hinitial, hinv.valid.cached_of_empty hn hid]
  obtain ⟨rounds, rfl⟩ : ∃ r, rounds = r + 1 := ⟨rounds - 1, by omega⟩
  rw [hselected, callNeedcache]
  by_cases hinits : s.cls.initializing = true
  · -- the class is being set up by this thread: the search is enough
    have hsetup : classSetup env s = (true, s) := by simp [classSetup, hinits]
    rw [hsetup] at hinv hinit ⊢
    exact (refreshed_idle env hquiet hinv (by rw [hinitial]; simp) hinit).symm
  · obtain ⟨s', hsetup, -, hcallback, -⟩ := classSetup_begins env h hinitial hinits
    rw [hsetup] at hinv hinit ⊢
    simp only at hinv hinit ⊢
    rcases hc : s'.cls.callback with _ | _ | _
    · exact absurd hc hcallback
    · exact (refreshed_idle env hquiet hinv (by rw [hc]; simp) hinit).symm
    · rfl

/-! ## The callbacks and the inlined accesses -/

section Agreement

variable (hquiet : Quiet search) (h : s.cls.Inv env.toConfig) (hid : uniqueid ≠ 0)
  (hends : s.cls.cache.cached uniqueid ≠ none ∨ s.cls.cache.HasEmptySlot)
  (hfuel : s.cls.cache.entries.length < fuel)

lemma selected_normal (hnormal : s.cls.callback = .normal) : selected env search fuel uniqueid s =
    afterLoop env search fuel (some (s.cls.cache.cached uniqueid)) uniqueid s := by
  unfold selected prepared afterLoop
  rw [if_neg (by rw [hnormal]; simp)]
  rcases s.cls.cache.cached uniqueid with _ | imp <;> rfl

include h hid

lemma cached_idle (hnormal : s.cls.callback ≠ .normal) : s.cls.cache.cached uniqueid = none := by
  rw [h.zero hnormal]
  exact zeroCache_cached uniqueid hid

include hquiet in
lemma selected_empty (hempty : s.cls.callback = .empty) :
    selected env search fuel uniqueid s = callSlow search uniqueid s := by
  unfold selected prepared
  rw [if_neg (by rw [hempty]; simp), cached_idle env h hid (by rw [hempty]; simp)]
  exact refreshed_idle env hquiet h (by rw [hempty]; simp) (h.initializing (by rw [hempty]; simp))

include hquiet hends hfuel

/-- **The `call` callback.** -/
theorem call_eq : call env search fuel uniqueid s = selected env search fuel uniqueid s := by
  unfold call
  rcases hc : s.cls.callback with _ | _ | _
  · exact callNeedcache_eq env hquiet h hc hid (by omega)
  · exact (selected_empty env hquiet h hid hc).symm
  · rw [selected_normal env hc, ← h.valid.probeLoop_home hid hends (by omega : _ ≤ fuel)]
    rfl

/-- **The collision callback**, entered when the first slot does not hold the id. -/
theorem callCacheCollision_eq (hfirst : (firstEntry env uniqueid s).uniqueid ≠ uniqueid) :
    callCacheCollision env search fuel uniqueid s = selected env search fuel uniqueid s := by
  unfold callCacheCollision
  rcases hc : s.cls.callback with _ | _ | _
  · exact callNeedcache_eq env hquiet h hc hid (by omega)
  · exact (selected_empty env hquiet h hid hc).symm
  · rw [selected_normal env hc, ← h.valid.probeLoop_home hid hends (by omega : _ ≤ fuel),
      ← h.valid.collisionLoop_home hid hfirst (by omega : _ ≤ fuel)]
    rfl

omit hends in
/-- **The miss callback**, entered when the id is not cached. -/
theorem callCacheMiss_eq (hmiss : s.cls.cache.cached uniqueid = none) :
    callCacheMiss env search fuel uniqueid s = selected env search fuel uniqueid s := by
  unfold callCacheMiss
  rcases hc : s.cls.callback with _ | _ | _
  · exact callNeedcache_eq env hquiet h hc hid (by omega)
  · exact (selected_empty env hquiet h hid hc).symm
  · rw [selected_normal env hc, hmiss]
    rfl

omit hquiet hends hfuel in
lemma selected_cached {imp : ℕ} (hcached : s.cls.cache.cached uniqueid = some imp) :
    selected env search fuel uniqueid s = .ok (imp, s) := by
  have hnormal : s.cls.callback = .normal := by
    by_contra hne
    rw [cached_idle env h hid hne] at hcached
    cases hcached
  rw [selected_normal env hnormal, hcached]
  rfl

/-- **The loop in full.** -/
theorem callProbing_eq : callProbing env search fuel uniqueid s = selected env search fuel uniqueid s := by
  unfold callProbing
  rw [h.valid.probeLoop_home hid hends (by omega : _ ≤ fuel)]
  rcases hcached : s.cls.cache.cached uniqueid with _ | imp
  · exact callCacheMiss_eq env hquiet h hid hfuel hcached
  · exact (selected_cached env h hid hcached).symm

omit hquiet hends hfuel in
lemma selected_first (hfirst : (firstEntry env uniqueid s).uniqueid = uniqueid) :
    selected env search fuel uniqueid s = .ok ((firstEntry env uniqueid s).value, s) :=
  selected_cached env h hid (h.valid.cached_first hid hfirst)

/-- **The first slot, and a collision otherwise.** -/
theorem callFirstOrCollision_eq :
    callFirstOrCollision env search fuel uniqueid s = selected env search fuel uniqueid s := by
  unfold callFirstOrCollision
  simp only
  split
  · rename_i hfirst
    exact (selected_first env h hid hfirst).symm
  · rename_i hfirst
    exact callCacheCollision_eq env hquiet h hid hends hfuel hfirst

/-- **The first slot, and a collision or a miss otherwise.** -/
theorem callFirst_eq : callFirst env search fuel uniqueid s = selected env search fuel uniqueid s := by
  unfold callFirst
  simp only
  split
  · rename_i hfirst
    exact (selected_first env h hid hfirst).symm
  split
  · rename_i hfirst _
    exact callCacheCollision_eq env hquiet h hid hends hfuel hfirst
  · rename_i hempty
    exact callCacheMiss_eq env hquiet h hid hfuel (h.valid.cached_first_empty hid (not_not.1 hempty))

omit hends in
/-- **A call selects something**, unless the runtime gives up. -/
theorem selected_ends : selected env search fuel uniqueid s ≠ .error .outOfFuel := by
  obtain ⟨hinv, hinit, hstate⟩ := prepared_inv env h
  have hlength : (prepared env s).cls.cache.entries.length ≤ fuel ∨ (prepared env s).cls.cache.n = 0 := by
    rcases hstate with heq | hn
    · rw [heq]
      exact Or.inl (by omega)
    · exact Or.inr hn
  have hpos := h.valid.length_pos
  unfold selected
  split
  · simp
  · unfold refreshed refreshNofail
    rcases hsearch : search uniqueid (prepared env s) with stop | ⟨method, s'⟩
    · intro heq
      cases heq
      exact hquiet.ends _ _ hsearch
    · obtain ⟨forwardmethod, rfl⟩ := hquiet.quiet _ _ _ _ hinit hsearch
      have hfill := fill_ends env { (prepared env s).cls with forwardmethod }
        ⟨hinv.valid, hinv.zero, hinv.installed, hinv.initializing, hinv.ready⟩ hid (by omega : 2 ≤ fuel) hlength method
      simp only [bind, Except.bind]
      rcases hresult : fillImpcacheMethod env.toConfig fuel { (prepared env s).cls with forwardmethod } method uniqueid
        with stop | cls
      · rw [hresult] at hfill
        intro heq
        cases heq
        exact hfill rfl
      · simp [pure, Except.pure, Except.map]

end Agreement

/-! ## The call paths -/

/-- The calls with a methodid. -/
inductive MethodCall
  | standard
  | inlineMinimal
  | inlinePartial
  | inline
  | inlineFull
  | variableSelector
  | inlineVariable
  | inlineFullVariable
deriving DecidableEq, Repr

/-- The calls that go through the fast method table when the methodid has a place there. -/
def MethodCall.prefersFastmethods : MethodCall → Bool
  | .inlinePartial => true
  | .inline => true
  | .inlineFull => true
  | _ => false

/-- The call itself. -/
def MethodCall.run (fuel : ℕ) (obj : Receiver) (methodid : ℕ) (s : State W) :
    MethodCall → Except Stop (Option ℕ × State W)
  | .standard => objectCall env fuel obj methodid s
  | .inlineMinimal => objectCallInlineMinimal env fuel obj methodid s
  | .inlinePartial => objectCallInlinePartial env fuel obj methodid s
  | .inline => objectCallInline env fuel obj methodid s
  | .inlineFull => objectCallInlineFull env fuel obj methodid s
  | .variableSelector => objectCallVariable env fuel obj methodid s
  | .inlineVariable => objectCallInlineVariable env fuel obj methodid s
  | .inlineFullVariable => objectCallInlineFullVariable env fuel obj methodid s

/-- The calls with a superid. -/
inductive SuperCall
  | standard
  | inlinePartial
  | inline
  | inlineFull
deriving DecidableEq, Repr

/-- The call itself. -/
def SuperCall.run (fuel : ℕ) (obj : Receiver) (superid : ℕ) (s : State W) :
    SuperCall → Except Stop (Option ℕ × State W)
  | .standard => objectCallSuper env fuel obj superid s
  | .inlinePartial => objectCallSuperInlinePartial env fuel obj superid s
  | .inline => objectCallSuperInline env fuel obj superid s
  | .inlineFull => objectCallSuperInlineFull env fuel obj superid s

/-- The callbacks select what they are to select where a call falls into them. -/
structure CallbacksAgree (search : ℕ → State W → Except Stop (Method × State W)) (fuel uniqueid : ℕ)
    (s : State W) : Prop where
  ends : selected env search fuel uniqueid s ≠ .error .outOfFuel
  call : call env search fuel uniqueid s = selected env search fuel uniqueid s
  collision : (firstEntry env uniqueid s).uniqueid ≠ uniqueid →
    callCacheCollision env search fuel uniqueid s = selected env search fuel uniqueid s
  miss : s.cls.cache.cached uniqueid = none →
    callCacheMiss env search fuel uniqueid s = selected env search fuel uniqueid s

lemma callbacksAgree (hquiet : Quiet search) (h : s.cls.Inv env.toConfig) (hid : uniqueid ≠ 0)
    (hends : s.cls.cache.cached uniqueid ≠ none ∨ s.cls.cache.HasEmptySlot)
    (hfuel : s.cls.cache.entries.length < fuel) : CallbacksAgree env search fuel uniqueid s :=
  ⟨selected_ends env hquiet h hid hfuel, call_eq env hquiet h hid hends hfuel,
    callCacheCollision_eq env hquiet h hid hends hfuel, callCacheMiss_eq env hquiet h hid hfuel⟩

section Paths

variable (h : s.cls.Inv env.toConfig) (hid : uniqueid ≠ 0)
  (hends : s.cls.cache.cached uniqueid ≠ none ∨ s.cls.cache.HasEmptySlot)
  (hfuel : s.cls.cache.entries.length < fuel)

include h hid hends hfuel

lemma MethodCall.run_eq (path : MethodCall) (obj : Receiver) :
    path.run env fuel obj uniqueid s = unlessNil obj s
      (if path.prefersFastmethods then
        preferFastmethod env fuel uniqueid s (selected env (searchMethodNofail env) fuel uniqueid s)
      else selected env (searchMethodNofail env) fuel uniqueid s) := by
  have hmethod := searchMethodNofail_quiet env
  have hprobing := callProbing_eq env hmethod h hid hends hfuel
  cases path with
  | standard => exact congrArg (unlessNil obj s) hprobing
  | inlineMinimal => exact congrArg (unlessNil obj s) hprobing
  | inlinePartial => rw [← call_eq env hmethod h hid hends hfuel]; rfl
  | inline => rw [← callFirstOrCollision_eq env hmethod h hid hends hfuel]; rfl
  | inlineFull => rw [← hprobing]; rfl
  | variableSelector => exact congrArg (unlessNil obj s) hprobing
  | inlineVariable => exact congrArg (unlessNil obj s) (callFirst_eq env hmethod h hid hends hfuel)
  | inlineFullVariable => exact congrArg (unlessNil obj s) hprobing

lemma SuperCall.run_eq (path : SuperCall) (obj : Receiver) :
    path.run env fuel obj uniqueid s =
      unlessNil obj s (selected env (supersearchMethodNofail env) fuel uniqueid s) := by
  have hsuper := supersearchMethodNofail_quiet env
  have hprobing := callProbing_eq env hsuper h hid hends hfuel
  cases path with
  | standard => exact congrArg (unlessNil obj s) hprobing
  | inlinePartial => exact congrArg (unlessNil obj s) (call_eq env hsuper h hid hends hfuel)
  | inline => exact congrArg (unlessNil obj s) (callFirst_eq env hsuper h hid hends hfuel)
  | inlineFull => exact congrArg (unlessNil obj s) hprobing

end Paths

/-- **All call paths select the same implementation**: on every reachable cache that has the id or an empty slot, a
call selects the cached implementation, otherwise the one the refresh function yields.  The paths that prefer fast
methods do so for the methods without a place in the fast method table. -/
theorem calls_agree (hs : Reachable env.toConfig s.cls) (uniqueid fuel : ℕ) (hid : uniqueid ≠ 0)
    (hends : s.cls.cache.cached uniqueid ≠ none ∨ s.cls.cache.HasEmptySlot)
    (hfuel : s.cls.cache.entries.length < fuel) :
    (∀ (path : MethodCall) (obj : Receiver),
      (path.prefersFastmethods = true → getFastmethodtableIndex env uniqueid = none) →
      path.run env fuel obj uniqueid s =
        unlessNil obj s (selected env (searchMethodNofail env) fuel uniqueid s)) ∧
    objectCallUnchecked env fuel uniqueid s = selected env (searchMethodNofail env) fuel uniqueid s ∧
    CallbacksAgree env (searchMethodNofail env) fuel uniqueid s ∧
    (∀ (path : SuperCall) (obj : Receiver),
      path.run env fuel obj uniqueid s =
        unlessNil obj s (selected env (supersearchMethodNofail env) fuel uniqueid s)) ∧
    CallbacksAgree env (supersearchMethodNofail env) fuel uniqueid s := by
  have h := hs.inv
  have hmethod := searchMethodNofail_quiet env
  have hsuper := supersearchMethodNofail_quiet env
  refine ⟨?_, callProbing_eq env hmethod h hid hends hfuel, callbacksAgree env hmethod h hid hends hfuel,
    SuperCall.run_eq env h hid hends hfuel, callbacksAgree env hsuper h hid hends hfuel⟩
  intro path obj hfast
  rw [MethodCall.run_eq env h hid hends hfuel]
  split
  · rename_i hpath
    unfold preferFastmethod
    rw [hfast hpath]
  · rfl

/-! ## A sample class -/

/-- A runtime with fast methods where every search finds a method. -/
def sampleEnvironment : Environment Unit where
  shift := 4
  fillrate := 0
  fillrate_le := Nat.zero_le 90
  initialCacheSize := 4
  methodCall := 0
  defaultsearch _ methodid := some ⟨methodid, methodid, 0, 2⟩
  supersearch _ methodid _ := some ⟨methodid, methodid, 0, 3⟩
  lookupSuper _ superid := some (1, superid)
  classdefaultsForwardmethod _ := none
  runInitialize w := w
  fcs := true
  fastmethodhashes := []

/-- `MULLE_OBJC_ALLOC_METHODID`. -/
def allocMethodid : ℕ := 0xab1bb16b

/-- An object whose class has found `+alloc` by its fast method table, and has been filled with another one since. -/
def sampleState : State Unit :=
  ⟨(), .normal, ⟨1, 4, 48, [⟨0, 0⟩, ⟨0, 0⟩, ⟨allocMethodid, 1⟩, ⟨0, 0⟩]⟩, [(0, 2)], none, true, true, false, false⟩

lemma sampleState_reachable : Reachable sampleEnvironment.toConfig sampleState.cls := by
  have h₀ : Reachable sampleEnvironment.toConfig ClassState.new := Reachable.new
  have h₁ := h₀.step (Step.initializing ClassState.new)
  have h₂ := h₁.step (Step.setupInitializeCache _ rfl)
  have h₃ := h₂.step (Step.setupInitialCache _ (by decide))
  have h₄ := h₃.step (Step.other _ [(0, 2)] none false)
  exact h₄.step (Step.fill _ _ 5 allocMethodid ⟨1, allocMethodid, 0, 1⟩ (by decide) (by decide) rfl)

theorem calls_agree_sample : MethodCall.inline.run sampleEnvironment 5 .object 7 sampleState =
    .ok (some 2, ⟨(), .normal, ⟨2, 4, 48, [⟨7, 2⟩, ⟨0, 0⟩, ⟨allocMethodid, 1⟩, ⟨0, 0⟩]⟩, [(0, 2)], none, true, true,
      false, false⟩) := by
  have hagree := calls_agree sampleEnvironment sampleState_reachable 7 5 (by decide)
    (Or.inr (by decide)) (by decide)
  rw [hagree.1 .inline .object fun _ => rfl]
  rfl

/-- The inlined calls prefer the fast method table, also where the cache has another implementation. -/
theorem fast_methods_bypass_the_cache : Reachable sampleEnvironment.toConfig sampleState.cls ∧
    objectCall sampleEnvironment 5 .object allocMethodid sampleState = .ok (some 1, sampleState) ∧
    objectCallInline sampleEnvironment 5 .object allocMethodid sampleState = .ok (some 2, sampleState) :=
  ⟨sampleState_reachable, rfl, rfl⟩

end MulleObjcRuntime.Impcache
