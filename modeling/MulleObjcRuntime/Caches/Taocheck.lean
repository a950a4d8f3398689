import MulleObjcRuntime.Caches.Methods
import MulleObjcRuntime.Impcache.Endings

/-!
# Thread affine objects

A call is checked for the right thread when it misses the cache, and therefore a method that needs the right thread is kept
out of the caches.

* `taocheckCall` — `mulle_objc_object_taocheck_call`;
* `Tracing`, `endingChecks`, `taoCall` — the code with a check, and a call that is checked where it ends;
* `Sheltered` — what is cached needs no check;
* `taocheck_complete` — a call is as if it had been checked, where it ends in code with a check or in the cache.
-/

namespace MulleObjcRuntime.Caches

open Classes Impcache Dispatch Relation Lib.Runs

/-! ## The check -/

/-- The object of a call: `_mulle_objc_object_get_retaincount` and `_mulle_objc_object_get_thread_id`, which is `0` for an
object that may be used in any thread. -/
structure AffineObject where
  cls : ClassRef ℕ
  retaincount : ℕ
  threadId : ℕ

/-- What the check depends on besides the object and the classes: `mulle_thread_id`, the version of the universe, and
the methodids that are getters of a read-only property of a class. -/
structure Checking where
  threadId : ℕ
  isDeinitializing : Bool
  readonlyGetter : ClassRef ℕ → ℕ → Bool

/-- `MULLE_OBJC_RELEASE_METHODID`, `MULLE_OBJC_RETAIN_METHODID`, `MULLE_OBJC_AUTORELEASE_METHODID`. -/
def uncheckedMethodids : List ℕ := [0x036ae7e1, 0x8bcc57c8, 0x8c9fa1fc]

/-- `_mulle_objc_descriptor_get_methodfamily` -/
def methodfamily (method : Method) : ℕ := (method.bits &&& 0x003F0000) >>> 16

/-- `_mulle_objc_methodfamily_init` -/
def methodfamilyInit : ℕ := 3

/-- `_mulle_objc_methodfamily_dealloc` -/
def methodfamilyDealloc : ℕ := 7

/-- `_mulle_objc_methodfamily_getter` -/
def methodfamilyGetter : ℕ := 32

/-- `mulle_objc_object_taocheck_call`: true if the call is in the wrong thread. -/
def taocheckCall (ctx : Checking) (u : Universe) (obj : AffineObject) (methodid : ℕ) : Bool :=
  if uncheckedMethodids.contains methodid then false
  else if obj.retaincount = 0 then false
  else if obj.threadId = 0 then false
  else if obj.threadId = ctx.threadId then false
  else
    match Invalidation.defaultsearchMethod u.graph obj.cls methodid with
    -- must be forward
    | none => false
    | some method =>
      if !methodIsThreadaffine method then false
      else if methodfamily method = methodfamilyInit ∨ methodfamily method = methodfamilyDealloc then false
      else if methodfamily method = methodfamilyGetter ∧ !obj.cls.isMeta ∧ ctx.readonlyGetter obj.cls methodid then false
      else if method.methodid = forwardMethodid then false
      else !ctx.isDeinitializing

/-! ## Calls with a check -/

/-- Where `mulle_objc_implementation_invoke` checks a call, as it does if it is compiled with `DEBUG` or
`MULLE_OBJC_INCLUDE_TRACE_CODE`: in the callbacks of the runtime that go past the cache, and in the code of the caller, which
invokes the fast methods. -/
structure Tracing where
  runtime : Bool
  caller : Bool

/-- The places with `_mulle_objc_implementation_debug`, in the runtime. -/
def endingChecks {W : Type} (tracing : Tracing) : Ending W → Bool
  | .hit _ _ => false
  | .refreshed _ => true
  | .slow _ => tracing.runtime

/-- Why a call does not get to its method. -/
inductive TaoStop
  | stop (stop : Stop)
  | wrongthread
deriving DecidableEq, Repr

/-- A selection that is checked. -/
def debugged {α : Type} (wrong : Bool) : Except Stop α → Except TaoStop α
  | .error stop => .error (.stop stop)
  | .ok selection => if wrong then .error .wrongthread else .ok selection

section Call

variable (p : Setting) (ctx : Checking) (rt : Runtime) (path : MethodCall) (obj : AffineObject) (methodid : ℕ)

/-- A call on an object, up to its method. -/
def uncheckedCall : Except Stop (Option ℕ × State Universe) :=
  path.run (environment p obj.cls) (rounds p (rt.states obj.cls)) .object methodid (rt.focus obj.cls)

/-- Where it ends. -/
def callEndsIn : Except Stop (Ending Universe) :=
  path.ending (environment p obj.cls) (rounds p (rt.states obj.cls)) methodid (rt.focus obj.cls)

/-- The call goes through the fast method table. -/
def goesThroughTable : Bool :=
  path.prefersFastmethods && (getFastmethodtableIndex (environment p obj.cls) methodid).isSome

/-- What is selected where a call ends, for an object. -/
def selectFor (ending : Ending Universe) : Except Stop (Option ℕ × State Universe) :=
  (ending.select (environment p obj.cls) (rounds p (rt.states obj.cls)) methodid).map fun (imp, s) => (some imp, s)

/-- A call on an object when `MULLE_OBJC_UNIVERSE_CALL_TAO_BIT` is set: it is checked before it goes through the fast method
table, and where it ends. -/
def taoCall (tracing : Tracing) : Except TaoStop (Option ℕ × State Universe) :=
  let wrong := taocheckCall ctx rt.loaded obj methodid
  if goesThroughTable p path obj methodid && tracing.caller && wrong then .error .wrongthread
  else
    match callEndsIn p rt path obj methodid with
    | .error stop => .error (.stop stop)
    | .ok ending => debugged (endingChecks tracing ending && wrong) (selectFor p rt obj methodid ending)

/-- A call that is always checked. -/
def checkedCall : Except TaoStop (Option ℕ × State Universe) :=
  debugged (taocheckCall ctx rt.loaded obj methodid) (uncheckedCall p rt path obj methodid)

end Call

/-! ## What is cached -/

variable {p : Setting} {rt rt' : Runtime} {u u' : Universe} {cls : ClassRef ℕ} {key : Key} {state state' : ClassState}

/-- The method that a search without any cache comes to. -/
def freshFound (p : Setting) (u : Universe) (cls : ClassRef ℕ) (key : Key) : Option Method :=
  found p u cls (freshForwardmethod p u cls) key

/-- What is cached is a method that is found, and does not need the right thread. -/
def Sheltered (p : Setting) (u : Universe) (cls : ClassRef ℕ) (state : ClassState) : Prop :=
  ∀ key, Genuine p key → state.cache.cached key.uniqueid ≠ none →
    ∃ method, freshFound p u cls key = some method ∧ methodIsThreadaffine method = false

lemma fill_affine {cfg : Config} (htao : cfg.debugs universeCallTaoBit = true) (hcls : state.isNotThreadAffine = false)
    {method : Method} (hmethod : methodIsThreadaffine method = true) {fuel uniqueid : ℕ}
    (h : fillImpcacheMethod cfg fuel state method uniqueid = .ok state') : state' = state := by
  unfold fillImpcacheMethod at h
  rw [htao, hcls, hmethod] at h
  split at h
  · exact (Except.ok.inj h).symm
  split at h
  · exact (Except.ok.inj h).symm
  · exact (Except.ok.inj h).symm

/-- What is cached after a move was so before, or it is a method that has been found and does not need the right thread. -/
lemma sheltered_cached (htao : p.debugs universeCallTaoBit = true) (hu : Implemented u cls)
    (h : Move p u cls key state state') (hf : Forwards state) (hs : state.Inv p.toConfig)
    (hcls : state.isNotThreadAffine = false) {k : ℕ} (hk : k ≠ 0) (hv : state'.cache.cached k ≠ none) :
    state.cache.cached k ≠ none ∨ k = key.uniqueid ∧
      ∃ method, found p u cls state.forwardmethod key = some method ∧ methodIsThreadaffine method = false := by
  obtain ⟨v, hv⟩ := Option.ne_none_iff_exists'.1 hv
  by_cases hcached : state.cache.cached k = none
  · rcases h.cached hu hf hs hk hv with hold | ⟨hsame, method, hmethod, -⟩
    · exact Or.inl (by rw [hold]; simp)
    · refine Or.inr ⟨hsame, method, hmethod, ?_⟩
      by_contra haffine
      rw [Bool.not_eq_false] at haffine
      have hsame' : state'.cache.cached k = state.cache.cached k := by
        cases h with
        | begins => exact absurd (cached_setupInitializeCache { state with initializing := true } hk hv) (by simp [hcached])
        | ends => exact absurd (cached_setupInitialCache _ _ hk hv) (by simp [hcached])
        | remembers => rfl
        | fills _ method' fuel hid hmethod' hfill =>
          cases hmethod.symm.trans hmethod'
          rw [fill_affine htao hcls haffine hfill]
        | slots => rfl
      rw [hsame', hcached] at hv
      cases hv
  · exact Or.inl hcached

lemma isNotThreadAffine_move (h : Move p u cls key state state') : state'.isNotThreadAffine = state.isNotThreadAffine := by
  cases h with
  | begins =>
    unfold setupInitializeCache
    split <;> rfl
  | ends =>
    unfold setupInitialCacheIfNeeded setupInitialCache
    repeat' split <;> try rfl
  | remembers => rfl
  | fills _ method fuel hid hmethod hfill =>
    obtain ⟨cache, rfl⟩ := fill_kept hfill
    rfl
  | slots => rfl

/-! ## One class -/

/-- A class whose objects stay in their thread, whose cache shelters nothing else, and whose fast methods are not used. -/
structure Affine (p : Setting) (u : Universe) (cls : ClassRef ℕ) (state : ClassState) : Prop where
  sheltered : Sheltered p u cls state
  forward : ∀ method ∈ state.forwardmethod, freshForwardmethod p u cls = some method
  bit : state.isNotThreadAffine = false
  vtab : state.vtab = []

lemma found_forward (hkey : Askable p key) (hforward : ∀ method ∈ state.forwardmethod, freshForwardmethod p u cls = some method)
    {method : Method} (h : found p u cls state.forwardmethod key = some method) : freshFound p u cls key = some method := by
  rw [freshFound, found_eq hkey]
  rw [found_eq hkey] at h
  rcases Option.or_eq_some_iff.1 h with h | ⟨hmissing, h⟩
  · rw [h, Option.some_or]
  · rw [hmissing, Option.none_or]
    exact hforward method h

lemma methodCall_ne_zero (htao : p.debugs universeCallTaoBit = true) : p.methodCall ≠ 0 := by
  intro hzero
  unfold Config.debugs at htao
  rw [hzero, Nat.zero_and] at htao
  exact absurd htao (by decide)

lemma Affine.move (htao : p.debugs universeCallTaoBit = true) (hu : Implemented u cls)
    (hK : Keys p (Genuine p) key) (hmove : Move p u cls key state state') (hf : Forwards state)
    (hs : state.Inv p.toConfig) (h : Affine p u cls state) : Affine p u cls state' := by
  refine ⟨fun other hother hcached => ?_, ?_, (isNotThreadAffine_move hmove).trans h.bit,
    (hmove.vtab_of_debug (methodCall_ne_zero htao)).trans h.vtab⟩
  · rcases sheltered_cached htao hu hmove hf hs h.bit hother.askable.uniqueid_ne_zero hcached with
      hold | ⟨hsame, method, hmethod, haffine⟩
    · exact h.sheltered other hother hold
    · obtain rfl := hK.own other hother hsame
      exact ⟨method, found_forward hother.askable h.forward hmethod, haffine⟩
  · exact forward_moves (ReflTransGen.single hmove) h.forward

/-- **A class stays affine** when it is asked for something. -/
lemma Affine.moves (htao : p.debugs universeCallTaoBit = true) (hfits : p.Fits) (hu : Implemented u cls)
    (hK : Keys p (Genuine p) key) (hmoves : Moves p u cls key state state') (hs : Sound p state) (hf : Forwards state)
    (h : Affine p u cls state) : Affine p u cls state' := by
  induction hmoves with
  | refl => exact h
  | tail hmoves hmove ih =>
    obtain ⟨hs', hf'⟩ := Moves.sound hfits hu hmoves hs hf
    exact ih.move htao hu hK hmove hf' hs'.toInv

/-- A load changes no method that stays cached, and not the forward method. -/
structure KeepsMethods (p : Setting) (methods : List Method) (u u' : Universe) (cls : ClassRef ℕ) (state : ClassState) :
    Prop where
  cached : ∀ key, Genuine p key → Survives methods state key → freshFound p u' cls key = freshFound p u cls key
  forward : state.forwardmethod ≠ none → freshForwardmethod p u' cls = freshForwardmethod p u cls

lemma Affine.forgets {methods : List Method} (hforgets : Forgets methods state state')
    (hkeeps : KeepsMethods p methods u u' cls state) (h : Affine p u cls state) : Affine p u' cls state' := by
  refine ⟨fun key hkey hcached => ?_, fun method hmethod => ?_, ?_, hforgets.vtab.trans h.vtab⟩
  · obtain ⟨v, hv⟩ := Option.ne_none_iff_exists'.1 hcached
    obtain ⟨hold, hnone⟩ := hforgets.cached hkey.askable.uniqueid_ne_zero hv
    have hsome : state.cache.cached key.uniqueid ≠ none := by simp [hold]
    rw [hkeeps.cached key hkey ⟨hsome, hnone⟩]
    exact h.sheltered key hkey hsome
  · rw [hforgets.forwardmethod] at hmethod
    rw [hkeeps.forward (Option.ne_none_iff_exists'.2 ⟨method, hmethod⟩)]
    exact h.forward method hmethod
  · obtain ⟨cache, rfl⟩ := hforgets.kept
    exact h.bit

/-! ## Runs -/

lemma freshFound_congr (hkey : Askable p key) (h : searched p u' cls key = searched p u cls key)
    (hforward : searched p u cls key = none → freshForwardmethod p u' cls = freshForwardmethod p u cls) :
    freshFound p u' cls key = freshFound p u cls key := by
  rw [freshFound, freshFound, found_eq hkey, found_eq hkey, h]
  cases hsearched : searched p u cls key with
  | some method => rw [Option.some_or, Option.some_or]
  | none => rw [hforward hsearched]

lemma Spares.keepsMethods {info : Load.LoadCategory} (h : Spares p u info cls state)
    (hinstall : (Load.LoadItem.loadcategory info).install p.load u = .ok u') :
    KeepsMethods p (addedMethods (.loadcategory info)) u u' cls state := by
  refine ⟨fun key hkey hsurvives => ?_, fun hsome => freshForwardmethod_category (h.forward hsome) hinstall⟩
  have hleaves := h.cached key hkey hsurvives
  exact freshFound_congr hkey.askable (searched_category hleaves.untouched hinstall) fun hmissing =>
    freshForwardmethod_category (hleaves.forward hmissing) hinstall

lemma keepsMethods_new {item : Load.LoadItem} (hu : Adopted u) {r : ℕ × String × ℕ × Bool} (hitem : item.summary = some r)
    (h : item.install p.load u = .ok u') (hcls : cls.pair < u.pairs.length) (methods : List Method) (state : ClassState) :
    KeepsMethods p methods u u' cls state := by
  obtain ⟨hforward, hsearched⟩ := fresh_new hu hitem h hcls
  exact ⟨fun key hkey _ => freshFound_congr hkey.askable (hsearched key) fun _ => hforward, fun _ => hforward⟩

lemma Harmless.keepsMethods (h : Steady p rt) {item : Load.LoadItem} {sane : Sane item}
    (hharmless : Harmless p rt (.load item sane)) (hinstall : item.install p.load rt.loaded = .ok u') (cls : ClassRef ℕ) :
    KeepsMethods p (addedMethods item) rt.loaded u' cls (rt.states cls) := by
  by_cases hcls : cls.pair < rt.loaded.pairs.length
  · cases item with
    | loadclass info => exact keepsMethods_new h.adopted rfl hinstall hcls _ _
    | loadmixin info => exact keepsMethods_new h.adopted rfl hinstall hcls _ _
    | loadcategory info => exact (hharmless.spares info rfl cls hcls).keepsMethods hinstall
  · rw [h.unused cls (Nat.not_lt.1 hcls)]
    exact ⟨fun key hkey hsurvives => absurd hsurvives (not_survives_new hkey.askable), fun hsome => absurd rfl hsome⟩

/-- What holds in every state of a run of harmless operations. -/
structure Checkable (p : Setting) (rt : Runtime) : Prop extends Steady p rt where
  affine : ∀ cls, Affine p rt.loaded cls (rt.states cls)

lemma checkable_initial (p : Setting) (classdefaults : ℕ) : Checkable p (Runtime.initial classdefaults) := by
  refine ⟨steady_initial p classdefaults, fun cls => ⟨fun key hkey hcached => ?_, fun method hmethod => ?_, rfl, rfl⟩⟩
  · exact absurd (zeroCache_cached key.uniqueid hkey.askable.uniqueid_ne_zero) hcached
  · cases hmethod

/-- **One operation.** -/
lemma Checkable.of_step (htao : p.debugs universeCallTaoBit = true) (hfits : p.Fits) (h : Checkable p rt) {op : Operation}
    (hharmless : Harmless p rt op) (hstep : step p rt op = some rt') : Checkable p rt' := by
  rcases h.toSteady.step_eq_some hfits hstep with ⟨cls, new, hcls, hmoves, rfl⟩ | ⟨item, sane, rfl, hload⟩
  · refine ⟨h.toSteady.store hfits hcls hmoves, ?_⟩
    refine (Function.forall_update_iff rt.states fun other state => Affine p rt.loaded other state).2
      ⟨?_, fun other _ => h.affine other⟩
    exact (h.affine cls).moves htao hfits (h.sane.implemented cls) (keys_genuine hharmless.asks) hmoves (h.sound cls)
      (h.forwards cls)
  · obtain ⟨hsteady, hinstall, hforgets⟩ := h.toSteady.of_load sane hload
    exact ⟨hsteady, fun cls => (h.affine cls).forgets (hforgets cls) (hharmless.keepsMethods h.toSteady hinstall cls)⟩

/-- **What is cached passes the check**, for any object and any thread. -/
lemma Affine.passes (h : Affine p u cls state) (ctx : Checking) {obj : AffineObject} (hobj : obj.cls = cls) {methodid : ℕ}
    (hgenuine : Genuine p (.method methodid)) (hcached : state.cache.cached methodid ≠ none) :
    taocheckCall ctx u obj methodid = false := by
  obtain ⟨method, hfound, haffine⟩ := h.sheltered (.method methodid) hgenuine hcached
  unfold taocheckCall
  cases hsearch : Invalidation.defaultsearchMethod u.graph obj.cls methodid with
  | none => simp
  | some method' =>
    rw [freshFound, found_method, ← hobj, hsearch, Option.some_or] at hfound
    cases hfound
    simp [haffine]

lemma debugged_eq_iff {α : Type} (wrong : Bool) (selection : Except Stop α) :
    debugged false selection = debugged wrong selection ↔ ¬ (wrong = true ∧ ∃ r, selection = .ok r) := by
  cases selection with
  | error stop => simp [debugged]
  | ok r => cases wrong <;> simp [debugged]

section Checks

variable {ctx : Checking} {path : MethodCall} {obj : AffineObject} {methodid : ℕ}

lemma uncheckedCall_eq : uncheckedCall p rt path obj methodid =
    (callEndsIn p rt path obj methodid).bind (selectFor p rt obj methodid) := by
  unfold uncheckedCall callEndsIn selectFor
  rw [MethodCall.run_eq_ending]
  cases path.ending (environment p obj.cls) (rounds p (rt.states obj.cls)) methodid (rt.focus obj.cls) <;> rfl

/-- **A hit passes the check.** -/
lemma Checkable.passes_hit (htao : p.debugs universeCallTaoBit = true) (hfits : p.Fits) (h : Checkable p rt)
    (hgenuine : Genuine p (.method methodid)) {imp : ℕ} {s : State Universe}
    (hends : callEndsIn p rt path obj methodid = .ok (.hit imp s)) : taocheckCall ctx rt.loaded obj methodid = false := by
  have haffine := h.affine obj.cls
  have hid : methodid ≠ 0 := hgenuine.1
  unfold callEndsIn at hends
  by_cases hpath : path.prefersFastmethods = true → getFastmethodtableIndex (environment p obj.cls) methodid = none
  · obtain ⟨-, hcached⟩ := MethodCall.hitsCached (environment p obj.cls) (s := rt.focus obj.cls) (h.sound obj.cls).valid hid
      path hpath imp s hends
    exact haffine.passes ctx rfl hgenuine (by
      rw [show (rt.states obj.cls).cache.cached methodid = some imp from hcached]
      simp)
  · obtain ⟨hprefers, hindex⟩ := Classical.not_imp.mp hpath
    obtain ⟨index, hindex⟩ := Option.ne_none_iff_exists'.mp hindex
    rw [MethodCall.ending_fast _ hprefers hindex] at hends
    unfold fastmethodtableEnding at hends
    have hvtab : (rt.focus obj.cls).cls.vtab = [] := haffine.vtab
    rw [hvtab, List.lookup_nil] at hends
    simp only at hends
    split at hends
    · cases hends
    · rename_i found s' hlookup
      -- the lookup may have set up the class, which leaves it affine
      obtain ⟨-, hmoves⟩ := lookupImplementationMode_changes hid hlookup
      have hsound := (Moves.sound hfits (h.sane.implemented obj.cls) hmoves (h.sound obj.cls) (h.forwards obj.cls)).1
      have haffine' := haffine.moves htao hfits (h.sane.implemented obj.cls) (keys_genuine (Or.inr hgenuine)) hmoves
        (h.sound obj.cls) (h.forwards obj.cls)
      have hdebug : (environment p obj.cls).methodCall ≠ 0 := methodCall_ne_zero htao
      rw [if_neg hdebug] at hends
      obtain ⟨-, hcached⟩ := hitsCached_call (environment p obj.cls) (s := s') hsound.valid hid imp s hends
      exact haffine'.passes ctx rfl hgenuine (by rw [hcached]; simp)

lemma found_of_wrong (hwrong : taocheckCall ctx u obj methodid = true) :
    ∃ method, Invalidation.defaultsearchMethod u.graph obj.cls methodid = some method := by
  unfold taocheckCall at hwrong
  cases hsearch : Invalidation.defaultsearchMethod u.graph obj.cls methodid with
  | none => simp [hsearch] at hwrong
  | some method => exact ⟨method, rfl⟩

lemma Checkable.selects_of_wrong (hfits : p.Fits) (h : Checkable p rt) (hid : methodid ≠ 0)
    (hwrong : taocheckCall ctx rt.loaded obj methodid = true) (htable : goesThroughTable p path obj methodid = true) :
    ∃ r, uncheckedCall p rt path obj methodid = .ok r := by
  obtain ⟨method, hsearch⟩ := found_of_wrong hwrong
  obtain ⟨hprefers, hindex⟩ := Bool.and_eq_true_iff.mp htable
  obtain ⟨index, hindex⟩ := Option.isSome_iff_exists.mp hindex
  have hfuel := enough_rounds p (rt.states obj.cls)
  have hvalue : ∃ imp, value p obj.cls (rt.focus obj.cls) (.method methodid) = .ok imp := by
    unfold value
    split
    · exact ⟨_, rfl⟩
    · refine ⟨method.implementation, ?_⟩
      rw [answerFor, found_method, show (rt.focus obj.cls).world = rt.loaded from rfl, hsearch]
      rfl
  obtain ⟨imp, himp⟩ := hvalue
  have hspec := (fastmethodtableInvoke_spec (s := rt.focus obj.cls) hfits (h.sane.implemented obj.cls) (h.sound obj.cls)
    (h.forwards obj.cls) hid hfuel hindex).1
  have hvtab : (rt.focus obj.cls).cls.vtab = [] := (h.affine obj.cls).vtab
  rw [hvtab, List.lookup_nil, himp] at hspec
  obtain ⟨r, hr, -⟩ := Lib.Fallible.map_eq_ok.mp hspec
  refine ⟨(some r.1, r.2), ?_⟩
  unfold uncheckedCall
  rw [MethodCall.run_eq (environment p obj.cls) (s := rt.focus obj.cls) (h.sound obj.cls).toInv hid
    ((h.sound obj.cls).ends methodid) hfuel.1, if_pos hprefers]
  unfold preferFastmethod
  rw [hindex]
  simp only [hr]
  rfl

/-- **A call in a state in which what is cached needs no check.** -/
lemma Checkable.taoCall_eq_iff (htao : p.debugs universeCallTaoBit = true) (hfits : p.Fits) (h : Checkable p rt)
    (hgenuine : Genuine p (.method methodid)) (tracing : Tracing) :
    taoCall p ctx rt path obj methodid tracing = checkedCall p ctx rt path obj methodid ↔
      ¬ ((∃ s, callEndsIn p rt path obj methodid = .ok (.slow s)) ∧ tracing.runtime = false ∧
        (goesThroughTable p path obj methodid && tracing.caller) = false ∧ taocheckCall ctx rt.loaded obj methodid = true ∧
          ∃ r, uncheckedCall p rt path obj methodid = .ok r) := by
  unfold taoCall checkedCall
  by_cases hinvoked : (goesThroughTable p path obj methodid && tracing.caller && taocheckCall ctx rt.loaded obj methodid) = true
  · -- it is checked before it goes through the table
    simp only [hinvoked, if_true]
    obtain ⟨hcaller, hwrong⟩ := Bool.and_eq_true_iff.mp hinvoked
    obtain ⟨r, hr⟩ := h.selects_of_wrong hfits hgenuine.1 hwrong (Bool.and_eq_true_iff.mp hcaller).1
    simp [hr, hwrong, hcaller, debugged]
  · rw [if_neg hinvoked, uncheckedCall_eq]
    cases hends : callEndsIn p rt path obj methodid with
    | error stop => simp [Except.bind, debugged]
    | ok ending =>
      cases ending with
      | hit imp s =>
        have hpasses : taocheckCall ctx rt.loaded obj methodid = false := h.passes_hit htao hfits hgenuine hends
        simp [hpasses, Except.bind]
      | refreshed s => simp [endingChecks, Except.bind]
      | slow s =>
        cases htracing : tracing.runtime with
        | true => simp [endingChecks, htracing, Except.bind]
        | false =>
          have hmissed := debugged_eq_iff (taocheckCall ctx rt.loaded obj methodid) (selectFor p rt obj methodid (.slow s))
          simp only [endingChecks, htracing, Bool.false_and, Except.bind]
          rw [hmissed]
          cases hwrong : taocheckCall ctx rt.loaded obj methodid <;> simp_all

end Checks

/-- **The check is complete**: in a run of harmless operations a call gets to the same as one that is always checked, and ends
in the same way, unless it would not pass, and goes past the cache where nothing is compiled with a check. -/
theorem taocheck_complete (htao : p.debugs universeCallTaoBit = true) (hfits : p.Fits) (classdefaults : ℕ)
    {ops : List Operation} (h : EachStep (step p) (Harmless p) (Runtime.initial classdefaults) ops) :
    Throughout (step p) (fun rt => ∀ ctx path obj methodid tracing, obj.cls.isMeta = false → Genuine p (.method methodid) →
        (taoCall p ctx rt path obj methodid tracing = checkedCall p ctx rt path obj methodid ↔
          ¬ ((∃ s, callEndsIn p rt path obj methodid = .ok (.slow s)) ∧ tracing.runtime = false ∧
            (goesThroughTable p path obj methodid && tracing.caller) = false ∧
              taocheckCall ctx rt.loaded obj methodid = true ∧ ∃ r, uncheckedCall p rt path obj methodid = .ok r)))
      (Runtime.initial classdefaults) ops := by
  have hcheckable : Throughout (step p) (Checkable p) (Runtime.initial classdefaults) ops :=
    h.throughout (checkable_initial p classdefaults) fun rt op rt' ht hharmless hstep =>
      ht.of_step htao hfits hharmless hstep
  exact hcheckable.mono fun rt ht ctx path obj methodid tracing _ hgenuine =>
    ht.taoCall_eq_iff htao hfits hgenuine tracing

/-! ## A sample -/

/-- The setting of the samples, with the check. -/
def taoSetting : Setting := { sampleSetting with methodCall := 2 }

lemma taoSetting_fits : taoSetting.Fits := Or.inl rfl

lemma taoMethods_sorted :
    Lib.BinarySearch.Sorted Method.methodid [(⟨101, 7, 0, 700⟩ : Method), ⟨102, 8, methodUserAttribute4, 800⟩] := by
  unfold Lib.BinarySearch.Sorted
  decide

/-- A method that needs the right thread, and one that does not, are called; then a category is loaded. -/
def taoCalls : List Operation :=
  loading (sampleClass (some ⟨0, [⟨101, 7, 0, 700⟩, ⟨102, 8, methodUserAttribute4, 800⟩], taoMethods_sorted⟩)) ++
    [.call .standard ⟨0, false⟩ 7, .call .inline ⟨0, false⟩ 8] ++ loading (sampleCategory (.single 0 ⟨103, 8, 0, 801⟩)) ++
    [.call .standard ⟨0, false⟩ 8]

/-- Only the method that does not need the right thread is cached, and not the one of the category. -/
theorem taocheck_complete_sample :
    Throughout (step taoSetting) (fun rt => ∀ ctx path obj methodid tracing, obj.cls.isMeta = false →
        Genuine taoSetting (.method methodid) →
          (taoCall taoSetting ctx rt path obj methodid tracing = checkedCall taoSetting ctx rt path obj methodid ↔
            ¬ ((∃ s, callEndsIn taoSetting rt path obj methodid = .ok (.slow s)) ∧ tracing.runtime = false ∧
              (goesThroughTable taoSetting path obj methodid && tracing.caller) = false ∧
                taocheckCall ctx rt.loaded obj methodid = true ∧
                  ∃ r, uncheckedCall taoSetting rt path obj methodid = .ok r))) (Runtime.initial 0) taoCalls ∧
      ((run (step taoSetting) (Runtime.initial 0) (taoCalls.take 3)).map fun rt =>
        ((rt.states ⟨0, false⟩).cache.cached 7, (rt.states ⟨0, false⟩).cache.cached 8)) = some (none, some 800) ∧
      ((run (step taoSetting) (Runtime.initial 0) taoCalls).map fun rt => (rt.states ⟨0, false⟩).cache.cached 8) =
        some none := by
  refine ⟨?_, by decide +kernel, by decide +kernel⟩
  have hchecked : EachStep (step taoSetting) (Checked taoSetting) (Runtime.initial 0) taoCalls := by decide +kernel
  exact taocheck_complete (by decide) taoSetting_fits 0 (hchecked.mono fun _ _ h => h.harmless)

end MulleObjcRuntime.Caches
