import MulleObjcRuntime.Impcache.Agreement

/-!
# Where a call ends

A call by a methodid has found an implementation in the cache or in the fast method table, or a callback refreshes the
cache, or one goes past the cache with a search.

* `Ending`, `Ending.select` — the three places, and what is selected there;
* `MethodCall.ending` — where a call ends;
* `MethodCall.run_eq_ending` — a call selects what is selected where it ends;
* `MethodCall.hitsCached` — what it hits is cached.
-/

namespace MulleObjcRuntime.Impcache

open Classes

/-- Where a call ends: with an implementation, in a callback that refreshes the cache, or in one that goes past it. -/
inductive Ending (W : Type)
  | hit (imp : ℕ) (s : State W)
  | refreshed (s : State W)
  | slow (s : State W)

variable {W : Type} (env : Environment W) (fuel methodid : ℕ)

/-- What is selected there. -/
def Ending.select : Ending W → Selection W
  | .hit imp s => .ok (imp, s)
  | .refreshed s => Impcache.refreshed env (searchMethodNofail env) fuel methodid s
  | .slow s => callSlow (searchMethodNofail env) methodid s

/-! ## Callbacks -/

/-- Behind a loop over the cache. -/
def afterLoopEnding (probed : Option (Option ℕ)) (s : State W) : Except Stop (Ending W) :=
  match probed with
  | none => .error .outOfFuel
  | some (some imp) => .ok (.hit imp s)
  | some none => .ok (.refreshed s)

/-- `callNeedcache` -/
def needcacheEnding : ℕ → State W → Except Stop (Ending W)
  | 0, _ => .error .outOfFuel
  | rounds + 1, s =>
    match classSetup env s with
    | (true, s) => .ok (.slow s)
    | (false, s) =>
      match s.cls.callback with
      | .normal => .ok (.refreshed s)
      | .empty => .ok (.slow s)
      | .initial => needcacheEnding rounds s

/-- A callback, which is `normal` on a class that is set up. -/
def callbackEnding (normal : Except Stop (Ending W)) (s : State W) : Except Stop (Ending W) :=
  match s.cls.callback with
  | .normal => normal
  | .empty => .ok (.slow s)
  | .initial => needcacheEnding env fuel s

/-- `call` -/
def callEnding (s : State W) : Except Stop (Ending W) :=
  callbackEnding env fuel (afterLoopEnding (probeLoop env.shift s.cls.cache methodid fuel methodid) s) s

/-- `callCacheCollision` -/
def callCacheCollisionEnding (s : State W) : Except Stop (Ending W) :=
  callbackEnding env fuel (afterLoopEnding (collisionLoop env.shift s.cls.cache methodid fuel methodid) s) s

/-- `callCacheMiss` -/
def callCacheMissEnding (s : State W) : Except Stop (Ending W) := callbackEnding env fuel (.ok (.refreshed s)) s

/-! ## The call paths -/

/-- `callProbing` -/
def callProbingEnding (s : State W) : Except Stop (Ending W) :=
  match probeLoop env.shift s.cls.cache methodid fuel methodid with
  | none => .error .outOfFuel
  | some (some imp) => .ok (.hit imp s)
  | some none => callCacheMissEnding env fuel s

/-- `callFirstOrCollision` -/
def callFirstOrCollisionEnding (s : State W) : Except Stop (Ending W) :=
  if (firstEntry env methodid s).uniqueid = methodid then .ok (.hit (firstEntry env methodid s).value s)
  else callCacheCollisionEnding env fuel methodid s

/-- `callFirst` -/
def callFirstEnding (s : State W) : Except Stop (Ending W) :=
  if (firstEntry env methodid s).uniqueid = methodid then .ok (.hit (firstEntry env methodid s).value s)
  else if (firstEntry env methodid s).uniqueid ≠ 0 then callCacheCollisionEnding env fuel methodid s
  else callCacheMissEnding env fuel s

/-- `fastmethodtableInvoke` -/
def fastmethodtableEnding (index : ℕ) (s : State W) : Except Stop (Ending W) :=
  match s.cls.vtab.lookup index with
  | some imp => .ok (.hit imp s)
  | none =>
    match lookupImplementationNofailNofill env fuel methodid s with
    | .error stop => .error stop
    | .ok (imp, s) =>
      let vtab := if env.methodCall = 0 then (index, imp.getD 0) :: s.cls.vtab else s.cls.vtab
      callEnding env fuel methodid { s with cls := { s.cls with vtab } }

/-- `preferFastmethod` -/
def preferFastmethodEnding (s : State W) (otherwise : Except Stop (Ending W)) : Except Stop (Ending W) :=
  match getFastmethodtableIndex env methodid with
  | some index => fastmethodtableEnding env fuel methodid index s
  | none => otherwise

/-- Where a call on an object ends. -/
def MethodCall.ending (s : State W) : MethodCall → Except Stop (Ending W)
  | .standard => callProbingEnding env fuel methodid s
  | .inlineMinimal => callProbingEnding env fuel methodid s
  | .inlinePartial => preferFastmethodEnding env fuel methodid s (callEnding env fuel methodid s)
  | .inline => preferFastmethodEnding env fuel methodid s (callFirstOrCollisionEnding env fuel methodid s)
  | .inlineFull => preferFastmethodEnding env fuel methodid s (callProbingEnding env fuel methodid s)
  | .variableSelector => callProbingEnding env fuel methodid s
  | .inlineVariable => callFirstEnding env fuel methodid s
  | .inlineFullVariable => callProbingEnding env fuel methodid s

/-! ## What is selected -/

section Select

variable {fuel methodid} {s : State W}

/-- Selects where it ends. -/
def SelectsAt (env : Environment W) (fuel methodid : ℕ) (selection : Selection W) (ending : Except Stop (Ending W)) : Prop :=
  selection = ending.bind (Ending.select env fuel methodid)

lemma selectsAt_afterLoop (probed : Option (Option ℕ)) :
    SelectsAt env fuel methodid (afterLoop env (searchMethodNofail env) fuel probed methodid s)
      (afterLoopEnding probed s) := by
  cases probed with
  | none => rfl
  | some imp => cases imp <;> rfl

lemma selectsAt_needcache (rounds : ℕ) :
    SelectsAt env fuel methodid (callNeedcache env (searchMethodNofail env) fuel methodid rounds s)
      (needcacheEnding env rounds s) := by
  induction rounds generalizing s with
  | zero => rfl
  | succ rounds ih =>
    rw [callNeedcache, needcacheEnding]
    obtain ⟨running, s'⟩ := classSetup env s
    cases running with
    | true => rfl
    | false =>
      simp only
      cases s'.cls.callback with
      | normal => rfl
      | empty => rfl
      | initial => exact ih

lemma selectsAt_callback {normal : Selection W} {normalEnding : Except Stop (Ending W)}
    (h : SelectsAt env fuel methodid normal normalEnding) :
    SelectsAt env fuel methodid
      (match s.cls.callback with
        | .normal => normal
        | .empty => callSlow (searchMethodNofail env) methodid s
        | .initial => callNeedcache env (searchMethodNofail env) fuel methodid fuel s)
      (callbackEnding env fuel normalEnding s) := by
  unfold callbackEnding
  cases s.cls.callback with
  | normal => exact h
  | empty => rfl
  | initial => exact selectsAt_needcache env fuel

lemma selectsAt_call :
    SelectsAt env fuel methodid (call env (searchMethodNofail env) fuel methodid s) (callEnding env fuel methodid s) :=
  selectsAt_callback env (selectsAt_afterLoop env _)

lemma selectsAt_callCacheCollision :
    SelectsAt env fuel methodid (callCacheCollision env (searchMethodNofail env) fuel methodid s)
      (callCacheCollisionEnding env fuel methodid s) :=
  selectsAt_callback env (selectsAt_afterLoop env _)

lemma selectsAt_callCacheMiss :
    SelectsAt env fuel methodid (callCacheMiss env (searchMethodNofail env) fuel methodid s)
      (callCacheMissEnding env fuel s) :=
  selectsAt_callback env rfl

lemma selectsAt_callProbing :
    SelectsAt env fuel methodid (callProbing env (searchMethodNofail env) fuel methodid s)
      (callProbingEnding env fuel methodid s) := by
  unfold callProbing callProbingEnding
  cases probeLoop env.shift s.cls.cache methodid fuel methodid with
  | none => rfl
  | some imp =>
    cases imp with
    | none => exact selectsAt_callCacheMiss env
    | some imp => rfl

lemma selectsAt_callFirstOrCollision :
    SelectsAt env fuel methodid (callFirstOrCollision env (searchMethodNofail env) fuel methodid s)
      (callFirstOrCollisionEnding env fuel methodid s) := by
  unfold callFirstOrCollision callFirstOrCollisionEnding
  simp only
  split
  · rfl
  · exact selectsAt_callCacheCollision env

lemma selectsAt_callFirst :
    SelectsAt env fuel methodid (callFirst env (searchMethodNofail env) fuel methodid s)
      (callFirstEnding env fuel methodid s) := by
  unfold callFirst callFirstEnding
  simp only
  split
  · rfl
  · split
    · exact selectsAt_callCacheCollision env
    · exact selectsAt_callCacheMiss env

lemma selectsAt_fastmethodtable (index : ℕ) :
    SelectsAt env fuel methodid (fastmethodtableInvoke env fuel methodid index s)
      (fastmethodtableEnding env fuel methodid index s) := by
  unfold fastmethodtableInvoke fastmethodtableEnding handleFastmethodtablefault
  cases s.cls.vtab.lookup index with
  | some imp => rfl
  | none =>
    simp only
    cases lookupImplementationNofailNofill env fuel methodid s with
    | error stop => rfl
    | ok r => exact selectsAt_call env

lemma selectsAt_preferFastmethod {otherwise : Selection W} {otherwiseEnding : Except Stop (Ending W)}
    (h : SelectsAt env fuel methodid otherwise otherwiseEnding) :
    SelectsAt env fuel methodid (preferFastmethod env fuel methodid s otherwise)
      (preferFastmethodEnding env fuel methodid s otherwiseEnding) := by
  unfold preferFastmethod preferFastmethodEnding
  cases getFastmethodtableIndex env methodid with
  | none => exact h
  | some index => exact selectsAt_fastmethodtable env index

/-- **A call selects what is selected where it ends.** -/
theorem MethodCall.run_eq_ending (path : MethodCall) (s : State W) :
    path.run env fuel .object methodid s =
      ((path.ending env fuel methodid s).bind (Ending.select env fuel methodid)).map fun (imp, s) => (some imp, s) := by
  have hprobing : SelectsAt env fuel methodid (callProbing env (searchMethodNofail env) fuel methodid s)
      (callProbingEnding env fuel methodid s) := selectsAt_callProbing env
  cases path with
  | standard => exact congrArg (unlessNil .object s) hprobing
  | inlineMinimal => exact congrArg (unlessNil .object s) hprobing
  | inlinePartial => exact congrArg (unlessNil .object s) (selectsAt_preferFastmethod env (selectsAt_call env))
  | inline => exact congrArg (unlessNil .object s) (selectsAt_preferFastmethod env (selectsAt_callFirstOrCollision env))
  | inlineFull => exact congrArg (unlessNil .object s) (selectsAt_preferFastmethod env hprobing)
  | variableSelector => exact congrArg (unlessNil .object s) hprobing
  | inlineVariable => exact congrArg (unlessNil .object s) (selectsAt_callFirst env)
  | inlineFullVariable => exact congrArg (unlessNil .object s) hprobing

end Select

/-! ## Hits -/

section Hits

variable {fuel methodid} {s : State W}

/-- If it is a hit, then of an implementation that the class has cached. -/
def HitsCached (methodid : ℕ) (s : State W) (ending : Except Stop (Ending W)) : Prop :=
  ∀ imp s', ending = .ok (.hit imp s') → s' = s ∧ s.cls.cache.cached methodid = some imp

lemma hitsCached_hit {imp : ℕ} (h : s.cls.cache.cached methodid = some imp) : HitsCached methodid s (.ok (.hit imp s)) := by
  rintro imp' s' heq
  cases heq
  exact ⟨rfl, h⟩

lemma hitsCached_needcache (rounds : ℕ) {s' : State W} : HitsCached methodid s (needcacheEnding env rounds s') := by
  intro imp s'' h
  induction rounds generalizing s' with
  | zero => cases h
  | succ rounds ih =>
    rw [needcacheEnding] at h
    split at h
    · cases h
    · split at h
      · cases h
      · cases h
      · exact ih h

lemma hitsCached_callback {normal : Except Stop (Ending W)} (h : HitsCached methodid s normal) :
    HitsCached methodid s (callbackEnding env fuel normal s) := by
  unfold callbackEnding
  split
  · exact h
  · exact fun imp s' heq => by cases heq
  · exact hitsCached_needcache env fuel

lemma hitsCached_afterLoop {probed : Option (Option ℕ)}
    (h : ∀ imp, probed = some (some imp) → s.cls.cache.cached methodid = some imp) :
    HitsCached methodid s (afterLoopEnding probed s) := by
  unfold afterLoopEnding
  split
  · exact fun imp s' heq => by cases heq
  · exact hitsCached_hit (h _ rfl)
  · exact fun imp s' heq => by cases heq

variable (hs : s.cls.cache.Valid env.shift) (hid : methodid ≠ 0)

include hs hid

lemma hitsCached_call : HitsCached methodid s (callEnding env fuel methodid s) := by
  refine hitsCached_callback env (hitsCached_afterLoop fun imp hloop => ?_)
  rw [hs.probeLoop_eq hid] at hloop
  exact hs.cached_of_lookup hid hloop

lemma hitsCached_callCacheCollision : HitsCached methodid s (callCacheCollisionEnding env fuel methodid s) := by
  refine hitsCached_callback env (hitsCached_afterLoop fun imp hloop => ?_)
  rw [hs.collisionLoop_eq hid] at hloop
  exact hs.cached_of_lookup hid hloop

omit hs hid in
lemma hitsCached_callCacheMiss : HitsCached methodid s (callCacheMissEnding env fuel s) :=
  hitsCached_callback env fun imp s' heq => by cases heq

lemma hitsCached_callProbing : HitsCached methodid s (callProbingEnding env fuel methodid s) := by
  unfold callProbingEnding
  split
  · exact fun imp s' heq => by cases heq
  · rename_i imp hloop
    rw [hs.probeLoop_eq hid] at hloop
    exact hitsCached_hit (hs.cached_of_lookup hid hloop)
  · exact hitsCached_callCacheMiss env

lemma hitsCached_callFirstOrCollision : HitsCached methodid s (callFirstOrCollisionEnding env fuel methodid s) := by
  unfold callFirstOrCollisionEnding
  split
  · rename_i hfirst
    exact hitsCached_hit (hs.cached_first hid hfirst)
  · exact hitsCached_callCacheCollision env hs hid

lemma hitsCached_callFirst : HitsCached methodid s (callFirstEnding env fuel methodid s) := by
  unfold callFirstEnding
  split
  · rename_i hfirst
    exact hitsCached_hit (hs.cached_first hid hfirst)
  split
  · exact hitsCached_callCacheCollision env hs hid
  · exact hitsCached_callCacheMiss env

/-- **What a call hits, is cached**, unless it goes through the fast method table. -/
theorem MethodCall.hitsCached (path : MethodCall)
    (hpath : path.prefersFastmethods = true → getFastmethodtableIndex env methodid = none) :
    HitsCached methodid s (path.ending env fuel methodid s) := by
  have hprobing : HitsCached methodid s (callProbingEnding env fuel methodid s) := hitsCached_callProbing env hs hid
  cases path with
  | standard => exact hprobing
  | inlineMinimal => exact hprobing
  | inlinePartial =>
    rw [MethodCall.ending, preferFastmethodEnding, hpath rfl]
    exact hitsCached_call env hs hid
  | inline =>
    rw [MethodCall.ending, preferFastmethodEnding, hpath rfl]
    exact hitsCached_callFirstOrCollision env hs hid
  | inlineFull =>
    rw [MethodCall.ending, preferFastmethodEnding, hpath rfl]
    exact hprobing
  | variableSelector => exact hprobing
  | inlineVariable => exact hitsCached_callFirst env hs hid
  | inlineFullVariable => exact hprobing

omit hs hid in
lemma MethodCall.ending_fast {path : MethodCall} (hpath : path.prefersFastmethods = true) {index : ℕ}
    (hindex : getFastmethodtableIndex env methodid = some index) :
    path.ending env fuel methodid s = fastmethodtableEnding env fuel methodid index s := by
  cases path with
  | inlinePartial => simp only [MethodCall.ending, preferFastmethodEnding, hindex]
  | inline => simp only [MethodCall.ending, preferFastmethodEnding, hindex]
  | inlineFull => simp only [MethodCall.ending, preferFastmethodEnding, hindex]
  | standard => cases hpath
  | inlineMinimal => cases hpath
  | variableSelector => cases hpath
  | inlineVariable => cases hpath
  | inlineFullVariable => cases hpath

end Hits

end MulleObjcRuntime.Impcache
