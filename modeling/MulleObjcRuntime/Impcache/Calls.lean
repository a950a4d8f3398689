import MulleObjcRuntime.Impcache.Defs

/-!
# Calls through the method cache

The calls of `mulle-objc-call.h` and the callbacks of `mulle-objc-call.c` and `mulle-objc-class-initialize.c` that
they fall into, on an object of one class:

* `searchMethodNofail`, `supersearchMethodNofail` — the searches behind a miss, which may set up the class first;
* `refreshNofail` — such a search, and its method put into the cache;
* `call`, `callCacheCollision`, `callCacheMiss` — the callbacks of the cache that is installed;
* `objectCall` and its siblings, `objectCallSuper` and its siblings — the call paths.

A call is what it selects: the implementation it jumps to, with the state it leaves.  Calls by a methodid and by a
superid differ in the search behind them only.
-/

namespace MulleObjcRuntime.Impcache

open Classes

/-- What the calls on a class rely on, in a runtime whose class lists are `W`: the searches on them, the table of
superids, and what the superclasses' set up and `+initialize` make of them. -/
structure Environment (W : Type) extends Config where
  defaultsearch : W → ℕ → Option Method
  supersearch : W → (methodid classid : ℕ) → Option Method
  lookupSuper : W → ℕ → Option (ℕ × ℕ)
  classdefaultsForwardmethod : W → Option Method
  runInitialize : W → W
  fcs : Bool
  fastmethodhashes : List (ℕ × ℕ)

/-- The class lists and the class of the called object. -/
structure State (W : Type) where
  world : W
  cls : ClassState

/-- What a call selects, and the state it leaves. -/
abbrev Selection (W : Type) := Except Stop (ℕ × State W)

variable {W : Type} (env : Environment W)

/-! ## Searching -/

/-- `_mulle_objc_class_setup`; true when the class is being set up already. -/
def classSetup (s : State W) : Bool × State W :=
  if s.cls.initializing then (true, s)
  else
    let cls := setupInitializeCache { s.cls with initializing := true }
    (false, ⟨env.runInitialize s.world, setupInitialCacheIfNeeded env.toConfig cls⟩)

/-- The methods that can be searched before the class is set up: `+load`, `+unload`, `+initializeSelf` and
`+deinitializeSelf`. -/
def beforeSetupMethodids : List ℕ := [0x60759e9e, 0xb6a58d22, 0x2310585f, 0x3099d426]

/-- What `mulle_objc_class_search_method` does first. -/
def setupBeforeSearch (exempt : Bool) (s : State W) : State W :=
  if s.cls.initializing || exempt then s else (classSetup env s).2

/-- `mulle_objc_class_defaultsearch_method`. -/
def defaultsearchMethod (methodid : ℕ) (s : State W) : Option Method × State W :=
  let s := setupBeforeSearch env (beforeSetupMethodids.contains methodid) s
  (env.defaultsearch s.world methodid, s)

/-- `MULLE_OBJC_FORWARD_METHODID`. -/
def forwardMethodid : ℕ := 0x295aa601

/-- `_mulle_objc_class_lazyget_forwardmethod`. -/
def lazygetForwardmethod (s : State W) : Option Method × State W :=
  match s.cls.forwardmethod with
  | some method => (some method, s)
  | none =>
    let (method, s) := defaultsearchMethod env forwardMethodid s
    let method := method.or (env.classdefaultsForwardmethod s.world)
    (method, { s with cls := { s.cls with forwardmethod := method } })

/-- `_mulle_objc_class_get_forwardmethod_lazy_nofail`. -/
def getForwardmethodLazyNofail (missingMethod : ℕ) (s : State W) : Except Stop (Method × State W) :=
  match lazygetForwardmethod env s with
  | (some method, s) => .ok (method, s)
  | (none, _) => .error (.methodNotFound missingMethod)

/-- `mulle_objc_class_search_method_nofail`. -/
def searchMethodNofail (methodid : ℕ) (s : State W) : Except Stop (Method × State W) :=
  match defaultsearchMethod env methodid s with
  | (some method, s) => .ok (method, s)
  | (none, s) => getForwardmethodLazyNofail env methodid s

/-- `_mulle_objc_class_supersearch_method_nofail`. -/
def supersearchMethodNofail (superid : ℕ) (s : State W) : Except Stop (Method × State W) :=
  match env.lookupSuper s.world superid with
  | none => .error (.superNotFound superid)
  | some (classid, methodid) =>
    let s := setupBeforeSearch env false s
    match env.supersearch s.world methodid classid with
    | some method => .ok (method, s)
    | none => getForwardmethodLazyNofail env methodid s

/-! ## Callbacks -/

section Callbacks

variable (search : ℕ → State W → Except Stop (Method × State W)) (fuel : ℕ)

/-- `_mulle_objc_class_refresh_method_nofail` and `_mulle_objc_class_refresh_supermethod_nofail`. -/
def refreshNofail (uniqueid : ℕ) (s : State W) : Except Stop (Method × State W) := do
  let (method, s) ← search uniqueid s
  let cls ← fillImpcacheMethod env.toConfig fuel s.cls method uniqueid
  return (method, { s with cls })

/-- A callback that has missed the cache: the refreshed method is selected. -/
def refreshed (uniqueid : ℕ) (s : State W) : Selection W :=
  (refreshNofail env search fuel uniqueid s).map fun (method, s) => (method.implementation, s)

/-- What a callback selects when its loop has ended. -/
def afterLoop (probed : Option (Option ℕ)) (uniqueid : ℕ) (s : State W) : Selection W :=
  match probed with
  | none => .error .outOfFuel
  | some (some imp) => .ok (imp, s)
  | some none => refreshed env search fuel uniqueid s

/-- `_mulle_objc_object_callback_class_get_implementation`, `_mulle_objc_object_callback_super_get_implementation`. -/
def callbackClass (uniqueid : ℕ) (s : State W) : Selection W :=
  afterLoop env search fuel (probeLoop env.shift s.cls.cache uniqueid fuel uniqueid) uniqueid s

/-- `_mulle_objc_object_callback_cache_collision_get_implementation` and its sibling for super calls: the first slot
is left out. -/
def callbackCacheCollision (uniqueid : ℕ) (s : State W) : Selection W :=
  afterLoop env search fuel (collisionLoop env.shift s.cls.cache uniqueid fuel uniqueid) uniqueid s

/-- `_mulle_objc_object_callback_cache_miss_get_implementation` and its sibling for super calls. -/
def callbackCacheMiss (uniqueid : ℕ) (s : State W) : Selection W := refreshed env search fuel uniqueid s

/-- `_mulle_objc_object_call_class_slow`, `_mulle_objc_object_call2_slow`, `_mulle_objc_object_call_super_slow`. -/
def callSlow (uniqueid : ℕ) (s : State W) : Selection W :=
  (search uniqueid s).map fun (method, s) => (method.implementation, s)

/-- `_mulle_objc_object_call_class_needcache`, `_mulle_objc_object_call2_needcache`,
`_mulle_objc_object_call_super_needcache`: the miss callback of the new cache goes on. -/
def callNeedcache (uniqueid : ℕ) : ℕ → State W → Selection W
  | 0, _ => .error .outOfFuel
  | rounds + 1, s =>
    match classSetup env s with
    | (true, s) => callSlow search uniqueid s
    | (false, s) =>
      match s.cls.callback with
      | .normal => callbackCacheMiss env search fuel uniqueid s
      | .empty => callSlow search uniqueid s
      | .initial => callNeedcache uniqueid rounds s

/-- The `call` and `supercall` callbacks. -/
def call (uniqueid : ℕ) (s : State W) : Selection W :=
  match s.cls.callback with
  | .normal => callbackClass env search fuel uniqueid s
  | .empty => callSlow search uniqueid s
  | .initial => callNeedcache env search fuel uniqueid fuel s

/-- The `call_cache_collision` and `supercall_cache_collision` callbacks. -/
def callCacheCollision (uniqueid : ℕ) (s : State W) : Selection W :=
  match s.cls.callback with
  | .normal => callbackCacheCollision env search fuel uniqueid s
  | .empty => callSlow search uniqueid s
  | .initial => callNeedcache env search fuel uniqueid fuel s

/-- The `call_cache_miss` and `supercall_cache_miss` callbacks. -/
def callCacheMiss (uniqueid : ℕ) (s : State W) : Selection W :=
  match s.cls.callback with
  | .normal => callbackCacheMiss env search fuel uniqueid s
  | .empty => callSlow search uniqueid s
  | .initial => callNeedcache env search fuel uniqueid fuel s

/-! ## Inlined cache accesses -/

/-- The entry in the first slot. -/
def firstEntry (uniqueid : ℕ) (s : State W) : CacheEntry :=
  s.cls.cache.entryAt env.shift (uniqueid &&& s.cls.cache.mask)

/-- The loop in full: an entry without a key is a miss. -/
def callProbing (uniqueid : ℕ) (s : State W) : Selection W :=
  match probeLoop env.shift s.cls.cache uniqueid fuel uniqueid with
  | none => .error .outOfFuel
  | some (some imp) => .ok (imp, s)
  | some none => callCacheMiss env search fuel uniqueid s

/-- The first slot only: everything else is a collision. -/
def callFirstOrCollision (uniqueid : ℕ) (s : State W) : Selection W :=
  let entry := firstEntry env uniqueid s
  if entry.uniqueid = uniqueid then .ok (entry.value, s)
  else callCacheCollision env search fuel uniqueid s

/-- The first slot only: another id is a collision, no id a miss. -/
def callFirst (uniqueid : ℕ) (s : State W) : Selection W :=
  let entry := firstEntry env uniqueid s
  if entry.uniqueid = uniqueid then .ok (entry.value, s)
  else if entry.uniqueid ≠ 0 then callCacheCollision env search fuel uniqueid s
  else callCacheMiss env search fuel uniqueid s

end Callbacks

/-! ## Fast methods -/

/-- `mulle_objc_get_fastmethodtable_index`: alloc, init, finalize, dealloc, instance, autorelease and those that
`MULLE_OBJC_FASTMETHODHASH_6` to `_23` add; without `__MULLE_OBJC_FCS__` there are none. -/
def getFastmethodtableIndex (methodid : ℕ) : Option ℕ :=
  if env.fcs then
    ([(0xab1bb16b, 0), (0x6b1d3731, 1), (0x9de99ffa, 2), (0x9929eb3d, 3), (0xb86d9920, 4), (0x8c9fa1fc, 5)] ++
      env.fastmethodhashes).lookup methodid
  else none

/-- The `mode` of `_mulle_objc_class_lookup_implementation_mode`. -/
structure LookupMode where
  noprobe : Bool
  noforward : Bool
  lazyforward : Bool
  nofail : Bool
  nofill : Bool

section Lookup

variable (fuel : ℕ)

/-- `_mulle_objc_class_is_forwardimplementation`. -/
def isForwardimplementation (cls : ClassState) (imp : ℕ) : Bool :=
  match cls.forwardmethod with
  | none => false
  | some method => method.implementation == imp

/-- `_mulle_objc_class_lookup_implementation_mode` when the cache has not answered. -/
def lookupImplementationUncached (mode : LookupMode) (methodid : ℕ) (s : State W) :
    Except Stop (Option ℕ × State W) :=
  let (method, s) :=
    match defaultsearchMethod env methodid s with
    | (some method, s) => (some method, s)
    | (none, s) => if mode.lazyforward then lazygetForwardmethod env s else (none, s)
  match method with
  | none => if mode.nofail then .error (.methodNotFound methodid) else .ok (none, s)
  | some method =>
    if mode.nofill then .ok (some method.implementation, s)
    else (fillImpcacheMethod env.toConfig fuel s.cls method methodid).map fun cls =>
      (some method.implementation, { s with cls })

/-- `_mulle_objc_class_lookup_implementation_mode`. -/
def lookupImplementationMode (mode : LookupMode) (methodid : ℕ) (s : State W) :
    Except Stop (Option ℕ × State W) :=
  if mode.noprobe then lookupImplementationUncached env fuel mode methodid s
  else
    match probeLoop env.shift s.cls.cache methodid fuel methodid with
    | none => .error .outOfFuel
    | some none => lookupImplementationUncached env fuel mode methodid s
    | some (some imp) =>
      if imp = 0 then lookupImplementationUncached env fuel mode methodid s
      else if mode.noforward && isForwardimplementation s.cls imp then
        (if mode.nofail then .error (.methodNotFound methodid) else .ok (none, s))
      else .ok (some imp, s)

/-- `_mulle_objc_class_lookup_implementation_nofail_nofill`. -/
def lookupImplementationNofailNofill (methodid : ℕ) (s : State W) : Except Stop (Option ℕ × State W) :=
  lookupImplementationMode env fuel ⟨false, false, true, true, true⟩ methodid s

/-- `_mulle_objc_object_handle_fastmethodtablefault`. -/
def handleFastmethodtablefault (methodid index : ℕ) (s : State W) : Selection W :=
  match lookupImplementationNofailNofill env fuel methodid s with
  | .error stop => .error stop
  | .ok (imp, s) =>
    let vtab := if env.methodCall = 0 then (index, imp.getD 0) :: s.cls.vtab else s.cls.vtab
    call env (searchMethodNofail env) fuel methodid { s with cls := { s.cls with vtab } }

/-- `_mulle_objc_fastmethodtable_invoke`. -/
def fastmethodtableInvoke (methodid index : ℕ) (s : State W) : Selection W :=
  match s.cls.vtab.lookup index with
  | some imp => .ok (imp, s)
  | none => handleFastmethodtablefault env fuel methodid index s

/-- The gate in front of the inlined calls with a constant methodid. -/
def preferFastmethod (methodid : ℕ) (s : State W) (otherwise : Selection W) : Selection W :=
  match getFastmethodtableIndex env methodid with
  | some index => fastmethodtableInvoke env fuel methodid index s
  | none => otherwise

end Lookup

/-! ## The call paths -/

/-- The object of a call, which is of the class at hand if it is not `nil`. -/
inductive Receiver
  | nil
  | object
deriving DecidableEq, Repr

/-- A call on `nil` selects nothing. -/
def unlessNil (obj : Receiver) (s : State W) (selection : Selection W) : Except Stop (Option ℕ × State W) :=
  match obj with
  | .nil => .ok (none, s)
  | .object => selection.map fun (imp, s) => (some imp, s)

section Paths

variable (fuel : ℕ) (obj : Receiver)

/-- `_mulle_objc_object_call`, on an object. -/
def objectCallUnchecked (methodid : ℕ) (s : State W) : Selection W :=
  callProbing env (searchMethodNofail env) fuel methodid s

/-- `mulle_objc_object_call`. -/
def objectCall (methodid : ℕ) (s : State W) : Except Stop (Option ℕ × State W) :=
  unlessNil obj s (callProbing env (searchMethodNofail env) fuel methodid s)

/-- `mulle_objc_object_call_inline_minimal`. -/
def objectCallInlineMinimal (methodid : ℕ) (s : State W) : Except Stop (Option ℕ × State W) :=
  unlessNil obj s (objectCallUnchecked env fuel methodid s)

/-- `mulle_objc_object_call_inline_partial`. -/
def objectCallInlinePartial (methodid : ℕ) (s : State W) : Except Stop (Option ℕ × State W) :=
  unlessNil obj s (preferFastmethod env fuel methodid s (call env (searchMethodNofail env) fuel methodid s))

/-- `mulle_objc_object_call_inline`. -/
def objectCallInline (methodid : ℕ) (s : State W) : Except Stop (Option ℕ × State W) :=
  unlessNil obj s
    (preferFastmethod env fuel methodid s (callFirstOrCollision env (searchMethodNofail env) fuel methodid s))

/-- `mulle_objc_object_call_inline_full`. -/
def objectCallInlineFull (methodid : ℕ) (s : State W) : Except Stop (Option ℕ × State W) :=
  unlessNil obj s
    (preferFastmethod env fuel methodid s (callProbing env (searchMethodNofail env) fuel methodid s))

/-- `mulle_objc_object_call_inline_variable`. -/
def objectCallInlineVariable (methodid : ℕ) (s : State W) : Except Stop (Option ℕ × State W) :=
  unlessNil obj s (callFirst env (searchMethodNofail env) fuel methodid s)

/-- `mulle_objc_object_call_inline_full_variable`. -/
def objectCallInlineFullVariable (methodid : ℕ) (s : State W) : Except Stop (Option ℕ × State W) :=
  unlessNil obj s (callProbing env (searchMethodNofail env) fuel methodid s)

/-- `mulle_objc_object_call_variable`. -/
def objectCallVariable (methodid : ℕ) (s : State W) : Except Stop (Option ℕ × State W) :=
  objectCall env fuel obj methodid s

/-- `mulle_objc_object_call_super_inline_partial`. -/
def objectCallSuperInlinePartial (superid : ℕ) (s : State W) : Except Stop (Option ℕ × State W) :=
  unlessNil obj s (call env (supersearchMethodNofail env) fuel superid s)

/-- `mulle_objc_object_call_super_inline`. -/
def objectCallSuperInline (superid : ℕ) (s : State W) : Except Stop (Option ℕ × State W) :=
  unlessNil obj s (callFirst env (supersearchMethodNofail env) fuel superid s)

/-- `mulle_objc_object_call_super_inline_full`. -/
def objectCallSuperInlineFull (superid : ℕ) (s : State W) : Except Stop (Option ℕ × State W) :=
  unlessNil obj s (callProbing env (supersearchMethodNofail env) fuel superid s)

/-- `mulle_objc_object_call_super`. -/
def objectCallSuper (superid : ℕ) (s : State W) : Except Stop (Option ℕ × State W) :=
  objectCallSuperInlineFull env fuel obj superid s

end Paths

end MulleObjcRuntime.Impcache
