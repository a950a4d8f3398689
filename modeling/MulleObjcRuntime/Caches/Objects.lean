import MulleObjcRuntime.Caches.Methods

/-!
# Calls on several objects

`mulle_objc_objects_call` calls the same method on several objects, and remembers for up to 16 classes what it has looked up.

* `Sending`, `objectsCall` — the loop, with what it remembers;
* `callEach` — each object is called on its own;
* `answers` — what the objects answer with, without any cache;
* `Undisturbing` — what the called methods may do;
* `objectsCall_eq` — the loop calls what is called on each object on its own.
-/

namespace MulleObjcRuntime.Caches

open Classes Impcache Dispatch Relation Lib.Runs Lib.Fallible

/-- An object, which is told by its address. -/
structure Instance where
  address : ℕ
  isa : ClassRef ℕ
deriving DecidableEq

/-- The runtime and the calls so far, and what has been looked up last in each of the places: `lastIsa` and
`lastSelIMP`. -/
structure Sending where
  rt : Runtime
  calls : List (Instance × ℕ)
  last : ℕ → Option (ClassRef ℕ × ℕ)

/-- Where the class objects are in memory. -/
structure Addresses where
  sizeofUintptr : ℕ
  address : ClassRef ℕ → ℕ

/-- The place of a class. -/
def Addresses.place (addresses : Addresses) (cls : ClassRef ℕ) : ℕ :=
  (addresses.address cls >>> addresses.sizeofUintptr) &&& 15

/-- The mode of `_mulle_objc_class_lookup_implementation`. -/
def lookupLazyforward : LookupMode := ⟨false, false, true, false, false⟩

section Loop

variable (p : Setting) (addresses : Addresses) (perform : Instance → ℕ → Runtime → Runtime) (methodid : ℕ)

/-- `mulle_objc_implementation_invoke`: the method does something. -/
def Sending.invoke (s : Sending) (obj : Instance) (imp : ℕ) : Sending :=
  { s with rt := perform obj imp s.rt, calls := s.calls ++ [(obj, imp)] }

/-- What is remembered for a class. -/
def Sending.remembered (s : Sending) (cls : ClassRef ℕ) : Option ℕ :=
  match s.last (addresses.place cls) with
  | some (isa, imp) => if isa = cls then some imp else none
  | none => none

/-- What has been looked up is remembered, in place of what was there. -/
def Sending.remember (s : Sending) (cls : ClassRef ℕ) (imp : ℕ) : Sending :=
  { s with last := Function.update s.last (addresses.place cls) (some (cls, imp)) }

/-- `_mulle_objc_class_lookup_implementation`, which must find something. -/
def lookupImplementation (rt : Runtime) (cls : ClassRef ℕ) : Except Stop (ℕ × Runtime) :=
  match lookupImplementationMode (environment p cls) (rounds p (rt.states cls)) lookupLazyforward methodid
      (rt.focus cls) with
  | .error stop => .error stop
  | .ok (none, _) => .error (.methodNotFound methodid)
  | .ok (some imp, s) => .ok (imp, rt.store cls s.cls)

/-- The loop of `mulle_objc_objects_call`, for one object. -/
def objectsCallStep (s : Sending) : Option Instance → Except Stop Sending
  | none => .ok s
  | some obj =>
    match s.remembered addresses obj.isa with
    | some imp => .ok (s.invoke perform obj imp)
    | none =>
      (lookupImplementation p methodid s.rt obj.isa).map fun (imp, rt) =>
        (({ s with rt := rt } : Sending).remember addresses obj.isa imp).invoke perform obj imp

/-- `mulle_objc_objects_call`: the calls it makes. -/
def objectsCall (rt : Runtime) (objects : List (Option Instance)) : Except Stop (List (Instance × ℕ)) :=
  (objects.foldlM (objectsCallStep p addresses perform methodid) ⟨rt, [], fun _ => none⟩).map Sending.calls

/-- A call on an object on its own. -/
def callStep (path : MethodCall) (s : Runtime × List (Instance × ℕ)) :
    Option Instance → Except Stop (Runtime × List (Instance × ℕ))
  | none => .ok s
  | some obj =>
    match path.run (environment p obj.isa) (rounds p (s.1.states obj.isa)) .object methodid (s.1.focus obj.isa) with
    | .error stop => .error stop
    | .ok (none, _) => .ok s
    | .ok (some imp, t) => .ok (perform obj imp (s.1.store obj.isa t.cls), s.2 ++ [(obj, imp)])

/-- Each object is called on its own. -/
def callEach (path : MethodCall) (rt : Runtime) (objects : List (Option Instance)) : Except Stop (List (Instance × ℕ)) :=
  (objects.foldlM (callStep p perform methodid path) (rt, [])).map Prod.snd

/-- What is answered without any cache. -/
def answerStep (u : Universe) (calls : List (Instance × ℕ)) : Option Instance → Except Stop (List (Instance × ℕ))
  | none => .ok calls
  | some obj => (fresh p u obj.isa (.method methodid)).map fun imp => calls ++ [(obj, imp)]

def answers (u : Universe) (objects : List (Option Instance)) : Except Stop (List (Instance × ℕ)) :=
  objects.foldlM (answerStep p methodid u) []

/-- What the called methods may do: harmless operations, which do not change what a class that is there answers. -/
structure Undisturbing : Prop where
  harmless : ∀ obj imp rt, ∃ ops, EachStep (step p) (Harmless p) rt ops ∧ run (step p) rt ops = some (perform obj imp rt)
  fresh : ∀ obj imp rt cls, cls.pair < rt.loaded.pairs.length →
    fresh p (perform obj imp rt).loaded cls (.method methodid) = fresh p rt.loaded cls (.method methodid)

end Loop

/-! ## Lookups -/

variable {p : Setting} {addresses : Addresses} {perform : Instance → ℕ → Runtime → Runtime} {methodid : ℕ}
  {rt : Runtime} {cls : ClassRef ℕ}

/-- A default search sets the class up, unless the method is one of those that are searched before. -/
lemma lookupUncached_lazy (cls : ClassRef ℕ) (hbefore : methodid ∉ beforeSetupMethodids) (fuel : ℕ) (s : State Universe) :
    ∃ s', Prepares p cls s s' ∧ s'.cls.initializing = true ∧
      lookupImplementationUncached (environment p cls) fuel lookupLazyforward methodid s =
        match lookedUp p cls s lookupLazyforward methodid with
        | none => .ok (none, s')
        | some method => (fillImpcacheMethod p.toConfig fuel s'.cls method methodid).map fun cls =>
            (some method.implementation, { s' with cls }) := by
  obtain ⟨hmethod, h⟩ := defaultsearchMethod_spec p cls methodid s
  have hinit : (defaultsearchMethod (environment p cls) methodid s).2.cls.initializing = true := by
    apply (setupBeforeSearch_prepares p cls _ s).2
    simpa using hbefore
  unfold lookupImplementationUncached lookedUp
  rcases hsearch : defaultsearchMethod (environment p cls) methodid s with ⟨_ | method, s₁⟩
  · rw [hsearch] at hmethod h hinit
    simp only at hmethod h hinit
    obtain ⟨hvalue, h', -⟩ := lazygetForwardmethod_spec p cls s₁
    rw [h.world, h.forward_or] at hvalue
    rcases hget : lazygetForwardmethod (environment p cls) s₁ with ⟨forward, s₂⟩
    rw [hget] at hvalue h'
    simp only at hvalue h'
    refine ⟨s₂, h.trans h', h'.initializing hinit, ?_⟩
    simp only [lookupLazyforward, if_true, hget, ← hmethod, Option.none_or, ← hvalue]
    rfl
  · rw [hsearch] at hmethod h hinit
    simp only at hmethod h hinit
    refine ⟨s₁, h, hinit, ?_⟩
    rw [← hmethod]
    rfl

/-- What a lookup in this mode comes to: the method that is found, or nothing. -/
lemma lookupLazyforward_spec (hfits : p.Fits) (h : Truthful p rt) (cls : ClassRef ℕ)
    (hgenuine : Genuine p (.method methodid)) (hbefore : methodid ∉ beforeSetupMethodids) :
    ∃ s, lookupImplementationMode (environment p cls) (rounds p (rt.states cls)) lookupLazyforward methodid (rt.focus cls) =
      .ok ((fresh p rt.loaded cls (.method methodid)).toOption, s) := by
  have hs := h.sound cls
  have hfuel := enough_rounds p (rt.states cls)
  have hprobe : probeLoop (environment p cls).shift (rt.focus cls).cls.cache methodid (rounds p (rt.states cls)) methodid =
      some ((rt.states cls).cache.cached methodid) := hs.probeLoop hgenuine.1 hfuel
  unfold lookupImplementationMode
  simp only [lookupLazyforward, Bool.false_eq_true, if_false, hprobe, Bool.false_and]
  cases hcached : (rt.states cls).cache.cached methodid with
  | some imp =>
    have hfresh := (h.right cls).cached (.method methodid) hgenuine imp hcached
    refine ⟨rt.focus cls, ?_⟩
    simp only [if_neg (cached_ne_zero hs.valid hgenuine.1 hcached), hfresh]
    rfl
  | none =>
    obtain ⟨s, hprepares, hinit, heq⟩ := lookupUncached_lazy (p := p) cls hbefore (rounds p (rt.states cls))
      (rt.focus cls)
    have hanswer := (h.right cls).answerFor_eq hgenuine hgenuine.askable
    have hlookedUp : answer methodid (lookedUp p cls (rt.focus cls) lookupLazyforward methodid) =
        fresh p rt.loaded cls (.method methodid) := hanswer
    rw [lookupLazyforward] at heq hlookedUp
    rw [← hlookedUp]
    simp only [heq]
    cases lookedUp p cls (rt.focus cls) ⟨false, false, true, false, false⟩ methodid with
    | none => exact ⟨s, rfl⟩
    | some method =>
      obtain ⟨hsound, -⟩ := Moves.sound hfits (h.sane.implemented cls) (hprepares.moves (.method methodid)) hs
        (h.forwards cls)
      obtain ⟨state, hfill⟩ := fillImpcacheMethod_ok cls hsound hinit hgenuine.1 (hprepares.enough _ hfuel) method
      simp only [hfill]
      exact ⟨_, rfl⟩

lemma harmless_of_asked {op : Operation} (hasked : asked op = .method methodid) (hcategory : category op = none)
    (hgenuine : Genuine p (.method methodid)) : Harmless p rt op := by
  refine ⟨Or.inr (hasked ▸ hgenuine), fun info hinfo => ?_⟩
  rw [hcategory] at hinfo
  cases hinfo

/-- **A lookup answers what is answered without any cache**, and the runtime stays truthful. -/
lemma lookupImplementation_spec (hfits : p.Fits) (h : Truthful p rt) (hcls : cls.pair < rt.loaded.pairs.length)
    (hgenuine : Genuine p (.method methodid)) (hbefore : methodid ∉ beforeSetupMethodids) :
    (lookupImplementation p methodid rt cls).map Prod.fst = fresh p rt.loaded cls (.method methodid) ∧
      ∀ imp rt', lookupImplementation p methodid rt cls = .ok (imp, rt') → Truthful p rt' ∧ rt'.loaded = rt.loaded := by
  obtain ⟨s, hlookup⟩ := lookupLazyforward_spec hfits h cls hgenuine hbefore
  have hmissing : fresh p rt.loaded cls (.method methodid) = answer methodid (freshMethod p rt.loaded cls methodid) := rfl
  unfold lookupImplementation
  rw [hlookup]
  cases hfresh : freshMethod p rt.loaded cls methodid with
  | none =>
    rw [hfresh] at hmissing
    rw [hmissing]
    exact ⟨rfl, fun imp rt' heq => by cases heq⟩
  | some method =>
    rw [hfresh] at hmissing
    rw [hmissing] at hlookup ⊢
    refine ⟨rfl, ?_⟩
    rintro _ _ ⟨⟩
    refine ⟨?_, rfl⟩
    have hstep : step p rt (.lookup lookupLazyforward cls methodid) = some (rt.store cls s.cls) := by
      simp only [step, if_neg hgenuine.1, returning, if_pos hcls, hlookup]
      rfl
    exact h.of_step hfits (harmless_of_asked rfl rfl hgenuine) hstep

lemma call_spec (hfits : p.Fits) (h : Truthful p rt) (hcls : cls.pair < rt.loaded.pairs.length)
    (hgenuine : Genuine p (.method methodid)) {path : MethodCall}
    (hpath : path.prefersFastmethods = true → getFastmethodtableIndex (environment p cls) methodid = none) :
    (path.run (environment p cls) (rounds p (rt.states cls)) .object methodid (rt.focus cls)).map Prod.fst =
        (fresh p rt.loaded cls (.method methodid)).map some ∧
      ∀ imp s, path.run (environment p cls) (rounds p (rt.states cls)) .object methodid (rt.focus cls) = .ok (imp, s) →
        Truthful p (rt.store cls s.cls) := by
  refine ⟨(h.agrees hfits cls).call path methodid hgenuine hpath, fun imp s hrun => ?_⟩
  have hstep : step p rt (.call path cls methodid) = some (rt.store cls s.cls) := by
    simp only [step, if_neg hgenuine.1, returning, if_pos hcls, hrun]
    rfl
  exact h.of_step hfits (harmless_of_asked rfl rfl hgenuine) hstep

/-! ## The loops -/

/-- What holds between two objects: the runtime is truthful, and nothing has changed what the classes answer. -/
structure Unchanged (p : Setting) (methodid : ℕ) (u : Universe) (rt : Runtime) : Prop where
  truthful : Truthful p rt
  loaded : u.pairs.length ≤ rt.loaded.pairs.length
  fresh : ∀ cls : ClassRef ℕ, cls.pair < u.pairs.length →
    fresh p rt.loaded cls (.method methodid) = fresh p u cls (.method methodid)

variable {u : Universe}

lemma loaded_le_of_step (hfits : p.Fits) (h : Steady p rt) {op : Operation} {rt' : Runtime} (hstep : step p rt op = some rt') :
    rt.loaded.pairs.length ≤ rt'.loaded.pairs.length := by
  rcases h.step_eq_some hfits hstep with ⟨cls, new, -, -, rfl⟩ | ⟨item, sane, rfl, hload⟩
  · exact le_rfl
  · obtain ⟨-, hinstall, -⟩ := h.of_load sane hload
    exact (sane_install h.sane sane hinstall).2

lemma Truthful.of_run (hfits : p.Fits) (h : Truthful p rt) {ops : List Operation} {rt' : Runtime}
    (hharmless : EachStep (step p) (Harmless p) rt ops) (hrun : run (step p) rt ops = some rt') :
    Truthful p rt' ∧ rt.loaded.pairs.length ≤ rt'.loaded.pairs.length := by
  induction ops generalizing rt with
  | nil =>
    cases hrun
    exact ⟨h, le_rfl⟩
  | cons op ops ih =>
    obtain ⟨rt₁, hstep, hrun⟩ := run_cons_eq_some.1 hrun
    obtain ⟨h', hle⟩ := ih (h.of_step hfits hharmless.1 hstep) (hharmless.2 rt₁ hstep) hrun
    exact ⟨h', (loaded_le_of_step hfits h.toSteady hstep).trans hle⟩

lemma Unchanged.performed (hfits : p.Fits) (hperform : Undisturbing p perform methodid) (h : Unchanged p methodid u rt) (obj : Instance)
    (imp : ℕ) : Unchanged p methodid u (perform obj imp rt) := by
  obtain ⟨ops, hharmless, hrun⟩ := hperform.harmless obj imp rt
  obtain ⟨htruthful, hle⟩ := h.truthful.of_run hfits hharmless hrun
  refine ⟨htruthful, h.loaded.trans hle, fun cls hcls => ?_⟩
  rw [hperform.fresh obj imp rt cls (hcls.trans_le h.loaded), h.fresh cls hcls]

/-- What holds in the loop: what is remembered is what the class answers. -/
structure SendingInv (p : Setting) (addresses : Addresses) (methodid : ℕ) (u : Universe) (s : Sending) : Prop where
  unchanged : Unchanged p methodid u s.rt
  remembered : ∀ cls imp, s.remembered addresses cls = some imp → fresh p u cls (.method methodid) = .ok imp

lemma remembered_remember (s : Sending) (cls other : ClassRef ℕ) (imp : ℕ) :
    (s.remember addresses cls imp).remembered addresses other =
      if addresses.place other = addresses.place cls then if cls = other then some imp else none
      else s.remembered addresses other := by
  unfold Sending.remembered Sending.remember
  by_cases hplace : addresses.place other = addresses.place cls
  · simp [hplace]
  · simp [hplace]

/-- **One object of the loop.** -/
lemma objectsCallStep_spec (hfits : p.Fits) (hgenuine : Genuine p (.method methodid))
    (hbefore : methodid ∉ beforeSetupMethodids) (hperform : Undisturbing p perform methodid) {s : Sending}
    (h : SendingInv p addresses methodid u s) {object : Option Instance} (hobject : ∀ obj ∈ object, obj.isa.pair < u.pairs.length) :
    (objectsCallStep p addresses perform methodid s object).map Sending.calls =
        answerStep p methodid u s.calls object ∧
      ∀ s', objectsCallStep p addresses perform methodid s object = .ok s' → SendingInv p addresses methodid u s' := by
  cases object with
  | none =>
    refine ⟨rfl, ?_⟩
    rintro _ ⟨⟩
    exact h
  | some obj =>
    have hcls := hobject obj rfl
    simp only [objectsCallStep, answerStep]
    cases hremembered : s.remembered addresses obj.isa with
    | some imp =>
      simp only [h.remembered obj.isa imp hremembered]
      refine ⟨rfl, ?_⟩
      rintro _ ⟨⟩
      exact ⟨h.unchanged.performed hfits hperform obj imp, h.remembered⟩
    | none =>
      obtain ⟨hvalue, hkept⟩ := lookupImplementation_spec hfits h.unchanged.truthful (hcls.trans_le h.unchanged.loaded)
        hgenuine hbefore
      rw [h.unchanged.fresh obj.isa hcls] at hvalue
      rw [← hvalue]
      cases hlookup : lookupImplementation p methodid s.rt obj.isa with
      | error stop => exact ⟨rfl, fun s' heq => by cases heq⟩
      | ok r =>
        obtain ⟨imp, rt⟩ := r
        refine ⟨rfl, ?_⟩
        rintro _ ⟨⟩
        obtain ⟨htruthful, hloaded⟩ := hkept imp rt hlookup
        have hunchanged : Unchanged p methodid u rt :=
          ⟨htruthful, hloaded ▸ h.unchanged.loaded, hloaded ▸ h.unchanged.fresh⟩
        refine ⟨hunchanged.performed hfits hperform obj imp, fun cls imp' hother => ?_⟩
        have hother : (s.remember addresses obj.isa imp).remembered addresses cls = some imp' := hother
        rw [remembered_remember] at hother
        split at hother
        · obtain ⟨rfl, hsame⟩ := Option.ite_none_right_eq_some.1 hother
          cases hsame
          rw [hlookup] at hvalue
          exact hvalue.symm
        · exact h.remembered cls imp' hother

/-- **One object on its own.** -/
lemma callStep_spec (hfits : p.Fits) (hgenuine : Genuine p (.method methodid)) (hperform : Undisturbing p perform methodid)
    {path : MethodCall} (hpath : path.prefersFastmethods = true → ∀ cls, getFastmethodtableIndex (environment p cls) methodid = none)
    {s : Runtime × List (Instance × ℕ)} (h : Unchanged p methodid u s.1) {object : Option Instance}
    (hobject : ∀ obj ∈ object, obj.isa.pair < u.pairs.length) :
    (callStep p perform methodid path s object).map Prod.snd = answerStep p methodid u s.2 object ∧
      ∀ s', callStep p perform methodid path s object = .ok s' → Unchanged p methodid u s'.1 := by
  cases object with
  | none =>
    refine ⟨rfl, ?_⟩
    rintro _ ⟨⟩
    exact h
  | some obj =>
    have hcls := hobject obj rfl
    obtain ⟨hvalue, hkept⟩ := call_spec hfits h.truthful (hcls.trans_le h.loaded) hgenuine
      fun hprefers => hpath hprefers obj.isa
    rw [h.fresh obj.isa hcls] at hvalue
    simp only [callStep, answerStep]
    cases hrun : path.run (environment p obj.isa) (rounds p (s.1.states obj.isa)) .object methodid (s.1.focus obj.isa) with
    | error stop =>
      rw [hrun] at hvalue
      cases hfresh : fresh p u obj.isa (.method methodid) with
      | ok imp =>
        rw [hfresh] at hvalue
        cases hvalue
      | error stop' =>
        rw [hfresh] at hvalue
        cases hvalue
        exact ⟨rfl, fun s' heq => by cases heq⟩
    | ok r =>
      obtain ⟨value, t⟩ := r
      rw [hrun] at hvalue
      cases hfresh : fresh p u obj.isa (.method methodid) with
      | error stop =>
        rw [hfresh] at hvalue
        cases hvalue
      | ok imp =>
        rw [hfresh] at hvalue
        cases hvalue
        refine ⟨rfl, ?_⟩
        rintro _ ⟨⟩
        have hstored : Unchanged p methodid u (s.1.store obj.isa t.cls) := ⟨hkept _ _ hrun, h.loaded, h.fresh⟩
        exact hstored.performed hfits hperform obj imp

/-- **The loop over several objects calls what is called on each object on its own**, by any way to call a method, and that is
what the class answers without any cache; both fail at the first object that has no such method. -/
theorem objectsCall_eq (hfits : p.Fits) (classdefaults : ℕ) {ops : List Operation}
    (hharmless : EachStep (step p) (Harmless p) (Runtime.initial classdefaults) ops)
    (hrun : run (step p) (Runtime.initial classdefaults) ops = some rt) (hgenuine : Genuine p (.method methodid))
    (hbefore : methodid ∉ beforeSetupMethodids) (hperform : Undisturbing p perform methodid) {path : MethodCall}
    (hpath : path.prefersFastmethods = true → ∀ cls, getFastmethodtableIndex (environment p cls) methodid = none)
    (addresses : Addresses) {objects : List (Option Instance)}
    (hobjects : ∀ obj, some obj ∈ objects → obj.isa.pair < rt.loaded.pairs.length) :
    objectsCall p addresses perform methodid rt objects = answers p methodid rt.loaded objects ∧
      callEach p perform methodid path rt objects = answers p methodid rt.loaded objects := by
  obtain ⟨htruthful, -⟩ := (truthful_initial p classdefaults).of_run hfits hharmless hrun
  have hunchanged : Unchanged p methodid rt.loaded rt := ⟨htruthful, le_rfl, fun _ _ => rfl⟩
  constructor
  · have hstart : SendingInv p addresses methodid rt.loaded ⟨rt, [], fun _ => none⟩ :=
      ⟨hunchanged, fun cls imp hnone => by cases hnone⟩
    exact foldlM_view Sending.calls (fun s object hobject h =>
      objectsCallStep_spec hfits hgenuine hbefore hperform h fun obj hobj => hobjects obj (hobj ▸ hobject)) hstart
  · exact foldlM_view Prod.snd (fun s object hobject h =>
      callStep_spec hfits hgenuine hperform hpath h fun obj hobj => hobjects obj (hobj ▸ hobject)) hunchanged

/-! ## A sample -/

/-- The setting of the other samples, for more than one class. -/
def objectsSetting : Setting :=
  { sampleSetting with load := ⟨fun name => if name = "A" then 1 else 2, fun _ => none, false, 0⟩ }

lemma objectsSetting_fits : objectsSetting.Fits := Or.inl rfl

/-- What the methods of the sample do: they call a method of the first class, unless this ends the process. -/
def callBack (_ : Instance) (_ : ℕ) (rt : Runtime) : Runtime :=
  (step objectsSetting rt (.call .standard ⟨0, false⟩ 7)).getD rt

lemma genuine_seven : Genuine objectsSetting (.method 7) := by decide

lemma callBack_undisturbing : Undisturbing objectsSetting callBack 7 := by
  refine ⟨fun obj imp rt => ?_, fun obj imp rt cls _ => ?_⟩
  · cases hstep : step objectsSetting rt (.call .standard ⟨0, false⟩ 7) with
    | none => exact ⟨[], trivial, by rw [run, callBack, hstep, Option.getD_none]⟩
    | some rt' =>
      refine ⟨[.call .standard ⟨0, false⟩ 7], ⟨harmless_of_asked rfl rfl genuine_seven, fun _ _ => trivial⟩, ?_⟩
      rw [run, callBack, hstep, Option.getD_some]
      rfl
  · have hloaded : (callBack obj imp rt).loaded = rt.loaded := by
      unfold callBack
      cases hstep : step objectsSetting rt (.call .standard ⟨0, false⟩ 7) with
      | none => rfl
      | some rt' =>
        rw [step, if_neg (by decide)] at hstep
        obtain ⟨-, value, s, -, rfl⟩ := returning_eq_some hstep
        rfl
    rw [hloaded]

/-- Two classes with methods of their own. -/
def twoClasses : List Operation :=
  loading (sampleClass (some (.single 0 ⟨101, 7, 0, 700⟩))) ++
    loading (.loadclass ⟨⟨2, "B", none, some (.single 0 ⟨102, 7, 0, 701⟩)⟩, 0, 0, "", 0, -1, []⟩)

/-- Class objects whose places are the same. -/
def samePlace : Addresses := ⟨8, fun cls => 0x1000 * (cls.pair + 1)⟩

/-- Objects of two classes that share a place, and `nil`. -/
theorem objectsCall_eq_sample : ∃ rt, run (step objectsSetting) (Runtime.initial 0) twoClasses = some rt ∧
    (objectsCall objectsSetting samePlace callBack 7 rt
        [some ⟨16, ⟨0, false⟩⟩, none, some ⟨32, ⟨1, false⟩⟩, some ⟨48, ⟨0, false⟩⟩] =
        answers objectsSetting 7 rt.loaded [some ⟨16, ⟨0, false⟩⟩, none, some ⟨32, ⟨1, false⟩⟩, some ⟨48, ⟨0, false⟩⟩] ∧
      callEach objectsSetting callBack 7 .standard rt
          [some ⟨16, ⟨0, false⟩⟩, none, some ⟨32, ⟨1, false⟩⟩, some ⟨48, ⟨0, false⟩⟩] =
        answers objectsSetting 7 rt.loaded [some ⟨16, ⟨0, false⟩⟩, none, some ⟨32, ⟨1, false⟩⟩, some ⟨48, ⟨0, false⟩⟩]) ∧
    (answers objectsSetting 7 rt.loaded
        [some ⟨16, ⟨0, false⟩⟩, none, some ⟨32, ⟨1, false⟩⟩, some ⟨48, ⟨0, false⟩⟩]).toOption.map (List.map Prod.snd) =
      some [700, 701, 700] := by
  have hchecked : EachStep (step objectsSetting) (Checked objectsSetting) (Runtime.initial 0) twoClasses := by
    decide +kernel
  have hlast : ((run (step objectsSetting) (Runtime.initial 0) twoClasses).map fun rt => (rt.loaded.pairs.length,
      (answers objectsSetting 7 rt.loaded
        [some ⟨16, ⟨0, false⟩⟩, none, some ⟨32, ⟨1, false⟩⟩, some ⟨48, ⟨0, false⟩⟩]).toOption.map (List.map Prod.snd))) =
      some (2, some [700, 701, 700]) := by decide +kernel
  obtain ⟨rt, hrun, heq⟩ := Option.map_eq_some_iff.1 hlast
  obtain ⟨hlength, hanswers⟩ := Prod.ext_iff.1 heq
  refine ⟨rt, hrun, ?_, hanswers⟩
  refine objectsCall_eq objectsSetting_fits 0 (hchecked.mono fun _ _ h => h.harmless) hrun genuine_seven (by decide)
    callBack_undisturbing (fun hprefers => by cases hprefers) samePlace ?_
  intro obj hobj
  have hlength : rt.loaded.pairs.length = 2 := hlength
  rw [hlength]
  simp only [List.mem_cons, List.not_mem_nil, or_false, Option.some.injEq, reduceCtorEq, false_or] at hobj
  rcases hobj with rfl | rfl | rfl
  · decide
  · decide
  · decide

end MulleObjcRuntime.Caches
