import MulleObjcRuntime.Caches.Answers

/-!
# The method caches in a run

* `Genuine` — a methodid that is no superid, or a registered superid;
* `Agrees`, `Coherent` — what a class gets to through its cache is what a search without any cache comes to;
* `Spares`, `Harmless` — what a category must not do to a class, and which operations a run may have;
* `coherent_of_harmless` — in a run of such operations all caches are coherent.
-/

namespace MulleObjcRuntime.Caches

open Classes Impcache Dispatch Relation Lib.Runs

variable {p : Setting}

/-! ## The ids -/

/-- A methodid that is no superid, or a superid that is registered: one cache holds both. -/
def Genuine (p : Setting) : Key → Prop
  | .method methodid => methodid ≠ 0 ∧ p.superids methodid = none
  | .super superid => superid ≠ 0 ∧ p.superids superid ≠ none

instance : DecidablePred (Genuine p)
  | .method methodid => inferInstanceAs (Decidable (methodid ≠ 0 ∧ p.superids methodid = none))
  | .super superid => inferInstanceAs (Decidable (superid ≠ 0 ∧ p.superids superid ≠ none))

lemma Genuine.askable {key : Key} (h : Genuine p key) : Askable p key := by
  cases key with
  | method methodid => exact h.1
  | super superid => exact h

lemma Genuine.unique {key key' : Key} (h : Genuine p key) (h' : Genuine p key') (hsame : key.uniqueid = key'.uniqueid) :
    key = key' := by
  cases key with
  | method methodid =>
    cases key' with
    | method methodid' => exact congrArg Key.method hsame
    | super superid =>
      obtain rfl : methodid = superid := hsame
      exact absurd h.2 h'.2
  | super superid =>
    cases key' with
    | method methodid =>
      obtain rfl : superid = methodid := hsame
      exact absurd h'.2 h.2
    | super superid' => exact congrArg Key.super hsame

/-! ## Coherent caches -/

/-- **What the class gets to through its cache** is what a search without any cache comes to: every call that is not a
fast one, every lookup, every entry, and the forward method the class remembers. -/
structure Agrees (p : Setting) (rt : Runtime) (cls : ClassRef ℕ) : Prop where
  call : ∀ (path : MethodCall) methodid, Genuine p (.method methodid) →
    (path.prefersFastmethods = true → getFastmethodtableIndex (environment p cls) methodid = none) →
    (path.run (environment p cls) (rounds p (rt.states cls)) .object methodid (rt.focus cls)).map Prod.fst =
      (fresh p rt.loaded cls (.method methodid)).map some
  callSuper : ∀ (path : SuperCall) superid, Genuine p (.super superid) →
    (path.run (environment p cls) (rounds p (rt.states cls)) .object superid (rt.focus cls)).map Prod.fst =
      (fresh p rt.loaded cls (.super superid)).map some
  lookup : ∀ mode methodid imp s, Genuine p (.method methodid) →
    lookupImplementationMode (environment p cls) (rounds p (rt.states cls)) mode methodid (rt.focus cls) =
      .ok (some imp, s) → fresh p rt.loaded cls (.method methodid) = .ok imp
  lookupSuper : ∀ superid imp s, Genuine p (.super superid) →
    lookupSuperimplementationNofail (environment p cls) (rounds p (rt.states cls)) superid (rt.focus cls) =
      .ok (imp, s) → fresh p rt.loaded cls (.super superid) = .ok imp
  cached : ∀ key, Genuine p key → ∀ imp, (rt.states cls).cache.cached key.uniqueid = some imp →
    fresh p rt.loaded cls key = .ok imp
  forward : ∀ method ∈ (rt.states cls).forwardmethod, freshForwardmethod p rt.loaded cls = some method

/-- All classes agree. -/
def Coherent (p : Setting) (rt : Runtime) : Prop :=
  ∀ cls : ClassRef ℕ, cls.pair < rt.loaded.pairs.length → Agrees p rt cls

/-- A category spares a class: it leaves whatever stays cached there, and does not touch `forward:` if the class remembers
its forward method. -/
structure Spares (p : Setting) (u : Universe) (info : Load.LoadCategory) (cls : ClassRef ℕ) (state : ClassState) :
    Prop where
  cached : ∀ key, Genuine p key → Survives (addedMethods (.loadcategory info)) state key → Leaves p u info cls key
  forward : state.forwardmethod ≠ none → ¬ Touches p u info cls (.method forwardMethodid)

/-- The category an operation loads. -/
def category : Operation → Option Load.LoadCategory
  | .load (.loadcategory info) _ => some info
  | _ => none

/-- An operation that asks for an id as what it is, and loads no category that does not spare all classes; classes and
mixins may be loaded at any time. -/
structure Harmless (p : Setting) (rt : Runtime) (op : Operation) : Prop where
  asks : (asked op).uniqueid = 0 ∨ Genuine p (asked op)
  spares : ∀ info ∈ category op, ∀ cls : ClassRef ℕ, cls.pair < rt.loaded.pairs.length →
    Spares p rt.loaded info cls (rt.states cls)

/-! ## Runs -/

/-- What holds in every state of a run of harmless operations. -/
structure Truthful (p : Setting) (rt : Runtime) : Prop extends Steady p rt where
  right : ∀ cls, Right p (Genuine p) rt.loaded cls (rt.states cls)
  forward : ∀ cls, ∀ method ∈ (rt.states cls).forwardmethod, freshForwardmethod p rt.loaded cls = some method

variable {rt rt' : Runtime}

lemma truthful_initial (p : Setting) (classdefaults : ℕ) : Truthful p (Runtime.initial classdefaults) := by
  refine ⟨steady_initial p classdefaults, fun cls => right_new fun _ hkey => hkey.askable, fun cls method hmethod => ?_⟩
  cases hmethod

lemma keys_genuine {key : Key} (h : key.uniqueid = 0 ∨ Genuine p key) : Keys p (Genuine p) key := by
  refine ⟨fun _ hother => hother.askable, fun other hother hsame => ?_⟩
  rcases h with hzero | hkey
  · exact absurd (hsame.trans hzero) hother.askable.uniqueid_ne_zero
  · exact hother.unique hkey hsame

lemma forward_moves {u : Universe} {cls : ClassRef ℕ} {key : Key} {state state' : ClassState}
    (h : Moves p u cls key state state') (hforward : ∀ method ∈ state.forwardmethod, freshForwardmethod p u cls = some method) :
    ∀ method ∈ state'.forwardmethod, freshForwardmethod p u cls = some method := by
  induction h with
  | refl => exact hforward
  | tail _ hmove ih =>
    intro method hmethod
    rcases hmove.forwardmethod with hsame | ⟨-, hfound⟩
    · exact ih method (hsame ▸ hmethod)
    · rwa [hfound] at hmethod

lemma forward_kept {u u' : Universe} {cls : ClassRef ℕ} {state : ClassState}
    (hkept : state.forwardmethod ≠ none → freshForwardmethod p u' cls = freshForwardmethod p u cls)
    (hforward : ∀ method ∈ state.forwardmethod, freshForwardmethod p u cls = some method) :
    ∀ method ∈ state.forwardmethod, freshForwardmethod p u' cls = some method := by
  intro method hmethod
  rw [hkept (Option.ne_none_iff_exists'.2 ⟨method, hmethod⟩)]
  exact hforward method hmethod

lemma Truthful.store (hfits : p.Fits) (h : Truthful p rt) {cls : ClassRef ℕ} (hcls : cls.pair < rt.loaded.pairs.length)
    {key : Key} (hK : Keys p (Genuine p) key) {new : ClassState}
    (hmoves : Moves p rt.loaded cls key (rt.states cls) new) : Truthful p (rt.store cls new) := by
  refine ⟨h.toSteady.store hfits hcls hmoves, ?_, ?_⟩
  · refine (Function.forall_update_iff rt.states fun other state => Right p (Genuine p) rt.loaded other state).2
      ⟨?_, fun other _ => h.right other⟩
    exact (h.right cls).moves hfits (h.sane.implemented cls) hK hmoves (h.sound cls) (h.forwards cls)
  · refine (Function.forall_update_iff rt.states fun other state =>
      ∀ method ∈ state.forwardmethod, freshForwardmethod p rt.loaded other = some method).2
      ⟨?_, fun other _ => h.forward other⟩
    exact forward_moves hmoves (h.forward cls)

/-- A load changes no answer that the class goes on to give: not what stays cached, and not its forward method. -/
structure KeepsAnswers (p : Setting) (methods : List Method) (u u' : Universe) (cls : ClassRef ℕ) (state : ClassState) :
    Prop where
  cached : ∀ key, Genuine p key → Survives methods state key → fresh p u' cls key = fresh p u cls key
  forward : state.forwardmethod ≠ none → freshForwardmethod p u' cls = freshForwardmethod p u cls

lemma keepsAnswers_new {u u' : Universe} {item : Load.LoadItem} {cls : ClassRef ℕ} (hu : Adopted u)
    {r : ℕ × String × ℕ × Bool} (hitem : item.summary = some r) (h : item.install p.load u = .ok u')
    (hcls : cls.pair < u.pairs.length) (methods : List Method) (state : ClassState) :
    KeepsAnswers p methods u u' cls state := by
  obtain ⟨hforward, hsearched⟩ := fresh_new hu hitem h hcls
  exact ⟨fun key hkey _ => fresh_congr hkey.askable (hsearched key) fun _ => hforward, fun _ => hforward⟩

lemma Spares.keepsAnswers {u u' : Universe} {info : Load.LoadCategory} {cls : ClassRef ℕ} {state : ClassState}
    (h : Spares p u info cls state) (hinstall : (Load.LoadItem.loadcategory info).install p.load u = .ok u') :
    KeepsAnswers p (addedMethods (.loadcategory info)) u u' cls state :=
  ⟨fun key hkey hsurvives => (h.cached key hkey hsurvives).fresh_eq hkey.askable hinstall,
    fun hsome => freshForwardmethod_category (h.forward hsome) hinstall⟩

lemma Harmless.keepsAnswers (h : Steady p rt) {item : Load.LoadItem} {sane : Sane item}
    (hharmless : Harmless p rt (.load item sane)) {u' : Universe} (hinstall : item.install p.load rt.loaded = .ok u')
    (cls : ClassRef ℕ) : KeepsAnswers p (addedMethods item) rt.loaded u' cls (rt.states cls) := by
  by_cases hcls : cls.pair < rt.loaded.pairs.length
  · cases item with
    | loadclass info => exact keepsAnswers_new h.adopted rfl hinstall hcls _ _
    | loadmixin info => exact keepsAnswers_new h.adopted rfl hinstall hcls _ _
    | loadcategory info => exact (hharmless.spares info rfl cls hcls).keepsAnswers hinstall
  · rw [h.unused cls (Nat.not_lt.1 hcls)]
    exact ⟨fun key hkey hsurvives => absurd hsurvives (not_survives_new hkey.askable), fun hsome => absurd rfl hsome⟩

lemma Truthful.of_load (h : Truthful p rt) {item : Load.LoadItem} (sane : Sane item)
    (hharmless : Harmless p rt (.load item sane)) (hload : load p rt item = some rt') : Truthful p rt' := by
  obtain ⟨hsteady, hinstall, hforgets⟩ := h.toSteady.of_load sane hload
  have hkeeps := hharmless.keepsAnswers h.toSteady hinstall
  have hforward := fun cls => forward_kept (hkeeps cls).forward (h.forward cls)
  refine ⟨hsteady, fun cls => ?_, fun cls method hmethod => ?_⟩
  · apply (h.right cls).forgets (fun _ hkey => hkey.askable) (hforgets cls) (hkeeps cls).cached
    intro key hkey hmissing method hmethod
    exact fresh_of_missing hkey.askable hmissing (hforward cls method hmethod)
  · rw [(hforgets cls).forwardmethod] at hmethod
    exact hforward cls method hmethod

/-- **One operation.** -/
lemma Truthful.of_step (hfits : p.Fits) (h : Truthful p rt) {op : Operation} (hharmless : Harmless p rt op)
    (hstep : step p rt op = some rt') : Truthful p rt' := by
  rcases h.toSteady.step_eq_some hfits hstep with ⟨cls, new, hcls, hmoves, rfl⟩ | ⟨item, sane, rfl, hload⟩
  · exact h.store hfits hcls (keys_genuine hharmless.asks) hmoves
  · exact h.of_load sane hharmless hload

/-- **A truthful class agrees.** -/
lemma Truthful.agrees (hfits : p.Fits) (h : Truthful p rt) (cls : ClassRef ℕ) : Agrees p rt cls := by
  have hu := h.sane.implemented cls
  have hs := h.sound cls
  have hf := h.forwards cls
  have hr := h.right cls
  have hfuel := enough_rounds p (rt.states cls)
  have hK : ∀ key, Genuine p key → Keys p (Genuine p) key := fun _ hkey => keys_genuine (Or.inr hkey)
  constructor
  · intro path methodid hkey hpath
    exact hr.call hfits hu hs hf hfuel hkey.1 hkey hpath
  · intro path superid hkey
    exact hr.callSuper hfits hu hs hf hfuel hkey.1 hkey hkey.askable path
  · intro mode methodid imp s hkey hlookup
    exact hr.lookup hfits hu (hK _ hkey) hs hf hkey hlookup
  · intro superid imp s hkey hlookup
    exact hr.lookupSuper hfits hu (hK _ hkey) hs hf hkey hlookup
  · exact hr.cached
  · exact h.forward cls

/-- **In a run of harmless operations all caches are coherent**: what a class gets to through its cache, by a methodid or
by a superid, is in every state what a search without any cache comes to. -/
theorem coherent_of_harmless (hfits : p.Fits) (classdefaults : ℕ) {ops : List Operation}
    (h : EachStep (step p) (Harmless p) (Runtime.initial classdefaults) ops) :
    Throughout (step p) (Coherent p) (Runtime.initial classdefaults) ops := by
  have htruthful : Throughout (step p) (Truthful p) (Runtime.initial classdefaults) ops :=
    h.throughout (truthful_initial p classdefaults) fun rt op rt' ht hharmless hstep => ht.of_step hfits hharmless hstep
  exact htruthful.mono fun rt ht cls _ => ht.agrees hfits cls

/-! ## Samples -/

/-- A class has nothing to lose: no forward method, and its cache is empty, or thrown away for the methods. -/
def NothingToLose (methods : List Method) (state : ClassState) : Prop :=
  state.forwardmethod = none ∧ ((∃ method ∈ methods, state.cache.cached method.methodid ≠ none) ∨
    ∀ e ∈ state.cache.entries, e.uniqueid = 0)

instance (methods : List Method) (state : ClassState) : Decidable (NothingToLose methods state) := by
  unfold NothingToLose
  infer_instance

lemma NothingToLose.not_survives {methods : List Method} {state : ClassState} (h : NothingToLose methods state) {key : Key}
    (hkey : Askable p key) : ¬ Survives methods state key := by
  rintro ⟨hcached, hnone⟩
  rcases h.2 with ⟨method, hmethod, hsome⟩ | hempty
  · exact hsome (hnone method hmethod)
  · obtain ⟨imp, himp⟩ := Option.ne_none_iff_exists'.1 hcached
    obtain ⟨e, he, -⟩ := Option.map_eq_some_iff.1 himp
    have hid : e.uniqueid = key.uniqueid := by simpa using List.find?_some he
    exact hkey.uniqueid_ne_zero (hid.symm.trans (hempty e (List.mem_of_find?_eq_some he)))

/-- An operation that is seen to be harmless. -/
def Checked (p : Setting) (rt : Runtime) (op : Operation) : Prop :=
  ((asked op).uniqueid = 0 ∨ Genuine p (asked op)) ∧ ∀ info ∈ category op, ∀ cls ∈ walkedClasses rt.loaded,
    NothingToLose (addedMethods (.loadcategory info)) (rt.states cls)

instance (rt : Runtime) : DecidablePred (Checked p rt) := fun op => by
  unfold Checked
  infer_instance

lemma Checked.harmless {op : Operation} (h : Checked p rt op) : Harmless p rt op := by
  refine ⟨h.1, fun info hinfo cls hcls => ?_⟩
  have hnothing := h.2 info hinfo cls (mem_walkedClasses.2 hcls)
  exact ⟨fun key hkey hsurvives => absurd hsurvives (hnothing.not_survives hkey.askable),
    fun hsome => absurd hnothing.1 hsome⟩

lemma sampleForwardmethod_ne_zero :
    ∀ method ∈ some (⟨200, forwardMethodid, 0, 900⟩ : Method), method.implementation ≠ 0 := by simp

/-- Caches of the smallest size, fast methods, and a forward method for classes without one. -/
def sampleSetting : Setting :=
  { plainSetting with
    load := ⟨fun _ => 1, fun _ => none, false, 0⟩
    classdefaultsForwardmethod := some ⟨200, forwardMethodid, 0, 900⟩
    forwardmethod_ne_zero := sampleForwardmethod_ne_zero }

lemma sampleSetting_fits : sampleSetting.Fits := Or.inl rfl

/-- A class with the instance methods of the list. -/
def sampleClass (list : Option MethodList) : Load.LoadItem :=
  .loadclass ⟨⟨1, "A", none, list⟩, 0, 0, "", 0, -1, []⟩

/-- A category of the class. -/
def sampleCategory (list : MethodList) : Load.LoadItem := .loadcategory ⟨5, "C", 1, "A", 0, none, some list, []⟩

/-- The load of an item that may be loaded. -/
def loading (item : Load.LoadItem) : List Operation := if h : Sane item then [.load item h] else []

/-- A method is called, then a category overrides it, and it is called again. -/
def overrideAfterCall : List Operation :=
  loading (sampleClass (some (.single 0 ⟨101, 7, 0, 700⟩))) ++ [.call .standard ⟨0, false⟩ 7] ++
    loading (sampleCategory (.single 0 ⟨102, 7, 0, 701⟩)) ++ [.call .standard ⟨0, false⟩ 7]

/-- The override is found: the old method is in the cache, which is thrown away. -/
theorem coherent_of_harmless_sample :
    Throughout (step sampleSetting) (Coherent sampleSetting) (Runtime.initial 0) overrideAfterCall ∧
      ((run (step sampleSetting) (Runtime.initial 0) overrideAfterCall).map fun rt =>
        (rt.states ⟨0, false⟩).cache.cached 7) = some (some 701) := by
  refine ⟨?_, by decide +kernel⟩
  have hchecked : EachStep (step sampleSetting) (Checked sampleSetting) (Runtime.initial 0) overrideAfterCall := by
    decide +kernel
  exact coherent_of_harmless sampleSetting_fits 0 (hchecked.mono fun _ _ h => h.harmless)

/-- A missing method is called, then a category adds `forward:` to its class. -/
def addForward : List Operation :=
  loading (sampleClass none) ++ [.call .standard ⟨0, false⟩ 7] ++
    loading (sampleCategory (.single 0 ⟨102, forwardMethodid, 0, 901⟩))

/-- **A category that only adds `forward:`**: the old forward method stays in the cache, under the id of the missing
method, and stays the forward method of the class. -/
theorem forward_survives_load :
    ((run (step sampleSetting) (Runtime.initial 0) addForward).map fun rt =>
        ((rt.states ⟨0, false⟩).cache.cached 7, (rt.states ⟨0, false⟩).forwardmethod.map Method.implementation,
          (fresh sampleSetting rt.loaded ⟨0, false⟩ (.method 7)).toOption)) = some (some 900, some 900, some 901) ∧
      ¬ Throughout (step sampleSetting) (Coherent sampleSetting) (Runtime.initial 0) addForward := by
  have hvalues : ((run (step sampleSetting) (Runtime.initial 0) addForward).map fun rt =>
      ((rt.states ⟨0, false⟩).cache.cached 7, (rt.states ⟨0, false⟩).forwardmethod.map Method.implementation,
        (fresh sampleSetting rt.loaded ⟨0, false⟩ (.method 7)).toOption)) = some (some 900, some 900, some 901) := by
    decide +kernel
  refine ⟨hvalues, fun hcoherent => ?_⟩
  obtain ⟨rt, hrun, heq⟩ := Option.map_eq_some_iff.1 hvalues
  obtain ⟨hcached, hrest⟩ := Prod.ext_iff.1 heq
  have hlength : (run (step sampleSetting) (Runtime.initial 0) addForward).map (fun rt => rt.loaded.pairs.length) =
      some 1 := by decide +kernel
  rw [hrun, Option.map_some, Option.some.injEq] at hlength
  have hagrees := (hcoherent.last hrun) ⟨0, false⟩ (by rw [hlength]; exact Nat.one_pos)
  have hfresh := hagrees.cached (.method 7) ⟨by decide, rfl⟩ 900 hcached
  have hanswer : (fresh sampleSetting rt.loaded ⟨0, false⟩ (.method 7)).toOption = some 901 := (Prod.ext_iff.1 hrest).2
  rw [hfresh] at hanswer
  cases hanswer

end MulleObjcRuntime.Caches
