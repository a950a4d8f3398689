import MulleObjcRuntime.Caches.Methods

/-!
# The fast method tables in a run

* `fastmethodtableIndex`, `Fast` — the place of a methodid in the fast method tables, and the methods that have one;
* `FastAgrees`, `FastCoherent` — what a fast call gets to is what a search without any cache comes to;
* `SparesFast`, `FastHarmless` — what a category must not do to a class, and which operations a run may have;
* `fastCoherent_of_harmless` — in a run of such operations all fast method tables are coherent.
-/

namespace MulleObjcRuntime.Caches

open Classes Impcache Dispatch Relation Lib.Runs

variable {p : Setting}

/-! ## Places -/

/-- The place of a methodid in the fast method tables. -/
def fastmethodtableIndex (p : Setting) (methodid : ℕ) : Option ℕ :=
  if p.fcs then (predefinedFastmethods ++ p.fastmethodhashes).lookup methodid else none

lemma getFastmethodtableIndex_environment (cls : ClassRef ℕ) (methodid : ℕ) :
    getFastmethodtableIndex (environment p cls) methodid = fastmethodtableIndex p methodid := rfl

lemma fastmethodtableIndex_inj {methodid methodid' index : ℕ} (h : fastmethodtableIndex p methodid = some index)
    (h' : fastmethodtableIndex p methodid' = some index) : methodid = methodid' := by
  have hmem : ∀ {methodid}, fastmethodtableIndex p methodid = some index →
      (methodid, index) ∈ predefinedFastmethods ++ p.fastmethodhashes := by
    intro methodid h
    obtain ⟨-, hlookup⟩ := Option.ite_none_right_eq_some.1 h
    obtain ⟨l, l', heq, -⟩ := List.lookup_eq_some_iff.1 hlookup
    rw [heq]
    exact List.mem_append_right l List.mem_cons_self
  exact congrArg Prod.fst (List.inj_on_of_nodup_map p.fastmethods_nodup (hmem h) (hmem h') rfl)

/-- A methodid with a place in the fast method tables. -/
def Fast (p : Setting) : Key → Prop
  | .method methodid => methodid ≠ 0 ∧ fastmethodtableIndex p methodid ≠ none
  | .super _ => False

/-- A superid is not the id of a fast method. -/
def Unambiguous (p : Setting) : Key → Prop
  | .method _ => True
  | .super superid => fastmethodtableIndex p superid = none

instance : DecidablePred (Unambiguous p)
  | .method _ => inferInstanceAs (Decidable True)
  | .super superid => inferInstanceAs (Decidable (fastmethodtableIndex p superid = none))

lemma Fast.askable {key : Key} (h : Fast p key) : Askable p key := by
  cases key with
  | method methodid => exact h.1
  | super superid => exact h.elim

/-! ## Coherent tables -/

/-- **What a fast call gets to** is what a search without any cache comes to, also through the calls that prefer it. -/
structure FastAgrees (p : Setting) (rt : Runtime) (cls : ClassRef ℕ) : Prop where
  invoke : ∀ methodid index, methodid ≠ 0 → getFastmethodtableIndex (environment p cls) methodid = some index →
    (fastmethodtableInvoke (environment p cls) (rounds p (rt.states cls)) methodid index (rt.focus cls)).map Prod.fst =
      fresh p rt.loaded cls (.method methodid)
  call : ∀ (path : MethodCall) methodid, path.prefersFastmethods = true → Fast p (.method methodid) →
    (path.run (environment p cls) (rounds p (rt.states cls)) .object methodid (rt.focus cls)).map Prod.fst =
      (fresh p rt.loaded cls (.method methodid)).map some

/-- All classes agree. -/
def FastCoherent (p : Setting) (rt : Runtime) : Prop :=
  ∀ cls : ClassRef ℕ, cls.pair < rt.loaded.pairs.length → FastAgrees p rt cls

/-- A category spares the fast methods of a class: it leaves those that the class has in its table, and those that stay
cached, from where they go into the table, and does not touch `forward:` if the class remembers its forward method. -/
structure SparesFast (p : Setting) (u : Universe) (info : Load.LoadCategory) (cls : ClassRef ℕ) (state : ClassState) :
    Prop where
  slot : ∀ methodid index, methodid ≠ 0 → fastmethodtableIndex p methodid = some index →
    state.vtab.lookup index ≠ none → Leaves p u info cls (.method methodid)
  cached : ∀ key, Fast p key → Survives (addedMethods (.loadcategory info)) state key → Leaves p u info cls key
  forward : state.forwardmethod ≠ none → ¬ Touches p u info cls (.method forwardMethodid)

/-- An operation that asks for no superid that is the id of a fast method, and loads no category that does not spare
the fast methods of all classes; classes and mixins may be loaded at any time. -/
structure FastHarmless (p : Setting) (rt : Runtime) (op : Operation) : Prop where
  asks : Unambiguous p (asked op)
  spares : ∀ info ∈ category op, ∀ cls : ClassRef ℕ, cls.pair < rt.loaded.pairs.length →
    SparesFast p rt.loaded info cls (rt.states cls)

/-! ## One class -/

section OneClass

variable {u u' : Universe} {cls : ClassRef ℕ} {key : Key} {state state' : ClassState}

/-- The slots of the table that have been filled hold what a search without any cache comes to. -/
def Slotted (p : Setting) (u : Universe) (cls : ClassRef ℕ) (state : ClassState) : Prop :=
  ∀ methodid index, methodid ≠ 0 → fastmethodtableIndex p methodid = some index →
    ∀ imp, state.vtab.lookup index = some imp → fresh p u cls (.method methodid) = .ok imp

lemma slotted_move (h : Move p u cls key state state') (hr : Right p (Fast p) u cls state)
    (hslotted : Slotted p u cls state) : Slotted p u cls state' := by
  intro methodid index hid hindex imp himp
  rcases h.vtab with hsame | ⟨other, index', imp', rfl, hother, hindex', -, hvtab, hfilled⟩
  · rw [hsame] at himp
    exact hslotted methodid index hid hindex imp himp
  rw [hvtab, List.lookup_cons] at himp
  by_cases heq : index = index'
  · subst heq
    rw [beq_self_eq_true] at himp
    cases himp
    rw [getFastmethodtableIndex_environment] at hindex'
    obtain rfl := fastmethodtableIndex_inj hindex hindex'
    have hfast : Fast p (.method methodid) := ⟨hid, by rw [hindex]; simp⟩
    rcases hfilled with hcached | ⟨-, method, hfound, rfl⟩
    · exact hr.cached (.method methodid) hfast imp hcached
    · exact hr.of_found hfast hid hfound
  · rw [beq_false_of_ne heq] at himp
    exact hslotted methodid index hid hindex imp himp

/-- **A class stays right** when it is asked for something. -/
lemma slotted_moves (hfits : p.Fits) (hu : Implemented u cls) (hK : Keys p (Fast p) key) (h : Moves p u cls key state state')
    (hs : Sound p state) (hf : Forwards state) (hr : Right p (Fast p) u cls state) (hslotted : Slotted p u cls state) :
    Slotted p u cls state' := by
  induction h with
  | refl => exact hslotted
  | tail hmoves hmove ih => exact slotted_move hmove (hr.moves hfits hu hK hmoves hs hf) ih

/-- A load changes no answer of a class to what is fast, and not its forward method. -/
structure KeepsFast (p : Setting) (methods : List Method) (u u' : Universe) (cls : ClassRef ℕ) (state : ClassState) :
    Prop where
  slot : ∀ methodid index, methodid ≠ 0 → fastmethodtableIndex p methodid = some index →
    state.vtab.lookup index ≠ none → fresh p u' cls (.method methodid) = fresh p u cls (.method methodid)
  cached : ∀ key, Fast p key → Survives methods state key → fresh p u' cls key = fresh p u cls key
  forward : state.forwardmethod ≠ none → freshForwardmethod p u' cls = freshForwardmethod p u cls

lemma keepsFast_new {item : Load.LoadItem} (hu : Adopted u) {r : ℕ × String × ℕ × Bool} (hitem : item.summary = some r)
    (h : item.install p.load u = .ok u') (hcls : cls.pair < u.pairs.length) (methods : List Method) (state : ClassState) :
    KeepsFast p methods u u' cls state := by
  obtain ⟨hforward, hsearched⟩ := fresh_new hu hitem h hcls
  have hfresh : ∀ key, Askable p key → fresh p u' cls key = fresh p u cls key :=
    fun key hkey => fresh_congr hkey (hsearched key) fun _ => hforward
  exact ⟨fun methodid _ hid _ _ => hfresh (.method methodid) hid, fun key hkey _ => hfresh key hkey.askable, fun _ => hforward⟩

lemma SparesFast.keepsFast {info : Load.LoadCategory} (h : SparesFast p u info cls state)
    (hinstall : (Load.LoadItem.loadcategory info).install p.load u = .ok u') :
    KeepsFast p (addedMethods (.loadcategory info)) u u' cls state := by
  refine ⟨fun methodid index hid hindex hslot => ?_, fun key hkey hsurvives => ?_, fun hsome => ?_⟩
  · exact (h.slot methodid index hid hindex hslot).fresh_eq (show Askable p (.method methodid) from hid) hinstall
  · exact (h.cached key hkey hsurvives).fresh_eq hkey.askable hinstall
  · exact freshForwardmethod_category (h.forward hsome) hinstall

end OneClass

/-! ## Runs -/

/-- What holds in every state of a run of harmless operations. -/
structure FastTruthful (p : Setting) (rt : Runtime) : Prop extends Steady p rt where
  right : ∀ cls, Right p (Fast p) rt.loaded cls (rt.states cls)
  slotted : ∀ cls, Slotted p rt.loaded cls (rt.states cls)
  forward : ∀ cls, ∀ method ∈ (rt.states cls).forwardmethod, freshForwardmethod p rt.loaded cls = some method

variable {rt rt' : Runtime}

lemma fastTruthful_initial (p : Setting) (classdefaults : ℕ) : FastTruthful p (Runtime.initial classdefaults) := by
  refine ⟨steady_initial p classdefaults, fun cls => right_new fun _ hkey => hkey.askable, ?_, fun cls method hmethod => ?_⟩
  · intro cls methodid index _ _ imp himp
    cases himp
  · cases hmethod

lemma keys_fast {key : Key} (h : Unambiguous p key) : Keys p (Fast p) key := by
  refine ⟨fun _ hother => hother.askable, fun other hother hsame => ?_⟩
  cases other with
  | super superid => exact hother.elim
  | method methodid =>
    cases key with
    | method methodid' => exact congrArg Key.method hsame
    | super superid =>
      obtain rfl : methodid = superid := hsame
      exact absurd h hother.2

lemma FastTruthful.store (hfits : p.Fits) (h : FastTruthful p rt) {cls : ClassRef ℕ}
    (hcls : cls.pair < rt.loaded.pairs.length) {key : Key} (hK : Keys p (Fast p) key) {new : ClassState}
    (hmoves : Moves p rt.loaded cls key (rt.states cls) new) : FastTruthful p (rt.store cls new) := by
  have hu := h.sane.implemented cls
  refine ⟨h.toSteady.store hfits hcls hmoves, ?_, ?_, ?_⟩
  · refine (Function.forall_update_iff rt.states fun other state => Right p (Fast p) rt.loaded other state).2
      ⟨?_, fun other _ => h.right other⟩
    exact (h.right cls).moves hfits hu hK hmoves (h.sound cls) (h.forwards cls)
  · refine (Function.forall_update_iff rt.states fun other state => Slotted p rt.loaded other state).2
      ⟨?_, fun other _ => h.slotted other⟩
    exact slotted_moves hfits hu hK hmoves (h.sound cls) (h.forwards cls) (h.right cls) (h.slotted cls)
  · refine (Function.forall_update_iff rt.states fun other state =>
      ∀ method ∈ state.forwardmethod, freshForwardmethod p rt.loaded other = some method).2
      ⟨?_, fun other _ => h.forward other⟩
    exact forward_moves hmoves (h.forward cls)

lemma FastHarmless.keepsFast (h : Steady p rt) {item : Load.LoadItem} {sane : Sane item}
    (hharmless : FastHarmless p rt (.load item sane)) {u' : Universe}
    (hinstall : item.install p.load rt.loaded = .ok u') (cls : ClassRef ℕ) :
    KeepsFast p (addedMethods item) rt.loaded u' cls (rt.states cls) := by
  by_cases hcls : cls.pair < rt.loaded.pairs.length
  · cases item with
    | loadclass info => exact keepsFast_new h.adopted rfl hinstall hcls _ _
    | loadmixin info => exact keepsFast_new h.adopted rfl hinstall hcls _ _
    | loadcategory info => exact (hharmless.spares info rfl cls hcls).keepsFast hinstall
  · rw [h.unused cls (Nat.not_lt.1 hcls)]
    exact ⟨fun _ _ _ _ hslot => absurd rfl hslot,
      fun key hkey hsurvives => absurd hsurvives (not_survives_new hkey.askable), fun hsome => absurd rfl hsome⟩

lemma FastTruthful.of_load (h : FastTruthful p rt) {item : Load.LoadItem} (sane : Sane item)
    (hharmless : FastHarmless p rt (.load item sane)) (hload : load p rt item = some rt') : FastTruthful p rt' := by
  obtain ⟨hsteady, hinstall, hforgets⟩ := h.toSteady.of_load sane hload
  have hkeeps := hharmless.keepsFast h.toSteady hinstall
  have hforward := fun cls => forward_kept (hkeeps cls).forward (h.forward cls)
  refine ⟨hsteady, fun cls => ?_, fun cls methodid index hid hindex imp himp => ?_, fun cls method hmethod => ?_⟩
  · apply (h.right cls).forgets (fun _ hkey => hkey.askable) (hforgets cls) (hkeeps cls).cached
    intro key hkey hmissing method hmethod
    exact fresh_of_missing hkey.askable hmissing (hforward cls method hmethod)
  · rw [(hforgets cls).vtab] at himp
    rw [(hkeeps cls).slot methodid index hid hindex (by rw [himp]; simp)]
    exact h.slotted cls methodid index hid hindex imp himp
  · rw [(hforgets cls).forwardmethod] at hmethod
    exact hforward cls method hmethod

/-- **One operation.** -/
lemma FastTruthful.of_step (hfits : p.Fits) (h : FastTruthful p rt) {op : Operation} (hharmless : FastHarmless p rt op)
    (hstep : step p rt op = some rt') : FastTruthful p rt' := by
  rcases h.toSteady.step_eq_some hfits hstep with ⟨cls, new, hcls, hmoves, rfl⟩ | ⟨item, sane, rfl, hload⟩
  · exact h.store hfits hcls (keys_fast hharmless.asks) hmoves
  · exact h.of_load sane hharmless hload

lemma FastTruthful.invoke (hfits : p.Fits) (h : FastTruthful p rt) (cls : ClassRef ℕ) {methodid index : ℕ}
    (hid : methodid ≠ 0) (hindex : getFastmethodtableIndex (environment p cls) methodid = some index) :
    (fastmethodtableInvoke (environment p cls) (rounds p (rt.states cls)) methodid index (rt.focus cls)).map Prod.fst =
      fresh p rt.loaded cls (.method methodid) := by
  have hspec := (fastmethodtableInvoke_spec (s := rt.focus cls) hfits (h.sane.implemented cls) (h.sound cls)
    (h.forwards cls) hid (enough_rounds p (rt.states cls)) hindex).1
  rw [hspec]
  rw [getFastmethodtableIndex_environment] at hindex
  have hfast : Fast p (.method methodid) := ⟨hid, by rw [hindex]; simp⟩
  cases hslot : (rt.focus cls).cls.vtab.lookup index with
  | some imp => exact (h.slotted cls methodid index hid hindex imp hslot).symm
  | none => exact (h.right cls).value_eq hfast hid

/-- **A truthful class agrees.** -/
lemma FastTruthful.agrees (hfits : p.Fits) (h : FastTruthful p rt) (cls : ClassRef ℕ) : FastAgrees p rt cls := by
  constructor
  · intro methodid index hid hindex
    exact h.invoke hfits cls hid hindex
  · intro path methodid hpath hfast
    obtain ⟨index, hindex⟩ := Option.ne_none_iff_exists'.1 hfast.2
    have hindex : getFastmethodtableIndex (environment p cls) methodid = some index := hindex
    rw [← h.invoke hfits cls hfast.1 hindex, ← map_unlessNil_object (rt.focus cls),
      MethodCall.run_eq (environment p cls) (s := rt.focus cls) (h.sound cls).toInv hfast.1 ((h.sound cls).ends methodid)
        (enough_rounds p (rt.states cls)).1, if_pos hpath]
    unfold preferFastmethod
    rw [hindex]

/-- **In a run of harmless operations all fast method tables are coherent**: what a fast call gets to is in every state
what a search without any cache comes to. -/
theorem fastCoherent_of_harmless (hfits : p.Fits) (classdefaults : ℕ) {ops : List Operation}
    (h : EachStep (step p) (FastHarmless p) (Runtime.initial classdefaults) ops) :
    Throughout (step p) (FastCoherent p) (Runtime.initial classdefaults) ops := by
  have htruthful : Throughout (step p) (FastTruthful p) (Runtime.initial classdefaults) ops :=
    h.throughout (fastTruthful_initial p classdefaults)
      fun rt op rt' ht hharmless hstep => ht.of_step hfits hharmless hstep
  exact htruthful.mono fun rt ht cls _ => ht.agrees hfits cls

/-! ## Samples -/

/-- An operation that is seen to be harmless. -/
def FastChecked (p : Setting) (rt : Runtime) (op : Operation) : Prop :=
  Unambiguous p (asked op) ∧ ∀ info ∈ category op, ∀ cls ∈ walkedClasses rt.loaded,
    (rt.states cls).vtab = [] ∧ NothingToLose (addedMethods (.loadcategory info)) (rt.states cls)

instance (rt : Runtime) : DecidablePred (FastChecked p rt) := fun op => by
  unfold FastChecked
  infer_instance

lemma FastChecked.harmless {op : Operation} (h : FastChecked p rt op) : FastHarmless p rt op := by
  refine ⟨h.1, fun info hinfo cls hcls => ?_⟩
  obtain ⟨hvtab, hnothing⟩ := h.2 info hinfo cls (mem_walkedClasses.2 hcls)
  refine ⟨fun methodid index _ _ hslot => ?_,
    fun key hkey hsurvives => absurd hsurvives (hnothing.not_survives hkey.askable), fun hsome => absurd hnothing.1 hsome⟩
  rw [hvtab] at hslot
  exact absurd rfl hslot

/-- `-init` is called, then a category overrides it, and it is called through the fast method table. -/
def overrideAfterCallTo (path : MethodCall) : List Operation :=
  loading (sampleClass (some (.single 0 ⟨101, 0x6b1d3731, 0, 700⟩))) ++ [.call path ⟨0, false⟩ 0x6b1d3731] ++
    loading (sampleCategory (.single 0 ⟨102, 0x6b1d3731, 0, 701⟩)) ++ [.call .inlinePartial ⟨0, false⟩ 0x6b1d3731]

/-- What a fast call to `-init` gets to, and what a search without any cache comes to. -/
def initAnswers (rt : Runtime) : Option ℕ × Option ℕ :=
  (((fastmethodtableInvoke (environment sampleSetting ⟨0, false⟩) (rounds sampleSetting (rt.states ⟨0, false⟩)) 0x6b1d3731 1
      (rt.focus ⟨0, false⟩)).map Prod.fst).toOption,
    (fresh sampleSetting rt.loaded ⟨0, false⟩ (.method 0x6b1d3731)).toOption)

/-- The first call was not a fast one. -/
theorem fastCoherent_of_harmless_sample :
    Throughout (step sampleSetting) (FastCoherent sampleSetting) (Runtime.initial 0) (overrideAfterCallTo .standard) ∧
      (run (step sampleSetting) (Runtime.initial 0) (overrideAfterCallTo .standard)).map initAnswers =
        some (some 701, some 701) := by
  refine ⟨?_, by decide +kernel⟩
  have hchecked : EachStep (step sampleSetting) (FastChecked sampleSetting) (Runtime.initial 0)
      (overrideAfterCallTo .standard) := by decide +kernel
  exact fastCoherent_of_harmless sampleSetting_fits 0 (hchecked.mono fun _ _ h => h.harmless)

/-- **A category that overrides `-init` after a fast call**: the slot of the class still has the old method. -/
theorem slot_survives_load :
    (run (step sampleSetting) (Runtime.initial 0) (overrideAfterCallTo .inlinePartial)).map initAnswers =
        some (some 700, some 701) ∧
      ¬ Throughout (step sampleSetting) (FastCoherent sampleSetting) (Runtime.initial 0)
        (overrideAfterCallTo .inlinePartial) := by
  have hanswers : (run (step sampleSetting) (Runtime.initial 0) (overrideAfterCallTo .inlinePartial)).map initAnswers =
      some (some 700, some 701) := by decide +kernel
  refine ⟨hanswers, fun hcoherent => ?_⟩
  obtain ⟨rt, hrun, heq⟩ := Option.map_eq_some_iff.1 hanswers
  obtain ⟨hinvoked, hsearched⟩ := Prod.ext_iff.1 heq
  have hlength : (run (step sampleSetting) (Runtime.initial 0) (overrideAfterCallTo .inlinePartial)).map
      (fun rt => rt.loaded.pairs.length) = some 1 := by decide +kernel
  rw [hrun, Option.map_some, Option.some.injEq] at hlength
  have hagrees := (hcoherent.last hrun) ⟨0, false⟩ (by rw [hlength]; exact Nat.one_pos)
  have hinvoke := hagrees.invoke 0x6b1d3731 1 (by decide) rfl
  have hsame : some 700 = some 701 := hinvoked.symm.trans ((congrArg Except.toOption hinvoke).trans hsearched)
  cases hsame

end MulleObjcRuntime.Caches
