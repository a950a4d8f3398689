import Mathlib.Data.List.Nodup
import MulleObjcRuntime.Initialize.Mirror
import MulleObjcRuntime.Initialize.Setup

/-!
# How far a set up is

What is true of a class pair whose set up is in a phase, and that the next statement of the set up leaves the pair with what
is true in the next phase.

* `initializeCalls_eq` — the calls of a set up are those of `_mulle_objc_infraclass_call_initialize`;
* `initializeCalls_nodup` — when none of them is made twice;
* `Conforms` — what is true in a phase;
* `nextPhase_conforms`, `conforms_methodReturns` — what a statement does to it.
-/

namespace MulleObjcRuntime.Initialize

open Classes Search Impcache

variable {P : Type}

/-! ## The calls -/

section Calls

variable [DecidableEq P] {g : ClassGraph P}

/-- What `_mulle_objc_infraclass_call_mixins_initialize` calls. -/
def inheritedCalls (g : ClassGraph P) (p : P) : List (Called P) :=
  if (g.pair p).isMixin then []
  else ((mixinsInOrder g (g.depth p + 1) p).getD []).flatMap (callMixin g initializeMethodid)

lemma initializeCalls_append (p : P) : initializeCalls g p = ownCall g p ++ inheritedCalls g p := rfl

lemma mixinsInOrder_succ {fuel : ℕ} {owner : P} (howner : ¬ (g.pair owner).isMixin = true) :
    mixinsInOrder g (fuel + 1) owner =
      (match (g.pair owner).superclass with
        | none => some []
        | some superclass => mixinsInOrder g fuel superclass).map fun above => above ++ enumerateMixins g owner := by
  refine (guard_bind howner _).trans ?_
  cases (g.pair owner).superclass with
  | none => rfl
  | some superclass => exact (Option.map_eq_bind).symm

lemma isMixin_of_mixinsInOrder {fuel : ℕ} {owner : P} {mixins : List P} (h : mixinsInOrder g fuel owner = some mixins) :
    (g.pair owner).isMixin = false := by
  cases fuel with
  | zero => cases h
  | succ fuel =>
    by_contra hmixin
    have hfails : (guard (¬ (g.pair owner).isMixin = true) : Option Unit) = none := if_neg fun h => h (by simpa using hmixin)
    rw [mixinsInOrder, hfails] at h
    cases h

lemma mixins_of_mixinsInOrder (hg : Hierarchy g) {fuel : ℕ} {owner : P} {mixins : List P}
    (h : mixinsInOrder g fuel owner = some mixins) : ∀ mixin ∈ mixins, (g.pair mixin).isMixin = true := by
  induction fuel generalizing owner mixins with
  | zero => cases h
  | succ fuel ih =>
    rw [mixinsInOrder_succ (by rw [isMixin_of_mixinsInOrder h]; exact Bool.false_ne_true)] at h
    obtain ⟨above, habove, rfl⟩ := Option.map_eq_some_iff.1 h
    intro mixin hmixin
    rcases List.mem_append.1 hmixin with hmixin | hmixin
    · rcases hs : (g.pair owner).superclass with _ | superclass
      · rw [hs] at habove
        cases habove
        cases hmixin
      · rw [hs] at habove
        exact ih habove mixin hmixin
    · exact hg.mixins owner mixin (List.mem_filter.1 hmixin).1

lemma callMixinsInitialize_eq (fuel : ℕ) (owner : P) :
    callMixinsInitialize g fuel owner =
      (mixinsInOrder g fuel owner).map fun mixins => mixins.flatMap (callMixin g initializeMethodid) := by
  induction fuel generalizing owner with
  | zero => rfl
  | succ fuel ih =>
    by_cases howner : (g.pair owner).isMixin = true
    · have hfails : (guard (¬ (g.pair owner).isMixin = true) : Option Unit) = none := if_neg fun h => h howner
      rw [callMixinsInitialize, mixinsInOrder, hfails]
      rfl
    · rw [callMixinsInitialize_succ howner, mixinsInOrder_succ howner]
      cases (g.pair owner).superclass with
      | none => simp
      | some superclass => simp only [ih, Option.map_map, Function.comp_def, List.flatMap_append]

/-- **A set up makes the calls of `_mulle_objc_infraclass_call_initialize`.** -/
theorem initializeCalls_eq {p : P} {calls : List (Called P)} (h : callInitialize g p = some calls) :
    initializeCalls g p = calls := by
  unfold callInitialize at h
  unfold initializeCalls ownCall
  by_cases hp : (g.pair p).isMixin = true
  · rw [if_pos hp] at h
    rw [if_pos hp, if_pos hp]
    cases h
    rfl
  · rw [if_neg hp, callMixinsInitialize_eq] at h
    rw [if_neg hp, if_neg hp]
    rcases hm : mixinsInOrder g (g.depth p + 1) p with _ | mixins
    · rw [hm] at h
      cases h
    · rw [hm] at h
      cases h
      rfl

/-! ## Each call once -/

lemma callInitializeDeinitialize_nodup (cls : ClassRef P) (inheritance methodid : ℕ) :
    List.Nodup <| callInitializeDeinitialize g cls inheritance methodid := by
  unfold callInitializeDeinitialize
  cases (returned (searchMethod g [] cls (.makeDefault methodid) inheritance)).map fun h => (h.cls, h.list) with
  | none => exact List.nodup_nil
  | some c => exact List.pairwise_singleton _ c

lemma cls_of_mem_callMixin {methodid : ℕ} {mixin : P} {c : Called P} (hc : c ∈ callMixin g methodid mixin) :
    c.1 = ⟨mixin, true⟩ := by
  rw [callMixin_eq] at hc
  obtain ⟨v, hv, hvcls, -⟩ := mem_implementers (List.mem_of_mem_head? (Option.mem_toList.1 hc))
  rw [← hvcls, List.mem_singleton.1 hv]
  rfl

lemma not_mixin_of_mem_ownCall (hg : Hierarchy g) {p : P} {c : Called P} (hc : c ∈ ownCall g p) :
    (g.pair c.1.pair).isMixin = false := by
  unfold ownCall at hc
  split at hc
  · cases hc
  next hp =>
    rw [callInitializeDeinitialize_eq] at hc
    split at hc
    · cases hc
    · obtain ⟨v, hv, hvcls, -⟩ := mem_implementers (List.mem_of_mem_head? (Option.mem_toList.1 hc))
      rw [← hvcls]
      refine not_mixin_of_mem_linearization hg ?_ ?_ (by simpa using hp) hv
      · simp only [initializeInheritance, has_or]
        simp [has, dontInheritProtocols]
      · simp only [initializeInheritance, has_or]
        simp [has, dontInheritSuperclassInheritance]

/-- No mixin with a `+initialize` is among those of the class and of its superclasses twice. -/
def MixedInOnce (g : ClassGraph P) (p : P) : Prop :=
  (((mixinsInOrder g (g.depth p + 1) p).getD []).filter fun mixin => callMixin g initializeMethodid mixin ≠ []).Nodup

instance (p : P) : Decidable (MixedInOnce g p) := inferInstanceAs (Decidable (List.Nodup _))

lemma inheritedCalls_filter (mixins : List P) :
    (mixins.filter fun mixin => callMixin g initializeMethodid mixin ≠ []).flatMap (callMixin g initializeMethodid) =
      mixins.flatMap (callMixin g initializeMethodid) := by
  induction mixins with
  | nil => rfl
  | cons mixin mixins ih =>
    by_cases hcall : callMixin g initializeMethodid mixin = []
    · rw [List.filter_cons_of_neg (by simp [hcall]), ih, List.flatMap_cons, hcall, List.nil_append]
    · rw [List.filter_cons_of_pos (by simp [hcall]), List.flatMap_cons, List.flatMap_cons, ih]

theorem initializeCalls_nodup (hg : Hierarchy g) {p : P} (hp : MixedInOnce g p) : (initializeCalls g p).Nodup := by
  have hown : (ownCall g p).Nodup := by
    unfold ownCall
    split
    · exact List.nodup_nil
    · exact callInitializeDeinitialize_nodup _ _ _
  rw [initializeCalls_append, inheritedCalls]
  split
  · rw [List.append_nil]
    exact hown
  · rw [← inheritedCalls_filter]
    refine List.nodup_append.2 ⟨hown, List.nodup_flatMap.2 ⟨?_, ?_⟩, ?_⟩
    · intro mixin _
      exact callInitializeDeinitialize_nodup _ _ _
    · refine hp.imp ?_
      intro mixin mixin' hne c hc hc'
      have := (cls_of_mem_callMixin hc).symm.trans (cls_of_mem_callMixin hc')
      exact hne (ClassRef.mk.inj this).1
    · rintro c hc c' hc' rfl
      obtain ⟨mixin, hmixin, hcall⟩ := List.mem_flatMap.1 hc'
      have hmem := (List.mem_filter.1 hmixin).1
      have hisMixin : (g.pair mixin).isMixin = true := by
        rcases hm : mixinsInOrder g (g.depth p + 1) p with _ | mixins
        · rw [hm] at hmem
          cases hmem
        · rw [hm] at hmem
          exact mixins_of_mixinsInOrder hg hm mixin hmem
      have := not_mixin_of_mem_ownCall hg hc
      rw [cls_of_mem_callMixin hcall, hisMixin] at this
      cases this

end Calls

/-! ## Phases -/

/-- The superclass may not have been set up. -/
def Phase.beforeSuperclass : Phase P → Bool
  | .metaSuperclass | .mixins _ | .superclass => true
  | _ => false

/-- The class's own `+initialize` has not been called. -/
def Phase.isEarly : Phase P → Bool
  | .metaSuperclass | .mixins _ | .superclass => true
  | .initializeCacheMeta | .initializeCacheInfra | .initializeSelf _ | .runningSelf _ | .callInitialize => true
  | _ => false

/-- The `+initialize` that runs. -/
def Phase.current : Phase P → List (Called P)
  | .running called _ => [called]
  | _ => []

def Phase.metaclassReady : Phase P → Bool
  | .initialCacheInfra | .markDone | .finished => true
  | _ => false

def Phase.infraclassReady : Phase P → Bool
  | .markDone | .finished => true
  | _ => false

def Phase.isFinished : Phase P → Bool
  | .finished => true
  | _ => false

section Phases

variable [DecidableEq P] (g : ClassGraph P)

/-- The calls that the set up has still to make. -/
def remainingCalls (p : P) : Phase P → List (Called P)
  | .running _ none | .callMixins => inheritedCalls g p
  | .running _ (some rest) | .mixinCalls rest => rest.flatMap (callMixin g initializeMethodid)
  | .initialCacheMeta | .initialCacheInfra | .markDone | .finished => []
  | _ => initializeCalls g p

/-- The class's own `+initialize` has been called for it, if it has or inherits one. -/
def OwnCalled (c : ClassSetup P) (p : P) : Prop := ∀ called ∈ ownCall g p, called ∈ c.calls

instance (c : ClassSetup P) (p : P) : Decidable (OwnCalled g c p) :=
  inferInstanceAs (Decidable (∀ called ∈ ownCall g p, called ∈ c.calls))

/-- What is true of a pair while its set up is in a phase. -/
structure Conforms (c : ClassSetup P) (p : P) (phase : Phase P) : Prop where
  calls : c.calls ++ remainingCalls g p phase = initializeCalls g p
  own : phase.isEarly = false → OwnCalled g c p
  returned : c.returned ++ phase.current = c.calls
  metaclass : c.metaclass.ready = phase.metaclassReady
  infraclass : c.infraclass.ready = phase.infraclassReady
  initializeDone : c.initializeDone = phase.isFinished
  initializing : c.initializing = true

variable {g} {alwaysEmptyCache : ClassRef P → Bool} {classes : P → ClassSetup P} {p : P} {phase : Phase P}
  {c : ClassSetup P} {next : Option (Phase P)}

lemma setupInitializeCache_ready {cache cache' : CacheState} (h : cache.setupInitializeCache = some cache') :
    cache'.ready = cache.ready := by
  unfold CacheState.setupInitializeCache at h
  split at h
  · cases h
    rfl
  · cases h

lemma setupInitialCacheIfNeeded_ready {alwaysEmpty : Bool} {cache cache' : CacheState}
    (h : cache.setupInitialCacheIfNeeded alwaysEmpty = some cache') : cache'.ready = true := by
  unfold CacheState.setupInitialCacheIfNeeded at h
  split at h
  next hready =>
    cases h
    exact hready
  next =>
    split at h
    · cases h
      rfl
    · split at h
      · cases h
        rfl
      · cases h

lemma Conforms.returned_eq (h : Conforms g c p phase) (hcurrent : phase.current = [])
    (hremaining : remainingCalls g p phase = []) : c.returned = initializeCalls g p := by
  have hreturned := h.returned
  have hcalls := h.calls
  rw [hcurrent, List.append_nil] at hreturned
  rw [hremaining, List.append_nil] at hcalls
  rw [hreturned, hcalls]

lemma Conforms.call {called : Called P} {rest : Option (List P)} (h : Conforms g c p phase) (hcurrent : phase.current = [])
    (hremaining : remainingCalls g p phase = called :: remainingCalls g p (.running called rest))
    (hown : OwnCalled g (c.call called) p) (hmeta : phase.metaclassReady = false) (hinfra : phase.infraclassReady = false)
    (hfinished : phase.isFinished = false) : Conforms g (c.call called) p (.running called rest) where
  calls := by
    rw [← h.calls, hremaining, ClassSetup.call, List.append_assoc]
    rfl
  own _ := hown
  returned := by
    have := h.returned
    rw [hcurrent, List.append_nil] at this
    simp only [ClassSetup.call, Phase.current, this]
  metaclass := h.metaclass.trans hmeta
  infraclass := h.infraclass.trans hinfra
  initializeDone := h.initializeDone.trans hfinished
  initializing := h.initializing

/-- **The next statement of a set up leaves its pair as the next phase has it.** -/
theorem nextPhase_conforms (h : Conforms g (classes p) p phase)
    (hnext : nextPhase g alwaysEmptyCache classes p phase = some (c, next)) :
    ∀ phase', next = some phase' → Conforms g c p phase' := by
  rintro phase' rfl
  cases phase with
  | metaSuperclass =>
    cases hnext
    exact ⟨h.calls, h.own, h.returned, h.metaclass, h.infraclass, h.initializeDone, h.initializing⟩
  | mixins rest =>
    cases rest <;> cases hnext <;>
      exact ⟨h.calls, h.own, h.returned, h.metaclass, h.infraclass, h.initializeDone, h.initializing⟩
  | superclass =>
    cases hnext
    exact ⟨h.calls, h.own, h.returned, h.metaclass, h.infraclass, h.initializeDone, h.initializing⟩
  | initializeCacheMeta =>
    obtain ⟨metaclass, hcache, heq⟩ := Option.map_eq_some_iff.1 hnext
    cases heq
    exact ⟨h.calls, h.own, h.returned, (setupInitializeCache_ready hcache).trans h.metaclass, h.infraclass,
      h.initializeDone, h.initializing⟩
  | initializeCacheInfra =>
    obtain ⟨infraclass, hcache, heq⟩ := Option.map_eq_some_iff.1 hnext
    cases heq
    exact ⟨h.calls, h.own, h.returned, h.metaclass, (setupInitializeCache_ready hcache).trans h.infraclass,
      h.initializeDone, h.initializing⟩
  | initializeSelf search =>
    simp only [nextPhase] at hnext
    split at hnext
    · cases hnext
      exact ⟨h.calls, h.own, h.returned, h.metaclass, h.infraclass, h.initializeDone, h.initializing⟩
    · split at hnext <;> cases hnext <;>
        exact ⟨h.calls, h.own, h.returned, h.metaclass, h.infraclass, h.initializeDone, h.initializing⟩
  | runningSelf method => cases hnext
  | callInitialize =>
    have hcalls : (classes p).calls = [] := by
      have : (classes p).calls ++ initializeCalls g p = initializeCalls g p := h.calls
      simpa using this
    simp only [nextPhase] at hnext
    split at hnext
    next hmixin =>
      -- nothing is called for a mixin
      cases hnext
      have hnone : initializeCalls g p = [] := by
        rw [initializeCalls, ownCall, if_pos hmixin, if_pos hmixin, List.append_nil]
      refine ⟨by rw [hcalls, hnone]; rfl, fun _ called hcalled => ?_, h.returned, h.metaclass, h.infraclass,
        h.initializeDone, h.initializing⟩
      rw [ownCall, if_pos hmixin] at hcalled
      cases hcalled
    next hmixin =>
      split at hnext
      next hown =>
        cases hnext
        refine ⟨?_, fun _ called hcalled => ?_, h.returned, h.metaclass, h.infraclass, h.initializeDone, h.initializing⟩
        · rw [hcalls, initializeCalls_append, hown]
          rfl
        · rw [hown] at hcalled
          cases hcalled
      next called others hown =>
        cases hnext
        -- there is one such call at most
        have hothers : others = [] := by
          have hlen : (ownCall g p).length ≤ 1 := by
            rw [ownCall, if_neg hmixin, callInitializeDeinitialize]
            exact Option.length_toList_le
          rw [hown, List.length_cons] at hlen
          exact List.length_eq_zero_iff.1 (by omega)
        subst hothers
        refine h.call rfl ?_ ?_ rfl rfl rfl
        · change initializeCalls g p = called :: inheritedCalls g p
          rw [initializeCalls_append, hown]
          rfl
        · intro d hd
          rw [hown, List.mem_singleton] at hd
          simp [ClassSetup.call, hd]
  | running called rest => cases hnext
  | callMixins =>
    obtain ⟨mixins, hmixins, heq⟩ := Option.map_eq_some_iff.1 hnext
    cases heq
    refine ⟨?_, h.own, h.returned, h.metaclass, h.infraclass, h.initializeDone, h.initializing⟩
    have hcalls := h.calls
    rw [remainingCalls, inheritedCalls, isMixin_of_mixinsInOrder hmixins, hmixins] at hcalls
    exact hcalls
  | mixinCalls rest =>
    cases rest with
    | nil =>
      cases hnext
      exact ⟨h.calls, h.own, h.returned, h.metaclass, h.infraclass, h.initializeDone, h.initializing⟩
    | cons mixin rest =>
      simp only [nextPhase] at hnext
      split at hnext
      · cases hnext
        exact h
      · split at hnext
        next hcall =>
          cases hnext
          refine ⟨?_, h.own, h.returned, h.metaclass, h.infraclass, h.initializeDone, h.initializing⟩
          have hcalls := h.calls
          rw [remainingCalls, List.flatMap_cons, hcall, List.nil_append] at hcalls
          exact hcalls
        next called others hcall =>
          cases hnext
          have hothers : others = [] := by
            have hlen : (callMixin g initializeMethodid mixin).length ≤ 1 := by
              rw [callMixin, callInitializeDeinitialize]
              exact Option.length_toList_le
            rw [hcall, List.length_cons] at hlen
            exact List.length_eq_zero_iff.1 (by omega)
          subst hothers
          refine h.call rfl ?_ ?_ rfl rfl rfl
          · simp only [remainingCalls, List.flatMap_cons, hcall]
            rfl
          · intro d hd
            exact List.mem_append_left _ (h.own rfl d hd)
  | initialCacheMeta =>
    obtain ⟨metaclass, hcache, heq⟩ := Option.map_eq_some_iff.1 hnext
    cases heq
    exact ⟨h.calls, h.own, h.returned, setupInitialCacheIfNeeded_ready hcache, h.infraclass, h.initializeDone,
      h.initializing⟩
  | initialCacheInfra =>
    obtain ⟨infraclass, hcache, heq⟩ := Option.map_eq_some_iff.1 hnext
    cases heq
    exact ⟨h.calls, h.own, h.returned, h.metaclass, setupInitialCacheIfNeeded_ready hcache, h.initializeDone,
      h.initializing⟩
  | markDone =>
    cases hnext
    exact ⟨h.calls, h.own, h.returned, h.metaclass, h.infraclass, rfl, h.initializing⟩
  | finished => cases hnext

/-- **A method that returns leaves its pair as the next phase has it.** -/
theorem conforms_methodReturns {called : Called P} {rest : Option (List P)} :
    Conforms g (classes p) p (.running called rest) →
      Conforms g { classes p with returned := (classes p).returned ++ [called] } p
        (match rest with
          | none => .callMixins
          | some mixins => .mixinCalls mixins) := by
  intro h
  have hreturned : (classes p).returned ++ [called] = (classes p).calls := h.returned
  cases rest with
  | none =>
    exact ⟨h.calls, h.own, by simpa [Phase.current] using hreturned, h.metaclass, h.infraclass, h.initializeDone,
      h.initializing⟩
  | some mixins =>
    exact ⟨h.calls, h.own, by simpa [Phase.current] using hreturned, h.metaclass, h.infraclass, h.initializeDone,
      h.initializing⟩

/-! ## What else a statement does -/

/-- A set up ends with its last statement; calls are only added, and by `.callInitialize` and `.mixinCalls` only. -/
lemma nextPhase_effect (hnext : nextPhase g alwaysEmptyCache classes p phase = some (c, next)) :
    (next = none → phase = .finished ∧ c = classes p) ∧
      (c.calls = (classes p).calls ∨ phase.beforeSuperclass = false ∧ ∃ called, c = (classes p).call called) := by
  have hcache : ∀ {o : Option CacheState} {f : CacheState → ClassSetup P × Option (Phase P)},
      (∀ cache, (f cache).1.calls = (classes p).calls ∧ (f cache).2 ≠ none) → o.map f = some (c, next) →
        (next = none → phase = .finished ∧ c = classes p) ∧
          (c.calls = (classes p).calls ∨ phase.beforeSuperclass = false ∧ ∃ called, c = (classes p).call called) := by
    intro o f hf h
    obtain ⟨cache, -, heq⟩ := Option.map_eq_some_iff.1 h
    have := hf cache
    rw [heq] at this
    exact ⟨fun hnone => absurd hnone this.2, Or.inl this.1⟩
  cases phase with
  | metaSuperclass =>
    cases hnext
    exact ⟨nofun, Or.inl rfl⟩
  | mixins rest =>
    cases rest with
    | nil =>
      cases hnext
      exact ⟨nofun, Or.inl rfl⟩
    | cons mixin rest =>
      cases hnext
      exact ⟨nofun, Or.inl rfl⟩
  | superclass =>
    cases hnext
    exact ⟨nofun, Or.inl rfl⟩
  | initializeCacheMeta => exact hcache (fun _ => ⟨rfl, Option.some_ne_none _⟩) hnext
  | initializeCacheInfra => exact hcache (fun _ => ⟨rfl, Option.some_ne_none _⟩) hnext
  | initializeSelf search =>
    simp only [nextPhase] at hnext
    split at hnext
    · cases hnext
      exact ⟨nofun, Or.inl rfl⟩
    · split at hnext
      · cases hnext
        exact ⟨nofun, Or.inl rfl⟩
      · cases hnext
        exact ⟨nofun, Or.inl rfl⟩
  | runningSelf method => cases hnext
  | callInitialize =>
    simp only [nextPhase] at hnext
    split at hnext
    · cases hnext
      exact ⟨nofun, Or.inl rfl⟩
    · split at hnext
      · cases hnext
        exact ⟨nofun, Or.inl rfl⟩
      · cases hnext
        exact ⟨nofun, Or.inr ⟨rfl, _, rfl⟩⟩
  | running called rest => cases hnext
  | callMixins =>
    obtain ⟨_, -, heq⟩ := Option.map_eq_some_iff.1 hnext
    cases heq
    exact ⟨nofun, Or.inl rfl⟩
  | mixinCalls rest =>
    cases rest with
    | nil =>
      cases hnext
      exact ⟨nofun, Or.inl rfl⟩
    | cons mixin rest =>
      simp only [nextPhase] at hnext
      split at hnext
      · cases hnext
        exact ⟨nofun, Or.inl rfl⟩
      · split at hnext
        · cases hnext
          exact ⟨nofun, Or.inl rfl⟩
        · cases hnext
          exact ⟨nofun, Or.inr ⟨rfl, _, rfl⟩⟩
  | initialCacheMeta => exact hcache (fun _ => ⟨rfl, Option.some_ne_none _⟩) hnext
  | initialCacheInfra => exact hcache (fun _ => ⟨rfl, Option.some_ne_none _⟩) hnext
  | markDone =>
    cases hnext
    exact ⟨nofun, Or.inl rfl⟩
  | finished =>
    cases hnext
    exact ⟨fun _ => ⟨rfl, rfl⟩, Or.inl rfl⟩

lemma nextPhase_beforeSuperclass {phase' : Phase P}
    (hnext : nextPhase g alwaysEmptyCache classes p phase = some (c, some phase'))
    (hbefore : phase.beforeSuperclass = true) (hbehind : phase'.beforeSuperclass = false) : phase = .superclass := by
  cases phase with
  | superclass => rfl
  | metaSuperclass =>
    cases hnext
    cases hbehind
  | mixins rest =>
    cases rest with
    | nil =>
      cases hnext
      cases hbehind
    | cons mixin rest =>
      cases hnext
      cases hbehind
  | _ => cases hbefore

end Phases

end MulleObjcRuntime.Initialize
