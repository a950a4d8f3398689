import MulleObjcRuntime.Initialize.Phases
import MulleObjcRuntime.Lib.ActivationStack
import MulleObjcRuntime.Lib.Runs

/-!
# The order of the calls of +initialize

In every order of first messages, in one thread: which calls of `+initialize` have been made and have returned when a class is
set up, or is marked as set up.

* `Orderly` — what is expected of every state;
* `Timely` — a set up does not begin between the begin of the one of its superclass and its superclass's own call;
* `SetupInv` — the invariant: every pair conforms to the phase of its set up, and a superclass that waits for its own call was
  not there when the set up of its subclass began;
* `orderly_of_timely` — runs whose set ups begin in time are orderly;
* `initialize_before_superclass`, `initialize_of_mixin_twice` — two that are not.
-/

namespace MulleObjcRuntime.Initialize

open Classes Search Impcache Lib.ActivationStack Lib.Runs

variable {P : Type} [DecidableEq P]

/-- What is expected of every state of a run. -/
structure Orderly (g : ClassGraph P) (s : SetupState P) : Prop where
  /-- the calls of a class are made in their order -/
  inOrder : ∀ p, (s.classes p).calls <+: initializeCalls g p
  /-- no call is made twice for a class -/
  once : ∀ p, (s.classes p).calls.Nodup
  /-- when the own `+initialize` of a class has been called, that of its superclass has -/
  superclassCalled : ∀ p q, (g.pair p).superclass = some q → ∀ called ∈ ownCall g p,
    called ∈ (s.classes p).calls → OwnCalled g (s.classes q) q
  /-- when it is about to be called, the superclass is set up, if this set up did not come from that of the superclass -/
  superclassReturned : ∀ p q below, s.stack = ⟨p, .callInitialize⟩ :: below → (g.pair p).superclass = some q →
    q ∈ below.map SetupFrame.pair ∨
      (s.classes q).initializeDone = true ∧ (s.classes q).metaclass.ready = true ∧
        (s.classes q).infraclass.ready = true ∧ (s.classes q).returned = initializeCalls g q
  /-- nothing is marked before all calls have returned -/
  notEarly : ∀ p, (s.classes p).initializeDone = true ∨ (s.classes p).metaclass.ready = true ∨
    (s.classes p).infraclass.ready = true → (s.classes p).returned = initializeCalls g p
  /-- both caches are ready when a set up is over -/
  ready : ∀ p below, s.stack = ⟨p, .finished⟩ :: below →
    (s.classes p).metaclass.ready = true ∧ (s.classes p).infraclass.ready = true

/-- When the set up of a pair begins, the superclass is not being set up or has had its own call; and no mixin with a
`+initialize` counts twice for it. -/
def MayBegin (g : ClassGraph P) (s : SetupState P) (p : P) : Prop :=
  (∀ q ∈ (g.pair p).superclass, ownCall g p ≠ [] → (s.classes q).initializing = true → OwnCalled g (s.classes q) q) ∧
    MixedInOnce g p

/-- The set up that a step begins, may begin. -/
def Timely (g : ClassGraph P) (s : SetupState P) (a : SetupAction P) : Prop :=
  ∀ p ∈ requested g s a, (s.classes p).initializing = false → MayBegin g s p

instance (g : ClassGraph P) (s : SetupState P) (p : P) : Decidable (MayBegin g s p) := by
  unfold MayBegin
  infer_instance

instance (g : ClassGraph P) (s : SetupState P) (a : SetupAction P) : Decidable (Timely g s a) := by
  unfold Timely
  infer_instance

/-! ## The invariant -/

/-- The pairs whose set up has not returned. -/
def SetupState.pairs (s : SetupState P) : List P := s.stack.map SetupFrame.pair

/-- The invariant. -/
structure SetupInv (g : ClassGraph P) (s : SetupState P) : Prop where
  nodup : s.pairs.Nodup
  frames : ∀ f ∈ s.stack, Conforms g (s.classes f.pair) f.pair f.phase
  /-- a pair whose set up has not begun -/
  idle : ∀ p, (s.classes p).initializing = false → s.classes p = .new P
  /-- a pair whose set up is over -/
  settled : ∀ p, (s.classes p).initializing = true → p ∉ s.pairs → Conforms g (s.classes p) p .finished
  /-- a superclass that has not had its own call is being set up above its subclass -/
  order : ∀ p ∈ s.pairs, ∀ q, (g.pair p).superclass = some q → ownCall g p ≠ [] → (s.classes q).initializing = true →
    OwnCalled g (s.classes q) q ∨ Above s.pairs q p
  superclassCalled : ∀ p q, (g.pair p).superclass = some q → ownCall g p ≠ [] → (s.classes p).calls ≠ [] →
    OwnCalled g (s.classes q) q
  once : ∀ p, (s.classes p).initializing = true → MixedInOnce g p

/-- The superclass of a set up that is past it has been set up, or its set up has begun. -/
def PastSuperclass (g : ClassGraph P) (s : SetupState P) : Prop :=
  ∀ f ∈ s.stack, f.phase.beforeSuperclass = false → ∀ q, (g.pair f.pair).superclass = some q →
    (s.classes q).initializing = true

variable {g : ClassGraph P} {alwaysEmptyCache : ClassRef P → Bool} {s t : SetupState P} {p q : P} {below : List (SetupFrame P)}

theorem setupInv_start : SetupInv g (.start P) where
  nodup := List.nodup_nil
  frames _ hf := by cases hf
  idle _ _ := rfl
  settled _ h := by cases h
  order _ hp := by cases hp
  superclassCalled _ _ _ _ h := absurd rfl h
  once _ h := by cases h

omit [DecidableEq P] in
lemma pastSuperclass_start : PastSuperclass g (.start P) := by
  intro f hf
  cases hf

omit [DecidableEq P] in
lemma ne_superclass (hq : (g.pair p).superclass = some q) : q ≠ p := by
  rintro rfl
  exact absurd (g.depth_superclass q q hq) (Nat.lt_irrefl _)

lemma SetupInv.conforms (h : SetupInv g s) (hp : (s.classes p).initializing = true) :
    ∃ phase, Conforms g (s.classes p) p phase := by
  by_cases hmem : p ∈ s.pairs
  · obtain ⟨f, hf, rfl⟩ := List.mem_map.1 hmem
    exact ⟨f.phase, h.frames f hf⟩
  · exact ⟨.finished, h.settled p hp hmem⟩

/-- **When a class is past its superclass, the superclass has had its own call.** -/
lemma SetupInv.superclass_called (h : SetupInv g s) (hpast : PastSuperclass g s) {phase : Phase P}
    (hstack : s.stack = ⟨p, phase⟩ :: below) (hphase : phase.beforeSuperclass = false)
    (hq : (g.pair p).superclass = some q) (hown : ownCall g p ≠ []) : OwnCalled g (s.classes q) q := by
  have hpairs : s.pairs = p :: below.map SetupFrame.pair := by
    rw [SetupState.pairs, hstack]
    rfl
  have hinitializing := hpast ⟨p, phase⟩ (by rw [hstack]; exact List.mem_cons_self) hphase q hq
  refine (h.order p (by rw [hpairs]; exact List.mem_cons_self) q hq hown hinitializing).resolve_right ?_
  have hnodup := h.nodup
  rw [hpairs] at hnodup ⊢
  exact not_above_head hnodup

/-- **The states that the invariant admits are orderly.** -/
theorem SetupInv.orderly (hg : Hierarchy g) (h : SetupInv g s) (hpast : PastSuperclass g s) : Orderly g s where
  inOrder p := by
    cases hp : (s.classes p).initializing with
    | false =>
      rw [h.idle p hp]
      exact List.nil_prefix
    | true =>
      obtain ⟨phase, hphase⟩ := h.conforms hp
      exact ⟨_, hphase.calls⟩
  once p := by
    cases hp : (s.classes p).initializing with
    | false =>
      rw [h.idle p hp]
      exact List.nodup_nil
    | true =>
      obtain ⟨phase, hphase⟩ := h.conforms hp
      have hnodup := initializeCalls_nodup hg (h.once p hp)
      rw [← hphase.calls] at hnodup
      exact hnodup.of_append_left
  superclassCalled p q hq called hcalled hmem :=
    h.superclassCalled p q hq (List.ne_nil_of_mem hcalled) (List.ne_nil_of_mem hmem)
  superclassReturned p q below hstack hq := by
    have hinitializing := hpast ⟨p, .callInitialize⟩ (by rw [hstack]; exact List.mem_cons_self) rfl q hq
    by_cases hmem : q ∈ s.pairs
    · rw [SetupState.pairs, hstack, List.map_cons, List.mem_cons] at hmem
      exact Or.inl (hmem.resolve_left (ne_superclass hq))
    · have hsettled := h.settled q hinitializing hmem
      exact Or.inr ⟨hsettled.initializeDone, hsettled.metaclass, hsettled.infraclass, hsettled.returned_eq rfl rfl⟩
  notEarly p hmarked := by
    cases hp : (s.classes p).initializing with
    | false =>
      rw [h.idle p hp] at hmarked
      rcases hmarked with hmarked | hmarked | hmarked <;> cases hmarked
    | true =>
      obtain ⟨phase, hphase⟩ := h.conforms hp
      rw [hphase.initializeDone, hphase.metaclass, hphase.infraclass] at hmarked
      cases phase with
      | initialCacheInfra => exact hphase.returned_eq rfl rfl
      | markDone => exact hphase.returned_eq rfl rfl
      | finished => exact hphase.returned_eq rfl rfl
      | _ => rcases hmarked with hmarked | hmarked | hmarked <;> cases hmarked
  ready p below hstack := by
    have := h.frames ⟨p, .finished⟩ (by rw [hstack]; exact List.mem_cons_self)
    exact ⟨this.metaclass, this.infraclass⟩

/-! ## Steps -/

omit [DecidableEq P] in
lemma SetupState.pairs_cons {phase : Phase P} (hstack : s.stack = ⟨p, phase⟩ :: below) :
    s.pairs = p :: below.map SetupFrame.pair := by
  rw [SetupState.pairs, hstack]
  rfl

/-- The innermost set up goes on, and may have called something. -/
lemma SetupInv.goesOn (h : SetupInv g s) (hpast : PastSuperclass g s) {phase phase' : Phase P} {c : ClassSetup P}
    (hstack : s.stack = ⟨p, phase⟩ :: below) (hc : Conforms g c p phase')
    (hcalls : c.calls = (s.classes p).calls ∨
      phase.beforeSuperclass = false ∧ ∃ called, c = (s.classes p).call called) :
    SetupInv g ⟨Function.update s.classes p c, ⟨p, phase'⟩ :: below⟩ := by
  have hpairs := SetupState.pairs_cons hstack
  have hframe := h.frames ⟨p, phase⟩ (by rw [hstack]; exact List.mem_cons_self)
  have hp : p ∈ s.pairs := by rw [hpairs]; exact List.mem_cons_self
  have hpairs' : SetupState.pairs ⟨Function.update s.classes p c, ⟨p, phase'⟩ :: below⟩ = s.pairs := hpairs.symm
  have hsubset : ∀ called ∈ (s.classes p).calls, called ∈ c.calls := by
    intro called hmem
    rcases hcalls with heq | ⟨-, d, rfl⟩
    · rw [heq]
      exact hmem
    · exact List.mem_append_left _ hmem
  -- what has begun and what has been called stays
  have hinitializing : ∀ r, (Function.update s.classes p c r).initializing = (s.classes r).initializing := by
    intro r
    by_cases hr : r = p
    · rw [hr, Function.update_self, hc.initializing, hframe.initializing]
    · rw [Function.update_of_ne hr]
  have hown : ∀ r, OwnCalled g (s.classes r) r → OwnCalled g (Function.update s.classes p c r) r := by
    intro r hr called hcalled
    by_cases hrp : r = p
    · subst hrp
      rw [Function.update_self]
      exact hsubset called (hr called hcalled)
    · rw [Function.update_of_ne hrp]
      exact hr called hcalled
  refine ⟨?_, ?_, ?_, ?_, ?_, ?_, ?_⟩
  · rw [hpairs']
    exact h.nodup
  · intro f hf
    rcases List.mem_cons.1 hf with rfl | hbelow
    · simp only [Function.update_self]
      exact hc
    · have hne : f.pair ≠ p := by
        rintro rfl
        have hnodup := h.nodup
        rw [hpairs] at hnodup
        exact (List.nodup_cons.1 hnodup).1 (List.mem_map_of_mem hbelow)
      simp only [Function.update_of_ne hne]
      exact h.frames f (by rw [hstack]; exact List.mem_cons_of_mem _ hbelow)
  · intro r hr
    rw [hinitializing] at hr
    by_cases hrp : r = p
    · rw [hrp, hframe.initializing] at hr
      cases hr
    · simp only [Function.update_of_ne hrp]
      exact h.idle r hr
  · intro r hr hmem
    rw [hinitializing] at hr
    rw [hpairs'] at hmem
    have hrp : r ≠ p := fun heq => hmem (heq ▸ hp)
    simp only [Function.update_of_ne hrp]
    exact h.settled r hr hmem
  · intro r hr q hq hne hinit
    rw [hinitializing] at hinit
    rw [hpairs'] at hr ⊢
    exact (h.order r hr q hq hne hinit).imp_left (hown q)
  · intro r q hq hne hnil
    apply hown
    by_cases hrp : r = p
    · subst hrp
      simp only [Function.update_self] at hnil
      rcases hcalls with heq | ⟨hphase, -⟩
      · rw [heq] at hnil
        exact h.superclassCalled r q hq hne hnil
      · exact h.superclass_called hpast hstack hphase hq hne
    · simp only [Function.update_of_ne hrp] at hnil
      exact h.superclassCalled r q hq hne hnil
  · intro r hr
    rw [hinitializing] at hr
    exact h.once r hr

/-- The innermost set up returns. -/
lemma SetupInv.ends (h : SetupInv g s) (hstack : s.stack = ⟨p, .finished⟩ :: below) :
    SetupInv g ⟨s.classes, below⟩ := by
  have hpairs := SetupState.pairs_cons hstack
  have hframe := h.frames ⟨p, .finished⟩ (by rw [hstack]; exact List.mem_cons_self)
  have hpairs' : SetupState.pairs ⟨s.classes, below⟩ = below.map SetupFrame.pair := rfl
  have hnodup := h.nodup
  rw [hpairs] at hnodup
  refine ⟨(List.nodup_cons.1 hnodup).2, ?_, h.idle, ?_, ?_, h.superclassCalled, h.once⟩
  · intro f hf
    exact h.frames f (by rw [hstack]; exact List.mem_cons_of_mem _ hf)
  · intro r hr hmem
    by_cases hrp : r = p
    · rw [hrp]
      exact hframe
    · refine h.settled r hr ?_
      rw [hpairs, List.mem_cons]
      rintro (heq | hmem')
      · exact hrp heq
      · exact hmem hmem'
  · intro r hr q hq hne hinit
    rw [hpairs'] at hr ⊢
    have := h.order r (by rw [hpairs]; exact List.mem_cons_of_mem _ hr) q hq hne hinit
    by_cases hqp : q = p
    · rw [hqp]
      exact Or.inl (hframe.own rfl)
    · rw [hpairs] at this
      exact this.imp_right fun habove => habove.end hqp

/-- A set up begins. -/
lemma SetupInv.begins (h : SetupInv g s) (hmay : (s.classes p).initializing = false → MayBegin g s p) :
    SetupInv g (classSetup s p) := by
  unfold classSetup
  split
  · exact h
  next hp =>
    have hp : (s.classes p).initializing = false := by simpa using hp
    obtain ⟨hsuperclass, honce⟩ := hmay hp
    have hidle := h.idle p hp
    have hmem : p ∉ s.pairs := by
      intro hmem
      obtain ⟨f, hf, rfl⟩ := List.mem_map.1 hmem
      have := (h.frames f hf).initializing
      rw [hp] at this
      cases this
    set c : ClassSetup P := { s.classes p with initializing := true } with hc
    have hcalls : c.calls = [] := by rw [hc, hidle]; rfl
    have hconforms : Conforms g c p .metaSuperclass := by
      rw [hc, hidle]
      exact ⟨rfl, nofun, rfl, rfl, rfl, rfl, rfl⟩
    have hpairs' : SetupState.pairs ⟨Function.update s.classes p c, ⟨p, .metaSuperclass⟩ :: s.stack⟩ = p :: s.pairs := rfl
    have hown : ∀ r, OwnCalled g (s.classes r) r → OwnCalled g (Function.update s.classes p c r) r := by
      intro r hr called hcalled
      by_cases hrp : r = p
      · subst hrp
        have := hr called hcalled
        rw [hidle] at this
        cases this
      · rw [Function.update_of_ne hrp]
        exact hr called hcalled
    have hold : ∀ r, r ≠ p → (Function.update s.classes p c r).initializing = true → (s.classes r).initializing = true := by
      intro r hrp hr
      rwa [Function.update_of_ne hrp] at hr
    refine ⟨?_, ?_, ?_, ?_, ?_, ?_, ?_⟩
    · rw [hpairs']
      exact List.nodup_cons.2 ⟨hmem, h.nodup⟩
    · intro f hf
      rcases List.mem_cons.1 hf with rfl | hf
      · simp only [Function.update_self]
        exact hconforms
      · have hne : f.pair ≠ p := fun heq => hmem (heq ▸ List.mem_map_of_mem hf)
        simp only [Function.update_of_ne hne]
        exact h.frames f hf
    · intro r hr
      by_cases hrp : r = p
      · subst hrp
        simp only [Function.update_self] at hr
        cases hr
      · simp only [Function.update_of_ne hrp] at hr ⊢
        exact h.idle r hr
    · intro r hr hmem'
      rw [hpairs', List.mem_cons, not_or] at hmem'
      simp only [Function.update_of_ne hmem'.1] at hr ⊢
      exact h.settled r hr hmem'.2
    · intro r hr q hq hne hinit
      rw [hpairs'] at hr ⊢
      by_cases hqp : q = p
      · -- the superclass begins above its subclass
        subst hqp
        refine Or.inr (above_begin ((List.mem_cons.1 hr).resolve_left ?_))
        exact (ne_superclass hq).symm
      · have hbegun := hold q hqp hinit
        rcases List.mem_cons.1 hr with rfl | hr
        · exact Or.inl (hown q (hsuperclass q hq hne hbegun))
        · exact (h.order r hr q hq hne hbegun).imp (hown q) Above.begin
    · intro r q hq hne hnil
      apply hown
      by_cases hrp : r = p
      · subst hrp
        simp only [Function.update_self] at hnil
        exact absurd hcalls hnil
      · simp only [Function.update_of_ne hrp] at hnil
        exact h.superclassCalled r q hq hne hnil
    · intro r hr
      by_cases hrp : r = p
      · rw [hrp]
        exact honce
      · exact h.once r (hold r hrp hr)

/-- What a step does before it begins a set up. -/
lemma advanceSetup_cases (h : SetupInv g s) {a : SetupAction P} (hadvance : advanceSetup g alwaysEmptyCache s a = some t) :
    (∃ cls, a = .message cls ∧ t = s) ∨
      (∃ p phase phase' c below, s.stack = ⟨p, phase⟩ :: below ∧
        t = ⟨Function.update s.classes p c, ⟨p, phase'⟩ :: below⟩ ∧ Conforms g c p phase' ∧
          (c.calls = (s.classes p).calls ∨
            phase.beforeSuperclass = false ∧ ∃ called, c = (s.classes p).call called) ∧
          (phase.beforeSuperclass = true → phase'.beforeSuperclass = false → phase = .superclass ∧ a = .goOn)) ∨
      ∃ p below, s.stack = ⟨p, .finished⟩ :: below ∧ t = ⟨s.classes, below⟩ := by
  cases a with
  | message cls =>
    simp only [advanceSetup] at hadvance
    split at hadvance
    · cases hadvance
      exact Or.inl ⟨cls, rfl, rfl⟩
    · cases hadvance
  | methodReturns =>
    simp only [advanceSetup] at hadvance
    split at hadvance
    next p method below hstack =>
      cases hadvance
      have hframe := h.frames ⟨p, .runningSelf method⟩ (by rw [hstack]; exact List.mem_cons_self)
      refine Or.inr (Or.inl ⟨p, _, .initializeSelf (.makePrevious method), s.classes p, below, hstack, ?_, ?_, Or.inl rfl,
        fun hbefore => absurd hbefore Bool.false_ne_true⟩)
      · rw [Function.update_eq_self]
      · exact ⟨hframe.calls, hframe.own, hframe.returned, hframe.metaclass, hframe.infraclass, hframe.initializeDone,
          hframe.initializing⟩
    next p called rest below hstack =>
      cases hadvance
      have hframe := h.frames ⟨p, .running called rest⟩ (by rw [hstack]; exact List.mem_cons_self)
      exact Or.inr (Or.inl ⟨p, _, _, _, below, hstack, rfl, conforms_methodReturns hframe, Or.inl rfl,
        fun hbefore => absurd hbefore Bool.false_ne_true⟩)
    next => cases hadvance
  | goOn =>
    simp only [advanceSetup] at hadvance
    split at hadvance
    · cases hadvance
    next p phase below hstack =>
      have hframe := h.frames ⟨p, phase⟩ (by rw [hstack]; exact List.mem_cons_self)
      obtain ⟨⟨c, next⟩, hnext, rfl⟩ := Option.map_eq_some_iff.1 hadvance
      obtain ⟨hends, hcalls⟩ := nextPhase_effect hnext
      cases next with
      | none =>
        obtain ⟨rfl, rfl⟩ := hends rfl
        refine Or.inr (Or.inr ⟨p, below, hstack, ?_⟩)
        simp only [Function.update_eq_self]
        rfl
      | some phase' =>
        refine Or.inr (Or.inl ⟨p, phase, phase', c, below, hstack, rfl, nextPhase_conforms hframe hnext phase' rfl, hcalls, ?_⟩)
        intro hbefore hbehind
        exact ⟨nextPhase_beforeSuperclass hnext hbefore hbehind, rfl⟩

/-- **A step keeps the invariant up to the set up that it begins.** -/
lemma SetupInv.advance (h : SetupInv g s) (hpast : PastSuperclass g s) {a : SetupAction P}
    (hadvance : advanceSetup g alwaysEmptyCache s a = some t) : SetupInv g t := by
  rcases advanceSetup_cases h hadvance with ⟨_, -, rfl⟩ | ⟨p, phase, phase', c, below, hstack, rfl, hc, hcalls, -⟩ |
    ⟨p, below, hstack, rfl⟩
  · exact h
  · exact h.goesOn hpast hstack hc hcalls
  · exact h.ends hstack

lemma initializing_advance (h : SetupInv g s) {a : SetupAction P} (hadvance : advanceSetup g alwaysEmptyCache s a = some t)
    (hq : (s.classes q).initializing = true) : (t.classes q).initializing = true := by
  rcases advanceSetup_cases h hadvance with ⟨_, -, rfl⟩ | ⟨p, phase, phase', c, below, hstack, rfl, hc, -, -⟩ |
    ⟨p, below, hstack, rfl⟩
  · exact hq
  · by_cases hqp : q = p
    · simp only [hqp, Function.update_self]
      exact hc.initializing
    · simp only [Function.update_of_ne hqp]
      exact hq
  · exact hq

lemma initializing_of_done (h : SetupInv g s) (hq : (s.classes q).initializeDone = true) :
    (s.classes q).initializing = true := by
  by_contra hnot
  have := h.idle q (by simpa using hnot)
  rw [this] at hq
  cases hq

/-- A step past the superclass has set it up, or is about to. -/
lemma PastSuperclass.advance (h : SetupInv g s) (hpast : PastSuperclass g s) {a : SetupAction P}
    (hadvance : advanceSetup g alwaysEmptyCache s a = some t) {f : SetupFrame P} (hf : f ∈ t.stack)
    (hphase : f.phase.beforeSuperclass = false) (hq : (g.pair f.pair).superclass = some q) :
    (t.classes q).initializing = true ∨ requested g s a = some q := by
  have hold : f ∈ s.stack → (t.classes q).initializing = true := fun hmem =>
    initializing_advance h hadvance (hpast f hmem hphase q hq)
  rcases advanceSetup_cases h hadvance with ⟨_, -, rfl⟩ | ⟨p, phase, phase', c, below, hstack, rfl, hc, -, hbefore⟩ |
    ⟨p, below, hstack, rfl⟩
  · exact Or.inl (hold hf)
  · rcases List.mem_cons.1 hf with rfl | hbelow
    · cases hwas : phase.beforeSuperclass with
      | false =>
        have := hpast ⟨p, phase⟩ (by rw [hstack]; exact List.mem_cons_self) hwas q hq
        exact Or.inl (initializing_advance h hadvance this)
      | true =>
        obtain ⟨rfl, rfl⟩ := hbefore hwas hphase
        cases hdone : (s.classes q).initializeDone with
        | true => exact Or.inl (initializing_advance h hadvance (initializing_of_done h hdone))
        | false =>
          refine Or.inr ?_
          simp only [requested, hstack, hq, Option.bind_some, setupIfNeeded, hdone]
          rfl
    · exact Or.inl (hold (by rw [hstack]; exact List.mem_cons_of_mem _ hbelow))
  · exact Or.inl (hold (by rw [hstack]; exact List.mem_cons_of_mem _ hf))

/-- Before it begins a set up, a step changes no class. -/
lemma classes_of_requested {a : SetupAction P} (hadvance : advanceSetup g alwaysEmptyCache s a = some t)
    (hq : requested g s a = some q) : t.classes = s.classes := by
  cases a with
  | message cls =>
    simp only [advanceSetup] at hadvance
    split at hadvance
    · cases hadvance
      rfl
    · cases hadvance
  | methodReturns => cases hq
  | goOn =>
    simp only [requested] at hq
    split at hq
    next p below hstack =>
      simp only [advanceSetup, hstack] at hadvance
      cases hadvance
      exact Function.update_eq_self _ _
    next p mixin rest below hstack =>
      simp only [advanceSetup, hstack] at hadvance
      cases hadvance
      exact Function.update_eq_self _ _
    next p below hstack =>
      simp only [advanceSetup, hstack] at hadvance
      cases hadvance
      exact Function.update_eq_self _ _
    next p mixin rest below hstack =>
      split at hq
      · cases hq
      next hmixin =>
        simp only [advanceSetup, hstack, nextPhase, Bool.not_eq_true _ ▸ hmixin] at hadvance
        cases hadvance
        exact Function.update_eq_self _ _
    next => cases hq

/-- **Each step that begins a set up in time keeps the invariant.** -/
theorem setupInv_step {a : SetupAction P} (h : SetupInv g s ∧ PastSuperclass g s) (ha : Timely g s a)
    (hstep : setupStep g alwaysEmptyCache s a = some t) : SetupInv g t ∧ PastSuperclass g t := by
  obtain ⟨hinv, hpast⟩ := h
  obtain ⟨t', hadvance, rfl⟩ := Option.map_eq_some_iff.1 hstep
  have hinv' := hinv.advance hpast hadvance
  have hpast' := fun f hf hphase q hq => PastSuperclass.advance (f := f) (q := q) hinv hpast hadvance hf hphase hq
  rcases hreq : requested g s a with _ | q
  · refine ⟨hinv', ?_⟩
    intro f hf hphase r hr
    refine (hpast' f hf hphase r hr).resolve_right ?_
    rw [hreq]
    exact Option.some_ne_none r ∘ Eq.symm
  · have hclasses := classes_of_requested hadvance hreq
    have hmay : (t'.classes q).initializing = false → MayBegin g t' q := by
      rw [hclasses]
      intro hq
      have := ha q hreq hq
      unfold MayBegin at this ⊢
      rwa [hclasses]
    refine ⟨hinv'.begins hmay, ?_⟩
    intro f hf hphase r hr
    simp only [classSetup] at hf ⊢
    split
    next hq =>
      rw [if_pos hq] at hf
      rcases hpast' f hf hphase r hr with hinit | hr'
      · exact hinit
      · cases hreq.symm.trans hr'
        exact hq
    next hq =>
      rw [if_neg hq] at hf
      by_cases hrq : r = q
      · simp only [hrq, Function.update_self]
      · simp only [Function.update_of_ne hrq]
        rcases List.mem_cons.1 hf with rfl | hf
        · cases hphase
        · refine (hpast' f hf hphase r hr).resolve_right ?_
          intro hr'
          cases hreq.symm.trans hr'
          exact hrq rfl

/-- **Runs whose set ups begin in time are orderly.** -/
theorem orderly_of_timely (hg : Hierarchy g) {acts : List (SetupAction P)}
    (htimely : EachStep (setupStep g alwaysEmptyCache) (Timely g) (.start P) acts) :
    Throughout (setupStep g alwaysEmptyCache) (Orderly g) (.start P) acts := by
  have hinv := htimely.throughout (P := fun s => SetupInv g s ∧ PastSuperclass g s) ⟨setupInv_start, pastSuperclass_start⟩
    fun s a t h ha hstep => setupInv_step h ha hstep
  exact hinv.mono fun s h => h.1.orderly hg h.2

/-- The class `2` below a class `1` below a root class `0`, each with a `+initialize`. -/
def nestedGraph : ClassGraph ℕ :=
  ClassGraph.ofList
    [ClassGraph.pairOf 1 none [] false ⟨0, [.empty]⟩ ⟨0, [bothList 100]⟩,
      ClassGraph.pairOf 2 (some 0) [] false ⟨0, [.empty]⟩ ⟨0, [bothList 200]⟩,
      ClassGraph.pairOf 3 (some 1) [] false ⟨0, [.empty]⟩ ⟨0, [bothList 300]⟩]

lemma hierarchy_nestedGraph : Hierarchy nestedGraph where
  mixins := by
    refine ClassGraph.forall_pair_ofList (motive := fun pair => ∀ q ∈ pair.mixins,
      (nestedGraph.pair q).isMixin = true) ?_ (by decide)
    intro q hq
    cases hq
  superclass := by
    refine ClassGraph.forall_pair_ofList (motive := fun pair => ∀ q, pair.superclass = some q →
      pair.isMixin = false → (nestedGraph.pair q).isMixin = false) ?_ ?_
    · intro q hq
      cases hq
    · have h : ∀ p < 3, ∀ q ∈ (nestedGraph.pair p).superclass, (nestedGraph.pair q).isMixin = false := by decide
      intro p hp q hq _
      exact h p hp q hq

/-- The first message goes to the class `1`; the root class is set up before its own call. -/
def timelyRun : List (SetupAction ℕ) :=
  .message ⟨1, false⟩ :: List.replicate 8 .goOn ++ .methodReturns :: List.replicate 12 .goOn ++
    .methodReturns :: List.replicate 6 .goOn

lemma setupRun_read {acts : List (SetupAction ℕ)} {s : SetupState ℕ}
    (hs : run (setupStep nestedGraph fun _ => false) (.start ℕ) acts = some s) {β : Type} (f : SetupState ℕ → β) {b : β}
    (h : (run (setupStep nestedGraph fun _ => false) (.start ℕ) acts).map f = some b) : f s = b := by
  rw [hs] at h
  exact Option.some.inj h

/-- Both set ups are over, and both calls have been made. -/
theorem orderly_of_timely_sample :
    ∃ s, run (setupStep nestedGraph fun _ => false) (.start ℕ) timelyRun = some s ∧ Orderly nestedGraph s ∧
      s.stack.length = 0 ∧ (s.classes 0).returned = [(⟨0, true⟩, bothList 100)] ∧
      (s.classes 1).returned = [(⟨1, true⟩, bothList 200)] := by
  obtain ⟨s, hs⟩ : ∃ s, run (setupStep nestedGraph fun _ => false) (.start ℕ) timelyRun = some s :=
    Option.isSome_iff_exists.1 (by decide +kernel)
  have horderly : Throughout (setupStep nestedGraph fun _ => false) (Orderly nestedGraph) (.start ℕ) timelyRun :=
    orderly_of_timely hierarchy_nestedGraph (by decide +kernel)
  exact ⟨s, hs, horderly.last hs, setupRun_read hs (fun s => s.stack.length) (by decide +kernel),
    setupRun_read hs (fun s => (s.classes 0).returned) (by decide +kernel),
    setupRun_read hs (fun s => (s.classes 1).returned) (by decide +kernel)⟩

/-- The first message goes to the class `1`.  While it sets up the root class, the `+initialize` of the root class sends a
message to the class `2`, whose set up finds the class `1` initializing. -/
def nestedRun : List (SetupAction ℕ) :=
  .message ⟨1, false⟩ :: List.replicate 8 .goOn ++ .message ⟨2, false⟩ :: List.replicate 7 .goOn

/-- The `+initialize` of the class `2` is called before that of its superclass. -/
theorem initialize_before_superclass :
    Hierarchy nestedGraph ∧
      ¬ Throughout (setupStep nestedGraph fun _ => false) (Orderly nestedGraph) (.start ℕ) nestedRun := by
  refine ⟨hierarchy_nestedGraph, fun horderly => ?_⟩
  obtain ⟨s, hs⟩ : ∃ s, run (setupStep nestedGraph fun _ => false) (.start ℕ) nestedRun = some s :=
    Option.isSome_iff_exists.1 (by decide +kernel)
  have hcalled : (s.classes 2).calls = [(⟨2, true⟩, bothList 300)] :=
    setupRun_read hs (fun s => (s.classes 2).calls) (by decide +kernel)
  have hnot : (s.classes 1).calls = [] := setupRun_read hs (fun s => (s.classes 1).calls) (by decide +kernel)
  have hsuper := (horderly.last hs).superclassCalled 2 1 rfl (⟨2, true⟩, bothList 300) (by decide)
    (by rw [hcalled]; exact List.mem_cons_self) (⟨1, true⟩, bothList 200) (by decide)
  rw [hnot] at hsuper
  cases hsuper

/-- The class `2` and its superclass `1` adopt the mixin `0`, the only one with a `+initialize`. -/
def readoptingGraph : ClassGraph ℕ :=
  ClassGraph.ofList
    [ClassGraph.pairOf 1 none [] true ⟨0, [.empty]⟩ ⟨0, [bothList 100]⟩,
      ClassGraph.pairOf 2 none [0] false ⟨0, [.empty]⟩ ⟨0, [.empty]⟩,
      ClassGraph.pairOf 3 (some 1) [0] false ⟨0, [.empty]⟩ ⟨0, [.empty]⟩]

/-- A message to the class `2`, and all that follows up to the second call for it. -/
def readoptingRun : List (SetupAction ℕ) :=
  .message ⟨2, false⟩ :: List.replicate 22 .goOn ++ .methodReturns :: List.replicate 14 .goOn ++
    [.methodReturns, .goOn]

/-- The mixin's `+initialize` is called twice for the class `2`. -/
theorem initialize_of_mixin_twice :
    (run (setupStep readoptingGraph fun _ => false) (.start ℕ) readoptingRun).map (fun s => (s.classes 2).calls) =
      some [(⟨0, true⟩, bothList 100), (⟨0, true⟩, bothList 100)] := by
  decide +kernel

end MulleObjcRuntime.Initialize
