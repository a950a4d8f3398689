import MulleObjcRuntime.Caches.Installing

/-!
# What an operation does to a runtime

* `Forgets` — what a load does to a class: its cache has none of the methods that are added, or is thrown away;
* `Steady` — what holds of a runtime at all times;
* `Steady.of_lists`, `Steady.of_load` — every class forgets when method lists are added;
* `asked`, `Steady.step_eq_some` — an operation moves the class it asks for something, or it is a load;
* `Steady.of_step`, `steady_throughout` — every operation keeps the runtime steady, and so does every run.
-/

namespace MulleObjcRuntime.Caches

open Classes Impcache Dispatch Relation Lib.Runs

/-! ## One class -/

section Forgets

variable {p : Setting} {methods methods' : List Method} {state state' state'' : ClassState}

/-- Only the cache of the class changes: it is as before, if it has none of the methods, or it has nothing. -/
structure Forgets (methods : List Method) (state state' : ClassState) : Prop where
  kept : ∃ cache, state' = { state with cache }
  cache : (state'.cache = state.cache ∧ ∀ method ∈ methods, state.cache.cached method.methodid = none) ∨
    ∀ k ≠ 0, state'.cache.cached k = none

lemma forgets_refl (h : ∀ method ∈ methods, state.cache.cached method.methodid = none) : Forgets methods state state :=
  ⟨⟨state.cache, rfl⟩, Or.inl ⟨rfl, h⟩⟩

lemma forgets_of_clears (hmethods : ∀ method ∈ methods, method.methodid ≠ 0) (h : Clears p methods state state') :
    Forgets methods state state' := by
  rcases h.kept_or_cleared with rfl | ⟨-, rfl⟩
  · apply forgets_refl
    intro method hmethod
    rw [Option.eq_none_iff_forall_ne_some]
    intro v hv
    exact (h.cached _ (hmethods method hmethod) v hv).2 method hmethod rfl
  · exact ⟨⟨_, rfl⟩, Or.inr fun k hk => cached_cleared p state hk⟩

lemma Forgets.trans (h : Forgets methods state state') (h' : Forgets methods' state' state'') :
    Forgets (methods ++ methods') state state'' := by
  obtain ⟨cache, rfl⟩ := h.kept
  obtain ⟨cache', rfl⟩ := h'.kept
  refine ⟨⟨cache', rfl⟩, ?_⟩
  rcases h'.cache with ⟨hsame', hnone'⟩ | hempty'
  · rcases h.cache with ⟨hsame, hnone⟩ | hempty
    · refine Or.inl ⟨hsame'.trans hsame, fun method hmethod => ?_⟩
      rcases List.mem_append.1 hmethod with hmethod | hmethod
      · exact hnone method hmethod
      · rw [← hsame]
        exact hnone' method hmethod
    · refine Or.inr fun k hk => ?_
      rw [hsame']
      exact hempty k hk
  · exact Or.inr hempty'

lemma Forgets.cached (h : Forgets methods state state') {k v : ℕ} (hk : k ≠ 0) (hv : state'.cache.cached k = some v) :
    state.cache.cached k = some v ∧ ∀ method ∈ methods, state.cache.cached method.methodid = none := by
  rcases h.cache with ⟨hsame, hnone⟩ | hempty
  · rw [hsame] at hv
    exact ⟨hv, hnone⟩
  · rw [hempty k hk] at hv
    cases hv

lemma Forgets.forwardmethod (h : Forgets methods state state') : state'.forwardmethod = state.forwardmethod := by
  obtain ⟨cache, rfl⟩ := h.kept
  rfl

lemma Forgets.vtab (h : Forgets methods state state') : state'.vtab = state.vtab := by
  obtain ⟨cache, rfl⟩ := h.kept
  rfl

lemma Forgets.callback (h : Forgets methods state state') : state'.callback = state.callback := by
  obtain ⟨cache, rfl⟩ := h.kept
  rfl

end Forgets

/-! ## The classes of a runtime -/

section Walk

variable {p : Setting} {list : MethodList} {states states' : ClassRef ℕ → ClassState} {walked : List (ClassRef ℕ)}

lemma walkedClasses_nodup (u : Universe) : (walkedClasses u).Nodup := by
  unfold walkedClasses
  rw [List.nodup_flatMap]
  refine ⟨fun i _ => by simp, ?_⟩
  refine List.Pairwise.imp ?_ List.nodup_range
  intro i j hij cls hi hj
  simp only [List.mem_cons, List.not_mem_nil, or_false] at hi hj
  rcases hi with rfl | rfl <;> rcases hj with h | h <;> cases h <;> exact hij rfl

lemma mem_walkedClasses {u : Universe} {cls : ClassRef ℕ} : cls ∈ walkedClasses u ↔ cls.pair < u.pairs.length := by
  obtain ⟨i, isMeta⟩ := cls
  unfold walkedClasses
  rw [List.mem_flatMap]
  constructor
  · rintro ⟨j, hj, h⟩
    simp only [List.mem_cons, ClassRef.mk.injEq, List.not_mem_nil, or_false] at h
    rcases h with ⟨rfl, -⟩ | ⟨rfl, -⟩ <;> exact List.mem_range.1 hj
  · intro hi
    refine ⟨i, List.mem_range.2 hi, ?_⟩
    cases isMeta <;> simp

/-- The walk comes to every class once. -/
lemma walkClasses_clears (hmethods : ∀ method ∈ list.methods, method.methodid ≠ 0) (hnodup : walked.Nodup)
    (hs : ∀ cls, Sound p (states cls)) (hwalk : walkClasses p list states walked = .ok states') :
    (∀ cls ∈ walked, Clears p list.methods (states cls) (states' cls)) ∧
      ∀ cls, cls ∉ walked → states' cls = states cls := by
  induction walked generalizing states with
  | nil =>
    cases hwalk
    exact ⟨by simp, fun _ _ => rfl⟩
  | cons first walked ih =>
    rw [List.nodup_cons] at hnodup
    unfold walkClasses at hwalk
    rw [List.foldlM_cons] at hwalk
    obtain ⟨states₁, hfirst, hwalk⟩ := Lib.Fallible.bind_eq_ok.1 hwalk
    obtain ⟨new, hnew, rfl⟩ := Lib.Fallible.map_eq_ok.1 hfirst
    have hclears := invalidateCaches_clears (hs first).toInv (hs first).idle hmethods hnew
    have hs₁ : ∀ cls, Sound p (Function.update states first new cls) :=
      (Function.forall_update_iff states fun _ state => Sound p state).2
        ⟨hclears.sound (hs first), fun cls _ => hs cls⟩
    obtain ⟨hin, hout⟩ := ih hnodup.2 hs₁ hwalk
    constructor
    · intro cls hcls
      rcases List.mem_cons.1 hcls with rfl | hmem
      · rw [hout cls hnodup.1, Function.update_self]
        exact hclears
      · have hne : cls ≠ first := by
          rintro rfl
          exact hnodup.1 hmem
        have hrest := hin cls hmem
        rwa [Function.update_of_ne hne] at hrest
    · intro cls hcls
      rw [List.mem_cons, not_or] at hcls
      rw [hout cls hcls.2, Function.update_of_ne hcls.1]

end Walk

/-! ## Loading -/

section Steady

variable {p : Setting} {rt rt' : Runtime}

/-- What holds of a runtime at all times: every method has an implementation, the mixins of the classes are loaded, every
class is sound, and a class that is not loaded has never been used. -/
structure Steady (p : Setting) (rt : Runtime) : Prop where
  sane : Standardimps.Sane rt.loaded
  adopted : Adopted rt.loaded
  sound : ∀ cls, Sound p (rt.states cls)
  forwards : ∀ cls, Forwards (rt.states cls)
  unused : ∀ cls : ClassRef ℕ, rt.loaded.pairs.length ≤ cls.pair → rt.states cls = ClassState.new
  counted : ∀ cls, (rt.states cls).callback = .normal → rt.cachecount ≠ 0

lemma steady_initial (p : Setting) (classdefaults : ℕ) : Steady p (Runtime.initial classdefaults) := by
  refine ⟨?_, ?_, fun _ => sound_new, ?_, fun _ _ => rfl, ?_⟩
  · intro pair hpair
    cases hpair
  · intro pair hpair
    cases hpair
  · intro cls method hmethod
    cases hmethod
  · intro cls hnormal
    cases hnormal

/-- The list of one walk. -/
lemma Steady.of_list (h : Steady p rt) {list : MethodList}
    (hmethods : ∀ method ∈ list.methods, method.methodid ≠ 0) (hadd : didaddMethodlist p rt list = .ok rt') :
    Steady p rt' ∧ rt'.loaded = rt.loaded ∧ ∀ cls, Forgets list.methods (rt.states cls) (rt'.states cls) := by
  unfold didaddMethodlist at hadd
  split at hadd
  · rename_i hskip
    cases hadd
    refine ⟨h, rfl, fun cls => forgets_refl fun method hmethod => ?_⟩
    rcases hskip with hnil | hcount
    · rw [hnil] at hmethod
      cases hmethod
    · rw [Option.eq_none_iff_forall_ne_some]
      intro v hv
      exact h.counted cls (normal_of_cached (h.sound cls).toInv (hmethods method hmethod) hv) hcount
  · obtain ⟨states, hwalk, rfl⟩ := Lib.Fallible.map_eq_ok.1 hadd
    obtain ⟨hin, hout⟩ := walkClasses_clears hmethods (walkedClasses_nodup rt.loaded) h.sound hwalk
    have hclears : ∀ cls, Clears p list.methods (rt.states cls) (states cls) := by
      intro cls
      by_cases hcls : cls ∈ walkedClasses rt.loaded
      · exact hin cls hcls
      · rw [hout cls hcls]
        refine ⟨Or.inl rfl, fun k hk v hv => ?_⟩
        rw [mem_walkedClasses, not_lt] at hcls
        have hnone : ClassState.new.cache.cached k = none := zeroCache_cached k hk
        rw [h.unused cls hcls, hnone] at hv
        cases hv
    have hforgets := fun cls => forgets_of_clears hmethods (hclears cls)
    refine ⟨⟨h.sane, h.adopted, fun cls => (hclears cls).sound (h.sound cls), fun cls => ?_, fun cls hcls => ?_,
      fun cls hnormal => ?_⟩, rfl, hforgets⟩
    · rw [Forwards, (hforgets cls).forwardmethod]
      exact h.forwards cls
    · have hnot : cls ∉ walkedClasses rt.loaded := by
        rw [mem_walkedClasses, not_lt]
        exact hcls
      exact (hout cls hnot).trans (h.unused cls hcls)
    · exact h.counted cls ((hforgets cls).callback ▸ hnormal)

/-- **All classes forget** when method lists are added. -/
lemma Steady.of_lists (h : Steady p rt) {lists : List MethodList}
    (hlists : ∀ list ∈ lists, ∀ method ∈ list.methods, method.methodid ≠ 0)
    (hadd : lists.foldlM (didaddMethodlist p) rt = .ok rt') :
    Steady p rt' ∧ rt'.loaded = rt.loaded ∧
      ∀ cls, Forgets (lists.flatMap MethodList.methods) (rt.states cls) (rt'.states cls) := by
  induction lists generalizing rt with
  | nil =>
    cases hadd
    exact ⟨h, rfl, fun cls => forgets_refl (by simp)⟩
  | cons list lists ih =>
    rw [List.forall_mem_cons] at hlists
    rw [List.foldlM_cons] at hadd
    obtain ⟨rt₁, hfirst, hadd⟩ := Lib.Fallible.bind_eq_ok.1 hadd
    obtain ⟨h₁, hloaded₁, hforgets₁⟩ := h.of_list hlists.1 hfirst
    obtain ⟨h₂, hloaded₂, hforgets₂⟩ := ih h₁ hlists.2 hadd
    refine ⟨h₂, hloaded₂.trans hloaded₁, fun cls => ?_⟩
    rw [List.flatMap_cons]
    exact (hforgets₁ cls).trans (hforgets₂ cls)

/-- **A load** adds its item, and all classes forget. -/
lemma Steady.of_load (h : Steady p rt) {item : Load.LoadItem} (hsane : Sane item) (hload : load p rt item = some rt') :
    Steady p rt' ∧ item.install p.load rt.loaded = .ok rt'.loaded ∧
      ∀ cls, Forgets (addedMethods item) (rt.states cls) (rt'.states cls) := by
  unfold load at hload
  obtain ⟨loaded, hinstall, hload⟩ := Option.bind_eq_some_iff.1 hload
  obtain ⟨rt₁, hadd, hload⟩ := Option.bind_eq_some_iff.1 hload
  cases hload
  have hinstall := Lib.Fallible.toOption_eq_some.1 hinstall
  have hids : ∀ list ∈ methodlists item, ∀ method ∈ list.methods, method.methodid ≠ 0 :=
    fun list hlist method hmethod => (hsane list hlist method hmethod).1
  obtain ⟨h₁, hloaded, hforgets⟩ := h.of_lists hids (Lib.Fallible.toOption_eq_some.1 hadd)
  obtain ⟨hsane', hle⟩ := sane_install h.sane hsane hinstall
  refine ⟨⟨hsane', adopted_install h.adopted hinstall, h₁.sound, h₁.forwards, fun cls hcls => ?_, h₁.counted⟩, hinstall, hforgets⟩
  apply h₁.unused
  rw [hloaded]
  exact hle.trans hcls

/-! ## Operations -/

/-- What an operation asks its class for; a set up and a load ask for nothing, which is `MULLE_OBJC_NO_METHODID`. -/
def asked : Operation → Key
  | .call _ _ methodid => .method methodid
  | .callSuper _ _ superid => .super superid
  | .lookup _ _ methodid => .method methodid
  | .lookupSuper _ superid => .super superid
  | .beginInitialize _ => .method 0
  | .endInitialize _ => .method 0
  | .load _ _ => .method 0

lemma returning_eq_some {α : Type} {cls : ClassRef ℕ} {r : Except Stop (α × State Universe)}
    (h : returning rt cls r = some rt') :
    cls.pair < rt.loaded.pairs.length ∧ ∃ a s, r = .ok (a, s) ∧ rt' = rt.store cls s.cls := by
  obtain ⟨hcls, h⟩ := Option.ite_none_right_eq_some.1 h
  obtain ⟨⟨a, s⟩, hr, rfl⟩ := Option.map_eq_some_iff.1 h
  exact ⟨hcls, a, s, Lib.Fallible.toOption_eq_some.1 hr, rfl⟩

/-- **What an operation does**: it moves the class it asks, or it is a load. -/
lemma Steady.step_eq_some (hfits : p.Fits) (h : Steady p rt) {op : Operation} (hstep : step p rt op = some rt') :
    (∃ cls new, cls.pair < rt.loaded.pairs.length ∧ Moves p rt.loaded cls (asked op) (rt.states cls) new ∧
      rt' = rt.store cls new) ∨ ∃ item sane, op = .load item sane ∧ load p rt item = some rt' := by
  have henough := fun cls => enough_rounds p (rt.states cls)
  have hu := fun cls => h.sane.implemented cls
  cases op with
  | call path cls methodid =>
    obtain ⟨hid, hstep⟩ := Option.ite_none_left_eq_some.1 hstep
    obtain ⟨hcls, imp, s, hrun, rfl⟩ := returning_eq_some hstep
    left
    exact ⟨cls, s.cls, hcls,
      (call_changes (s := rt.focus cls) hfits (hu cls) (h.sound cls) (h.forwards cls) hid (henough cls) hrun).2, rfl⟩
  | callSuper path cls superid =>
    obtain ⟨hid, hstep⟩ := Option.ite_none_left_eq_some.1 hstep
    obtain ⟨hcls, imp, s, hrun, rfl⟩ := returning_eq_some hstep
    left
    exact ⟨cls, s.cls, hcls, (callSuper_changes (s := rt.focus cls) (h.sound cls) hid (henough cls) hrun).2, rfl⟩
  | lookup mode cls methodid =>
    obtain ⟨hid, hstep⟩ := Option.ite_none_left_eq_some.1 hstep
    obtain ⟨hcls, imp, s, hrun, rfl⟩ := returning_eq_some hstep
    left
    exact ⟨cls, s.cls, hcls, (lookupImplementationMode_changes (s := rt.focus cls) hid hrun).2, rfl⟩
  | lookupSuper cls superid =>
    obtain ⟨hid, hstep⟩ := Option.ite_none_left_eq_some.1 hstep
    obtain ⟨hcls, imp, s, hrun, rfl⟩ := returning_eq_some hstep
    left
    exact ⟨cls, s.cls, hcls, (lookupSuperimplementationNofail_changes (s := rt.focus cls) hid hrun).2, rfl⟩
  | beginInitialize cls =>
    obtain ⟨hcls, hstep⟩ := Option.ite_none_right_eq_some.1 hstep
    obtain ⟨new, hnew, rfl⟩ := Option.map_eq_some_iff.1 hstep
    obtain ⟨hinit, rfl⟩ := beginInitialize_eq_some hnew
    left
    exact ⟨cls, _, hcls, ReflTransGen.single (Move.begins _ hinit), rfl⟩
  | endInitialize cls =>
    obtain ⟨hcls, hstep⟩ := Option.ite_none_right_eq_some.1 hstep
    obtain ⟨new, hnew, rfl⟩ := Option.map_eq_some_iff.1 hstep
    obtain ⟨hcallback, rfl⟩ := endInitialize_eq_some hnew
    left
    exact ⟨cls, _, hcls, ReflTransGen.single (Move.ends _ hcallback), rfl⟩
  | load item sane => exact Or.inr ⟨item, sane, rfl, hstep⟩

/-- A class that has moved. -/
lemma Steady.store (hfits : p.Fits) (h : Steady p rt) {cls : ClassRef ℕ} (hcls : cls.pair < rt.loaded.pairs.length)
    {key : Key} {new : ClassState} (hmoves : Moves p rt.loaded cls key (rt.states cls) new) :
    Steady p (rt.store cls new) := by
  obtain ⟨hsound, hforwards⟩ := Moves.sound hfits (h.sane.implemented cls) hmoves (h.sound cls) (h.forwards cls)
  refine ⟨h.sane, h.adopted, ?_, ?_, fun other hother => ?_, fun other hnormal => ?_⟩
  · exact (Function.forall_update_iff rt.states fun _ state => Sound p state).2 ⟨hsound, fun other _ => h.sound other⟩
  · exact (Function.forall_update_iff rt.states fun _ state => Forwards state).2
      ⟨hforwards, fun other _ => h.forwards other⟩
  · have hne : other ≠ cls := by
      rintro rfl
      exact absurd hcls (Nat.not_lt.2 hother)
    exact (Function.update_of_ne hne _ _).trans (h.unused other hother)
  · show (if (rt.states cls).callback ≠ .normal ∧ new.callback = .normal then rt.cachecount + 1 else rt.cachecount) ≠ 0
    split
    · exact Nat.succ_ne_zero _
    · rename_i hcount
      change (Function.update rt.states cls new other).callback = .normal at hnormal
      by_cases hother : other = cls
      · subst hother
        rw [Function.update_self] at hnormal
        exact h.counted other (by_contra fun hne => hcount ⟨hne, hnormal⟩)
      · rw [Function.update_of_ne hother] at hnormal
        exact h.counted other hnormal

/-- **Every operation keeps the runtime steady.** -/
lemma Steady.of_step (hfits : p.Fits) (h : Steady p rt) {op : Operation} (hstep : step p rt op = some rt') :
    Steady p rt' := by
  rcases h.step_eq_some hfits hstep with ⟨cls, new, hcls, hmoves, rfl⟩ | ⟨item, sane, rfl, hload⟩
  · exact h.store hfits hcls hmoves
  · exact (h.of_load sane hload).1

/-- **Every run keeps the runtime steady**, whatever it loads and asks for. -/
theorem steady_throughout (hfits : p.Fits) (h : Steady p rt) (ops : List Operation) :
    Throughout (step p) (Steady p) rt ops := by
  induction ops generalizing rt with
  | nil => exact h
  | cons op ops ih => exact ⟨h, fun rt' hstep => ih (h.of_step hfits hstep)⟩

end Steady

end MulleObjcRuntime.Caches
