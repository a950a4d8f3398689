import MulleObjcRuntime.Dispatch.Moves

/-!
# The operations on a class, move by move

* `Prepares` — what a search does to the class it is made on;
* `searchNofail_spec` — the search behind a miss, by a methodid or by a superid;
* `Changes` — what an operation does to the class: moves, and nothing else;
* `value`, `selected_value` — what a call gets to;
* `fastmethodtableInvoke_spec` — what a fast call gets to;
* `call_changes` and its siblings — every operation is made of moves.
-/

namespace MulleObjcRuntime.Dispatch

open Classes Impcache Relation

variable {p : Setting} {cls : ClassRef ℕ} {key : Key} {state : ClassState}

/-! ## Searching -/

/-- Rounds for every loop over the cache, also over a first one. -/
def Enough (p : Setting) (fuel : ℕ) (state : ClassState) : Prop :=
  state.cache.entries.length < fuel ∧ impcacheSize p.initialCacheSize < fuel

lemma enough_rounds (p : Setting) (state : ClassState) : Enough p (rounds p state) state := by
  unfold Enough rounds
  omega

lemma one_lt_of_enough {fuel : ℕ} (h : Enough p fuel state) : 1 < fuel := by
  have hmin := (impcacheNew_installed p.shift p.initialCacheSize).min_le
  have hsize : minCacheSize ≤ impcacheSize p.initialCacheSize := hmin
  have := h.2
  unfold minCacheSize at hsize
  omega

lemma Enough.setupInitializeCache {fuel : ℕ} (h : Enough p fuel state) : Enough p fuel (setupInitializeCache state) := by
  unfold Impcache.setupInitializeCache
  split
  · exact ⟨one_lt_of_enough h, h.2⟩
  · exact h

lemma Enough.setupInitialCache {fuel : ℕ} (h : Enough p fuel state) :
    Enough p fuel (setupInitialCacheIfNeeded p.toConfig state) := by
  unfold setupInitialCacheIfNeeded Impcache.setupInitialCache
  split
  · exact h
  split
  · exact h
  split
  · refine ⟨?_, h.2⟩
    show (List.replicate (impcacheSize p.initialCacheSize) (⟨0, 0⟩ : CacheEntry)).length < fuel
    rw [List.length_replicate]
    exact h.2
  · exact h

/-- What a search does to the class it is made on: it may set it up and remember its forward method. -/
structure Prepares (p : Setting) (cls : ClassRef ℕ) (s s' : State Universe) : Prop where
  world : s'.world = s.world
  moves : ∀ key, Moves p s.world cls key s.cls s'.cls
  cached : ∀ k ≠ 0, ∀ v, s'.cls.cache.cached k = some v → s.cls.cache.cached k = some v
  kept : s.cls.initializing = true → s'.cls.cache = s.cls.cache ∧ s'.cls.callback = s.cls.callback
  enough : ∀ fuel, Enough p fuel s.cls → Enough p fuel s'.cls
  vtab : s'.cls.vtab = s.cls.vtab
  initializing : s.cls.initializing = true → s'.cls.initializing = true
  forward : s'.cls.forwardmethod = s.cls.forwardmethod ∨
    s.cls.forwardmethod = none ∧ s'.cls.forwardmethod = freshForwardmethod p s.world cls

variable {s s' s'' : State Universe}

lemma Prepares.refl (s : State Universe) : Prepares p cls s s :=
  ⟨rfl, fun _ => ReflTransGen.refl, fun _ _ _ h => h, fun _ => ⟨rfl, rfl⟩, fun _ h => h, rfl, fun h => h, Or.inl rfl⟩

lemma Prepares.forward_or (h : Prepares p cls s s') :
    s'.cls.forwardmethod.or (freshForwardmethod p s.world cls) =
      s.cls.forwardmethod.or (freshForwardmethod p s.world cls) := by
  rcases h.forward with h | ⟨hnone, h⟩
  · rw [h]
  · rw [h, hnone, Option.or_self, Option.none_or]

lemma setupInitializeCache_callback (state : ClassState) : (setupInitializeCache state).callback ≠ .initial := by
  unfold setupInitializeCache
  split
  · simp
  · assumption

lemma classSetup_prepares (p : Setting) (cls : ClassRef ℕ) (hinit : s.cls.initializing = false) : Prepares p cls s (classSetup (environment p cls) s).2 ∧
    (classSetup (environment p cls) s).2.cls.initializing = true := by
  have hsetup : (classSetup (environment p cls) s).2 = ⟨s.world, setupInitialCacheIfNeeded p.toConfig
      (setupInitializeCache { s.cls with initializing := true })⟩ := by
    unfold classSetup
    rw [if_neg (by rw [hinit]; simp)]
    rfl
  rw [hsetup]
  refine ⟨⟨rfl, fun key => ?_, fun k hk v hv => ?_, fun hinit' => ?_, fun fuel henough => ?_, by simp, by simp,
    by simp⟩, by simp⟩
  · exact (ReflTransGen.single (Move.begins s.cls hinit)).tail (Move.ends _ (setupInitializeCache_callback _))
  · exact cached_setupInitializeCache { s.cls with initializing := true } hk (cached_setupInitialCache _ _ hk hv)
  · rw [hinit] at hinit'
    cases hinit'
  · have hset : Enough p fuel { s.cls with initializing := true } := henough
    exact hset.setupInitializeCache.setupInitialCache

lemma Prepares.trans (h : Prepares p cls s s') (h' : Prepares p cls s' s'') : Prepares p cls s s'' where
  world := h'.world.trans h.world
  moves key := (h.moves key).trans (h.world ▸ h'.moves key)
  cached k hk v hv := h.cached k hk v (h'.cached k hk v hv)
  kept hinit := by
    obtain ⟨hcache, hcallback⟩ := h.kept hinit
    obtain ⟨hcache', hcallback'⟩ := h'.kept (h.initializing hinit)
    exact ⟨hcache'.trans hcache, hcallback'.trans hcallback⟩
  enough fuel henough := h'.enough fuel (h.enough fuel henough)
  vtab := h'.vtab.trans h.vtab
  initializing hinit := h'.initializing (h.initializing hinit)
  forward := by
    rcases h'.forward with h₂ | ⟨hnone, h₂⟩
    · rw [h₂]
      exact h.forward
    · rcases h.forward with h₁ | ⟨hnone', -⟩
      · exact Or.inr ⟨by rw [← h₁, hnone], by rw [h₂, h.world]⟩
      · exact Or.inr ⟨hnone', by rw [h₂, h.world]⟩

lemma setupBeforeSearch_prepares (p : Setting) (cls : ClassRef ℕ) (exempt : Bool) (s : State Universe) :
    Prepares p cls s (setupBeforeSearch (environment p cls) exempt s) ∧
      (exempt = false → (setupBeforeSearch (environment p cls) exempt s).cls.initializing = true) := by
  unfold setupBeforeSearch
  split
  · rename_i hdone
    refine ⟨Prepares.refl s, fun hexempt => ?_⟩
    simpa [hexempt] using hdone
  · rename_i hdone
    have hinit : s.cls.initializing = false := by simp_all
    obtain ⟨h, hinit'⟩ := classSetup_prepares p cls hinit
    exact ⟨h, fun _ => hinit'⟩

lemma defaultsearchMethod_spec (p : Setting) (cls : ClassRef ℕ) (methodid : ℕ) (s : State Universe) :
    (defaultsearchMethod (environment p cls) methodid s).1 =
        Invalidation.defaultsearchMethod s.world.graph cls methodid ∧
      Prepares p cls s (defaultsearchMethod (environment p cls) methodid s).2 := by
  obtain ⟨h, -⟩ := setupBeforeSearch_prepares p cls (beforeSetupMethodids.contains methodid) s
  refine ⟨?_, h⟩
  unfold defaultsearchMethod
  simp only
  rw [h.world]
  rfl

/-- The forward method, which is remembered when there is one. -/
lemma lazygetForwardmethod_spec (p : Setting) (cls : ClassRef ℕ) (s : State Universe) :
    (lazygetForwardmethod (environment p cls) s).1 =
        s.cls.forwardmethod.or (freshForwardmethod p s.world cls) ∧
      Prepares p cls s (lazygetForwardmethod (environment p cls) s).2 ∧
      (lazygetForwardmethod (environment p cls) s).2.cls.forwardmethod = (lazygetForwardmethod (environment p cls) s).1 := by
  unfold lazygetForwardmethod
  cases hforward : s.cls.forwardmethod with
  | some method => exact ⟨rfl, Prepares.refl s, hforward⟩
  | none =>
    obtain ⟨hmethod, h⟩ := defaultsearchMethod_spec p cls forwardMethodid s
    rcases hsearch : defaultsearchMethod (environment p cls) forwardMethodid s with ⟨method, s'⟩
    rw [hsearch] at hmethod h
    simp only at hmethod h ⊢
    have hfresh : method.or ((environment p cls).classdefaultsForwardmethod s'.world) =
        freshForwardmethod p s.world cls := by
      rw [hmethod]
      rfl
    rw [hfresh, Option.none_or]
    refine ⟨rfl, h.trans ?_, by trivial⟩
    have hnone : s'.cls.forwardmethod = none ∨ s'.cls.forwardmethod = freshForwardmethod p s.world cls := by
      rcases h.forward with h | ⟨-, h⟩
      · exact Or.inl (h.trans hforward)
      · exact Or.inr h
    have hsame : s'.cls.forwardmethod = freshForwardmethod p s.world cls →
        Prepares p cls s' ⟨s'.world, { s'.cls with forwardmethod := freshForwardmethod p s.world cls }⟩ := by
      intro hsame
      rw [← hsame]
      exact Prepares.refl s'
    rcases hnone with hnone | hnone
    · cases hf : freshForwardmethod p s.world cls with
      | none =>
        rw [← hf]
        exact hsame (by rw [hnone, hf])
      | some forward =>
        have hf' : freshForwardmethod p s'.world cls = some forward := by rw [h.world, hf]
        exact ⟨rfl, fun key => ReflTransGen.single (Move.remembers s'.cls forward hnone hf'), fun _ _ _ hv => hv,
          fun _ => ⟨rfl, rfl⟩, fun _ henough => henough, rfl, fun hinit => hinit, Or.inr ⟨hnone, hf'.symm⟩⟩
    · exact hsame hnone

lemma getForwardmethodLazyNofail_spec (p : Setting) (cls : ClassRef ℕ) (missing : ℕ) (s : State Universe) :
    (getForwardmethodLazyNofail (environment p cls) missing s).map (fun r => r.1.implementation) =
        answer missing (s.cls.forwardmethod.or (freshForwardmethod p s.world cls)) ∧
      ∀ method s', getForwardmethodLazyNofail (environment p cls) missing s = .ok (method, s') →
        Prepares p cls s s' ∧ s'.cls.forwardmethod = some method := by
  obtain ⟨hmethod, h, hforward⟩ := lazygetForwardmethod_spec p cls s
  unfold getForwardmethodLazyNofail
  rcases hlazy : lazygetForwardmethod (environment p cls) s with ⟨_ | method, s'⟩
  · rw [hlazy] at hmethod h hforward
    rw [← hmethod]
    exact ⟨rfl, by simp⟩
  · rw [hlazy] at hmethod h hforward
    rw [← hmethod]
    refine ⟨rfl, ?_⟩
    intro _ _ heq
    cases heq
    exact ⟨h, hforward⟩

/-- What a search comes to, in a state of the class: with the forward method that is remembered, or else found. -/
def answerFor (p : Setting) (cls : ClassRef ℕ) (s : State Universe) : Key → Except Stop ℕ
  | .method methodid => answer methodid
      (found p s.world cls (s.cls.forwardmethod.or (freshForwardmethod p s.world cls)) (.method methodid))
  | .super superid =>
    match p.superids superid with
    | none => .error (.superNotFound superid)
    | some (_, methodid) => answer methodid
        (found p s.world cls (s.cls.forwardmethod.or (freshForwardmethod p s.world cls)) (.super superid))

/-- The search behind a miss. -/
def searchNofail (p : Setting) (cls : ClassRef ℕ) : Key → ℕ → State Universe → Except Stop (Method × State Universe)
  | .method _ => searchMethodNofail (environment p cls)
  | .super _ => supersearchMethodNofail (environment p cls)

@[simp] lemma found_method (u : Universe) (forward : Option Method) (methodid : ℕ) :
    found p u cls forward (.method methodid) = (Invalidation.defaultsearchMethod u.graph cls methodid).or forward := rfl

lemma found_super (u : Universe) (forward : Option Method) {superid classid methodid : ℕ}
    (h : p.superids superid = some (classid, methodid)) :
    found p u cls forward (.super superid) = (supersearchMethod u.graph cls methodid classid).or forward := by
  simp only [found, h, Option.bind_some]

/-- The method that has been found, or else the forward method. -/
lemma orForward_spec (h : Prepares p cls s s') (found : Option Method) (missing : ℕ) :
    (match found with
      | some method => .ok (method, s')
      | none => getForwardmethodLazyNofail (environment p cls) missing s' :
        Except Stop (Method × State Universe)).map (fun r => r.1.implementation) =
      answer missing (found.or (s.cls.forwardmethod.or (freshForwardmethod p s.world cls))) ∧
    ∀ method s'', (match found with
      | some method => .ok (method, s')
      | none => getForwardmethodLazyNofail (environment p cls) missing s' :
        Except Stop (Method × State Universe)) = .ok (method, s'') →
      Prepares p cls s s'' ∧ found.or s''.cls.forwardmethod = some method := by
  cases found with
  | some method =>
    refine ⟨rfl, ?_⟩
    intro _ _ heq
    cases heq
    exact ⟨h, rfl⟩
  | none =>
    obtain ⟨hvalue, hok⟩ := getForwardmethodLazyNofail_spec p cls missing s'
    rw [h.world, h.forward_or] at hvalue
    refine ⟨hvalue, ?_⟩
    intro method s'' heq
    obtain ⟨h', hforward⟩ := hok method s'' heq
    exact ⟨h.trans h', hforward⟩

/-- What a search yields, and what it does to the class. -/
lemma searchNofail_spec (p : Setting) (cls : ClassRef ℕ) (key : Key) (s : State Universe) :
    (searchNofail p cls key key.uniqueid s).map (fun r => r.1.implementation) = answerFor p cls s key ∧
      ∀ method s', searchNofail p cls key key.uniqueid s = .ok (method, s') →
        Prepares p cls s s' ∧ found p s.world cls s'.cls.forwardmethod key = some method := by
  cases key with
  | method methodid =>
    obtain ⟨hmethod, h⟩ := defaultsearchMethod_spec p cls methodid s
    have hspec := orForward_spec h (Invalidation.defaultsearchMethod s.world.graph cls methodid) methodid
    have hsearch : searchNofail p cls (.method methodid) (Key.method methodid).uniqueid s =
        (match Invalidation.defaultsearchMethod s.world.graph cls methodid with
          | some method => .ok (method, (defaultsearchMethod (environment p cls) methodid s).2)
          | none => getForwardmethodLazyNofail (environment p cls) methodid
              (defaultsearchMethod (environment p cls) methodid s).2 : Except Stop (Method × State Universe)) := by
      rw [← hmethod]
      show searchMethodNofail (environment p cls) methodid s = _
      unfold searchMethodNofail
      rcases defaultsearchMethod (environment p cls) methodid s with ⟨_ | method, s₁⟩ <;> rfl
    rw [hsearch]
    exact hspec
  | super superid =>
    have hlookup : (environment p cls).lookupSuper s.world superid = p.superids superid := rfl
    show (supersearchMethodNofail (environment p cls) superid s).map _ = _ ∧ ∀ method s',
      supersearchMethodNofail (environment p cls) superid s = .ok (method, s') → _
    cases hsuper : p.superids superid with
    | none =>
      have hfails : supersearchMethodNofail (environment p cls) superid s = .error (.superNotFound superid) := by
        simp only [supersearchMethodNofail, hlookup, hsuper]
      rw [hfails]
      refine ⟨?_, by simp⟩
      simp only [answerFor, hsuper]
      rfl
    | some ids =>
      obtain ⟨classid, methodid⟩ := ids
      obtain ⟨h, -⟩ := setupBeforeSearch_prepares p cls false s
      have hspec := orForward_spec h (supersearchMethod s.world.graph cls methodid classid) methodid
      have hsearch : supersearchMethodNofail (environment p cls) superid s =
          (match supersearchMethod s.world.graph cls methodid classid with
            | some method => .ok (method, setupBeforeSearch (environment p cls) false s)
            | none => getForwardmethodLazyNofail (environment p cls) methodid
                (setupBeforeSearch (environment p cls) false s) : Except Stop (Method × State Universe)) := by
        have hworld : (environment p cls).supersearch (setupBeforeSearch (environment p cls) false s).world methodid
            classid = supersearchMethod s.world.graph cls methodid classid :=
          congrArg (fun u => (environment p cls).supersearch u methodid classid) h.world
        unfold supersearchMethodNofail
        rw [hlookup, hsuper]
        cases hfound : supersearchMethod s.world.graph cls methodid classid with
        | none => simp only [hworld, hfound]
        | some method => simp only [hworld, hfound]
      rw [hsearch]
      simp only [answerFor, hsuper, found_super _ _ hsuper]
      exact hspec

/-! ## Calls -/

/-- A fill of a class that is set up, or being set up, does not fail. -/
lemma fillImpcacheMethod_ok (cls : ClassRef ℕ) (hs : Sound p state) (hinit : state.initializing = true)
    {uniqueid fuel : ℕ} (hid : uniqueid ≠ 0) (hfuel : Enough p fuel state) (method : Method) :
    ∃ state', fillImpcacheMethod p.toConfig fuel state method uniqueid = .ok state' := by
  have hends : fillImpcacheMethod p.toConfig fuel state method uniqueid ≠ .error .outOfFuel :=
    fill_ends (environment p cls) state hs.toInv hid (one_lt_of_enough hfuel) (Or.inl hfuel.1.le) method
  unfold fillImpcacheMethod at hends ⊢
  split
  · exact ⟨_, rfl⟩
  rename_i halways
  rw [if_neg halways] at hends
  split
  · exact ⟨_, rfl⟩
  rename_i htrace
  rw [if_neg htrace] at hends
  split
  · exact ⟨_, rfl⟩
  rename_i htao
  rw [if_neg htao] at hends
  split
  · exact ⟨state, rfl⟩
  rename_i hready
  rw [if_neg hready] at hends
  split
  · rename_i hnone
    rw [hnone] at hends
    exact absurd rfl hends
  · exact ⟨_, rfl⟩

/-- What an operation for `key` does to the class, without its fast methods. -/
def Changes (p : Setting) (cls : ClassRef ℕ) (key : Key) (s s' : State Universe) : Prop :=
  s'.world = s.world ∧ Moves p s.world cls key s.cls s'.cls

lemma Prepares.changes (h : Prepares p cls s s') (key : Key) : Changes p cls key s s' := ⟨h.world, h.moves key⟩

lemma Changes.trans (h : Changes p cls key s s') (h' : Changes p cls key s' s'') : Changes p cls key s s'' :=
  ⟨h'.1.trans h.1, h.2.trans (h.1 ▸ h'.2)⟩

lemma Moves.sound (hfits : p.Fits) {u : Universe} (hu : Implemented u cls) {state' : ClassState}
    (h : Moves p u cls key state state') (hs : Sound p state) (hf : Forwards state) :
    Sound p state' ∧ Forwards state' := by
  induction h with
  | refl => exact ⟨hs, hf⟩
  | tail _ hmove ih => exact ⟨hmove.sound hfits hu ih.2 ih.1, hmove.forwards hu ih.2⟩

lemma refreshed_changes (key : Key) {fuel imp : ℕ} (hid : key.uniqueid ≠ 0)
    (h : refreshed (environment p cls) (searchNofail p cls key) fuel key.uniqueid s = .ok (imp, s')) :
    Changes p cls key s s' := by
  unfold refreshed refreshNofail at h
  obtain ⟨⟨method, s₂⟩, h, heq⟩ := Lib.Fallible.map_eq_ok.1 h
  cases heq
  obtain ⟨⟨method', s₁⟩, hsearch, h⟩ := Lib.Fallible.bind_eq_ok.1 h
  obtain ⟨state, hfill, h⟩ := Lib.Fallible.bind_eq_ok.1 h
  cases h
  obtain ⟨hprepares, hfound⟩ := (searchNofail_spec p cls key s).2 _ _ hsearch
  refine ⟨hprepares.world, (hprepares.moves key).tail ?_⟩
  exact Move.fills _ _ method fuel hid hfound hfill

/-- What a search and a fill yield. -/
lemma refreshed_value (hfits : p.Fits) (hu : Implemented s.world cls) (hs : Sound p s.cls) (hf : Forwards s.cls)
    (hinit : s.cls.initializing = true) {fuel : ℕ} (hid : key.uniqueid ≠ 0) (hfuel : Enough p fuel s.cls) :
    (refreshed (environment p cls) (searchNofail p cls key) fuel key.uniqueid s).map Prod.fst =
      answerFor p cls s key := by
  obtain ⟨hvalue, hok⟩ := searchNofail_spec p cls key s
  unfold refreshed refreshNofail
  cases hsearch : searchNofail p cls key key.uniqueid s with
  | error stop =>
    rw [hsearch] at hvalue
    exact hvalue
  | ok r =>
    obtain ⟨method, s₁⟩ := r
    rw [hsearch] at hvalue
    rw [← hvalue]
    obtain ⟨hprepares, -⟩ := hok _ _ hsearch
    have hs₁ := (Moves.sound hfits hu (hprepares.moves key) hs hf).1
    obtain ⟨state, hfill⟩ := fillImpcacheMethod_ok cls hs₁ (hprepares.initializing hinit) hid
      (hprepares.enough fuel hfuel) method
    have hfill : fillImpcacheMethod (environment p cls).toConfig fuel s₁.cls method key.uniqueid = .ok state := hfill
    simp only [bind, Except.bind, hfill]
    rfl

/-- What a call is to get to: what is cached, else what the search comes to. -/
def value (p : Setting) (cls : ClassRef ℕ) (s : State Universe) (key : Key) : Except Stop ℕ :=
  match s.cls.cache.cached key.uniqueid with
  | some imp => .ok imp
  | none => answerFor p cls s key

lemma Prepares.answerFor_eq (h : Prepares p cls s s') (key : Key) : answerFor p cls s' key = answerFor p cls s key := by
  cases key with
  | method methodid => simp only [answerFor, h.world, h.forward_or]
  | super superid => simp only [answerFor, h.world, h.forward_or]

lemma prepared_prepares (cls : ClassRef ℕ) (hs : Sound p s.cls) : Prepares p cls s (prepared (environment p cls) s) ∧
    (prepared (environment p cls) s).cls.initializing = true := by
  unfold prepared
  split
  · cases hinit : s.cls.initializing with
    | false => exact classSetup_prepares p cls hinit
    | true =>
      have hsetup : classSetup (environment p cls) s = (true, s) := by simp [classSetup, hinit]
      rw [hsetup]
      exact ⟨Prepares.refl s, hinit⟩
  · rename_i hcallback
    exact ⟨Prepares.refl s, hs.toInv.initializing hcallback⟩

lemma prepared_cached (hs : Sound p s.cls) {k : ℕ} (hk : k ≠ 0) :
    (prepared (environment p cls) s).cls.cache.cached k = s.cls.cache.cached k := by
  by_cases hcallback : s.cls.callback = .initial
  · have hnone : s.cls.cache.cached k = none := by
      rw [hs.zero (by rw [hcallback]; simp)]
      exact zeroCache_cached k hk
    rw [hnone, Option.eq_none_iff_forall_ne_some]
    intro v hv
    have := (prepared_prepares cls hs).1.cached k hk v hv
    rw [hnone] at this
    cases this
  · unfold prepared
    rw [if_neg hcallback]

lemma selected_changes (key : Key) (hs : Sound p s.cls) {fuel imp : ℕ} (hid : key.uniqueid ≠ 0)
    (h : selected (environment p cls) (searchNofail p cls key) fuel key.uniqueid s = .ok (imp, s')) :
    Changes p cls key s s' := by
  obtain ⟨hprepares, -⟩ := prepared_prepares cls hs
  unfold selected at h
  split at h
  · cases h
    exact hprepares.changes key
  · exact (hprepares.changes key).trans (refreshed_changes key hid h)

/-- **What a call gets to.** -/
theorem selected_value (key : Key) (hfits : p.Fits) (hu : Implemented s.world cls) (hs : Sound p s.cls) (hf : Forwards s.cls)
    {fuel : ℕ} (hid : key.uniqueid ≠ 0) (hfuel : Enough p fuel s.cls) :
    (selected (environment p cls) (searchNofail p cls key) fuel key.uniqueid s).map Prod.fst = value p cls s key := by
  obtain ⟨hprepares, hinit⟩ := prepared_prepares cls hs
  unfold selected value
  rw [prepared_cached hs hid]
  cases s.cls.cache.cached key.uniqueid with
  | some imp => rfl
  | none =>
    obtain ⟨hs', hf'⟩ := Moves.sound hfits hu (hprepares.moves key) hs hf
    exact (refreshed_value hfits (by rw [hprepares.world]; exact hu) hs' hf' hinit hid
      (hprepares.enough fuel hfuel)).trans (hprepares.answerFor_eq key)

/-! ## Lookups -/

/-- The method of a lookup that the cache has not answered. -/
def lookedUp (p : Setting) (cls : ClassRef ℕ) (s : State Universe) (mode : LookupMode) (methodid : ℕ) : Option Method :=
  (Invalidation.defaultsearchMethod s.world.graph cls methodid).or
    (if mode.lazyforward then s.cls.forwardmethod.or (freshForwardmethod p s.world cls) else none)

lemma lookupImplementationUncached_spec (p : Setting) (cls : ClassRef ℕ) (fuel : ℕ) (mode : LookupMode) (methodid : ℕ) (s : State Universe) :
    ∃ s', Prepares p cls s s' ∧
      (∀ method, lookedUp p cls s mode methodid = some method →
        found p s.world cls s'.cls.forwardmethod (.method methodid) = some method) ∧
      lookupImplementationUncached (environment p cls) fuel mode methodid s =
        match lookedUp p cls s mode methodid with
        | none => if mode.nofail then .error (.methodNotFound methodid) else .ok (none, s')
        | some method =>
          if mode.nofill then .ok (some method.implementation, s')
          else (fillImpcacheMethod p.toConfig fuel s'.cls method methodid).map fun cls =>
            (some method.implementation, { s' with cls }) := by
  obtain ⟨hmethod, h⟩ := defaultsearchMethod_spec p cls methodid s
  unfold lookupImplementationUncached lookedUp
  rcases hsearch : defaultsearchMethod (environment p cls) methodid s with ⟨_ | method, s₁⟩
  · rw [hsearch] at hmethod h
    simp only at hmethod h
    rw [← hmethod]
    by_cases hlazy : mode.lazyforward = true
    · obtain ⟨hvalue, h', hforward⟩ := lazygetForwardmethod_spec p cls s₁
      rw [h.world, h.forward_or] at hvalue
      rcases hget : lazygetForwardmethod (environment p cls) s₁ with ⟨forward, s₂⟩
      rw [hget] at hvalue h' hforward
      simp only at hvalue h' hforward
      refine ⟨s₂, h.trans h', fun method hm => ?_, ?_⟩
      · rw [if_pos hlazy, Option.none_or, ← hvalue] at hm
        rw [found_method, ← hmethod, Option.none_or, hforward, hm]
      · simp only [hlazy, if_true, hget, Option.none_or, ← hvalue]
        rfl
    · refine ⟨s₁, h, fun method hm => ?_, ?_⟩
      · rw [if_neg hlazy] at hm
        cases hm
      · simp only [hlazy, Option.none_or]
        rfl
  · rw [hsearch] at hmethod h
    simp only at hmethod h
    rw [← hmethod]
    refine ⟨s₁, h, fun m hm => ?_, rfl⟩
    rw [found_method, ← hmethod, Option.some_or]
    exact hm

lemma cached_ne_zero {shift : ℕ} {cache : Cache} (h : cache.Valid shift) {k imp : ℕ} (hk : k ≠ 0)
    (hcached : cache.cached k = some imp) : imp ≠ 0 := by
  obtain ⟨e, he, rfl⟩ := Option.map_eq_some_iff.1 hcached
  have hkey : e.uniqueid = k := by simpa using List.find?_some he
  intro hvalue
  exact hk (hkey ▸ (h.keyed e (List.mem_of_find?_eq_some he)).2 hvalue)

lemma Sound.probeLoop (hs : Sound p state) {fuel k : ℕ} (hk : k ≠ 0) (hfuel : Enough p fuel state) :
    probeLoop p.shift state.cache k fuel k = some (state.cache.cached k) :=
  hs.valid.probeLoop_home hk (hs.ends k) hfuel.1.le

lemma lookupImplementationUncached_changes {fuel methodid : ℕ} {mode : LookupMode} {imp : Option ℕ} (hid : methodid ≠ 0)
    (h : lookupImplementationUncached (environment p cls) fuel mode methodid s = .ok (imp, s')) :
    Changes p cls (.method methodid) s s' := by
  obtain ⟨s₁, hprepares, hfound, heq⟩ := lookupImplementationUncached_spec p cls fuel mode methodid s
  rw [heq] at h
  split at h
  · split at h
    · cases h
    · cases h
      exact hprepares.changes _
  rename_i method hlookedUp
  split at h
  · cases h
    exact hprepares.changes _
  · obtain ⟨state, hfill, heq⟩ := Lib.Fallible.map_eq_ok.1 h
    cases heq
    exact ⟨hprepares.world, (hprepares.moves _).tail
      (Move.fills _ _ method fuel hid (hfound method hlookedUp) hfill)⟩

lemma lookupImplementationMode_changes {fuel methodid : ℕ} {mode : LookupMode} {imp : Option ℕ} (hid : methodid ≠ 0)
    (h : lookupImplementationMode (environment p cls) fuel mode methodid s = .ok (imp, s')) :
    Changes p cls (.method methodid) s s' := by
  have hrefl : Changes p cls (.method methodid) s s := (Prepares.refl s).changes _
  unfold lookupImplementationMode at h
  split at h
  · exact lookupImplementationUncached_changes hid h
  split at h
  · cases h
  · exact lookupImplementationUncached_changes hid h
  split at h
  · exact lookupImplementationUncached_changes hid h
  split at h
  · split at h
    · cases h
    · cases h
      exact hrefl
  · cases h
    exact hrefl

/-- The lookup behind a fast method that has not been called yet. -/
lemma lookupImplementationNofailNofill_spec (cls : ClassRef ℕ) (hs : Sound p s.cls) {fuel methodid : ℕ} (hid : methodid ≠ 0)
    (hfuel : Enough p fuel s.cls) :
    (∃ imp, s.cls.cache.cached methodid = some imp ∧
      lookupImplementationNofailNofill (environment p cls) fuel methodid s = .ok (some imp, s)) ∨
    (s.cls.cache.cached methodid = none ∧ ∃ s', Prepares p cls s s' ∧
      ((∃ method, found p s.world cls s'.cls.forwardmethod (.method methodid) = some method ∧
        answerFor p cls s (.method methodid) = .ok method.implementation ∧
        lookupImplementationNofailNofill (environment p cls) fuel methodid s = .ok (some method.implementation, s')) ∨
      (answerFor p cls s (.method methodid) = .error (.methodNotFound methodid) ∧
        lookupImplementationNofailNofill (environment p cls) fuel methodid s = .error (.methodNotFound methodid)))) := by
  have hprobe : probeLoop (environment p cls).shift s.cls.cache methodid fuel methodid =
      some (s.cls.cache.cached methodid) := hs.probeLoop hid hfuel
  unfold lookupImplementationNofailNofill lookupImplementationMode
  simp only [Bool.false_eq_true, if_false, hprobe, Bool.false_and]
  cases hcached : s.cls.cache.cached methodid with
  | some imp =>
    refine Or.inl ⟨imp, rfl, ?_⟩
    simp only [if_neg (cached_ne_zero hs.valid hid hcached)]
  | none =>
    obtain ⟨s', hprepares, hfound, heq⟩ := lookupImplementationUncached_spec p cls fuel
      ⟨false, false, true, true, true⟩ methodid s
    refine Or.inr ⟨rfl, s', hprepares, ?_⟩
    have hlookedUp : lookedUp p cls s ⟨false, false, true, true, true⟩ methodid =
      found p s.world cls (s.cls.forwardmethod.or (freshForwardmethod p s.world cls)) (.method methodid) := rfl
    simp only [heq, answerFor]
    rw [← hlookedUp]
    cases hmethod : lookedUp p cls s ⟨false, false, true, true, true⟩ methodid with
    | some method => exact Or.inl ⟨method, hfound method hmethod, rfl, rfl⟩
    | none => exact Or.inr ⟨rfl, rfl⟩

lemma lookupSuperimplementationNofail_changes {fuel superid imp : ℕ} (hid : superid ≠ 0)
    (h : lookupSuperimplementationNofail (environment p cls) fuel superid s = .ok (imp, s')) :
    Changes p cls (.super superid) s s' := by
  unfold lookupSuperimplementationNofail at h
  split at h
  · cases h
  · exact refreshed_changes (.super superid) hid h
  split at h
  · exact refreshed_changes (.super superid) hid h
  · cases h
    exact (Prepares.refl s).changes _

/-! ## Fast methods -/

/-- The class with a fast method in its table, unless calls are traced. -/
def withSlot (p : Setting) (index imp : ℕ) (s : State Universe) : State Universe :=
  { s with cls := { s.cls with vtab := if p.methodCall = 0 then (index, imp) :: s.cls.vtab else s.cls.vtab } }

lemma withSlot_sound {index imp : ℕ} (hs : Sound p s.cls) : Sound p (withSlot p index imp s).cls :=
  ⟨⟨hs.valid, hs.zero, hs.installed, hs.initializing, hs.ready⟩, hs.spare, hs.caching⟩

lemma withSlot_changes {methodid index imp : ℕ} (hid : methodid ≠ 0)
    (hindex : getFastmethodtableIndex (environment p cls) methodid = some index)
    (hfree : s.cls.vtab.lookup index = none)
    (himp : s.cls.cache.cached methodid = some imp ∨
      s.cls.cache.cached methodid = none ∧
        ∃ method, found p s.world cls s.cls.forwardmethod (.method methodid) = some method ∧
          method.implementation = imp) : Changes p cls (.method methodid) s (withSlot p index imp s) := by
  refine ⟨rfl, ?_⟩
  unfold withSlot
  split
  · rename_i hdebug
    exact ReflTransGen.single (Move.slots s.cls methodid index imp rfl hid hindex hfree hdebug himp)
  · exact ReflTransGen.refl

lemma call_withSlot {fuel methodid index imp : ℕ} (hs : Sound p s.cls) (hid : methodid ≠ 0)
    (hfuel : Enough p fuel s.cls) :
    call (environment p cls) (searchMethodNofail (environment p cls)) fuel methodid (withSlot p index imp s) =
      selected (environment p cls) (searchNofail p cls (.method methodid)) fuel methodid (withSlot p index imp s) := by
  have hs' : Sound p (withSlot p index imp s).cls := withSlot_sound hs
  exact call_eq (environment p cls) (searchMethodNofail_quiet _) hs'.toInv hid (hs'.ends methodid) hfuel.1

/-- A fast method that has not been called yet. -/
lemma handleFastmethodtablefault_spec (hfits : p.Fits) (hu : Implemented s.world cls) (hs : Sound p s.cls)
    (hf : Forwards s.cls) {fuel methodid index : ℕ} (hid : methodid ≠ 0) (hfuel : Enough p fuel s.cls)
    (hindex : getFastmethodtableIndex (environment p cls) methodid = some index) (hfree : s.cls.vtab.lookup index = none) :
    (handleFastmethodtablefault (environment p cls) fuel methodid index s).map Prod.fst =
        value p cls s (.method methodid) ∧
      ∀ imp s', handleFastmethodtablefault (environment p cls) fuel methodid index s = .ok (imp, s') →
        Changes p cls (.method methodid) s s' := by
  have hkey : (Key.method methodid).uniqueid = methodid := rfl
  rcases lookupImplementationNofailNofill_spec cls hs hid hfuel with
    ⟨imp, hcached, hlookup⟩ | ⟨hnone, s₁, hprepares, ⟨method, hfound, hanswer, hlookup⟩ | ⟨hanswer, hlookup⟩⟩
  · have hfault : handleFastmethodtablefault (environment p cls) fuel methodid index s =
        call (environment p cls) (searchMethodNofail (environment p cls)) fuel methodid (withSlot p index imp s) := by
      simp only [handleFastmethodtablefault, hlookup]
      rfl
    rw [hfault, call_withSlot hs hid hfuel]
    refine ⟨?_, fun imp' s' heq => ?_⟩
    · have := @selected_value p cls (withSlot p index imp s) (.method methodid) hfits hu (withSlot_sound hs) hf fuel hid hfuel
      exact this
    · exact (withSlot_changes hid hindex hfree (Or.inl hcached)).trans
        (selected_changes (.method methodid) (withSlot_sound hs) hid heq)
  · obtain ⟨hs₁, hf₁⟩ := Moves.sound hfits hu (hprepares.moves (.method methodid)) hs hf
    have hfuel₁ := hprepares.enough fuel hfuel
    have hu₁ : Implemented s₁.world cls := by
      rw [hprepares.world]
      exact hu
    have hnone₁ : s₁.cls.cache.cached methodid = none := by
      rw [Option.eq_none_iff_forall_ne_some]
      intro v hv
      have := hprepares.cached methodid hid v hv
      rw [hnone] at this
      cases this
    have hfault : handleFastmethodtablefault (environment p cls) fuel methodid index s =
        call (environment p cls) (searchMethodNofail (environment p cls)) fuel methodid
          (withSlot p index method.implementation s₁) := by
      simp only [handleFastmethodtablefault, hlookup]
      rfl
    rw [hfault, call_withSlot hs₁ hid hfuel₁]
    refine ⟨?_, fun imp' s' heq => ?_⟩
    · have hvalue := @selected_value p cls (withSlot p index method.implementation s₁) (.method methodid) hfits
        hu₁ (withSlot_sound hs₁) hf₁ fuel hid hfuel₁
      refine hvalue.trans ?_
      have hcached₁ : (withSlot p index method.implementation s₁).cls.cache.cached (Key.method methodid).uniqueid =
          none := hnone₁
      have hcached : s.cls.cache.cached (Key.method methodid).uniqueid = none := hnone
      simp only [value, hcached₁, hcached]
      exact hprepares.answerFor_eq (.method methodid)
    · have hfound₁ : found p s₁.world cls s₁.cls.forwardmethod (.method methodid) = some method := by
        rw [hprepares.world]
        exact hfound
      exact ((hprepares.changes _).trans
        (withSlot_changes hid hindex (by rw [hprepares.vtab]; exact hfree) (Or.inr ⟨hnone₁, method, hfound₁, rfl⟩))).trans
        (selected_changes (.method methodid) (withSlot_sound hs₁) hid heq)
  · have hfault : handleFastmethodtablefault (environment p cls) fuel methodid index s =
        .error (.methodNotFound methodid) := by
      simp only [handleFastmethodtablefault, hlookup]
    rw [hfault]
    refine ⟨?_, by simp⟩
    have hcached : s.cls.cache.cached (Key.method methodid).uniqueid = none := hnone
    simp only [value, hcached, hanswer]
    rfl

/-- **What a fast call gets to**: what is in the table, else what a call gets to. -/
theorem fastmethodtableInvoke_spec (hfits : p.Fits) (hu : Implemented s.world cls) (hs : Sound p s.cls)
    (hf : Forwards s.cls) {fuel methodid index : ℕ} (hid : methodid ≠ 0) (hfuel : Enough p fuel s.cls)
    (hindex : getFastmethodtableIndex (environment p cls) methodid = some index) :
    (fastmethodtableInvoke (environment p cls) fuel methodid index s).map Prod.fst =
        (match s.cls.vtab.lookup index with
          | some imp => .ok imp
          | none => value p cls s (.method methodid)) ∧
      ∀ imp s', fastmethodtableInvoke (environment p cls) fuel methodid index s = .ok (imp, s') →
        Changes p cls (.method methodid) s s' := by
  unfold fastmethodtableInvoke
  cases hfree : s.cls.vtab.lookup index with
  | some imp =>
    refine ⟨rfl, ?_⟩
    intro _ _ heq
    cases heq
    exact (Prepares.refl s).changes _
  | none => exact handleFastmethodtablefault_spec hfits hu hs hf hid hfuel hindex hfree

/-! ## The call paths -/

lemma unlessNil_object_eq_ok {W : Type} {s : State W} {selection : Selection W} {imp : Option ℕ} {s' : State W}
    (h : unlessNil .object s selection = .ok (imp, s')) : ∃ imp, selection = .ok (imp, s') := by
  obtain ⟨⟨imp', s₁⟩, hselection, heq⟩ := Lib.Fallible.map_eq_ok.1 h
  cases heq
  exact ⟨imp', hselection⟩

lemma call_changes (hfits : p.Fits) (hu : Implemented s.world cls) (hs : Sound p s.cls) (hf : Forwards s.cls)
    {path : MethodCall} {fuel methodid : ℕ} {imp : Option ℕ} (hid : methodid ≠ 0) (hfuel : Enough p fuel s.cls)
    (h : path.run (environment p cls) fuel .object methodid s = .ok (imp, s')) :
    Changes p cls (.method methodid) s s' := by
  rw [MethodCall.run_eq (environment p cls) hs.toInv hid (hs.ends methodid) hfuel.1] at h
  obtain ⟨imp', h⟩ := unlessNil_object_eq_ok h
  split at h
  · unfold preferFastmethod at h
    split at h
    · rename_i index hindex
      exact (fastmethodtableInvoke_spec hfits hu hs hf hid hfuel hindex).2 _ _ h
    · exact selected_changes (.method methodid) hs hid h
  · exact selected_changes (.method methodid) hs hid h

lemma callSuper_changes (hs : Sound p s.cls) {path : SuperCall} {fuel superid : ℕ} {imp : Option ℕ} (hid : superid ≠ 0)
    (hfuel : Enough p fuel s.cls) (h : path.run (environment p cls) fuel .object superid s = .ok (imp, s')) :
    Changes p cls (.super superid) s s' := by
  rw [SuperCall.run_eq (environment p cls) hs.toInv hid (hs.ends superid) hfuel.1] at h
  obtain ⟨imp', h⟩ := unlessNil_object_eq_ok h
  exact selected_changes (.super superid) hs hid h

end MulleObjcRuntime.Dispatch
