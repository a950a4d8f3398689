import MulleObjcRuntime.Standardimps.Walk

/-!
# When the bits are right

* `MaskedCoherent` — what holds in every state of a run without trouble;
* `step_addMethodlist` — what an addition comes to;
* `MaskedCoherent.added`, `MaskedCoherent.troubled` — an addition that is no trouble keeps the bits right, any other
  does not;
* `bitsRight_iff` — the bits are right throughout a run exactly when no addition is trouble for them.
-/

namespace MulleObjcRuntime.Standardimps

open Classes Impcache Dispatch Relation Lib.Runs

/-! ## Runs -/

section Runs

variable {p : Setting} {f : Foundation} {rt rt' : MaskedRuntime}

/-- What holds at all times: the classes are truthful, the caches are counted, and only the bit of a family with a
standard implementation, in a class that is set up, is ever set. -/
structure MaskedSteady (p : Setting) (f : Foundation) (rt : MaskedRuntime) : Prop where
  sane : Sane rt.loaded
  truthful : ∀ cls : ClassRef ℕ, cls.pair < rt.loaded.pairs.length → TruthfulCache p rt.loaded cls (rt.states cls)
  counted : ∀ cls : ClassRef ℕ, cls.pair < rt.loaded.pairs.length → (rt.states cls).callback = .normal →
    rt.cachecount ≠ 0
  settled : ∀ pair i, (rt.masks pair).getLsbD i = true → pair < rt.loaded.pairs.length ∧ f.standardimps 1 ≠ 0 ∧
    (rt.states ⟨pair, true⟩).cacheReady = true ∧ 1 ≤ i
  right : BitsRight f rt

/-- The class objects of a pair are set up together. -/
structure MaskedCoherent (p : Setting) (f : Foundation) (rt : MaskedRuntime) : Prop extends MaskedSteady p f rt where
  together : ∀ pair < rt.loaded.pairs.length,
    (rt.states ⟨pair, false⟩).initializing = (rt.states ⟨pair, true⟩).initializing

lemma coherent_start {u : Universe} (hu : Sane u) (empty : ClassRef ℕ → Bool) : MaskedCoherent p f (start u empty) := by
  refine ⟨⟨hu, fun cls _ => truthful_new p u cls _, fun cls _ hnormal => ?_, fun pair i hbit => ?_,
    fun pair _ i _ hbit => ?_⟩, fun _ _ => rfl⟩
  · cases hnormal
  · simp [start] at hbit
  · simp [start] at hbit

/-- A class that is asked for a method. -/
lemma MaskedSteady.store (h : MaskedSteady p f rt) {cls : ClassRef ℕ} {methodid : ℕ} {new : ClassState}
    (hmoves : Moves p rt.loaded cls (.method methodid) (rt.states cls) new) :
    MaskedSteady p f { rt with toRuntime := rt.store cls new } := by
  have hstates : ∀ other, (rt.store cls new).states other = if other = cls then new else rt.states other := by
    intro other
    show Function.update rt.states cls new other = _
    rw [Function.update_apply]
  refine ⟨h.sane, fun other hother => ?_, fun other hother hnormal => ?_, fun pair i hbit => ?_, h.right⟩
  · show TruthfulCache p rt.loaded other ((rt.store cls new).states other)
    rw [hstates]
    split
    · rename_i heq
      subst heq
      exact (h.truthful other hother).moves (h.sane.implemented other) hmoves
    · exact h.truthful other hother
  · change ((rt.store cls new).states other).callback = .normal at hnormal
    rw [hstates] at hnormal
    show (if (rt.states cls).callback ≠ .normal ∧ new.callback = .normal then rt.cachecount + 1 else rt.cachecount) ≠ 0
    split
    · exact Nat.succ_ne_zero _
    · rename_i hcount
      split at hnormal
      · rename_i heq
        subst heq
        exact h.counted other hother (by_contra fun hne => hcount ⟨hne, hnormal⟩)
      · exact h.counted other hother hnormal
  · obtain ⟨hpair, himp, hready, hi⟩ := h.settled pair i hbit
    refine ⟨hpair, himp, ?_, hi⟩
    show ((rt.store cls new).states ⟨pair, true⟩).cacheReady = true
    rw [hstates]
    split
    · rename_i heq
      exact (flags_moves hmoves).2 (heq ▸ hready)
    · exact hready

/-- A lookup. -/
lemma MaskedCoherent.lookup (h : MaskedCoherent p f rt) {mode : LookupMode} {cls : ClassRef ℕ} {methodid : ℕ}
    (hstep : step p f rt (.lookup mode cls methodid) = some rt') : MaskedCoherent p f rt' := by
  rw [step] at hstep
  split at hstep
  · cases hstep
  rename_i hcls
  obtain ⟨hid, hinit⟩ := not_or.1 hcls
  obtain ⟨runtime, hreturning, rfl⟩ := Option.map_eq_some_iff.1 hstep
  unfold returning at hreturning
  split at hreturning
  · obtain ⟨⟨imp, s⟩, hlookup, rfl⟩ := Option.map_eq_some_iff.1 hreturning
    have hchanges := lookupImplementationMode_changes hid (Lib.Fallible.toOption_eq_some.1 hlookup)
    have hmoves : Moves p rt.loaded cls (.method methodid) (rt.states cls) s.cls := hchanges.2
    have hflag : s.cls.initializing = (rt.states cls).initializing := by
      rw [Bool.not_eq_false] at hinit
      rw [hinit, (flags_moves hmoves).1 hinit]
    have hsame : ∀ other, ((rt.store cls s.cls).states other).initializing = (rt.states other).initializing := by
      intro other
      show (Function.update rt.states cls s.cls other).initializing = _
      by_cases hother : other = cls
      · subst hother
        rw [Function.update_self, hflag]
      · rw [Function.update_of_ne hother]
    exact ⟨h.toMaskedSteady.store hmoves, fun pair hpair => (hsame _).trans ((h.together pair hpair).trans (hsame _).symm)⟩
  · cases hreturning

/-- Both class objects of a pair. -/
lemma MaskedCoherent.storeBoth (h : MaskedCoherent p f rt) {pair methodid : ℕ} {metaclass infraclass : ClassState}
    (hmeta : Moves p rt.loaded ⟨pair, true⟩ (.method methodid) (rt.states ⟨pair, true⟩) metaclass)
    (hinfra : Moves p rt.loaded ⟨pair, false⟩ (.method methodid) (rt.states ⟨pair, false⟩) infraclass)
    (htogether : infraclass.initializing = metaclass.initializing) :
    MaskedCoherent p f { rt with toRuntime := (rt.store ⟨pair, true⟩ metaclass).store ⟨pair, false⟩ infraclass } := by
  have hfirst := h.toMaskedSteady.store hmeta
  have hother : (rt.store ⟨pair, true⟩ metaclass).states ⟨pair, false⟩ = rt.states ⟨pair, false⟩ :=
    Function.update_of_ne (by simp) _ _
  have hinfra : Moves p rt.loaded ⟨pair, false⟩ (.method methodid)
      ((rt.store ⟨pair, true⟩ metaclass).states ⟨pair, false⟩) infraclass := hother.symm ▸ hinfra
  refine ⟨hfirst.store hinfra, fun other hother' => ?_⟩
  show (Function.update (Function.update rt.states _ _) _ _ _).initializing =
    (Function.update (Function.update rt.states _ _) _ _ _).initializing
  by_cases hpair : other = pair
  · subst hpair
    rw [Function.update_self, Function.update_of_ne (by simp), Function.update_self, htogether]
  · have hne : ∀ isMeta isMeta', (⟨other, isMeta⟩ : ClassRef ℕ) ≠ ⟨pair, isMeta'⟩ := by
      intro _ _ heq
      cases heq
      exact hpair rfl
    rw [Function.update_of_ne (hne _ _), Function.update_of_ne (hne _ _), Function.update_of_ne (hne _ _),
      Function.update_of_ne (hne _ _)]
    exact h.together other hother'

lemma MaskedCoherent.beginSetup (h : MaskedCoherent p f rt) {pair : ℕ} (hstep : beginSetup rt pair = some rt') :
    MaskedCoherent p f rt' := by
  obtain ⟨metaclass, hmeta, hstep⟩ := Option.bind_eq_some_iff.1 hstep
  obtain ⟨infraclass, hinfra, hstep⟩ := Option.bind_eq_some_iff.1 hstep
  cases hstep
  obtain ⟨hinitMeta, rfl⟩ := beginInitialize_eq_some hmeta
  obtain ⟨hinitInfra, rfl⟩ := beginInitialize_eq_some hinfra
  refine @MaskedCoherent.storeBoth p f rt h pair 0 _ _ ?_ ?_ (by simp)
  · exact ReflTransGen.single (Move.begins _ hinitMeta)
  · exact ReflTransGen.single (Move.begins _ hinitInfra)

/-- **The first mask of a class** is right. -/
lemma MaskedCoherent.setMask (h : MaskedCoherent p f rt) {pair : ℕ} (hpair : pair < rt.loaded.pairs.length)
    (himp : f.standardimps 1 ≠ 0) (hready : (rt.states ⟨pair, true⟩).cacheReady = true) {bits : BitVec 16}
    (hbits : computeStandardimpmask p f rt.toRuntime pair = .ok bits) :
    MaskedCoherent p f { rt with masks := Function.update rt.masks pair bits } := by
  have hmeta := h.truthful ⟨pair, true⟩ hpair
  have hinit := initializing_of_ready hmeta.inv hready
  have hsetup : SetUp p rt.toRuntime pair := by
    rintro (_ | _)
    · exact ⟨(h.truthful ⟨pair, false⟩ hpair).inv, (h.together pair hpair).trans hinit⟩
    · exact ⟨hmeta.inv, hinit⟩
  have hbit : ∀ other i, (Function.update rt.masks pair bits other).getLsbD i = true →
      (rt.masks other).getLsbD i = true ∨ other = pair ∧ 1 ≤ i ∧
        LooksStandard f rt.loaded pair i (rt.states (f.classOf pair i)) := by
    intro other i hbit
    by_cases hother : other = pair
    · subst hother
      rw [Function.update_self] at hbit
      exact Or.inr ⟨rfl, (computeStandardimpmask_spec hsetup hbits (BitVec.lt_of_getLsbD hbit)).1 hbit⟩
    · rw [Function.update_of_ne hother] at hbit
      exact Or.inl hbit
  refine ⟨⟨h.sane, h.truthful, h.counted, fun other i hset => ?_, fun other hother i hi hset => ?_⟩, h.together⟩
  · rcases hbit other i hset with hold | ⟨rfl, hle, -⟩
    · exact h.settled other i hold
    · exact ⟨hpair, himp, hready, hle⟩
  · rcases hbit other i hset with hold | ⟨rfl, -, hlooks⟩
    · exact h.right other hother i hi hold
    · exact (h.truthful (f.classOf other i) hpair).looked_eq hlooks.2.1 hlooks.2.2

/-- A set up that ends. -/
lemma MaskedCoherent.endSetup (h : MaskedCoherent p f rt) {pair : ℕ} (hpair : pair < rt.loaded.pairs.length)
    (hstep : endSetup p f rt pair = some rt') : MaskedCoherent p f rt' := by
  obtain ⟨metaclass, hmeta, hstep⟩ := Option.bind_eq_some_iff.1 hstep
  obtain ⟨infraclass, hinfra, hstep⟩ := Option.bind_eq_some_iff.1 hstep
  obtain ⟨hcallbackMeta, rfl⟩ := endInitialize_eq_some hmeta
  obtain ⟨hcallbackInfra, rfl⟩ := endInitialize_eq_some hinfra
  have hboth := @MaskedCoherent.storeBoth p f rt h pair 0 _ _ (ReflTransGen.single (Move.ends _ hcallbackMeta))
    (ReflTransGen.single (Move.ends _ hcallbackInfra)) (by simpa using h.together pair hpair)
  simp only at hstep
  split at hstep
  · cases hstep
    exact hboth
  · rename_i hfirst
    obtain ⟨bits, hbits, hstep⟩ := Option.bind_eq_some_iff.1 hstep
    cases hstep
    refine hboth.setMask hpair (fun himp => hfirst (Or.inr himp)) ?_ (Lib.Fallible.toOption_eq_some.1 hbits)
    show (Function.update (Function.update rt.states _ _) _ _ _).cacheReady = true
    rw [Function.update_of_ne (by simp), Function.update_self]
    unfold setupInitialCacheIfNeeded
    split
    · assumption
    · rfl

/-! ## Additions -/

/-- A class is as truthful about the new lists when what it may have cached wrong has been thrown away. -/
lemma TruthfulCache.added {u : Universe} {cls other : ClassRef ℕ} {list : MethodList} {state state' : ClassState}
    (h : TruthfulCache p u cls state) (hother : other.pair < u.pairs.length)
    (hclears : Clears p list.methods state state') : TruthfulCache p (addMethodlist u other list) cls state' := by
  obtain ⟨cache, hkept⟩ := hclears.kept
  refine ⟨hclears.inv h.inv, ?_, ?_, fun k hk v hv => ?_⟩
  · rw [hkept]
    exact h.idle
  · rw [hkept]
    exact h.forwards
  · obtain ⟨hcached, hmissing⟩ := hclears.cached k hk v hv
    have hsearched : searched (addMethodlist u other list) cls k = searched u cls k := by
      unfold searched
      rw [graph_addMethodlist hother, Invalidation.defaultsearchMethod_addMethodlist u.graph other hmissing]
    have hforward : isForwardimplementation state' v = isForwardimplementation state v := by
      rw [hkept]
      rfl
    rw [hsearched, hforward]
    exact h.answers k hk v hcached

lemma pairs_length_addMethodlist (u : Universe) (cls : ClassRef ℕ) (list : MethodList) :
    (addMethodlist u cls list).pairs.length = u.pairs.length :=
  List.length_modify _ _ _

lemma MaskedCoherent.clears_of_no_walk (h : MaskedCoherent p f rt) {cls : ClassRef ℕ}
    (hcls : cls.pair < rt.loaded.pairs.length)
    {list : MethodList} (hwalk : list.methods = [] ∨ rt.cachecount = 0) :
    Clears p list.methods (rt.states cls) (rt.states cls) := by
  refine ⟨Or.inl rfl, fun k hk v hv => ⟨hv, ?_⟩⟩
  rcases hwalk with hnil | hcount
  · rw [hnil]
    simp
  · exact absurd hcount (h.counted cls hcls (normal_of_cached (h.truthful cls hcls).inv hk hv))

/-- What an addition comes to: without a walk the classes stay as they are, with one they are walked. -/
lemma step_addMethodlist {cls : ClassRef ℕ} {list : MethodList} {sane : SaneList list} (h : MaskedCoherent p f rt)
    (hstep : step p f rt (.addMethodlist cls list sane) = some rt') :
    cls.pair < rt.loaded.pairs.length ∧ rt'.loaded = addMethodlist rt.loaded cls list ∧
      rt'.cachecount = rt.cachecount ∧
      ((list.methods = [] ∨ rt.cachecount = 0) ∧ (∀ pair, rt'.view pair = rt.view pair) ∨
        (list.methods ≠ [] ∧ rt.cachecount ≠ 0) ∧
          (∀ pair < rt.loaded.pairs.length, PairWalked p f list.methods (addMethodlist rt.loaded cls list) pair
            (rt.view pair) (rt'.view pair)) ∧
          ∀ pair ≥ rt.loaded.pairs.length, rt'.view pair = rt.view pair) := by
  rw [step] at hstep
  split at hstep
  · rename_i hcls
    have hstep := Lib.Fallible.toOption_eq_some.1 hstep
    unfold didaddMethodlist at hstep
    split at hstep
    · rename_i hwalk
      cases hstep
      exact ⟨hcls, rfl, rfl, Or.inl ⟨hwalk, fun _ => rfl⟩⟩
    · rename_i hwalk
      have hok : ∀ pair < (addMethodlist rt.loaded cls list).pairs.length, (rt.view pair).Ok p := by
        intro pair hpair
        rw [pairs_length_addMethodlist] at hpair
        have hinfra := h.truthful ⟨pair, false⟩ hpair
        have hmeta := h.truthful ⟨pair, true⟩ hpair
        exact ⟨⟨hinfra.inv, hinfra.idle⟩, ⟨hmeta.inv, hmeta.idle⟩, h.together pair hpair⟩
      obtain ⟨hloaded, hcount, hwalked, hrest⟩ := walkClasses_spec sane hok hstep
      rw [pairs_length_addMethodlist] at hwalked hrest
      exact ⟨hcls, hloaded, hcount, Or.inr ⟨not_or.1 hwalk, hwalked, hrest⟩⟩
  · cases hstep

/-- The mask of a pair after an addition. -/
lemma bit_of_step {cls : ClassRef ℕ} {list : MethodList} {sane : SaneList list} (h : MaskedCoherent p f rt)
    (hstep : step p f rt (.addMethodlist cls list sane) = some rt') {pair i : ℕ}
    (hbit : (rt'.masks pair).getLsbD i = true) : (rt.masks pair).getLsbD i = true ∧
      (list.methods ≠ [] ∧ rt.cachecount ≠ 0 → LooksStandard f (addMethodlist rt.loaded cls list) pair i
        (if f.standardmetamask.getLsbD i then rt.states ⟨pair, true⟩ else rt'.states ⟨pair, false⟩)) := by
  have hi := BitVec.lt_of_getLsbD hbit
  obtain ⟨-, -, -, ⟨hwalk, hview⟩ | ⟨hwalk, hwalked, hrest⟩⟩ := step_addMethodlist h hstep
  · have hmask : rt'.masks pair = rt.masks pair := congrArg View.mask (hview pair)
    rw [hmask] at hbit
    refine ⟨hbit, fun ⟨hne, hcount⟩ => ?_⟩
    rcases hwalk with hnil | hzero
    · exact absurd hnil hne
    · exact absurd hzero hcount
  · rcases Nat.lt_or_ge pair rt.loaded.pairs.length with hpair | hpair
    · rcases (hwalked pair hpair).mask with ⟨hnone, hmask⟩ | ⟨-, -, hspec⟩
      · have hmask : rt'.masks pair = rt.masks pair := hmask
        rw [hmask] at hbit
        obtain ⟨-, himp, hready, -⟩ := h.settled pair i hbit
        rcases hnone with hnone | hnone
        · have : (rt.states ⟨pair, true⟩).cacheReady = false := hnone
          rw [hready] at this
          cases this
        · exact absurd hnone himp
      · obtain ⟨hold, -, hlooks⟩ := (hspec i hi).1 hbit
        exact ⟨hold, fun _ => hlooks⟩
    · have hmask : rt'.masks pair = rt.masks pair := congrArg View.mask (hrest pair hpair)
      rw [hmask] at hbit
      exact absurd (h.settled pair i hbit).1 (by omega)

lemma clears_of_step {cls other : ClassRef ℕ} {list : MethodList} {sane : SaneList list} (h : MaskedCoherent p f rt)
    (hstep : step p f rt (.addMethodlist cls list sane) = some rt') (hother : other.pair < rt.loaded.pairs.length) :
    Clears p list.methods (rt.states other) (rt'.states other) := by
  obtain ⟨pair, isMeta⟩ := other
  obtain ⟨-, -, -, ⟨hwalk, hview⟩ | ⟨-, hwalked, -⟩⟩ := step_addMethodlist h hstep
  · have hsame : rt'.states ⟨pair, isMeta⟩ = rt.states ⟨pair, isMeta⟩ := by
      cases isMeta
      · exact congrArg View.infraclass (hview pair)
      · exact congrArg View.metaclass (hview pair)
    rw [hsame]
    exact h.clears_of_no_walk hother hwalk
  · cases isMeta
    · exact (hwalked pair hother).infraclass
    · exact (hwalked pair hother).metaclass

/-- **An addition that is no trouble** keeps the bits right. -/
lemma MaskedCoherent.added {cls : ClassRef ℕ} {list : MethodList} {sane : SaneList list} (h : MaskedCoherent p f rt)
    (huntroubled : Untroubled f rt (.addMethodlist cls list sane))
    (hstep : step p f rt (.addMethodlist cls list sane) = some rt') : MaskedCoherent p f rt' := by
  obtain ⟨hcls, hloaded, hcount, -⟩ := step_addMethodlist h hstep
  have hlength : rt'.loaded.pairs.length = rt.loaded.pairs.length := by
    rw [hloaded, pairs_length_addMethodlist]
  have hkept : ∀ other : ClassRef ℕ, other.pair < rt.loaded.pairs.length →
      ∃ cache, rt'.states other = { rt.states other with cache } := fun other hother =>
    (clears_of_step h hstep hother).kept
  have htruthful : ∀ other : ClassRef ℕ, other.pair < rt.loaded.pairs.length →
      TruthfulCache p rt'.loaded other (rt'.states other) := by
    intro other hother
    rw [hloaded]
    exact (h.truthful other hother).added hcls (clears_of_step h hstep hother)
  refine ⟨⟨?_, fun other hother => ?_, fun other hother hnormal => ?_, fun pair i hbit => ?_,
    fun pair hpair i hi hbit => ?_⟩, fun pair hpair => ?_⟩
  · rw [hloaded]
    exact h.sane.added cls sane
  · exact htruthful other (hlength ▸ hother)
  · obtain ⟨cache, hcache⟩ := hkept other (hlength ▸ hother)
    rw [hcache] at hnormal
    rw [hcount]
    exact h.counted other (hlength ▸ hother) hnormal
  · obtain ⟨hpair, himp, hready, hle⟩ := h.settled pair i (bit_of_step h hstep hbit).1
    obtain ⟨cache, hcache⟩ := hkept ⟨pair, true⟩ hpair
    exact ⟨hlength.symm ▸ hpair, himp, by rw [hcache]; exact hready, hle⟩
  · rw [hlength] at hpair
    obtain ⟨hold, hlooks⟩ := bit_of_step h hstep hbit
    rcases huntroubled pair hpair i hi hold with hsearch | ⟨hne, hwalked, hforgotten⟩
    · rw [hloaded]
      exact hsearch
    · obtain ⟨-, hselector, hlooked⟩ := hlooks ⟨hne, hwalked⟩
      rw [← hloaded] at hlooked
      have hclass : f.classOf pair i = ⟨pair, f.standardmetamask.getLsbD i⟩ := rfl
      cases hmeta : f.standardmetamask.getLsbD i with
      | false =>
        rw [hclass, hmeta] at hlooked ⊢
        exact (htruthful ⟨pair, false⟩ hpair).looked_eq hselector hlooked
      | true =>
        -- the metaclass has been asked before its cache was thrown away
        rw [hclass, hmeta] at hlooked ⊢
        simp only [if_true, looked] at hlooked
        cases hcached : (rt.states ⟨pair, true⟩).cache.cached (f.standardselectors i) with
        | none =>
          rw [hcached] at hlooked
          exact hlooked
        | some v =>
          rw [hcached] at hlooked
          simp only at hlooked
          split at hlooked
          · cases hlooked
          · rename_i hforward
            cases hlooked
            exact absurd ⟨hmeta, hcached, by simpa using hforward⟩ hforgotten
  · rw [hlength] at hpair
    obtain ⟨cache, hcache⟩ := hkept ⟨pair, false⟩ hpair
    obtain ⟨cache', hcache'⟩ := hkept ⟨pair, true⟩ hpair
    rw [hcache, hcache']
    exact h.together pair hpair

/-- **An addition that is trouble** leaves a bit wrong. -/
lemma MaskedCoherent.troubled {cls : ClassRef ℕ} {list : MethodList} {sane : SaneList list} (h : MaskedCoherent p f rt)
    (htroubled : ¬ Untroubled f rt (.addMethodlist cls list sane))
    (hstep : step p f rt (.addMethodlist cls list sane) = some rt') : ¬ BitsRight f rt' := by
  intro hright
  apply htroubled
  intro pair hpair i hi hbit
  obtain ⟨-, hloaded, -, hview⟩ := step_addMethodlist h hstep
  by_contra hnot
  obtain ⟨hsearch, hwalk⟩ := not_or.1 hnot
  rw [← hloaded] at hsearch
  -- the bit is still set
  refine hsearch (hright pair ?_ i hi ?_)
  · rwa [hloaded, pairs_length_addMethodlist]
  rcases hview with ⟨-, hview⟩ | ⟨⟨hne, hcount⟩, hwalked, -⟩
  · have hmask : rt'.masks pair = rt.masks pair := congrArg View.mask (hview pair)
    rwa [hmask]
  · have hremembered : f.standardmetamask.getLsbD i = true ∧ Remembered f rt pair i :=
      by_contra fun hforgotten => hwalk ⟨hne, hcount, hforgotten⟩
    obtain ⟨hmeta, hcached, hforward⟩ := hremembered
    obtain ⟨-, himp, hready, hle⟩ := h.settled pair i hbit
    rcases (hwalked pair hpair).mask with ⟨hnone | hnone, -⟩ | ⟨-, -, hspec⟩
    · have : (rt.states ⟨pair, true⟩).cacheReady = false := hnone
      rw [hready] at this
      cases this
    · exact absurd hnone himp
    · obtain ⟨method, hmethod, himp⟩ := Option.map_eq_some_iff.1 (h.right pair hpair i hi hbit)
      obtain ⟨hselector, hne⟩ := h.sane.found hmethod
      rw [himp] at hne
      refine (hspec i hi).2 ⟨hbit, hle, hne, hselector, ?_⟩
      have hcached : (rt.view pair).metaclass.cache.cached (f.standardselectors i) = some (f.standardimps i) := hcached
      have hforward : isForwardimplementation (rt.view pair).metaclass (f.standardimps i) = false := hforward
      rw [if_pos hmeta, looked, hcached]
      simp only [hforward, Bool.false_eq_true, if_false]

lemma MaskedCoherent.step {op : Operation} (h : MaskedCoherent p f rt) (huntroubled : Untroubled f rt op)
    (hstep : step p f rt op = some rt') : MaskedCoherent p f rt' := by
  cases op with
  | beginSetup pair =>
    rw [Standardimps.step] at hstep
    split at hstep
    · exact h.beginSetup hstep
    · cases hstep
  | endSetup pair =>
    rw [Standardimps.step] at hstep
    split at hstep
    · rename_i hpair
      exact h.endSetup hpair hstep
    · cases hstep
  | lookup mode cls methodid => exact h.lookup hstep
  | addMethodlist cls list sane => exact h.added huntroubled hstep

end Runs

/-! ## The bits in a run -/

/-- **The bits are right throughout a run, exactly when no addition is trouble for a bit that is set**; and whatever an
addition does, it sets no bit. -/
theorem bitsRight_iff (p : Setting) (f : Foundation) {u : Universe} (hu : Sane u) (empty : ClassRef ℕ → Bool)
    {ops : List Operation} {rt' : MaskedRuntime} (hrun : run (step p f) (start u empty) ops = some rt') :
    (Throughout (step p f) (BitsRight f) (start u empty) ops ↔
      EachStep (step p f) (Untroubled f) (start u empty) ops) ∧ ∀ rt op, SetsNoBit p f rt op := by
  refine ⟨throughout_iff_eachStep hrun (coherent_start (p := p) (f := f) hu empty) ?_ ?_ ?_, setsNoBit⟩
  · exact fun rt op rt' h huntroubled hstep => h.step huntroubled hstep
  · exact fun rt h => h.right
  · intro rt op rt' h htroubled hstep
    cases op with
    | addMethodlist cls list sane => exact h.troubled htroubled hstep
    | _ => exact absurd trivial htroubled

/-- A class with `+alloc` and `-init`, and a subclass. -/
def allocUniverse : Universe where
  pairs :=
    [⟨ClassGraph.pairOf 1 none [] false ⟨0, [.single 0 ⟨101, 7, 0, 1001⟩]⟩ ⟨0, [.single 0 ⟨102, 8, 0, 1002⟩]⟩, "A", 0, []⟩,
      ⟨ClassGraph.pairOf 2 (some 0) [] false ⟨0, [.empty]⟩ ⟨0, [.empty]⟩, "B", 0, []⟩]
  fastclasses := []
  categorytable := []
  classdefaults := 0
  ordered := by decide
  distinct := by decide

/-- The standard `+alloc` is the first family, the standard `-init` the second. -/
def allocFoundation : Foundation where
  standardimps i := if i = 1 then 1002 else if i = 2 then 1001 else 0
  standardselectors i := if i = 1 then 8 else if i = 2 then 7 else 0
  standardmetamask := 0b10#16

/-- The subclass gets a method of its own for a family, when the family has been looked up. -/
def overrideAfterLookup (isMeta : Bool) (methodid : ℕ) : List Operation :=
  if h : SaneList (.single 41 ⟨103, methodid, 0, 2002⟩) then
    [.beginSetup 1, .endSetup 1, .lookup ⟨false, false, true, true, false⟩ ⟨1, isMeta⟩ methodid,
      .addMethodlist ⟨1, isMeta⟩ (.single 41 ⟨103, methodid, 0, 2002⟩) h]
  else []

/-- A category with a new `-init`: the bit is cleared. -/
theorem bitsRight_iff_sample :
    Throughout (step plainSetting allocFoundation) (BitsRight allocFoundation) (start allocUniverse fun _ => false)
      (overrideAfterLookup false 7) := by
  obtain ⟨rt', hrun⟩ := Option.isSome_iff_exists.1 (show (run (step plainSetting allocFoundation)
    (start allocUniverse fun _ => false) (overrideAfterLookup false 7)).isSome = true by decide +kernel)
  exact (bitsRight_iff plainSetting allocFoundation (by decide) _ hrun).1.2 (by decide +kernel)

/-- A category with a new `+alloc`: the metaclass still has the old one in its cache when the bits are computed, and the
bit stays set. -/
theorem metaclass_keeps_bit :
    ((run (step plainSetting allocFoundation) (start allocUniverse fun _ => false) (overrideAfterLookup true 8)).map
        fun rt => ((rt.masks 1).getLsbD 1, searched rt.loaded (allocFoundation.classOf 1 1) 8)) =
          some (true, some 2002) ∧
      allocFoundation.standardselectors 1 = 8 ∧ allocFoundation.standardimps 1 = 1002 ∧
      ¬ Throughout (step plainSetting allocFoundation) (BitsRight allocFoundation)
        (start allocUniverse fun _ => false) (overrideAfterLookup true 8) := by
  have hbit : ((run (step plainSetting allocFoundation) (start allocUniverse fun _ => false)
      (overrideAfterLookup true 8)).map
        fun rt => ((rt.masks 1).getLsbD 1, searched rt.loaded (allocFoundation.classOf 1 1) 8)) =
          some (true, some 2002) := by decide +kernel
  have hpairs : ∀ rt', run (step plainSetting allocFoundation) (start allocUniverse fun _ => false)
      (overrideAfterLookup true 8) = some rt' → 1 < rt'.loaded.pairs.length := by
    intro rt' hrun
    have hlength : (run (step plainSetting allocFoundation) (start allocUniverse fun _ => false)
        (overrideAfterLookup true 8)).map (fun rt => rt.loaded.pairs.length) = some 2 := by decide +kernel
    have hlength : rt'.loaded.pairs.length = 2 := by simpa [hrun] using hlength
    omega
  refine ⟨hbit, rfl, rfl, fun hright => ?_⟩
  obtain ⟨rt', hrun, heq⟩ := Option.map_eq_some_iff.1 hbit
  obtain ⟨hset, hsearched⟩ := Prod.ext_iff.1 heq
  have hlength : 1 < rt'.loaded.pairs.length := hpairs rt' hrun
  have hstandard : some 2002 = some 1002 := hsearched.symm.trans ((hright.last hrun) 1 hlength 1 (by decide) hset)
  cases hstandard

end MulleObjcRuntime.Standardimps
