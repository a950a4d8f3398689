import MulleObjcRuntime.Initialize.Mirror
import MulleObjcRuntime.Standardimps.Defs

/-!
# What a class has cached

* `Sane` — every method of the universe has an id and an implementation;
* `TruthfulCache` — what a class has cached is what the uncached search yields, or its forward method;
* `TruthfulCache.moves` — a class stays truthful when it is asked for methods;
* `lookup_noforwardNofill`, `TruthfulCache.looked_eq` — what the lookup for a family yields.
-/

namespace MulleObjcRuntime.Standardimps

open Classes Impcache Dispatch Relation

/-! ## Sane universes -/

/-- Every method of the universe has an id and an implementation. -/
def Sane (u : Universe) : Prop :=
  ∀ pair ∈ u.pairs, ∀ list ∈ pair.infraclass.methodlists ++ pair.metaclass.methodlists, SaneList list

instance (u : Universe) : Decidable (Sane u) := by
  unfold Sane
  infer_instance

section Universes

variable {u : Universe} {cls : ClassRef ℕ} {list : MethodList}

lemma Sane.saneList (h : Sane u) (hlist : list ∈ u.graph.methodlists cls) : SaneList list := by
  obtain ⟨i, isMeta⟩ := cls
  unfold ClassGraph.methodlists ClassGraph.toClass at hlist
  rw [Universe.graph_pair] at hlist
  by_cases hi : i < u.pairs.length
  · have hmem : u.pair i ∈ u.pairs := by
      rw [Universe.pair, List.getD_eq_getElem _ _ hi]
      exact List.getElem_mem hi
    refine h _ hmem list ?_
    cases isMeta
    · exact List.mem_append_left _ hlist
    · exact List.mem_append_right _ hlist
  · rw [Universe.pair, List.getD_eq_default _ _ (Nat.le_of_not_lt hi)] at hlist
    cases isMeta <;> cases hlist

lemma Sane.method (h : Sane u) {methodid inheritance : ℕ} {path : List (Search.Visit ℕ)}
    (hpath : ∀ v ∈ path, v ∈ Search.linearization u.graph cls inheritance) {hit : Search.Hit ℕ}
    (hpick : Search.pick (Search.hits methodid path) = some hit) :
    methodid ≠ 0 ∧ hit.method.implementation ≠ 0 := by
  have hmem : hit ∈ Search.hits methodid path := by
    rw [Search.pick_eq] at hpick
    split at hpick
    · cases hpick
    · exact List.mem_of_mem_head? hpick
  obtain ⟨v, hv, hhit⟩ := List.mem_flatMap.1 hmem
  obtain ⟨list, hlist, hsearch⟩ := List.mem_filterMap.1 hhit
  obtain ⟨m, hm, rfl⟩ := Option.map_eq_some_iff.1 hsearch
  obtain ⟨hmethod, hmethodid⟩ := MethodList.search_eq_some hm
  obtain ⟨hid, himp⟩ := h.saneList (Initialize.lists_of_mem_linearization (hpath v hv) list hlist) m hmethod
  exact ⟨hmethodid ▸ hid, himp⟩

lemma Sane.found (h : Sane u) {methodid : ℕ} {method : Method}
    (hmethod : Invalidation.defaultsearchMethod u.graph cls methodid = some method) :
    methodid ≠ 0 ∧ method.implementation ≠ 0 := by
  rw [Invalidation.defaultsearchMethod_eq] at hmethod
  obtain ⟨hit, hpick, rfl⟩ := Option.map_eq_some_iff.1 hmethod
  exact h.method (fun _ hv => hv) hpick

lemma Sane.implemented (h : Sane u) (cls : ClassRef ℕ) : Implemented u cls := by
  refine ⟨fun methodid method hmethod => (h.found hmethod).2, fun methodid classid method hmethod => ?_⟩
  unfold supersearchMethod at hmethod
  rw [(Search.searchMethod_super u.graph cls _ methodid classid).returned_eq] at hmethod
  obtain ⟨hit, hpick, rfl⟩ := Option.map_eq_some_iff.1 hmethod
  have hbehind : ∀ v ∈ Search.behindClass u.graph classid (Search.linearization u.graph cls (u.graph.inheritance cls)),
      v ∈ Search.linearization u.graph cls (u.graph.inheritance cls) :=
    fun v hv => Lib.AnchoredChain.mem_of_mem_after hv
  exact (h.method hbehind hpick).2

lemma graph_addMethodlist (hcls : cls.pair < u.pairs.length) (list : MethodList) :
    (addMethodlist u cls list).graph = Invalidation.addMethodlist u.graph cls list := by
  have hpair : (addMethodlist u cls list).graph.pair = (Invalidation.addMethodlist u.graph cls list).pair := by
    funext i
    rw [Universe.graph_pair, Invalidation.pair_addMethodlist, Universe.graph_pair, addMethodlist,
      Universe.pair_modify hcls]
    by_cases hi : i = cls.pair
    · rw [if_pos hi, if_pos hi, hi]
      rfl
    · rw [if_neg hi, if_neg hi]
  have hdepth : (addMethodlist u cls list).graph.depth = (Invalidation.addMethodlist u.graph cls list).depth := rfl
  generalize (addMethodlist u cls list).graph = g at hpair hdepth
  obtain ⟨pair, depth, _⟩ := g
  subst hpair hdepth
  rfl

lemma Sane.added (h : Sane u) (cls : ClassRef ℕ) (hlist : SaneList list) : Sane (addMethodlist u cls list) := by
  intro pair hpair
  obtain ⟨i, hi⟩ := List.mem_iff_getElem?.1 hpair
  have hi : (u.pairs.modify cls.pair (addToPair cls.isMeta list))[i]? = some pair := hi
  rw [List.getElem?_modify] at hi
  obtain ⟨old, hold, heq⟩ := Option.map_eq_some_iff.1 hi
  have hsane := h old (List.mem_of_getElem? hold)
  by_cases hcls : cls.pair = i
  · rw [if_pos hcls] at heq
    subst heq
    intro other hother
    unfold addToPair Invalidation.addToPair Invalidation.addToClass at hother
    cases hmeta : cls.isMeta <;> simp [hmeta] at hother <;> grind
  · rw [if_neg hcls] at heq
    exact heq ▸ hsane

end Universes

/-! ## One class -/

section OneClass

variable {p : Setting} {u : Universe} {cls : ClassRef ℕ} {key : Key} {state state' : ClassState}

/-- The implementation the uncached search yields. -/
def searched (u : Universe) (cls : ClassRef ℕ) (methodid : ℕ) : Option ℕ :=
  (Invalidation.defaultsearchMethod u.graph cls methodid).map Method.implementation

/-- What a class has cached is what the search yields, or the forward method when it yields nothing. -/
structure TruthfulCache (p : Setting) (u : Universe) (cls : ClassRef ℕ) (state : ClassState) : Prop where
  inv : state.Inv p.toConfig
  idle : Idle state
  forwards : Forwards state
  answers : ∀ k ≠ 0, ∀ v, state.cache.cached k = some v →
    searched u cls k = some v ∨ searched u cls k = none ∧ isForwardimplementation state v = true

lemma truthful_new (p : Setting) (u : Universe) (cls : ClassRef ℕ) (empty : Bool) :
    TruthfulCache p u cls (newClass empty) := by
  have hcached : ∀ k ≠ 0, (newClass empty).cache.cached k = none := fun k hk => zeroCache_cached k hk
  refine ⟨⟨zeroCache_valid _, fun _ => rfl, fun h => ?_, fun h => absurd rfl h, fun h => ?_⟩, fun _ => ?_, ?_, ?_⟩
  · cases h
  · cases h
  · exact (by decide : ImpcacheCallback.initial ≠ .normal)
  · intro method hmethod
    cases hmethod
  · intro k hk v hv
    rw [hcached k hk] at hv
    cases hv

lemma isForwardimplementation_move {v : ℕ} (h : Move p u cls key state state')
    (hforward : isForwardimplementation state v = true) : isForwardimplementation state' v = true := by
  rcases h.forwardmethod with heq | ⟨hnone, -⟩
  · unfold isForwardimplementation at hforward ⊢
    rwa [heq]
  · rw [isForwardimplementation, hnone] at hforward
    cases hforward

lemma idle_move (h : Move p u cls key state state') (hidle : Idle state) : Idle state' := by
  intro halways
  cases h with
  | begins hinit =>
    rw [setupInitializeCache_always] at halways
    unfold setupInitializeCache
    split
    · exact (by decide : ImpcacheCallback.empty ≠ .normal)
    · exact hidle halways
  | ends hcallback =>
    rw [setupInitialCache_always] at halways
    unfold setupInitialCacheIfNeeded setupInitialCache
    split
    · exact hidle halways
    · exact hidle halways
  | remembers => exact hidle halways
  | fills _ method fuel hid hmethod hfill =>
    obtain ⟨cache, rfl⟩ := fill_kept hfill
    exact hidle halways
  | slots => exact hidle halways

/-- **A class stays truthful** when it is asked for a method. -/
lemma TruthfulCache.move {methodid : ℕ} (hu : Implemented u cls) (h : Move p u cls (.method methodid) state state')
    (hs : TruthfulCache p u cls state) : TruthfulCache p u cls state' := by
  refine ⟨h.inv hu hs.forwards hs.inv, idle_move h hs.idle, h.forwards hu hs.forwards, fun k hk v hv => ?_⟩
  rcases h.cached hu hs.forwards hs.inv hk hv with hold | ⟨rfl, method, hfound, rfl⟩
  · rcases hs.answers k hk v hold with hsearch | ⟨hnone, hforward⟩
    · exact Or.inl hsearch
    · exact Or.inr ⟨hnone, isForwardimplementation_move h hforward⟩
  · rw [found_method] at hfound
    rcases Option.or_eq_some_iff.1 hfound with hsearch | ⟨hnone, hforward⟩
    · left
      exact congrArg (Option.map Method.implementation) hsearch
    · refine Or.inr ⟨congrArg (Option.map Method.implementation) hnone, isForwardimplementation_move h ?_⟩
      rw [isForwardimplementation, hforward]
      exact beq_self_eq_true _

lemma TruthfulCache.moves {methodid : ℕ} (hu : Implemented u cls) (h : Moves p u cls (.method methodid) state state')
    (hs : TruthfulCache p u cls state) : TruthfulCache p u cls state' := by
  induction h with
  | refl => exact hs
  | tail _ hmove ih => exact ih.move hu hmove

/-- Once a class is set up, or being set up, it stays so. -/
lemma flags_moves (h : Moves p u cls key state state') :
    (state.initializing = true → state'.initializing = true) ∧
      (state.cacheReady = true → state'.cacheReady = true) := by
  induction h with
  | refl => exact ⟨id, id⟩
  | tail _ hmove ih =>
    obtain ⟨hinit, hready⟩ := ih
    refine ⟨fun h => ?_, fun h => ?_⟩
    · have := hinit h
      cases hmove with
      | begins => simp
      | ends => simpa using this
      | remembers => exact this
      | fills _ method fuel hid hmethod hfill =>
        obtain ⟨cache, rfl⟩ := fill_kept hfill
        exact this
      | slots => exact this
    · have := hready h
      cases hmove with
      | begins =>
        unfold setupInitializeCache
        split <;> exact this
      | ends =>
        rw [setupInitialCacheIfNeeded, if_pos this]
        exact this
      | remembers => exact this
      | fills _ method fuel hid hmethod hfill =>
        obtain ⟨cache, rfl⟩ := fill_kept hfill
        exact this
      | slots => exact this

/-! ## Lookups -/

/-- What a lookup for a family yields: what is cached unless it is the forward method, else what is searched. -/
def looked (u : Universe) (cls : ClassRef ℕ) (state : ClassState) (methodid : ℕ) : Option ℕ :=
  match state.cache.cached methodid with
  | some v => if isForwardimplementation state v = true then none else some v
  | none => searched u cls methodid

lemma TruthfulCache.looked_eq (h : TruthfulCache p u cls state) {k : ℕ} (hk : k ≠ 0) {v : ℕ}
    (hlooked : looked u cls state k = some v) : searched u cls k = some v := by
  unfold looked at hlooked
  cases hcached : state.cache.cached k with
  | none => rwa [hcached] at hlooked
  | some w =>
    rw [hcached] at hlooked
    simp only at hlooked
    split at hlooked
    · cases hlooked
    · rename_i hforward
      cases hlooked
      exact (h.answers k hk _ hcached).resolve_right fun h' => hforward h'.2

variable (cls) in
/-- **The lookup for a family** on a class that is set up: it leaves the class as it is. -/
lemma lookup_noforwardNofill (h : state.Inv p.toConfig) (hinit : state.initializing = true) {fuel k : ℕ} (hk : k ≠ 0)
    {r : Option ℕ} {s' : State Universe}
    (hlookup : lookupImplementationMode (environment p cls) fuel noforwardNofill k ⟨u, state⟩ = .ok (r, s')) :
    r = looked u cls state k ∧ s' = ⟨u, state⟩ := by
  have huncached : lookupImplementationUncached (environment p cls) fuel noforwardNofill k ⟨u, state⟩ =
      .ok (searched u cls k, ⟨u, state⟩) := by
    have hsearch : defaultsearchMethod (environment p cls) k ⟨u, state⟩ =
        (Invalidation.defaultsearchMethod u.graph cls k, ⟨u, state⟩) :=
      @defaultsearchMethod_initializing _ (environment p cls) ⟨u, state⟩ hinit k
    unfold lookupImplementationUncached searched
    rw [hsearch]
    cases Invalidation.defaultsearchMethod u.graph cls k <;> rfl
  unfold lookupImplementationMode at hlookup
  have hprobe : noforwardNofill.noprobe = false := rfl
  rw [hprobe, if_neg (by simp), huncached] at hlookup
  unfold looked
  split at hlookup
  · cases hlookup
  · rename_i hloop
    rw [← probeLoop_eq_some h.valid hk hloop]
    cases hlookup
    exact ⟨rfl, rfl⟩
  · rename_i imp hloop
    have hcached := probeLoop_eq_some h.valid hk hloop
    rw [← hcached]
    rw [if_neg (cached_ne_zero h.valid hk hcached.symm)] at hlookup
    simp only
    split at hlookup
    · rename_i hforward
      cases hlookup
      rw [if_pos (by simpa [noforwardNofill] using hforward)]
      exact ⟨rfl, rfl⟩
    · rename_i hforward
      cases hlookup
      rw [if_neg (by simpa [noforwardNofill] using hforward)]
      exact ⟨rfl, rfl⟩

end OneClass

end MulleObjcRuntime.Standardimps
