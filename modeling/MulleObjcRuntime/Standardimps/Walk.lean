import MulleObjcRuntime.Standardimps.Truthful

/-!
# The bits that are computed

* `computeStandardimpmask_spec` — a bit is set when the lookup yields the standard implementation;
* `PairWalked`, `walkClasses_spec` — what the walk over the classes does to each pair;
* `setsNoBit` — an addition sets no bit.
-/

namespace MulleObjcRuntime.Standardimps

open Classes Impcache Dispatch

/-! ## The bits that are computed -/

section Compute

variable {p : Setting} {f : Foundation} {rt : Runtime} {pair i : ℕ}

/-- The lookup for a family on its class object yields its standard implementation. -/
def LooksStandard (f : Foundation) (u : Universe) (pair i : ℕ) (state : ClassState) : Prop :=
  f.standardimps i ≠ 0 ∧ f.standardselectors i ≠ 0 ∧
    looked u (f.classOf pair i) state (f.standardselectors i) = some (f.standardimps i)

/-- Both class objects of a pair are set up, or being set up. -/
def SetUp (p : Setting) (rt : Runtime) (pair : ℕ) : Prop :=
  ∀ isMeta, (rt.states ⟨pair, isMeta⟩).Inv p.toConfig ∧ (rt.states ⟨pair, isMeta⟩).initializing = true

lemma hasStandardimp_spec (h : SetUp p rt pair) {standard : Bool}
    (hstandard : hasStandardimp p f rt pair i = .ok standard) :
    standard = true ↔ LooksStandard f rt.loaded pair i (rt.states (f.classOf pair i)) := by
  unfold hasStandardimp at hstandard
  unfold LooksStandard
  split at hstandard
  · rename_i himp
    cases hstandard
    simp [himp]
  rename_i himp
  split at hstandard
  · rename_i hselector
    cases hstandard
    simp [hselector]
  rename_i hselector
  obtain ⟨⟨imp, s'⟩, hlookup, rfl⟩ := Lib.Fallible.map_eq_ok.1 hstandard
  obtain ⟨hinv, hinit⟩ := h (f.standardmetamask.getLsbD i)
  have hvalue := (lookup_noforwardNofill (f.classOf pair i) hinv hinit hselector hlookup).1
  simp only [beq_iff_eq]
  rw [hvalue]
  exact ⟨fun h => ⟨himp, hselector, h⟩, fun h => h.2.2⟩

/-- Bits are gathered for those that pass the check. -/
lemma getLsbD_gathered {check : ℕ → Except Stop Bool} {families : List ℕ} {bits bits' : BitVec 16}
    (h : families.foldlM (fun bits i => (check i).map fun standard =>
      if standard then bits ||| BitVec.twoPow 16 i else bits) bits = .ok bits') {j : ℕ} (hj : j < 16) :
    (bits'.getLsbD j = true ↔ bits.getLsbD j = true ∨ j ∈ families ∧ check j = .ok true) ∧
      (j ∈ families → ∃ standard, check j = .ok standard) := by
  induction families generalizing bits with
  | nil =>
    cases h
    simp
  | cons i families ih =>
    rw [List.foldlM_cons] at h
    obtain ⟨next, hnext, h⟩ := Lib.Fallible.bind_eq_ok.1 h
    obtain ⟨standard, hcheck, rfl⟩ := Lib.Fallible.map_eq_ok.1 hnext
    obtain ⟨hbit, hdone⟩ := ih h
    rw [hbit]
    refine ⟨?_, fun hmem => ?_⟩
    · by_cases hij : j = i
      · subst hij
        rw [hcheck]
        cases standard <;> simp [hj]
      · cases standard <;> simp [hij, Ne.symm hij]
    · rcases List.mem_cons.1 hmem with rfl | hmem
      · exact ⟨standard, hcheck⟩
      · exact hdone hmem

/-- **The bits that are computed.** -/
lemma computeStandardimpmask_spec (h : SetUp p rt pair) {bits : BitVec 16}
    (hbits : computeStandardimpmask p f rt pair = .ok bits) (hi : i < 16) :
    bits.getLsbD i = true ↔ 1 ≤ i ∧ LooksStandard f rt.loaded pair i (rt.states (f.classOf pair i)) := by
  obtain ⟨hbit, hdone⟩ := getLsbD_gathered hbits hi
  have hmem : i ∈ List.range' 1 15 ↔ 1 ≤ i := by
    rw [List.mem_range'_1]
    omega
  rw [hmem] at hbit hdone
  rw [hbit, BitVec.getLsbD_zero]
  constructor
  · rintro (h' | ⟨hle, hcheck⟩)
    · cases h'
    · exact ⟨hle, (hasStandardimp_spec h hcheck).1 rfl⟩
  · rintro ⟨hle, hlooks⟩
    obtain ⟨standard, hcheck⟩ := hdone hle
    rw [(hasStandardimp_spec h hcheck).2 hlooks] at hcheck
    exact Or.inr ⟨hle, hcheck⟩

end Compute

/-! ## The walk over the classes -/

section Walk

/-- What the walk sees of a pair. -/
structure View where
  infraclass : ClassState
  metaclass : ClassState
  mask : BitVec 16

/-- A pair as the walk comes upon it. -/
def MaskedRuntime.view (rt : MaskedRuntime) (pair : ℕ) : View :=
  ⟨rt.states ⟨pair, false⟩, rt.states ⟨pair, true⟩, rt.masks pair⟩

/-- The class objects of a pair are in order, and are set up together. -/
structure View.Ok (p : Setting) (v : View) : Prop where
  infraclass : v.infraclass.Inv p.toConfig ∧ Idle v.infraclass
  metaclass : v.metaclass.Inv p.toConfig ∧ Idle v.metaclass
  together : v.infraclass.initializing = v.metaclass.initializing

/-- What the walk does to a pair.  The bits are computed when the infraclass has been cleared, and the metaclass has
not. -/
structure PairWalked (p : Setting) (f : Foundation) (methods : List Method) (u : Universe) (pair : ℕ) (v v' : View) :
    Prop where
  infraclass : Clears p methods v.infraclass v'.infraclass
  metaclass : Clears p methods v.metaclass v'.metaclass
  mask : (v.metaclass.cacheReady = false ∨ f.standardimps 1 = 0) ∧ v'.mask = v.mask ∨
    v.metaclass.cacheReady = true ∧ f.standardimps 1 ≠ 0 ∧ ∀ i < 16, (v'.mask.getLsbD i = true ↔
      v.mask.getLsbD i = true ∧ 1 ≤ i ∧
        LooksStandard f u pair i (if f.standardmetamask.getLsbD i then v.metaclass else v'.infraclass))

variable {p : Setting} {f : Foundation} {list : MethodList} {rt rt' : MaskedRuntime} {pair : ℕ}

lemma clears_of_not_ready {state : ClassState} (h : state.Inv p.toConfig) (hready : state.cacheReady = false)
    (methods : List Method) : Clears p methods state state := by
  refine ⟨Or.inl rfl, fun k hk v hv => ?_⟩
  have := (h.installed (normal_of_cached h hk hv)).1
  rw [hready] at this
  cases this

lemma initializing_of_ready {state : ClassState} (h : state.Inv p.toConfig) (hready : state.cacheReady = true) :
    state.initializing = true := h.initializing (h.ready hready).1

lemma invalidateCachesCallback_infraclass (hlist : SaneList list) (hinv : (rt.states ⟨pair, false⟩).Inv p.toConfig)
    (hidle : Idle (rt.states ⟨pair, false⟩))
    (hcallback : invalidateCachesCallback p f list rt ⟨pair, false⟩ = .ok rt') :
    ∃ new, Clears p list.methods (rt.states ⟨pair, false⟩) new ∧
      rt' = { rt with states := Function.update rt.states ⟨pair, false⟩ new } := by
  unfold invalidateCachesCallback at hcallback
  split at hcallback
  · obtain ⟨rt₁, hmask, hcallback⟩ := Lib.Fallible.bind_eq_ok.1 hcallback
    cases hmask
    obtain ⟨new, hinvalidate, rfl⟩ := Lib.Fallible.map_eq_ok.1 hcallback
    exact ⟨new, invalidateImpcache_clears hinv hidle (fun method hm => (hlist method hm).1) hinvalidate, rfl⟩
  · rename_i hready
    cases hcallback
    refine ⟨_, clears_of_not_ready hinv (by simpa using hready) _, ?_⟩
    rw [Function.update_eq_self]

lemma invalidateCachesCallback_metaclass (hlist : SaneList list) (hinv : (rt.states ⟨pair, true⟩).Inv p.toConfig)
    (hidle : Idle (rt.states ⟨pair, true⟩))
    (hcallback : invalidateCachesCallback p f list rt ⟨pair, true⟩ = .ok rt') :
    ∃ new mask, Clears p list.methods (rt.states ⟨pair, true⟩) new ∧
      rt' = { rt with
        states := Function.update rt.states ⟨pair, true⟩ new, masks := Function.update rt.masks pair mask } ∧
      (((rt.states ⟨pair, true⟩).cacheReady = false ∨ f.standardimps 1 = 0) ∧ mask = rt.masks pair ∨
        (rt.states ⟨pair, true⟩).cacheReady = true ∧ f.standardimps 1 ≠ 0 ∧
          ∃ bits, computeStandardimpmask p f rt.toRuntime pair = .ok bits ∧ mask = rt.masks pair &&& bits) := by
  have hmethods : ∀ method ∈ list.methods, method.methodid ≠ 0 := fun method hm => (hlist method hm).1
  unfold invalidateCachesCallback at hcallback
  split at hcallback
  · rename_i hready
    obtain ⟨rt₁, hmask, hcallback⟩ := Lib.Fallible.bind_eq_ok.1 hcallback
    obtain ⟨new, hinvalidate, rfl⟩ := Lib.Fallible.map_eq_ok.1 hcallback
    have hmask : invalidateStandardimpmask p f rt pair = .ok rt₁ := hmask
    unfold invalidateStandardimpmask at hmask
    split at hmask
    · rename_i himp
      cases hmask
      refine ⟨new, _, invalidateImpcache_clears hinv hidle hmethods hinvalidate, ?_, Or.inl ⟨Or.inr himp, rfl⟩⟩
      rw [Function.update_eq_self]
    · rename_i himp
      obtain ⟨bits, hbits, rfl⟩ := Lib.Fallible.map_eq_ok.1 hmask
      exact ⟨new, _, invalidateImpcache_clears hinv hidle hmethods hinvalidate, rfl,
        Or.inr ⟨hready, himp, bits, hbits, rfl⟩⟩
  · rename_i hready
    have hready : (rt.states ⟨pair, true⟩).cacheReady = false := by simpa using hready
    cases hcallback
    refine ⟨_, _, clears_of_not_ready hinv hready _, ?_, Or.inl ⟨Or.inl hready, rfl⟩⟩
    rw [Function.update_eq_self, Function.update_eq_self]

/-- One pair of the walk. -/
lemma walkPair_spec (hlist : SaneList list) (h : (rt.view pair).Ok p)
    (hwalk : (do
      let rt ← invalidateCachesCallback p f list rt ⟨pair, false⟩
      invalidateCachesCallback p f list rt ⟨pair, true⟩ : Except Stop MaskedRuntime) = .ok rt') :
    rt'.loaded = rt.loaded ∧ rt'.cachecount = rt.cachecount ∧
      PairWalked p f list.methods rt.loaded pair (rt.view pair) (rt'.view pair) ∧
      ∀ other ≠ pair, rt'.view other = rt.view other := by
  obtain ⟨rt₁, hinfra, hmeta⟩ := Lib.Fallible.bind_eq_ok.1 hwalk
  obtain ⟨infraclass, hinfraclass, hrt₁⟩ :=
    invalidateCachesCallback_infraclass hlist h.infraclass.1 h.infraclass.2 hinfra
  have hinfra₁ : rt₁.states ⟨pair, false⟩ = infraclass := by
    rw [hrt₁]
    exact Function.update_self _ _ _
  have hmeta₁ : rt₁.states ⟨pair, true⟩ = rt.states ⟨pair, true⟩ := by
    rw [hrt₁]
    exact Function.update_of_ne (by simp) _ _
  obtain ⟨metaclass, mask, hmetaclass, hrt', hmask⟩ := invalidateCachesCallback_metaclass hlist
    (hmeta₁ ▸ h.metaclass.1) (hmeta₁ ▸ h.metaclass.2) hmeta
  have hmasks₁ : rt₁.masks = rt.masks := by rw [hrt₁]
  have hloaded₁ : rt₁.loaded = rt.loaded := by rw [hrt₁]
  rw [hmeta₁, hmasks₁] at hmask
  rw [hmeta₁] at hmetaclass
  have hview : rt'.view pair = ⟨infraclass, metaclass, mask⟩ := by
    unfold MaskedRuntime.view
    rw [hrt']
    simp only [Function.update_self]
    rw [Function.update_of_ne (by simp), hinfra₁]
  refine ⟨by rw [hrt', hrt₁], by rw [hrt', hrt₁], ?_, fun other hother => ?_⟩
  · rw [hview]
    refine ⟨hinfraclass, hmetaclass, ?_⟩
    rcases hmask with ⟨hidle, rfl⟩ | ⟨hready, himp, bits, hbits, rfl⟩
    · exact Or.inl ⟨hidle, rfl⟩
    · refine Or.inr ⟨hready, himp, fun i hi => ?_⟩
      have hsetup : SetUp p rt₁.toRuntime pair := by
        have hinit := initializing_of_ready h.metaclass.1 hready
        rintro (_ | _)
        · rw [hinfra₁]
          obtain ⟨cache, hcache⟩ := hinfraclass.kept
          exact ⟨hinfraclass.inv h.infraclass.1, by rw [hcache]; exact h.together.trans hinit⟩
        · rw [hmeta₁]
          exact ⟨h.metaclass.1, hinit⟩
      have hstate : rt₁.states (f.classOf pair i) =
          if f.standardmetamask.getLsbD i then rt.states ⟨pair, true⟩ else infraclass := by
        unfold Foundation.classOf
        cases f.standardmetamask.getLsbD i
        · exact hinfra₁
        · exact hmeta₁
      have hspec := computeStandardimpmask_spec hsetup hbits hi
      rw [hstate, hloaded₁] at hspec
      rw [BitVec.getLsbD_and, Bool.and_eq_true, hspec]
      rfl
  · have hne : ∀ isMeta isMeta', (⟨other, isMeta⟩ : ClassRef ℕ) ≠ ⟨pair, isMeta'⟩ := by
      intro _ _ heq
      cases heq
      exact hother rfl
    unfold MaskedRuntime.view
    rw [hrt', hrt₁]
    simp only [ne_eq, hne, not_false_eq_true, hother, Function.update_of_ne]

/-- **The walk** does to every pair what it does to one. -/
lemma walkClasses_spec (hlist : SaneList list) (h : ∀ pair < rt.loaded.pairs.length, (rt.view pair).Ok p)
    (hwalk : walkClasses p f list rt = .ok rt') :
    rt'.loaded = rt.loaded ∧ rt'.cachecount = rt.cachecount ∧
      (∀ pair < rt.loaded.pairs.length, PairWalked p f list.methods rt.loaded pair (rt.view pair) (rt'.view pair)) ∧
      ∀ pair ≥ rt.loaded.pairs.length, rt'.view pair = rt.view pair := by
  unfold walkClasses at hwalk
  generalize rt.loaded.pairs.length = n at h hwalk ⊢
  induction n generalizing rt' with
  | zero =>
    cases hwalk
    exact ⟨rfl, rfl, fun pair hpair => absurd hpair (Nat.not_lt_zero pair), fun _ _ => rfl⟩
  | succ n ih =>
    rw [List.range_succ, Lib.Fallible.foldlM_concat_eq_ok] at hwalk
    obtain ⟨rt₁, hfirst, hlast⟩ := hwalk
    obtain ⟨hloaded, hcount, hwalked, hrest⟩ := ih (fun pair hlt => h pair (Nat.lt_succ_of_lt hlt)) hfirst
    have hview := hrest n le_rfl
    obtain ⟨hloaded', hcount', hpair, hothers⟩ := walkPair_spec hlist (hview ▸ h n (Nat.lt_succ_self n)) hlast
    rw [hview, hloaded] at hpair
    refine ⟨hloaded'.trans hloaded, hcount'.trans hcount, fun pair hlt => ?_, fun pair hge => ?_⟩
    · rcases Nat.lt_succ_iff_lt_or_eq.1 hlt with hlt | rfl
      · rw [hothers pair (by omega)]
        exact hwalked pair hlt
      · exact hpair
    · rw [hothers pair (by omega)]
      exact hrest pair (by omega)

end Walk

/-! ## Bits that are cleared -/

section Cleared

variable {p : Setting} {f : Foundation} {list : MethodList} {rt rt' : MaskedRuntime}

/-- No bit is set that was not set before. -/
def Narrows (rt rt' : MaskedRuntime) : Prop :=
  ∀ pair i, (rt'.masks pair).getLsbD i = true → (rt.masks pair).getLsbD i = true

lemma Narrows.trans {rt₁ : MaskedRuntime} (h : Narrows rt rt₁) (h' : Narrows rt₁ rt') : Narrows rt rt' :=
  fun pair i hbit => h pair i (h' pair i hbit)

lemma invalidateStandardimpmask_narrows {pair : ℕ} (h : invalidateStandardimpmask p f rt pair = .ok rt') :
    Narrows rt rt' := by
  unfold invalidateStandardimpmask at h
  split at h
  · cases h
    exact fun _ _ hbit => hbit
  · obtain ⟨bits, -, rfl⟩ := Lib.Fallible.map_eq_ok.1 h
    intro other i hbit
    by_cases hother : other = pair
    · subst hother
      simp only [Function.update_self, BitVec.getLsbD_and, Bool.and_eq_true] at hbit
      exact hbit.1
    · simp only [Function.update_of_ne hother] at hbit
      exact hbit

lemma invalidateCachesCallback_narrows {cls : ClassRef ℕ} (h : invalidateCachesCallback p f list rt cls = .ok rt') :
    Narrows rt rt' := by
  unfold invalidateCachesCallback invalidateCachesDefault at h
  split at h
  · obtain ⟨rt₁, hmask, h⟩ := Lib.Fallible.bind_eq_ok.1 h
    obtain ⟨new, -, rfl⟩ := Lib.Fallible.map_eq_ok.1 h
    split at hmask
    · have hnarrows := invalidateStandardimpmask_narrows hmask
      exact hnarrows
    · cases hmask
      exact fun _ _ hbit => hbit
  · cases h
    exact fun _ _ hbit => hbit

lemma didaddMethodlist_narrows (h : didaddMethodlist p f rt list = .ok rt') : Narrows rt rt' := by
  unfold didaddMethodlist at h
  split at h
  · cases h
    exact fun _ _ hbit => hbit
  · unfold walkClasses at h
    refine Lib.Fallible.foldlM_invariant (P := fun _ t => Narrows rt t) h (fun _ _ hbit => hbit) ?_
    intro _ pair t t' _ ht hpair
    obtain ⟨t₁, hinfra, hmeta⟩ := Lib.Fallible.bind_eq_ok.1 hpair
    exact (ht.trans (invalidateCachesCallback_narrows hinfra)).trans (invalidateCachesCallback_narrows hmeta)

/-- **An addition sets no bit**, whatever it does. -/
lemma setsNoBit (rt : MaskedRuntime) (op : Operation) : SetsNoBit p f rt op := by
  cases op with
  | addMethodlist cls list sane =>
    intro rt' hstep
    rw [step] at hstep
    split at hstep
    · have hnarrows := didaddMethodlist_narrows (Lib.Fallible.toOption_eq_some.1 hstep)
      exact hnarrows
    · cases hstep
  | _ => trivial

end Cleared

end MulleObjcRuntime.Standardimps
