import MulleObjcRuntime.Search.Overridden

/-!
# Chains of overridden calls

An implementation that calls the one it overrides searches for it with its own class id and category id.  From the
receiver's class object this gives a chain of implementations.

* `nthOverridden` — the chain: a default search, then an overridden search for the ids of the last result;
* `goesOn` — the ids from which the search can go on;
* `nthOverriddenWith_eq_chain` — the chain restarts behind an anchor, with the lists along the linearization as entries;
* `nthOverridden_injective_iff` — when no implementation comes up twice.
-/

namespace MulleObjcRuntime.Search

open Classes Lib.AnchoredChain

variable {P : Type} [DecidableEq P]

/-- The chain of overridden calls for a receiver of class `cls`. -/
def nthOverridden (g : ClassGraph P) (cls : ClassRef P) (methodid : ℕ) : ℕ → Option (Hit P)
  | 0 => returned (searchMethod g [] cls (.makeDefault methodid) (g.inheritance cls))
  | n + 1 => (nthOverridden g cls methodid n).bind fun h =>
      returned (searchMethod g [] cls (.makeOverridden methodid (h.ids g).1 (h.ids g).2) (g.inheritance cls))

omit [DecidableEq P] in
/-- The overridden search from the given ids is not cut off: they are anchored, and no match is shadowed although
it must not be. -/
def goesOn (g : ClassGraph P) (methodid : ℕ) (path : List (Visit P)) (ids : ℕ × ℕ) : Bool :=
  anchored g ids path && !decide (Blocked (overridden g methodid ids path))

/-- The chain of overridden searches with some inheritance. -/
def nthOverriddenWith (g : ClassGraph P) (cls : ClassRef P) (methodid inheritance : ℕ) : ℕ → Option (Hit P)
  | 0 => returned (searchMethod g [] cls (.makeDefault methodid) inheritance)
  | n + 1 => (nthOverriddenWith g cls methodid inheritance n).bind fun h =>
      returned (searchMethod g [] cls (.makeOverridden methodid (h.ids g).1 (h.ids g).2) inheritance)

/-- The chain is one that restarts behind the first list with the ids of the last result. -/
theorem nthOverriddenWith_eq_chain (g : ClassGraph P) (cls : ClassRef P) (methodid inheritance n : ℕ) :
    nthOverriddenWith g cls methodid inheritance n =
      chain (Entry.ids g) (Entry.hit methodid) (Hit.ids g) (goesOn g methodid (linearization g cls inheritance))
        (!decide (Blocked (hits methodid (linearization g cls inheritance))))
        (entries (linearization g cls inheritance)) n := by
  induction n with
  | zero =>
    rw [nthOverriddenWith, (searchMethod_default g cls methodid inheritance).1.returned_eq, pick_eq, chain,
      ← hits_eq_entries]
    by_cases hb : Blocked (hits methodid (linearization g cls inheritance))
    · simp [hb]
    · simp only [hb, if_false, decide_false, Bool.not_false, if_true]
  | succ n ih =>
    rw [nthOverriddenWith, chain, ih]
    congr 1
    funext h
    rw [(searchMethod_overridden g cls inheritance methodid (h.ids g)).returned_eq, pick_eq]
    unfold goesOn
    by_cases ha : anchored g (h.ids g) (linearization g cls inheritance) = true
    · by_cases hb : Blocked (overridden g methodid (h.ids g) (linearization g cls inheritance))
      · simp [ha, hb]
      · simp only [ha, hb, if_false, decide_false, Bool.not_false, Bool.and_true, if_true]
        rfl
    · simp [ha]

lemma nthOverridden_eq_with (g : ClassGraph P) (cls : ClassRef P) (methodid n : ℕ) :
    nthOverridden g cls methodid n = nthOverriddenWith g cls methodid (g.inheritance cls) n := by
  induction n with
  | zero => rfl
  | succ n ih => rw [nthOverridden, nthOverriddenWith, ih]

/-- The chain of overridden calls, in the same way. -/
theorem nthOverridden_eq_chain (g : ClassGraph P) (cls : ClassRef P) (methodid n : ℕ) :
    nthOverridden g cls methodid n =
      chain (Entry.ids g) (Entry.hit methodid) (Hit.ids g) (goesOn g methodid (ownLinearization g cls))
        (!decide (Blocked (hits methodid (ownLinearization g cls)))) (entries (ownLinearization g cls)) n :=
  (nthOverridden_eq_with g cls methodid n).trans (nthOverriddenWith_eq_chain g cls methodid (g.inheritance cls) n)

/-- **No implementation comes up twice in a chain of overridden calls, and the chain ends**, exactly when it does
not start, or no match it gets to has a match with other ids between the first list with its own ids and
itself. -/
theorem nthOverridden_injective_iff (g : ClassGraph P) (cls : ClassRef P) (methodid : ℕ) :
    ((∀ i j h, nthOverridden g cls methodid i = some h → nthOverridden g cls methodid j = some h → i = j) ∧
      ∃ n, nthOverridden g cls methodid n = none) ↔
    (¬ Blocked (hits methodid (ownLinearization g cls)) →
      Progressing (Entry.ids g) (Entry.hit methodid) (goesOn g methodid (ownLinearization g cls))
        (entries (ownLinearization g cls))) := by
  have hids : ∀ (e : Entry P) h, Entry.hit methodid e = some h → Hit.ids g h = Entry.ids g e :=
    fun e h he => Entry.hit_ids he
  have h := chain_injective_iff hids
    (goesOn g methodid (ownLinearization g cls)) (!decide (Blocked (hits methodid (ownLinearization g cls))))
    (entries (ownLinearization g cls))
  simp only [← nthOverridden_eq_chain] at h
  rw [h]
  simp

/-- A class `2` and its superclass `1`, which both adopt the mixin `3`.  The mixin and the superclass have the
method `7`. -/
def sharedMixinGraph : ClassGraph ℕ :=
  ClassGraph.ofList
    [ClassGraph.pairOf 3 none [] true ⟨0, [.single 0 ⟨103, 7, 0, 1003⟩]⟩ ⟨0, [.empty]⟩,
      ClassGraph.pairOf 1 none [0] false ⟨0, [.single 0 ⟨101, 7, 0, 1001⟩]⟩ ⟨0, [.empty]⟩,
      ClassGraph.pairOf 2 (some 1) [0] false ⟨0, [.empty]⟩ ⟨0, [.empty]⟩]

/-- The mixin overrides the superclass, which overrides the mixin. -/
theorem overridden_calls_in_a_circle :
    ¬ ∀ i j h, nthOverridden sharedMixinGraph ⟨2, false⟩ 7 i = some h →
      nthOverridden sharedMixinGraph ⟨2, false⟩ 7 j = some h → i = j := by
  intro h
  have := h 0 2 ⟨⟨0, false⟩, .single 0 ⟨103, 7, 0, 1003⟩, ⟨103, 7, 0, 1003⟩⟩ (by decide) (by decide)
  omega

end MulleObjcRuntime.Search
