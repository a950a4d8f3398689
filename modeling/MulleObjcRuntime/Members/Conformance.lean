import MulleObjcRuntime.Members.Search
import MulleObjcRuntime.Uniqueids.Membership

/-!
# Conformance to protocols

The class pairs of a universe get categories and lists of protocols.  A class conforms to its protocols and to those of its
superclasses, as far as it inherits from them.

* `Pairs` — the class pairs with their arrays of ids, and `Pairs.add`, an addition to one of them;
* `conformsto`, `conformstoProtocolid` — the test for a protocol;
* `Inherits` — from which classes a class inherits protocols: each one on the way up has its say;
* `conformsto_run` — after any run of additions, the test tells what was added to these classes, while the walk over
  protocols comes to classes that are cut off.
-/

namespace MulleObjcRuntime.Members

open Classes Hashmap Lib.Runs Lib.Walking Properties Uniqueids

/-- The class pairs of a universe and its `protocoltable`. -/
structure Pairs (P : Type) where
  pair : P → Uniqueids.Pair
  protocoltable : ℕ → Option (List Char)

namespace Pairs

variable {P : Type}

/-- No pair has got anything. -/
def start : Pairs P := ⟨fun _ => .plusinit, fun _ => none⟩

/-- A class pair gets a category or a list of protocols, `none` where the runtime fails. -/
def add [DecidableEq P] (ndebug : Bool) (u : Pairs P) (a : P × Addition) : Option (Pairs P) :=
  (addition ndebug { u.pair a.1 with protocoltable := u.protocoltable } a.2).map fun s =>
    ⟨Function.update u.pair a.1 s, s.protocoltable⟩

/-- The ids that the walks hand out. -/
def members (u : Pairs P) : ClassMembers P where
  ivarlists _ := []
  propertylists _ := []
  protocolids c := (u.pair c).ids .protocolids
  categoryids c := (u.pair c).ids .categoryids

end Pairs

section Conforms

variable {P : Type} (g : ClassGraph P)

/-- `_mulle_objc_infraclass_get_inheritance` -/
def infraInheritance (infra : P) : ℕ := (g.pair infra).infraclass.inheritance

/-- `__mulle_objc_classpair_conformsto_protocolid` over the test for the protocols of a pair itself, `none` also where that
test overflows.  A superclass is asked with its own inheritance, by `_mulle_objc_classpair_conformsto_protocolid`. -/
def conformsto (hasProtocolid : P → Except Fault Bool) : ℕ → ℕ → P → Option Bool
  | 0, _, _ => none
  | frames + 1, inheritance, pair =>
    match hasProtocolid pair with
    | .error _ => none
    | .ok true => some true
    | .ok false =>
      if has inheritance dontInheritSuperclass then some false
      else
        match (g.pair pair).superclass with
        | none => some false
        | some superclass => conformsto hasProtocolid frames (infraInheritance g superclass) superclass

/-- `__mulle_objc_classpair_conformsto_protocolid` -/
def conformstoProtocolid (u : Pairs P) (protocolid frames inheritance : ℕ) (pair : P) : Option Bool :=
  conformsto g (fun pair => (u.pair pair).hasProtocolid protocolid) frames inheritance pair

/-- A class inherits protocols from itself and, unless its inheritance is against it, from what its superclass inherits
from. -/
inductive Inherits : ℕ → P → P → Prop
  | own (inheritance : ℕ) (c : P) : Inherits inheritance c c
  | superclass {inheritance : ℕ} {c superclass d : P} (hflag : has inheritance dontInheritSuperclass = false)
      (hsuper : (g.pair c).superclass = some superclass)
      (h : Inherits (infraInheritance g superclass) superclass d) : Inherits inheritance c d

/-- The protocol was added to the class. -/
def Added (additions : List (P × Addition)) (c : P) (protocolid : ℕ) : Prop :=
  ∃ a ∈ additions, a.1 = c ∧ protocolid ∈ a.2.ids .protocolids

end Conforms

/-- The ids that were added to a class for one of its arrays. -/
def addedIds {P : Type} [DecidableEq P] (additions : List (P × Addition)) (c : P) (p : Pointer) : List ℕ :=
  additions.flatMap fun a => if a.1 = c then a.2.ids p else []

variable {P : Type} {g : ClassGraph P} {u u' : Pairs P} {c pair : P} {inheritance protocolid frames : ℕ}

/-! ## The test -/

lemma inherits_iff : Inherits g inheritance pair c ↔ c = pair ∨ has inheritance dontInheritSuperclass = false ∧
    ∃ superclass, (g.pair pair).superclass = some superclass ∧
      Inherits g (infraInheritance g superclass) superclass c := by
  constructor
  · intro h
    cases h with
    | own => exact Or.inl rfl
    | superclass hflag hsuper h => exact Or.inr ⟨hflag, _, hsuper, h⟩
  · rintro (rfl | ⟨hflag, superclass, hsuper, h⟩)
    · exact .own _ _
    · exact .superclass hflag hsuper h

/-- **The test returns**, and it tells if one of the classes has the protocol, where the searches tell what the classes
have. -/
lemma conformsto_spec {hasProtocolid : P → Except Fault Bool} {ids : P → List ℕ}
    (hhas : ∀ c, hasProtocolid c = .ok (decide (protocolid ∈ ids c))) (inheritance : ℕ)
    (hframes : g.depth pair < frames) :
    ∃ b, conformsto g hasProtocolid frames inheritance pair = some b ∧
      (b = true ↔ ∃ c, Inherits g inheritance pair c ∧ protocolid ∈ ids c) := by
  induction frames generalizing pair inheritance with
  | zero => omega
  | succ frames ih =>
    rw [conformsto, hhas]
    by_cases hown : protocolid ∈ ids pair
    · rw [decide_eq_true hown]
      exact ⟨true, rfl, iff_of_true rfl ⟨pair, .own _ _, hown⟩⟩
    · rw [decide_eq_false hown]
      -- without the pair itself, it is the superclass that decides
      have hother : ∀ c, Inherits g inheritance pair c → protocolid ∈ ids c →
          has inheritance dontInheritSuperclass = false ∧ ∃ superclass, (g.pair pair).superclass = some superclass ∧
            Inherits g (infraInheritance g superclass) superclass c := by
        intro c hc hhas
        rcases inherits_iff.mp hc with rfl | hc
        · exact absurd hhas hown
        · exact hc
      simp only
      split
      · rename_i hflag
        refine ⟨false, rfl, iff_of_false Bool.false_ne_true ?_⟩
        rintro ⟨c, hc, hhas⟩
        have := (hother c hc hhas).1
        rw [hflag] at this
        cases this
      · rename_i hflag
        cases hs : (g.pair pair).superclass with
        | none =>
          refine ⟨false, rfl, iff_of_false Bool.false_ne_true ?_⟩
          rintro ⟨c, hc, hhas⟩
          obtain ⟨-, superclass, hsuper, -⟩ := hother c hc hhas
          rw [hs] at hsuper
          cases hsuper
        | some superclass =>
          have hdepth := g.depth_superclass pair superclass hs
          obtain ⟨b, hb, hiff⟩ := ih (infraInheritance g superclass) (by omega : g.depth superclass < frames)
          refine ⟨b, hb, hiff.trans ⟨?_, ?_⟩⟩
          · rintro ⟨c, hc, hhas⟩
            exact ⟨c, .superclass (by simpa using hflag) hs hc, hhas⟩
          · rintro ⟨c, hc, hhas⟩
            obtain ⟨-, superclass', hsuper, hc⟩ := hother c hc hhas
            rw [hs] at hsuper
            cases hsuper
            exact ⟨c, hc, hhas⟩

/-! ## The walk -/

lemma depth_le_of_mem_lineage (h : c ∈ lineage g pair) : g.depth c ≤ g.depth pair := by
  induction hn : g.depth pair using Nat.strongRecOn generalizing pair with
  | _ n ih =>
    cases hs : (g.pair pair).superclass with
    | none =>
      rw [lineage_root hs, List.mem_singleton] at h
      rw [h, hn]
    | some superclass =>
      have hdepth := g.depth_superclass pair superclass hs
      rw [lineage_superclass hs] at h
      rcases List.mem_cons.mp h with rfl | h
      · exact hn.le
      · have := ih _ (hn ▸ hdepth) h rfl
        omega

lemma self_mem_lineage (c : P) : c ∈ lineage g c := by
  cases hs : (g.pair c).superclass with
  | none => simp [lineage_root hs]
  | some superclass => simp [lineage_superclass hs]

lemma Inherits.mem_lineage (h : Inherits g inheritance pair c) : c ∈ lineage g pair := by
  induction h with
  | own inheritance c => exact self_mem_lineage c
  | superclass hflag hsuper _ ih =>
    rw [lineage_superclass hsuper]
    exact List.mem_cons_of_mem _ ih

lemma Inherits.mem_reach (h : Inherits g inheritance pair c) : c ∈ reach g inheritance pair := by
  unfold reach
  rcases inherits_iff.mp h with rfl | ⟨hflag, -⟩
  · split
    · exact List.mem_singleton_self _
    · exact self_mem_lineage c
  · rw [if_neg (by simp [hflag])]
    exact h.mem_lineage

/-- The walk comes to no others, unless a class on the way up does not inherit from its superclass. -/
lemma inherits_of_mem_reach (hflags : ∀ d ∈ lineage g pair, d ≠ pair →
    has (infraInheritance g d) dontInheritSuperclass = false) (h : c ∈ reach g inheritance pair) :
    Inherits g inheritance pair c := by
  induction hn : g.depth pair using Nat.strongRecOn generalizing pair inheritance with
  | _ n ih =>
    unfold reach at h
    split at h
    · rw [List.mem_singleton.mp h]
      exact .own _ _
    · rename_i hflag
      cases hs : (g.pair pair).superclass with
      | none =>
        rw [lineage_root hs, List.mem_singleton] at h
        rw [h]
        exact .own _ _
      | some superclass =>
        have hdepth := g.depth_superclass pair superclass hs
        rw [lineage_superclass hs] at h hflags
        rcases List.mem_cons.mp h with rfl | h
        · exact .own _ _
        · have hne : ∀ d ∈ lineage g superclass, d ≠ pair := by
            rintro d hd rfl
            have := depth_le_of_mem_lineage hd
            omega
          have hself := self_mem_lineage (g := g) superclass
          have hflag' := hflags superclass (List.mem_cons_of_mem _ hself) (hne _ hself)
          refine .superclass (by simpa using hflag) hs (ih _ (hn ▸ hdepth) ?_ ?_ rfl)
          · intro d hd _
            exact hflags d (List.mem_cons_of_mem _ hd) (hne d hd)
          · rwa [reach, if_neg (by simp [hflag'])]

/-- The walk with the callback that looks for a protocol. -/
lemma walkProtocolids_spec (m : ClassMembers P) (protocolid inheritance : ℕ) (hframes : g.depth pair < frames) :
    ∃ walked, walkProtocolids g m inheritance (finds (fun p => p) protocolid) frames pair none = some walked ∧
      (walked.state = some protocolid ↔ ∃ c ∈ reach g inheritance pair, protocolid ∈ m.protocolids c) := by
  refine ⟨_, walkSuperclasses_eq _ true hframes none, ?_⟩
  rw [walk_finds, Walked.ends, Option.map_eq_some_iff]
  constructor
  · rintro ⟨a, ha, hid⟩
    obtain ⟨c, hc, hmem⟩ := List.mem_flatMap.mp (List.mem_of_find?_eq_some ha)
    obtain ⟨p, hp, rfl⟩ := List.mem_map.mp hmem
    exact ⟨c, hc, hid ▸ hp⟩
  · rintro ⟨c, hc, hid⟩
    have hmem : (protocolid, c) ∈ handedOut g m.protocolids inheritance pair :=
      List.mem_flatMap.mpr ⟨c, hc, List.mem_map_of_mem hid⟩
    cases hfind : (handedOut g m.protocolids inheritance pair).find? fun a => a.1 == protocolid with
    | none =>
      have hnone := List.find?_eq_none.mp hfind _ hmem
      simp at hnone
    | some a => exact ⟨a, rfl, by simpa using List.find?_some hfind⟩

/-! ## Runs -/

variable [DecidableEq P] {ndebug : Bool} {additions more : List (P × Addition)} {a : P × Addition}

lemma mem_addedIds {p : Pointer} {uniqueid : ℕ} :
    uniqueid ∈ addedIds additions c p ↔ ∃ a ∈ additions, a.1 = c ∧ uniqueid ∈ a.2.ids p := by
  simp only [addedIds, List.mem_flatMap, List.mem_ite_nil_right]

lemma addedIds_append (p : Pointer) : addedIds (additions ++ more) c p = addedIds additions c p ++ addedIds more c p :=
  List.flatMap_append

/-- The arrays of all class pairs are in order, and have what was added. -/
structure AdditionsAccounted (additions : List (P × Addition)) (u : Pairs P) : Prop where
  ordered : ∀ c, Ordered (u.pair c)
  ids : ∀ c p uniqueid, uniqueid ∈ (u.pair c).ids p ↔ uniqueid ∈ addedIds additions c p

lemma accounts_start : AdditionsAccounted [] (Pairs.start : Pairs P) :=
  ⟨fun _ => ordered_plusinit, fun _ _ _ => iff_of_false List.not_mem_nil List.not_mem_nil⟩

lemma AdditionsAccounted.length_le (h : AdditionsAccounted additions u) (hfew : ∀ c p, Few (addedIds additions c p))
    (c : P) (p : Pointer) :
    ((u.pair c).ids p).length ≤ 2 ^ 30 :=
  ((h.ordered c).ascending p).few_iff.mp ((hfew c p).of_subset fun uniqueid => (h.ids c p uniqueid).mp)

/-- **The step lemma.** -/
lemma AdditionsAccounted.add (h : AdditionsAccounted additions u) (hfew : ∀ c p, Few (addedIds additions c p))
    (ha : ndebug = true → a.2.InOrder) (hstep : u.add ndebug a = some u') :
    AdditionsAccounted (additions ++ [a]) u' := by
  obtain ⟨s, hs, rfl⟩ := Option.map_eq_some_iff.mp hstep
  have hold : Ordered { u.pair a.1 with protocoltable := u.protocoltable } := ⟨(h.ordered a.1).bounded, (h.ordered a.1).ascending⟩
  obtain ⟨hordered, hids⟩ := hold.addition (h.length_le hfew a.1) ha hs
  have hadded : ∀ c p uniqueid, uniqueid ∈ addedIds (additions ++ [a]) c p ↔
      uniqueid ∈ addedIds additions c p ∨ a.1 = c ∧ uniqueid ∈ a.2.ids p := by
    intro c p uniqueid
    simp only [mem_addedIds, List.mem_append, List.mem_singleton, or_and_right, exists_or, exists_eq_left]
  refine ⟨fun c => ?_, fun c p uniqueid => ?_⟩
  · by_cases hc : c = a.1
    · subst hc
      simpa using hordered
    · simpa [hc] using h.ordered c
  · rw [hadded]
    by_cases hc : c = a.1
    · subst hc
      simp only [Function.update_self, true_and]
      rw [hids, ← h.ids]
      rfl
    · have hne : ¬ a.1 = c := fun h => hc h.symm
      simp only [Function.update_of_ne hc, h.ids, hne, false_and, or_false]

lemma AdditionsAccounted.run (h : AdditionsAccounted additions u) (hfew : ∀ c p, Few (addedIds (additions ++ more) c p))
    (hlists : ndebug = true → ∀ a ∈ more, a.2.InOrder) (hrun : run (Pairs.add ndebug) u more = some u') :
    AdditionsAccounted (additions ++ more) u' := by
  induction more generalizing u additions with
  | nil =>
    cases hrun
    rwa [List.append_nil]
  | cons a more ih =>
    obtain ⟨t, ht, hrest⟩ := run_cons_eq_some.mp hrun
    have hsofar : ∀ c p, Few (addedIds additions c p) := by
      intro c p
      apply (hfew c p).of_subset
      rw [addedIds_append]
      exact List.subset_append_left _ _
    have hnext := h.add hsofar (fun hdebug => hlists hdebug a List.mem_cons_self) ht
    have hfew' : ∀ c p, Few (addedIds (additions ++ [a] ++ more) c p) := by
      rwa [List.append_assoc, List.singleton_append]
    have := ih hnext hfew' (fun hdebug b hb => hlists hdebug b (List.mem_cons_of_mem a hb)) hrest
    rwa [List.append_assoc, List.singleton_append] at this

/-- **After any run of additions a class conforms to what was added to a class that it inherits from**, where each class on
the way up has its say.  The walk over protocols comes to what was added to any superclass.  Both agree where no superclass
is against inheriting from its own superclass. -/
theorem conformsto_run (hlists : ndebug = true → ∀ a ∈ additions, a.2.InOrder)
    (hfew : ∀ c p, Few (addedIds additions c p)) (hrun : run (Pairs.add ndebug) Pairs.start additions = some u)
    (hframes : g.depth pair < frames) :
    ∃ b walked, conformstoProtocolid g u protocolid frames inheritance pair = some b ∧
      walkProtocolids g u.members inheritance (finds (fun p => p) protocolid) frames pair none = some walked ∧
      (b = true ↔ ∃ c, Inherits g inheritance pair c ∧ Added additions c protocolid) ∧
      (walked.state = some protocolid ↔ ∃ c ∈ reach g inheritance pair, Added additions c protocolid) ∧
      (b = true → walked.state = some protocolid) ∧
      ((∀ d ∈ lineage g pair, d ≠ pair → has (infraInheritance g d) dontInheritSuperclass = false) →
        walked.state = some protocolid → b = true) := by
  have haccounts : AdditionsAccounted additions u := accounts_start.run hfew hlists hrun
  have hids : ∀ c, protocolid ∈ (u.pair c).ids .protocolids ↔ Added additions c protocolid := fun c =>
    (haccounts.ids c .protocolids protocolid).trans mem_addedIds
  obtain ⟨b, hb, hconforms⟩ := conformsto_spec
    (fun c => ((haccounts.ordered c).has_eq (haccounts.length_le hfew c) protocolid).2) inheritance hframes
  obtain ⟨walked, hwalked, hwalk⟩ := walkProtocolids_spec u.members protocolid inheritance hframes
  have hmembers : ∀ c, protocolid ∈ u.members.protocolids c ↔ Added additions c protocolid := hids
  simp only [hids] at hconforms
  simp only [hmembers] at hwalk
  refine ⟨b, walked, hb, hwalked, hconforms, hwalk, ?_, ?_⟩
  · intro hconformed
    obtain ⟨c, hc, hadded⟩ := hconforms.mp hconformed
    exact hwalk.mpr ⟨c, hc.mem_reach, hadded⟩
  · intro hflags hfound
    obtain ⟨c, hc, hadded⟩ := hwalk.mp hfound
    exact hconforms.mpr ⟨c, inherits_of_mem_reach hflags hc, hadded⟩

/-- A class, a subclass that does not inherit from it, and a subclass of that one. -/
def cutOff : ClassGraph ℕ :=
  .ofList [ClassGraph.pairOf 1 none [] false ⟨0, []⟩ ⟨0, []⟩,
    ClassGraph.pairOf 2 (some 0) [] false ⟨dontInheritSuperclass, []⟩ ⟨0, []⟩,
    ClassGraph.pairOf 3 (some 1) [] false ⟨0, []⟩ ⟨0, []⟩]

/-- The first class gets a protocol. -/
def cutOffAdditions : List (ℕ × Addition) := [(0, .protocollist [⟨20, ['B']⟩] 0)]

lemma few_cutOffAdditions (c : ℕ) (p : Pointer) : Few (addedIds cutOffAdditions c p) := by
  have hsub : addedIds cutOffAdditions c p ⊆ cutOffAdditions.flatMap fun a => a.2.ids p := by
    intro uniqueid h
    obtain ⟨a, ha, -, hid⟩ := mem_addedIds.mp h
    exact List.mem_flatMap.mpr ⟨a, ha, hid⟩
  have hall : Few (cutOffAdditions.flatMap fun a => a.2.ids p) := by
    cases p <;> decide
  exact hall.of_subset hsub

theorem conformsto_run_cutOff : ∃ u, run (Pairs.add true) Pairs.start cutOffAdditions = some u ∧
    ∃ b walked, conformstoProtocolid cutOff u 20 3 0 2 = some b ∧
      walkProtocolids cutOff u.members 0 (finds (fun p => p) 20) 3 2 none = some walked ∧
      (b = true ↔ ∃ c, Inherits cutOff 0 2 c ∧ Added cutOffAdditions c 20) ∧
      (walked.state = some 20 ↔ ∃ c ∈ reach cutOff 0 2, Added cutOffAdditions c 20) ∧
      (b = true → walked.state = some 20) ∧
      ((∀ d ∈ lineage cutOff 2, d ≠ 2 → has (infraInheritance cutOff d) dontInheritSuperclass = false) →
        walked.state = some 20 → b = true) := by
  have hsome : (run (Pairs.add true) Pairs.start cutOffAdditions).isSome = true := by decide
  obtain ⟨u, hrun⟩ := Option.isSome_iff_exists.mp hsome
  exact ⟨u, hrun, conformsto_run (by decide) few_cutOffAdditions hrun (by decide)⟩

/-- The last class does not conform to it, but the walk comes to it. -/
example : ((run (Pairs.add true) Pairs.start cutOffAdditions).bind fun u => conformstoProtocolid cutOff u 20 3 0 2) =
      some false ∧
    ((run (Pairs.add true) Pairs.start cutOffAdditions).bind fun u =>
      (walkProtocolids cutOff u.members 0 (finds (fun p => p) 20) 3 2 none).map Walked.state) = some (some 20) := by
  decide +kernel

end MulleObjcRuntime.Members
