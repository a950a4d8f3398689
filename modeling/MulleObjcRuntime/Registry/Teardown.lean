import Mathlib.Data.List.Sort
import MulleObjcRuntime.Lib.Runs
import MulleObjcRuntime.Registry.Steps

/-!
# The order of a teardown

A teardown calls the classes by descending class index.

* `SubclassesFirst` — no class is called before one of its subclasses;
* `Numbered` — the numbering that brings this about;
* `StampsWell` — a step that keeps the numbering;
* `subclassesFirst_of_stampsWell` — a run whose steps all do so has its subclasses first throughout.
-/

namespace MulleObjcRuntime.Registry

open Lib.OwnedKeys Lib.Runs

/-- No class comes before one of its subclasses. -/
def SubclassesFirst (u : Universe) (order : List ℕ) : Prop := order.Pairwise fun a b => (u.pair b).superclass ≠ a

/-- **A teardown calls every class before its superclass**, however the classtable is enumerated and sorted. -/
def CallsSubclassesFirst (u : Universe) : Prop :=
  ∀ (qsort : Qsort) (rover : List (Σ _ : ℕ, ℕ)), rover.Perm u.classtable.entries →
    SubclassesFirst u (callInfraclasses qsort u rover)

/-- The classes `B` have been numbered so that a class has a higher index than its superclass. -/
structure NumberedOn (u : Universe) (B : ℕ → Prop) : Prop where
  lt : ∀ c, B c → (u.pair c).classindex < u.classindex
  order : ∀ c, B c → B (u.pair c).superclass → (u.pair (u.pair c).superclass).classindex < (u.pair c).classindex

/-- A class that is posed away, and was not in the classtable before, has been numbered with the others. -/
def VictimNumbered (u : Universe) (victim : ℕ) : Prop := NumberedOn u fun c => Listed u c ∨ c = victim

/-- The class that gets an index may have it: there are indexes left, and it has no subclass in the classtable, unless
it does not come there itself. -/
def StampsWell (cfg : Config) (u : Universe) : Action → Prop
  | .newClasspair _ _ _ => True
  | .register infra lists =>
    infra ≠ 0 → isSane cfg lists (u.pair infra) = none → HasSuperclass u infra →
      u.classindex < 2 ^ 31 ∧
        (u.table (u.classid infra) = none ∨ Listed u infra → ∀ c, Listed u c → (u.pair c).superclass ≠ infra)
  | .load infra _ _ => u.classindex < 2 ^ 31 ∧ ∀ c, Listed u c → (u.pair c).superclass ≠ infra
  | .pose infra lists =>
    Passes cfg lists u infra → u.classindex < 2 ^ 31 ∧
      (CanPose cfg lists u infra ∨ Listed u infra → ∀ c, Listed u c → (u.pair c).superclass ≠ infra) ∧
      (CanPose cfg lists u infra → Listed u (u.pair infra).superclass ∨ VictimNumbered u (u.pair infra).superclass)

lemma victimNumbered_iff {u : Universe} {victim : ℕ} : VictimNumbered u victim ↔
    (∀ c ∈ victim :: u.values, (u.pair c).classindex < u.classindex) ∧
    ∀ c ∈ victim :: u.values, (u.pair c).superclass ∈ victim :: u.values →
      (u.pair (u.pair c).superclass).classindex < (u.pair c).classindex := by
  unfold VictimNumbered
  simp only [List.mem_cons, mem_values, or_comm]
  constructor
  · intro h
    exact ⟨h.lt, h.order⟩
  · rintro ⟨hlt, horder⟩
    exact ⟨hlt, horder⟩

instance (u : Universe) (victim : ℕ) : Decidable (VictimNumbered u victim) := decidable_of_iff' _ victimNumbered_iff

instance (cfg : Config) (u : Universe) : DecidablePred (StampsWell cfg u)
  | .newClasspair _ _ _ => inferInstanceAs (Decidable True)
  | .register infra lists =>
    inferInstanceAs (Decidable (infra ≠ 0 → isSane cfg lists (u.pair infra) = none → HasSuperclass u infra →
      u.classindex < 2 ^ 31 ∧
        (u.table (u.classid infra) = none ∨ Listed u infra → ∀ c, Listed u c → (u.pair c).superclass ≠ infra)))
  | .load infra _ _ =>
    inferInstanceAs (Decidable (u.classindex < 2 ^ 31 ∧ ∀ c, Listed u c → (u.pair c).superclass ≠ infra))
  | .pose infra lists =>
    inferInstanceAs (Decidable (Passes cfg lists u infra → u.classindex < 2 ^ 31 ∧
      (CanPose cfg lists u infra ∨ Listed u infra → ∀ c, Listed u c → (u.pair c).superclass ≠ infra) ∧
      (CanPose cfg lists u infra → Listed u (u.pair infra).superclass ∨ VictimNumbered u (u.pair infra).superclass)))

variable {cfg : Config} {u u' : Universe} {infra classid c : ℕ} {name : List Char} {B B' : ℕ → Prop}

/-! ## The comparison -/

lemma toInt32_of_small {n : ℤ} (hle : -2 ^ 31 ≤ n) (hlt : n < 2 ^ 31) : toInt32 n = n := by
  unfold toInt32
  apply Int.bmod_eq_of_le
  · omega
  · omega

lemma reverseCompareClassindex_eq {a b : ℕ} (ha : (u.pair a).classindex < 2 ^ 31) (hb : (u.pair b).classindex < 2 ^ 31) :
    reverseCompareClassindex u a b = ((u.pair b).classindex : ℤ) - (u.pair a).classindex := by
  have hint : ∀ n : ℕ, n < 2 ^ 31 → toInt32 (n : ℤ) = n := by
    intro n hn
    exact toInt32_of_small (by omega) (by exact_mod_cast hn)
  unfold reverseCompareClassindex
  rw [hint _ ha, hint _ hb]
  apply toInt32_of_small <;> omega

lemma listed_of_mem_all {rover : List (Σ _ : ℕ, ℕ)} (hrover : rover.Perm u.classtable.entries)
    (h : c ∈ allInfraclasses u rover) : Listed u c := by
  unfold allInfraclasses owned at h
  obtain ⟨e, he, rfl⟩ := List.mem_map.1 h
  have hmem := hrover.mem_iff.1 (List.mem_of_mem_filter he)
  exact ⟨e.1, AList.mem_lookup_iff.2 hmem⟩

/-- **The sort puts subclasses first** when the classtable has been numbered. -/
theorem callsSubclassesFirst_of_numbered (h : NumberedOn u (Listed u)) (hle : u.classindex ≤ 2 ^ 31) :
    CallsSubclassesFirst u := by
  intro qsort rover hrover
  have hsmall : ∀ c ∈ allInfraclasses u rover, (u.pair c).classindex < 2 ^ 31 := by
    intro c hc
    have := h.lt c (listed_of_mem_all hrover hc)
    omega
  have hcmp : ∀ a ∈ allInfraclasses u rover, ∀ b ∈ allInfraclasses u rover,
      reverseCompareClassindex u a b = ((u.pair b).classindex : ℤ) - (u.pair a).classindex := by
    intro a ha b hb
    exact reverseCompareClassindex_eq (hsmall a ha) (hsmall b hb)
  have hsorted : (callInfraclasses qsort u rover).Pairwise fun a b => reverseCompareClassindex u a b ≤ 0 := by
    apply qsort.sorted
    · intro a ha b hb
      rw [hcmp a ha b hb, hcmp b hb a ha]
      omega
    · intro a ha b hb c hc
      rw [hcmp a ha b hb, hcmp b hb c hc, hcmp a ha c hc]
      omega
  have hmem : ∀ c ∈ callInfraclasses qsort u rover, c ∈ allInfraclasses u rover := by
    intro c hc
    exact (qsort.perm _ _).mem_iff.1 hc
  refine hsorted.imp_of_mem fun {a b} ha hb hab hsuper => ?_
  have ha := hmem a ha
  have hb := hmem b hb
  rw [hcmp a ha b hb] at hab
  subst hsuper
  have := h.order b (listed_of_mem_all hrover hb) (listed_of_mem_all hrover ha)
  omega

/-! ## The numbering -/

namespace NumberedOn

lemma mono (h : NumberedOn u B) (hB : ∀ c, B' c → B c) : NumberedOn u B' :=
  ⟨fun c hc => h.lt c (hB c hc), fun c hc hs => h.order c (hB c hc) (hB _ hs)⟩

lemma congr (h : NumberedOn u B) (hindex : u'.classindex = u.classindex)
    (hpair : ∀ c, B c → (u'.pair c).classindex = (u.pair c).classindex ∧ (u'.pair c).superclass = (u.pair c).superclass) :
    NumberedOn u' B := by
  refine ⟨fun c hc => ?_, fun c hc hs => ?_⟩
  · rw [(hpair c hc).1, hindex]
    exact h.lt c hc
  · rw [(hpair c hc).2] at hs ⊢
    rw [(hpair c hc).1, (hpair _ hs).1]
    exact h.order c hc hs

/-- **A class with a new index comes last in the numbering**, and may have no subclass there. -/
lemma stamp (h : NumberedOn u B) (hlt : u.classindex < 2 ^ 31) (hself : (u.pair infra).superclass ≠ infra)
    (hsub : ∀ c, B c → (u.pair c).superclass ≠ infra) :
    NumberedOn (u.stampClassindex infra) fun c => B c ∨ c = infra := by
  have hmod : u.classindex % 2 ^ 32 = u.classindex := Nat.mod_eq_of_lt (by omega)
  refine ⟨fun c hc => ?_, fun c hc hs => ?_⟩
  · rw [stampClassindex_classindex]
    by_cases hci : c = infra
    · subst hci
      rw [stampClassindex_self, hmod]
      exact Nat.lt_succ_self _
    · rw [stampClassindex_of_ne hci]
      exact Nat.lt_succ_of_lt (h.lt c (hc.resolve_right hci))
  · rw [stampClassindex_superclass] at hs ⊢
    by_cases hci : c = infra
    · subst hci
      have hsB := hs.resolve_right hself
      rw [stampClassindex_self, hmod, stampClassindex_of_ne hself]
      exact h.lt _ hsB
    · have hcB := hc.resolve_right hci
      have hne := hsub c hcB
      rw [stampClassindex_of_ne hci, stampClassindex_of_ne hne]
      exact h.order c hcB (hs.resolve_right hne)

lemma stamp_other (h : NumberedOn u B) (hinfra : ¬ B infra) : NumberedOn (u.stampClassindex infra) B := by
  have hne : ∀ c, B c → c ≠ infra := by
    rintro c hc rfl
    exact hinfra hc
  refine ⟨fun c hc => ?_, fun c hc hs => ?_⟩
  · rw [stampClassindex_of_ne (hne c hc)]
    exact Nat.lt_succ_of_lt (h.lt c hc)
  · rw [stampClassindex_superclass] at hs ⊢
    rw [stampClassindex_of_ne (hne c hc), stampClassindex_of_ne (hne _ hs)]
    exact h.order c hc hs

end NumberedOn

/-! ## The steps -/

/-- What a run keeps. -/
structure Numbered (u : Universe) : Prop extends Allocated u where
  listed_numbered : NumberedOn u (Listed u)
  le : u.classindex ≤ 2 ^ 31

lemma numbered_new : Numbered Universe.new := by
  refine ⟨allocated_new, ⟨fun c ⟨k, hk⟩ => ?_, fun c ⟨k, hk⟩ => ?_⟩, by decide⟩
  · cases hk
  · cases hk

lemma Allocated.superclass_ne (h : Allocated u) (hne : infra ≠ 0) (hle : infra ≤ u.allocated) :
    (u.pair infra).superclass ≠ infra := (h.superclass_lt infra hne hle).ne

lemma listed_posedAs (h : Listed (u.posedAs cfg infra name) c) :
    (Listed u c ∨ c = (u.pair infra).superclass) ∨ c = infra := by
  unfold Universe.posedAs at h
  rcases listed_setClass h with rfl | h
  · exact Or.inr rfl
  rcases listed_setClass h with rfl | h
  · exact Or.inl (Or.inr rfl)
  · exact Or.inl (Or.inl h)

namespace Numbered

lemma stamp (h : NumberedOn u (Listed u)) (hlt : u.classindex < 2 ^ 31) (hself : (u.pair infra).superclass ≠ infra)
    (hsub : Listed u infra → ∀ c, Listed u c → (u.pair c).superclass ≠ infra) :
    NumberedOn (u.stampClassindex infra) (Listed (u.stampClassindex infra)) := by
  by_cases hlisted : Listed u infra
  · exact (h.stamp hlt hself (hsub hlisted)).mono fun c hc => Or.inl hc
  · exact h.stamp_other hlisted

lemma register (h : NumberedOn u (Listed u)) (hlt : u.classindex < 2 ^ 31) (hself : (u.pair infra).superclass ≠ infra)
    (hsub : ∀ c, Listed u c → (u.pair c).superclass ≠ infra) :
    NumberedOn ((u.stampClassindex infra).setClass classid infra)
      (Listed ((u.stampClassindex infra).setClass classid infra)) := by
  have hstamp := h.stamp hlt hself hsub
  have hcongr : NumberedOn ((u.stampClassindex infra).setClass classid infra) _ :=
    hstamp.congr rfl fun _ _ => ⟨rfl, rfl⟩
  apply hcongr.mono
  intro c hc
  exact (listed_setClass hc).symm

lemma pose (h : VictimNumbered u (u.pair infra).superclass) (hlt : u.classindex < 2 ^ 31)
    (hself : (u.pair infra).superclass ≠ infra)
    (hsub : ∀ c, Listed u c ∨ c = (u.pair infra).superclass → (u.pair c).superclass ≠ infra) :
    NumberedOn (u.posedAs cfg infra name) (Listed (u.posedAs cfg infra name)) := by
  have hstamp := NumberedOn.stamp h hlt hself hsub
  have hcongr : NumberedOn (u.posedAs cfg infra name) _ :=
    hstamp.congr rfl fun c _ => ⟨rename_pair_classindex, rename_superclass⟩
  apply hcongr.mono
  intro c hc
  exact listed_posedAs hc

theorem step {a : Action} (h : Numbered u) (hwell : StampsWell cfg u a) (hstep : Registry.step cfg u a = some u') :
    Numbered u' := by
  refine ⟨h.toAllocated.step hstep, ?_, ?_⟩
  · cases step_effect hstep with
    | notCreated => exact h.listed_numbered
    | notRegistered => exact h.listed_numbered
    | notPosed => exact h.listed_numbered
    | created classid name superclass =>
      refine h.listed_numbered.congr rfl fun c hc => ?_
      obtain ⟨-, hle⟩ := h.listed c hc
      unfold Universe.withClasspair
      simp only [Function.update_of_ne (show c ≠ u.allocated + 1 by omega), and_self]
    | stamped infra lists hle hne hsane hsuper _ =>
      obtain ⟨hlt, hsub⟩ := hwell hne hsane hsuper
      exact stamp h.listed_numbered hlt (h.superclass_ne hne hle) fun hlisted => hsub (Or.inr hlisted)
    | nameless infra lists hle hchecks hname =>
      obtain ⟨hlt, hsub, -⟩ := hwell hchecks
      exact stamp h.listed_numbered hlt (h.superclass_ne hchecks.infra_ne hle) fun hlisted => hsub (Or.inr hlisted)
    | registered infra lists hle hne hsane hsuper hfree =>
      obtain ⟨hlt, hsub⟩ := hwell hne hsane hsuper
      exact register h.listed_numbered hlt (h.superclass_ne hne hle) (hsub (Or.inl hfree))
    | loaded infra fastclassindex lists v hv hle hne =>
      obtain ⟨_, rfl⟩ := sameButFast_of_set hv
      obtain ⟨hlt, hsub⟩ := hwell
      exact register (h.listed_numbered.congr rfl fun _ _ => ⟨rfl, rfl⟩) hlt (h.superclass_ne hne hle) hsub
    | posed infra lists newname hle hposes =>
      obtain ⟨hlt, hsub, hvictim⟩ := hwell hposes.toPasses
      have hcan := hposes.canPose
      have hself := h.superclass_ne hposes.infra_ne hle
      refine pose ?_ hlt hself ?_
      · rcases hvictim hcan with hlisted | hvictim
        · exact h.listed_numbered.mono fun c hc => hc.elim id fun heq => heq ▸ hlisted
        · exact hvictim
      · rintro c (hc | rfl)
        · exact hsub (Or.inl hcan) c hc
        · -- the superclass of the class that is posed away is still older
          have hsle := h.superclass_le hposes.infra_ne hle
          have := h.superclass_lt _ hposes.super_ne hsle
          have := h.superclass_lt infra hposes.infra_ne hle
          omega
  · have hcounter := h.le
    cases step_effect hstep with
    | notCreated => exact hcounter
    | notRegistered => exact hcounter
    | notPosed => exact hcounter
    | created => exact hcounter
    | stamped infra lists _ hne hsane hsuper => exact (hwell hne hsane hsuper).1
    | registered infra lists _ hne hsane hsuper => exact (hwell hne hsane hsuper).1
    | loaded infra fastclassindex lists v hv =>
      obtain ⟨_, rfl⟩ := sameButFast_of_set hv
      exact hwell.1
    | nameless infra lists hle hchecks => exact (hwell hchecks).1
    | posed infra lists newname hle hposes => exact (hwell hposes.toPasses).1

end Numbered

/-- **A teardown calls subclasses first throughout a run in which every class that gets an index may have it.** -/
theorem subclassesFirst_of_stampsWell (cfg : Config) (acts : List Action)
    (h : EachStep (step cfg) (StampsWell cfg) Universe.new acts) :
    Throughout (step cfg) CallsSubclassesFirst Universe.new acts := by
  have hnumbered : Throughout (step cfg) Numbered Universe.new acts :=
    h.throughout numbered_new fun _ _ _ hs hwell hstep => hs.step hwell hstep
  exact hnumbered.mono fun u hu => callsSubclassesFirst_of_numbered hu.listed_numbered hu.le

/-- `Bar` with a subclass that poses as it before it has a subclass of its own. -/
def poseEarly : List Action :=
  sampleClass ['B', 'a', 'r'] 0 1 ++ sampleClass ['F', 'o', 'o'] 1 2 ++ [.pose 2 none] ++
    sampleClass ['B', 'a', 'z'] 2 3

theorem subclassesFirst_of_stampsWell_sample : Throughout (step sampleConfig) CallsSubclassesFirst Universe.new poseEarly :=
  subclassesFirst_of_stampsWell sampleConfig poseEarly (by decide +kernel)

/-! ## A class that is called before its subclass -/

/-- Insertion sort -/
def insertSort (cmp : ℕ → ℕ → ℤ) (l : List ℕ) : List ℕ :=
  (l.attach.insertionSort fun a b => cmp a.1 b.1 ≤ 0).map Subtype.val

lemma insertSort_perm (cmp : ℕ → ℕ → ℤ) (l : List ℕ) : (insertSort cmp l).Perm l := by
  unfold insertSort
  have hperm := (List.perm_insertionSort (fun a b : {x // x ∈ l} => cmp a.1 b.1 ≤ 0) l.attach).map Subtype.val
  rwa [List.attach_map_subtype_val] at hperm

lemma insertSort_sorted (cmp : ℕ → ℕ → ℤ) (l : List ℕ) (hsign : ∀ a ∈ l, ∀ b ∈ l, cmp a b < 0 ↔ 0 < cmp b a)
    (htrans : ∀ a ∈ l, ∀ b ∈ l, ∀ c ∈ l, cmp a b ≤ 0 → cmp b c ≤ 0 → cmp a c ≤ 0) :
    (insertSort cmp l).Pairwise fun a b => cmp a b ≤ 0 := by
  have htotal : Std.Total fun a b : {x // x ∈ l} => cmp a.1 b.1 ≤ 0 := by
    refine ⟨fun a b => ?_⟩
    have := hsign b.1 b.2 a.1 a.2
    omega
  have htrans : IsTrans {x // x ∈ l} fun a b => cmp a.1 b.1 ≤ 0 :=
    ⟨fun a b c => htrans a.1 a.2 b.1 b.2 c.1 c.2⟩
  unfold insertSort
  rw [List.pairwise_map]
  exact List.pairwise_insertionSort _ _

/-- A sort with which the teardown can be run. -/
def insertQsort : Qsort := ⟨insertSort, insertSort_perm, insertSort_sorted⟩

/-- `Bar` with a subclass that poses as it when it has a subclass of its own. -/
def poseLate : List Action :=
  sampleClass ['B', 'a', 'r'] 0 1 ++ sampleClass ['F', 'o', 'o'] 1 2 ++ sampleClass ['B', 'a', 'z'] 2 3 ++
    [.pose 2 none]

/-- A poser is called before its subclass. -/
theorem poser_before_subclass : ∃ u, run (step sampleConfig) Universe.new poseLate = some u ∧ ¬ CallsSubclassesFirst u := by
  have horder : (run (step sampleConfig) Universe.new poseLate).map (fun u =>
      (callInfraclasses insertQsort u u.classtable.entries, (u.pair 3).superclass)) = some ([2, 3, 1], 2) := by
    decide +kernel
  obtain ⟨u, hu, hpair⟩ := Option.map_eq_some_iff.1 horder
  obtain ⟨horder, hsuper⟩ := Prod.mk.inj hpair
  refine ⟨u, hu, fun hfirst => ?_⟩
  have hpairwise := hfirst insertQsort _ (List.Perm.refl _)
  rw [horder] at hpairwise
  exact (List.pairwise_cons.1 hpairwise).1 3 (by decide) hsuper

end MulleObjcRuntime.Registry
