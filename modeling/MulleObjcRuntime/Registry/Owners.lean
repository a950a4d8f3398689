import MulleObjcRuntime.Lib.Runs
import MulleObjcRuntime.Registry.Steps

/-!
# Who owns a class pair

The classtable is the owner of every class pair: a teardown lists all of them, each of them once, and frees them.

* `Recorded`, `recordedStep` — a universe, and the classes that have ever been in its classtable;
* `OwnsEachOnce` — each of them has one owning key, is listed once and is freed once;
* `PosesOwned` — a posing that keeps it so;
* `ownsEachOnce_iff` — a run keeps it so exactly when all its posings do.
-/

namespace MulleObjcRuntime.Registry

open Lib.OwnedKeys Lib.Runs

/-- A universe with all classes that have been in its classtable. -/
structure Recorded where
  now : Universe
  registered : List ℕ

/-- The start of a run. -/
def Recorded.new : Recorded := ⟨Universe.new, []⟩

/-- A step, with a record of the classes that are in the classtable. -/
def recordedStep (cfg : Config) (r : Recorded) (a : Action) : Option Recorded :=
  (step cfg r.now a).map fun u => ⟨u, r.registered ++ u.values⟩

/-- **Every class that has ever been registered has one owning key, is listed once and is freed once**, in whatever
order the classtable is enumerated. -/
def OwnsEachOnce (r : Recorded) : Prop :=
  ∀ infra ∈ r.registered, OwnedOnce r.now.classid r.now.table infra ∧
    ∀ rover, rover.Perm r.now.classtable.entries →
      (allInfraclasses r.now rover).count infra = 1 ∧ (freeClassgraph r.now rover).count infra = 1

/-- A posing that succeeds keeps one owning key for the class that is posed away, for the poser and for the class that had
its place. -/
def PosesOwned (cfg : Config) (r : Recorded) : Action → Prop
  | .pose infra lists =>
    CanPose cfg lists r.now infra → PosesWell r.now.classid r.now.table (r.now.pair infra).superclass infra
  | _ => True

variable {cfg : Config} {u u' : Universe} {r r' : Recorded} {infra classid c : ℕ} {name : List Char}
  {lists : Option Errno}

/-! ## One owning key -/

/-- What a run keeps. -/
structure Accounted (r : Recorded) : Prop extends Allocated r.now where
  registered_le : ∀ c ∈ r.registered, c ≤ r.now.allocated
  registered : ∀ c, Listed r.now c → c ∈ r.registered
  owned : ∀ c ∈ r.registered, OwnedOnce r.now.classid r.now.table c

lemma ownsEachOnce_iff_owned :
    OwnsEachOnce r ↔ ∀ c ∈ r.registered, OwnedOnce r.now.classid r.now.table c := by
  constructor
  · intro h c hc
    exact (h c hc).1
  · intro h c hc
    refine ⟨h c hc, ?_⟩
    intro rover hrover
    have hcount := (count_owned r.now.classtable hrover).2 (h c hc)
    exact ⟨hcount, hcount⟩

namespace Accounted

lemma same (h : Accounted r) (htable : u'.table = r.now.table) :
    ∀ c, c ∈ r.registered ++ u'.values ↔ c ∈ r.registered := by
  intro c
  rw [List.mem_append, mem_values, Listed, htable]
  constructor
  · rintro (hc | hc)
    · exact hc
    · exact h.registered c hc
  · exact Or.inl

lemma register (h : Accounted r) (htable : u'.table = Function.update r.now.table (r.now.classid infra) (some infra))
    (hfree : r.now.table (r.now.classid infra) = none) :
    ∀ c ∈ r.registered ++ u'.values, OwnedOnce r.now.classid u'.table c := by
  intro c hc
  rw [htable, ownedOnce_update hfree]
  rcases List.mem_append.1 hc with hc | hc
  · exact Or.inr (h.owned c hc)
  · obtain ⟨k, hk⟩ := mem_values.1 hc
    rw [htable] at hk
    by_cases hkid : k = r.now.classid infra
    · subst hkid
      rw [Function.update_self] at hk
      exact Or.inl (Option.some.inj hk).symm
    · rw [Function.update_of_ne hkid] at hk
      exact Or.inr (h.owned c (h.registered c ⟨k, hk⟩))

/-- A posing keeps one owning key for all exactly when it poses well. -/
lemma pose (h : Accounted r) (hle : infra ≤ r.now.allocated) (hposes : Poses cfg lists r.now infra name) :
    (∀ c ∈ r.registered ++ (r.now.posedAs cfg infra name).values,
      OwnedOnce r.now.classid (r.now.posedAs cfg infra name).table c) ↔
    PosesWell r.now.classid r.now.table (r.now.pair infra).superclass infra := by
  have hfree : r.now.table (classidFromString cfg name) = none := victimName_free hposes.victimName_eq
  have hne : (r.now.pair infra).superclass ≠ infra := (h.superclass_lt infra hposes.infra_ne hle).ne
  rw [← ownedOnce_posed_iff hfree hposes.held hne (R := (· ∈ r.registered))
    (fun k c hk => h.registered c ⟨k, hk⟩) h.owned, ← posedAs_table]
  apply forall_congr'
  intro c
  apply imp_congr_left
  rw [List.mem_append, mem_values, Listed, posedAs_table]
  have hvictim : posed r.now.classid r.now.table _ _ infra _ = some _ := posed_free (free_ne_own hfree hposes.held)
  constructor
  · rintro (hc | ⟨k, hk⟩)
    · exact Or.inl hc
    by_cases hs : c = (r.now.pair infra).superclass
    · exact Or.inr (Or.inl hs)
    by_cases hp : c = infra
    · exact Or.inr (Or.inr hp)
    exact Or.inl (h.registered c ⟨k, ((posed_eq_some hfree hs hp).1 hk).2⟩)
  · rintro (hc | rfl | rfl)
    · exact Or.inl hc
    · exact Or.inr ⟨_, hvictim⟩
    · exact Or.inr ⟨_, posed_own⟩

/-- **A step keeps one owning key for all exactly when it is not a posing, or one that keeps it so.** -/
theorem owned_step_iff {a : Action} (h : Accounted r) (hstep : step cfg r.now a = some u') :
    (∀ c ∈ r.registered ++ u'.values, OwnedOnce u'.classid u'.table c) ↔ PosesOwned cfg r a := by
  cases step_effect hstep with
  | notCreated =>
    simp only [h.same rfl, PosesOwned, iff_true]
    exact h.owned
  | notRegistered =>
    simp only [h.same rfl, PosesOwned, iff_true]
    exact h.owned
  | notPosed infra lists hchecks =>
    simp only [h.same rfl]
    exact iff_of_true h.owned fun hcan => absurd hcan.1 hchecks
  | created classid name superclass =>
    have htable : (r.now.withClasspair classid name superclass).table = r.now.table := rfl
    simp only [h.same htable, PosesOwned, iff_true, htable]
    intro c hc
    rw [ownedOnce_own_congr (withClasspair_classid superclass (h.registered_le c hc))]
    exact h.owned c hc
  | stamped infra =>
    have htable : (r.now.stampClassindex infra).table = r.now.table := rfl
    simp only [h.same htable, PosesOwned, iff_true, stampClassindex_classid, htable]
    exact h.owned
  | nameless infra lists hle hchecks hname =>
    have htable : (r.now.stampClassindex infra).table = r.now.table := rfl
    simp only [h.same htable, stampClassindex_classid, htable]
    exact iff_of_true h.owned fun hcan => absurd hname hcan.2
  | registered infra lists _ _ _ _ hfree =>
    simp only [PosesOwned, iff_true, setClass_classid, stampClassindex_classid]
    exact h.register (by simp only [setClass_table, stampClassindex_table]) hfree
  | loaded infra fastclassindex lists v hv _ _ _ hfree =>
    obtain ⟨_, rfl⟩ := sameButFast_of_set hv
    simp only [PosesOwned, iff_true, setClass_classid, stampClassindex_classid]
    exact h.register (by simp only [setClass_table, stampClassindex_table]; rfl) hfree
  | posed infra lists newname hle hposes =>
    simp only [PosesOwned, posedAs_classid, hposes.canPose, true_imp_iff]
    exact h.pose hle hposes

lemma step_of_owned {a : Action} (h : Accounted r) (hstep : step cfg r.now a = some u')
    (howned : ∀ c ∈ r.registered ++ u'.values, OwnedOnce u'.classid u'.table c) :
    Accounted ⟨u', r.registered ++ u'.values⟩ := by
  have hallocated := h.toAllocated.step hstep
  refine ⟨hallocated, ?_, fun c hc => List.mem_append_right _ (mem_values.2 hc), howned⟩
  intro c hc
  obtain ⟨k, hk⟩ := (howned c hc).exists_key
  exact (hallocated.listed c ⟨k, hk⟩).2

end Accounted

lemma accounted_new : Accounted Recorded.new :=
  ⟨allocated_new, fun _ hc => absurd hc List.not_mem_nil, fun _ ⟨_, hk⟩ => absurd hk.symm (Option.some_ne_none _),
    fun _ hc => absurd hc List.not_mem_nil⟩

/-- **Every class is owned, listed and freed once throughout a run exactly when all its posings keep it so.** -/
theorem ownsEachOnce_iff (cfg : Config) (acts : List Action)
    (hrun : (run (recordedStep cfg) Recorded.new acts).isSome) :
    Throughout (recordedStep cfg) OwnsEachOnce Recorded.new acts ↔
      EachStep (recordedStep cfg) (PosesOwned cfg) Recorded.new acts := by
  obtain ⟨r, hrun⟩ := Option.isSome_iff_exists.1 hrun
  refine throughout_iff_eachStep hrun accounted_new ?_ (fun _ h => ownsEachOnce_iff_owned.2 h.owned) ?_
  · intro s a t hs hposes hstep
    obtain ⟨u, hu, rfl⟩ := Option.map_eq_some_iff.1 hstep
    exact hs.step_of_owned hu ((hs.owned_step_iff hu).2 hposes)
  · intro s a t hs hposes hstep howns
    obtain ⟨u, hu, rfl⟩ := Option.map_eq_some_iff.1 hstep
    exact hposes ((hs.owned_step_iff hu).1 (ownsEachOnce_iff_owned.1 howns))

/-- `Bar` with two subclasses, which both pose as it. -/
def poseTwice : List Action :=
  sampleClass ['B', 'a', 'r'] 0 1 ++ sampleClass ['F', 'o', 'o'] 1 2 ++ sampleClass ['B', 'a', 'z'] 1 3 ++
    [.pose 2 none, .pose 3 none]

theorem ownsEachOnce_iff_sample :
    Throughout (recordedStep sampleConfig) OwnsEachOnce Recorded.new poseTwice ↔
      EachStep (recordedStep sampleConfig) (PosesOwned sampleConfig) Recorded.new poseTwice :=
  ownsEachOnce_iff sampleConfig poseTwice (by decide +kernel)

/-- A class that is posed away twice is freed twice. -/
theorem posed_twice_freed_twice :
    ∃ r, run (recordedStep sampleConfig) Recorded.new poseTwice = some r ∧ ¬ OwnsEachOnce r := by
  have hcount : (run (recordedStep sampleConfig) Recorded.new poseTwice).map (fun r =>
      (decide (1 ∈ r.registered), (freeClassgraph r.now r.now.classtable.entries).count 1)) = some (true, 2) := by
    decide +kernel
  obtain ⟨r, hr, hpair⟩ := Option.map_eq_some_iff.1 hcount
  obtain ⟨hregistered, hfreed⟩ := Prod.mk.inj hpair
  refine ⟨r, hr, fun howns => ?_⟩
  obtain ⟨-, hall⟩ := howns 1 (of_decide_eq_true hregistered)
  have honce := (hall _ (List.Perm.refl _)).2
  rw [hfreed] at honce
  exact absurd honce (by decide)

end MulleObjcRuntime.Registry
