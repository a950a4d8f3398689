import MulleObjcRuntime.Registry.Defs

/-!
# What a step of the class registry does

* the simp lemmas of `stampClassindex`, `rename` and `setClass`;
* `registerInfraclass_cases`, `patchInfraclass_cases`, `loadclassEnqueue_eq_some` — all that the operations do;
* `Effect`, `step_effect` — all that a step does;
* `Allocated` — class pairs have a superclass that was there before, and are in the classtable only when they exist.
-/

namespace MulleObjcRuntime.Registry

open Lib.OwnedKeys Impcache

variable {cfg : Config} {u u' : Universe} {infra classid index c : ℕ} {name : List Char} {lists : Option Errno}

/-- The classtable as a map -/
def Universe.table (u : Universe) (classid : ℕ) : Option ℕ := u.classtable.lookup classid

/-- The class is in the classtable. -/
def Listed (u : Universe) (infra : ℕ) : Prop := ∃ classid, u.table classid = some infra

/-- The classes in the classtable, with one entry for each key. -/
def Universe.values (u : Universe) : List ℕ := u.classtable.entries.map Sigma.snd

lemma mem_values : c ∈ u.values ↔ Listed u c := by
  unfold Universe.values Listed Universe.table
  simp only [List.mem_map, ← Option.mem_def, AList.mem_lookup_iff]
  constructor
  · rintro ⟨⟨k, c⟩, he, rfl⟩
    exact ⟨k, he⟩
  · rintro ⟨k, hk⟩
    exact ⟨⟨k, c⟩, hk, rfl⟩

lemma forall_mem_values {P : ℕ → Prop} : (∀ c ∈ u.values, P c) ↔ ∀ c, Listed u c → P c := by
  simp only [mem_values]

instance (u : Universe) : DecidablePred (Listed u) := fun _ => decidable_of_iff _ mem_values

instance (u : Universe) (P : ℕ → Prop) [DecidablePred P] : Decidable (∀ c, Listed u c → P c) :=
  decidable_of_iff _ forall_mem_values

/-! ## The parts of a step -/

section Parts

@[simp] lemma stampClassindex_allocated : (u.stampClassindex infra).allocated = u.allocated := rfl
@[simp] lemma stampClassindex_classtable : (u.stampClassindex infra).classtable = u.classtable := rfl
@[simp] lemma stampClassindex_fastclasstable : (u.stampClassindex infra).fastclasstable = u.fastclasstable := rfl
@[simp] lemma stampClassindex_classcache : (u.stampClassindex infra).classcache = u.classcache := rfl
@[simp] lemma stampClassindex_classindex : (u.stampClassindex infra).classindex = u.classindex + 1 := rfl

@[simp] lemma rename_allocated : (u.rename infra name).allocated = u.allocated := rfl
@[simp] lemma rename_classtable : (u.rename infra name).classtable = u.classtable := rfl
@[simp] lemma rename_fastclasstable : (u.rename infra name).fastclasstable = u.fastclasstable := rfl
@[simp] lemma rename_classcache : (u.rename infra name).classcache = u.classcache := rfl
@[simp] lemma rename_classindex : (u.rename infra name).classindex = u.classindex := rfl

@[simp] lemma setClass_allocated : (u.setClass classid infra).allocated = u.allocated := rfl
@[simp] lemma setClass_pair : (u.setClass classid infra).pair = u.pair := rfl
@[simp] lemma setClass_fastclasstable : (u.setClass classid infra).fastclasstable = u.fastclasstable := rfl
@[simp] lemma setClass_classcache : (u.setClass classid infra).classcache = u.classcache := rfl
@[simp] lemma setClass_classindex : (u.setClass classid infra).classindex = u.classindex := rfl

lemma update_pair_field {α : Type} (f : Classpair → α) (pair : ℕ → Classpair) {p : Classpair} (h : f p = f (pair infra)) (c : ℕ) :
    f (Function.update pair infra p c) = f (pair c) := by
  by_cases hc : c = infra
  · subst hc
    rw [Function.update_self, h]
  · rw [Function.update_of_ne hc]

@[simp] lemma stampClassindex_classid : (u.stampClassindex infra).classid = u.classid :=
  funext (update_pair_field Classpair.classid u.pair (by rfl))

@[simp] lemma stampClassindex_superclass : ((u.stampClassindex infra).pair c).superclass = (u.pair c).superclass :=
  update_pair_field Classpair.superclass u.pair (by rfl) c

@[simp] lemma stampClassindex_name : ((u.stampClassindex infra).pair c).name = (u.pair c).name :=
  update_pair_field Classpair.name u.pair (by rfl) c

@[simp] lemma rename_classid : (u.rename infra name).classid = u.classid :=
  funext (update_pair_field Classpair.classid u.pair (by rfl))

@[simp] lemma rename_superclass : ((u.rename infra name).pair c).superclass = (u.pair c).superclass :=
  update_pair_field Classpair.superclass u.pair (by rfl) c

@[simp] lemma rename_pair_classindex : ((u.rename infra name).pair c).classindex = (u.pair c).classindex :=
  update_pair_field Classpair.classindex u.pair (by rfl) c

@[simp] lemma setClass_classid : (u.setClass classid infra).classid = u.classid := rfl

lemma stampClassindex_self : ((u.stampClassindex infra).pair infra).classindex = u.classindex % 2 ^ 32 := by
  unfold Universe.stampClassindex
  simp only [Function.update_self]

lemma stampClassindex_of_ne (h : c ≠ infra) : ((u.stampClassindex infra).pair c).classindex = (u.pair c).classindex := by
  unfold Universe.stampClassindex
  simp only [Function.update_of_ne h]

@[simp] lemma stampClassindex_table : (u.stampClassindex infra).table = u.table := rfl
@[simp] lemma rename_table : (u.rename infra name).table = u.table := rfl

@[simp] lemma setClass_table : (u.setClass classid infra).table = Function.update u.table classid (some infra) := by
  funext k
  by_cases hk : k = classid
  · subst hk
    rw [Function.update_self]
    exact AList.lookup_insert _
  · rw [Function.update_of_ne hk]
    exact AList.lookup_insert_ne hk

lemma victimName_stampClassindex (basename : List Char) :
    victimName cfg (u.stampClassindex infra) basename = victimName cfg u basename := rfl

lemma victimName_free {newname : List Char} (h : victimName cfg u name = some newname) :
    u.classtable.lookup (classidFromString cfg newname) = none := by
  simpa using List.find?_some h

end Parts

/-! ## The operations -/

/-- The superclass of a class is in the classtable, by its classid. -/
def HasSuperclass (u : Universe) (infra : ℕ) : Prop :=
  (u.pair infra).superclass ≠ 0 → u.classtable.lookup (u.classid (u.pair infra).superclass) ≠ none

instance : Decidable (HasSuperclass u infra) := inferInstanceAs (Decidable (_ → _))

/-- **Registering**: nothing is done, or the class gets an index although its classid is taken, or it is registered. -/
theorem registerInfraclass_cases (cfg : Config) (lists : Option Errno) (u : Universe) (infra : ℕ) :
    (∃ errno, registerInfraclass cfg lists u infra = (some errno, u)) ∨
    (infra ≠ 0 ∧ isSane cfg lists (u.pair infra) = none ∧ HasSuperclass u infra ∧
      u.classtable.lookup (u.classid infra) ≠ none ∧
      registerInfraclass cfg lists u infra = (some .eexist, u.stampClassindex infra)) ∨
    (infra ≠ 0 ∧ isSane cfg lists (u.pair infra) = none ∧ HasSuperclass u infra ∧
      u.classtable.lookup (u.classid infra) = none ∧
      registerInfraclass cfg lists u infra = (none, (u.stampClassindex infra).setClass (u.classid infra) infra)) := by
  unfold registerInfraclass
  split
  · exact Or.inl ⟨_, rfl⟩
  rename_i hinfra
  split
  · exact Or.inl ⟨_, rfl⟩
  rename_i hsane
  dsimp only
  split
  · exact Or.inl ⟨_, rfl⟩
  rename_i hsuper
  have hsuper : HasSuperclass u infra := fun hne hnone => hsuper ⟨hne, hnone⟩
  unfold registerInfraclassForClassid
  rw [stampClassindex_classtable]
  split
  · rename_i hheld
    exact Or.inr (Or.inl ⟨hinfra, hsane, hsuper, by simp [hheld], rfl⟩)
  · rename_i hfree
    exact Or.inr (Or.inr ⟨hinfra, hsane, hsuper, hfree, rfl⟩)

/-- All checks of posing pass. -/
structure Passes (cfg : Config) (lists : Option Errno) (u : Universe) (infra : ℕ) : Prop where
  infra_ne : infra ≠ 0
  sane : isSane cfg lists (u.pair infra) = none
  super_ne : (u.pair infra).superclass ≠ 0
  held : u.classtable.lookup (u.classid (u.pair infra).superclass) ≠ none
  not_fast : getFastclasstableIndex cfg (u.classid (u.pair infra).superclass) = none

lemma passes_iff : Passes cfg lists u infra ↔ infra ≠ 0 ∧ isSane cfg lists (u.pair infra) = none ∧
    (u.pair infra).superclass ≠ 0 ∧ u.classtable.lookup (u.classid (u.pair infra).superclass) ≠ none ∧
      getFastclasstableIndex cfg (u.classid (u.pair infra).superclass) = none :=
  ⟨fun h => ⟨h.infra_ne, h.sane, h.super_ne, h.held, h.not_fast⟩, fun ⟨h1, h2, h3, h4, h5⟩ => ⟨h1, h2, h3, h4, h5⟩⟩

instance : Decidable (Passes cfg lists u infra) := decidable_of_iff' _ passes_iff

/-- The checks pass, and the class that is posed away can have another name. -/
structure Poses (cfg : Config) (lists : Option Errno) (u : Universe) (infra : ℕ) (newname : List Char) : Prop
    extends Passes cfg lists u infra where
  victimName_eq : victimName cfg u (u.pair (u.pair infra).superclass).name = some newname

/-- Posing succeeds. -/
def CanPose (cfg : Config) (lists : Option Errno) (u : Universe) (infra : ℕ) : Prop :=
  Passes cfg lists u infra ∧ victimName cfg u (u.pair (u.pair infra).superclass).name ≠ none

instance : Decidable (CanPose cfg lists u infra) := inferInstanceAs (Decidable (_ ∧ _))

lemma Poses.canPose {newname : List Char} (h : Poses cfg lists u infra newname) : CanPose cfg lists u infra :=
  ⟨h.toPasses, h.victimName_eq ▸ Option.some_ne_none _⟩

/-- The universe after posing: the poser has a new index and the place of its superclass, which has a new name and is
under the classid of that. -/
def Universe.posedAs (cfg : Config) (u : Universe) (infra : ℕ) (newname : List Char) : Universe :=
  (((u.stampClassindex infra).rename (u.pair infra).superclass newname).setClass (classidFromString cfg newname)
    (u.pair infra).superclass).setClass (u.classid (u.pair infra).superclass) infra

lemma posedAs_table : (u.posedAs cfg infra name).table =
    posed u.classid u.table (classidFromString cfg name) (u.pair infra).superclass infra := by
  unfold Universe.posedAs posed
  simp only [setClass_table, rename_table, stampClassindex_table]

lemma posedAs_classid : (u.posedAs cfg infra name).classid = u.classid := by
  unfold Universe.posedAs
  simp only [setClass_classid, rename_classid, stampClassindex_classid]

/-- **Posing**: nothing is done, or the class gets an index although there is no name for its superclass, or it poses. -/
theorem patchInfraclass_cases (cfg : Config) (lists : Option Errno) (u : Universe) (infra : ℕ) :
    (¬ Passes cfg lists u infra ∧ ∃ errno, patchInfraclass cfg lists u infra = (some errno, u)) ∨
    (Passes cfg lists u infra ∧ victimName cfg u (u.pair (u.pair infra).superclass).name = none ∧
      patchInfraclass cfg lists u infra = (some .enospc, u.stampClassindex infra)) ∨
    ∃ newname, Poses cfg lists u infra newname ∧
      patchInfraclass cfg lists u infra = (none, u.posedAs cfg infra newname) := by
  unfold patchInfraclass
  split
  · rename_i hinfra
    exact Or.inl ⟨fun h => h.infra_ne hinfra, _, rfl⟩
  rename_i hinfra
  split
  · rename_i hsane
    exact Or.inl ⟨fun h => absurd (hsane.symm.trans h.sane) (Option.some_ne_none _), _, rfl⟩
  rename_i hsane
  dsimp only
  split
  · rename_i hsuper
    exact Or.inl ⟨fun h => h.super_ne hsuper, _, rfl⟩
  rename_i hsuper
  split
  · rename_i hheld
    exact Or.inl ⟨fun h => h.held hheld, _, rfl⟩
  rename_i hheld
  split
  · rename_i hfast
    exact Or.inl ⟨fun h => hfast h.not_fast, _, rfl⟩
  rename_i hfast
  have hpasses : Passes cfg lists u infra := ⟨hinfra, hsane, hsuper, hheld, not_not.1 hfast⟩
  right
  simp only [victimName_stampClassindex, stampClassindex_name]
  split
  · rename_i hname
    exact Or.inl ⟨hpasses, hname, rfl⟩
  rename_i newname hname
  refine Or.inr ⟨newname, ⟨hpasses, hname⟩, ?_⟩
  have hfree := victimName_free hname
  have hne : u.classid (u.pair infra).superclass ≠ classidFromString cfg newname := by
    intro heq
    exact hheld (heq ▸ hfree)
  have hstill : (((u.stampClassindex infra).rename (u.pair infra).superclass newname).setClass
      (classidFromString cfg newname) (u.pair infra).superclass).classtable.lookup
      (u.classid (u.pair infra).superclass) = u.classtable.lookup (u.classid (u.pair infra).superclass) :=
    AList.lookup_insert_ne hne
  unfold registerInfraclassForClassid
  simp only [rename_classtable, stampClassindex_classtable, hfree]
  unfold patchClasstable
  rw [hstill]
  split
  · rename_i hnone
    exact absurd hnone hheld
  · rfl

/-- **Loading** -/
theorem loadclassEnqueue_eq_some {fastclassindex : ℤ} (h : loadclassEnqueue cfg lists fastclassindex u infra = some u') :
    ∃ v, (if fastclassindex ≥ 0 then setFastclass u infra fastclassindex.toNat else some u) = some v ∧
      registerInfraclass cfg lists v infra = (none, u') := by
  unfold loadclassEnqueue at h
  split at h
  · cases h
  rename_i v hv
  refine ⟨v, hv, ?_⟩
  split at h
  · cases h
  rename_i w hw
  cases h
  exact hw

lemma setFastclass_eq_some (h : setFastclass u infra index = some u') :
    index < sFastclasses ∧ u.fastclasstable index = 0 ∧
      u' = { u with fastclasstable := Function.update u.fastclasstable index infra } := by
  unfold setFastclass at h
  split at h
  · cases h
  rename_i hlt
  split at h
  · rename_i hzero
    cases h
    exact ⟨by omega, hzero, rfl⟩
  · cases h

/-! ## The steps -/

/-- A universe with one more class pair. -/
def Universe.withClasspair (u : Universe) (classid : ℕ) (name : List Char) (superclass : ℕ) : Universe :=
  { u with
    allocated := u.allocated + 1
    pair := Function.update u.pair (u.allocated + 1) ⟨classid, name, superclass, 0⟩ }

lemma withClasspair_classid (superclass : ℕ) (h : c ≤ u.allocated) :
    (u.withClasspair classid name superclass).classid c = u.classid c := by
  unfold Universe.withClasspair Universe.classid
  simp only [Function.update_of_ne (show c ≠ u.allocated + 1 by omega)]

lemma newClasspair_cases (cfg : Config) (u : Universe) (classid : ℕ) (name : List Char) (superclass : ℕ) :
    (∃ errno, newClasspair cfg u classid name superclass = (some errno, u)) ∨
    (classid ≠ noUniqueid.toNat ∧ newClasspair cfg u classid name superclass =
      (none, u.withClasspair classid name superclass)) := by
  unfold newClasspair
  split
  · exact Or.inl ⟨_, rfl⟩
  rename_i hid
  split
  · exact Or.inl ⟨_, rfl⟩
  split
  · exact Or.inl ⟨_, rfl⟩
  · exact Or.inr ⟨fun h => hid (Or.inl h), rfl⟩

/-- A universe whose table of fast classes may have changed. -/
def SameButFast (u v : Universe) : Prop := ∃ fastclasstable, v = { u with fastclasstable }

/-- What a step does. -/
inductive Effect (cfg : Config) (u : Universe) : Action → Universe → Prop
  | notCreated (classid : ℕ) (name : List Char) (superclass : ℕ) : Effect cfg u (.newClasspair classid name superclass) u
  | notRegistered (infra : ℕ) (lists : Option Errno) : Effect cfg u (.register infra lists) u
  | created (classid : ℕ) (name : List Char) (superclass : ℕ) (hid : classid ≠ noUniqueid.toNat)
      (hle : superclass ≤ u.allocated) :
      Effect cfg u (.newClasspair classid name superclass) (u.withClasspair classid name superclass)
  /-- The classid is taken, after the class has got a new index. -/
  | stamped (infra : ℕ) (lists : Option Errno) (hle : infra ≤ u.allocated) (hne : infra ≠ 0)
      (hsane : isSane cfg lists (u.pair infra) = none) (hsuper : HasSuperclass u infra) (hheld : u.classtable.lookup (u.classid infra) ≠ none) :
      Effect cfg u (.register infra lists) (u.stampClassindex infra)
  | registered (infra : ℕ) (lists : Option Errno) (hle : infra ≤ u.allocated) (hne : infra ≠ 0)
      (hsane : isSane cfg lists (u.pair infra) = none) (hsuper : HasSuperclass u infra) (hfree : u.classtable.lookup (u.classid infra) = none) :
      Effect cfg u (.register infra lists) ((u.stampClassindex infra).setClass (u.classid infra) infra)
  | loaded (infra : ℕ) (fastclassindex : ℤ) (lists : Option Errno) (v : Universe)
      (hv : (if fastclassindex ≥ 0 then setFastclass u infra fastclassindex.toNat else some u) = some v)
      (hle : infra ≤ v.allocated) (hne : infra ≠ 0) (hsuper : HasSuperclass v infra)
      (hfree : v.classtable.lookup (v.classid infra) = none) :
      Effect cfg u (.load infra fastclassindex lists) ((v.stampClassindex infra).setClass (v.classid infra) infra)
  | notPosed (infra : ℕ) (lists : Option Errno) (hchecks : ¬ Passes cfg lists u infra) : Effect cfg u (.pose infra lists) u
  /-- There is no name for the superclass, after the class has got a new index. -/
  | nameless (infra : ℕ) (lists : Option Errno) (hle : infra ≤ u.allocated) (hchecks : Passes cfg lists u infra)
      (hname : victimName cfg u (u.pair (u.pair infra).superclass).name = none) :
      Effect cfg u (.pose infra lists) (u.stampClassindex infra)
  | posed (infra : ℕ) (lists : Option Errno) (newname : List Char) (hle : infra ≤ u.allocated)
      (hposes : Poses cfg lists u infra newname) : Effect cfg u (.pose infra lists) (u.posedAs cfg infra newname)

lemma sameButFast_of_set {fastclassindex : ℤ} {v : Universe}
    (hv : (if fastclassindex ≥ 0 then setFastclass u infra fastclassindex.toNat else some u) = some v) :
    SameButFast u v := by
  split at hv
  · obtain ⟨-, -, rfl⟩ := setFastclass_eq_some hv
    exact ⟨_, rfl⟩
  · cases hv
    exact ⟨u.fastclasstable, rfl⟩

theorem step_effect {a : Action} (h : step cfg u a = some u') : Effect cfg u a u' := by
  cases a with
  | newClasspair classid name superclass =>
    simp only [step] at h
    split at h
    · rename_i hle
      rcases newClasspair_cases cfg u classid name superclass with ⟨errno, hnew⟩ | ⟨hid, hnew⟩
      · rw [hnew] at h
        cases h
        exact .notCreated classid name superclass
      · rw [hnew] at h
        cases h
        exact .created classid name superclass hid hle
    · cases h
  | register infra lists =>
    simp only [step] at h
    split at h
    · rename_i hle
      rcases registerInfraclass_cases cfg lists u infra with ⟨errno, hreg⟩ | ⟨hne, hsane, hsuper, hheld, hreg⟩ |
        ⟨hne, hsane, hsuper, hfree, hreg⟩
      · rw [hreg] at h
        cases h
        exact .notRegistered infra lists
      · rw [hreg] at h
        cases h
        exact .stamped infra lists hle hne hsane hsuper hheld
      · rw [hreg] at h
        cases h
        exact .registered infra lists hle hne hsane hsuper hfree
    · cases h
  | load infra fastclassindex lists =>
    simp only [step] at h
    split at h
    · rename_i hle
      obtain ⟨v, hv, hreg⟩ := loadclassEnqueue_eq_some h
      have hle : infra ≤ v.allocated := by
        obtain ⟨_, rfl⟩ := sameButFast_of_set hv
        exact hle
      rcases registerInfraclass_cases cfg lists v infra with ⟨errno, hreg'⟩ | ⟨-, -, -, -, hreg'⟩ |
        ⟨hne, -, hsuper, hfree, hreg'⟩
      · rw [hreg'] at hreg
        cases hreg
      · rw [hreg'] at hreg
        cases hreg
      · rw [hreg'] at hreg
        cases hreg
        exact .loaded infra fastclassindex lists v hv hle hne hsuper hfree
    · cases h
  | pose infra lists =>
    simp only [step] at h
    split at h
    · rename_i hle
      rcases patchInfraclass_cases cfg lists u infra with ⟨hchecks, errno, hpatch⟩ | ⟨hchecks, hname, hpatch⟩ |
        ⟨newname, hposes, hpatch⟩
      · rw [hpatch] at h
        cases h
        exact .notPosed infra lists hchecks
      · rw [hpatch] at h
        cases h
        exact .nameless infra lists hle hchecks hname
      · rw [hpatch] at h
        cases h
        exact .posed infra lists newname hle hposes
    · cases h

/-! ## Addresses -/

/-- The superclass of a class pair is older, and what is in the classtable exists. -/
structure Allocated (u : Universe) : Prop where
  superclass_lt : ∀ c, c ≠ 0 → c ≤ u.allocated → (u.pair c).superclass < c
  listed : ∀ c, Listed u c → c ≠ 0 ∧ c ≤ u.allocated

lemma allocated_new : Allocated Universe.new := by
  refine ⟨fun c hne hle => ?_, fun c ⟨k, hk⟩ => ?_⟩
  · exact absurd (Nat.le_zero.1 hle) hne
  · cases hk

lemma listed_setClass (h : Listed (u.setClass classid infra) c) : c = infra ∨ Listed u c := by
  obtain ⟨k, hk⟩ := h
  rw [setClass_table] at hk
  by_cases hkid : k = classid
  · subst hkid
    rw [Function.update_self] at hk
    exact Or.inl (Option.some.inj hk).symm
  · rw [Function.update_of_ne hkid] at hk
    exact Or.inr ⟨k, hk⟩

namespace Allocated

lemma stampClassindex (h : Allocated u) (infra : ℕ) : Allocated (u.stampClassindex infra) := by
  refine ⟨fun c hne hle => ?_, h.listed⟩
  rw [stampClassindex_superclass]
  exact h.superclass_lt c hne hle

lemma rename (h : Allocated u) (infra : ℕ) (name : List Char) : Allocated (u.rename infra name) := by
  refine ⟨fun c hne hle => ?_, h.listed⟩
  rw [rename_superclass]
  exact h.superclass_lt c hne hle

lemma setClass (h : Allocated u) (classid : ℕ) (hne : infra ≠ 0) (hle : infra ≤ u.allocated) :
    Allocated (u.setClass classid infra) := by
  refine ⟨h.superclass_lt, fun c hc => ?_⟩
  rcases listed_setClass hc with rfl | hold
  · exact ⟨hne, hle⟩
  · exact h.listed c hold

lemma sameButFast {v : Universe} (h : Allocated u) (hv : SameButFast u v) : Allocated v := by
  obtain ⟨_, rfl⟩ := hv
  exact ⟨h.superclass_lt, h.listed⟩

lemma withClasspair (h : Allocated u) {superclass : ℕ} (hle : superclass ≤ u.allocated) :
    Allocated (u.withClasspair classid name superclass) := by
  refine ⟨fun c hne hlec => ?_, fun c hc => ?_⟩
  · unfold Universe.withClasspair at hlec ⊢
    by_cases hc : c = u.allocated + 1
    · subst hc
      simp only [Function.update_self]
      omega
    · simp only [Function.update_of_ne hc]
      exact h.superclass_lt c hne (by simp only at hlec; omega)
  · obtain ⟨hne, hlec⟩ := h.listed c hc
    exact ⟨hne, Nat.le_succ_of_le hlec⟩

lemma superclass_le (h : Allocated u) (hne : infra ≠ 0) (hle : infra ≤ u.allocated) :
    (u.pair infra).superclass ≤ u.allocated :=
  Nat.le_of_lt (Nat.lt_of_lt_of_le (h.superclass_lt infra hne hle) hle)

theorem step {a : Action} (h : Allocated u) (hstep : Registry.step cfg u a = some u') : Allocated u' := by
  cases step_effect hstep with
  | notCreated => exact h
  | notRegistered => exact h
  | created classid name superclass _ hle => exact h.withClasspair hle
  | notPosed => exact h
  | stamped infra => exact h.stampClassindex infra
  | nameless infra => exact h.stampClassindex infra
  | registered infra lists hle hne => exact (h.stampClassindex infra).setClass _ hne hle
  | loaded infra fastclassindex lists v hv hle hne =>
    exact ((h.sameButFast (sameButFast_of_set hv)).stampClassindex infra).setClass _ hne hle
  | posed infra lists newname hle hposes =>
    exact (((h.stampClassindex infra).rename _ newname).setClass _ hposes.super_ne
      (h.superclass_le hposes.infra_ne hle)).setClass _ hposes.infra_ne hle

end Allocated

end MulleObjcRuntime.Registry
