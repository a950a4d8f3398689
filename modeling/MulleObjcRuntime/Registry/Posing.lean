import MulleObjcRuntime.Lib.Runs
import MulleObjcRuntime.Registry.Steps

/-!
# Posing that fails

`mulle_objc_universe_patch_infraclass` with everything that can go wrong, the hashmap of the classtable included.

* `Universe.Named` — a universe with the names of the metaclasses, which posing changes as well;
* `Faults`, `patch` — what the hashmap reports, and posing;
* `AllOrNothing` — a failure leaves everything as it was;
* `Failed`, `patch_failed` — what a failure leaves behind.
-/

namespace MulleObjcRuntime.Registry

open Lib.Runs

/-- A universe with the names of its metaclasses, each by the address of its infraclass. -/
structure Universe.Named extends Universe where
  metaname : ℕ → List Char

namespace Universe.Named

/-- A universe in which a metaclass has the name of its infraclass, as `mulle_objc_universe_new_classpair` sets it. -/
def ofUniverse (u : Universe) : Named := ⟨u, fun c => (u.pair c).name⟩

/-- The class pair gets the next class index. -/
def stampClassindex (u : Named) (infra : ℕ) : Named := { u with toUniverse := u.toUniverse.stampClassindex infra }

/-- The infraclass and the metaclass get another name. -/
def rename (u : Named) (infra : ℕ) (name : List Char) : Named where
  toUniverse := u.toUniverse.rename infra name
  metaname := Function.update u.metaname infra name

/-- An entry of the classtable is set. -/
def setClass (u : Named) (classid infra : ℕ) : Named := { u with toUniverse := u.toUniverse.setClass classid infra }

end Universe.Named

open Universe (Named)

/-- What goes wrong in the hashmap. -/
structure Faults where
  /-- `_mulle_concurrent_hashmap_register` gives `MULLE_CONCURRENT_INVALID_POINTER`, with this `errno`, if there is one. -/
  register : Option (Option Errno)
  /-- `_mulle_concurrent_hashmap_patch` gives this. -/
  patch : Option Errno
deriving DecidableEq, Repr

/-- Nothing goes wrong. -/
def Faults.none : Faults := ⟨.none, .none⟩

section Patch

variable (cfg : Config) (faults : Faults)

/-- `_mulle_objc_universe_register_infraclass_for_classid`, and how posing reports its errors. -/
def registerVictim (u : Named) (infra classid : ℕ) : Option Errno × Named :=
  match faults.register with
  | some errno => (some (errno.getD .efault), u)
  | .none =>
    let (errno, u') := registerInfraclassForClassid u.toUniverse infra classid
    (errno, { u with toUniverse := u' })

/-- `_mulle_concurrent_hashmap_patch` on the classtable -/
def patchVictim (u : Named) (classid infra : ℕ) : Option Errno × Named :=
  match faults.patch with
  | some errno => (some errno, u)
  | .none =>
    let (errno, u') := patchClasstable u.toUniverse classid infra
    (errno, { u with toUniverse := u' })

/-- `mulle_objc_universe_patch_infraclass` -/
def patch (lists : Option Errno) (u : Named) (infra : ℕ) : Option Errno × Named :=
  if infra = 0 then (some .einval, u)
  else
    match isSane cfg lists (u.pair infra) with
    | some errno => (some errno, u)
    | .none =>
      let superclass := (u.pair infra).superclass
      if superclass = 0 then (some .einval, u)
      else
        let superclassid := u.classid superclass
        if u.classtable.lookup superclassid = .none then (some .efault, u)
        else if getFastclasstableIndex cfg superclassid ≠ .none then (some .edom, u)
        else
          let u := u.stampClassindex infra
          match victimName cfg u.toUniverse (u.pair superclass).name with
          | .none => (some .enospc, u)
          | some newname =>
            let u := u.rename superclass newname
            match registerVictim faults u superclass (classidFromString cfg newname) with
            | (some errno, u) => (some errno, u)
            | (.none, u) => patchVictim faults u superclassid infra

/-- **A posing that fails leaves the classtable, all names and the class index of the poser as they were.** -/
def AllOrNothing (lists : Option Errno) (u : Named) (infra : ℕ) : Prop :=
  ∀ errno u', patch cfg faults lists u infra = (some errno, u') →
    u'.classtable = u.classtable ∧ (∀ c, (u'.pair c).name = (u.pair c).name ∧ u'.metaname c = u.metaname c) ∧
      (u'.pair infra).classindex = (u.pair infra).classindex

end Patch

variable {cfg : Config} {faults : Faults} {lists : Option Errno} {u u' : Named} {infra classid c : ℕ}
  {name : List Char} {errno : Errno}

/-! ## What the steps change -/

section Steps

@[simp] lemma named_stampClassindex_classtable : (u.stampClassindex infra).classtable = u.classtable := rfl
@[simp] lemma named_stampClassindex_metaname : (u.stampClassindex infra).metaname = u.metaname := rfl
@[simp] lemma named_rename_classtable : (u.rename infra name).classtable = u.classtable := rfl
@[simp] lemma named_setClass_pair : (u.setClass classid infra).pair = u.pair := rfl
@[simp] lemma named_setClass_metaname : (u.setClass classid infra).metaname = u.metaname := rfl

@[simp] lemma named_stampClassindex_name : ((u.stampClassindex infra).pair c).name = (u.pair c).name :=
  stampClassindex_name

@[simp] lemma named_stampClassindex_superclass :
    ((u.stampClassindex infra).pair c).superclass = (u.pair c).superclass :=
  stampClassindex_superclass

@[simp] lemma named_victimName_stampClassindex (basename : List Char) :
    victimName cfg (u.stampClassindex infra).toUniverse basename = victimName cfg u.toUniverse basename := rfl

lemma named_rename_name_of_ne (h : c ≠ infra) : ((u.rename infra name).pair c).name = (u.pair c).name := by
  unfold Named.rename Universe.rename
  simp only [Function.update_of_ne h]

lemma named_rename_metaname_of_ne (h : c ≠ infra) : (u.rename infra name).metaname c = u.metaname c := by
  unfold Named.rename
  simp only [Function.update_of_ne h]

lemma named_setClass_lookup_of_ne {k : ℕ} (h : k ≠ classid) :
    (u.setClass classid infra).classtable.lookup k = u.classtable.lookup k :=
  AList.lookup_insert_ne h

end Steps

/-! ## What a failure leaves behind -/

/-- What a posing that fails leaves behind: nothing is taken back. -/
inductive Failed (cfg : Config) (faults : Faults) (lists : Option Errno) (u : Named) (infra : ℕ) : Named → Prop
  /-- A check fails: nothing has changed. -/
  | refused (hchecks : ¬ Passes cfg lists u.toUniverse infra) : Failed cfg faults lists u infra u
  /-- No name is free: the poser has another class index. -/
  | nameless (hchecks : Passes cfg lists u.toUniverse infra)
      (hname : victimName cfg u.toUniverse (u.pair (u.pair infra).superclass).name = none) :
      Failed cfg faults lists u infra (u.stampClassindex infra)
  /-- The victim is not registered again: it has another name, too. -/
  | unregistered {newname : List Char} (hchecks : Passes cfg lists u.toUniverse infra)
      (hname : victimName cfg u.toUniverse (u.pair (u.pair infra).superclass).name = some newname)
      (hfault : faults.register ≠ none) :
      Failed cfg faults lists u infra ((u.stampClassindex infra).rename (u.pair infra).superclass newname)
  /-- The patch fails: the victim is in the classtable a second time, too, under the classid of that name. -/
  | unpatched {newname : List Char} (hchecks : Passes cfg lists u.toUniverse infra)
      (hname : victimName cfg u.toUniverse (u.pair (u.pair infra).superclass).name = some newname)
      (hfault : faults.register = none ∧ faults.patch ≠ none) :
      Failed cfg faults lists u infra
        (((u.stampClassindex infra).rename (u.pair infra).superclass newname).setClass
          (classidFromString cfg newname) (u.pair infra).superclass)

variable (faults) in
/-- A check that fails comes before every change. -/
lemma patch_of_not_passes (h : ¬ Passes cfg lists u.toUniverse infra) :
    ∃ errno, patch cfg faults lists u infra = (some errno, u) := by
  unfold patch
  split
  · exact ⟨_, rfl⟩
  rename_i hinfra
  split
  · exact ⟨_, rfl⟩
  rename_i hsane
  dsimp only
  split
  · exact ⟨_, rfl⟩
  rename_i hsuper
  split
  · exact ⟨_, rfl⟩
  rename_i hheld
  split
  · exact ⟨_, rfl⟩
  rename_i hfast
  exact absurd ⟨hinfra, hsane, hsuper, hheld, not_not.1 hfast⟩ h

lemma patch_of_passes (h : Passes cfg lists u.toUniverse infra) :
    patch cfg faults lists u infra =
      match victimName cfg u.toUniverse (u.pair (u.pair infra).superclass).name with
      | none => (some .enospc, u.stampClassindex infra)
      | some newname =>
        match registerVictim faults ((u.stampClassindex infra).rename (u.pair infra).superclass newname)
          (u.pair infra).superclass (classidFromString cfg newname) with
        | (some errno, u) => (some errno, u)
        | (none, v) => patchVictim faults v (u.classid (u.pair infra).superclass) infra := by
  unfold patch
  rw [if_neg h.infra_ne]
  simp only [h.sane]
  rw [if_neg h.super_ne, if_neg h.held, if_neg (not_not.2 h.not_fast)]
  simp only [named_stampClassindex_name]
  rfl

variable (faults) in
lemma registerVictim_renamed {newname basename : List Char} (hfault : faults.register = none)
    (hname : victimName cfg u.toUniverse basename = some newname) :
    registerVictim faults ((u.stampClassindex infra).rename c newname) c (classidFromString cfg newname) =
      (none, ((u.stampClassindex infra).rename c newname).setClass (classidFromString cfg newname) c) := by
  have hfree := victimName_free hname
  unfold registerVictim registerInfraclassForClassid
  simp only [hfault, named_rename_classtable, named_stampClassindex_classtable, hfree]
  rfl

lemma patchVictim_held {k : ℕ} {v : Named} (hfault : faults.patch = none) (hheld : v.classtable.lookup k ≠ none) :
    patchVictim faults v k infra = (none, v.setClass k infra) := by
  obtain ⟨held, hheld⟩ := Option.ne_none_iff_exists'.1 hheld
  unfold patchVictim patchClasstable
  simp only [hfault, hheld]
  rfl

/-- Every failure leaves one of these universes behind. -/
lemma failed_of_patch (h : patch cfg faults lists u infra = (some errno, u')) :
    Failed cfg faults lists u infra u' := by
  by_cases hchecks : Passes cfg lists u.toUniverse infra
  swap
  · obtain ⟨errno', herrno⟩ := patch_of_not_passes faults hchecks
    rw [herrno] at h
    cases h
    exact .refused hchecks
  rw [patch_of_passes hchecks] at h
  cases hname : victimName cfg u.toUniverse (u.pair (u.pair infra).superclass).name with
  | none =>
    simp only [hname] at h
    cases h
    exact .nameless hchecks hname
  | some newname =>
    simp only [hname] at h
    cases hregister : faults.register with
    | some e =>
      unfold registerVictim at h
      simp only [hregister] at h
      cases h
      exact .unregistered hchecks hname (by simp [hregister])
    | none =>
      rw [registerVictim_renamed faults hregister hname] at h
      dsimp only at h
      have hne : u.classid (u.pair infra).superclass ≠ classidFromString cfg newname := by
        intro heq
        exact hchecks.held (heq ▸ victimName_free hname)
      cases hpatch : faults.patch with
      | some e =>
        unfold patchVictim at h
        simp only [hpatch] at h
        cases h
        exact .unpatched hchecks hname ⟨hregister, by simp [hpatch]⟩
      | none =>
        rw [patchVictim_held hpatch (by rw [named_setClass_lookup_of_ne hne]; exact hchecks.held)] at h
        cases h

namespace Failed

lemma lookup (h : Failed cfg faults lists u infra u') {k : ℕ} (hk : u.classtable.lookup k ≠ none) :
    u'.classtable.lookup k = u.classtable.lookup k := by
  cases h with
  | refused => rfl
  | nameless => rfl
  | unregistered => rfl
  | unpatched hchecks hname hfault =>
    rw [named_setClass_lookup_of_ne]
    · rfl
    · rintro rfl
      exact hk (victimName_free hname)

lemma name_of_ne (h : Failed cfg faults lists u infra u') (hc : c ≠ (u.pair infra).superclass) :
    (u'.pair c).name = (u.pair c).name ∧ u'.metaname c = u.metaname c := by
  cases h with
  | refused => exact ⟨rfl, rfl⟩
  | nameless => exact ⟨named_stampClassindex_name, rfl⟩
  | unregistered hchecks hname hfault =>
    exact ⟨(named_rename_name_of_ne hc).trans named_stampClassindex_name, named_rename_metaname_of_ne hc⟩
  | unpatched hchecks hname hfault =>
    exact ⟨(named_rename_name_of_ne hc).trans named_stampClassindex_name, named_rename_metaname_of_ne hc⟩

end Failed

/-- **When posing fails, nothing is taken back.**  A check that fails changes nothing; after that, the poser has another
class index, and what has been done with the superclass stays.  All entries of the classtable stay in any case, and no
other class gets another name. -/
theorem patch_failed (h : patch cfg faults lists u infra = (some errno, u')) :
    Failed cfg faults lists u infra u' ∧
      (∀ k, u.classtable.lookup k ≠ none → u'.classtable.lookup k = u.classtable.lookup k) ∧
      ∀ c, c ≠ (u.pair infra).superclass → (u'.pair c).name = (u.pair c).name ∧ u'.metaname c = u.metaname c := by
  have hfailed := failed_of_patch h
  refine ⟨hfailed, ?_, ?_⟩
  · intro k hk
    exact hfailed.lookup hk
  · intro c hc
    exact hfailed.name_of_ne hc

/-- Without memory for the patch, the superclass is in the classtable twice. -/
theorem patch_failed_foo :
    ∃ u u', run (step sampleConfig) Universe.new
        (sampleClass ['B', 'a', 'r'] 0 1 ++ sampleClass ['F', 'o', 'o'] 1 2) = some u ∧
      Failed sampleConfig ⟨none, some .enomem⟩ none (.ofUniverse u) 2 u' ∧
      ∀ k, u.classtable.lookup k ≠ none → u'.classtable.lookup k = u.classtable.lookup k := by
  have hrun : (run (step sampleConfig) Universe.new
      (sampleClass ['B', 'a', 'r'] 0 1 ++ sampleClass ['F', 'o', 'o'] 1 2)).map (fun u =>
        (patch sampleConfig ⟨none, some .enomem⟩ none (.ofUniverse u) 2).1) = some (some .enomem) := by
    decide +kernel
  obtain ⟨u, hu, herrno⟩ := Option.map_eq_some_iff.1 hrun
  have hfailed := patch_failed (Prod.ext herrno rfl)
  exact ⟨u, _, hu, hfailed.1, hfailed.2.1⟩

/-- **When nothing goes wrong in the hashmap, posing is `patchInfraclass`.** -/
theorem patch_none (cfg : Config) (lists : Option Errno) (u : Named) (infra : ℕ) :
    (patch cfg .none lists u infra).map id Named.toUniverse = patchInfraclass cfg lists u.toUniverse infra := by
  unfold patch patchInfraclass
  by_cases hinfra : infra = 0
  · rw [if_pos hinfra, if_pos hinfra]
    rfl
  rw [if_neg hinfra, if_neg hinfra]
  cases hsane : isSane cfg lists (u.pair infra) with
  | some errno => rfl
  | none =>
    simp only
    by_cases hsuper : (u.pair infra).superclass = 0
    · rw [if_pos hsuper, if_pos hsuper]
      rfl
    rw [if_neg hsuper, if_neg hsuper]
    by_cases hheld : u.classtable.lookup (u.classid (u.pair infra).superclass) = none
    · rw [if_pos hheld, if_pos hheld]
      rfl
    rw [if_neg hheld, if_neg hheld]
    by_cases hfast : getFastclasstableIndex cfg (u.classid (u.pair infra).superclass) ≠ none
    · rw [if_pos hfast, if_pos hfast]
      rfl
    rw [if_neg hfast, if_neg hfast]
    simp only [named_stampClassindex_name, named_victimName_stampClassindex, victimName_stampClassindex,
      stampClassindex_name]
    cases hname : victimName cfg u.toUniverse (u.pair (u.pair infra).superclass).name with
    | none => rfl
    | some newname =>
      simp only
      rw [registerVictim_renamed .none rfl hname]
      unfold registerInfraclassForClassid patchVictim
      simp only [Faults.none, rename_classtable, stampClassindex_classtable, victimName_free hname]
      rfl

/-! ## Thirty-two names -/

/-- The classes `Bar`, `%Bar`, and so on up to `%%%%%%%%%%%%%%%%%%%%%%%%%%%%%%%%Bar`, and a subclass `Foo` of `Bar`. -/
def crowdedBar : List Action :=
  ((List.range 33).flatMap fun depth => sampleClass (List.replicate depth '%' ++ ['B', 'a', 'r']) 0 (depth + 1)) ++
    sampleClass ['F', 'o', 'o'] 1 34

/-- **A posing for which no name is left has already changed the class index of the poser.** -/
theorem crowded_changes_classindex :
    ∃ u, run (step sampleConfig) Universe.new crowdedBar = some u ∧
      ¬ AllOrNothing sampleConfig .none none (.ofUniverse u) 34 := by
  have hrun : (run (step sampleConfig) Universe.new crowdedBar).map (fun u =>
      ((patch sampleConfig .none none (.ofUniverse u) 34).1, (u.pair 34).classindex,
        ((patch sampleConfig .none none (.ofUniverse u) 34).2.pair 34).classindex)) =
      some (some .enospc, 33, 34) := by
    decide +kernel
  obtain ⟨u, hu, hresult⟩ := Option.map_eq_some_iff.1 hrun
  obtain ⟨herrno, hresult⟩ := Prod.mk.inj hresult
  obtain ⟨hbefore, hafter⟩ := Prod.mk.inj hresult
  refine ⟨u, hu, ?_⟩
  intro hall
  have hsame := (hall .enospc _ (Prod.ext herrno rfl)).2.2
  rw [hafter] at hsame
  exact absurd (hsame.trans hbefore) (by decide)

end MulleObjcRuntime.Registry
