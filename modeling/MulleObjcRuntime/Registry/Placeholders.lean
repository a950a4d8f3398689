import MulleObjcRuntime.Registry.Owners
import MulleObjcRuntime.Registry.Teardown

/-!
# Placeholders at the end of a universe

A class may have placeholders, objects that a teardown gets rid of, class by class.

* `PlaceholderIndex`, `deallocPlaceholders` — what the teardown does for one kind of placeholder;
* `Furnished`, `furnishedStep` — runs in which classes get placeholders;
* `DeallocsEachOnce` — every placeholder of a class that has ever been registered is handled once;
* `KeepsInPlace` — a step that leaves the classes with placeholders under their own classids;
* `deallocsEachOnce_iff` — a run handles them all exactly when all its steps do so.
-/

namespace MulleObjcRuntime.Registry

open Lib.OwnedKeys Lib.Runs

/-- `enum _mulle_objc_infraclass_placeholder_index` -/
inductive PlaceholderIndex
  | classcluster
  | instantiate
  | singleton
deriving DecidableEq, Repr

/-- The methodids that the functions of `dealloc_functions` look up. -/
def PlaceholderIndex.deallocSel : PlaceholderIndex → ℕ
  | .classcluster => 0x0f0ab9f6
  | .instantiate => 0x74cf60ba
  | .singleton => 0xcdfeb729

/-- A call of `_mulle_objc_constantobject_dealloc`, for the placeholder of a class. -/
structure Dealloc where
  infra : ℕ
  placeholder : ℕ
  deallocSel : ℕ
deriving DecidableEq, Repr

/-- `_mulle_objc_universe_dealloc_placeholders`, with the entries of the classtable in the order of the enumerator. -/
def deallocPlaceholders (u : Universe) (placeholders : ℕ → PlaceholderIndex → ℕ) (index : PlaceholderIndex)
    (rover : List (Σ _ : ℕ, ℕ)) : List Dealloc :=
  rover.filterMap fun ⟨classid, infra⟩ =>
    if u.classid infra ≠ classid then none
    else
      let obj := placeholders infra index
      if obj ≠ 0 then some ⟨infra, obj, index.deallocSel⟩ else none

/-! ## Runs -/

/-- A universe with a record of its classes, and the placeholders of these. -/
structure Furnished where
  recorded : Recorded
  placeholders : ℕ → PlaceholderIndex → ℕ

/-- The start of a run. -/
def Furnished.new : Furnished := ⟨Recorded.new, fun _ _ => 0⟩

/-- What is done with classes: the actions of the registry, and `_mulle_objc_infraclass_set_placeholder`. -/
inductive FurnishAction
  | registry (a : Action)
  | setPlaceholder (infra : ℕ) (index : PlaceholderIndex) (obj : ℕ)
deriving DecidableEq, Repr

/-- `_mulle_objc_infraclass_set_placeholder`: the first one stays. -/
def Furnished.setPlaceholder (s : Furnished) (infra : ℕ) (index : PlaceholderIndex) (obj : ℕ) : Furnished :=
  if s.placeholders infra index = 0 then
    { s with
      placeholders := Function.update s.placeholders infra (Function.update (s.placeholders infra) index obj) }
  else s

/-- A step -/
def furnishedStep (cfg : Config) (s : Furnished) : FurnishAction → Option Furnished
  | .registry a => (recordedStep cfg s.recorded a).map fun recorded => { s with recorded }
  | .setPlaceholder infra index obj =>
    if infra ≤ s.recorded.now.allocated then some (s.setPlaceholder infra index obj) else none

/-- **The placeholder of every class that has ever been registered is handled once**, in whatever order the classtable
is enumerated. -/
def DeallocsEachOnce (index : PlaceholderIndex) (s : Furnished) : Prop :=
  ∀ infra ∈ s.recorded.registered, s.placeholders infra index ≠ 0 →
    ∀ rover, rover.Perm s.recorded.now.classtable.entries →
      (deallocPlaceholders s.recorded.now s.placeholders index rover).count
        ⟨infra, s.placeholders infra index, index.deallocSel⟩ = 1

/-- A class that is found by its own classid. -/
def InPlace (u : Universe) (infra : ℕ) : Prop := u.table (u.classid infra) = some infra

/-- A step that leaves every class with a placeholder under its own classid: a posing that fails, or where the poser has
none or is found already, and neither the class that is posed away nor another one with its classid has one, or a
placeholder for a class that is found or has never been registered. -/
def KeepsInPlace (cfg : Config) (index : PlaceholderIndex) (s : Furnished) : FurnishAction → Prop
  | .registry (.pose infra lists) =>
    let u := s.recorded.now
    let superclass := (u.pair infra).superclass
    CanPose cfg lists u infra → (s.placeholders infra index ≠ 0 → u.classid infra = u.classid superclass ∨ InPlace u infra) ∧
      ∀ c ∈ superclass :: s.recorded.registered, c ≠ infra → u.classid c = u.classid superclass →
        s.placeholders c index = 0
  | .registry _ => True
  | .setPlaceholder infra index' obj =>
    infra ∈ s.recorded.registered → index' = index → obj ≠ 0 → InPlace s.recorded.now infra

instance (u : Universe) : DecidablePred (InPlace u) := fun _ => inferInstanceAs (Decidable (_ = _))

instance (cfg : Config) (index : PlaceholderIndex) (s : Furnished) : DecidablePred (KeepsInPlace cfg index s)
  | .registry (.newClasspair _ _ _) | .registry (.register _ _) | .registry (.load _ _ _) =>
    inferInstanceAs (Decidable True)
  | .registry (.pose _ _) => inferInstanceAs (Decidable (_ → (_ → _ ∨ _) ∧ ∀ c ∈ _ :: _, _ → _ → _ = _))
  | .setPlaceholder _ _ _ => inferInstanceAs (Decidable (_ → _ → _ → _))

variable {cfg : Config} {u u' : Universe} {index : PlaceholderIndex} {placeholders : ℕ → PlaceholderIndex → ℕ}
  {s s' : Furnished} {infra c : ℕ} {name : List Char} {lists : Option Errno}

/-! ## A teardown -/

/-- The entry of a class under its own classid is the one for which its placeholder is handled. -/
lemma count_deallocPlaceholders_eq (hinfra : placeholders infra index ≠ 0) (rover : List (Σ _ : ℕ, ℕ)) :
    (deallocPlaceholders u placeholders index rover).count ⟨infra, placeholders infra index, index.deallocSel⟩ =
      rover.count ⟨u.classid infra, infra⟩ := by
  induction rover with
  | nil => rfl
  | cons e rover ih =>
    obtain ⟨classid, c⟩ := e
    unfold deallocPlaceholders at ih ⊢
    by_cases hclassid : u.classid c = classid
    · by_cases hobj : placeholders c index = 0
      · have hne : (⟨classid, c⟩ : Σ _ : ℕ, ℕ) ≠ ⟨u.classid infra, infra⟩ := by
          rintro ⟨⟩
          exact hinfra hobj
        rw [List.filterMap_cons_none (by simp [hclassid, hobj]), List.count_cons_of_ne hne, ih]
      · rw [List.filterMap_cons_some (by simp [hclassid, hobj]; rfl)]
        by_cases hc : c = infra
        · subst hc hclassid
          rw [List.count_cons_self, List.count_cons_self, ih]
        · have hne : (⟨classid, c⟩ : Σ _ : ℕ, ℕ) ≠ ⟨u.classid infra, infra⟩ := fun h => hc (by cases h; rfl)
          rw [List.count_cons_of_ne (fun h => hc (Dealloc.mk.inj h).1), List.count_cons_of_ne hne, ih]
    · have hne : (⟨classid, c⟩ : Σ _ : ℕ, ℕ) ≠ ⟨u.classid infra, infra⟩ := by
        rintro ⟨⟩
        exact hclassid rfl
      rw [List.filterMap_cons_none (by simp [hclassid]), List.count_cons_of_ne hne, ih]

lemma count_deallocPlaceholders (hinfra : placeholders infra index ≠ 0) {rover : List (Σ _ : ℕ, ℕ)}
    (hrover : rover.Perm u.classtable.entries) :
    (deallocPlaceholders u placeholders index rover).count ⟨infra, placeholders infra index, index.deallocSel⟩ = 1 ↔
      InPlace u infra := by
  have hnodup : rover.Nodup := hrover.nodup_iff.2 (List.NodupKeys.nodup u.classtable.nodupKeys)
  have hmem : InPlace u infra ↔ (⟨u.classid infra, infra⟩ : Σ _ : ℕ, ℕ) ∈ rover := by
    rw [hrover.mem_iff, InPlace, Universe.table, ← Option.mem_def, AList.mem_lookup_iff]
  rw [count_deallocPlaceholders_eq hinfra, hmem]
  constructor
  · intro hcount
    exact List.count_pos_iff.1 (by omega)
  · exact List.count_eq_one_of_mem hnodup

lemma deallocsEachOnce_iff_inPlace : DeallocsEachOnce index s ↔
    ∀ c ∈ s.recorded.registered, s.placeholders c index ≠ 0 → InPlace s.recorded.now c := by
  constructor
  · intro h c hc hplaceholder
    exact (count_deallocPlaceholders hplaceholder (List.Perm.refl _)).1 (h c hc hplaceholder _ (List.Perm.refl _))
  · intro h c hc hplaceholder rover hrover
    exact (count_deallocPlaceholders hplaceholder hrover).2 (h c hc hplaceholder)

/-! ## The steps -/

lemma InPlace.register (h : InPlace u c) (hfree : u.table (u.classid infra) = none) :
    InPlace ((u.stampClassindex infra).setClass (u.classid infra) infra) c := by
  unfold InPlace at h ⊢
  simp only [setClass_table, setClass_classid, stampClassindex_table, stampClassindex_classid]
  rw [Function.update_of_ne, h]
  intro heq
  rw [heq, hfree] at h
  cases h

lemma InPlace.stampClassindex (h : InPlace u c) (infra : ℕ) : InPlace (u.stampClassindex infra) c := by
  unfold InPlace at h ⊢
  rw [stampClassindex_classid]
  exact h

lemma inPlace_registered : InPlace ((u.stampClassindex infra).setClass (u.classid infra) infra) infra := by
  unfold InPlace
  simp only [setClass_table, setClass_classid, stampClassindex_classid, Function.update_self]

section Posing

variable (hposes : Poses cfg lists u infra name)
include hposes

lemma inPlace_poser (hne : (u.pair infra).superclass ≠ infra) :
    InPlace (u.posedAs cfg infra name) infra ↔
      u.classid infra = u.classid (u.pair infra).superclass ∨ InPlace u infra := by
  have hfree : u.table (classidFromString cfg name) = none := victimName_free hposes.victimName_eq
  unfold InPlace
  rw [posedAs_table, posedAs_classid, posed_eq_poser hfree hne]
  by_cases howns : u.classid infra = u.classid (u.pair infra).superclass
  · simp only [howns, true_or]
  · simp only [howns, false_or, ne_eq, not_false_eq_true, true_and]

lemma inPlace_other (hc : c ≠ infra) : InPlace (u.posedAs cfg infra name) c ↔
    u.classid c ≠ u.classid (u.pair infra).superclass ∧ InPlace u c := by
  have hfree : u.table (classidFromString cfg name) = none := victimName_free hposes.victimName_eq
  unfold InPlace
  rw [posedAs_table, posedAs_classid]
  by_cases hs : c = (u.pair infra).superclass
  · subst hs
    simp [hc.symm]
  · exact posed_eq_some hfree hs hc

end Posing

/-! ## Runs -/

/-- What a run keeps, whatever its steps. -/
structure Tracked (r : Recorded) : Prop extends Allocated r.now where
  registered_le : ∀ c ∈ r.registered, c ≤ r.now.allocated
  registered : ∀ c, Listed r.now c → c ∈ r.registered

lemma allocated_le_of_step {a : Action} (h : step cfg u a = some u') : u.allocated ≤ u'.allocated := by
  cases step_effect h with
  | notCreated | notRegistered | notPosed | stamped | nameless | registered | posed => exact Nat.le_refl _
  | created => exact Nat.le_succ _
  | loaded infra fastclassindex lists v hv =>
    obtain ⟨_, rfl⟩ := sameButFast_of_set hv
    exact Nat.le_refl _

lemma Tracked.step {r : Recorded} {a : Action} (h : Tracked r) (hstep : Registry.step cfg r.now a = some u') :
    Tracked ⟨u', r.registered ++ u'.values⟩ := by
  have hallocated := h.toAllocated.step hstep
  have hle := allocated_le_of_step hstep
  refine ⟨hallocated, ?_, fun c hc => List.mem_append_right _ (mem_values.2 hc)⟩
  intro c hc
  rcases List.mem_append.1 hc with hc | hc
  · exact Nat.le_trans (h.registered_le c hc) hle
  · exact (hallocated.listed c (mem_values.1 hc)).2

/-- What a run of right steps keeps. -/
structure AllInPlace (index : PlaceholderIndex) (s : Furnished) : Prop extends Tracked s.recorded where
  inPlace : ∀ c ∈ s.recorded.registered, s.placeholders c index ≠ 0 → InPlace s.recorded.now c

namespace AllInPlace

lemma keep (h : AllInPlace index s) (hlisted : ∀ c, Listed u' c → Listed s.recorded.now c ∨ InPlace u' c)
    (hkeep : ∀ c, c ≤ s.recorded.now.allocated → InPlace s.recorded.now c → InPlace u' c) :
    ∀ c ∈ s.recorded.registered ++ u'.values, s.placeholders c index ≠ 0 → InPlace u' c := by
  have hregistered : ∀ c ∈ s.recorded.registered, s.placeholders c index ≠ 0 → InPlace u' c :=
    fun c hc hplaceholder => hkeep c (h.registered_le c hc) (h.inPlace c hc hplaceholder)
  intro c hc hplaceholder
  rcases List.mem_append.1 hc with hc | hc
  · exact hregistered c hc hplaceholder
  · rcases hlisted c (mem_values.1 hc) with hlisted | hinPlace
    · exact hregistered c (h.registered c hlisted) hplaceholder
    · exact hinPlace

lemma register (h : AllInPlace index s) {v : Universe} (hv : SameButFast s.recorded.now v)
    (hfree : v.table (v.classid infra) = none) :
    ∀ c ∈ s.recorded.registered ++ ((v.stampClassindex infra).setClass (v.classid infra) infra).values,
      s.placeholders c index ≠ 0 → InPlace ((v.stampClassindex infra).setClass (v.classid infra) infra) c := by
  obtain ⟨_, rfl⟩ := hv
  apply h.keep
  · intro c hc
    rcases listed_setClass hc with rfl | hlisted
    · exact Or.inr inPlace_registered
    · exact Or.inl hlisted
  · intro c _ hc
    exact InPlace.register hc hfree

/-- A posing keeps the classes with placeholders in their places exactly if it may. -/
lemma pose_iff (h : AllInPlace index s) (hle : infra ≤ s.recorded.now.allocated)
    (hposes : Poses cfg lists s.recorded.now infra name) :
    (∀ c ∈ s.recorded.registered ++ (s.recorded.now.posedAs cfg infra name).values,
        s.placeholders c index ≠ 0 → InPlace (s.recorded.now.posedAs cfg infra name) c) ↔
      KeepsInPlace cfg index s (.registry (.pose infra lists)) := by
  have hne := (h.superclass_lt infra hposes.infra_ne hle).ne
  have hfree : s.recorded.now.table (classidFromString cfg name) = none := victimName_free hposes.victimName_eq
  have hpair : ∀ c, c ∈ s.recorded.registered ∨ c = (s.recorded.now.pair infra).superclass ∨ c = infra ↔
      c ∈ s.recorded.registered ++ (s.recorded.now.posedAs cfg infra name).values := by
    intro c
    rw [List.mem_append, mem_values]
    constructor
    · rintro (hc | rfl | rfl)
      · exact Or.inl hc
      · exact Or.inr ⟨_, by rw [posedAs_table]; exact posed_free (free_ne_own hfree hposes.held)⟩
      · exact Or.inr ⟨_, by rw [posedAs_table]; exact posed_own⟩
    · rintro (hc | hc)
      · exact Or.inl hc
      · rcases listed_posedAs hc with (hlisted | hs) | hp
        · exact Or.inl (h.registered c hlisted)
        · exact Or.inr (Or.inl hs)
        · exact Or.inr (Or.inr hp)
  constructor
  · intro hall _
    constructor
    · intro hplaceholder
      exact (inPlace_poser hposes hne).1 (hall infra ((hpair infra).1 (by simp)) hplaceholder)
    · intro c hc hci hclassid
      by_contra hplaceholder
      have hinPlace := hall c ((hpair c).1 ((List.mem_cons.1 hc).symm.imp_right Or.inl)) hplaceholder
      exact ((inPlace_other hposes hci).1 hinPlace).1 hclassid
  · intro hkeeps c hc hplaceholder
    obtain ⟨hposer, hothers⟩ := hkeeps hposes.canPose
    by_cases hci : c = infra
    · subst hci
      exact (inPlace_poser hposes hne).2 (hposer hplaceholder)
    · have hc' : c ∈ s.recorded.registered ∨ c = (s.recorded.now.pair infra).superclass := by
        rcases (hpair c).2 hc with hc | hc | hc
        · exact Or.inl hc
        · exact Or.inr hc
        · exact absurd hc hci
      have hclassid : s.recorded.now.classid c ≠ s.recorded.now.classid (s.recorded.now.pair infra).superclass :=
        fun hclassid => hplaceholder (hothers c (List.mem_cons.2 hc'.symm) hci hclassid)
      have hregistered : c ∈ s.recorded.registered := hc'.resolve_right fun hs => hclassid (by rw [hs])
      exact (inPlace_other hposes hci).2 ⟨hclassid, h.inPlace c hregistered hplaceholder⟩

/-- A step of the registry keeps the classes with placeholders in their places exactly when it is not a posing, or one
that does so. -/
lemma registry_iff {a : Action} (h : AllInPlace index s) (hstep : step cfg s.recorded.now a = some u') :
    (∀ c ∈ s.recorded.registered ++ u'.values, s.placeholders c index ≠ 0 → InPlace u' c) ↔
      KeepsInPlace cfg index s (.registry a) := by
  cases step_effect hstep with
  | notCreated | notRegistered => exact iff_of_true (h.keep (fun _ hc => Or.inl hc) fun _ _ hc => hc) trivial
  | notPosed infra lists hchecks =>
    exact iff_of_true (h.keep (fun _ hc => Or.inl hc) fun _ _ hc => hc) fun hcan => absurd hcan.1 hchecks
  | created classid name superclass =>
    refine iff_of_true (h.keep (fun _ hc => Or.inl hc) fun c hle hc => ?_) trivial
    unfold InPlace at hc ⊢
    rw [withClasspair_classid superclass hle]
    exact hc
  | stamped infra => exact iff_of_true (h.keep (fun _ hc => Or.inl hc) fun _ _ hc => hc.stampClassindex infra) trivial
  | nameless infra lists hle hchecks hname =>
    exact iff_of_true (h.keep (fun _ hc => Or.inl hc) fun _ _ hc => hc.stampClassindex infra)
      fun hcan => absurd hname hcan.2
  | registered infra lists _ _ _ _ hfree => exact iff_of_true (h.register ⟨_, rfl⟩ hfree) trivial
  | loaded infra fastclassindex lists v hv _ _ _ hfree =>
    exact iff_of_true (h.register (sameButFast_of_set hv) hfree) trivial
  | posed infra lists newname hle hposes => exact h.pose_iff hle hposes

/-- A placeholder keeps the classes with placeholders in their places exactly if its class is in its place. -/
lemma setPlaceholder_iff (h : AllInPlace index s) (index' : PlaceholderIndex) (obj : ℕ) :
    (∀ c ∈ s.recorded.registered, (s.setPlaceholder infra index' obj).placeholders c index ≠ 0 →
        InPlace s.recorded.now c) ↔ KeepsInPlace cfg index s (.setPlaceholder infra index' obj) := by
  by_cases hzero : s.placeholders infra index' = 0
  · have hset : ∀ c, (s.setPlaceholder infra index' obj).placeholders c index =
        if c = infra ∧ index = index' then obj else s.placeholders c index := by
      intro c
      rw [Furnished.setPlaceholder, if_pos hzero]
      by_cases hc : c = infra
      · subst hc
        by_cases hindex : index = index'
        · subst hindex
          simp
        · simp [hindex]
      · simp [hc]
    constructor
    · rintro hall hregistered rfl hobj
      exact hall infra hregistered (by rw [hset, if_pos ⟨rfl, rfl⟩]; exact hobj)
    · intro hkeeps c hc hplaceholder
      rw [hset] at hplaceholder
      split at hplaceholder
      · rename_i heq
        obtain ⟨rfl, rfl⟩ := heq
        exact hkeeps hc rfl hplaceholder
      · exact h.inPlace c hc hplaceholder
  · rw [Furnished.setPlaceholder, if_neg hzero]
    refine iff_of_true h.inPlace ?_
    rintro hregistered rfl -
    exact h.inPlace infra hregistered hzero

end AllInPlace

lemma allInPlace_new : AllInPlace index Furnished.new :=
  ⟨⟨allocated_new, fun _ hc => absurd hc List.not_mem_nil, fun _ ⟨_, hk⟩ => absurd hk.symm (Option.some_ne_none _)⟩,
    fun _ hc => absurd hc List.not_mem_nil⟩

lemma tracked_step {a : FurnishAction} (h : Tracked s.recorded) (hstep : furnishedStep cfg s a = some s') :
    Tracked s'.recorded := by
  cases a with
  | registry a =>
    obtain ⟨r, hr, rfl⟩ := Option.map_eq_some_iff.1 hstep
    obtain ⟨u, hu, rfl⟩ := Option.map_eq_some_iff.1 hr
    exact h.step hu
  | setPlaceholder infra index obj =>
    rw [furnishedStep] at hstep
    split at hstep
    · cases hstep
      unfold Furnished.setPlaceholder
      split <;> exact h
    · cases hstep

/-- A step keeps the classes with placeholders in their places exactly if it may. -/
lemma inPlace_step_iff {a : FurnishAction} (h : AllInPlace index s) (hstep : furnishedStep cfg s a = some s') :
    (∀ c ∈ s'.recorded.registered, s'.placeholders c index ≠ 0 → InPlace s'.recorded.now c) ↔
      KeepsInPlace cfg index s a := by
  cases a with
  | registry a =>
    obtain ⟨r, hr, rfl⟩ := Option.map_eq_some_iff.1 hstep
    obtain ⟨u, hu, rfl⟩ := Option.map_eq_some_iff.1 hr
    exact h.registry_iff hu
  | setPlaceholder infra index' obj =>
    rw [furnishedStep] at hstep
    split at hstep
    · cases hstep
      have hrecorded : (s.setPlaceholder infra index' obj).recorded = s.recorded := by
        unfold Furnished.setPlaceholder
        split <;> rfl
      rw [hrecorded]
      exact h.setPlaceholder_iff index' obj
    · cases hstep

/-- **Every placeholder is handled once throughout a run exactly when all its steps leave the classes that have one in
their places.** -/
theorem deallocsEachOnce_iff (cfg : Config) (index : PlaceholderIndex) (acts : List FurnishAction)
    (hrun : (run (furnishedStep cfg) Furnished.new acts).isSome) :
    Throughout (furnishedStep cfg) (DeallocsEachOnce index) Furnished.new acts ↔
      EachStep (furnishedStep cfg) (KeepsInPlace cfg index) Furnished.new acts := by
  obtain ⟨s, hrun⟩ := Option.isSome_iff_exists.1 hrun
  refine throughout_iff_eachStep hrun allInPlace_new ?_ (fun _ h => deallocsEachOnce_iff_inPlace.2 h.inPlace) ?_
  · intro s a t hs hkeeps hstep
    exact ⟨tracked_step hs.toTracked hstep, (inPlace_step_iff hs hstep).2 hkeeps⟩
  · intro s a t hs hkeeps hstep hdeallocs
    exact hkeeps ((inPlace_step_iff hs hstep).1 (deallocsEachOnce_iff_inPlace.1 hdeallocs))

/-- `Bar` with a placeholder, and a subclass with one. -/
def furnishedBar : List FurnishAction :=
  (sampleClass ['B', 'a', 'r'] 0 1 ++ sampleClass ['F', 'o', 'o'] 1 2).map .registry ++
    [.setPlaceholder 2 .singleton 100]

/-- A poser with a placeholder keeps its place. -/
theorem deallocsEachOnce_iff_poser :
    Throughout (furnishedStep sampleConfig) (DeallocsEachOnce .singleton) Furnished.new
      (furnishedBar ++ [.registry (.pose 2 none)]) :=
  (deallocsEachOnce_iff sampleConfig .singleton _ (by decide +kernel)).2 (by decide +kernel)

/-- **The placeholder of a class that is posed away is forgotten.** -/
theorem posed_away_forgotten :
    ∃ s, run (furnishedStep sampleConfig) Furnished.new
        (furnishedBar ++ [.setPlaceholder 1 .singleton 200, .registry (.pose 2 none)]) = some s ∧
      ¬ DeallocsEachOnce .singleton s := by
  have hrun : (run (furnishedStep sampleConfig) Furnished.new
      (furnishedBar ++ [.setPlaceholder 1 .singleton 200, .registry (.pose 2 none)])).map (fun s =>
        (decide (1 ∈ s.recorded.registered), s.placeholders 1 .singleton,
          deallocPlaceholders s.recorded.now s.placeholders .singleton s.recorded.now.classtable.entries)) =
      some (true, 200, [⟨2, 100, 0xcdfeb729⟩]) := by
    decide +kernel
  obtain ⟨s, hs, hresult⟩ := Option.map_eq_some_iff.1 hrun
  obtain ⟨hregistered, hresult⟩ := Prod.mk.inj hresult
  obtain ⟨hplaceholder, hdeallocs⟩ := Prod.mk.inj hresult
  refine ⟨s, hs, fun h => ?_⟩
  have honce := h 1 (of_decide_eq_true hregistered) (by rw [hplaceholder]; decide) _ (List.Perm.refl _)
  rw [hdeallocs, hplaceholder] at honce
  exact absurd honce (by decide)

end MulleObjcRuntime.Registry
