import MulleObjcRuntime.Lib.Runs
import MulleObjcRuntime.Registry.Classcache

/-!
# The fast classes, the class cache and the classtable

* `CacheAction`, `cachedStep` — what is done with classes, removals and lookups included;
* `LookupsCoherent` — every lookup yields the class in the classtable;
* `CachesAgree` — what the table of fast classes and the class cache have to do with the classtable;
* `KeepsAgreement` — a step that keeps it;
* `coherent_of_keepsAgreement` — a run whose steps all do so is coherent throughout.
-/

namespace MulleObjcRuntime.Registry

open Impcache Lib.OwnedKeys Lib.Runs

/-- What is done with classes. -/
inductive CacheAction
  | registry (action : Action)
  | remove (infra : ℕ)
  | lookup (classid : ℕ)
deriving DecidableEq, Repr

/-- A step: a lookup is one for a classid, and its loops may go once through the cache. -/
@[simp] def cachedStep (cfg : Config) (u : Universe) : CacheAction → Option Universe
  | .registry action => step cfg u action
  | .remove infra => if infra ≤ u.allocated then some (removeInfraclass cfg u infra).2 else none
  | .lookup classid =>
    if classid ≠ 0 then
      (lookupInfraclassInlineNodelegate cfg (u.classcache.entries.length + 1) u classid).map Prod.snd
    else none

/-- **Every lookup yields the class that the classtable holds**, `NULL` if it holds none. -/
def LookupsCoherent (cfg : Config) (u : Universe) : Prop :=
  ∀ classid ≠ 0, ∀ fuel > u.classcache.entries.length,
    (lookupInfraclassInlineNodelegate cfg fuel u classid).map Prod.fst = some ((u.table classid).getD 0)

/-- The classid that is configured for an index. -/
def fastclassHash (cfg : Config) (index : ℕ) : Option ℕ := (cfg.fastclasshashes[index]?).join

/-- A step that keeps the fast classes and the class cache in agreement with the classtable. -/
def KeepsAgreement (cfg : Config) (u : Universe) : CacheAction → Prop
  | .registry (.newClasspair _ _ _) => True
  /- a fast class is loaded, as otherwise it is not in the table of fast classes -/
  | .registry (.register infra lists) =>
    infra ≠ 0 → isSane cfg lists (u.pair infra) = none → HasSuperclass u infra → u.table (u.classid infra) = none →
      getFastclasstableIndex cfg (u.classid infra) = none
  /- with the index of its classid -/
  | .registry (.load infra fastclassindex _) =>
    (∀ index ∈ getFastclasstableIndex cfg (u.classid infra), fastclassindex = index) ∧
      (fastclassindex ≥ 0 → ∀ classid ∈ fastclassHash cfg fastclassindex.toNat, classid = u.classid infra)
  /- posing fails, or the class that is posed away is not cached, its new classid is not that of a fast class, and the
  poser's classid is not cached for another class -/
  | .registry (.pose infra lists) =>
    CanPose cfg lists u infra → u.classcache.cached (u.classid (u.pair infra).superclass) = none ∧
      (∀ found ∈ u.classcache.cached (u.classid infra), found = infra) ∧
      ∀ newname ∈ victimName cfg u (u.pair (u.pair infra).superclass).name,
        getFastclasstableIndex cfg (classidFromString cfg newname) = none
  /- the fast class at index 0 stays in the table of fast classes -/
  | .remove infra => u.table (u.classid infra) ≠ none → getFastclasstableIndex cfg (u.classid infra) ≠ some 0
  /- the class is cached under its own classid, which has to be its key, and no other class has this classid -/
  | .lookup classid =>
    getFastclasstableIndex cfg classid = none → u.classcache.cached classid = none →
      ∀ infra ∈ u.table classid,
        (getFastclasstableIndex cfg (u.classid infra) = none → u.table (u.classid infra) = some infra) ∧
          (∀ e ∈ u.classtable.entries, getFastclasstableIndex cfg e.1 = none → u.classid e.2 = u.classid infra →
            e.2 = infra) ∧
          HasRoom cfg.caches u.classcache (u.classid infra)

instance (cfg : Config) (u : Universe) : DecidablePred (KeepsAgreement cfg u)
  | .registry (.newClasspair _ _ _) => inferInstanceAs (Decidable True)
  | .registry (.register infra lists) =>
    inferInstanceAs (Decidable (infra ≠ 0 → isSane cfg lists (u.pair infra) = none → HasSuperclass u infra →
      u.table (u.classid infra) = none → getFastclasstableIndex cfg (u.classid infra) = none))
  | .registry (.load infra fastclassindex _) =>
    inferInstanceAs (Decidable ((∀ index ∈ getFastclasstableIndex cfg (u.classid infra), fastclassindex = index) ∧
      (fastclassindex ≥ 0 → ∀ classid ∈ fastclassHash cfg fastclassindex.toNat, classid = u.classid infra)))
  | .registry (.pose infra lists) =>
    inferInstanceAs (Decidable (CanPose cfg lists u infra → u.classcache.cached (u.classid (u.pair infra).superclass) = none ∧
      (∀ found ∈ u.classcache.cached (u.classid infra), found = infra) ∧
      ∀ newname ∈ victimName cfg u (u.pair (u.pair infra).superclass).name,
        getFastclasstableIndex cfg (classidFromString cfg newname) = none))
  | .remove infra =>
    inferInstanceAs (Decidable (u.table (u.classid infra) ≠ none → getFastclasstableIndex cfg (u.classid infra) ≠ some 0))
  | .lookup classid =>
    inferInstanceAs (Decidable (getFastclasstableIndex cfg classid = none → u.classcache.cached classid = none →
      ∀ infra ∈ u.table classid,
        (getFastclasstableIndex cfg (u.classid infra) = none → u.table (u.classid infra) = some infra) ∧
          (∀ e ∈ u.classtable.entries, getFastclasstableIndex cfg e.1 = none → u.classid e.2 = u.classid infra →
            e.2 = infra) ∧
          HasRoom cfg.caches u.classcache (u.classid infra)))

variable {cfg : Config} {u u' : Universe} {infra classid c k index : ℕ} {name : List Char}

/-! ## The agreement -/

lemma fastclassHash_of_index (h : getFastclasstableIndex cfg k = some index) : fastclassHash cfg index = some k := by
  obtain ⟨hlt, hget, -⟩ := List.findIdx?_eq_some_iff_getElem.1 h
  unfold fastclassHash
  rw [List.getElem?_eq_getElem hlt, beq_iff_eq.1 hget]
  rfl

/-- What the table of fast classes and the class cache have to do with the classtable. -/
structure CachesAgree (cfg : Config) (u : Universe) : Prop extends Allocated u where
  classid_ne : ∀ c, c ≠ 0 → c ≤ u.allocated → u.classid c ≠ 0
  usable : Usable cfg.caches.shift u.classcache
  fast : ∀ k index, getFastclasstableIndex cfg k = some index → u.fastclasstable index = (u.table k).getD 0
  cached : ∀ k ≠ 0, getFastclasstableIndex cfg k = none → ∀ c, u.classcache.cached k = some c → u.table k = some c
  /-- The classid of a class is cached for no other class. -/
  own : ∀ k, getFastclasstableIndex cfg k = none → ∀ c, u.table k = some c →
    ∀ found, u.classcache.cached (u.classid c) = some found → found = c

lemma agrees_new (cfg : Config) : CachesAgree cfg Universe.new := by
  refine ⟨allocated_new, fun c hne hle => ?_, usable_zeroCache _, fun _ _ _ => rfl, fun k hk _ c hc => ?_,
    fun k _ c hc => ?_⟩
  · exact absurd (Nat.le_zero.1 hle) hne
  · rw [show Universe.new.classcache = zeroCache from rfl, zeroCache_cached k hk] at hc
    cases hc
  · cases hc

namespace CachesAgree

lemma listed_ne (h : CachesAgree cfg u) (hc : u.table k = some c) : c ≠ 0 ∧ u.classid c ≠ 0 := by
  obtain ⟨hne, hle⟩ := h.listed c ⟨k, hc⟩
  exact ⟨hne, h.classid_ne c hne hle⟩

/-- **In agreement every lookup yields the class in the classtable.** -/
theorem coherent (h : CachesAgree cfg u) : LookupsCoherent cfg u := by
  intro classid hid fuel hfuel
  rcases hfast : getFastclasstableIndex cfg classid with _ | index
  · rcases hcached : u.classcache.cached classid with _ | found
    · rcases htable : u.table classid with _ | infra
      · rw [lookup_missing hfast h.usable hid hfuel hcached htable]
        rfl
      · obtain ⟨hne, hneid⟩ := h.listed_ne htable
        obtain ⟨found, classcache, hlookup, hfound, -⟩ :=
          lookup_found hfast h.usable hid hfuel hcached htable hne hneid
        have hfound : found = infra := hfound.elim id fun hown => h.own classid hfast infra htable found hown
        rw [hlookup, hfound]
        rfl
    · rw [lookup_cached hfast h.usable hid hfuel hcached, h.cached classid hid hfast found hcached]
      rfl
  · rw [lookup_fast hfast, Option.map_some, h.fast classid index hfast]

/-! ## The steps -/

lemma congr (h : CachesAgree cfg u) (hallocated : Allocated u')
    (hclassid : ∀ c, c ≠ 0 → c ≤ u'.allocated → u'.classid c ≠ 0) (htable : u'.table = u.table)
    (hclassids : ∀ c, Listed u c → u'.classid c = u.classid c) (hfast : u'.fastclasstable = u.fastclasstable)
    (hcache : u'.classcache = u.classcache) : CachesAgree cfg u' := by
  refine ⟨hallocated, hclassid, hcache ▸ h.usable, ?_, ?_, ?_⟩
  · rw [hfast, htable]
    exact h.fast
  · rw [hcache, htable]
    exact h.cached
  · intro k hk c hc
    rw [htable] at hc
    rw [hcache, hclassids c ⟨k, hc⟩]
    exact h.own k hk c hc

/-- A class is registered under its own classid; only its own fast class may have been set. -/
lemma register (h : CachesAgree cfg u) (hallocated : Allocated u') (hne : infra ≠ 0) (hle : infra ≤ u.allocated)
    (hsame : u'.allocated = u.allocated ∧ u'.classid = u.classid) (hcache : u'.classcache = u.classcache)
    (htable : u'.table = Function.update u.table (u.classid infra) (some infra))
    (hfree : u.table (u.classid infra) = none)
    (hfastown : ∀ index, getFastclasstableIndex cfg (u.classid infra) = some index → u'.fastclasstable index = infra)
    (hfastother : ∀ k index, getFastclasstableIndex cfg k = some index → k ≠ u.classid infra →
      u'.fastclasstable index = u.fastclasstable index) : CachesAgree cfg u' := by
  have hid := h.classid_ne infra hne hle
  have hnone : getFastclasstableIndex cfg (u.classid infra) = none → u.classcache.cached (u.classid infra) = none := by
    intro hnofast
    by_contra hcached
    obtain ⟨found, hfound⟩ := Option.ne_none_iff_exists'.1 hcached
    have := h.cached _ hid hnofast found hfound
    rw [hfree] at this
    cases this
  refine ⟨hallocated, ?_, hcache ▸ h.usable, ?_, ?_, ?_⟩
  · rw [hsame.1, hsame.2]
    exact h.classid_ne
  · intro k index hindex
    rw [htable]
    by_cases hk : k = u.classid infra
    · subst hk
      rw [Function.update_self]
      exact hfastown index hindex
    · rw [Function.update_of_ne hk, hfastother k index hindex hk]
      exact h.fast k index hindex
  · intro k hk hnofast c hc
    rw [hcache] at hc
    rw [htable]
    by_cases hkid : k = u.classid infra
    · subst hkid
      rw [hnone hnofast] at hc
      cases hc
    · rw [Function.update_of_ne hkid]
      exact h.cached k hk hnofast c hc
  · intro k hnofast c hc found hfound
    rw [hcache, hsame.2] at hfound
    rw [htable] at hc
    by_cases hkid : k = u.classid infra
    · subst hkid
      rw [Function.update_self] at hc
      cases hc
      rw [hnone hnofast] at hfound
      cases hfound
    · rw [Function.update_of_ne hkid] at hc
      exact h.own k hnofast c hc found hfound

lemma stampClassindex (h : CachesAgree cfg u) (infra : ℕ) (hallocated : Allocated (u.stampClassindex infra)) :
    CachesAgree cfg (u.stampClassindex infra) := by
  refine h.congr hallocated ?_ rfl (fun c _ => congrFun stampClassindex_classid c) rfl rfl
  rw [stampClassindex_classid]
  exact h.classid_ne

/-- A class poses as another one. -/
lemma pose (h : CachesAgree cfg u) (hallocated : Allocated (u.posedAs cfg infra name)) {lists : Option Errno}
    (hposes : Poses cfg lists u infra name)
    (hvictim : u.classcache.cached (u.classid (u.pair infra).superclass) = none)
    (hposer : ∀ found ∈ u.classcache.cached (u.classid infra), found = infra)
    (hnewname : getFastclasstableIndex cfg (classidFromString cfg name) = none) :
    CachesAgree cfg (u.posedAs cfg infra name) := by
  have hfree : u.table (classidFromString cfg name) = none := victimName_free hposes.victimName_eq
  have hheld : u.table (u.classid (u.pair infra).superclass) ≠ none := hposes.held
  have hclassid := @posedAs_classid cfg u infra name
  have hne := free_ne_own hfree hheld
  refine ⟨hallocated, ?_, h.usable, ?_, ?_, ?_⟩
  · rw [hclassid]
    exact h.classid_ne
  · intro k index hindex
    have hk : k ≠ u.classid (u.pair infra).superclass := by
      rintro rfl
      rw [hposes.not_fast] at hindex
      cases hindex
    have hkfree : k ≠ classidFromString cfg name := by
      rintro rfl
      rw [hnewname] at hindex
      cases hindex
    rw [posedAs_table, posed_of_ne hk hkfree]
    exact h.fast k index hindex
  · intro k hk0 hnofast c (hc : u.classcache.cached k = some c)
    have hk : k ≠ u.classid (u.pair infra).superclass := by
      rintro rfl
      rw [hvictim] at hc
      cases hc
    have hkfree : k ≠ classidFromString cfg name := by
      rintro rfl
      have := h.cached _ hk0 hnofast c hc
      rw [hfree] at this
      cases this
    rw [posedAs_table, posed_of_ne hk hkfree]
    exact h.cached k hk0 hnofast c hc
  · intro k hnofast c hc found (hfound : u.classcache.cached _ = some found)
    rw [hclassid] at hfound
    rw [posedAs_table] at hc
    by_cases hk : k = u.classid (u.pair infra).superclass
    · subst hk
      rw [posed_own] at hc
      cases hc
      exact hposer found hfound
    by_cases hkfree : k = classidFromString cfg name
    · subst hkfree
      rw [posed_free hne] at hc
      cases hc
      rw [hvictim] at hfound
      cases hfound
    · rw [posed_of_ne hk hkfree] at hc
      exact h.own k hnofast c hc found hfound

/-- A class is removed, and a fast class not at index 0 from the table of fast classes too. -/
lemma remove (h : CachesAgree cfg u) (hkeeps : KeepsAgreement cfg u (.remove infra)) :
    CachesAgree cfg (removeInfraclass cfg u infra).2 := by
  unfold removeInfraclass
  split
  · exact h
  split
  · exact h
  rename_i hheld
  have hzero := hkeeps hheld
  have htable : ∀ k, ({ u with classtable := u.classtable.erase (u.classid infra) } : Universe).table k =
      if k = u.classid infra then none else u.table k := by
    intro k
    split
    · rename_i hk
      subst hk
      exact AList.lookup_erase _ _
    · rename_i hk
      exact AList.lookup_erase_ne hk
  -- what does not depend on the fast classes
  have hrest : ∀ fastclasstable : ℕ → ℕ,
      (∀ k index, getFastclasstableIndex cfg k = some index →
        fastclasstable index = if k = u.classid infra then 0 else u.fastclasstable index) →
      CachesAgree cfg
        { u with classtable := u.classtable.erase (u.classid infra), classcache := zeroCache, fastclasstable } := by
    intro fastclasstable hfast
    refine ⟨⟨h.superclass_lt, ?_⟩, h.classid_ne, usable_zeroCache _, ?_, ?_, ?_⟩
    · rintro c ⟨k, hk⟩
      have hk := (htable k).symm.trans hk
      split at hk
      · cases hk
      · exact h.listed c ⟨k, hk⟩
    · intro k index hindex
      refine (hfast k index hindex).trans ?_
      refine Eq.trans ?_ (congrArg (Option.getD · 0) (htable k)).symm
      split
      · rfl
      · exact h.fast k index hindex
    · intro k hk _ c hc
      rw [show zeroCache.cached k = none from zeroCache_cached k hk] at hc
      cases hc
    · intro k _ c hc found (hfound : zeroCache.cached (u.classid c) = some found)
      have hk := (htable k).symm.trans hc
      split at hk
      · cases hk
      · obtain ⟨-, hneid⟩ := h.listed_ne hk
        rw [zeroCache_cached _ hneid] at hfound
        cases hfound
  dsimp only
  split
  · rename_i hnofast
    refine hrest u.fastclasstable fun k index hindex => ?_
    rw [if_neg]
    rintro rfl
    exact absurd (hnofast.symm.trans hindex).symm (Option.some_ne_none _)
  · rename_i i hi
    have hi : getFastclasstableIndex cfg (u.classid infra) = some i := hi
    rw [if_pos (Nat.pos_of_ne_zero fun h0 => hzero (h0 ▸ hi))]
    refine hrest (Function.update u.fastclasstable i 0) fun k index hindex => ?_
    by_cases hk : k = u.classid infra
    · subst hk
      rw [hi] at hindex
      cases hindex
      rw [Function.update_self, if_pos rfl]
    · rw [if_neg hk, Function.update_of_ne]
      rintro rfl
      have := (fastclassHash_of_index hindex).symm.trans (fastclassHash_of_index hi)
      exact hk (Option.some.inj this)

/-- A lookup may cache a class under its own classid. -/
lemma lookup (h : CachesAgree cfg u) (hkeeps : KeepsAgreement cfg u (.lookup classid)) (hid : classid ≠ 0)
    (hlookup : (lookupInfraclassInlineNodelegate cfg (u.classcache.entries.length + 1) u classid).map Prod.snd = some u') :
    CachesAgree cfg u' := by
  have hfuel := Nat.lt_succ_self u.classcache.entries.length
  rcases hfast : getFastclasstableIndex cfg classid with _ | index
  · rcases hcached : u.classcache.cached classid with _ | found
    · rcases htable : u.table classid with _ | infra
      · rw [lookup_missing hfast h.usable hid hfuel hcached htable] at hlookup
        cases hlookup
        exact h
      · obtain ⟨hne, hneid⟩ := h.listed_ne htable
        obtain ⟨found, classcache, hresult, -, hcaches, husable⟩ :=
          lookup_found hfast h.usable hid hfuel hcached htable hne hneid
        rw [hresult] at hlookup
        cases hlookup
        obtain ⟨hown, hother, hroom⟩ := hkeeps hfast hcached infra htable
        refine ⟨⟨h.superclass_lt, h.listed⟩, h.classid_ne, husable hroom, h.fast, ?_, ?_⟩
        · intro k hk hnofast c hc
          rcases hcaches k hk c hc with hold | ⟨rfl, rfl⟩
          · exact h.cached k hk hnofast c hold
          · exact hown hnofast
        · intro k hnofast c hc found hfound
          rcases hcaches _ (h.listed_ne hc).2 found hfound with hold | ⟨hsame, rfl⟩
          · exact h.own k hnofast c hc found hold
          · have hentry : (⟨k, c⟩ : Σ _ : ℕ, ℕ) ∈ u.classtable.entries := AList.mem_lookup_iff.1 hc
            exact (hother _ hentry hnofast hsame).symm
    · rw [lookup_cached hfast h.usable hid hfuel hcached] at hlookup
      cases hlookup
      exact h
  · rw [lookup_fast hfast] at hlookup
    cases hlookup
    exact h

/-- **A step that keeps the agreement.** -/
theorem step {a : CacheAction} (h : CachesAgree cfg u) (hkeeps : KeepsAgreement cfg u a)
    (hstep : cachedStep cfg u a = some u') : CachesAgree cfg u' := by
  cases a with
  | registry action =>
    have hallocated := h.toAllocated.step hstep
    cases step_effect hstep with
    | notCreated => exact h
    | notRegistered => exact h
    | notPosed => exact h
    | created classid name superclass hid =>
      refine h.congr hallocated ?_ rfl ?_ rfl rfl
      · intro c hne hle
        unfold Universe.withClasspair at hle ⊢
        by_cases hc : c = u.allocated + 1
        · subst hc
          simp only [Universe.classid, Function.update_self]
          exact hid
        · simp only [Universe.classid, Function.update_of_ne hc]
          exact h.classid_ne c hne (by simp only at hle; omega)
      · intro c hc
        exact withClasspair_classid superclass (h.listed c hc).2
    | stamped infra => exact h.stampClassindex infra hallocated
    | nameless infra => exact h.stampClassindex infra hallocated
    | registered infra lists hle hne hsane hsuper hfree =>
      refine h.register hallocated hne hle ⟨rfl, by simp⟩ rfl (by simp) hfree ?_ fun _ _ _ _ => rfl
      intro index hindex
      rw [hkeeps hne hsane hsuper hfree] at hindex
      cases hindex
    | loaded infra fastclassindex lists v hv hle hne _ hfree =>
      obtain ⟨hown, hother⟩ := hkeeps
      split at hv
      · rename_i hge
        obtain ⟨-, -, rfl⟩ := setFastclass_eq_some hv
        refine h.register hallocated hne hle ⟨rfl, by simp; rfl⟩ rfl (by simp; rfl) hfree ?_ ?_
        · intro index hindex
          have := hown index hindex
          simp [this]
        · intro k index hindex hk
          have hne : index ≠ fastclassindex.toNat := by
            rintro rfl
            exact hk (hother hge k (fastclassHash_of_index hindex))
          simp [hne]
      · rename_i hneg
        cases hv
        refine h.register hallocated hne hle ⟨rfl, by simp⟩ rfl (by simp) hfree ?_ fun _ _ _ _ => rfl
        intro index hindex
        have := hown index hindex
        omega
    | posed infra lists newname hle hposes =>
      obtain ⟨hvictim, hposer, hnewname⟩ := hkeeps hposes.canPose
      exact h.pose hallocated hposes hvictim hposer (hnewname newname hposes.victimName_eq)
  | remove infra =>
    simp only [cachedStep] at hstep
    split at hstep
    · cases hstep
      exact h.remove hkeeps
    · cases hstep
  | lookup classid =>
    simp only [cachedStep] at hstep
    split at hstep
    · rename_i hid
      exact h.lookup hkeeps hid hstep
    · cases hstep

end CachesAgree

/-- **Lookups are coherent throughout a run whose steps all keep the agreement.** -/
theorem coherent_of_keepsAgreement (cfg : Config) (acts : List CacheAction)
    (h : EachStep (cachedStep cfg) (KeepsAgreement cfg) Universe.new acts) :
    Throughout (cachedStep cfg) (LookupsCoherent cfg) Universe.new acts :=
  (h.throughout (agrees_new cfg) fun _ _ _ hs hkeeps hstep => hs.step hkeeps hstep).mono fun _ hu => hu.coherent

/-- The classids of `Bar` and `Fast`. -/
def barid : ℕ := classidFromString sampleConfig ['B', 'a', 'r']

def fastid : ℕ := classidFromString sampleConfig ['F', 'a', 's', 't']

/-- `Foo` poses as `Bar` before that has been looked up; a fast class is loaded. -/
def coherentActions : List CacheAction :=
  (sampleClass ['B', 'a', 'r'] 0 1 ++ sampleClass ['F', 'o', 'o'] 1 2 ++
    [.pose 2 none, .newClasspair fastid ['F', 'a', 's', 't'] 2, Action.load 3 0 none]).map CacheAction.registry ++
    [.lookup barid, .lookup fastid, .lookup barid, .remove 2]

theorem coherent_of_keepsAgreement_sample :
    Throughout (cachedStep sampleConfig) (LookupsCoherent sampleConfig) Universe.new coherentActions :=
  coherent_of_keepsAgreement sampleConfig coherentActions (by decide +kernel)

/-! ## Lookups that are not coherent -/

/-- `Foo` poses as `Bar` after that has been looked up. -/
def staleActions : List CacheAction :=
  (sampleClass ['B', 'a', 'r'] 0 1 ++ sampleClass ['F', 'o', 'o'] 1 2).map CacheAction.registry ++
    [.lookup barid, .registry (.pose 2 none)]

/-- A class that has been looked up is still found after it has been posed away. -/
theorem lookup_after_pose_stale :
    ∃ u, run (cachedStep sampleConfig) Universe.new staleActions = some u ∧ ¬ LookupsCoherent sampleConfig u := by
  have hstale : (run (cachedStep sampleConfig) Universe.new staleActions).map (fun u =>
      (u.classcache.entries.length, u.table barid,
        (lookupInfraclassInlineNodelegate sampleConfig 9 u barid).map Prod.fst)) = some (4, some 2, some 1) := by
    decide +kernel
  obtain ⟨u, hu, htriple⟩ := Option.map_eq_some_iff.1 hstale
  obtain ⟨hlength, hpair⟩ := Prod.mk.inj htriple
  obtain ⟨htable, hlookup⟩ := Prod.mk.inj hpair
  refine ⟨u, hu, fun hcoherent => ?_⟩
  have hfound := hcoherent barid (by decide +kernel) 9 (by omega)
  rw [hlookup, htable] at hfound
  exact absurd hfound (by decide)

end MulleObjcRuntime.Registry
