import MulleObjcRuntime.Registry.Coherence

/-!
# Which exceptions a clause catches

* `exceptionMatch` — `mulle_objc_exception_match`;
* `IsKind` — a class and its superclasses;
* `Matches` — a clause catches what is of the kind of the class that has its classid, and a class that has been posed away
  is not caught by its own classid any more;
* `matches_of_keepsAgreement` — that holds throughout a run in which lookups stay coherent.
-/

namespace MulleObjcRuntime.Exceptions

open Registry Lib.Runs

/-- The classid of `NSException` -/
def nsexceptionClassid : ℕ := 0xa41284db

/-- What a match comes to.  `mulle_objc_universe_lookup_infraclass_nofail` ends the program. -/
inductive Matched
  | returns (rval : Bool)
  | classnotfound
deriving DecidableEq, Repr

section Match

variable (cfg : Config) (u : Registry.Universe)

/-- The loop of `_mulle_objc_universe_match_exception`. -/
def matchLoop (infra : ℕ) : ℕ → ℕ → Option Bool
  | 0, _ => none
  | rounds + 1, exceptionCls =>
    if infra = exceptionCls then some true
    else if (u.pair exceptionCls).superclass = 0 then some false
    else matchLoop infra rounds (u.pair exceptionCls).superclass

/-- `_mulle_objc_universe_match_exception`, for an exception of a class; the lookup has no missing-class delegate to ask.
The loops may make `fuel` rounds. -/
def universeMatchException (fuel classid exceptionCls : ℕ) : Option Matched :=
  match lookupInfraclassInlineNodelegate cfg fuel u classid with
  | none => none
  | some (infra, u) =>
    if infra = 0 then some .classnotfound else (matchLoop u infra fuel exceptionCls).map .returns

/-- `mulle_objc_exception_match` -/
def exceptionMatch (fuel classid exceptionCls : ℕ) : Option Matched :=
  if classid = nsexceptionClassid then some (.returns true) else universeMatchException cfg u fuel classid exceptionCls

/-- A class is of its own kind, and of the kinds of its superclass. -/
inductive IsKind : ℕ → ℕ → Prop
  | own (cls : ℕ) : IsKind cls cls
  | superclass {cls kind : ℕ} (hsuper : (u.pair cls).superclass ≠ 0) (h : IsKind (u.pair cls).superclass kind) :
      IsKind cls kind

/-- **What a clause catches**: everything if it is for `NSException`; else the class is looked up, and if there is one, what
is of its kind. -/
structure Matches : Prop where
  nsexception : ∀ fuel exceptionCls, exceptionMatch cfg u fuel nsexceptionClassid exceptionCls = some (.returns true)
  missing : ∀ classid ≠ 0, classid ≠ nsexceptionClassid → u.table classid = none →
    ∀ fuel > u.classcache.entries.length, ∀ exceptionCls,
      exceptionMatch cfg u fuel classid exceptionCls = some .classnotfound
  found : ∀ classid ≠ 0, classid ≠ nsexceptionClassid → ∀ infra, u.table classid = some infra →
    ∀ fuel > u.classcache.entries.length + u.allocated, ∀ exceptionCls ≠ 0, exceptionCls ≤ u.allocated →
      ∃ rval, exceptionMatch cfg u fuel classid exceptionCls = some (.returns rval) ∧
        (rval = true ↔ IsKind u exceptionCls infra)
  /-- A class poses as one of its superclasses, whose exceptions are not caught by their own classid any more. -/
  posed : ∀ cls ≠ 0, cls ≤ u.allocated → u.classid cls ≠ nsexceptionClassid →
    ∀ poser, u.table (u.classid cls) = some poser → poser ≠ cls → IsKind u poser cls →
      ∀ fuel > u.classcache.entries.length + u.allocated,
        exceptionMatch cfg u fuel (u.classid cls) cls = some (.returns false)

end Match

variable {cfg : Config} {u : Registry.Universe} {infra cls kind rounds fuel classid : ℕ}

/-! ## Kinds -/

lemma IsKind.le (h : IsKind u cls kind) (hu : Allocated u) (hne : cls ≠ 0) (hle : cls ≤ u.allocated) : kind ≤ cls := by
  induction h with
  | own => exact le_rfl
  | superclass hsuper _ ih =>
    have hlt := hu.superclass_lt _ hne hle
    exact (ih hsuper (hlt.le.trans hle)).trans hlt.le

lemma isKind_iff : IsKind u cls kind ↔
    kind = cls ∨ (u.pair cls).superclass ≠ 0 ∧ IsKind u (u.pair cls).superclass kind := by
  constructor
  · intro h
    cases h with
    | own => exact Or.inl rfl
    | superclass hsuper h => exact Or.inr ⟨hsuper, h⟩
  · rintro (rfl | ⟨hsuper, h⟩)
    · exact .own _
    · exact .superclass hsuper h

/-- **The loop tells if a class is of a kind.** -/
lemma matchLoop_spec (hu : Allocated u) (infra : ℕ) (hne : cls ≠ 0) (hle : cls ≤ u.allocated) (hrounds : cls < rounds) :
    ∃ b, matchLoop u infra rounds cls = some b ∧ (b = true ↔ IsKind u cls infra) := by
  induction rounds generalizing cls with
  | zero => omega
  | succ rounds ih =>
    rw [matchLoop, isKind_iff]
    by_cases hsame : infra = cls
    · exact ⟨true, if_pos hsame, iff_of_true rfl (Or.inl hsame)⟩
    by_cases hsuper : (u.pair cls).superclass = 0
    · refine ⟨false, by rw [if_neg hsame, if_pos hsuper], iff_of_false Bool.false_ne_true ?_⟩
      rintro (h | ⟨h, -⟩)
      · exact hsame h
      · exact h hsuper
    · have hlt := hu.superclass_lt cls hne hle
      obtain ⟨b, hb, hiff⟩ := ih hsuper (by omega) (by omega)
      refine ⟨b, by rw [if_neg hsame, if_neg hsuper, hb], hiff.trans ⟨fun h => Or.inr ⟨hsuper, h⟩, ?_⟩⟩
      rintro (h | ⟨-, h⟩)
      · exact absurd h hsame
      · exact h

/-! ## Matches -/

/-- A lookup changes the class cache only. -/
lemma lookup_kept {u' : Registry.Universe} (h : lookupInfraclassInlineNodelegate cfg fuel u classid = some (infra, u')) :
    ∃ classcache, u' = { u with classcache } := by
  unfold lookupInfraclassInlineNodelegate at h
  split at h
  · cases h
    exact ⟨u.classcache, rfl⟩
  unfold lookupInfraclassInlineNofastNodelegate at h
  split at h
  · cases h
  split at h
  · cases h
    exact ⟨u.classcache, rfl⟩
  unfold refreshClasscacheNodelegate at h
  cases hlookup : u.classtable.lookup classid with
  | none =>
    simp only [hlookup] at h
    cases h
    exact ⟨u.classcache, rfl⟩
  | some found =>
    simp only [hlookup] at h
    cases hfill : fillClasscacheOffset cfg.caches fuel found (u.classid found) fuel u.classcache with
    | none =>
      rw [hfill] at h
      cases h
    | some r =>
      rw [hfill] at h
      cases h
      exact ⟨r.2, rfl⟩

lemma matchLoop_withClasscache (classcache : Impcache.Cache) (infra rounds cls : ℕ) :
    matchLoop { u with classcache } infra rounds cls = matchLoop u infra rounds cls := by
  induction rounds generalizing cls with
  | zero => rfl
  | succ rounds ih => rw [matchLoop, matchLoop, ih]

/-- In agreement, the class is the one in the classtable. -/
lemma universeMatchException_eq (hagrees : CachesAgree cfg u) (hid : classid ≠ 0)
    (hfuel : fuel > u.classcache.entries.length)
    (exceptionCls : ℕ) :
    universeMatchException cfg u fuel classid exceptionCls =
      match u.table classid with
      | none => some .classnotfound
      | some infra => (matchLoop u infra fuel exceptionCls).map .returns := by
  obtain ⟨⟨found, u'⟩, hlookup, hfound⟩ := Option.map_eq_some_iff.1 (hagrees.coherent classid hid fuel hfuel)
  obtain ⟨classcache, rfl⟩ := lookup_kept hlookup
  have hfound : found = (u.table classid).getD 0 := hfound
  unfold universeMatchException
  rw [hlookup]
  cases htable : u.table classid with
  | none =>
    rw [htable, Option.getD_none] at hfound
    simp only [hfound, if_true]
  | some infra =>
    rw [htable, Option.getD_some] at hfound
    have hne : infra ≠ 0 := (hagrees.listed infra ⟨classid, htable⟩).1
    subst hfound
    simp only [if_neg hne]
    rw [matchLoop_withClasscache]

/-- **Where lookups agree with the classtable, clauses catch what they are for.** -/
lemma matches_of_agrees (hagrees : CachesAgree cfg u) : Matches cfg u := by
  have hfound : ∀ classid ≠ 0, classid ≠ nsexceptionClassid → ∀ infra, u.table classid = some infra →
      ∀ fuel > u.classcache.entries.length + u.allocated, ∀ exceptionCls ≠ 0, exceptionCls ≤ u.allocated →
        ∃ rval, exceptionMatch cfg u fuel classid exceptionCls = some (.returns rval) ∧
          (rval = true ↔ IsKind u exceptionCls infra) := by
    intro classid hid hother infra htable fuel hfuel exceptionCls hne hle
    obtain ⟨b, hb, hiff⟩ := matchLoop_spec hagrees.toAllocated infra hne hle (by omega : exceptionCls < fuel)
    refine ⟨b, ?_, hiff⟩
    rw [exceptionMatch, if_neg hother, universeMatchException_eq hagrees hid (by omega), htable]
    simp only [hb, Option.map_some]
  refine ⟨fun fuel exceptionCls => if_pos rfl, fun classid hid hother htable fuel hfuel exceptionCls => ?_, hfound, ?_⟩
  · rw [exceptionMatch, if_neg hother, universeMatchException_eq hagrees hid hfuel, htable]
  · intro cls hne hle hother poser htable hposer hkind fuel hfuel
    obtain ⟨rval, hmatch, hiff⟩ := hfound _ (hagrees.classid_ne cls hne hle) hother poser htable fuel hfuel cls hne hle
    have hposerle := hagrees.listed poser ⟨_, htable⟩
    have hnot : ¬ IsKind u cls poser := by
      intro h
      have hold := h.le hagrees.toAllocated hne hle
      have hyoung := hkind.le hagrees.toAllocated hposerle.1 hposerle.2
      exact hposer (le_antisymm hold hyoung)
    rw [hmatch, Bool.eq_false_iff.2 fun htrue => hnot (hiff.1 htrue)]

/-- **Clauses catch what they are for throughout a run in which lookups stay coherent.** -/
theorem matches_of_keepsAgreement (cfg : Config) (acts : List CacheAction)
    (h : EachStep (cachedStep cfg) (KeepsAgreement cfg) Registry.Universe.new acts) :
    Throughout (cachedStep cfg) (Matches cfg) Registry.Universe.new acts :=
  (h.throughout (agrees_new cfg) fun _ _ _ hs hkeeps hstep => hs.step hkeeps hstep).mono fun _ hu => matches_of_agrees hu

/-! ## A sample -/

/-- `Foo` poses as `Bar`, and `Baz` is a subclass of `Foo`. -/
def posedActions : List CacheAction :=
  (sampleClass ['B', 'a', 'r'] 0 1 ++ sampleClass ['F', 'o', 'o'] 1 2 ++ [Action.pose 2 none] ++
    sampleClass ['B', 'a', 'z'] 2 3).map CacheAction.registry

/-- A clause for `Bar` catches a `Foo` and a `Baz`, but no `Bar`. -/
theorem matches_of_keepsAgreement_posed :
    Throughout (cachedStep sampleConfig) (Matches sampleConfig) Registry.Universe.new posedActions ∧
      (run (cachedStep sampleConfig) Registry.Universe.new posedActions).map (fun u =>
        [1, 2, 3].map (exceptionMatch sampleConfig u 20 barid)) =
        some [some (.returns false), some (.returns true), some (.returns true)] := by
  refine ⟨matches_of_keepsAgreement sampleConfig posedActions (by decide +kernel), by decide +kernel⟩

end MulleObjcRuntime.Exceptions
