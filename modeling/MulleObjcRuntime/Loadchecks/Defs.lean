import MulleObjcRuntime.Lib.Fallible

/-!
# What is checked of a loadinfo

Code for a universe is checked before it is loaded: how it has been compiled must fit the universe, and the code that is
there.  What is there is kept in the load bits of the universe.

* `Loadversion`, `Loadinfo` — how the code has been compiled;
* `Loader` — what the runtime and the universe are like;
* `versionMismatch`, `tpsMismatch`, `buildMismatch` — the checks before, of and after the tagged pointers;
* `assertLoadinfo`, `assertLoadinfos` — all checks, and those of several loadinfos one after the other;
* `assertLoadinfos_iff` — all get through if each one could and they agree about tagged pointers;
* `optlevel_unread` — the optimization level is not among the bits that are checked.
-/

namespace MulleObjcRuntime.Loadchecks

open Lib.Fallible

/-- `mulle_objc_loadversion` -/
structure Loadversion where
  load : BitVec 32
  foundation : BitVec 32
  user : BitVec 32
  bits : BitVec 32
deriving DecidableEq, Repr

/-- The part of a `_mulle_objc_loadinfo` that is checked: the version, and whether there is a `loaduniverse`. -/
structure Loadinfo where
  version : Loadversion
  loaduniverse : Bool
deriving DecidableEq, Repr

/-- `_mulle_objc_loadinfo_notaggedptrs` -/
def notaggedptrs : BitVec 32 := 0x4

/-- `_mulle_objc_loadinfo_nofastcalls` -/
def nofastcalls : BitVec 32 := 0x8

/-- `_mulle_objc_loadinfo_threadaffineobjects` -/
def threadaffineobjects : BitVec 32 := 0x10

/-- `_mulle_objc_loadinfo_utf8_strings` -/
def utf8Strings : BitVec 32 := 0x20

/-- `info->version.bits & bit` -/
def Loadinfo.has (info : Loadinfo) (bit : BitVec 32) : Bool := info.version.bits &&& bit != 0

/-- What a loadinfo is checked against.  A `versionassert` returns or ends the program. -/
structure Loader where
  /-- `MULLE_OBJC_RUNTIME_LOAD_VERSION` -/
  loadVersion : BitVec 32
  /-- `__MULLE_OBJC_TAO__` -/
  tao : Bool
  /-- `__MULLE_OBJC_FCS__` -/
  fcs : Bool
  /-- `__MULLE_OBJC_NO_FCS__` -/
  noFcs : Bool
  skipConsistencyChecks : Bool
  noTaggedPointer : Bool
  minOptlevel : BitVec 3
  maxOptlevel : BitVec 3
  foundationVersionassert : Option (Loadversion → Bool)
  userinfoVersionassert : Option (Loadversion → Bool)
  utf8staticstrings : Bool

/-- Why the program ends. -/
inductive Mismatch
  | load
  | foundation
  | user
  | versionassert
  | taggedPointers
  | threadAffineObjects
  | loaduniverse
  | optlevel
  | fastMethods
  | utf8Strings
deriving DecidableEq, Repr

/-- `MULLE_OBJC_UNIVERSE_HAVE_NO_TPS_LOADS` -/
def haveNoTpsLoads : BitVec 64 := 0x1

/-- `MULLE_OBJC_UNIVERSE_HAVE_TPS_LOADS` -/
def haveTpsLoads : BitVec 64 := 0x2

/-- `MULLE_OBJC_UNIVERSE_HAVE_NO_TAO_LOADS` -/
def haveNoTaoLoads : BitVec 64 := 0x8

/-- `MULLE_OBJC_UNIVERSE_HAVE_TAO_LOADS` -/
def haveTaoLoads : BitVec 64 := 0x10

/-- `load_tps` -/
def Loadinfo.tps (info : Loadinfo) : Bool := !info.has notaggedptrs

/-- `load_tao` -/
def Loadinfo.tao (info : Loadinfo) : Bool := info.has threadaffineobjects

/-- The bit that is set for the tagged pointers. -/
def Loadinfo.tpsBit (info : Loadinfo) : BitVec 64 := if info.tps then haveTpsLoads else haveNoTpsLoads

/-- The bit that is set for thread affine objects. -/
def Loadinfo.taoBit (info : Loadinfo) : BitVec 64 := if info.tao then haveTaoLoads else haveNoTaoLoads

/-! ## The checks -/

section Checks

variable (l : Loader) (info : Loadinfo)

/-- The check of one of the versions, which may be unset. -/
def versionassertMismatch (version : BitVec 32) (versionassert : Option (Loadversion → Bool)) (missing : Mismatch) :
    Option Mismatch :=
  if version = 0 then none
  else
    match versionassert with
    | none => some missing
    | some versionassert => if versionassert info.version then none else some .versionassert

/-- The checks before the load bits are read, unless consistency does not matter. -/
def versionMismatch : Option Mismatch :=
  (versionassertMismatch info info.version.foundation l.foundationVersionassert .foundation).or
    (versionassertMismatch info info.version.user l.userinfoVersionassert .user)

/-- The check of the load bits. -/
def tpsMismatch (loadbits : BitVec 64) : Option Mismatch :=
  if info.tps ∧ loadbits &&& haveNoTpsLoads ≠ 0 ∨ ¬ info.tps ∧ loadbits &&& haveTpsLoads ≠ 0 ∨
      l.noTaggedPointer ∧ info.tps then some .taggedPointers
  else none

/-- The check for thread affine objects. -/
def taoMismatch : Option Mismatch := if info.tao = l.tao then none else some .threadAffineObjects

/-- `optlevel` -/
def Loadinfo.optlevel : BitVec 32 := (info.version.bits >>> 16) &&& 0x7

/-- The checks after all load bits have been set. -/
def buildMismatch : Option Mismatch :=
  if info.loaduniverse ∧ ¬ l.noTaggedPointer then some .loaduniverse
  else if info.optlevel < l.minOptlevel.setWidth 32 ∨ l.maxOptlevel.setWidth 32 < info.optlevel then some .optlevel
  else if l.fcs ∧ info.has nofastcalls then some .fastMethods
  else if l.noFcs ∧ ¬ info.has nofastcalls then some .fastMethods
  else if info.has utf8Strings ∧ ¬ l.utf8staticstrings then some .utf8Strings
  else none

/-- A check fails, or it does not. -/
def check (mismatch : Option Mismatch) : Except Mismatch Unit :=
  match mismatch with
  | none => .ok ()
  | some mismatch => .error mismatch

/-- `mulle_objc_universe_assert_loadinfo` while no other thread loads, with the load bits before and after it. -/
def assertLoadinfo (loadbits : BitVec 64) : Except Mismatch (BitVec 64) := do
  check (if info.version.load ≠ l.loadVersion then some .load else none)
  if l.skipConsistencyChecks then return loadbits
  check (versionMismatch l info)
  check (tpsMismatch l info loadbits)
  let loadbits := loadbits ||| info.tpsBit
  check (taoMismatch l info)
  let loadbits := loadbits ||| info.taoBit
  check (buildMismatch l info)
  return loadbits

/-- The checks of several loadinfos, one after the other. -/
def assertLoadinfos (infos : List Loadinfo) (loadbits : BitVec 64) : Except Mismatch (BitVec 64) :=
  infos.foldlM (fun loadbits info => assertLoadinfo l info loadbits) loadbits

/-- What could get through on its own. -/
structure Passes : Prop where
  load : info.version.load = l.loadVersion
  version : versionMismatch l info = none
  tao : taoMismatch l info = none
  build : buildMismatch l info = none
  tps : info.tps = true → l.noTaggedPointer = false

end Checks

/-! ## One after the other -/

/-- The load bits with those of a loadinfo. -/
def Loadinfo.mark (loadbits : BitVec 64) (info : Loadinfo) : BitVec 64 := loadbits ||| info.tpsBit ||| info.taoBit

/-- The load bits tell if there is code with tagged pointers, and if there is code without them. -/
structure Marked (loadbits : BitVec 64) (infos : List Loadinfo) : Prop where
  tps : loadbits &&& haveTpsLoads = 0 ↔ ∀ info ∈ infos, info.tps = false
  noTps : loadbits &&& haveNoTpsLoads = 0 ↔ ∀ info ∈ infos, info.tps = true

variable {l : Loader} {info : Loadinfo} {infos : List Loadinfo} {loadbits loadbits' : BitVec 64}

lemma marked_nil : Marked 0 [] := ⟨by simp, by simp⟩

lemma or_and_eq_zero {n : ℕ} (a b c : BitVec n) : (a ||| b) &&& c = 0 ↔ a &&& c = 0 ∧ b &&& c = 0 := by
  rw [BitVec.and_comm, BitVec.and_or_distrib_left, BitVec.and_comm c a, BitVec.and_comm c b]
  exact BitVec.or_eq_zero_iff

lemma taoBit_and (info : Loadinfo) : info.taoBit &&& haveTpsLoads = 0 ∧ info.taoBit &&& haveNoTpsLoads = 0 := by
  unfold Loadinfo.taoBit
  split
  · decide
  · decide

lemma tpsBit_and (info : Loadinfo) : (info.tpsBit &&& haveTpsLoads = 0 ↔ info.tps = false) ∧
    (info.tpsBit &&& haveNoTpsLoads = 0 ↔ info.tps = true) := by
  unfold Loadinfo.tpsBit
  by_cases h : info.tps = true
  · rw [if_pos h, h]
    decide
  · rw [if_neg h, Bool.eq_false_iff.mpr h]
    decide

lemma Marked.concat (h : Marked loadbits infos) (info : Loadinfo) : Marked (info.mark loadbits) (infos ++ [info]) := by
  obtain ⟨htao, htao'⟩ := taoBit_and info
  obtain ⟨htps, htps'⟩ := tpsBit_and info
  constructor
  · rw [Loadinfo.mark, or_and_eq_zero, or_and_eq_zero, h.tps, htps]
    simp [htao, or_imp, forall_and]
  · rw [Loadinfo.mark, or_and_eq_zero, or_and_eq_zero, h.noTps, htps']
    simp [htao', or_imp, forall_and]

lemma check_eq_ok {mismatch : Option Mismatch} {u : Unit} : check mismatch = .ok u ↔ mismatch = none := by
  cases mismatch with
  | none => simp [check]
  | some _ => simp [check]

lemma tpsMismatch_eq_none : tpsMismatch l info loadbits = none ↔
    (info.tps = true → l.noTaggedPointer = false) ∧
      (info.tps = true → loadbits &&& haveNoTpsLoads = 0) ∧ (info.tps = false → loadbits &&& haveTpsLoads = 0) := by
  unfold tpsMismatch
  split
  · next h =>
    constructor
    · intro hnone
      cases hnone
    · grind
  · next h =>
    constructor
    · grind
    · intro _
      rfl

/-- **One loadinfo gets through** if it could on its own, and there is no code that differs in tagged pointers. -/
lemma assertLoadinfo_eq_ok (hskip : l.skipConsistencyChecks = false) :
    assertLoadinfo l info loadbits = .ok loadbits' ↔
      Passes l info ∧ (info.tps = true → loadbits &&& haveNoTpsLoads = 0) ∧
        (info.tps = false → loadbits &&& haveTpsLoads = 0) ∧ loadbits' = info.mark loadbits := by
  simp only [assertLoadinfo, hskip, bind_eq_ok, check_eq_ok, tpsMismatch_eq_none, Bool.false_eq_true, if_false]
  constructor
  · rintro ⟨_, hload, _, hversion, _, ⟨hno, htps, hnotps⟩, _, htao, _, hbuild, hbits⟩
    have hload : info.version.load = l.loadVersion := by
      by_contra hne
      simp [hne] at hload
    exact ⟨⟨hload, hversion, htao, hbuild, hno⟩, htps, hnotps, (Except.ok.inj hbits).symm⟩
  · rintro ⟨hpasses, htps, hnotps, rfl⟩
    exact ⟨(), by simp [hpasses.load], (), hpasses.version, (), ⟨hpasses.tps, htps, hnotps⟩, (), hpasses.tao, (),
      hpasses.build, rfl⟩

/-- All agree about tagged pointers. -/
def Alike (infos : List Loadinfo) : Prop := ∀ a ∈ infos, ∀ b ∈ infos, a.tps = b.tps

lemma alike_concat : Alike (infos ++ [info]) ↔ Alike infos ∧ ∀ a ∈ infos, a.tps = info.tps := by
  simp only [Alike, List.mem_append, List.mem_singleton]
  grind

lemma Marked.agrees (h : Marked loadbits infos) (info : Loadinfo) :
    (info.tps = true → loadbits &&& haveNoTpsLoads = 0) ∧ (info.tps = false → loadbits &&& haveTpsLoads = 0) ↔
      ∀ a ∈ infos, a.tps = info.tps := by
  rw [h.noTps, h.tps]
  cases info.tps with
  | true => simp
  | false => simp

lemma marked_foldl (infos : List Loadinfo) : Marked (infos.foldl Loadinfo.mark 0) infos := by
  induction infos using List.reverseRecOn with
  | nil => exact marked_nil
  | append_singleton infos info ih =>
    rw [List.foldl_append]
    exact ih.concat info

/-- All loadinfos get through, and this is how the load bits are then. -/
lemma assertLoadinfos_eq_ok (hskip : l.skipConsistencyChecks = false) :
    assertLoadinfos l infos 0 = .ok loadbits ↔
      (∀ info ∈ infos, Passes l info) ∧ Alike infos ∧ loadbits = infos.foldl Loadinfo.mark 0 := by
  induction infos using List.reverseRecOn generalizing loadbits with
  | nil =>
    constructor
    · intro h
      cases h
      exact ⟨by simp, by simp [Alike], rfl⟩
    · rintro ⟨-, -, rfl⟩
      rfl
  | append_singleton infos info ih =>
    have hrun : assertLoadinfos l (infos ++ [info]) 0 = .ok loadbits ↔
        ∃ before, assertLoadinfos l infos 0 = .ok before ∧ assertLoadinfo l info before = .ok loadbits :=
      foldlM_concat_eq_ok
    have hagrees := (marked_foldl infos).agrees info
    simp only [hrun, ih, assertLoadinfo_eq_ok hskip, alike_concat, List.foldl_append]
    constructor
    · rintro ⟨_, ⟨hall, halike, rfl⟩, hpasses, htps, hnotps, rfl⟩
      refine ⟨fun a ha => ?_, ⟨halike, hagrees.mp ⟨htps, hnotps⟩⟩, rfl⟩
      rcases List.mem_append.mp ha with ha | ha
      · exact hall a ha
      · exact List.mem_singleton.mp ha ▸ hpasses
    · rintro ⟨hall, ⟨halike, hsame⟩, rfl⟩
      obtain ⟨htps, hnotps⟩ := hagrees.mpr hsame
      exact ⟨_, ⟨fun a ha => hall a (List.mem_append_left _ ha), halike, rfl⟩, hall info (by simp), htps, hnotps, rfl⟩

/-- **Loadinfos that are checked one after the other all get through if and only if each could on its own, and all agree
about tagged pointers**, whatever their order.  The load bits tell afterwards what has been loaded. -/
theorem assertLoadinfos_iff (hskip : l.skipConsistencyChecks = false) :
    ((∃ loadbits, assertLoadinfos l infos 0 = .ok loadbits) ↔ (∀ info ∈ infos, Passes l info) ∧ Alike infos) ∧
      ∀ loadbits, assertLoadinfos l infos 0 = .ok loadbits → Marked loadbits infos := by
  simp only [assertLoadinfos_eq_ok hskip]
  constructor
  · constructor
    · rintro ⟨_, hall, halike, -⟩
      exact ⟨hall, halike⟩
    · rintro ⟨hall, halike⟩
      exact ⟨_, hall, halike, rfl⟩
  · rintro _ ⟨-, -, rfl⟩
    exact marked_foldl infos

/-- A loader like that of a test: no version to check, and tagged pointers. -/
def plainLoader : Loader where
  loadVersion := 21
  tao := false
  fcs := true
  noFcs := false
  skipConsistencyChecks := false
  noTaggedPointer := false
  minOptlevel := 0
  maxOptlevel := 7
  foundationVersionassert := none
  userinfoVersionassert := none
  utf8staticstrings := false

/-- Two loadinfos, with and without tagged pointers. -/
theorem assertLoadinfos_iff_mixed :
    ((∃ loadbits, assertLoadinfos plainLoader [⟨⟨21, 0, 0, 0x0⟩, false⟩, ⟨⟨21, 0, 0, 0x4⟩, false⟩] 0 = .ok loadbits) ↔
        (∀ info ∈ [⟨⟨21, 0, 0, 0x0⟩, false⟩, ⟨⟨21, 0, 0, 0x4⟩, false⟩], Passes plainLoader info) ∧
          Alike [⟨⟨21, 0, 0, 0x0⟩, false⟩, ⟨⟨21, 0, 0, 0x4⟩, false⟩]) ∧
      ∀ loadbits, assertLoadinfos plainLoader [⟨⟨21, 0, 0, 0x0⟩, false⟩, ⟨⟨21, 0, 0, 0x4⟩, false⟩] 0 = .ok loadbits →
        Marked loadbits [⟨⟨21, 0, 0, 0x0⟩, false⟩, ⟨⟨21, 0, 0, 0x4⟩, false⟩] :=
  assertLoadinfos_iff (by decide)

/-! ## The optimization level -/

/-- All bits of a version but those of `_mulle_objc_loadinfo_optlevel_0`, `_mulle_objc_loadinfo_optlevel_1` and so on. -/
def otherBits : BitVec 32 := 0xFFFFF0FF

/-- The loadinfo as if compiled with another optimization level. -/
def Loadinfo.withOptlevel (level : BitVec 4) (info : Loadinfo) : Loadinfo :=
  { info with version := { info.version with bits := (info.version.bits &&& otherBits) ||| level.setWidth 32 <<< 8 } }

lemma assertLoadinfo_congr {info' : Loadinfo} (hload : info.version.load = info'.version.load)
    (hloaduniverse : info.loaduniverse = info'.loaduniverse)
    (hversion : versionMismatch l info = versionMismatch l info')
    (hhas : ∀ bit ∈ [notaggedptrs, nofastcalls, threadaffineobjects, utf8Strings], info.has bit = info'.has bit)
    (hoptlevel : info.optlevel = info'.optlevel) : assertLoadinfo l info loadbits = assertLoadinfo l info' loadbits := by
  simp only [List.forall_mem_cons] at hhas
  obtain ⟨htps, hfcs, htao, hutf8, -⟩ := hhas
  have htps : info.tps = info'.tps := by rw [Loadinfo.tps, htps, Loadinfo.tps]
  have htao : info.tao = info'.tao := htao
  simp only [assertLoadinfo, tpsMismatch, taoMismatch, buildMismatch, Loadinfo.tpsBit, Loadinfo.taoBit, hload,
    hloaduniverse, hversion, htps, hfcs, htao, hutf8, hoptlevel]

lemma optlevel_and_otherBits (level : BitVec 4) : (level.setWidth 32 <<< 8) &&& otherBits = 0 := by
  revert level
  decide

lemma withOptlevel_and (level : BitVec 4) (info : Loadinfo) {bits : BitVec 32} (hbits : otherBits &&& bits = bits) :
    (info.withOptlevel level).version.bits &&& bits = info.version.bits &&& bits := by
  have hlevel : (level.setWidth 32 <<< 8) &&& bits = 0 := by
    rw [← hbits, ← BitVec.and_assoc, optlevel_and_otherBits]
    exact BitVec.zero_and
  rw [Loadinfo.withOptlevel, BitVec.and_comm, BitVec.and_or_distrib_left, BitVec.and_comm bits, BitVec.and_assoc, hbits,
    BitVec.and_comm bits, hlevel]
  exact BitVec.or_zero

lemma optlevel_eq (info : Loadinfo) : info.optlevel = (info.version.bits &&& 0x70000) >>> 16 := by
  rw [Loadinfo.optlevel, BitVec.ushiftRight_and_distrib]
  rfl

lemma withOptlevel_optlevel (level : BitVec 4) (info : Loadinfo) : (info.withOptlevel level).optlevel = info.optlevel := by
  rw [optlevel_eq, optlevel_eq, withOptlevel_and level info (by decide)]

lemma versionMismatch_of_unset (hfoundation : info.version.foundation = 0) (huser : info.version.user = 0) :
    versionMismatch l info = none := by
  unfold versionMismatch versionassertMismatch
  rw [if_pos hfoundation, if_pos huser]
  rfl

lemma assertLoadinfo_withOptlevel (level : BitVec 4) (hfoundation : info.version.foundation = 0)
    (huser : info.version.user = 0) :
    assertLoadinfo l (info.withOptlevel level) loadbits = assertLoadinfo l info loadbits := by
  apply assertLoadinfo_congr
  · rfl
  · rfl
  · rw [versionMismatch_of_unset hfoundation huser]
    exact versionMismatch_of_unset hfoundation huser
  · simp only [List.forall_mem_cons, Loadinfo.has]
    refine ⟨?_, ?_, ?_, ?_, by simp⟩ <;> rw [withOptlevel_and level info (by decide)]
  · exact withOptlevel_optlevel level info

lemma Passes.optlevel_ge (h : Passes l info) : l.minOptlevel.toNat ≤ info.optlevel.toNat := by
  have hbuild := h.build
  unfold buildMismatch at hbuild
  by_contra hlt
  have hlow : info.optlevel < l.minOptlevel.setWidth 32 := by
    rw [BitVec.lt_def, BitVec.toNat_setWidth_of_le (by decide)]
    omega
  rw [if_pos (Or.inl hlow)] at hbuild
  split at hbuild
  · cases hbuild
  · cases hbuild

/-- **The optimization level does not matter**, whatever `min_optlevel` and `max_optlevel` are: the check takes other bits
than the compiler sets.  If these are clear, everything is rejected once there is a `min_optlevel`. -/
theorem optlevel_unread (loadbits : BitVec 64) (levels : List (BitVec 4 × Loadinfo))
    (hunset : ∀ p ∈ levels, p.2.version.foundation = 0 ∧ p.2.version.user = 0) :
    assertLoadinfos l (levels.map fun p => p.2.withOptlevel p.1) loadbits =
        assertLoadinfos l (levels.map Prod.snd) loadbits ∧
      (l.skipConsistencyChecks = false → l.minOptlevel ≠ 0 → (∃ p ∈ levels, p.2.version.bits &&& 0x70000 = 0) →
        ∀ loadbits', assertLoadinfos l (levels.map fun p => p.2.withOptlevel p.1) 0 ≠ .ok loadbits') := by
  constructor
  · unfold assertLoadinfos
    induction levels generalizing loadbits with
    | nil => rfl
    | cons p levels ih =>
      obtain ⟨hfoundation, huser⟩ := hunset p (List.mem_cons_self ..)
      simp only [List.map_cons, List.foldlM_cons, assertLoadinfo_withOptlevel p.1 hfoundation huser]
      refine bind_congr fun loadbits => ?_
      apply ih
      intro q hq
      exact hunset q (List.mem_cons_of_mem _ hq)
  · rintro hskip hmin ⟨p, hp, hclear⟩ loadbits' hok
    obtain ⟨hall, -⟩ := (assertLoadinfos_eq_ok hskip).mp hok
    have hge := (hall _ (List.mem_map_of_mem hp)).optlevel_ge
    rw [withOptlevel_optlevel, optlevel_eq, hclear] at hge
    apply hmin
    apply BitVec.eq_of_toNat_eq
    simpa using hge

/-- A loadinfo compiled with `-O3`, and a universe that wants at least `-O1`. -/
theorem optlevel_unread_once :
    assertLoadinfos { plainLoader with minOptlevel := 1 }
        ([((3 : BitVec 4), (⟨⟨21, 0, 0, 0⟩, false⟩ : Loadinfo))].map fun p => p.2.withOptlevel p.1) 0 =
        assertLoadinfos { plainLoader with minOptlevel := 1 }
          ([((3 : BitVec 4), (⟨⟨21, 0, 0, 0⟩, false⟩ : Loadinfo))].map Prod.snd) 0 ∧
      ∀ loadbits', assertLoadinfos { plainLoader with minOptlevel := 1 }
        ([((3 : BitVec 4), (⟨⟨21, 0, 0, 0⟩, false⟩ : Loadinfo))].map fun p => p.2.withOptlevel p.1) 0 ≠ .ok loadbits' := by
  have h := optlevel_unread (l := { plainLoader with minOptlevel := 1 }) 0
    [((3 : BitVec 4), (⟨⟨21, 0, 0, 0⟩, false⟩ : Loadinfo))] (by decide)
  exact ⟨h.1, h.2 rfl (by decide) (by decide)⟩

end MulleObjcRuntime.Loadchecks
