import MulleObjcRuntime.Classes.Graph
import MulleObjcRuntime.Lib.Runs
import MulleObjcRuntime.Registry.Defs

/-!
# New class pairs

A class pair has two objects, the infraclass and the metaclass, each with an isa and a superclass.

* `newClasspair` — `mulle_objc_universe_new_classpair`, with its error returns;
* `Wired` — what a new pair takes from the pair of its superclass;
* `superclass_eq` — the superclasses are the ones a method search goes by;
* `Diagram` — the diagram of the source;
* `diagram_iff` — the isa of a metaclass is never the root metaclass, and everything else is as in the diagram.
-/

namespace MulleObjcRuntime.Objects

open Classes Lib.Runs

/-- What `newClasspair` sets up in a `_mulle_objc_class` and its header. -/
structure ClassObject where
  isa : ClassRef ℕ
  name : String
  superclass : Option (ClassRef ℕ)
  superclassid : ℕ
  inheritance : ℕ
  classid : ℕ
  /-- of a metaclass only -/
  infraclass : Option ℕ
  deriving DecidableEq

/-- Both objects of a pair, in one allocation. -/
structure PairObjects where
  infraclass : ClassObject
  metaclass : ClassObject
  deriving DecidableEq

/-- The pairs, each named by its index. -/
structure Pairs where
  /-- the universe is set up and has an allocator -/
  isInitialized : Bool
  classdefaults : ℕ
  pairs : List PairObjects
  deriving DecidableEq

inductive Errno
  | einval
  | enxio
  deriving DecidableEq

/-- `MULLE_OBJC_NO_CLASSID` -/
def noClassid : ℕ := 0

/-- `MULLE_OBJC_INVALID_CLASSID` -/
def invalidClassid : ℕ := 0xffffffff

/-- An object that has not been written. -/
def zeroObject : ClassObject := ⟨⟨0, false⟩, "", none, noClassid, 0, noClassid, none⟩

/-- The object at an address. -/
def Pairs.object (u : Pairs) (cls : ClassRef ℕ) : ClassObject :=
  let pair := u.pairs.getD cls.pair ⟨zeroObject, zeroObject⟩
  if cls.isMeta then pair.metaclass else pair.infraclass

/-- `_mulle_objc_class_init`, and the isa in the header. -/
def classInit (classdefaults : ℕ) (isa : ClassRef ℕ) (name : String) (classid : ℕ)
    (superclass : Option (ClassRef ℕ × ClassObject)) : ClassObject where
  isa
  name
  superclass := superclass.map Prod.fst
  superclassid := superclass.elim noClassid fun s => s.2.classid
  inheritance := superclass.elim classdefaults fun s => s.2.inheritance
  classid
  infraclass := none

/-- Both objects of the next pair. -/
def Pairs.newObjects (u : Pairs) (classid : ℕ) (name : String) (superclass : Option ℕ) : PairObjects :=
  let pair := u.pairs.length
  let superMeta := superclass.map fun q => (⟨q, true⟩ : ClassRef ℕ)
  -- `_mulle_objc_class_get_metaclass` reads the isa of the header
  let superMetaIsa := superMeta.map fun m => (u.object m).isa
  let infraclass := classInit u.classdefaults ⟨pair, true⟩ name classid
    (superclass.map fun q => (⟨q, false⟩, u.object ⟨q, false⟩))
  let metaclass := classInit u.classdefaults (superMetaIsa.getD ⟨pair, false⟩) name classid
    (some (superMeta.elim (⟨pair, false⟩, infraclass) fun m => (m, u.object m)))
  ⟨infraclass, { metaclass with infraclass := some pair }⟩

/-- `mulle_objc_universe_new_classpair`.  The name is hashed by `mulle_objc_classid_from_string`. -/
def newClasspair (hash : String → ℕ) (u : Option Pairs) (classid : ℕ) (name : Option String)
    (superclass : Option ℕ) : Except Errno Pairs :=
  match u with
  | none => .error .einval
  | some u =>
    if u.isInitialized = false then .error .enxio
    else if classid = noClassid ∨ classid = invalidClassid then .error .einval
    else match name with
      | none => .error .einval
      | some name =>
        if name.isEmpty then .error .einval
        else if classid ≠ hash name then .error .einval
        else .ok { u with pairs := u.pairs ++ [u.newObjects classid name superclass] }

/-- The arguments of a call. -/
structure NewPair where
  classid : ℕ
  name : Option String
  superclass : Option ℕ
  deriving DecidableEq

/-- One call.  The superclass is the infraclass of a pair, if there is one, and an error leaves everything as it is. -/
def Pairs.step (hash : String → ℕ) (u : Pairs) (c : NewPair) : Option Pairs :=
  if ∀ q ∈ c.superclass, q < u.pairs.length then
    match newClasspair hash (some u) c.classid c.name c.superclass with
    | .ok u' => some u'
    | .error _ => some u
  else none

/-- No pair has been made. -/
def Pairs.new (isInitialized : Bool) (classdefaults : ℕ) : Pairs := ⟨isInitialized, classdefaults, []⟩

/-! ## What a new pair takes from the pair of its superclass -/

variable {hash : String → ℕ} {u u' : Pairs} {i r : ℕ} {calls : List NewPair}

/-- The pointers of a pair, next to those of the pair before it in the tree. -/
structure Wired (u : Pairs) (i : ℕ) : Prop where
  infraclass_isa : (u.object ⟨i, false⟩).isa = ⟨i, true⟩
  root : (u.object ⟨i, false⟩).superclass = none →
    (u.object ⟨i, true⟩).isa = ⟨i, false⟩ ∧ (u.object ⟨i, true⟩).superclass = some ⟨i, false⟩
  superclass : ∀ s, (u.object ⟨i, false⟩).superclass = some s → s.isMeta = false ∧ s.pair < i ∧
    (u.object ⟨i, true⟩).isa = (u.object ⟨s.pair, true⟩).isa ∧
    (u.object ⟨i, true⟩).superclass = some ⟨s.pair, true⟩

lemma newClasspair_eq_ok {classid : ℕ} {name : Option String} {superclass : Option ℕ}
    (h : newClasspair hash (some u) classid name superclass = .ok u') :
    ∃ name, u' = { u with pairs := u.pairs ++ [u.newObjects classid name superclass] } := by
  simp only [newClasspair] at h
  split at h
  · cases h
  · split at h
    · cases h
    · split at h
      · cases h
      · next name =>
        split at h
        · cases h
        · split at h
          · cases h
          · exact ⟨name, (Except.ok.inj h).symm⟩

lemma step_eq_some {c : NewPair} (h : u.step hash c = some u') :
    u' = u ∨ ∃ name, (∀ q ∈ c.superclass, q < u.pairs.length) ∧
      u' = { u with pairs := u.pairs ++ [u.newObjects c.classid name c.superclass] } := by
  unfold Pairs.step at h
  split at h
  · next hsuper =>
    split at h
    · next hnew =>
      obtain ⟨name, rfl⟩ := newClasspair_eq_ok hnew
      exact Or.inr ⟨name, hsuper, (Option.some.inj h).symm⟩
    · exact Or.inl (Option.some.inj h).symm
  · cases h

lemma object_append (cls : ClassRef ℕ) (h : cls.pair < u.pairs.length) (pairs : List PairObjects) :
    Pairs.object { u with pairs := u.pairs ++ pairs } cls = u.object cls := by
  simp only [Pairs.object, List.getD_append _ _ _ _ h]

lemma object_last (pair : PairObjects) (isMeta : Bool) :
    Pairs.object { u with pairs := u.pairs ++ [pair] } ⟨u.pairs.length, isMeta⟩ =
      if isMeta then pair.metaclass else pair.infraclass := by
  simp [Pairs.object]

lemma Wired.append (h : Wired u i) (hi : i < u.pairs.length) (pairs : List PairObjects) :
    Wired { u with pairs := u.pairs ++ pairs } i := by
  have hinfra : Pairs.object { u with pairs := u.pairs ++ pairs } ⟨i, false⟩ = u.object ⟨i, false⟩ := object_append _ hi pairs
  have hmeta : Pairs.object { u with pairs := u.pairs ++ pairs } ⟨i, true⟩ = u.object ⟨i, true⟩ := object_append _ hi pairs
  refine ⟨by rw [hinfra, h.infraclass_isa], ?_, ?_⟩
  · rw [hinfra, hmeta]
    exact h.root
  · intro s hs
    rw [hinfra] at hs
    obtain ⟨hside, hlt, hisa, hsuper⟩ := h.superclass s hs
    have hs' : Pairs.object { u with pairs := u.pairs ++ pairs } ⟨s.pair, true⟩ = u.object ⟨s.pair, true⟩ :=
      object_append ⟨s.pair, true⟩ (hlt.trans hi) pairs
    rw [hmeta, hs']
    exact ⟨hside, hlt, hisa, hsuper⟩

/-- The new pair is wired. -/
lemma wired_newObjects (classid : ℕ) (name : String) {superclass : Option ℕ}
    (hsuper : ∀ q ∈ superclass, q < u.pairs.length) :
    Wired { u with pairs := u.pairs ++ [u.newObjects classid name superclass] } u.pairs.length := by
  cases superclass with
  | none =>
    refine ⟨?_, fun _ => ⟨?_, ?_⟩, ?_⟩
    · rw [object_last]
      rfl
    · rw [object_last]
      rfl
    · rw [object_last]
      rfl
    · intro s hs
      rw [object_last] at hs
      cases hs
  | some q =>
    have hq : q < u.pairs.length := hsuper q rfl
    refine ⟨?_, fun hnone => ?_, ?_⟩
    · rw [object_last]
      rfl
    · rw [object_last] at hnone
      cases hnone
    · intro s hs
      rw [object_last] at hs
      obtain rfl := Option.some.inj hs
      refine ⟨rfl, hq, ?_, ?_⟩
      · rw [object_last, object_append _ hq]
        rfl
      · rw [object_last]
        rfl

/-- **In every run all pairs are wired.** -/
theorem wired_of_run (hrun : run (Pairs.step hash) u calls = some u') (h : ∀ i < u.pairs.length, Wired u i) :
    ∀ i < u'.pairs.length, Wired u' i := by
  induction calls generalizing u with
  | nil =>
    cases hrun
    exact h
  | cons c calls ih =>
    obtain ⟨v, hstep, hrest⟩ := run_cons_eq_some.1 hrun
    apply ih hrest
    rcases step_eq_some hstep with rfl | ⟨name, hsuper, rfl⟩
    · exact h
    · intro i hi
      rw [List.length_append, List.length_singleton] at hi
      rcases Nat.lt_succ_iff_lt_or_eq.1 hi with hi | rfl
      · exact (h i hi).append hi _
      · exact wired_newObjects _ _ hsuper

/-! ## The diagram -/

/-- The root of the tree that the pair `i` is in. -/
inductive RootOf (u : Pairs) : ℕ → ℕ → Prop
  | root {i : ℕ} (h : (u.object ⟨i, false⟩).superclass = none) : RootOf u i i
  | super {i r : ℕ} {s : ClassRef ℕ} (h : (u.object ⟨i, false⟩).superclass = some s) (hroot : RootOf u s.pair r) :
    RootOf u i r

/-- A class, its superclass, and so on to the last one. -/
inductive Chain (u : Pairs) : ClassRef ℕ → List (ClassRef ℕ) → Prop
  | last {cls : ClassRef ℕ} (h : (u.object cls).superclass = none) : Chain u cls [cls]
  | next {cls s : ClassRef ℕ} {l : List (ClassRef ℕ)} (h : (u.object cls).superclass = some s) (hchain : Chain u s l) :
    Chain u cls (cls :: l)

/-- The diagram of the source for one pair, but for the isa of the metaclass. -/
structure Mirrors (u : Pairs) (i : ℕ) : Prop where
  /-- (1) -/
  infraclass_isa : (u.object ⟨i, false⟩).isa = ⟨i, true⟩
  /-- (3) -/
  root : (u.object ⟨i, false⟩).superclass = none → (u.object ⟨i, true⟩).superclass = some ⟨i, false⟩
  superclass : ∀ s, (u.object ⟨i, false⟩).superclass = some s → (u.object ⟨i, true⟩).superclass = some ⟨s.pair, true⟩
  /-- the metaclasses in the order of the infraclasses, and then the root -/
  chain : ∃ (l : List ℕ) (r : ℕ), RootOf u i r ∧ Chain u ⟨i, false⟩ (l.map fun p => ⟨p, false⟩) ∧
    Chain u ⟨i, true⟩ ((l.map fun p => ⟨p, true⟩) ++ [⟨r, false⟩])

/-- The diagram of the source for one pair. -/
structure Diagram (u : Pairs) (i : ℕ) : Prop extends Mirrors u i where
  /-- (2) -/
  metaclass_isa : ∀ r, RootOf u i r → (u.object ⟨i, true⟩).isa = ⟨r, true⟩

/-- The metaclasses mirror the infraclasses, when all pairs are wired. -/
theorem mirrors_of_wired (h : ∀ i < u.pairs.length, Wired u i) (hi : i < u.pairs.length) : Mirrors u i := by
  refine ⟨(h i hi).infraclass_isa, fun hroot => ((h i hi).root hroot).2, fun s hs => ((h i hi).superclass s hs).2.2.2, ?_⟩
  induction i using Nat.strong_induction_on with
  | _ i ih =>
    cases hsuper : (u.object ⟨i, false⟩).superclass with
    | none => exact ⟨[i], i, .root hsuper, .last hsuper, .next ((h i hi).root hsuper).2 (.last hsuper)⟩
    | some s =>
      obtain ⟨hside, hlt, -, hmeta⟩ := (h i hi).superclass s hsuper
      obtain ⟨l, r, hroot, hinfra, hmirror⟩ := ih s.pair hlt (hlt.trans hi)
      have hs : s = ⟨s.pair, false⟩ := by rw [← hside]
      refine ⟨i :: l, r, .super hsuper hroot, .next hsuper ?_, .next hmeta hmirror⟩
      rw [hs]
      exact hinfra

/-- The isa of a metaclass is the *infraclass* of the root. -/
theorem metaclass_isa_of_wired (h : ∀ i < u.pairs.length, Wired u i) (hi : i < u.pairs.length) (hroot : RootOf u i r) :
    (u.object ⟨i, true⟩).isa = ⟨r, false⟩ := by
  induction hroot with
  | root hnone => exact ((h _ hi).root hnone).1
  | super hsuper _ ih =>
    obtain ⟨-, hlt, hisa, -⟩ := (h _ hi).superclass _ hsuper
    rw [hisa]
    exact ih (hlt.trans hi)

lemma wired_of_new {isInitialized : Bool} {classdefaults : ℕ}
    (hrun : run (Pairs.step hash) (.new isInitialized classdefaults) calls = some u') :
    ∀ i < u'.pairs.length, Wired u' i :=
  wired_of_run hrun fun i hi => absurd hi (Nat.not_lt_zero i)

/-- The superclasses are the ones a method search goes by. -/
theorem superclass_eq (h : Wired u i) {g : ClassGraph ℕ}
    (hg : (g.pair i).superclass = (u.object ⟨i, false⟩).superclass.map ClassRef.pair) (isMeta : Bool) :
    g.superclass ⟨i, isMeta⟩ = (u.object ⟨i, isMeta⟩).superclass := by
  unfold ClassGraph.superclass
  cases hsuper : (u.object ⟨i, false⟩).superclass with
  | none =>
    rw [hsuper] at hg
    simp only [hg, Option.map_none]
    cases isMeta
    · exact hsuper.symm
    · exact (h.root hsuper).2.symm
  | some s =>
    rw [hsuper] at hg
    obtain ⟨hside, -, -, hmeta⟩ := h.superclass s hsuper
    simp only [hg, Option.map_some]
    cases isMeta
    · rw [hsuper, ← hside]
    · exact hmeta.symm

/-- **The diagram holds of no pair that is ever made.** -/
theorem diagram_iff (hash : String → ℕ) (isInitialized : Bool) (classdefaults : ℕ) (calls : List NewPair) (u : Pairs)
    (hrun : run (Pairs.step hash) (.new isInitialized classdefaults) calls = some u) :
    (∀ i < u.pairs.length, Mirrors u i ∧ ¬ Diagram u i) ∧ ((∀ i < u.pairs.length, Diagram u i) ↔ u.pairs = []) := by
  have hwired := wired_of_new hrun
  have hnot : ∀ i < u.pairs.length, ¬ Diagram u i := by
    intro i hi h
    obtain ⟨-, r, hroot, -⟩ := h.chain
    have hmeta := h.metaclass_isa r hroot
    rw [metaclass_isa_of_wired hwired hi hroot] at hmeta
    cases hmeta
  refine ⟨fun i hi => ⟨mirrors_of_wired hwired hi, hnot i hi⟩, fun h => ?_, fun h i hi => ?_⟩
  · by_contra hne
    have hpos := List.length_pos_iff.2 hne
    exact hnot 0 hpos (h 0 hpos)
  · rw [h] at hi
    exact absurd hi (Nat.not_lt_zero i)

/-- `mulle_objc_classid_from_string`, with the hash itself -/
def classidFromString (name : String) : ℕ := Registry.classidFromString Registry.sampleConfig name.toList

/-- A root class and a subclass. -/
def twoClasses : List NewPair := [⟨0xb3a66256, some "NSObject", none⟩, ⟨0xc7e16770, some "Foo", some 0⟩]

theorem diagram_iff_twoClasses :
    ∃ u, run (Pairs.step classidFromString) (.new true 0) twoClasses = some u ∧
      (∀ i < u.pairs.length, Mirrors u i ∧ ¬ Diagram u i) ∧ ((∀ i < u.pairs.length, Diagram u i) ↔ u.pairs = []) :=
  ⟨_, rfl, diagram_iff classidFromString true 0 twoClasses _ rfl⟩

/-- The isa of the metaclass of `Foo` is `NSObject`. -/
theorem twoClasses_not_diagram :
    ∃ u, run (Pairs.step classidFromString) (.new true 0) twoClasses = some u ∧ u.pairs.length = 2 ∧
      (u.object ⟨1, true⟩).isa = ⟨0, false⟩ ∧ ¬ Diagram u 1 := by
  refine ⟨_, rfl, rfl, rfl, fun h => ?_⟩
  have hisa := h.metaclass_isa 0 (.super rfl (.root rfl))
  cases hisa

end MulleObjcRuntime.Objects
