import Mathlib.Logic.Function.Basic
import MulleObjcRuntime.Lib.Runs
import MulleObjcRuntime.Retain.Defs

/-!
# Static instances

A static instance comes without a class.  The number of a slot is in its isa, until the slot has a class.

* `addStaticinstance`, `setStaticinstanceclasses`, `didchangeStaticinstanceclass` — as in the source;
* `isa_of_run` — the class an instance gets;
* `constant_of_run` — an instance is constant in the end if and only if it came so or has been in the queue when a call
  constantified;
* `settled_iff` — what the calls leave behind does not depend on their order if and only if nothing that comes after such
  a call is missed.
-/

namespace MulleObjcRuntime.Objects

open Lib.Runs
open Retain (neverRelease)

/-- `MULLE_OBJC_STATICINSTANCE_CLASS_SLOTS` -/
def staticinstanceClassSlots : ℕ := 8

/-- The address of an infraclass.  It is no number of a slot. -/
structure Infraclass where
  address : ℕ
  noSlot : staticinstanceClassSlots ≤ address
  deriving DecidableEq

/-- What the header of an instance says. -/
structure Header where
  /-- the number of a slot, or a class -/
  isa : ℕ
  retaincount_1 : ℤ
  deriving DecidableEq

/-- The slots, the instances added so far, and the memory. -/
structure Statics where
  staticinstanceclass : ℕ → Option Infraclass
  staticinstances : List ℕ
  header : ℕ → Header

/-- Nothing has been added, and no slot has a class. -/
def Statics.new (header : ℕ → Header) : Statics := ⟨fun _ => none, [], header⟩

/-! ## The functions of the source -/

/-- `_mulle_objc_object_constantify_noatomic` -/
def Header.constantify (o : Header) : Header := { o with retaincount_1 := neverRelease }

/-- One turn of the second loop of `_mulle_objc_universe_didchange_staticinstanceclass`. -/
def Header.patch (classes : ℕ → Option Infraclass) (o : Header) : Header :=
  if staticinstanceClassSlots ≤ o.isa then o
  else match classes o.isa with
    | none => o
    | some infra => { o with isa := infra.address }

/-- `mulle_concurrent_pointerarray_for` -/
def pointerarrayFor (instances : List ℕ) (turn : Header → Header) (header : ℕ → Header) : ℕ → Header :=
  instances.foldl (fun header x => Function.update header x (turn (header x))) header

/-- `_mulle_objc_universe_add_staticinstance` -/
def Statics.addStaticinstance (u : Statics) (x : ℕ) : Option Statics :=
  let classindex := (u.header x).isa
  -- the assertion
  if classindex < staticinstanceClassSlots then
    match u.staticinstanceclass classindex with
    | none => some { u with staticinstances := u.staticinstances ++ [x] }
    | some infra =>
      some { u with
        header := Function.update u.header x { u.header x with isa := infra.address }
        staticinstances := u.staticinstances ++ [x] }
  else none

/-- `_mulle_objc_universe_didchange_staticinstanceclass` -/
def Statics.didchangeStaticinstanceclass (u : Statics) (constantify : Bool) : Statics :=
  let header := if constantify then pointerarrayFor u.staticinstances Header.constantify u.header else u.header
  { u with header := pointerarrayFor u.staticinstances (Header.patch u.staticinstanceclass) header }

/-- `_mulle_objc_universe_set_staticinstanceclasses` -/
def Statics.setStaticinstanceclasses (u : Statics) (infra : ℕ → Option Infraclass) (constantify : Bool) : Statics :=
  Statics.didchangeStaticinstanceclass
    { u with
      staticinstanceclass := fun i =>
        if i < staticinstanceClassSlots then (infra i).or (u.staticinstanceclass i) else u.staticinstanceclass i }
    constantify

/-- A call from outside. -/
inductive StaticCall
  | add (x : ℕ)
  | set (infra : ℕ → Option Infraclass) (constantify : Bool)

/-- One call. -/
def Statics.step (u : Statics) : StaticCall → Option Statics
  | .add x => u.addStaticinstance x
  | .set infra constantify => some (u.setStaticinstanceclasses infra constantify)

/-! ## What one call does to one instance -/

variable {u u' : Statics} {x : ℕ} {calls : List StaticCall} {header : ℕ → Header}

lemma pointerarrayFor_apply {turn : Header → Header} (hturn : ∀ o, turn (turn o) = turn o) (instances : List ℕ)
    (header : ℕ → Header) (x : ℕ) :
    pointerarrayFor instances turn header x = if x ∈ instances then turn (header x) else header x := by
  induction instances generalizing header with
  | nil => rfl
  | cons y instances ih =>
    rw [pointerarrayFor, List.foldl_cons, ← pointerarrayFor, ih]
    by_cases hxy : x = y
    · subst hxy
      simp [hturn]
    · simp [hxy]

@[simp]
lemma isa_constantify_if (constantify : Bool) (o : Header) : (if constantify then o.constantify else o).isa = o.isa := by
  cases constantify <;> rfl

lemma constantify_constantify (o : Header) : o.constantify.constantify = o.constantify := rfl

lemma patch_patch (classes : ℕ → Option Infraclass) (o : Header) :
    (o.patch classes).patch classes = o.patch classes := by
  unfold Header.patch
  split
  · rfl
  · next h =>
    split
    · next hnone => rw [if_neg h, hnone]
    · next infra _ => exact if_pos infra.noSlot

@[simp]
lemma patch_retaincount_1 (classes : ℕ → Option Infraclass) (o : Header) :
    (o.patch classes).retaincount_1 = o.retaincount_1 := by
  unfold Header.patch
  split
  · rfl
  · split <;> rfl

lemma patch_of_class {classes : ℕ → Option Infraclass} {o : Header} (h : staticinstanceClassSlots ≤ o.isa) :
    o.patch classes = o := if_pos h

lemma patch_of_slot {classes : ℕ → Option Infraclass} {o : Header} (h : o.isa < staticinstanceClassSlots) :
    (o.patch classes).isa = ((classes o.isa).map Infraclass.address).getD o.isa := by
  unfold Header.patch
  rw [if_neg (by omega)]
  split
  · next hnone => rw [hnone]; rfl
  · next hsome => rw [hsome]; rfl

lemma header_set (infra : ℕ → Option Infraclass) (constantify : Bool) (x : ℕ) :
    (u.setStaticinstanceclasses infra constantify).header x =
      if x ∈ u.staticinstances then
        (if constantify then (u.header x).constantify else u.header x).patch
          (u.setStaticinstanceclasses infra constantify).staticinstanceclass
      else u.header x := by
  simp only [Statics.setStaticinstanceclasses, Statics.didchangeStaticinstanceclass]
  rw [pointerarrayFor_apply (patch_patch _)]
  cases constantify
  · rfl
  · simp only [if_true, pointerarrayFor_apply constantify_constantify]
    split
    · rfl
    · rfl

@[simp]
lemma staticinstances_set (infra : ℕ → Option Infraclass) (constantify : Bool) :
    (u.setStaticinstanceclasses infra constantify).staticinstances = u.staticinstances := rfl

lemma staticinstanceclass_set (infra : ℕ → Option Infraclass) (constantify : Bool) {slot : ℕ}
    (h : slot < staticinstanceClassSlots) :
    (u.setStaticinstanceclasses infra constantify).staticinstanceclass slot =
      (infra slot).or (u.staticinstanceclass slot) := if_pos h

/-- After an instance has been added. -/
def Statics.added (u : Statics) (x : ℕ) : Statics :=
  { u with
    header := Function.update u.header x ((u.header x).patch u.staticinstanceclass)
    staticinstances := u.staticinstances ++ [x] }

@[simp]
lemma staticinstanceclass_added (x : ℕ) : (u.added x).staticinstanceclass = u.staticinstanceclass := rfl

lemma mem_staticinstances_added (y : ℕ) : x ∈ (u.added y).staticinstances ↔ x ∈ u.staticinstances ∨ x = y := by
  simp [Statics.added]

lemma header_added_self (x : ℕ) : (u.added x).header x = (u.header x).patch u.staticinstanceclass :=
  Function.update_self _ _ _

lemma header_added_ne {y : ℕ} (h : x ≠ y) : (u.added y).header x = u.header x := Function.update_of_ne h _ _

/-- **What adding does**: the instance had the number of a slot, is patched, and is in the queue. -/
lemma addStaticinstance_eq_some (h : u.addStaticinstance x = some u') :
    (u.header x).isa < staticinstanceClassSlots ∧ u' = u.added x := by
  simp only [Statics.addStaticinstance] at h
  split at h
  · next hslot =>
    refine ⟨hslot, ?_⟩
    unfold Statics.added Header.patch
    rw [if_neg (by omega)]
    split at h
    · rw [← Option.some.inj h, Function.update_eq_self]
    · rw [← Option.some.inj h]
  · cases h

/-! ## What a run does to one instance -/

/-- The class of a slot after some calls. -/
def currentClass (slot : ℕ) : Option Infraclass → List StaticCall → Option Infraclass
  | infra, [] => infra
  | infra, .add _ :: calls => currentClass slot infra calls
  | old, .set infra _ :: calls => currentClass slot ((infra slot).or old) calls

/-- The class that is first set for a slot. -/
def firstClass (slot : ℕ) : List StaticCall → Option Infraclass
  | [] => none
  | .add _ :: calls => firstClass slot calls
  | .set infra _ :: calls => (infra slot).or (firstClass slot calls)

/-- A call has constantified. -/
def Constantifies (calls : List StaticCall) : Prop := ∃ infra, .set infra true ∈ calls

/-- A call has constantified after the instance had been added. -/
def Constantified (calls : List StaticCall) (x : ℕ) : Prop :=
  ∃ before after, calls = before ++ after ∧ .add x ∈ before ∧ Constantifies after

lemma constantifies_cons_add (y : ℕ) : Constantifies (.add y :: calls) ↔ Constantifies calls := by
  simp [Constantifies]

lemma constantifies_cons_set (infra : ℕ → Option Infraclass) (constantify : Bool) :
    Constantifies (.set infra constantify :: calls) ↔ constantify = true ∨ Constantifies calls := by
  unfold Constantifies
  constructor
  · rintro ⟨infra', h⟩
    rcases List.mem_cons.1 h with h | h
    · left
      exact (StaticCall.set.inj h).2.symm
    · exact Or.inr ⟨infra', h⟩
  · rintro (rfl | ⟨infra', h⟩)
    · exact ⟨infra, List.mem_cons_self⟩
    · exact ⟨infra', List.mem_cons_of_mem _ h⟩

lemma constantified_nil : ¬ Constantified [] x := by
  rintro ⟨before, after, h, hadd, -⟩
  rw [(List.append_eq_nil_iff.1 h.symm).1] at hadd
  exact List.not_mem_nil hadd

lemma constantified_cons (call : StaticCall) :
    Constantified (call :: calls) x ↔ call = .add x ∧ Constantifies calls ∨ Constantified calls x := by
  constructor
  · rintro ⟨before, after, h, hadd, hafter⟩
    rcases before with _ | ⟨first, before⟩
    · exact absurd hadd List.not_mem_nil
    rw [List.cons_append, List.cons.injEq] at h
    obtain ⟨rfl, rfl⟩ := h
    rcases List.mem_cons.1 hadd with hadd | hadd
    · obtain ⟨infra, hmem⟩ := hafter
      exact Or.inl ⟨hadd.symm, infra, List.mem_append_right _ hmem⟩
    · exact Or.inr ⟨before, after, rfl, hadd, hafter⟩
  · rintro (⟨rfl, h⟩ | ⟨before, after, rfl, hadd, hafter⟩)
    · exact ⟨[.add x], calls, rfl, List.mem_singleton_self _, h⟩
    · exact ⟨call :: before, after, rfl, List.mem_cons_of_mem _ hadd, hafter⟩

lemma staticinstanceclass_of_run (hrun : run Statics.step u calls = some u') {slot : ℕ}
    (h : slot < staticinstanceClassSlots) :
    u'.staticinstanceclass slot = currentClass slot (u.staticinstanceclass slot) calls := by
  induction calls generalizing u with
  | nil =>
    cases hrun
    rfl
  | cons call calls ih =>
    obtain ⟨v, hstep, hrest⟩ := run_cons_eq_some.1 hrun
    rw [ih hrest]
    cases call with
    | add y =>
      obtain ⟨-, rfl⟩ := addStaticinstance_eq_some hstep
      rfl
    | set infra constantify =>
      rw [← Option.some.inj hstep, staticinstanceclass_set _ _ h]
      rfl

lemma header_of_not_added (hrun : run Statics.step u calls = some u') (hqueue : x ∉ u.staticinstances)
    (hadd : .add x ∉ calls) : u'.header x = u.header x := by
  induction calls generalizing u with
  | nil =>
    cases hrun
    rfl
  | cons call calls ih =>
    obtain ⟨v, hstep, hrest⟩ := run_cons_eq_some.1 hrun
    rw [List.mem_cons, not_or] at hadd
    cases call with
    | add y =>
      obtain ⟨-, rfl⟩ := addStaticinstance_eq_some hstep
      have hxy : x ≠ y := fun h => hadd.1 (by rw [h])
      rw [ih hrest (by simp [mem_staticinstances_added, hqueue, hxy]) hadd.2, header_added_ne hxy]
    | set infra constantify =>
      obtain rfl := Option.some.inj hstep
      rw [ih hrest hqueue hadd.2, header_set, if_neg hqueue]

/-- What has a class keeps it. -/
lemma isa_of_patched (hrun : run Statics.step u calls = some u')
    (hclass : staticinstanceClassSlots ≤ (u.header x).isa) : (u'.header x).isa = (u.header x).isa := by
  induction calls generalizing u with
  | nil =>
    cases hrun
    rfl
  | cons call calls ih =>
    obtain ⟨v, hstep, hrest⟩ := run_cons_eq_some.1 hrun
    have hsame : (v.header x).isa = (u.header x).isa := by
      cases call with
      | add y =>
        obtain ⟨hslot, rfl⟩ := addStaticinstance_eq_some hstep
        have hxy : x ≠ y := by
          rintro rfl
          omega
        rw [header_added_ne hxy]
      | set infra constantify =>
        rw [← Option.some.inj hstep, header_set]
        split
        · rw [patch_of_class (by rwa [isa_constantify_if]), isa_constantify_if]
        · rfl
    rw [ih hrest (by omega), hsame]

/-- What waits for a class gets the one that is first set. -/
lemma isa_of_queued (hrun : run Statics.step u calls = some u') (hqueue : x ∈ u.staticinstances)
    (hslot : (u.header x).isa < staticinstanceClassSlots)
    (hnone : u.staticinstanceclass (u.header x).isa = none) :
    (u'.header x).isa = ((firstClass (u.header x).isa calls).map Infraclass.address).getD (u.header x).isa := by
  induction calls generalizing u with
  | nil =>
    cases hrun
    rfl
  | cons call calls ih =>
    obtain ⟨v, hstep, hrest⟩ := run_cons_eq_some.1 hrun
    cases call with
    | add y =>
      obtain ⟨-, rfl⟩ := addStaticinstance_eq_some hstep
      have hsame : (u.added y).header x = u.header x := by
        by_cases hxy : x = y
        · subst hxy
          rw [header_added_self, Header.patch, if_neg (by omega), hnone]
        · exact header_added_ne hxy
      have := ih hrest ((mem_staticinstances_added y).2 (Or.inl hqueue)) (by rwa [hsame])
        (by rwa [hsame, staticinstanceclass_added])
      rwa [hsame] at this
    | set infra constantify =>
      obtain rfl := Option.some.inj hstep
      have hpatched : ((u.setStaticinstanceclasses infra constantify).header x).isa =
          ((infra (u.header x).isa).map Infraclass.address).getD (u.header x).isa := by
        rw [header_set, if_pos hqueue, patch_of_slot (by rwa [isa_constantify_if]), isa_constantify_if,
          staticinstanceclass_set _ _ hslot, hnone, Option.or_none]
      cases hset : infra (u.header x).isa with
      | none =>
        rw [hset] at hpatched
        have hsame : ((u.setStaticinstanceclasses infra constantify).header x).isa = (u.header x).isa := hpatched
        have := ih hrest hqueue (by rwa [hsame])
          (by rw [hsame, staticinstanceclass_set _ _ hslot, hset, hnone]; rfl)
        rw [hsame] at this
        rw [this, firstClass, hset]
        rfl
      | some cls =>
        rw [hset] at hpatched
        have hclass : ((u.setStaticinstanceclasses infra constantify).header x).isa = cls.address := hpatched
        rw [isa_of_patched hrest (by rw [hclass]; exact cls.noSlot), hclass, firstClass, hset]
        rfl

/-- **The class an instance gets**: the one its slot had when it was added, or else the one that was first set. -/
theorem isa_of_run {before after : List StaticCall}
    (hrun : run Statics.step (.new header) (before ++ .add x :: after) = some u') (hbefore : .add x ∉ before) :
    (u'.header x).isa =
      (((currentClass (header x).isa none before).or (firstClass (header x).isa after)).map Infraclass.address).getD
        (header x).isa := by
  rw [run_append] at hrun
  obtain ⟨v, hbef, hrest⟩ := Option.bind_eq_some_iff.1 hrun
  obtain ⟨w, hadd, hafter⟩ := run_cons_eq_some.1 hrest
  have hheader : v.header x = header x := header_of_not_added hbef List.not_mem_nil hbefore
  obtain ⟨hslot, rfl⟩ := addStaticinstance_eq_some hadd
  rw [hheader] at hslot
  have hclasses : v.staticinstanceclass (header x).isa = currentClass (header x).isa none before :=
    staticinstanceclass_of_run hbef hslot
  have hpatched : (v.added x).header x = (header x).patch v.staticinstanceclass := by
    rw [header_added_self, hheader]
  have hisa := @patch_of_slot v.staticinstanceclass _ hslot
  rw [← hclasses]
  cases hset : v.staticinstanceclass (header x).isa with
  | none =>
    rw [hset] at hisa
    have hwaits : ((header x).patch v.staticinstanceclass).isa = (header x).isa := hisa
    have := isa_of_queued hafter ((mem_staticinstances_added x).2 (Or.inr rfl)) (by rw [hpatched, hwaits]; exact hslot)
      (by rw [hpatched, hwaits]; exact hset)
    rw [hpatched, hwaits] at this
    rw [this, Option.none_or]
  | some cls =>
    rw [hset] at hisa
    have hclass : ((header x).patch v.staticinstanceclass).isa = cls.address := hisa
    rw [isa_of_patched hafter (by rw [hpatched, hclass]; exact cls.noSlot), hpatched, hclass]
    rfl

/-- What is constant stays so, and a call constantifies what is in the queue. -/
theorem constant_of_run (hrun : run Statics.step u calls = some u') :
    (u'.header x).retaincount_1 = neverRelease ↔
      (u.header x).retaincount_1 = neverRelease ∨ x ∈ u.staticinstances ∧ Constantifies calls ∨
        Constantified calls x := by
  induction calls generalizing u with
  | nil =>
    cases hrun
    simp [Constantifies, constantified_nil]
  | cons call calls ih =>
    obtain ⟨v, hstep, hrest⟩ := run_cons_eq_some.1 hrun
    rw [ih hrest, constantified_cons]
    cases call with
    | add y =>
      obtain ⟨-, rfl⟩ := addStaticinstance_eq_some hstep
      have hsame : ((u.added y).header x).retaincount_1 = (u.header x).retaincount_1 := by
        by_cases hxy : x = y
        · subst hxy
          rw [header_added_self, patch_retaincount_1]
        · rw [header_added_ne hxy]
      have hcall : StaticCall.add y = .add x ↔ x = y := ⟨fun h => (StaticCall.add.inj h).symm, fun h => by rw [h]⟩
      rw [hsame, constantifies_cons_add, hcall, mem_staticinstances_added, or_and_right, or_assoc]
    | set infra constantify =>
      obtain rfl := Option.some.inj hstep
      have hcall : ¬ StaticCall.set infra constantify = .add x := StaticCall.noConfusion
      rw [header_set, constantifies_cons_set, staticinstances_set]
      by_cases hqueue : x ∈ u.staticinstances
      · cases constantify
        · simp [hqueue]
        · simp [hqueue, Header.constantify]
      · simp [hqueue]

/-! ## Whatever the order of the calls -/

/-- What the calls are to leave behind, when every slot that is used has a class. -/
structure Settled (header : ℕ → Header) (calls : List StaticCall) (u : Statics) : Prop where
  /-- the class that was current when the instance was added, or that was first set while it was queued -/
  isa : ∀ before x after, calls = before ++ .add x :: after → .add x ∉ before →
    ∃ infra, (currentClass (header x).isa none before).or (firstClass (header x).isa after) = some infra ∧
      (u.header x).isa = infra.address
  /-- no number of a slot is left -/
  noSlot : ∀ x, .add x ∈ calls → staticinstanceClassSlots ≤ (u.header x).isa
  /-- added after a call that constantifies, or before -/
  constant : ∀ before infra after x y, calls = before ++ .set infra true :: after → .add x ∈ before →
    .add y ∈ after → ((u.header y).retaincount_1 = neverRelease ↔ (u.header x).retaincount_1 = neverRelease)

/-- What is added after a call that has constantified an instance came constant, or there is another such call after it. -/
def NoneMissed (header : ℕ → Header) (calls : List StaticCall) : Prop :=
  ∀ before infra after x y, calls = before ++ .set infra true :: after → .add x ∈ before → .add y ∈ after →
    (header y).retaincount_1 = neverRelease ∨ Constantified calls y

lemma isSome_currentClass (slot : ℕ) (old : Option Infraclass) (calls : List StaticCall) :
    (currentClass slot old calls).isSome = (old.or (firstClass slot calls)).isSome := by
  induction calls generalizing old with
  | nil => rw [currentClass, firstClass, Option.or_none]
  | cons call calls ih =>
    cases call with
    | add y => exact ih old
    | set infra constantify =>
      rw [currentClass, ih, firstClass]
      simp only [Option.isSome_or]
      rw [← Bool.or_assoc, Bool.or_comm (infra slot).isSome]

lemma currentClass_append (slot : ℕ) (old : Option Infraclass) (before after : List StaticCall) :
    currentClass slot old (before ++ after) = currentClass slot (currentClass slot old before) after := by
  induction before generalizing old with
  | nil => rfl
  | cons call before ih =>
    cases call with
    | add y => exact ih old
    | set infra constantify => exact ih _

lemma exists_first_add (h : .add x ∈ calls) : ∃ before after, calls = before ++ .add x :: after ∧ .add x ∉ before := by
  induction calls with
  | nil => exact absurd h List.not_mem_nil
  | cons call calls ih =>
    by_cases hcall : call = .add x
    · exact ⟨[], calls, by rw [hcall]; rfl, List.not_mem_nil⟩
    · obtain ⟨before, after, hsplit, hbefore⟩ := ih ((List.mem_cons.1 h).resolve_left (Ne.symm hcall))
      refine ⟨call :: before, after, by rw [hsplit]; rfl, ?_⟩
      rw [List.mem_cons, not_or]
      exact ⟨Ne.symm hcall, hbefore⟩

lemma slot_of_added {before after : List StaticCall}
    (hrun : run Statics.step (.new header) (before ++ .add x :: after) = some u') (hbefore : .add x ∉ before) :
    (header x).isa < staticinstanceClassSlots := by
  rw [run_append] at hrun
  obtain ⟨v, hbef, hrest⟩ := Option.bind_eq_some_iff.1 hrun
  obtain ⟨w, hadd, -⟩ := run_cons_eq_some.1 hrest
  have hslot := (addStaticinstance_eq_some hadd).1
  rwa [header_of_not_added hbef List.not_mem_nil hbefore] at hslot

lemma isa_of_used (hrun : run Statics.step (.new header) calls = some u')
    (hused : ∀ x, .add x ∈ calls → (u'.staticinstanceclass (header x).isa).isSome) {before after : List StaticCall}
    (hsplit : calls = before ++ .add x :: after) (hbefore : .add x ∉ before) :
    ∃ infra, (currentClass (header x).isa none before).or (firstClass (header x).isa after) = some infra ∧
      (u'.header x).isa = infra.address := by
  subst hsplit
  have hset := hused x (by simp)
  rw [staticinstanceclass_of_run hrun (slot_of_added hrun hbefore), currentClass_append, isSome_currentClass] at hset
  obtain ⟨infra, hinfra⟩ := Option.isSome_iff_exists.1 hset
  refine ⟨infra, hinfra, ?_⟩
  rw [isa_of_run hrun hbefore]
  have : (currentClass (header x).isa none before).or (firstClass (header x).isa after) = some infra := hinfra
  rw [this]
  rfl

lemma constant_iff (hrun : run Statics.step (.new header) calls = some u') :
    (u'.header x).retaincount_1 = neverRelease ↔
      (header x).retaincount_1 = neverRelease ∨ Constantified calls x := by
  rw [constant_of_run hrun]
  simp [Statics.new]

/-- **Exactly when the order of the calls does not show.** -/
theorem settled_iff (hrun : run Statics.step (.new header) calls = some u')
    (hused : ∀ x, .add x ∈ calls → (u'.staticinstanceclass (header x).isa).isSome) :
    Settled header calls u' ↔ NoneMissed header calls := by
  constructor
  · intro h before infra after x y hsplit hx hy
    have hconstant : (u'.header x).retaincount_1 = neverRelease := by
      rw [constant_iff hrun]
      exact Or.inr ⟨before, .set infra true :: after, hsplit, hx, infra, List.mem_cons_self⟩
    rw [← constant_iff hrun, h.constant before infra after x y hsplit hx hy]
    exact hconstant
  · intro h
    refine ⟨fun before x after => isa_of_used hrun hused, fun x hx => ?_, ?_⟩
    · obtain ⟨before, after, hsplit, hbefore⟩ := exists_first_add hx
      obtain ⟨infra, -, hisa⟩ := isa_of_used hrun hused hsplit hbefore
      rw [hisa]
      exact infra.noSlot
    · intro before infra after x y hsplit hx hy
      rw [constant_iff hrun, constant_iff hrun]
      have hx' : Constantified calls x := ⟨before, .set infra true :: after, hsplit, hx, infra, List.mem_cons_self⟩
      exact ⟨fun _ => Or.inr hx', fun _ => h before infra after x y hsplit hx hy⟩

lemma slots_le : staticinstanceClassSlots ≤ 64 := by decide

/-- A class for the first slot. -/
def firstSlot : ℕ → Option Infraclass
  | 0 => some ⟨64, slots_le⟩
  | _ => none

/-- One instance before the call that constantifies, and one after it. -/
def lateCalls : List StaticCall := [.add 1, .set firstSlot true, .add 2]

theorem settled_iff_repeated :
    ∃ u', run Statics.step (.new fun _ => ⟨0, 0⟩) (lateCalls ++ [.set firstSlot true]) = some u' ∧
      (Settled (fun _ => ⟨0, 0⟩) (lateCalls ++ [.set firstSlot true]) u' ↔
        NoneMissed (fun _ => ⟨0, 0⟩) (lateCalls ++ [.set firstSlot true])) := by
  refine ⟨_, rfl, settled_iff rfl ?_⟩
  intro x _
  rfl

/-- The instance that is added after the call can be released. -/
theorem lateCalls_not_settled :
    ∃ u', run Statics.step (.new fun _ => ⟨0, 0⟩) lateCalls = some u' ∧
      (∀ x, .add x ∈ lateCalls → (u'.staticinstanceclass 0).isSome) ∧ ¬ Settled (fun _ => ⟨0, 0⟩) lateCalls u' := by
  refine ⟨_, rfl, fun x _ => rfl, fun h => ?_⟩
  have := h.constant [.add 1] firstSlot [.add 2] 1 2 rfl List.mem_cons_self List.mem_cons_self
  revert this
  decide

end MulleObjcRuntime.Objects
