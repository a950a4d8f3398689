import MulleObjcRuntime.Classes.Graph
import MulleObjcRuntime.Lib.Interleaving

/-!
# The setter of a property that is retained or copied

* `setPropertyValue` — `mulle_objc_object_set_property_value`, run by itself;
* `ValueSetter.begin`, `ValueSetter.advance` — the same with a stop at every access to the ivar;
* `ValuesAccounted` — how often each object was acquired and autoreleased, at any time;
* `ownership_conserved` — one ownership for each store, given up exactly when the store has been replaced.

An autorelease does not release anything before the calls are over.
-/

namespace MulleObjcRuntime.Objects

open Classes (has)
open Lib.Interleaving

/-- `mulle_objc_property_accessor_atomic` -/
def accessorAtomic : ℕ := 0x2

/-- `mulle_objc_property_accessor_copy` -/
def accessorCopy : ℕ := 0x4

/-- `mulle_objc_property_accessor_mutable_copy` -/
def accessorMutableCopy : ℕ := 0x8

/-- The arguments of a call, and what the value answers to `-copy` and `-mutableCopy`. -/
structure ValueCall where
  value : Option ℕ
  strategy : ℕ
  copied : Option ℕ
  mutablecopied : Option ℕ
  deriving DecidableEq

/-- The ivar, with what it was before, and the ownerships of objects. -/
structure ValueIvar where
  ivar : Option ℕ
  /-- the values that have been replaced -/
  replaced : List (Option ℕ)
  /-- the objects retained or received as copies -/
  acquired : List ℕ
  autoreleased : List ℕ
  deriving DecidableEq

/-- The value of the ivar is owned once, and nothing has happened yet. -/
def ValueIvar.new (ivar : Option ℕ) : ValueIvar := ⟨ivar, [], ivar.toList, []⟩

/-! ## The function of the source -/

/-- The value that is stored.  A message to nil returns nil. -/
def ValueCall.acquire (c : ValueCall) : Option ℕ :=
  if has c.strategy accessorCopy then
    if has c.strategy accessorMutableCopy then c.value.bind fun _ => c.mutablecopied
    else c.value.bind fun _ => c.copied
  else c.value

/-- One ownership of the value more. -/
def ValueIvar.own (s : ValueIvar) (value : Option ℕ) : ValueIvar := { s with acquired := value.toList ++ s.acquired }

/-- `mulle_objc_object_call_autorelease` -/
def ValueIvar.autorelease (s : ValueIvar) (old : Option ℕ) : ValueIvar :=
  { s with autoreleased := old.toList ++ s.autoreleased }

/-- A store into the ivar. -/
def ValueIvar.store (s : ValueIvar) (value : Option ℕ) : ValueIvar :=
  { s with ivar := value, replaced := s.ivar :: s.replaced }

/-- `mulle_objc_object_set_property_value` -/
def setPropertyValue (s : ValueIvar) (c : ValueCall) : ValueIvar :=
  let s := s.own c.acquire
  if has c.strategy accessorAtomic then
    let old := s.ivar
    (s.store c.acquire).autorelease old
  else (s.autorelease s.ivar).store c.acquire

/-- Where a thread is in the setter. -/
inductive ValueSetter
  | idle
  | acquired (value : Option ℕ) (strategy : ℕ)
  /-- `_mulle_atomic_pointer_set` has returned the old value -/
  | exchanged (old : Option ℕ)
  /-- the value of the ivar has been autoreleased -/
  | autoreleased (value old : Option ℕ)
  deriving DecidableEq

/-- The beginning of a call. -/
def ValueSetter.begin (s : ValueIvar) (c : ValueCall) : ValueIvar × ValueSetter :=
  (s.own c.acquire, .acquired c.acquire c.strategy)

/-- The next access. -/
def ValueSetter.advance (s : ValueIvar) : ValueSetter → Option (ValueIvar × ValueSetter)
  | .idle => none
  | .acquired value strategy =>
    if has strategy accessorAtomic then some (s.store value, .exchanged s.ivar)
    else some (s.autorelease s.ivar, .autoreleased value s.ivar)
  | .exchanged old => some (s.autorelease old, .idle)
  | .autoreleased value _ => some (s.store value, .idle)

/-- A step of a thread that calls with the allowed strategies. -/
inductive ValueStep (allowed : ℕ → Prop) : ValueIvar → ValueSetter → ValueIvar → ValueSetter → Prop
  | call {s : ValueIvar} (c : ValueCall) (h : allowed c.strategy) :
    ValueStep allowed s .idle (ValueSetter.begin s c).1 (ValueSetter.begin s c).2
  | next {s s' : ValueIvar} {l l' : ValueSetter} (h : l.advance s = some (s', l')) : ValueStep allowed s l s' l'

/-- Threads that have not called the setter yet. -/
def valueStart (ι : Type) (ivar : Option ℕ) : Threads ι ValueIvar ValueSetter := ⟨.new ivar, fun _ => .idle⟩

variable {allowed : ℕ → Prop} {s s' : ValueIvar} {l l' : ValueSetter}

/-- A call that nobody disturbs is the function of the source. -/
theorem solo_setPropertyValue (s : ValueIvar) {c : ValueCall} (h : allowed c.strategy) :
    Solo (ValueStep allowed) s .idle (setPropertyValue s c) .idle := by
  apply Solo.step (.call c h)
  by_cases hatomic : has c.strategy accessorAtomic = true
  · have hfinal : setPropertyValue s c = ((s.own c.acquire).store c.acquire).autorelease (s.own c.acquire).ivar := by
      simp only [setPropertyValue, hatomic, if_true]
    have hadvance : ValueSetter.advance (s.own c.acquire) (.acquired c.acquire c.strategy) =
        some ((s.own c.acquire).store c.acquire, .exchanged (s.own c.acquire).ivar) := if_pos hatomic
    rw [hfinal]
    exact Solo.step (.next hadvance) (Solo.step (.next rfl) (Solo.refl _ _))
  · have hfinal : setPropertyValue s c = ((s.own c.acquire).autorelease (s.own c.acquire).ivar).store c.acquire :=
      if_neg hatomic
    have hadvance : ValueSetter.advance (s.own c.acquire) (.acquired c.acquire c.strategy) =
        some ((s.own c.acquire).autorelease (s.own c.acquire).ivar, .autoreleased c.acquire (s.own c.acquire).ivar) :=
      if_neg hatomic
    rw [hfinal]
    exact Solo.step (.next hadvance) (Solo.step (.next rfl) (Solo.refl _ _))

/-! ## Counting the ownerships of an object -/

/-- One if it is the object. -/
def isObject (x : ℕ) (value : Option ℕ) : ℕ := if value = some x then 1 else 0

/-- What the thread has acquired and not stored yet. -/
def ValueSetter.holds (x : ℕ) : ValueSetter → ℕ
  | .acquired value _ | .autoreleased value _ => isObject x value
  | .idle | .exchanged _ => 0

/-- What the thread has replaced and not autoreleased yet. -/
def ValueSetter.owes (x : ℕ) : ValueSetter → ℕ
  | .exchanged old => isObject x old
  | .idle | .acquired _ _ | .autoreleased _ _ => 0

/-- What the thread has autoreleased and not replaced yet. -/
def ValueSetter.early (x : ℕ) : ValueSetter → ℕ
  | .autoreleased _ old => isObject x old
  | .idle | .acquired _ _ | .exchanged _ => 0

lemma count_toList (x : ℕ) (value : Option ℕ) (l : List ℕ) : (value.toList ++ l).count x = isObject x value + l.count x := by
  rw [List.count_append]
  cases value with
  | none => simp [isObject]
  | some y => simp [isObject, List.count_singleton]

lemma count_replaced (x : ℕ) (value : Option ℕ) (l : List (Option ℕ)) :
    (value :: l).count (some x) = isObject x value + l.count (some x) := by
  rw [List.count_cons, isObject, Nat.add_comm]
  simp

variable {ι : Type} [DecidableEq ι] [Fintype ι] {t : Threads ι ValueIvar ValueSetter}

/-- **The accounts at any time.**  An ivar that is stored into without an exchange has one thread only. -/
structure ValuesAccounted (t : Threads ι ValueIvar ValueSetter) : Prop where
  acquired : ∀ x, t.shared.acquired.count x =
    t.shared.replaced.count (some x) + isObject x t.shared.ivar + t.total (ValueSetter.holds x)
  autoreleased : ∀ x, t.shared.autoreleased.count x + t.total (ValueSetter.owes x) =
    t.shared.replaced.count (some x) + t.total (ValueSetter.early x)
  strategy : ∀ i value strategy, t.thread i = .acquired value strategy →
    has strategy accessorAtomic = true ∨ Subsingleton ι
  waits : ∀ i value old, t.thread i = .autoreleased value old → t.shared.ivar = old ∧ Subsingleton ι

omit [DecidableEq ι] in
lemma accounts_start (ivar : Option ℕ) : ValuesAccounted (valueStart ι ivar) := by
  refine ⟨fun x => ?_, fun x => ?_, fun i value strategy h => ?_, fun i value old h => ?_⟩
  · have htotal : (valueStart ι ivar).total (ValueSetter.holds x) = 0 := total_eq_zero fun _ => rfl
    have hcount := count_toList x ivar []
    rw [List.append_nil] at hcount
    rw [htotal]
    simp only [valueStart, ValueIvar.new, hcount, List.count_nil]
    omega
  · have howes : (valueStart ι ivar).total (ValueSetter.owes x) = 0 := total_eq_zero fun _ => rfl
    have hearly : (valueStart ι ivar).total (ValueSetter.early x) = 0 := total_eq_zero fun _ => rfl
    rw [howes, hearly]
    rfl
  · cases h
  · cases h

/-- A step that balances what it changes keeps the accounts.  Where a thread waits, there is no other. -/
lemma ValuesAccounted.moved (h : ValuesAccounted t) {i : ι} {l₀ : ValueSetter} (hthread : t.thread i = l₀)
    (hacquired : ∀ x, s.acquired.count x + (t.shared.replaced.count (some x) + isObject x t.shared.ivar + l₀.holds x) =
      t.shared.acquired.count x + (s.replaced.count (some x) + isObject x s.ivar + l.holds x))
    (hautoreleased : ∀ x, s.autoreleased.count x + l.owes x + (t.shared.replaced.count (some x) + l₀.early x) =
      t.shared.autoreleased.count x + l₀.owes x + (s.replaced.count (some x) + l.early x))
    (hstrategy : ∀ value strategy, l = .acquired value strategy → has strategy accessorAtomic = true ∨ Subsingleton ι)
    (hwaits : ∀ value old, l = .autoreleased value old → s.ivar = old ∧ Subsingleton ι) :
    ValuesAccounted (t.moved i s l) := by
  subst hthread
  refine ⟨fun x => ?_, fun x => ?_, fun j value strategy hj => ?_, fun j value old hj => ?_⟩
  · have hholds := total_moved (s := t) (ValueSetter.holds x) i s l
    have hbefore := h.acquired x
    have hstep := hacquired x
    simp only [Threads.moved] at hholds ⊢
    omega
  · have howes := total_moved (s := t) (ValueSetter.owes x) i s l
    have hearly := total_moved (s := t) (ValueSetter.early x) i s l
    have hbefore := h.autoreleased x
    have hstep := hautoreleased x
    simp only [Threads.moved] at howes hearly ⊢
    omega
  · by_cases hji : j = i
    · subst hji
      rw [moved_self] at hj
      exact hstrategy value strategy hj
    · rw [moved_ne hji] at hj
      exact h.strategy j value strategy hj
  · by_cases hji : j = i
    · subst hji
      rw [moved_self] at hj
      exact hwaits value old hj
    · rw [moved_ne hji] at hj
      obtain ⟨-, hsub⟩ := h.waits j value old hj
      exact absurd (Subsingleton.elim j i) hji

/-- **Each step keeps the accounts.** -/
theorem ValuesAccounted.step
    (hmode : (∀ strategy, allowed strategy → has strategy accessorAtomic = true) ∨ Subsingleton ι)
    (h : ValuesAccounted t) {i : ι} (hstep : ValueStep allowed t.shared (t.thread i) s l) :
    ValuesAccounted (t.moved i s l) := by
  generalize hthread : t.thread i = l₀ at hstep
  cases hstep with
  | call c hallowed =>
    refine h.moved hthread (fun x => ?_) (fun x => rfl) (fun value strategy hl => ?_) fun value old hl => ?_
    · simp only [ValueSetter.begin, ValueIvar.own, count_toList, ValueSetter.holds]
      omega
    · cases hl
      exact hmode.imp_left fun hatomic => hatomic _ hallowed
    · cases hl
  | next hadvance =>
    cases l₀ with
    | idle => cases hadvance
    | acquired value strategy =>
      simp only [ValueSetter.advance] at hadvance
      split at hadvance
      · cases hadvance
        refine h.moved hthread (fun x => ?_) (fun x => ?_) (by simp) (by simp)
        · simp only [ValueIvar.store, count_replaced, ValueSetter.holds]
          omega
        · simp only [ValueIvar.store, count_replaced, ValueSetter.owes, ValueSetter.early]
          omega
      · next hplain =>
        cases hadvance
        refine h.moved hthread (fun x => rfl) (fun x => ?_) (by simp) fun value' old hl => ?_
        · simp only [ValueIvar.autorelease, count_toList, ValueSetter.owes, ValueSetter.early]
          omega
        · cases hl
          exact ⟨rfl, (h.strategy i value strategy hthread).resolve_left hplain⟩
    | exchanged old =>
      cases hadvance
      refine h.moved hthread (fun x => rfl) (fun x => ?_) (by simp) (by simp)
      simp only [ValueIvar.autorelease, count_toList, ValueSetter.owes, ValueSetter.early]
      omega
    | autoreleased value old =>
      obtain ⟨hold, -⟩ := h.waits i value old hthread
      cases hadvance
      refine h.moved hthread (fun x => ?_) (fun x => ?_) (by simp) (by simp)
      · simp only [ValueIvar.store, count_replaced, ValueSetter.holds]
        omega
      · simp only [ValueIvar.store, hold, count_replaced, ValueSetter.owes, ValueSetter.early]
        omega

/-! ## Conservation -/

/-- Each value that was replaced has been autoreleased once, and the value of the ivar has one ownership left. -/
def Balanced (s : ValueIvar) : Prop :=
  ∀ x, s.autoreleased.count x = s.replaced.count (some x) ∧
    s.acquired.count x = s.autoreleased.count x + isObject x s.ivar

omit [DecidableEq ι] in
lemma ValuesAccounted.balanced (h : ValuesAccounted t) (hidle : ∀ i, t.thread i = .idle) : Balanced t.shared := by
  intro x
  have hzero : ∀ weight : ValueSetter → ℕ, weight .idle = 0 → t.total weight = 0 :=
    fun weight h0 => total_eq_zero fun i => by rw [hidle i, h0]
  have hacquired := h.acquired x
  have hautoreleased := h.autoreleased x
  rw [hzero _ rfl] at hacquired
  rw [hzero _ rfl, hzero _ rfl] at hautoreleased
  omega

lemma balanced_of_reachable (hmode : (∀ strategy, allowed strategy → has strategy accessorAtomic = true) ∨ Subsingleton ι)
    {ivar : Option ℕ} (h : Threads.Reachable (fun _ => ValueStep allowed) (valueStart ι ivar) t)
    (hidle : ∀ i, t.thread i = .idle) : Balanced t.shared :=
  (h.invariant (accounts_start ivar) fun _ _ _ _ haccounts hstep => haccounts.step hmode hstep).balanced hidle

lemma reachable_of_calls (calls : List ValueCall) (s : ValueIvar) :
    Threads.Reachable (fun _ : Unit => ValueStep fun _ => True) ⟨s, fun _ => .idle⟩
      ⟨calls.foldl setPropertyValue s, fun _ => .idle⟩ := by
  induction calls generalizing s with
  | nil => exact .start
  | cons c calls ih =>
    have hstart : Threads.Reachable (fun _ : Unit => ValueStep fun _ => True) ⟨s, fun _ => .idle⟩ ⟨s, fun _ => .idle⟩ := .start
    have hcall := @Threads.Reachable.solo _ _ _ _ _ _ _ hstart () _ _ (solo_setPropertyValue s (c := c) trivial)
    have hmoved : (⟨s, fun _ => .idle⟩ : Threads Unit ValueIvar ValueSetter).moved () (setPropertyValue s c) .idle =
        ⟨setPropertyValue s c, fun _ => .idle⟩ := by
      rw [Threads.moved, Function.update_eq_self]
    rw [hmoved] at hcall
    exact hcall.trans (ih _)

/-- **Ownership is conserved**, by calls one after the other with any strategies, and by threads in any interleaving whose
strategies are all atomic. -/
theorem ownership_conserved (ivar : Option ℕ) :
    (∀ calls : List ValueCall, Balanced (calls.foldl setPropertyValue (.new ivar))) ∧
      ∀ (ι : Type) [Fintype ι] [DecidableEq ι] (t : Threads ι ValueIvar ValueSetter),
        Threads.Reachable (fun _ => ValueStep fun strategy => has strategy accessorAtomic = true) (valueStart ι ivar) t →
          (∀ i, t.thread i = .idle) → Balanced t.shared := by
  refine ⟨fun calls => ?_, fun ι _ _ t h hidle => ?_⟩
  · exact balanced_of_reachable (Or.inr inferInstance) (reachable_of_calls calls (.new ivar)) fun _ => rfl
  · exact balanced_of_reachable (Or.inl fun _ hatomic => hatomic) h hidle

lemma reachable_two :
    ∃ t : Threads Bool ValueIvar ValueSetter,
      Threads.Reachable (fun _ => ValueStep fun strategy => has strategy accessorAtomic = true) (valueStart Bool (some 7)) t ∧
        (∀ i, t.thread i = .idle) ∧ t.shared.ivar = some 9 ∧ t.shared.autoreleased = [7, 7] := by
  refine ⟨_, (((((Threads.Reachable.start.step ⟨false, _, _, .call ⟨some 7, 0x2, none, none⟩ rfl, rfl⟩).step
    ⟨true, _, _, .call ⟨some 8, 0x6, some 9, none⟩ rfl, rfl⟩).step ⟨false, _, _, .next rfl, rfl⟩).step
    ⟨true, _, _, .next rfl, rfl⟩).step ⟨true, _, _, .next rfl, rfl⟩).step ⟨false, _, _, .next rfl, rfl⟩, ?_, rfl, rfl⟩
  intro i
  cases i
  · rfl
  · rfl

theorem ownership_conserved_two :
    ∃ t : Threads Bool ValueIvar ValueSetter, t.shared.ivar = some 9 ∧ t.shared.autoreleased = [7, 7] ∧
      Balanced t.shared := by
  obtain ⟨t, hreach, hidle, hivar, hautoreleased⟩ := reachable_two
  exact ⟨t, hivar, hautoreleased, (ownership_conserved (some 7)).2 Bool t hreach hidle⟩

end MulleObjcRuntime.Objects
