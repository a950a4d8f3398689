import MulleObjcRuntime.Lib.CasLoop
import MulleObjcRuntime.Lib.Interleaving

/-!
# The state bits of a class

Threads set and clear bits of the state of a class, and are told if they changed it.

* `StatebitCall`, `Classstate` — a call, and the state with what the calls have returned;
* `StatebitUse`, `StatebitUse.step` — where a thread is, and its next access;
* `StatebitsReachable` — what any interleaving of the threads leads to;
* `statebits_linear` — it is as if the calls had been one after the other, and only one thread at a time sets a bit.
-/

namespace MulleObjcRuntime.Classes

open Lib.CasLoop Lib.Interleaving

/-- A call of `_mulle_objc_class_set_state_bit`, or of `_mulle_objc_class_clear_state_bit`. -/
structure StatebitCall where
  bit : BitVec 32
  clear : Bool
deriving DecidableEq, Repr

/-- The new state in `__mulle_objc_class_set_state_bit`. -/
def StatebitCall.apply {n : ℕ} (call : StatebitCall) (old : BitVec n) : BitVec n :=
  if call.clear then old &&& ~~~(call.bit.setWidth n) else old ||| call.bit.setWidth n

/-- The state, and the calls in the order in which they returned, each with what it returned. -/
structure Classstate (n : ℕ) where
  state : BitVec n
  log : List (StatebitCall × Bool)

/-- Where a thread is. -/
inductive StatebitUse (n : ℕ)
  | idle
  | setting (call : StatebitCall) (attempt : Attempt (BitVec n))
deriving DecidableEq, Repr

section Step

variable {n : ℕ}

/-- A call returns. -/
def Classstate.returns (state : BitVec n) (log : List (StatebitCall × Bool)) (call : StatebitCall) (rval : Bool) :
    Classstate n :=
  ⟨state, log ++ [(call, rval)]⟩

/-- The next access of `__mulle_objc_class_set_state_bit`. -/
def StatebitUse.step (spurious : Bool) (c : Classstate n) : StatebitUse n → Classstate n × StatebitUse n
  | .idle => (c, .idle)
  | .setting call attempt =>
    match attempt.step call.apply spurious c.state with
    | (state, .inl attempt) => (⟨state, c.log⟩, .setting call attempt)
    | (state, .inr rval) => (.returns state c.log call rval, .idle)

/-- What a thread does: it calls, or it goes on. -/
inductive StatebitAct : Classstate n → StatebitUse n → Classstate n → StatebitUse n → Prop
  | begins {c : Classstate n} (call : StatebitCall) : StatebitAct c .idle c (.setting call .read)
  | goes {c : Classstate n} {u : StatebitUse n} (spurious : Bool) :
    StatebitAct c u (u.step spurious c).1 (u.step spurious c).2

/-- The states that any interleaving of the threads leads to. -/
def StatebitsReachable {ι : Type} [DecidableEq ι] (state : BitVec n) (s : Threads ι (Classstate n) (StatebitUse n)) :
    Prop :=
  Threads.Reachable (fun _ => StatebitAct) ⟨⟨state, []⟩, fun _ => .idle⟩ s

end Step

variable {n : ℕ} {ι : Type} [DecidableEq ι] {start : BitVec n} {s : Threads ι (Classstate n) (StatebitUse n)}

/-- What holds of a thread. -/
def StatebitUse.Ok : StatebitUse n → Prop
  | .idle => True
  | .setting call attempt => attempt.Ok call.apply

/-- What holds throughout: the calls that have returned lead to the state. -/
structure StatebitsInv (start : BitVec n) (s : Threads ι (Classstate n) (StatebitUse n)) : Prop where
  performed : Performed StatebitCall.apply start s.shared.log s.shared.state
  ok : ∀ i, (s.thread i).Ok

lemma forall_ok_moved {i : ι} {c : Classstate n} {u : StatebitUse n} (hu : u.Ok) (h : ∀ j, (s.thread j).Ok) :
    ∀ j, ((s.moved i c u).thread j).Ok :=
  (forall_moved fun _ => StatebitUse.Ok).mpr ⟨hu, fun j _ => h j⟩

/-- **The step lemma**: an access does nothing to the state, or it ends a call and does all that the call is for. -/
lemma StatebitsInv.goes (h : StatebitsInv start s) (i : ι) (spurious : Bool) :
    StatebitsInv start (s.moved i ((s.thread i).step spurious s.shared).1 ((s.thread i).step spurious s.shared).2) := by
  have hok := h.ok i
  cases hu : s.thread i with
  | idle => exact ⟨h.performed, forall_ok_moved trivial h.ok⟩
  | setting call attempt =>
    rw [hu] at hok
    rcases Attempt.step_cases spurious s.shared.state hok with ⟨next, hnext, hstep⟩ | hstep
    · simp only [StatebitUse.step, hstep]
      exact ⟨h.performed, forall_ok_moved hnext h.ok⟩
    · simp only [StatebitUse.step, hstep]
      exact ⟨h.performed.snoc call, forall_ok_moved trivial h.ok⟩

lemma StatebitsReachable.inv (h : StatebitsReachable start s) : StatebitsInv start s := by
  refine Threads.Reachable.invariant h ⟨.nil, fun _ => trivial⟩ fun s i shared l hinv hact => ?_
  generalize hl : s.thread i = old at hact
  cases hact with
  | begins call => exact ⟨hinv.performed, forall_ok_moved trivial hinv.ok⟩
  | goes spurious => exact hl ▸ hinv.goes i spurious

/-! ## A bit -/

/-- What a call does with the bit `k`. -/
def StatebitCall.turns (k : ℕ) (call : StatebitCall) : Turns :=
  if call.bit.getLsbD k then if call.clear then .off else .on else .nothing

lemma getLsbD_apply (call : StatebitCall) (w : BitVec n) {k : ℕ} (hk : k < n) :
    (call.apply w).getLsbD k =
      if call.clear then w.getLsbD k && !call.bit.getLsbD k else w.getLsbD k || call.bit.getLsbD k := by
  unfold StatebitCall.apply
  split
  · simp [hk]
  · simp [hk]

lemma apply_ne_iff {call : StatebitCall} {k : ℕ} (hbit : call.bit = BitVec.twoPow 32 k) (w : BitVec n) :
    call.apply w ≠ w ↔ (call.apply w).getLsbD k ≠ w.getLsbD k := by
  refine ⟨fun hne hsame => hne ?_, fun hne hsame => hne (by rw [hsame])⟩
  apply BitVec.eq_of_getLsbD_eq
  intro j hj
  by_cases hjk : j = k
  · rw [hjk, hsame]
  · have hother : call.bit.getLsbD j = false := by
      rw [hbit, BitVec.getLsbD_twoPow]
      simp [Ne.symm hjk]
    rw [getLsbD_apply call w hj, hother]
    simp

lemma turns_right {call : StatebitCall} {k : ℕ} (hk : k < n)
    (hsingle : call.bit.getLsbD k = true → call.bit = BitVec.twoPow 32 k) (w : BitVec n) :
    (call.turns k).Right (fun w : BitVec n => w.getLsbD k) call.apply w := by
  unfold StatebitCall.turns
  by_cases hbit : call.bit.getLsbD k = true
  · rw [if_pos hbit]
    cases hclear : call.clear with
    | true =>
      simp only [if_true, Turns.Right, apply_ne_iff (hsingle hbit), getLsbD_apply call w hk, hclear, hbit]
      simp
    | false =>
      simp only [Turns.Right, apply_ne_iff (hsingle hbit), getLsbD_apply call w hk, hclear, hbit]
      simp
  · rw [if_neg hbit]
    simp only [Turns.Right, getLsbD_apply call w hk]
    simp [hbit]

/-- **The state bits are set and cleared as if the calls had been one after the other**, in the order in which they
returned, and a call tells if it has changed the state.  Calls for a bit alone that set it, and were told so, take turns
with those that cleared it; if nobody clears that bit, one of the calls is told so.  A bit that no call is for stays. -/
theorem statebits_linear (h : StatebitsReachable start s) :
    Performed StatebitCall.apply start s.shared.log s.shared.state ∧
      ∀ k < n, (∀ p ∈ s.shared.log, p.1.bit.getLsbD k = true → p.1.bit = BitVec.twoPow 32 k) →
        wins (StatebitCall.turns k) .on s.shared.log + (start.getLsbD k).toNat =
          wins (StatebitCall.turns k) .off s.shared.log + (s.shared.state.getLsbD k).toNat ∧
        ((∀ p ∈ s.shared.log, p.1.bit.getLsbD k = true → p.1.clear = false) → start.getLsbD k = false →
          (∃ p ∈ s.shared.log, p.1.bit.getLsbD k = true) → wins (StatebitCall.turns k) .on s.shared.log = 1) ∧
        ((∀ p ∈ s.shared.log, p.1.bit.getLsbD k = false) → s.shared.state.getLsbD k = start.getLsbD k) := by
  have hperformed := h.inv.performed
  refine ⟨hperformed, fun k hk hsingle => ?_⟩
  have hright : ∀ p ∈ s.shared.log, ∀ w : BitVec n,
      (p.1.turns k).Right (fun w : BitVec n => w.getLsbD k) p.1.apply w := fun p hp w => turns_right hk (hsingle p hp) w
  have hbalance := hperformed.balance (StatebitCall.turns k) (fun w : BitVec n => w.getLsbD k) hright
  refine ⟨hbalance, fun hset hstart hcall => ?_, fun hnone => ?_⟩
  · have hoff : ∀ p ∈ s.shared.log, p.1.turns k ≠ .off := fun p hp => by
      unfold StatebitCall.turns
      split
      · rename_i hbit
        simp [hset p hp hbit]
      · simp
    obtain ⟨p, hp, hbit⟩ := hcall
    have hon : p.1.turns k = .on := by
      rw [StatebitCall.turns, if_pos hbit, hset p hp hbit]
      rfl
    have hstate := hperformed.has_of_on (StatebitCall.turns k) (fun w : BitVec n => w.getLsbD k) hright hoff ⟨p, hp, hon⟩
    simp only [wins_eq_zero hoff, hstart, hstate] at hbalance
    simpa using hbalance
  · have hnothing : ∀ kind ≠ Turns.nothing, ∀ p ∈ s.shared.log, p.1.turns k ≠ kind := fun kind hkind p hp => by
      rw [StatebitCall.turns, hnone p hp]
      exact hkind.symm
    rw [wins_eq_zero (hnothing .on (by simp)), wins_eq_zero (hnothing .off (by simp)), Nat.zero_add, Nat.zero_add]
      at hbalance
    generalize s.shared.state.getLsbD k = now at hbalance
    cases hold : start.getLsbD k with
    | true => cases now <;> simp [hold] at hbalance ⊢
    | false => cases now <;> simp [hold] at hbalance ⊢

/-- Two threads set the bit `0x100`, and the exchange of one fails for no reason; then one of them clears it. -/
theorem statebits_linear_once : ∃ s : Threads (Fin 2) (Classstate 64) (StatebitUse 64),
    s.shared.log = [(⟨0x100, false⟩, true), (⟨0x100, false⟩, false), (⟨0x100, true⟩, true)] ∧
      Performed StatebitCall.apply 0 s.shared.log s.shared.state ∧
      ∀ k < 64, (∀ p ∈ s.shared.log, p.1.bit.getLsbD k = true → p.1.bit = BitVec.twoPow 32 k) →
        wins (StatebitCall.turns k) .on s.shared.log + ((0 : BitVec 64).getLsbD k).toNat =
          wins (StatebitCall.turns k) .off s.shared.log + (s.shared.state.getLsbD k).toNat ∧
        ((∀ p ∈ s.shared.log, p.1.bit.getLsbD k = true → p.1.clear = false) → (0 : BitVec 64).getLsbD k = false →
          (∃ p ∈ s.shared.log, p.1.bit.getLsbD k = true) → wins (StatebitCall.turns k) .on s.shared.log = 1) ∧
        ((∀ p ∈ s.shared.log, p.1.bit.getLsbD k = false) → s.shared.state.getLsbD k = (0 : BitVec 64).getLsbD k) := by
  have hstart : StatebitsReachable (0 : BitVec 64) (⟨⟨0, []⟩, fun _ => .idle⟩ : Threads (Fin 2) _ _) := .start
  have hcalls := (hstart.step ⟨0, _, _, .begins ⟨0x100, false⟩, rfl⟩).step ⟨1, _, _, .begins ⟨0x100, false⟩, rfl⟩
  have hreads := (hcalls.step ⟨0, _, _, .goes false, rfl⟩).step ⟨1, _, _, .goes false, rfl⟩
  have hspurious := hreads.step ⟨0, _, _, .goes true, rfl⟩
  have hset := hspurious.step ⟨1, _, _, .goes false, rfl⟩
  have hfound := hset.step ⟨0, _, _, .goes false, rfl⟩
  have hclear := hfound.step ⟨1, _, _, .begins ⟨0x100, true⟩, rfl⟩
  have hcleared := (hclear.step ⟨1, _, _, .goes false, rfl⟩).step ⟨1, _, _, .goes false, rfl⟩
  exact ⟨_, by decide, statebits_linear hcleared⟩

end MulleObjcRuntime.Classes
