import Mathlib.Data.Option.Basic

/-!
# Runs of a machine that may refuse an action

* `run` — a list of actions, one after the other;
* `Throughout` — what holds in every state of a run, the first and the last included;
* `EachStep` — what holds at every step of a run, of the state before it and of the action;
* `throughout_iff_eachStep` — a property that the right steps keep and every other step breaks holds throughout exactly
  when all steps are right.
-/

namespace MulleObjcRuntime.Lib.Runs

variable {σ α : Type} (step : σ → α → Option σ)

/-- The state after all actions, when none was refused. -/
def run : σ → List α → Option σ
  | s, [] => some s
  | s, a :: acts => (step s a).bind fun t => run t acts

/-- `P` holds in every state of the run. -/
def Throughout (P : σ → Prop) : σ → List α → Prop
  | s, [] => P s
  | s, a :: acts => P s ∧ ∀ t, step s a = some t → Throughout P t acts

/-- `C` holds at every step of the run. -/
def EachStep (C : σ → α → Prop) : σ → List α → Prop
  | _, [] => True
  | s, a :: acts => C s a ∧ ∀ t, step s a = some t → EachStep C t acts

instance decidableThroughout (P : σ → Prop) [DecidablePred P] :
    (s : σ) → (acts : List α) → Decidable (Throughout step P s acts)
  | s, [] => inferInstanceAs (Decidable (P s))
  | s, a :: acts =>
    have := fun t => decidableThroughout P t acts
    inferInstanceAs (Decidable (P s ∧ ∀ t, step s a = some t → Throughout step P t acts))

instance decidableEachStep (C : σ → α → Prop) [∀ s, DecidablePred (C s)] :
    (s : σ) → (acts : List α) → Decidable (EachStep step C s acts)
  | _, [] => inferInstanceAs (Decidable True)
  | s, a :: acts =>
    have := fun t => decidableEachStep C t acts
    inferInstanceAs (Decidable (C s a ∧ ∀ t, step s a = some t → EachStep step C t acts))

variable {step} {P Q : σ → Prop} {C D : σ → α → Prop} {s s' : σ} {acts : List α}

lemma run_cons_eq_some {a : α} : run step s (a :: acts) = some s' ↔ ∃ t, step s a = some t ∧ run step t acts = some s' := by
  rw [run, Option.bind_eq_some_iff]

lemma run_append (acts' : List α) : run step s (acts ++ acts') = (run step s acts).bind fun t => run step t acts' := by
  induction acts generalizing s with
  | nil => rfl
  | cons a acts ih =>
    rw [List.cons_append, run, run, Option.bind_assoc]
    exact congrArg _ (funext fun t => ih)

lemma Throughout.head (h : Throughout step P s acts) : P s := by
  cases acts with
  | nil => exact h
  | cons a acts => exact h.1

lemma Throughout.last (h : Throughout step P s acts) (hrun : run step s acts = some s') : P s' := by
  induction acts generalizing s with
  | nil =>
    cases hrun
    exact h
  | cons a acts ih =>
    obtain ⟨t, ht, hrest⟩ := run_cons_eq_some.1 hrun
    exact ih (h.2 t ht) hrest

lemma Throughout.mono (h : Throughout step P s acts) (hPQ : ∀ t, P t → Q t) : Throughout step Q s acts := by
  induction acts generalizing s with
  | nil => exact hPQ s h
  | cons a acts ih => exact ⟨hPQ s h.1, fun t ht => ih (h.2 t ht)⟩

lemma EachStep.mono (h : EachStep step C s acts) (hCD : ∀ s a, C s a → D s a) : EachStep step D s acts := by
  induction acts generalizing s with
  | nil => trivial
  | cons a acts ih => exact ⟨hCD s a h.1, fun t ht => ih (h.2 t ht)⟩

lemma EachStep.and (h : EachStep step C s acts) (h' : EachStep step D s acts) :
    EachStep step (fun s a => C s a ∧ D s a) s acts := by
  induction acts generalizing s with
  | nil => trivial
  | cons a acts ih => exact ⟨⟨h.1, h'.1⟩, fun t ht => ih (h.2 t ht) (h'.2 t ht)⟩

/-- **What every right step keeps, holds throughout a run of right steps.** -/
theorem EachStep.throughout (h : EachStep step C s acts) (hs : P s)
    (hstep : ∀ s a t, P s → C s a → step s a = some t → P t) : Throughout step P s acts := by
  induction acts generalizing s with
  | nil => exact hs
  | cons a acts ih => exact ⟨hs, fun t ht => ih (h.2 t ht) (hstep s a t hs h.1 ht)⟩

/-- **A property that the right steps keep, with an invariant, and that every other step breaks.** -/
theorem throughout_iff_eachStep {Inv : σ → Prop} (hrun : run step s acts = some s') (hs : Inv s)
    (hkeep : ∀ s a t, Inv s → C s a → step s a = some t → Inv t) (hgood : ∀ s, Inv s → P s)
    (hbreak : ∀ s a t, Inv s → ¬ C s a → step s a = some t → ¬ P t) :
    Throughout step P s acts ↔ EachStep step C s acts := by
  constructor
  · intro h
    induction acts generalizing s with
    | nil => trivial
    | cons a acts ih =>
      obtain ⟨t, ht, hrest⟩ := run_cons_eq_some.1 hrun
      have hC : C s a := by
        by_contra hC
        exact hbreak s a t hs hC ht (h.2 t ht).head
      refine ⟨hC, fun t' ht' => ?_⟩
      cases ht.symm.trans ht'
      exact ih hrest (hkeep s a t hs hC ht) (h.2 t ht)
  · intro h
    exact (h.throughout hs hkeep).mono hgood

end MulleObjcRuntime.Lib.Runs
