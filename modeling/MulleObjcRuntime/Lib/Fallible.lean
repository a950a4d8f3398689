import Mathlib.Data.List.Induction

/-!
# Computations that may fail

* `failIf` — the check in front of a computation;
* `bind_eq_ok`, `map_eq_ok`, `toOption_eq_some` — when a computation in parts succeeds;
* `foldlM_eq_error` — a run fails at one of its steps, after successful ones;
* `foldlM_invariant` — what every successful step preserves, a successful run preserves;
* `foldlM_view` — two runs that agree at every step agree.
-/

namespace MulleObjcRuntime.Lib.Fallible

variable {ε α β σ : Type}

/-- Fail with `e` when the condition holds. -/
def failIf (c : Prop) [Decidable c] (e : ε) : Except ε Unit := if c then .error e else .ok ()

lemma failIf_eq_ok {c : Prop} [Decidable c] {e : ε} {a : Unit} : failIf c e = .ok a ↔ ¬ c := by
  unfold failIf
  split <;> simp_all

lemma bind_eq_ok {x : Except ε α} {f : α → Except ε β} {b : β} :
    x >>= f = .ok b ↔ ∃ a, x = .ok a ∧ f a = .ok b := by
  cases x with
  | error e =>
    constructor
    · intro h
      cases h
    · rintro ⟨a, ha, -⟩
      cases ha
  | ok a =>
    constructor
    · intro h
      exact ⟨a, rfl, h⟩
    · rintro ⟨_, ⟨⟩, h⟩
      exact h

lemma map_eq_ok {x : Except ε α} {f : α → β} {b : β} : x.map f = .ok b ↔ ∃ a, x = .ok a ∧ f a = b := by
  cases x with
  | error e => simp [Except.map]
  | ok a => simp [Except.map]

lemma toOption_eq_some {x : Except ε α} {a : α} : x.toOption = some a ↔ x = .ok a := by
  cases x <;> simp [Except.toOption]

lemma foldlM_concat_eq_ok {f : σ → α → Except ε σ} {l : List α} {a : α} {s s' : σ} :
    (l ++ [a]).foldlM f s = .ok s' ↔ ∃ t, l.foldlM f s = .ok t ∧ f t a = .ok s' := by
  rw [List.foldlM_append, bind_eq_ok]
  refine exists_congr fun t => and_congr_right fun _ => ?_
  rw [List.foldlM_cons, bind_eq_ok]
  constructor
  · rintro ⟨r, hr, h⟩
    cases h
    exact hr
  · intro h
    exact ⟨s', h, rfl⟩

lemma foldlM_eq_error {f : σ → α → Except ε σ} {l : List α} {s : σ} {e : ε} (h : l.foldlM f s = .error e) :
    ∃ pre a post t, l = pre ++ a :: post ∧ pre.foldlM f s = .ok t ∧ f t a = .error e := by
  induction l generalizing s with
  | nil => cases h
  | cons b l ih =>
    rw [List.foldlM_cons] at h
    rcases hb : f s b with e' | t
    · rw [hb] at h
      cases h
      exact ⟨[], b, l, s, rfl, rfl, hb⟩
    · rw [hb] at h
      obtain ⟨pre, a, post, r, rfl, hpre, ha⟩ := ih h
      refine ⟨b :: pre, a, post, r, rfl, ?_, ha⟩
      rw [List.foldlM_cons, hb]
      exact hpre

/-- **What every step preserves, a run preserves.** -/
theorem foldlM_invariant {f : σ → α → Except ε σ} {P : List α → σ → Prop} {l : List α} {s s' : σ}
    (h : l.foldlM f s = .ok s') (hinit : P [] s)
    (hstep : ∀ pre a t t', a ∈ l → P pre t → f t a = .ok t' → P (pre ++ [a]) t') : P l s' := by
  induction l using List.reverseRecOn generalizing s' with
  | nil =>
    cases h
    exact hinit
  | append_singleton l a ih =>
    obtain ⟨t, ht, hs'⟩ := foldlM_concat_eq_ok.1 h
    have hmem : ∀ b ∈ l, b ∈ l ++ [a] := fun b hb => List.mem_append_left _ hb
    refine hstep l a t s' (by simp) (ih ht ?_) hs'
    intro pre b r r' hb
    exact hstep pre b r r' (hmem b hb)

/-- **Two runs that agree at every step agree**, as far as can be seen of the first one. -/
theorem foldlM_view {τ : Type} {f : σ → α → Except ε σ} {g : τ → α → Except ε τ} (view : σ → τ) {Inv : σ → Prop}
    {l : List α} (hstep : ∀ s, ∀ a ∈ l, Inv s → (f s a).map view = g (view s) a ∧ ∀ s', f s a = .ok s' → Inv s')
    {s : σ} (hs : Inv s) : (l.foldlM f s).map view = l.foldlM g (view s) := by
  induction l generalizing s with
  | nil => rfl
  | cons a l ih =>
    obtain ⟨hview, hinv⟩ := hstep s a (List.mem_cons_self ..) hs
    rw [List.foldlM_cons, List.foldlM_cons, ← hview]
    cases hfirst : f s a with
    | error e => rfl
    | ok s' => exact ih (fun s b hb => hstep s b (List.mem_cons_of_mem a hb)) (hinv s' hfirst)

end MulleObjcRuntime.Lib.Fallible
