import MulleObjcRuntime.Retain.Defs

/-!
# Finalized once, deallocated once

What becomes of a counted object under any program of retains, releases and finalizes, those that its `-finalize` and its
`-dealloc` issue themselves included.

* `Orderly` — `-finalize` and `-dealloc` come once, one after the other, and nothing reads the header afterwards;
* `Spared` — the steps that do not spoil it;
* `Phase` — where in its life an object is, after such steps;
* `orderly_iff` — a run is orderly exactly when its steps are such.
-/

namespace MulleObjcRuntime.Retain

open Lib.Runs

/-- `-finalize` is called at most once and `-dealloc` at most once, never while `-finalize` is running, and no operation
that was waiting when `-dealloc` returned has read the header since. -/
structure Object.Orderly (o : Object) : Prop where
  finalizes : o.finalizes ≤ 1
  deallocs : o.deallocs ≤ 1
  overlaps : o.overlaps = 0
  staleReads : o.staleReads = 0

instance (o : Object) : Decidable o.Orderly :=
  decidable_of_iff (o.finalizes ≤ 1 ∧ o.deallocs ≤ 1 ∧ o.overlaps = 0 ∧ o.staleReads = 0)
    ⟨fun ⟨h, h', h'', h'''⟩ => ⟨h, h', h'', h'''⟩, fun ⟨h, h', h'', h'''⟩ => ⟨h, h', h'', h'''⟩⟩

/-- A release does not give up the last ownership while `-finalize` is running, and once `-finalize` has been called, the
word still says so to a release that finds no other ownership and to every finalize. -/
def Object.Spared (o : Object) : Act → Prop
  | .release => (o.finalizing → o.retaincount_1 ≠ intptrMin + 1) ∧ (o.finalizes ≠ 0 → o.retaincount_1 ≠ 0)
  | .performFinalize => o.finalizes ≠ 0 → o.retaincount_1 < 0
  | .retain | .leave => True

/-- The life of an object. -/
inductive Object.Phase (o : Object) : Prop
  | counted (hfinalizes : o.finalizes = 0) (hdeallocs : o.deallocs = 0) (hstack : o.stack = [])
      (hword : 0 ≤ o.retaincount_1 ∧ o.retaincount_1 ≤ neverRelease)
  | finalized (hfinalizes : o.finalizes = 1) (hdeallocs : o.deallocs = 0)
      (hstack : o.stack = [] ∨ o.stack = [⟨.tryfinalize, false⟩] ∨ o.stack = [⟨.performFinalize, false⟩])
      (hword : intptrMin ≤ o.retaincount_1 ∧ o.retaincount_1 ≤ neverRelease)
  | deallocated (hfinalizes : o.finalizes = 1) (hdeallocs : o.deallocs = 1)
      (hstack : o.stack = [] ∨ o.stack = [⟨.trydealloc, false⟩])
      (hword : -1 ≤ o.retaincount_1 ∧ o.retaincount_1 ≤ neverRelease)

/-- The invariant of a run of such steps. -/
structure Object.Living (o : Object) : Prop where
  phase : o.Phase
  overlaps : o.overlaps = 0
  staleReads : o.staleReads = 0

section Steps

variable {o o' : Object}

lemma Object.Phase.word_le (h : o.Phase) : o.retaincount_1 ≤ neverRelease := by
  rcases h with ⟨-, -, -, -, h⟩ | ⟨-, -, -, -, h⟩ | ⟨-, -, -, -, h⟩ <;> exact h

lemma Object.Living.orderly (h : o.Living) : o.Orderly := by
  refine ⟨?_, ?_, h.overlaps, h.staleReads⟩
  · rcases h.phase with ⟨hfinalizes, -⟩ | ⟨hfinalizes, -⟩ | ⟨hfinalizes, -⟩ <;> omega
  · rcases h.phase with ⟨-, hdeallocs, -⟩ | ⟨-, hdeallocs, -⟩ | ⟨-, hdeallocs, -⟩ <;> omega

lemma retainInline_of_le (h : o.retaincount_1 ≤ neverRelease) :
    (o.retainInline = { o with retaincount_1 := o.retaincount_1 + 1 } ∧ o.retaincount_1 < neverRelease) ∨
      o.retainInline = o := by
  rw [Object.retainInline, Object.incrementRetaincount]
  split_ifs with hinline hslow
  · exact Or.inl ⟨rfl, by unfold neverRelease; unfold inlineRelease at hinline; omega⟩
  · exfalso
    rw [hslow] at h
    revert h
    decide
  · exact Or.inr rfl

lemma Object.Living.retain (h : o.Living) : o.retainInline.Living := by
  obtain ⟨heq, hlt⟩ | heq := retainInline_of_le h.phase.word_le
  · rw [heq]
    refine ⟨?_, h.overlaps, h.staleReads⟩
    rcases h.phase with ⟨hf, hd, hs, hlo, hhi⟩ | ⟨hf, hd, hs, hlo, hhi⟩ | ⟨hf, hd, hs, hlo, hhi⟩
    · exact .counted hf hd hs ⟨by simp only; omega, by simp only; omega⟩
    · exact .finalized hf hd hs ⟨by simp only; omega, by simp only; omega⟩
    · exact .deallocated hf hd hs ⟨by simp only; omega, by simp only; omega⟩
  · rw [heq]
    exact h

lemma Object.Living.release (h : o.Living) (hspared : o.Spared .release) (hrelease : o.releaseInline = some o') :
    o'.Living := by
  obtain ⟨hdead, hmin, ⟨hzero, rfl⟩ | ⟨hlast, rfl⟩ | ⟨hzero, hlast, hinline, rfl⟩ | ⟨hslow, -⟩ | ⟨-, -, rfl⟩⟩ :=
    releaseInline_cases hrelease
  · -- the count goes down to zero, and `-finalize` has not been called before
    have hfinalizes : o.finalizes = 0 := by
      by_contra hne
      exact hspared.2 hne hzero
    refine ⟨?_, h.overlaps, h.staleReads⟩
    rcases h.phase with ⟨hf, hd, hs, -⟩ | ⟨hf, -⟩ | ⟨hf, -⟩
    · refine .finalized ?_ hd ?_ ⟨le_refl _, (by decide : intptrMin ≤ neverRelease)⟩
      · simp [Object.callFinalize, hf]
      · simp [Object.callFinalize, Object.call, hs]
    · omega
    · omega
  · -- the last ownership of a finalized object goes
    have hnot : o.finalizing = false := by
      by_contra hne
      exact hspared.1 (by simpa using hne) hlast
    rcases h.phase with ⟨hf, hd, hs, hlo, -⟩ | ⟨hf, hd, hs, -⟩ | ⟨hf, hd, hs, hlo, -⟩
    · exfalso
      rw [hlast] at hlo
      revert hlo
      decide
    · have hs : o.stack = [] := by
        rcases hs with hs | hs | hs
        · exact hs
        · rw [Object.finalizing, hs] at hnot
          cases hnot
        · rw [Object.finalizing, hs] at hnot
          cases hnot
      refine ⟨.deallocated hf ?_ (Or.inr ?_) ⟨le_refl _, (by decide : -1 ≤ neverRelease)⟩, ?_, h.staleReads⟩
      · simp [Object.callDealloc, hd]
      · simp [Object.callDealloc, Object.call, hs]
      · simpa [Object.callDealloc, Object.finalizing, hs] using h.overlaps
    · exfalso
      rw [hlast] at hlo
      revert hlo
      decide
  · refine ⟨?_, h.overlaps, h.staleReads⟩
    rcases h.phase with ⟨hf, hd, hs, hlo, hhi⟩ | ⟨hf, hd, hs, hlo, hhi⟩ | ⟨hf, hd, hs, hlo, hhi⟩
    · exact .counted hf hd hs ⟨by simp only; omega, by simp only; omega⟩
    · exact .finalized hf hd hs ⟨by simp only; omega, by simp only; omega⟩
    · exact .deallocated hf hd hs ⟨by simp only; omega, by simp only; omega⟩
  · exfalso
    have hle := h.phase.word_le
    rw [hslow] at hle
    revert hle
    decide
  · exact h

lemma Object.Living.finalize (h : o.Living) (hspared : o.Spared .performFinalize)
    (hfinalize : o.performFinalize = some o') : o'.Living := by
  obtain ⟨hconstant, ⟨-, rfl⟩ | ⟨hpos, rfl⟩⟩ := performFinalize_cases hfinalize
  · exact h
  · have hfinalizes : o.finalizes = 0 := by
      by_contra hne
      have := hspared hne
      omega
    refine ⟨?_, h.overlaps, h.staleReads⟩
    rcases h.phase with ⟨hf, hd, hs, -, hhi⟩ | ⟨hf, -⟩ | ⟨hf, -⟩
    · refine .finalized ?_ hd ?_ ⟨?_, ?_⟩
      · simp [Object.callFinalize, hf]
      · simp [Object.callFinalize, Object.call, hs]
      · simp only [Object.callFinalize, Object.call]
        omega
      · simp only [Object.callFinalize, Object.call]
        unfold intptrMin
        omega
    · omega
    · omega

lemma Object.Living.leave (h : o.Living) (hleave : o.step .leave = some o') : o'.Living := by
  rcases h.phase with ⟨-, -, hs, -⟩ | ⟨hf, hd, hs | hs | hs, hword⟩ | ⟨hf, hd, hs | hs, hword⟩
  · simp [Object.step, hs] at hleave
  · simp [Object.step, hs] at hleave
  · -- the word is read again after `-finalize`
    simp only [Object.step, hs, Object.resume, Object.trydealloc, Option.some.injEq, Bool.false_eq_true,
      if_false] at hleave
    split_ifs at hleave with hlast
    · subst hleave
      refine ⟨.deallocated hf ?_ (Or.inr rfl) ⟨le_refl _, (by decide : -1 ≤ neverRelease)⟩, ?_, h.staleReads⟩
      · simp [Object.callDealloc, hd]
      · simpa [Object.callDealloc, Object.finalizing] using h.overlaps
    · subst hleave
      exact ⟨.finalized hf hd (Or.inl rfl) hword, h.overlaps, h.staleReads⟩
  · simp only [Object.step, hs, Object.resume, Option.some.injEq] at hleave
    subst hleave
    exact ⟨.finalized hf hd (Or.inl rfl) hword, h.overlaps, h.staleReads⟩
  · simp [Object.step, hs] at hleave
  · simp only [Object.step, hs, Object.resume, Option.some.injEq] at hleave
    subst hleave
    exact ⟨.deallocated hf hd (Or.inl rfl) hword, h.overlaps, h.staleReads⟩

lemma Object.Living.owe (h : o.Living) (owned peak : ℤ) : ({ o with owned, peak } : Object).Living := by
  refine ⟨?_, h.overlaps, h.staleReads⟩
  rcases h.phase with ⟨hf, hd, hs, hword⟩ | ⟨hf, hd, hs, hword⟩ | ⟨hf, hd, hs, hword⟩
  · exact .counted hf hd hs hword
  · exact .finalized hf hd hs hword
  · exact .deallocated hf hd hs hword

/-- **A step that spares the object keeps the invariant.** -/
lemma Object.Living.step {a : Act} (h : o.Living) (hspared : o.Spared a) (hstep : o.step a = some o') : o'.Living := by
  cases a with
  | retain =>
    cases hstep
    exact (h.owe _ _).retain
  | release => exact (h.owe (o.owned - 1) o.peak).release hspared hstep
  | performFinalize => exact h.finalize hspared hstep
  | leave => exact h.leave hstep

/-- **Every other step spoils it.** -/
lemma not_orderly_of_not_spared {a : Act} (hspared : ¬ o.Spared a) (hstep : o.step a = some o') : ¬ o'.Orderly := by
  intro horderly
  cases a with
  | retain => exact hspared trivial
  | leave => exact hspared trivial
  | release =>
    obtain ⟨hdead, hmin, ⟨hzero, rfl⟩ | ⟨hlast, rfl⟩ | ⟨hzero, hlast, -, -⟩ | ⟨hslow, -⟩ | ⟨hconstant, -, -⟩⟩ :=
      releaseInline_cases hstep
    · have hf := horderly.finalizes
      simp only [Object.callFinalize] at hf
      refine hspared ⟨fun _ hlast => ?_, fun hne => absurd hne (by omega)⟩
      exact absurd (hzero.symm.trans hlast) (by decide)
    · refine hspared ⟨fun hfinalizing _ => ?_, fun _ hzero => absurd (hzero.symm.trans hlast) (by decide)⟩
      have ho : (if o.finalizing then o.overlaps + 1 else o.overlaps) = 0 := horderly.overlaps
      rw [if_pos hfinalizing] at ho
      omega
    · exact hspared ⟨fun _ => hlast, fun _ => hzero⟩
    · refine hspared ⟨fun _ hlast => ?_, fun _ hzero => ?_⟩
      · exact absurd (hslow.symm.trans hlast) (by decide)
      · exact absurd (hslow.symm.trans hzero) (by decide)
    · refine hspared ⟨fun _ hlast => ?_, fun _ hzero => ?_⟩
      · exact absurd (lt_of_lt_of_eq hconstant hlast) (by decide)
      · exact absurd (lt_of_lt_of_eq hconstant hzero) (by decide)
  | performFinalize =>
    obtain ⟨-, ⟨hneg, -⟩ | ⟨hpos, rfl⟩⟩ := performFinalize_cases hstep
    · exact hspared fun _ => hneg
    · have hf := horderly.finalizes
      simp only [Object.callFinalize] at hf
      exact hspared fun hne => absurd hne (by omega)

end Steps

/-! ## Whole runs -/

lemma living_fresh {word elsewhere : ℤ} (hword : 0 ≤ word ∧ word ≤ inlineRelease) :
    (Object.fresh word elsewhere).Living := by
  refine ⟨.counted ?_ rfl rfl ⟨hword.1, ?_⟩, rfl, rfl⟩
  · exact if_neg (by omega)
  · exact le_trans hword.2 (by decide)

/-- **When a program leaves an object orderly.**  For every counted object and every program, in which methods of the
object retain, release and finalize it again to any depth, all states are orderly exactly when no release gives up the
last ownership while `-finalize` is running, and no release or finalize finds the word of a finalized object back at a
plain count, because the object was retained in or after `-dealloc`, or past the inline limit.  Whether the releases give
up ownerships that are held makes no difference. -/
theorem orderly_iff {word elsewhere : ℤ} (hword : 0 ≤ word ∧ word ≤ inlineRelease) {acts : List Act} {o : Object}
    (hrun : run Object.step (.fresh word elsewhere) acts = some o) :
    Throughout Object.step Object.Orderly (.fresh word elsewhere) acts ↔
      EachStep Object.step Object.Spared (.fresh word elsewhere) acts := by
  apply throughout_iff_eachStep hrun (living_fresh hword)
  · intro s a t hs hspared hstep
    exact hs.step hspared hstep
  · intro s hs
    exact hs.orderly
  · intro s a t _ hspared hstep
    exact not_orderly_of_not_spared hspared hstep

/-- An object with one owner is released, and its `-finalize` retains it: whoever it was retained for can retain and
release it, until the last release deallocates it. -/
theorem orderly_iff_sample :
    Throughout Object.step Object.Orderly (.fresh 0 0)
        [.release, .retain, .leave, .retain, .release, .release, .leave] ↔
      EachStep Object.step Object.Spared (.fresh 0 0)
        [.release, .retain, .leave, .retain, .release, .release, .leave] :=
  orderly_iff (by decide) rfl

/-- **A `-finalize` that retains and releases its object.**  The program holds what it gives up.  The release in
`-finalize` calls `-dealloc`, and the release that has called `-finalize` reads the header when both are done. -/
theorem dealloc_within_finalize :
    ∃ o, run Object.step (.fresh 0 0) [.release, .retain, .release, .leave, .leave] = some o ∧
      EachStep Object.step Object.Holds (.fresh 0 0) [.release, .retain, .release, .leave, .leave] ∧
      o.overlaps = 1 ∧ o.staleReads = 1 ∧
      ¬ Throughout Object.step Object.Orderly (.fresh 0 0) [.release, .retain, .release, .leave, .leave] := by
  refine ⟨_, rfl, ?_, rfl, rfl, ?_⟩ <;> decide

end MulleObjcRuntime.Retain
