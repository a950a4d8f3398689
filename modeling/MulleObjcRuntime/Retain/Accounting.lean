import MulleObjcRuntime.Retain.Defs

/-!
# The retain count

What is reported as the retain count of an object, from any word that its header can start with, under any program of
retains, releases and finalizes until it is deallocated.

* `Accounted` — the count is what has been retained and not released, a constant object stays one, a slow object stays
  slow, and `-finalize` comes once;
* `Countable` — the steps that keep it so;
* `Ledger` — the words that such steps lead to, and the counts they stand for;
* `accounted_iff` — a run is accounted for exactly when its steps are such.
-/

namespace MulleObjcRuntime.Retain

open Lib.Runs

/-- The words that an object can start with: all but the one of an object that has been released. -/
def Startable (word : ℤ) : Prop := intptrMin ≤ word ∧ word ≤ intptrMax ∧ word ≠ -1

/-- The retain count of an object that has started with `word` is in order. -/
structure Object.Accounted (word : ℤ) (o : Object) : Prop where
  /-- as long as the count has not exceeded the inline limit, and for a slow object always -/
  counts : word ≠ neverRelease → word = slowRelease ∨ o.peak ≤ inlineLimit → o.getRetaincount = o.owned
  /-- once it has, the object is constant -/
  saturates : word ≠ neverRelease → word ≠ slowRelease → inlineLimit < o.peak → o.retaincount_1 = neverRelease
  constant : word = neverRelease → o.retaincount_1 = neverRelease
  /-- retains and releases go to the object's own methods -/
  slow : word = slowRelease → o.retaincount_1 = slowRelease
  finalizes : o.finalizes ≤ 1

/-- A slow object is not finalized, and a finalized object is not retained past the inline limit. -/
def Object.Countable (o : Object) : Act → Prop
  | .performFinalize => o.retaincount_1 ≠ slowRelease
  | .retain => o.retaincount_1 ≠ -2
  | .release | .leave => True

/-- What the word of an object that has started with `word` stands for. -/
inductive Object.Ledger (word : ℤ) (o : Object) : Prop
  | counted (hnever : word ≠ neverRelease) (hslow : word ≠ slowRelease) (hfinalizes : o.finalizes = 0)
      (hword : 0 ≤ o.retaincount_1 ∧ o.retaincount_1 ≤ inlineRelease) (howned : o.owned = o.retaincount_1 + 1)
      (hpeak : o.peak ≤ inlineLimit)
  | finalized (hnever : word ≠ neverRelease) (hslow : word ≠ slowRelease) (hfinalizes : o.finalizes = 1)
      (hword : intptrMin ≤ o.retaincount_1 ∧ o.retaincount_1 ≤ -2) (howned : o.owned = o.retaincount_1 - intptrMin)
      (hpeak : o.peak ≤ inlineLimit)
  | saturated (hnever : word ≠ neverRelease) (hslow : word ≠ slowRelease) (hfinalizes : o.finalizes = 0)
      (hword : o.retaincount_1 = neverRelease) (hpeak : inlineLimit < o.peak)
  | constant (hnever : word = neverRelease) (hfinalizes : o.finalizes = 0) (hword : o.retaincount_1 = neverRelease)
  | slow (hslow : word = slowRelease) (hfinalizes : o.finalizes = 0) (hword : o.retaincount_1 = slowRelease)
      (helsewhere : o.elsewhere = o.owned)

section Words

variable {o : Object}

lemma getRetaincount_counted (h : 0 ≤ o.retaincount_1 ∧ o.retaincount_1 ≤ inlineRelease) :
    o.getRetaincount = o.retaincount_1 + 1 := by
  have hinline : inlineRelease < neverRelease ∧ neverRelease < slowRelease := by decide
  rw [Object.getRetaincount, if_neg (by omega), if_neg (by omega), if_neg (by omega), if_neg (by omega)]

lemma getRetaincount_finalized (h : o.retaincount_1 ≤ -2) : o.getRetaincount = o.retaincount_1 - intptrMin := by
  have hpos : 0 ≤ neverRelease ∧ 0 ≤ slowRelease := by decide
  rw [Object.getRetaincount, if_neg (by omega), if_neg (by omega), if_neg (by omega), if_pos (by omega)]

lemma getRetaincount_slow (h : o.retaincount_1 = slowRelease) : o.getRetaincount = o.elsewhere := by
  rw [Object.getRetaincount, h]
  rfl

end Words

section Steps

variable {word : ℤ} {o o' : Object}

lemma Object.Ledger.accounted (h : o.Ledger word) : o.Accounted word := by
  rcases h with ⟨hnever, hslow, hf, hword, howned, hpeak⟩ | ⟨hnever, hslow, hf, hword, howned, hpeak⟩ |
    ⟨hnever, hslow, hf, hword, hpeak⟩ | ⟨hnever, hf, hword⟩ | ⟨hslow, hf, hword, helsewhere⟩
  · refine ⟨fun _ _ => ?_, fun _ _ h => ?_, fun h => absurd h hnever, fun h => absurd h hslow, by omega⟩
    · rw [getRetaincount_counted hword, howned]
    · omega
  · refine ⟨fun _ _ => ?_, fun _ _ h => ?_, fun h => absurd h hnever, fun h => absurd h hslow, by omega⟩
    · rw [getRetaincount_finalized hword.2, howned]
    · omega
  · refine ⟨fun _ h => ?_, fun _ _ _ => hword, fun _ => hword, fun h => absurd h hslow, by omega⟩
    rcases h with h | h
    · exact absurd h hslow
    · omega
  · refine ⟨fun h => absurd hnever h, fun h => absurd hnever h, fun _ => hword, fun h => ?_, by omega⟩
    exact absurd (hnever.symm.trans h) (by decide)
  · refine ⟨fun _ _ => ?_, fun _ h => absurd hslow h, fun h => ?_, fun _ => hword, by omega⟩
    · rw [getRetaincount_slow hword, helsewhere]
    · exact absurd (hslow.symm.trans h) (by decide)

lemma words_ordered :
    intptrMin = -(intptrMax + 1) ∧ 2 < intptrMax ∧ slowRelease = intptrMax ∧ neverRelease = intptrMax - 1 ∧
      inlineRelease = intptrMax - 2 ∧ inlineLimit = intptrMax - 1 := by
  decide

lemma Object.Ledger.counted_of_inline (h : o.Ledger word) (hpos : 0 ≤ o.retaincount_1)
    (hconstant : o.retaincount_1 ≠ neverRelease) (hnotslow : o.retaincount_1 ≠ slowRelease) :
    o.retaincount_1 ≤ inlineRelease ∧ word ≠ neverRelease ∧ word ≠ slowRelease ∧ o.finalizes = 0 ∧
      o.owned = o.retaincount_1 + 1 ∧ o.peak ≤ inlineLimit := by
  obtain ⟨hmin, hmax, hsr, hnr, hir, hil⟩ := words_ordered
  rcases h with ⟨hnever, hslow, hf, hword, howned, hpeak⟩ | ⟨-, -, -, hword, -⟩ | ⟨-, -, -, hword, -⟩ | ⟨-, -, hword⟩ |
    ⟨-, -, hword, -⟩
  · exact ⟨hword.2, hnever, hslow, hf, howned, hpeak⟩
  all_goals omega

lemma Object.Ledger.finalized_of_inline (h : o.Ledger word) (hpos : 0 ≤ o.retaincount_1)
    (hconstant : o.retaincount_1 ≠ neverRelease) (hnotslow : o.retaincount_1 ≠ slowRelease)
    (hword' : intptrMin ≤ o'.retaincount_1 ∧ o'.retaincount_1 ≤ -2)
    (howned' : o'.owned - (o'.retaincount_1 - intptrMin) = o.owned - (o.retaincount_1 + 1)) (hpeak' : o'.peak = o.peak)
    (hfinalizes' : o'.finalizes = o.finalizes + 1) : o'.Ledger word := by
  obtain ⟨-, hnever, hslow, hf, howned, hpeak⟩ := h.counted_of_inline hpos hconstant hnotslow
  exact .finalized hnever hslow (by omega) hword' (by omega) (by omega)

lemma Object.Ledger.retain (h : o.Ledger word) (hcountable : o.Countable .retain) (hstep : o.step .retain = some o') :
    o'.Ledger word := by
  obtain ⟨hmin, hmax, hsr, hnr, hir, hil⟩ := words_ordered
  have hnotlast : o.retaincount_1 ≠ -2 := hcountable
  cases hstep
  rw [Object.retainInline, Object.incrementRetaincount]
  simp only
  rcases h with ⟨hnever, hslow, hf, hword, howned, hpeak⟩ | ⟨hnever, hslow, hf, hword, howned, hpeak⟩ |
    ⟨hnever, hslow, hf, hword, hpeak⟩ | ⟨hnever, hf, hword⟩ | ⟨hslow, hf, hword, helsewhere⟩
  · rw [if_pos hword.2]
    by_cases hfull : o.retaincount_1 = inlineRelease
    · exact .saturated hnever hslow hf (by simp only; omega) (by simp only; omega)
    · exact .counted hnever hslow hf ⟨by simp only; omega, by simp only; omega⟩ (by simp only; omega)
        (by simp only; omega)
  · rw [if_pos (by omega)]
    refine .finalized hnever hslow hf ⟨by simp only; omega, by simp only; omega⟩ (by simp only; omega) ?_
    simp only
    omega
  · rw [if_neg (by omega), if_neg (by omega)]
    exact .saturated hnever hslow hf hword (by simp only; omega)
  · rw [if_neg (by omega), if_neg (by omega)]
    exact .constant hnever hf hword
  · rw [if_neg (by omega), if_pos hword]
    exact .slow hslow hf hword (by simp only [Object.call]; omega)

lemma Object.Ledger.release (h : o.Ledger word) (hstep : o.step .release = some o') (hdeallocs : o'.deallocs = 0) :
    o'.Ledger word := by
  obtain ⟨hmin, hmax, hsr, hnr, hir, hil⟩ := words_ordered
  obtain ⟨hone, hnotmin, ⟨hzero, rfl⟩ | ⟨hlast, rfl⟩ | ⟨hzero, hlast, hinline, rfl⟩ | ⟨hsl, rfl⟩ | ⟨hne, hsl, rfl⟩⟩ :=
    releaseInline_cases hstep
  · simp only at hzero
    refine h.finalized_of_inline (by omega) (by omega) (by omega) ⟨le_refl _, ?_⟩ ?_ rfl rfl
    · simp only [Object.callFinalize, Object.call]
      omega
    · simp only [Object.callFinalize, Object.call]
      omega
  · simp [Object.callDealloc] at hdeallocs
  · simp only at hone hnotmin hzero hlast hinline
    rcases h with ⟨hnever, hslow, hf, hword, howned, hpeak⟩ | ⟨hnever, hslow, hf, hword, howned, hpeak⟩ |
      ⟨-, -, -, hword, -⟩ | ⟨-, -, hword⟩ | ⟨-, -, hword, -⟩
    · exact .counted hnever hslow hf ⟨by simp only; omega, by simp only; omega⟩ (by simp only; omega) hpeak
    · exact .finalized hnever hslow hf ⟨by simp only; omega, by simp only; omega⟩ (by simp only; omega) hpeak
    all_goals omega
  · simp only at hsl
    rcases h with ⟨-, -, -, hword, -⟩ | ⟨-, -, -, hword, -⟩ | ⟨-, -, -, hword, -⟩ | ⟨-, -, hword⟩ |
      ⟨hslow, hf, hword, helsewhere⟩
    on_goal 5 => exact .slow hslow hf hword (by simp only [Object.call]; omega)
    all_goals omega
  · simp only at hne hsl
    rcases h with ⟨-, -, -, hword, -⟩ | ⟨-, -, -, hword, -⟩ | ⟨hnever, hslow, hf, hword, hpeak⟩ | ⟨hnever, hf, hword⟩ |
      ⟨-, -, hword, -⟩
    · omega
    · omega
    · exact .saturated hnever hslow hf hword hpeak
    · exact .constant hnever hf hword
    · omega

lemma Object.Ledger.finalize (h : o.Ledger word) (hcountable : o.Countable .performFinalize)
    (hstep : o.step .performFinalize = some o') : o'.Ledger word := by
  obtain ⟨hmin, hmax, hsr, hnr, hir, hil⟩ := words_ordered
  obtain ⟨hconstant, ⟨-, rfl⟩ | ⟨hpos, rfl⟩⟩ := performFinalize_cases hstep
  · exact h
  · have hnotslow : o.retaincount_1 ≠ slowRelease := hcountable
    have hinline := (h.counted_of_inline hpos hconstant hnotslow).1
    refine h.finalized_of_inline hpos hconstant hnotslow ⟨?_, ?_⟩ ?_ rfl rfl
    · simp only [Object.callFinalize, Object.call]
      omega
    · simp only [Object.callFinalize, Object.call]
      omega
    · simp only [Object.callFinalize, Object.call]
      omega

lemma Object.Ledger.congr (h : o.Ledger word) (hword' : o'.retaincount_1 = o.retaincount_1)
    (helsewhere' : o'.elsewhere = o.elsewhere) (howned' : o'.owned = o.owned) (hpeak' : o'.peak = o.peak)
    (hfinalizes' : o'.finalizes = o.finalizes) : o'.Ledger word := by
  rcases h with ⟨hnever, hslow, hf, hword, howned, hpeak⟩ | ⟨hnever, hslow, hf, hword, howned, hpeak⟩ |
    ⟨hnever, hslow, hf, hword, hpeak⟩ | ⟨hnever, hf, hword⟩ | ⟨hslow, hf, hword, helsewhere⟩
  · exact .counted hnever hslow (by omega) (by omega) (by omega) (by omega)
  · exact .finalized hnever hslow (by omega) (by omega) (by omega) (by omega)
  · exact .saturated hnever hslow (by omega) (by omega) (by omega)
  · exact .constant hnever (by omega) (by omega)
  · exact .slow hslow (by omega) (by omega) (by omega)

/-- What has waited for a method goes on, and changes the word only to call `-dealloc`. -/
lemma Object.Ledger.leave (h : o.Ledger word) (hstep : o.step .leave = some o') (hdeallocs : o'.deallocs = 0) :
    o'.Ledger word := by
  cases hs : o.stack with
  | nil => simp [Object.step, hs] at hstep
  | cons a stack =>
    obtain ⟨frame, outlived⟩ := a
    simp only [Object.step, hs, Option.some.injEq] at hstep
    cases frame with
    | tryfinalize =>
      simp only [Object.resume, Object.trydealloc] at hstep
      split_ifs at hstep with hlast
      · subst hstep
        simp [Object.callDealloc] at hdeallocs
      · subst hstep
        simp [Object.callDealloc] at hdeallocs
      · subst hstep
        exact h.congr rfl rfl rfl rfl rfl
      · subst hstep
        exact h.congr rfl rfl rfl rfl rfl
    | trydealloc | performFinalize | retain | release =>
      subst hstep
      exact h.congr rfl rfl rfl rfl rfl

/-- **A step that can be counted keeps the ledger**, unless the object is deallocated. -/
lemma Object.Ledger.step {a : Act} (h : o.Ledger word) (hcountable : o.Countable a) (hstep : o.step a = some o')
    (hdeallocs : o'.deallocs = 0) : o'.Ledger word := by
  cases a with
  | retain => exact h.retain hcountable hstep
  | release => exact h.release hstep hdeallocs
  | performFinalize => exact h.finalize hcountable hstep
  | leave => exact h.leave hstep hdeallocs

/-- **Every other step loses count.** -/
lemma Object.Ledger.not_accounted {a : Act} (h : o.Ledger word) (hcountable : ¬ o.Countable a)
    (hstep : o.step a = some o') : ¬ o'.Accounted word := by
  obtain ⟨hmin, hmax, hsr, hnr, hir, hil⟩ := words_ordered
  intro haccounted
  cases a with
  | release => exact hcountable trivial
  | leave => exact hcountable trivial
  | retain =>
    have hlast : o.retaincount_1 = -2 := not_not.1 hcountable
    cases hstep
    rw [Object.retainInline, Object.incrementRetaincount, if_pos (by simp only; omega)] at haccounted
    rcases h with ⟨-, -, -, hword, -⟩ | ⟨hnever, hslow, -, -, howned, -⟩ | ⟨-, -, -, hword, -⟩ | ⟨-, -, hword⟩ |
      ⟨-, -, hword, -⟩
    on_goal 2 =>
      have hword := haccounted.saturates hnever hslow (by simp only; omega)
      simp only at hword
    all_goals omega
  | performFinalize =>
    have hslow : o.retaincount_1 = slowRelease := not_not.1 hcountable
    obtain ⟨-, ⟨hneg, -⟩ | ⟨-, rfl⟩⟩ := performFinalize_cases hstep
    · omega
    · rcases h with ⟨-, -, -, hword, -⟩ | ⟨-, -, -, hword, -⟩ | ⟨-, -, -, hword, -⟩ | ⟨-, -, hword⟩ | ⟨hstart, -⟩
      on_goal 5 =>
        have hword := haccounted.slow hstart
        simp only [Object.callFinalize, Object.call] at hword
      all_goals omega

lemma retainInline_deallocs : o.retainInline.deallocs = o.deallocs := by
  rw [Object.retainInline, Object.incrementRetaincount]
  split_ifs <;> rfl

lemma le_trydealloc_deallocs : o.deallocs ≤ o.trydealloc.deallocs := by
  rw [Object.trydealloc]
  split_ifs
  · exact Nat.le_succ _
  · exact Nat.le_refl _

/-- A deallocated object has been deallocated for good. -/
lemma step_deallocs {a : Act} (hstep : o.step a = some o') : o.deallocs ≤ o'.deallocs := by
  cases a with
  | retain =>
    cases hstep
    show o.deallocs ≤ (Object.retainInline _).deallocs
    refine Nat.le_trans ?_ (Nat.le_of_eq retainInline_deallocs.symm)
    exact Nat.le_refl _
  | release =>
    obtain ⟨-, -, ⟨-, rfl⟩ | ⟨-, rfl⟩ | ⟨-, -, -, rfl⟩ | ⟨-, rfl⟩ | ⟨-, -, rfl⟩⟩ := releaseInline_cases hstep
    on_goal 2 => exact Nat.le_succ _
    all_goals exact Nat.le_refl _
  | performFinalize =>
    obtain ⟨-, ⟨-, rfl⟩ | ⟨-, rfl⟩⟩ := performFinalize_cases hstep
    · exact Nat.le_refl _
    · exact Nat.le_refl _
  | leave =>
    cases hs : o.stack with
    | nil => simp [Object.step, hs] at hstep
    | cons a stack =>
      obtain ⟨frame, outlived⟩ := a
      simp only [Object.step, hs, Option.some.injEq] at hstep
      subst hstep
      cases frame with
      | tryfinalize =>
        show o.deallocs ≤ (Object.trydealloc _).deallocs
        refine Nat.le_trans ?_ le_trydealloc_deallocs
        exact Nat.le_refl _
      | trydealloc | performFinalize | retain | release => exact Nat.le_refl _

lemma not_countable_deallocs {a : Act} (hcountable : ¬ o.Countable a) (hstep : o.step a = some o') :
    o'.deallocs = o.deallocs := by
  cases a with
  | retain =>
    cases hstep
    rw [retainInline_deallocs]
  | performFinalize => obtain ⟨-, ⟨-, rfl⟩ | ⟨-, rfl⟩⟩ := performFinalize_cases hstep <;> rfl
  | release => exact absurd trivial hcountable
  | leave => exact absurd trivial hcountable

end Steps

/-! ## Whole runs -/

/-- The ledger holds until the object is deallocated. -/
def Object.Balanced (word : ℤ) (o : Object) : Prop := o.deallocs = 0 → o.Ledger word

lemma balanced_fresh {word elsewhere : ℤ} (hword : Startable word) : (Object.fresh word elsewhere).Balanced word := by
  obtain ⟨hmin, hmax, hsr, hnr, hir, hil⟩ := words_ordered
  obtain ⟨hlo, hhi, hone⟩ := hword
  intro _
  by_cases hslow : word = slowRelease
  · subst hslow
    exact .slow rfl rfl rfl rfl
  by_cases hnever : word = neverRelease
  · subst hnever
    exact .constant rfl rfl rfl
  by_cases hneg : word < 0
  · have hcount : (Object.fresh word elsewhere).owned = word - intptrMin :=
      getRetaincount_finalized (by simp only; omega)
    refine .finalized hnever hslow (if_pos hneg) ⟨hlo, ?_⟩ hcount ?_
    · show word ≤ -2
      omega
    · show (Object.fresh word elsewhere).owned ≤ inlineLimit
      omega
  · have hcount : (Object.fresh word elsewhere).owned = word + 1 :=
      getRetaincount_counted ⟨by simp only; omega, by simp only; omega⟩
    refine .counted hnever hslow (if_neg hneg) ⟨?_, ?_⟩ hcount ?_
    · show 0 ≤ word
      omega
    · show word ≤ inlineRelease
      omega
    · show (Object.fresh word elsewhere).owned ≤ inlineLimit
      omega

/-- **When the retain count of an object is in order.**  For every word that an object can start with and every program
of retains, releases and finalizes, nested to any depth, the reported count is the count at the start with the retains and
without the releases up to the inline limit, an object beyond it is constant, a constant object stays constant, a slow
object leaves the counting to its own methods, and `-finalize` comes at most once, in all states until the object is
deallocated, exactly when until then no slow object is finalized and no finalized object is retained past the limit. -/
theorem accounted_iff {word elsewhere : ℤ} (hword : Startable word) {acts : List Act} {o : Object}
    (hrun : run Object.step (.fresh word elsewhere) acts = some o) :
    Throughout Object.step (fun o => o.deallocs = 0 → o.Accounted word) (.fresh word elsewhere) acts ↔
      EachStep Object.step (fun o a => o.deallocs = 0 → o.Countable a) (.fresh word elsewhere) acts := by
  apply throughout_iff_eachStep hrun (balanced_fresh hword)
  · intro s a t hs hcountable hstep hdeallocs
    have hbefore := step_deallocs hstep
    exact (hs (by omega)).step (hcountable (by omega)) hstep hdeallocs
  · intro s hs hdeallocs
    exact (hs hdeallocs).accounted
  · intro s a t hs hcountable hstep haccounted
    obtain ⟨hbefore, hcountable⟩ := Classical.not_imp.1 hcountable
    refine (hs hbefore).not_accounted hcountable hstep (haccounted ?_)
    rw [not_countable_deallocs hcountable hstep, hbefore]

/-- An object with two owners, one of which is given up in its `-finalize`. -/
theorem accounted_iff_sample :
    Throughout Object.step (fun o => o.deallocs = 0 → o.Accounted 1) (.fresh 1 0)
        [.performFinalize, .release, .leave, .retain, .performFinalize, .release, .release] ↔
      EachStep Object.step (fun o a => o.deallocs = 0 → o.Countable a) (.fresh 1 0)
        [.performFinalize, .release, .leave, .retain, .performFinalize, .release, .release] :=
  accounted_iff ⟨by decide, by decide, by decide⟩ rfl

/-- **A slow object is finalized.**  Its word becomes that of an object with one owner: five owners are counted as one,
retains are not passed on any more, and the next finalize calls `-finalize` again. -/
theorem finalized_slow_object_loses_count :
    ∃ o, run Object.step (.fresh slowRelease 5) [.performFinalize, .leave, .retain, .performFinalize] = some o ∧
      o.owned = 6 ∧ o.getRetaincount = 2 ∧ o.elsewhere = 5 ∧ o.finalizes = 2 ∧ o.deallocs = 0 ∧
      ¬ Throughout Object.step (fun o => o.deallocs = 0 → o.Accounted slowRelease) (.fresh slowRelease 5)
        [.performFinalize, .leave, .retain, .performFinalize] := by
  refine ⟨_, rfl, rfl, rfl, rfl, rfl, rfl, fun h => ?_⟩
  exact absurd ((h.2 _ rfl).1 rfl).slow (by decide)

end MulleObjcRuntime.Retain
