import MulleObjcRuntime.Bang.Defs
import MulleObjcRuntime.Lib.Runs

/-!
# The lives of a universe

Of any number of threads that bang and crunch, at most one sets up the universe in a life, and none returns from a bang
before that is done.  At most one tears it down, as long as no thread leaves the first loop of the crunch while another one is
behind it.

* `LifeOrderly` — what is expected of a life;
* `Exclusive` — a thread leaves the first loop of the crunch when no other is behind it;
* `LockInv` — the invariant: one owner at most, and what the owner and the version say about the life;
* `orderly_of_exclusive` — runs of exclusive steps are orderly;
* `teardown_twice` — two threads crunch and both tear down.
-/

namespace MulleObjcRuntime.Bang

open Lib.Interleaving Lib.Runs

variable {ι : Type}

def Event.isSetupBegins : Event ι → Bool
  | .setupBegins _ => true
  | _ => false

def Event.isTeardownBegins : Event ι → Bool
  | .teardownBegins _ => true
  | _ => false

def Event.isBangReturns : Event ι → Bool
  | .bangReturns _ => true
  | _ => false

/-- What is expected of a life of the universe. -/
structure LifeOrderly (life : List (Event ι)) : Prop where
  setupOnce : life.countP Event.isSetupBegins ≤ 1
  teardownOnce : life.countP Event.isTeardownBegins ≤ 1
  /-- nobody returns from a bang before the setup is complete -/
  returnsLate : ∀ before i after, life = before ++ .bangReturns i :: after → ∃ j, .setupEnds j ∈ before
  /-- nor does a teardown begin -/
  teardownLate : ∀ before i after, life = before ++ .teardownBegins i :: after → ∃ j, .setupEnds j ∈ before

/-- All lives so far are orderly. -/
def Orderly (s : ThreadsState ι) : Prop := LifeOrderly s.shared.life ∧ ∀ life ∈ s.shared.formerLives, LifeOrderly life

/-- The thread is behind the loop that locks the universe for the bang. -/
def Local.ownsBang : Local → Bool
  | .bangLocked | .settingUp | .bangUnlocking => true
  | _ => false

/-- The thread is behind the loop that locks the universe for the crunch. -/
def Local.ownsCrunch : Local → Bool
  | .willFinalizing | .deinitializing | .crunchLocked | .tearingDown | .failed | .freeing | .crunchUnlocking => true
  | _ => false

/-- A thread that finds the universe locked for the crunch does not go on when another one has. -/
def Exclusive (s : ThreadsState ι) (a : ι × Option Command) : Prop :=
  s.thread a.1 = .crunchLocking → s.shared.version = .runtimeVersionPlusOne → ∀ j, (s.thread j).ownsCrunch = false

/-! ## The invariant -/

/-- The setup is complete, and some have returned from the bang. -/
def Alive (life : List (Event ι)) : Prop :=
  ∃ i returns, life = [.setupBegins i, .setupEnds i] ++ returns ∧ ∀ e ∈ returns, Event.isBangReturns e = true

/-- What the version says about the life. -/
def LifeOf (shared : Shared ι) : Prop :=
  match shared.version with
  | .isUninitialized => shared.life = []
  | .runtimeVersion | .runtimeVersionPlusOne => Alive shared.life
  | _ => LifeOrderly shared.life

/-- What an owner knows. -/
def Local.Ok (i : ι) (shared : Shared ι) : Local → Prop
  | .bangLocked => shared.version = .isInitializing ∧ shared.life = []
  | .settingUp => shared.version = .isInitializing ∧ shared.life = [.setupBegins i]
  | .bangUnlocking => shared.version = .isInitializing ∧ shared.life = [.setupBegins i, .setupEnds i]
  | .willFinalizing => shared.version = .runtimeVersionPlusOne ∧ Alive shared.life
  | .deinitializing =>
    (shared.version = .runtimeVersionPlusOne ∨ shared.version = .isDeinitializing) ∧ Alive shared.life
  | .crunchLocked => shared.version = .isDeinitializing ∧ Alive shared.life
  | .tearingDown =>
    shared.version = .isDeinitializing ∧ ∃ life, Alive life ∧ shared.life = life ++ [.teardownBegins i]
  | .freeing => shared.version = .isDeallocating ∧ ∃ life, Alive life ∧ shared.life = life ++ [.teardownBegins i]
  | .crunchUnlocking =>
    shared.version = .isDeallocating ∧ ∃ life, Alive life ∧ shared.life = life ++ [.teardownBegins i, .teardownEnds i]
  | .failed => False
  | _ => True

/-- The thread has locked the universe. -/
def Local.owns (l : Local) : Bool := l.ownsBang || l.ownsCrunch

/-- The invariant. -/
structure LockInv (s : ThreadsState ι) : Prop where
  ok : ∀ i, (s.thread i).Ok i s.shared
  owner : ∀ i j, (s.thread i).owns = true → (s.thread j).owns = true → i = j
  life : LifeOf s.shared
  formerLives : ∀ life ∈ s.shared.formerLives, LifeOrderly life

/-! ## Lives -/

lemma lifeOrderly_nil : LifeOrderly ([] : List (Event ι)) where
  setupOnce := Nat.zero_le 1
  teardownOnce := Nat.zero_le 1
  returnsLate before i after h := by simp at h
  teardownLate before i after h := by simp at h

lemma setupEnds_mem {i : ι} {rest before after : List (Event ι)} {e : Event ι} (hbegins : e ≠ .setupBegins i)
    (hends : e ≠ .setupEnds i) (h : [.setupBegins i, .setupEnds i] ++ rest = before ++ e :: after) :
    .setupEnds i ∈ before := by
  match before with
  | [] => exact absurd (List.cons.inj h).1.symm hbegins
  | [b] => exact absurd (List.cons.inj (List.cons.inj h).2).1.symm hends
  | b :: b' :: before =>
    have := (List.cons.inj (List.cons.inj h).2).1
    rw [← this]
    exact List.mem_cons_of_mem _ List.mem_cons_self

lemma lifeOrderly_of_setup {i : ι} {rest : List (Event ι)} (hsetup : rest.countP Event.isSetupBegins = 0)
    (hteardown : rest.countP Event.isTeardownBegins ≤ 1) : LifeOrderly ([.setupBegins i, .setupEnds i] ++ rest) where
  setupOnce := by
    rw [List.countP_append, hsetup]
    exact Nat.le_refl 1
  teardownOnce := by
    rw [List.countP_append]
    exact (Nat.zero_add _).le.trans hteardown
  returnsLate _ _ _ h := ⟨i, setupEnds_mem (fun h => by cases h) (fun h => by cases h) h⟩
  teardownLate _ _ _ h := ⟨i, setupEnds_mem (fun h => by cases h) (fun h => by cases h) h⟩

lemma Alive.lifeOrderly_append {life : List (Event ι)} (h : Alive life) {rest : List (Event ι)}
    (hsetup : rest.countP Event.isSetupBegins = 0) (hteardown : rest.countP Event.isTeardownBegins ≤ 1) :
    LifeOrderly (life ++ rest) := by
  obtain ⟨i, returns, rfl, hreturns⟩ := h
  have hnone : ∀ p : Event ι → Bool, (∀ e, Event.isBangReturns e = true → p e = false) → returns.countP p = 0 := by
    intro p hp
    rw [List.countP_eq_zero]
    intro e he
    rw [hp e (hreturns e he)]
    exact Bool.false_ne_true
  have hnoSetup := hnone Event.isSetupBegins fun e he => by cases e <;> first | rfl | cases he
  have hnoTeardown := hnone Event.isTeardownBegins fun e he => by cases e <;> first | rfl | cases he
  rw [List.append_assoc]
  refine lifeOrderly_of_setup ?_ ?_
  · rw [List.countP_append, hnoSetup, hsetup]
  · rw [List.countP_append, hnoTeardown, Nat.zero_add]
    exact hteardown

lemma Alive.lifeOrderly {life : List (Event ι)} (h : Alive life) : LifeOrderly life := by
  have : LifeOrderly (life ++ []) := h.lifeOrderly_append rfl (Nat.zero_le 1)
  rwa [List.append_nil] at this

lemma Alive.bangReturns {life : List (Event ι)} (h : Alive life) (j : ι) : Alive (life ++ [.bangReturns j]) := by
  obtain ⟨i, returns, rfl, hreturns⟩ := h
  refine ⟨i, returns ++ [.bangReturns j], by rw [List.append_assoc], ?_⟩
  intro e he
  rcases List.mem_append.1 he with he | he
  · exact hreturns e he
  · rw [List.mem_singleton.1 he]
    rfl

lemma lifeOrderly_setupBegins (i : ι) : LifeOrderly [.setupBegins i] where
  setupOnce := Nat.le_refl 1
  teardownOnce := Nat.zero_le 1
  returnsLate before j after h := by
    rcases before with _ | ⟨b, before⟩
    · cases h
    · simp at h
  teardownLate before j after h := by
    rcases before with _ | ⟨b, before⟩
    · cases h
    · simp at h

lemma LifeOf.lifeOrderly {shared : Shared ι} (h : LifeOf shared) : LifeOrderly shared.life := by
  unfold LifeOf at h
  split at h
  · rw [h]
    exact lifeOrderly_nil
  · exact Alive.lifeOrderly h
  · exact Alive.lifeOrderly h
  · exact h

/-- **The states that the invariant admits are orderly.** -/
lemma LockInv.orderly {s : ThreadsState ι} (h : LockInv s) : Orderly s := ⟨h.life.lifeOrderly, h.formerLives⟩

theorem lockInv_start : LockInv (threadsStart ι) where
  ok _ := trivial
  owner i _ h := by cases h
  life := rfl
  formerLives _ h := by cases h

/-! ## Steps -/

lemma Local.ok_of_not_owns {l : Local} (h : l.owns = false) (i : ι) (shared : Shared ι) : l.Ok i shared := by
  cases l with
  | idle => trivial
  | bangLocking => trivial
  | crunchLocking => trivial
  | _ => cases h

lemma Local.Ok.version_of_ownsBang {l : Local} {i : ι} {shared : Shared ι} (h : l.Ok i shared)
    (howns : l.ownsBang = true) : shared.version = .isInitializing := by
  cases l with
  | bangLocked | settingUp | bangUnlocking => exact h.1
  | _ => cases howns

lemma Local.Ok.version_of_ownsCrunch {l : Local} {i : ι} {shared : Shared ι} (h : l.Ok i shared)
    (howns : l.ownsCrunch = true) :
    shared.version = .runtimeVersionPlusOne ∨ shared.version = .isDeinitializing ∨ shared.version = .isDeallocating := by
  cases l with
  | willFinalizing => exact Or.inl h.1
  | deinitializing => exact h.1.imp_right Or.inl
  | crunchLocked | tearingDown => exact Or.inr (Or.inl h.1)
  | freeing | crunchUnlocking => exact Or.inr (Or.inr h.1)
  | failed => exact h.elim
  | _ => cases howns

lemma Local.Ok.ownsBang_eq_false {l : Local} {i : ι} {shared : Shared ι} (h : l.Ok i shared)
    (hversion : shared.version ≠ .isInitializing) : l.ownsBang = false := by
  rw [Bool.eq_false_iff]
  exact fun howns => hversion (h.version_of_ownsBang howns)

lemma not_owns_of_version {l : Local} {i : ι} {shared : Shared ι} (h : l.Ok i shared)
    (hversion : shared.version = .isUninitialized ∨ shared.version = .runtimeVersion) : l.owns = false := by
  have hbang : l.ownsBang = false := by
    apply h.ownsBang_eq_false
    rcases hversion with hversion | hversion <;> rw [hversion] <;> decide
  have hcrunch : l.ownsCrunch = false := by
    rw [Bool.eq_false_iff]
    intro howns
    have hother := h.version_of_ownsCrunch howns
    rcases hversion with hversion | hversion <;> rw [hversion] at hother <;> revert hother <;> decide
  rw [Local.owns, hbang, hcrunch]
  rfl

variable [DecidableEq ι] {s : ThreadsState ι} {i : ι}

/-- A step of a thread that leaves the universe alone, or that nobody else has locked. -/
lemma LockInv.moved (h : LockInv s) {shared : Shared ι} {l : Local}
    (hother : shared = s.shared ∧ l.owns = false ∨ ∀ j ≠ i, (s.thread j).owns = false) (hok : l.Ok i shared)
    (hlife : LifeOf shared) (hformer : ∀ life ∈ shared.formerLives, LifeOrderly life) :
    LockInv (s.moved i shared l) where
  ok := by
    refine (forall_moved fun j (l : Local) => l.Ok j shared).2 ⟨hok, fun j hj => ?_⟩
    rcases hother with ⟨rfl, -⟩ | hother
    · exact h.ok j
    · exact Local.ok_of_not_owns (hother j hj) j shared
  owner j k hj hk := by
    by_cases hji : j = i
    · by_cases hki : k = i
      · rw [hji, hki]
      · rw [moved_ne hki] at hk
        rw [hji, moved_self] at hj
        rcases hother with ⟨-, hl⟩ | hother
        · rw [hl] at hj
          cases hj
        · rw [hother k hki] at hk
          cases hk
    · rw [moved_ne hji] at hj
      by_cases hki : k = i
      · rw [hki, moved_self] at hk
        rcases hother with ⟨-, hl⟩ | hother
        · rw [hl] at hk
          cases hk
        · rw [hother j hji] at hj
          cases hj
      · rw [moved_ne hki] at hk
        exact h.owner j k hj hk
  life := hlife
  formerLives := hformer

/-- **An exclusive step keeps the invariant.** -/
theorem LockInv.advance (h : LockInv s) (hexclusive : Exclusive s (i, none)) {shared : Shared ι} {l : Local}
    (hadvance : advance i s.shared (s.thread i) = some (shared, l)) : LockInv (s.moved i shared l) := by
  have hok := h.ok i
  have hothers : (s.thread i).owns = true → ∀ j ≠ i, (s.thread j).owns = false := by
    intro hi j hj
    by_contra hown
    exact hj (h.owner j i (by simpa using hown) hi)
  have hnobody : s.shared.version = .isUninitialized ∨ s.shared.version = .runtimeVersion →
      ∀ j, (s.thread j).owns = false := fun hversion j => not_owns_of_version (h.ok j) hversion
  have hlife := h.life
  unfold LifeOf at hlife
  cases hl : s.thread i with
  | idle =>
    rw [hl] at hadvance
    cases hadvance
  | bangLocking =>
    rw [hl, Bang.advance] at hadvance
    by_cases huninitialized : s.shared.version = .isUninitialized
    · rw [huninitialized, cas_self] at hadvance
      simp only [huninitialized] at hlife
      cases hadvance
      exact h.moved (Or.inr fun j _ => hnobody (Or.inl huninitialized) j) ⟨rfl, hlife⟩ (hlife ▸ lifeOrderly_nil)
        h.formerLives
    · rw [cas_ne huninitialized] at hadvance
      by_cases hready : s.shared.version = .runtimeVersion
      · simp only [hready] at hadvance hlife
        cases hadvance
        exact h.moved (Or.inr fun j _ => hnobody (Or.inr hready) j) trivial (Alive.bangReturns hlife i) h.formerLives
      · simp only [if_neg huninitialized, if_neg hready] at hadvance
        cases hadvance
        exact h.moved (Or.inl ⟨rfl, rfl⟩) trivial h.life h.formerLives
  | bangLocked =>
    rw [hl] at hok hothers hadvance
    cases hadvance
    refine h.moved (Or.inr (hothers rfl)) ⟨hok.1, ?_⟩ ?_ h.formerLives
    · simp only [Shared.did, hok.2, List.nil_append]
    · simp only [LifeOf, Shared.did, hok.1, hok.2, List.nil_append]
      exact lifeOrderly_setupBegins i
  | settingUp =>
    rw [hl] at hok hothers hadvance
    cases hadvance
    refine h.moved (Or.inr (hothers rfl)) ⟨hok.1, ?_⟩ ?_ h.formerLives
    · simp only [Shared.did, hok.2, List.cons_append, List.nil_append]
    · simp only [LifeOf, Shared.did, hok.1, hok.2, List.cons_append, List.nil_append]
      exact Alive.lifeOrderly ⟨i, [], rfl, fun e he => by cases he⟩
  | bangUnlocking =>
    rw [hl] at hok hothers
    simp only [hl, Bang.advance, cas, hok.1] at hadvance
    cases hadvance
    refine h.moved (Or.inr (hothers rfl)) trivial ?_ h.formerLives
    refine ⟨i, [.bangReturns i], ?_, ?_⟩
    · simp only [Shared.did, hok.2]
    · intro e he
      rw [List.mem_singleton.1 he]
      rfl
  | crunchLocking =>
    rw [hl, Bang.advance] at hadvance
    by_cases hready : s.shared.version = .runtimeVersion
    · rw [hready, cas_self] at hadvance
      simp only [hready] at hlife
      cases hadvance
      exact h.moved (Or.inr fun j _ => hnobody (Or.inr hready) j) trivial hlife h.formerLives
    · rw [cas_ne hready] at hadvance
      by_cases hlocked : s.shared.version = .runtimeVersionPlusOne
      · simp only [hlocked] at hadvance hlife
        cases hadvance
        refine h.moved (Or.inr fun j _ => ?_) ⟨rfl, hlife⟩ hlife h.formerLives
        -- nobody else is behind the loop, and the universe is not locked for a bang
        have hcrunch := hexclusive hl hlocked j
        have hbang : (s.thread j).ownsBang = false := by
          apply (h.ok j).ownsBang_eq_false
          rw [hlocked]
          decide
        rw [Local.owns, hcrunch, hbang]
        rfl
      · simp only [if_neg hlocked] at hadvance
        split at hadvance
        · cases hadvance
          exact h.moved (Or.inl ⟨rfl, rfl⟩) trivial h.life h.formerLives
        · cases hadvance
          exact h.moved (Or.inl ⟨rfl, rfl⟩) trivial h.life h.formerLives
  | willFinalizing =>
    rw [hl] at hok hothers hadvance
    cases hadvance
    exact h.moved (Or.inr (hothers rfl)) ⟨Or.inl hok.1, hok.2⟩ h.life h.formerLives
  | deinitializing =>
    rw [hl] at hok hothers
    rcases hok with ⟨hversion | hversion, halive⟩
    · simp only [hl, Bang.advance, cas, hversion] at hadvance
      cases hadvance
      exact h.moved (Or.inr (hothers rfl)) ⟨Or.inr rfl, halive⟩ halive.lifeOrderly h.formerLives
    · simp only [hl, Bang.advance, cas, hversion] at hadvance
      cases hadvance
      exact h.moved (Or.inr (hothers rfl)) ⟨rfl, halive⟩ halive.lifeOrderly h.formerLives
  | crunchLocked =>
    rw [hl] at hok hothers hadvance
    cases hadvance
    refine h.moved (Or.inr (hothers rfl)) ⟨hok.1, _, hok.2, rfl⟩ ?_ h.formerLives
    simp only [LifeOf, Shared.did, hok.1]
    exact hok.2.lifeOrderly_append rfl (Nat.le_refl 1)
  | tearingDown =>
    rw [hl] at hok hothers
    obtain ⟨hversion, life, halive, hlife⟩ := hok
    simp only [hl, Bang.advance, cas, hversion] at hadvance
    cases hadvance
    refine h.moved (Or.inr (hothers rfl)) ⟨rfl, life, halive, hlife⟩ ?_ h.formerLives
    simp only [LifeOf, hlife]
    exact halive.lifeOrderly_append rfl (Nat.le_refl 1)
  | failed =>
    rw [hl] at hok
    exact hok.elim
  | freeing =>
    rw [hl] at hok hothers hadvance
    obtain ⟨hversion, life, halive, hlife⟩ := hok
    cases hadvance
    have hafter : s.shared.life ++ [.teardownEnds i] = life ++ [.teardownBegins i, .teardownEnds i] := by
      rw [hlife, List.append_assoc]
      rfl
    refine h.moved (Or.inr (hothers rfl)) ⟨hversion, life, halive, hafter⟩ ?_ h.formerLives
    simp only [LifeOf, Shared.did, hversion, hafter]
    exact halive.lifeOrderly_append rfl (Nat.le_refl 1)
  | crunchUnlocking =>
    rw [hl] at hok hothers
    obtain ⟨hversion, life, halive, hlife⟩ := hok
    simp only [hl, Bang.advance, cas, hversion] at hadvance
    cases hadvance
    refine h.moved (Or.inr (hothers rfl)) trivial rfl ?_
    intro former hformer
    rcases List.mem_append.1 hformer with hformer | hformer
    · exact h.formerLives former hformer
    · rw [List.mem_singleton.1 hformer, hlife]
      exact halive.lifeOrderly_append rfl (Nat.le_refl 1)

/-- **Runs of exclusive steps are orderly.** -/
theorem orderly_of_exclusive {acts : List (ι × Option Command)}
    (hexclusive : EachStep threadsStep Exclusive (threadsStart ι) acts) :
    Throughout threadsStep Orderly (threadsStart ι) acts := by
  refine (hexclusive.throughout lockInv_start ?_).mono fun s h => LockInv.orderly h
  rintro s ⟨i, command⟩ t h ha hstep
  cases command with
  | none =>
    obtain ⟨⟨shared, l⟩, hadvance, rfl⟩ := Option.map_eq_some_iff.1 hstep
    exact h.advance ha hadvance
  | some command =>
    simp only [threadsStep] at hstep
    split at hstep
    · cases hstep
      cases command with
      | bang => exact h.moved (Or.inl ⟨rfl, rfl⟩) trivial h.life h.formerLives
      | crunch => exact h.moved (Or.inl ⟨rfl, rfl⟩) trivial h.life h.formerLives
    · cases hstep

instance [Fintype ι] (s : ThreadsState ι) (a : ι × Option Command) : Decidable (Exclusive s a) :=
  inferInstanceAs (Decidable (_ → _ → ∀ j, (s.thread j).ownsCrunch = false))

/-- One thread bangs and crunches, and another one bangs in between. -/
theorem orderly_of_exclusive_sample :
    Throughout threadsStep Orderly (threadsStart Bool)
      ([(true, some .bang)] ++ List.replicate 4 (true, none) ++ [(false, some .bang), (false, none), (true, some .crunch)] ++
        List.replicate 9 (true, none)) :=
  orderly_of_exclusive (by decide +kernel)

/-- A thread bangs; then two threads crunch.  The one swaps the version, both find it swapped, and both go on. -/
def crunchRun : List (Bool × Option Command) :=
  [(true, some .bang)] ++ List.replicate 4 (true, none) ++ [(true, some .crunch), (false, some .crunch)] ++
    -- the first loop
    [(true, none), (true, none), (false, none)] ++
    -- the second loop
    [(true, none), (false, none), (true, none), (true, none), (false, none)] ++
    [(true, none), (false, none)]

/-- Both threads begin the teardown. -/
theorem teardown_twice : ¬ Throughout threadsStep Orderly (threadsStart Bool) crunchRun := by
  intro horderly
  obtain ⟨s, hs⟩ : ∃ s, run threadsStep (threadsStart Bool) crunchRun = some s :=
    Option.isSome_iff_exists.1 (by decide +kernel)
  have hlife : s.shared.life =
      [.setupBegins true, .setupEnds true, .bangReturns true, .teardownBegins true, .teardownBegins false] := by
    have : (run threadsStep (threadsStart Bool) crunchRun).map (fun s => s.shared.life) =
        some [.setupBegins true, .setupEnds true, .bangReturns true, .teardownBegins true, .teardownBegins false] := by
      decide +kernel
    rw [hs] at this
    exact Option.some.inj this
  have := (horderly.last hs).1.teardownOnce
  rw [hlife] at this
  exact absurd this (by decide)

end MulleObjcRuntime.Bang
