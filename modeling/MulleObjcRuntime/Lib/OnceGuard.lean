import MulleObjcRuntime.Lib.Interleaving

/-!
# Things that are set up once

A guard tells threads if something is still to be set up, is being set up, or is there.

* `Allowed` — what a thread may do with the guard;
* `Once` — one thread at a time is at the setup, at most;
* `Once.moved` — this stays so as long as the threads do what they may.
-/

namespace MulleObjcRuntime.Lib.OnceGuard

open Interleaving

/-- What is known of a thing. -/
inductive Guard
  | fresh
  | running
  | done
deriving DecidableEq, Repr

/-- Where a thread is: in front of the thing, at the setup, or past it. -/
inductive Place
  | outside
  | inside
  | past
deriving DecidableEq, Repr

/-- What a thread may do. -/
inductive Allowed : Guard → Place → Guard → Place → Prop
  | stay (g : Guard) (p : Place) : Allowed g p g p
  | enter : Allowed .fresh .outside .running .inside
  | finish (g : Guard) : Allowed g .inside .done .past
  | pass : Allowed .done .outside .done .past
  | leave (g : Guard) : Allowed g .past g .outside

/-- **One thread at a time.** -/
structure Once {ι : Type} (guard : Guard) (place : ι → Place) : Prop where
  running_of_inside : ∀ i, place i = .inside → guard = .running
  done_of_past : ∀ i, place i = .past → guard = .done
  alone : ∀ i j, place i = .inside → place j = .inside → i = j

variable {ι : Type} [DecidableEq ι] {guard guard' : Guard} {place : ι → Place}

omit [DecidableEq ι] in
lemma once_start (guard : Guard) : Once guard fun _ : ι => Place.outside where
  running_of_inside _ h := by cases h
  done_of_past _ h := by cases h
  alone _ _ h := by cases h

/-- What a thread may do keeps the threads apart. -/
lemma Once.step (h : Once guard place) {i : ι} {p : Place} (hact : Allowed guard (place i) guard' p) :
    Once guard' (Function.update place i p) := by
  have hother : ∀ {j : ι}, j ≠ i → Function.update place i p j = place j := fun hj => Function.update_of_ne hj ..
  have hself : Function.update place i p i = p := Function.update_self ..
  -- who is at the setup, or past it, is where it was, or it is the one that moves
  generalize hold : place i = old at hact
  cases hact with
  | stay =>
    rw [← hold, Function.update_eq_self]
    exact h
  | enter =>
    have hnone : ∀ j, place j ≠ .inside := fun j hj => by cases h.running_of_inside j hj
    have hnopast : ∀ j, place j ≠ .past := fun j hj => by cases h.done_of_past j hj
    refine ⟨fun _ _ => rfl, fun j hj => ?_, fun j k hj hk => ?_⟩
    · by_cases hji : j = i
      · subst hji
        rw [hself] at hj
        cases hj
      · exact absurd (hother hji ▸ hj) (hnopast j)
    · have hmoved : ∀ j, Function.update place i .inside j = .inside → j = i := by
        intro j hj
        by_contra hji
        exact hnone j (hother hji ▸ hj)
      rw [hmoved j hj, hmoved k hk]
  | finish =>
    have hnone : ∀ j, Function.update place i .past j ≠ .inside := by
      intro j hj
      by_cases hji : j = i
      · subst hji
        rw [hself] at hj
        cases hj
      · exact hji (h.alone j i (hother hji ▸ hj) hold)
    exact ⟨fun j hj => absurd hj (hnone j), fun _ _ => rfl, fun j _ hj => absurd hj (hnone j)⟩
  | pass =>
    have hnone : ∀ j, Function.update place i .past j ≠ .inside := by
      intro j hj
      by_cases hji : j = i
      · subst hji
        rw [hself] at hj
        cases hj
      · cases h.running_of_inside j (hother hji ▸ hj)
    exact ⟨fun j hj => absurd hj (hnone j), fun _ _ => rfl, fun j _ hj => absurd hj (hnone j)⟩
  | leave =>
    have hkept : ∀ j q, q ≠ .outside → Function.update place i .outside j = q → place j = q := by
      intro j q hq hj
      by_cases hji : j = i
      · subst hji
        rw [hself] at hj
        exact absurd hj.symm hq
      · exact hother hji ▸ hj
    exact ⟨fun j hj => h.running_of_inside j (hkept j _ (by simp) hj),
      fun j hj => h.done_of_past j (hkept j _ (by simp) hj),
      fun j k hj hk => h.alone j k (hkept j _ (by simp) hj) (hkept k _ (by simp) hk)⟩

/-- **Whoever does what it may is alone at the setup, and comes past it when all is there.** -/
theorem Once.moved {S L : Type} {s : Threads ι S L} {place : L → Place} (h : Once guard fun j => place (s.thread j))
    {i : ι} {l : L} (hact : Allowed guard (place (s.thread i)) guard' (place l)) (mem : S) :
    Once guard' fun j => place ((s.moved i mem l).thread j) := by
  have hplace : (fun j => place ((s.moved i mem l).thread j)) =
      Function.update (fun j => place (s.thread j)) i (place l) := by
    funext j
    by_cases hj : j = i
    · subst hj
      rw [moved_self, Function.update_self]
    · rw [moved_ne hj, Function.update_of_ne hj]
  rw [hplace]
  exact h.step hact

end MulleObjcRuntime.Lib.OnceGuard
