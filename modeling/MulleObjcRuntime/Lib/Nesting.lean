import Mathlib.Data.List.Basic

/-!
# Nested brackets

A scan counts the brackets of a text to find the one that closes the text before it.

* `enclosed` — the text up to the bracket that gets the count to zero;
* `Nested` — in a text every bracket is closed;
* `Nested.enclosed_append` — such a text does not change the count.
-/

namespace MulleObjcRuntime.Lib.Nesting

variable {α : Type} (opens closes : α → Bool)

/-- What is in the innermost `level` brackets, up to the bracket that closes the last of them. -/
def enclosed : ℕ → List α → Option (List α)
  | _, [] => none
  | level, c :: s =>
    Option.map (c :: ·) <|
      if opens c then enclosed (level + 1) s
      else if closes c then if level ≤ 1 then some [] else enclosed (level - 1) s
      else enclosed level s

/-- Every bracket is closed, and none is closed that has not been opened. -/
inductive Nested : List α → Prop
  | nil : Nested []
  | plain {c s} (hopens : opens c = false) (hcloses : closes c = false) (h : Nested s) : Nested (c :: s)
  | bracket {c s d t} (hopens : opens c = true) (h : Nested s) (hd : opens d = false) (hcloses : closes d = true)
    (ht : Nested t) : Nested (c :: (s ++ d :: t))

section

variable {opens closes} {level : ℕ} {p s : List α}

lemma Nested.append (hp : Nested opens closes p) (hs : Nested opens closes s) : Nested opens closes (p ++ s) := by
  induction hp with
  | nil => exact hs
  | plain hopens hcloses _ ih => exact .plain hopens hcloses ih
  | bracket hopens h hd hcloses _ _ ih =>
    rw [List.cons_append, List.append_assoc]
    exact .bracket hopens h hd hcloses ih

lemma Nested.of_plain (h : ∀ c ∈ p, opens c = false ∧ closes c = false) : Nested opens closes p := by
  induction p with
  | nil => exact .nil
  | cons c p ih =>
    obtain ⟨hc, hp⟩ := List.forall_mem_cons.mp h
    exact .plain hc.1 hc.2 (ih hp)

/-- **Nested text is passed over**, within any bracket. -/
theorem Nested.enclosed_append (h : Nested opens closes p) (hlevel : 0 < level) (s : List α) :
    enclosed opens closes level (p ++ s) = (enclosed opens closes level s).map (p ++ ·) := by
  induction h generalizing level s with
  | nil => simp
  | plain hopens hcloses _ ih =>
    rw [List.cons_append, enclosed, hopens, hcloses, if_neg Bool.false_ne_true, if_neg Bool.false_ne_true, ih hlevel,
      Option.map_map]
    rfl
  | @bracket c u d t hopens _ hd hcloses _ ih iht =>
    rw [List.cons_append, List.append_assoc, List.cons_append, enclosed, hopens, if_pos rfl, ih (Nat.succ_pos level),
      enclosed, hd, hcloses, if_neg Bool.false_ne_true, if_pos rfl, if_neg (by omega), Nat.succ_sub_one, iht hlevel]
    simp only [Option.map_map]
    congr 1
    funext v
    simp

lemma Nested.enclosed_bracket (h : Nested opens closes p) {d : α} (hd : opens d = false) (hcloses : closes d = true)
    (s : List α) : enclosed opens closes 1 (p ++ d :: s) = some (p ++ [d]) := by
  rw [h.enclosed_append (Nat.succ_pos 0), enclosed, hd, hcloses]
  rfl

lemma exists_map_cons_prefix {o : Option (List α)} {c d : α} :
    (∃ p, o.map (c :: ·) = some p ∧ p <+: d :: s) ↔ c = d ∧ ∃ p, o = some p ∧ p <+: s := by
  simp only [Option.map_eq_some_iff]
  constructor
  · rintro ⟨_, ⟨p, hp, rfl⟩, hprefix⟩
    exact ⟨(List.cons_prefix_cons.mp hprefix).1, p, hp, (List.cons_prefix_cons.mp hprefix).2⟩
  · rintro ⟨rfl, p, hp, hprefix⟩
    exact ⟨c :: p, ⟨p, hp, rfl⟩, List.cons_prefix_cons.mpr ⟨rfl, hprefix⟩⟩

end

end MulleObjcRuntime.Lib.Nesting
