import MulleObjcRuntime.Signature.Raw

/-!
# What the parser reads

A type at the head of a string, as a relation between the string and what follows the type.

* `Grammar` — which characters are types, which widths bit fields may have, and what closes an array;
* `Reads` — the types of a grammar, and the types that are broken off in a struct or a union;
* `encodings` — the encodings proper;
* `skipping` — what the parser takes for a type when no info is wanted.
-/

namespace MulleObjcRuntime.Signature.Raw

/-- Struct or union. -/
inductive Kind
  | struct
  | union
  deriving DecidableEq

def Kind.opening : Kind → Char
  | .struct => '{'
  | .union => '('

def Kind.closing : Kind → Char
  | .struct => '}'
  | .union => ')'

structure Grammar where
  simple : Char → Prop
  width : List Char → Prop
  closing : Char → Prop

/-- No character of the string ends the name of a struct or of a union. -/
def Unnamed (k : Kind) (s : List Char) : Prop := ∀ c ∈ s, c ≠ '=' ∧ c ≠ k.closing

/-- What is read: a type, or the members of a struct or a union with all that closes it. -/
inductive Part
  | type
  | members (k : Kind)

/-- The string starts with a type or with members, and what follows is the rest.  There is no rest, when the string ends
inside of a struct or of a union. -/
inductive Reads (g : Grammar) : Part → List Char → Option (List Char) → Prop
  | simple {c s} (h : g.simple c) : Reads g .type (c :: s) (some s)
  | bitfield {s} (h : g.width s) : Reads g .type ('b' :: s) (some (s.dropWhile isDigit))
  | object {s} (h : s.head? ≠ some '?') : Reads g .type ('@' :: s) (some s)
  | block {s} : Reads g .type ('@' :: '?' :: s) (some s)
  | pointer {s o} (h : Reads g .type s o) : Reads g .type ('^' :: s) o
  | array {s n t c r} (hn : number s = .ok (n, t)) (h : Reads g .type t (some (c :: r))) (hc : g.closing c) :
    Reads g .type ('[' :: s) (some r)
  | arrayCut {s n t} (hn : number s = .ok (n, t)) (h : Reads g .type t none) : Reads g .type ('[' :: s) none
  | opaque_ {k name s} (h : Unnamed k name) : Reads g .type (k.opening :: (name ++ k.closing :: s)) (some s)
  | nameCut {k s} (h : Unnamed k s) : Reads g .type (k.opening :: s) none
  | aggregate {k name s o} (hname : Unnamed k name) (h : Reads g (.members k) s o) :
    Reads g .type (k.opening :: (name ++ '=' :: s)) o
  | last {k s r} (h : Reads g .type s (some (k.closing :: r))) : Reads g (.members k) s (some r)
  | membersCut {k s} (h : Reads g .type s (some [])) : Reads g (.members k) s none
  | memberCut {k s} (h : Reads g .type s none) : Reads g (.members k) s none
  | more {k s c t o} (h : Reads g .type s (some (c :: t))) (hc : c ≠ k.closing) (hmore : Reads g (.members k) (c :: t) o) :
    Reads g (.members k) s o

/-- The encodings: the characters are those that the supplier knows. -/
def encodings : Grammar where
  simple c := scalarKind c = 0
  width s := (∃ n t, number s = .ok (n, t)) ∧ ∃ c ∈ s.head?, isDigit c
  closing c := c = ']'

/-- What is skipped as a type: any character goes. -/
def skipping (ndebug : Bool) : Grammar where
  simple c := isMultiCharacterType c = false
  width s := ∃ n : ℤ, atoi s = .ok n ∧ 0 ≤ n
  closing c := c = ']' ∨ ndebug

/-! ## Characters and numbers -/

section Characters

lemma scalarKind_eq (l : Layout) (c : Char) : (scalarKind c : ℤ) = (supplyScalarTypeinfo l c).1 := by
  unfold supplyScalarTypeinfo
  split
  all_goals first | rfl | skip
  simp_all [scalarKind, scalars]

lemma mem_of_scalarKind {c : Char} (h : scalarKind c = 0) : c ∈ scalars := by
  unfold scalarKind at h
  split at h
  · assumption
  · cases h

lemma isMultiCharacterType_of_scalarKind {c : Char} (h : scalarKind c = 0) : isMultiCharacterType c = false := by
  have hall : scalars.all (fun c => !isMultiCharacterType c) = true := by decide
  exact (Bool.not_eq_true' _).mp (List.all_eq_true.mp hall c (mem_of_scalarKind h))

lemma scalarKind_eq_one_or (c : Char) : scalarKind c = 0 ∨ scalarKind c = 1 := by
  unfold scalarKind
  split <;> simp

lemma eq_dropWhile_of_parseLength {n k : ℕ} {s t : List Char} (h : parseLength n s = some (k, t)) :
    t = s.dropWhile isDigit := by
  induction s generalizing n with
  | nil =>
    cases h
    rfl
  | cons c s ih =>
    rw [parseLength] at h
    by_cases hc : '0' ≤ c ∧ c ≤ '9'
    · have hdigit : isDigit c = true := by simpa [isDigit] using hc
      rw [if_pos hc] at h
      simp only [] at h
      split at h
      · rw [List.dropWhile_cons_of_pos hdigit]
        exact ih h
      · cases h
    · have hdigit : ¬ isDigit c = true := by simpa [isDigit] using hc
      rw [if_neg hc] at h
      cases h
      rw [List.dropWhile_cons_of_neg hdigit]

lemma number_eq_ok {s t : List Char} {n : ℕ} : number s = .ok (n, t) ↔ parseLength 0 s = some (n, t) := by
  unfold number
  split
  · rename_i result hresult
    rw [hresult, Except.ok.injEq, Option.some.injEq]
  · rename_i hresult
    rw [hresult]
    simp

lemma eq_dropWhile_of_number {s t : List Char} {n : ℕ} (h : number s = .ok (n, t)) : t = s.dropWhile isDigit :=
  eq_dropWhile_of_parseLength (number_eq_ok.mp h)

lemma length_of_number {s t : List Char} {n : ℕ} (h : number s = .ok (n, t)) : t.length ≤ s.length := by
  rw [eq_dropWhile_of_number h]
  exact (List.dropWhile_sublist _).length_le

/-- A width that starts with a digit is read by `atoi` as it is. -/
lemma atoi_of_width {s : List Char} (h : encodings.width s) : ∃ n : ℤ, atoi s = .ok n ∧ 0 ≤ n := by
  obtain ⟨⟨n, t, hn⟩, c, hc, hdigit⟩ := h
  obtain ⟨s, rfl⟩ : ∃ t, s = c :: t := List.head?_eq_some_iff.mp hc
  have hspace : ¬ isSpace c = true := by
    simp only [isDigit, isSpace, Bool.and_eq_true, decide_eq_true_eq, Char.le_def, UInt32.le_iff_toNat_le,
      Char.toNat_val, Bool.or_eq_true] at hdigit ⊢
    have h0 : ('0' : Char).toNat = 48 := rfl
    omega
  have hminus : c ≠ '-' := by
    rintro rfl
    exact absurd hdigit (by decide)
  have hplus : c ≠ '+' := by
    rintro rfl
    exact absurd hdigit (by decide)
  refine ⟨n, ?_, by omega⟩
  rw [atoi, List.dropWhile_cons_of_neg hspace]
  split
  · simp_all
  · simp_all
  · rw [hn]
    rfl

end Characters

/-! ## Relations between readings -/

section Reads

variable {g g' : Grammar} {part : Part} {s r : List Char} {o : Option (List Char)}

lemma Reads.length_lt (h : Reads g part s o) : ∀ r ∈ o, r.length < s.length := by
  induction h with
  | simple | object => simp
  | bitfield => simpa [Nat.lt_succ_iff] using (List.dropWhile_sublist _).length_le
  | block =>
    rintro r ⟨⟩
    simp only [List.length_cons]
    omega
  | pointer _ ih => exact fun r hr => (ih r hr).trans (Nat.lt_succ_self _)
  | array hn _ _ ih =>
    have hle := length_of_number hn
    have hlt := ih _ rfl
    rintro r ⟨⟩
    simp only [List.length_cons] at hlt ⊢
    omega
  | opaque_ =>
    rintro r ⟨⟩
    simp only [List.length_cons, List.length_append]
    omega
  | aggregate _ _ ih =>
    intro r hr
    have hlt := ih r hr
    simp only [List.length_cons, List.length_append]
    omega
  | last _ ih =>
    have hlt := ih _ rfl
    rintro r ⟨⟩
    exact (Nat.lt_succ_self _).trans hlt
  | more _ _ _ ih ihmore => exact fun r hr => (ihmore r hr).trans (ih _ rfl)
  | arrayCut | nameCut | membersCut | memberCut => simp

lemma Reads.mono (hsimple : ∀ c, g.simple c → g'.simple c) (hwidth : ∀ s, g.width s → g'.width s)
    (hclosing : ∀ c, g.closing c → g'.closing c) (h : Reads g part s o) : Reads g' part s o := by
  induction h with
  | simple h => exact .simple (hsimple _ h)
  | bitfield h => exact .bitfield (hwidth _ h)
  | object h => exact .object h
  | block => exact .block
  | pointer _ ih => exact .pointer ih
  | array hn _ hc ih => exact .array hn ih (hclosing _ hc)
  | arrayCut hn _ ih => exact .arrayCut hn ih
  | opaque_ h => exact .opaque_ h
  | nameCut h => exact .nameCut h
  | aggregate h _ ih => exact .aggregate h ih
  | last _ ih => exact .last ih
  | membersCut _ ih => exact .membersCut ih
  | memberCut _ ih => exact .memberCut ih
  | more _ hc _ ih ihmore => exact .more ih hc ihmore

lemma Reads.skipped {ndebug : Bool} (h : Reads encodings part s o) : Reads (skipping ndebug) part s o :=
  h.mono (fun _ => isMultiCharacterType_of_scalarKind) (fun _ => atoi_of_width) (fun _ => Or.inl)

end Reads

end MulleObjcRuntime.Signature.Raw
