import MulleObjcRuntime.Signature.Grammar

/-!
# Encodings and what follows them

* `Encodes` — the encodings, with those of structs and unions that have no members;
* `Continues` — the texts that go on with the encoding in front of them;
* `Encodes.append` — any other text leaves an encoding as it is.
-/

namespace MulleObjcRuntime.Signature.Raw

/-- The string starts with an encoding, or with the members of a struct or of a union and what closes it, and the rest
follows.  It is hollow if there is a struct or a union in it that has no members, not even unknown ones. -/
inductive Encodes : Part → List Char → List Char → Bool → Prop
  | simple {c r} (h : scalarKind c = 0) : Encodes .type (c :: r) r false
  | bitfield {s} (h : encodings.width s) : Encodes .type ('b' :: s) (s.dropWhile isDigit) false
  | object {r} (h : r.head? ≠ some '?') : Encodes .type ('@' :: r) r false
  | block {r} : Encodes .type ('@' :: '?' :: r) r false
  | pointer {s r hollow} (h : Encodes .type s r hollow) : Encodes .type ('^' :: s) r hollow
  | array {s n t r hollow} (hn : number s = .ok (n, t)) (h : Encodes .type t (']' :: r) hollow) :
    Encodes .type ('[' :: s) r hollow
  | opaque_ {k name r} (h : Unnamed k name) : Encodes .type (k.opening :: (name ++ k.closing :: r)) r false
  | empty {k name r} (h : Unnamed k name) : Encodes .type (k.opening :: (name ++ '=' :: k.closing :: r)) r true
  | aggregate {k name s r hollow} (hname : Unnamed k name) (h : Encodes (.members k) s r hollow) :
    Encodes .type (k.opening :: (name ++ '=' :: s)) r hollow
  | last {k s r hollow} (h : Encodes .type s (k.closing :: r) hollow) : Encodes (.members k) s r hollow
  | more {k s c t r hollow hollow'} (h : Encodes .type s (c :: t) hollow) (hc : c ≠ k.closing)
    (hmore : Encodes (.members k) (c :: t) r hollow') : Encodes (.members k) s r (hollow || hollow')

variable {part : Part} {s t r : List Char} {hollow : Bool}

lemma Encodes.reads (h : Encodes part s r hollow) (hfull : hollow = false) : Reads encodings part s (some r) := by
  induction h with
  | simple h => exact .simple h
  | bitfield h => exact .bitfield h
  | object h => exact .object h
  | block => exact .block
  | pointer _ ih => exact .pointer (ih hfull)
  | array hn _ ih => exact .array hn (ih hfull) rfl
  | opaque_ h => exact .opaque_ h
  | empty => cases hfull
  | aggregate hname _ ih => exact .aggregate hname (ih hfull)
  | last _ ih => exact .last (ih hfull)
  | more _ hc _ ih ihmore =>
    obtain ⟨hleft, hright⟩ := Bool.or_eq_false_iff.mp hfull
    exact .more (ih hleft) hc (ihmore hright)

/-- What opens or closes an array, a struct or a union. -/
def isBracket (c : Char) : Bool := c = '[' || c = ']' || c = '{' || c = '}' || c = '(' || c = ')'

/-- The characters that close one. -/
def closers : List Char := [']', '}', ')']

lemma Encodes.exists_head (h : Encodes part s r hollow) : ∃ c t, s = c :: t ∧ c ∉ closers := by
  induction h with
  | @simple c r h =>
    have hall : scalars.all (fun c => c ∉ closers) = true := by decide
    exact ⟨c, r, rfl, of_decide_eq_true (List.all_eq_true.mp hall c (mem_of_scalarKind h))⟩
  | bitfield | object | block | pointer | array => exact ⟨_, _, rfl, by decide⟩
  | @opaque_ k | @empty k | @aggregate k => exact ⟨_, _, rfl, by cases k <;> decide⟩
  | last _ ih | more _ _ _ ih => exact ih

/-- An encoding has characters. -/
lemma Encodes.length_lt (h : Encodes part s r hollow) : r.length < s.length := by
  induction h with
  | simple | object => simp
  | bitfield => simpa [Nat.lt_succ_iff] using (List.dropWhile_sublist _).length_le
  | block =>
    simp only [List.length_cons]
    omega
  | pointer _ ih => exact ih.trans (Nat.lt_succ_self _)
  | array hn _ ih =>
    have hle := length_of_number hn
    simp only [List.length_cons] at ih ⊢
    omega
  | opaque_ | empty =>
    simp only [List.length_cons, List.length_append]
    omega
  | aggregate _ _ ih =>
    simp only [List.length_cons, List.length_append]
    omega
  | last _ ih => exact (Nat.lt_succ_self _).trans ih
  | more _ _ _ ih ihmore => exact ihmore.trans ih

/-! ## Following text -/

/-- A number that ends, or that no digit follows, does not go on. -/
lemma parseLength_append {n k : ℕ} (h : parseLength n s = some (k, t))
    (hr : t = [] → ∀ c ∈ r.head?, isDigit c = false) : parseLength n (s ++ r) = some (k, t ++ r) := by
  induction s generalizing n with
  | nil =>
    cases h
    cases r with
    | nil => rfl
    | cons c r =>
      have hc : ¬ ('0' ≤ c ∧ c ≤ '9') := by simpa [isDigit] using hr rfl c rfl
      rw [List.nil_append, parseLength, if_neg hc]
  | cons c s ih =>
    rw [parseLength] at h
    rw [List.cons_append, parseLength]
    split
    · rename_i hc
      rw [if_pos hc] at h
      simp only [] at h ⊢
      split
      · rename_i hfits
        rw [if_pos hfits] at h
        exact ih h
      · rename_i hfits
        rw [if_neg hfits] at h
        cases h
    · rename_i hc
      rw [if_neg hc] at h
      cases h
      rfl

lemma number_append {n : ℕ} (h : number s = .ok (n, t)) (hr : t = [] → ∀ c ∈ r.head?, isDigit c = false) :
    number (s ++ r) = .ok (n, t ++ r) :=
  number_eq_ok.mpr (parseLength_append (number_eq_ok.mp h) hr)

/-- The text goes on with the encoding: a question mark turns an object into a block, and a digit belongs to the width of
a bit field. -/
def Continues (t r : List Char) : Prop :=
  (t.dropWhile (· == '^') = ['@'] ∧ r.head? = some '?') ∨
    ((t.dropWhile (· == '^')).head? = some 'b' ∧ ∃ c ∈ r.head?, isDigit c)

lemma continues_pointer : Continues ('^' :: t) r ↔ Continues t r := by
  rw [Continues, Continues, List.dropWhile_cons_of_pos rfl]

/-- An encoding is one when something follows it that does not go on with it. -/
lemma Encodes.append (h : Encodes part s t hollow) (hr : part = .type → t = [] → ¬ Continues s r) :
    Encodes part (s ++ r) (t ++ r) hollow := by
  induction h with
  | simple h => exact .simple h
  | @bitfield s h =>
    obtain ⟨⟨n, t, hn⟩, c, hc, hdigit⟩ := h
    have ht := eq_dropWhile_of_number hn
    have hnumber : number (s ++ r) = .ok (n, t ++ r) := by
      refine number_append hn fun hnil d hd => Bool.eq_false_of_not_eq_true fun hdigit => ?_
      exact hr rfl (ht.symm.trans hnil) (Or.inr ⟨rfl, d, hd, hdigit⟩)
    rw [← ht, eq_dropWhile_of_number hnumber]
    refine .bitfield ⟨⟨n, _, hnumber⟩, c, ?_, hdigit⟩
    cases s with
    | nil => cases hc
    | cons d s => exact hc
  | @object s h =>
    refine .object ?_
    cases s with
    | nil => exact fun hhead => hr rfl rfl (Or.inl ⟨rfl, hhead⟩)
    | cons c s => exact h
  | block => exact .block
  | pointer _ ih => exact .pointer (ih fun _ ht hcontinues => hr rfl ht (continues_pointer.mpr hcontinues))
  | array hn h ih =>
    obtain ⟨c, t, rfl, -⟩ := h.exists_head
    exact .array (number_append hn fun hnil => nomatch hnil) (ih fun _ hnil => nomatch hnil)
  | opaque_ h =>
    rw [List.cons_append, List.append_assoc]
    exact .opaque_ h
  | empty h =>
    rw [List.cons_append, List.append_assoc]
    exact .empty h
  | aggregate hname _ ih =>
    rw [List.cons_append, List.append_assoc]
    exact .aggregate hname (ih fun hpart => nomatch hpart)
  | last _ ih => exact .last (ih fun _ hnil => nomatch hnil)
  | more _ hc _ ih ihmore => exact .more (ih fun _ hnil => nomatch hnil) hc (ihmore fun hpart => nomatch hpart)

end MulleObjcRuntime.Signature.Raw
