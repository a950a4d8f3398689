import MulleObjcRuntime.Signature.Encoding
import MulleObjcRuntime.Signature.Parse
import MulleObjcRuntime.Signature.Robust

/-!
# Types of instance variables

What is compared when two instance variables are compared.

* `IvarType` — types with bit fields, with structs and unions that have no members, and with pointers to any encoding;
* `IvarType.leaves` — what a type comes down to: arrays are unrolled, the members of a struct are concatenated, of a
  union there is the first member only, and a pointer is one leaf;
* `IvarType.Agrees` — the same leaves, but for signedness and the kind of object pointer;
* `IvarType.hollow` — whether there is a struct or a union without members in a type;
* `encodes_rest` — the parser finds the encoding again, unless it is hollow.
-/

namespace MulleObjcRuntime.Signature.Raw

/-- An encoding that can be pointed to. -/
structure Pointee where
  chars : List Char
  hollow : Bool
  encodes : Encodes .type chars [] hollow

/-- The length of an array. -/
structure Length where
  digits : List (Fin 10)
  fits : Signature.count 0 digits < 2 ^ 31

/-- The width of a bit field, without leading zeros. -/
structure Width extends Length where
  positive : ∃ d ∈ digits.head?, 0 < d.val

mutual

inductive IvarType
  | scalar (s : Scalar)
  | object
  | block
  | bitfield (width : Width)
  | pointer (pointee : Pointee)
  | array (length : Length) (member : IvarType)
  | memberless (k : Kind) (name : Name k.closing)
  | aggregate (k : Kind) (name : Name k.closing) (members : IvarMembers)

inductive IvarMembers
  | one (member : IvarType)
  | cons (member : IvarType) (members : IvarMembers)

end

mutual

def IvarType.encode : IvarType → List Char
  | .scalar s => [s.char]
  | .object => ['@']
  | .block => ['@', '?']
  | .bitfield w => 'b' :: w.digits.map digitChar
  | .pointer p => '^' :: p.chars
  | .array n t => '[' :: (n.digits.map digitChar ++ (t.encode ++ [']']))
  | .memberless k name => k.opening :: (name.chars ++ ['=', k.closing])
  | .aggregate k name ms => k.opening :: (name.chars ++ '=' :: (ms.encode ++ [k.closing]))

def IvarMembers.encode : IvarMembers → List Char
  | .one t => t.encode
  | .cons t ms => t.encode ++ ms.encode

end

/-! ## Leaves -/

inductive Leaf
  | scalar (s : Scalar)
  | object
  | bits (digits : List (Fin 10))
  | pointer
  deriving DecidableEq

/-- The leaf up to signedness and the kind of object pointer. -/
def Leaf.kind : Leaf → Leaf
  | .scalar .copyId | .scalar .assignId | .scalar .class_ => .object
  | .scalar .uchr => .scalar .chr
  | .scalar .usht => .scalar .sht
  | .scalar .uint => .scalar .int
  | .scalar .ulng => .scalar .lng
  | .scalar .ulngLng => .scalar .lngLng
  | leaf => leaf

mutual

def IvarType.leaves : IvarType → List Leaf
  | .scalar s => [.scalar s]
  | .object | .block => [.object]
  | .bitfield w => [.bits w.digits]
  | .pointer _ => [.pointer]
  | .memberless .. => []
  | .array n t => (List.replicate (count 0 n.digits) t.leaves).flatten
  | .aggregate .struct _ ms => ms.leaves
  | .aggregate .union _ ms => ms.firstLeaves

def IvarMembers.leaves : IvarMembers → List Leaf
  | .one t => t.leaves
  | .cons t ms => t.leaves ++ ms.leaves

def IvarMembers.firstLeaves : IvarMembers → List Leaf
  | .one t | .cons t _ => t.leaves

end

/-- Element by element, the leaves are the same up to signedness and the kind of object pointer. -/
def IvarType.Agrees (a b : IvarType) : Prop := a.leaves.map Leaf.kind = b.leaves.map Leaf.kind

instance (a b : IvarType) : Decidable (a.Agrees b) :=
  inferInstanceAs (Decidable (a.leaves.map Leaf.kind = b.leaves.map Leaf.kind))

/-! ## Nesting -/

mutual

def IvarType.depth : IvarType → ℕ
  | .array _ t => t.depth + 1
  | .memberless .. => 1
  | .aggregate _ _ ms => ms.depth + 1
  | _ => 0

def IvarMembers.depth : IvarMembers → ℕ
  | .one t => t.depth
  | .cons t ms => max t.depth ms.depth

end

mutual

def IvarType.arrayDepth : IvarType → ℕ
  | .array _ t => t.arrayDepth + 1
  | .aggregate _ _ ms => ms.arrayDepth
  | _ => 0

def IvarMembers.arrayDepth : IvarMembers → ℕ
  | .one t => t.arrayDepth
  | .cons t ms => max t.arrayDepth ms.arrayDepth

end

/-! ## Structs and unions without members -/

mutual

def IvarType.hollow : IvarType → Bool
  | .pointer p => p.hollow
  | .array _ t => t.hollow
  | .memberless .. => true
  | .aggregate _ _ ms => ms.hollow
  | _ => false

def IvarMembers.hollow : IvarMembers → Bool
  | .one t => t.hollow
  | .cons t ms => t.hollow || ms.hollow

end

/-! ## Parsing the encoding -/

/-- What may come behind an encoding: it does not go on as a block or as a number. -/
def Follows (s : List Char) : Prop := ∀ c ∈ s.head?, c ≠ '?' ∧ isDigit c = false

/-- The string is the encoding of the type, with extended info in brackets or in quotes behind it. -/
def IvarType.Encodes (t : IvarType) (s : List Char) : Prop :=
  ∃ rest u r, s = t.encode ++ rest ∧ Follows rest ∧ Bracketed '<' '>' rest u ∧ Bracketed '"' '"' u r

section Follows

variable {s t r : List Char} {g : Grammar} {part : Part} {o : Option (List Char)}

lemma Follows.not_continues (h : Follows r) : ¬ Continues t r := by
  rintro (⟨-, hr⟩ | ⟨-, c, hc, hdigit⟩)
  · exact (h '?' hr).1 rfl
  · exact absurd hdigit (Bool.eq_false_iff.mp (h c hc).2)

lemma IvarType.follows_encode (t : IvarType) (s : List Char) : Follows (t.encode ++ s) := by
  cases t with
  | scalar sc =>
    rintro c ⟨⟩
    cases sc <;> decide
  | memberless k | aggregate k =>
    rintro c ⟨⟩
    cases k <;> decide
  | object | block | bitfield | pointer | array =>
    rintro c ⟨⟩
    decide

lemma IvarMembers.follows_encode (ms : IvarMembers) (s : List Char) : Follows (ms.encode ++ s) := by
  cases ms with
  | one t => exact t.follows_encode s
  | cons t ms =>
    rw [IvarMembers.encode, List.append_assoc]
    exact t.follows_encode _

lemma IvarType.encode_ne_nil (t : IvarType) : t.encode ≠ [] := by
  cases t <;> exact List.cons_ne_nil _ _

lemma IvarMembers.encode_ne_nil (ms : IvarMembers) : ms.encode ≠ [] := by
  cases ms with
  | one t => exact t.encode_ne_nil
  | cons t ms => exact List.append_ne_nil_of_left_ne_nil t.encode_ne_nil _

lemma parseLength_map (n : ℕ) (digits : List (Fin 10)) (hfits : count n digits < 2 ^ 31) :
    parseLength n (digits.map digitChar) = some (count n digits, []) := by
  induction digits generalizing n with
  | nil => rfl
  | cons d digits ih =>
    obtain ⟨hdigit, hvalue⟩ := digitChar_digit d
    have hle : n * 10 + (d : ℕ) ≤ count n (d :: digits) := le_count (n * 10 + d) digits
    rw [List.map_cons, parseLength, if_pos hdigit, hvalue]
    simp only [show n * 10 + (d : ℕ) < 2 ^ 31 by omega, if_true]
    exact ih (n * 10 + d) hfits

lemma Length.number_eq (n : Length) (hs : Follows s) :
    number (n.digits.map digitChar ++ s) = .ok (count 0 n.digits, s) :=
  number_append (number_eq_ok.mpr (parseLength_map 0 n.digits n.fits)) fun _ c hc => (hs c hc).2

end Follows

lemma follows_cons {c : Char} (hc : c ≠ '?' ∧ isDigit c = false) (s : List Char) : Follows (c :: s) := by
  rintro d ⟨⟩
  exact hc

lemma Kind.follows_closing (k : Kind) (s : List Char) : Follows (k.closing :: s) :=
  follows_cons (by cases k <;> decide) s

lemma IvarType.encode_head (t : IvarType) : ∃ c s, t.encode = c :: s ∧ ∀ k : Kind, c ≠ k.closing := by
  cases t with
  | scalar sc => exact ⟨_, _, rfl, by rintro ⟨⟩ <;> cases sc <;> decide⟩
  | memberless k | aggregate k => exact ⟨_, _, rfl, by rintro ⟨⟩ <;> cases k <;> decide⟩
  | object | block | bitfield | pointer | array => exact ⟨_, _, rfl, by rintro ⟨⟩ <;> decide⟩

lemma IvarMembers.encode_head (ms : IvarMembers) : ∃ c s, ms.encode = c :: s ∧ ∀ k : Kind, c ≠ k.closing := by
  cases ms with
  | one t => exact t.encode_head
  | cons t ms =>
    obtain ⟨c, s, hs, hc⟩ := t.encode_head
    exact ⟨c, s ++ ms.encode, by rw [IvarMembers.encode, hs, List.cons_append], hc⟩

mutual

/-- **The encoding is found again.**  If there is a struct or a union without members in it, this is not so for the
parser. -/
theorem encodes_rest : ∀ (t : IvarType) {rest : List Char}, Follows rest →
    Encodes .type (t.encode ++ rest) rest t.hollow
  | .scalar s, rest, _ => .simple (show scalarKind s.char = 0 by cases s <;> decide)
  | .object, rest, h => .object fun hhead => (h '?' hhead).1 rfl
  | .block, rest, _ => .block
  | .bitfield w, rest, h => by
    have hnumber := w.number_eq h
    have hwidth : encodings.width (w.digits.map digitChar ++ rest) := by
      obtain ⟨d, hd, -⟩ := w.positive
      obtain ⟨digits, hdigits⟩ := List.head?_eq_some_iff.mp hd
      refine ⟨⟨_, _, hnumber⟩, digitChar d, ?_, ?_⟩
      · rw [hdigits]
        rfl
      · simpa [isDigit] using (digitChar_digit d).1
    have hencodes : Encodes .type _ _ false := .bitfield hwidth
    rwa [← eq_dropWhile_of_number hnumber] at hencodes
  | .pointer p, rest, h => .pointer (p.encodes.append fun _ _ => h.not_continues)
  | .array n t, rest, h => by
    have hmember := encodes_rest t (follows_cons (by decide) rest : Follows (']' :: rest))
    rw [IvarType.encode, List.cons_append, List.append_assoc, List.append_assoc]
    exact .array (n.number_eq (t.follows_encode _)) hmember
  | .memberless k name, rest, h => by
    rw [IvarType.encode, List.cons_append, List.append_assoc]
    exact .empty name.free
  | .aggregate k name ms, rest, h => by
    have hmembers := encodesMembers_rest ms k rest
    rw [IvarType.encode, List.cons_append, List.append_assoc, List.cons_append, List.append_assoc]
    exact .aggregate name.free hmembers

theorem encodesMembers_rest : ∀ (ms : IvarMembers) (k : Kind) (rest : List Char),
    Encodes (.members k) (ms.encode ++ k.closing :: rest) rest ms.hollow
  | .one t, k, rest => .last (encodes_rest t (k.follows_closing rest))
  | .cons t ms, k, rest => by
    obtain ⟨c, s, hs, hc⟩ := ms.encode_head
    have htype := encodes_rest t (ms.follows_encode (k.closing :: rest))
    have hmembers := encodesMembers_rest ms k rest
    rw [hs] at htype hmembers
    rw [IvarMembers.encode, List.append_assoc, hs]
    exact .more htype (hc k) hmembers

end

/-! ### Brackets -/

lemma exists_isBracket_of_encodes {s r : List Char} {hollow : Bool} (h : Encodes .type s r hollow)
    (hhollow : hollow = true) : ∃ c ∈ s, isBracket c = true := by
  have hopening : ∀ k : Kind, isBracket k.opening = true := by
    intro k
    cases k <;> rfl
  generalize hpart : Part.type = part at h
  induction h with
  | pointer _ ih =>
    obtain ⟨c, hc, hbracket⟩ := ih hhollow rfl
    exact ⟨c, List.mem_cons_of_mem _ hc, hbracket⟩
  | array => exact ⟨'[', List.mem_cons_self, rfl⟩
  | @empty k | @aggregate k => exact ⟨k.opening, List.mem_cons_self, hopening k⟩
  | simple | bitfield | object | block | opaque_ => cases hhollow
  | last | more => cases hpart

lemma IvarType.exists_isBracket {t : IvarType} (h : t.hollow = true) : ∃ c ∈ t.encode, isBracket c = true := by
  cases t with
  | pointer p =>
    obtain ⟨c, hc, hbracket⟩ := exists_isBracket_of_encodes p.encodes h
    exact ⟨c, List.mem_cons_of_mem _ hc, hbracket⟩
  | array => exact ⟨'[', List.mem_cons_self, rfl⟩
  | memberless k | aggregate k => exact ⟨k.opening, List.mem_cons_self, by cases k <;> rfl⟩
  | scalar | object | block | bitfield => cases h

lemma IvarMembers.exists_isBracket : ∀ {ms : IvarMembers}, ms.hollow = true → ∃ c ∈ ms.encode, isBracket c = true
  | .one _, h => IvarType.exists_isBracket h
  | .cons _ _, h => by
    rcases (Bool.or_eq_true _ _).mp h with h | h
    · obtain ⟨c, hc, hbracket⟩ := IvarType.exists_isBracket h
      exact ⟨c, List.mem_append_left _ hc, hbracket⟩
    · obtain ⟨c, hc, hbracket⟩ := IvarMembers.exists_isBracket h
      exact ⟨c, List.mem_append_right _ hc, hbracket⟩

end MulleObjcRuntime.Signature.Raw
