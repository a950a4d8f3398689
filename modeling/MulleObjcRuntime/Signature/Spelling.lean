import MulleObjcRuntime.Signature.Encoding
import MulleObjcRuntime.Signature.Reading

/-!
# Signatures in their parts

A well formed signature is a sequence of types, and each type has its pure text, its extended info and its offset.

* `Extended`, `Offset` — what follows a type;
* `Spelling`, `Spells` — the parts of a signature, structs and unions without members included;
* `Methodsignature` — the signature of a method: a return type, the receiver, the selector and parameters;
* `Typeinfo`, `supplyInfo` — what `_mulle_objc_signature_supply_typeinfo` writes about the text of a type;
* `Spells.supplyInfo` — for a signature, these are its parts.
-/

namespace MulleObjcRuntime.Signature.Raw

/-! ## What follows a type -/

/-- Extended info, in angle brackets or in quotes. -/
inductive Extended : List Char → List Char → Prop
  | angles {body s} (h : ∀ c ∈ body, c ≠ '>') : Extended ('<' :: (body ++ '>' :: s)) s
  | quotes {body s} (h : ∀ c ∈ body, c ≠ '"') : Extended ('"' :: (body ++ '"' :: s)) s

/-- An offset: a sign and digits, where both may be missing. -/
def Offset (s r : List Char) : Prop :=
  ∃ sign digits, (sign = [] ∨ sign = ['-'] ∨ sign = ['+']) ∧ (∀ c ∈ digits, isDigit c = true) ∧ s = sign ++ (digits ++ r)

/-- What a type may start with, extended info and offsets do not start with. -/
def Stops (s : List Char) : Prop := ∀ c ∈ s.head?, c ≠ '<' ∧ c ≠ '"' ∧ c ≠ '-' ∧ c ≠ '+' ∧ isDigit c = false

/-- The text between the type and its offset: nothing, or extended info. -/
def IsExtended (extended r : List Char) : Prop := extended = [] ∨ Extended (extended ++ r) r

section Trailing

variable {s t u r : List Char} {hollow : Bool}

lemma Encodes.stops (h : Encodes .type s r hollow) : Stops s := by
  have hall : scalars.all (fun c => c ≠ '<' ∧ c ≠ '"' ∧ c ≠ '-' ∧ c ≠ '+' ∧ isDigit c = false) = true := by decide
  generalize hpart : Part.type = part at h
  cases h with
  | simple h =>
    rintro c ⟨⟩
    exact of_decide_eq_true (List.all_eq_true.mp hall _ (mem_of_scalarKind h))
  | @opaque_ k | @empty k | @aggregate k =>
    rintro c ⟨⟩
    cases k <;> decide
  | bitfield | object | block | pointer | array =>
    rintro c ⟨⟩
    decide
  | last | more => cases hpart

lemma Stops.dropWhile (h : Stops s) : s.dropWhile isDigit = s := by
  cases s with
  | nil => rfl
  | cons c s =>
    obtain ⟨-, -, -, -, hdigit⟩ := h c rfl
    rw [List.dropWhile_cons_of_neg (Bool.not_eq_true _ ▸ hdigit)]

lemma skipPast_body {close : Char} {body : List Char} (h : ∀ c ∈ body, c ≠ close) (s : List Char) :
    skipPast close (body ++ close :: s) = some s := by
  induction body with
  | nil => exact if_pos rfl
  | cons c body ih =>
    rw [List.cons_append, skipPast, if_neg (h c (List.mem_cons_self ..))]
    exact ih fun c hc => h c (List.mem_cons_of_mem _ hc)

lemma head_of_digits {digits : List Char} (hdigits : ∀ c ∈ digits, isDigit c = true) (hr : Stops r) :
    ∀ c ∈ (digits ++ r).head?, c ≠ '<' ∧ c ≠ '"' ∧ c ≠ '-' ∧ c ≠ '+' := by
  cases digits with
  | nil => exact fun c hc => ⟨(hr c hc).1, (hr c hc).2.1, (hr c hc).2.2.1, (hr c hc).2.2.2.1⟩
  | cons d digits =>
    rintro c ⟨⟩
    have hdigit := hdigits d (List.mem_cons_self ..)
    refine ⟨?_, ?_, ?_, ?_⟩
    all_goals
      rintro rfl
      exact absurd hdigit (by decide)

lemma Offset.head (h : Offset s r) (hr : Stops r) : ∀ c ∈ s.head?, c ≠ '<' ∧ c ≠ '"' := by
  obtain ⟨sign, digits, rfl | rfl | rfl, hdigits, rfl⟩ := h
  · exact fun c hc => ⟨(head_of_digits hdigits hr c hc).1, (head_of_digits hdigits hr c hc).2.1⟩
  · rintro c ⟨⟩
    decide
  · rintro c ⟨⟩
    decide

lemma skipOffset_eq (h : Offset s r) (hr : Stops r) : skipOffset s = r := by
  obtain ⟨sign, digits, hsign, hdigits, rfl⟩ := h
  have hdrop : (digits ++ r).dropWhile isDigit = r := by
    rw [List.dropWhile_append_of_pos hdigits, hr.dropWhile]
  have hminus : (digits ++ r).head? ≠ some '-' := fun h => (head_of_digits hdigits hr _ h).2.2.1 rfl
  have hplus : (digits ++ r).head? ≠ some '+' := fun h => (head_of_digits hdigits hr _ h).2.2.2 rfl
  generalize digits ++ r = t at hdrop hminus hplus ⊢
  rcases hsign with rfl | rfl | rfl
  · simp [skipOffset, hminus, hplus, hdrop]
  · simp [skipOffset, hplus, hdrop]
  · simp [skipOffset, hdrop]

lemma skipQuotes_of_head (h : ∀ c ∈ s.head?, c ≠ '"') : skipQuotes s = .ok s := by
  unfold skipQuotes
  split
  · exact absurd rfl (h '"' rfl)
  · rfl

lemma skipAngles_of_head (h : ∀ c ∈ s.head?, c ≠ '<') : skipAngles s = some s := by
  unfold skipAngles
  split
  · exact absurd rfl (h '<' rfl)
  · rfl

lemma skip_of_extended (h : Extended t u) (hu : ∀ c ∈ u.head?, c ≠ '<' ∧ c ≠ '"') :
    ∃ v, skipAngles t = some v ∧ skipQuotes v = .ok u := by
  cases h with
  | angles h =>
    refine ⟨u, ?_, skipQuotes_of_head fun c hc => (hu c hc).2⟩
    rw [skipAngles, skipPast_body h]
  | quotes h =>
    refine ⟨_, rfl, ?_⟩
    rw [skipQuotes, skipPast_body h]

lemma Offset.refl : Offset r r := ⟨[], [], .inl rfl, by simp, rfl⟩

lemma Offset.length_le (h : Offset s r) : r.length ≤ s.length := by
  obtain ⟨sign, digits, -, -, rfl⟩ := h
  simp only [List.length_append]
  omega

lemma Extended.length_lt (h : Extended t u) : u.length < t.length := by
  cases h
  all_goals
    simp only [List.length_cons, List.length_append]
    omega

lemma IsExtended.cases {e r : List Char} (h : IsExtended e r) :
    e = [] ∨ (∃ body, e = '<' :: (body ++ ['>']) ∧ ∀ c ∈ body, c ≠ '>') ∨
      ∃ body, e = '"' :: (body ++ ['"']) ∧ ∀ c ∈ body, c ≠ '"' := by
  rcases h with rfl | h
  · exact .inl rfl
  · generalize hs : e ++ r = s at h
    cases h with
    | @angles body r h =>
      have happend : e ++ r = '<' :: (body ++ ['>']) ++ r := by simpa using hs
      exact .inr (.inl ⟨body, List.append_cancel_right happend, h⟩)
    | @quotes body r h =>
      have happend : e ++ r = '"' :: (body ++ ['"']) ++ r := by simpa using hs
      exact .inr (.inr ⟨body, List.append_cancel_right happend, h⟩)

lemma Offset.mem {offset : List Char} (h : Offset (offset ++ r) r) :
    ∀ c ∈ offset, c = '-' ∨ c = '+' ∨ isDigit c = true := by
  obtain ⟨sign, digits, hsign, hdigits, heq⟩ := h
  rw [← List.append_assoc] at heq
  rw [List.append_cancel_right heq]
  intro c hc
  rcases List.mem_append.mp hc with hc | hc
  · rcases hsign with rfl | rfl | rfl
    · cases hc
    · exact Or.inl (List.mem_singleton.mp hc)
    · exact Or.inr (Or.inl (List.mem_singleton.mp hc))
  · exact Or.inr (Or.inr (hdigits c hc))

end Trailing

/-! ## The parts -/

/-- A type of a signature: its pure text, the extended info and the offset, and whether there is a struct or a union without
members in it. -/
structure Spelling where
  pure : List Char
  extended : List Char
  offset : List Char
  hollow : Bool
deriving DecidableEq

/-- The string is a sequence of types with these parts. -/
inductive Spells : List Char → List Spelling → Prop
  | nil : Spells [] []
  | cons {pure extended offset r hollow types}
    (htype : Encodes .type (pure ++ (extended ++ (offset ++ r))) (extended ++ (offset ++ r)) hollow)
    (hextended : IsExtended extended (offset ++ r)) (hoffset : Offset (offset ++ r) r) (h : Spells r types) :
    Spells (pure ++ (extended ++ (offset ++ r))) (⟨pure, extended, offset, hollow⟩ :: types)

/-- None of the types has a struct or a union without members in it. -/
def Full (types : List Spelling) : Prop := ∀ t ∈ types, t.hollow = false

instance : DecidablePred Full := fun types => inferInstanceAs (Decidable (∀ t ∈ types, t.hollow = false))

/-- The signature of a method.  The receiver and the selector are the first two arguments. -/
structure Methodsignature where
  text : List Char
  rval : Spelling
  self : Spelling
  cmd : Spelling
  params : List Spelling
  spells : Spells text (rval :: self :: cmd :: params)

/-- All arguments. -/
def Methodsignature.args (m : Methodsignature) : List Spelling := m.self :: m.cmd :: m.params

/-- All types. -/
def Methodsignature.types (m : Methodsignature) : List Spelling := m.rval :: m.args

section Spells

variable {s r pure extended offset : List Char} {types : List Spelling} {t : Spelling} {hollow : Bool}

lemma full_cons : Full (t :: types) ↔ t.hollow = false ∧ Full types := List.forall_mem_cons

lemma Spells.stops (h : Spells s types) : Stops s := by
  cases h with
  | nil => exact fun c hc => nomatch hc
  | cons htype => exact htype.stops

lemma Spells.length_lt
    (htype : Encodes .type (pure ++ (extended ++ (offset ++ r))) (extended ++ (offset ++ r)) hollow) :
    r.length < (pure ++ (extended ++ (offset ++ r))).length := by
  have hlt := htype.length_lt
  simp only [List.length_append] at hlt ⊢
  omega

lemma Offset.digits {digits : List Char} (h : digits.all isDigit = true) (r : List Char) : Offset (digits ++ r) r :=
  ⟨[], digits, .inl rfl, List.all_eq_true.mp h, rfl⟩

lemma Spells.character (c : Char) (digits : List Char) (htype : Encodes .type (c :: (digits ++ r)) (digits ++ r) false)
    (hdigits : digits.all isDigit = true) (h : Spells r types) :
    Spells (c :: (digits ++ r)) (⟨[c], [], digits, false⟩ :: types) :=
  @Spells.cons [c] [] digits r false types htype (.inl rfl) (.digits hdigits r) h

lemma Spells.scalar (c : Char) (digits : List Char) (hc : scalarKind c = 0) (hdigits : digits.all isDigit = true)
    (h : Spells r types) : Spells (c :: (digits ++ r)) (⟨[c], [], digits, false⟩ :: types) :=
  .character c digits (.simple hc) hdigits h

end Spells

/-! ## What is supplied -/

/-- `mulle_objc_typeinfo`, as far as it points into the signature. -/
structure Typeinfo where
  type : List Char
  pureTypeEnd : List Char
deriving DecidableEq

/-- `_mulle_objc_signature_supply_typeinfo` with an info: what it points to, and the next type. -/
def supplyInfo (ndebug : Bool) (types : List Char) : Reading (Option (Typeinfo × List Char)) :=
  typeParse ndebug (types.length + 1) 0 true (.rest types) >>= fun
    | .null => .ok none
    | .behind => .error .overrun
    | .rest pureTypeEnd =>
      match skipAngles pureTypeEnd with
      | none => .ok none
      | some next => do
        let next ← skipQuotes next
        return some (⟨types, pureTypeEnd⟩, skipOffset next)

section

variable {ndebug : Bool} {s : List Char} {types : List Spelling}

/-- The next type is that of `supplyTypeinfo`. -/
theorem supplyInfo_next (ndebug : Bool) (types : List Char) :
    (supplyInfo ndebug types).map (fun o => Pointer.ofRest (o.map Prod.snd)) = supplyTypeinfo ndebug 0 true types := by
  unfold supplyInfo supplyTypeinfo
  cases typeParse ndebug (types.length + 1) 0 true (.rest types) with
  | error e => rfl
  | ok p =>
    cases p with
    | null => rfl
    | behind => rfl
    | rest next =>
      simp only [bind, Except.bind]
      cases skipAngles next with
      | none => rfl
      | some next =>
        simp only
        cases skipQuotes next <;> rfl

lemma supplyInfo_nil : supplyInfo ndebug [] = .ok none := rfl

lemma supplyInfo_eq {t u v r : List Char} (htype : Reads encodings .type s (some t)) (hangles : skipAngles t = some v)
    (hquotes : skipQuotes v = .ok u) (hoffset : Offset u r) (hr : Stops r) :
    supplyInfo ndebug s = .ok (some (⟨s, t⟩, r)) := by
  have hparse : typeParse ndebug (s.length + 1) 0 true (.rest s) = .ok (.ofRest (some t)) :=
    typeParse_eq htype (accepted_encodings true) (Nat.lt_succ_self _) 0
  unfold supplyInfo
  simp only [hparse, bind, Except.bind, Pointer.ofRest, hangles, hquotes]
  rw [skipOffset_eq hoffset hr]
  rfl

/-- **The parts of a signature are found.** -/
theorem Spells.supplyInfo (ndebug : Bool) {pure extended offset r : List Char}
    (htype : Reads encodings .type (pure ++ (extended ++ (offset ++ r))) (some (extended ++ (offset ++ r))))
    (hextended : IsExtended extended (offset ++ r)) (hoffset : Offset (offset ++ r) r) (hr : Stops r) :
    supplyInfo ndebug (pure ++ (extended ++ (offset ++ r))) =
      .ok (some (⟨pure ++ (extended ++ (offset ++ r)), extended ++ (offset ++ r)⟩, r)) := by
  have hhead := hoffset.head hr
  rcases hextended with rfl | hextended
  · exact supplyInfo_eq htype (skipAngles_of_head fun c hc => (hhead c hc).1)
      (skipQuotes_of_head fun c hc => (hhead c hc).2) hoffset hr
  · obtain ⟨v, hangles, hquotes⟩ := skip_of_extended hextended hhead
    exact supplyInfo_eq htype hangles hquotes hoffset hr

end

end MulleObjcRuntime.Signature.Raw
