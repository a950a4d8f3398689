import MulleObjcRuntime.Lib.Nesting
import MulleObjcRuntime.Signature.Spelling

/-!
# Comparing two types by their text

* `typeIsEqualToType` — the comparison, which does not parse the types;
* `Encoding` — the text of a type, in which brackets are nested; structs and unions may be without members;
* `LeadingType` — a string that starts with a type, up to the next type or offset;
* `LeadingType.Comparable` — when the comparison gets two types right;
* `typeIsEqualToType_iff` — it does then, and only then.
-/

namespace MulleObjcRuntime.Signature.Raw

open Lib.Nesting

/-! ## The comparison -/

/-- `_C_STRUCT_B`, `_C_UNION_B` and `_C_ARY_B` -/
def opensBracket (c : Char) : Bool := c = '{' || c = '(' || c = '['

/-- `_C_STRUCT_E`, `_C_UNION_E` and `_C_ARY_E` -/
def closesBracket (c : Char) : Bool := c = '}' || c = ')' || c = ']'

/-- The types that may have protocols behind them. -/
def isObjectType (c : Char) : Bool := c = '@' || c = '=' || c = '~'

/-- The loop over the protocols of an object: the strings are compared up to the next `>` of the first one. -/
def equalProtocols : List Char → List Char → Bool
  | c :: a, d :: b => if c ≠ d then false else if a.head? = some '>' then true else equalProtocols a b
  | _, _ => false

/-- The loop over the text of a struct, a union or an array: the brackets are counted. -/
def equalBrackets : ℕ → List Char → List Char → Bool
  | level, c :: a, d :: b =>
    if c ≠ d then false
    else if opensBracket c then equalBrackets (level + 1) a b
    else if closesBracket c then if level ≤ 1 then true else equalBrackets (level - 1) a b
    else equalBrackets level a b
  | _, _, _ => false

/-- `_mulle_objc_type_is_equal_to_type` -/
def typeIsEqualToType : List Char → List Char → Bool
  | c :: a, d :: b =>
    if c ≠ d then false
    else if isObjectType c then if a.head? ≠ some '<' then true else equalProtocols a b
    else if opensBracket c then equalBrackets 1 a b
    else true
  | a, b => a.isEmpty && b.isEmpty

/-! ## Types -/

/-- The text of a type, or of the members of a struct or a union.  The brackets in a name are nested. -/
inductive Encoding : Part → List Char → Prop
  | simple {c} (h : scalarKind c = 0) : Encoding .type [c]
  | bitfield {digits} (h : ∀ c ∈ digits, isDigit c = true) : Encoding .type ('b' :: digits)
  | object : Encoding .type ['@']
  | block : Encoding .type ['@', '?']
  | pointer {p} (h : Encoding .type p) : Encoding .type ('^' :: p)
  | array {digits p} (hdigits : ∀ c ∈ digits, isDigit c = true) (h : Encoding .type p) :
    Encoding .type ('[' :: (digits ++ p ++ [']']))
  | opaque_ {k : Kind} {name} (hname : Nested opensBracket closesBracket name) :
    Encoding .type (k.opening :: (name ++ [k.closing]))
  | empty {k : Kind} {name} (hname : Nested opensBracket closesBracket name) :
    Encoding .type (k.opening :: (name ++ ['='] ++ [k.closing]))
  | aggregate {k : Kind} {name ms} (hname : Nested opensBracket closesBracket name) (h : Encoding (.members k) ms) :
    Encoding .type (k.opening :: (name ++ '=' :: ms ++ [k.closing]))
  | last {k p} (h : Encoding .type p) : Encoding (.members k) p
  | more {k p ms} (h : Encoding .type p) (hmore : Encoding (.members k) ms) : Encoding (.members k) (p ++ ms)

/-- A string that starts with a type.  What follows its extended info is an offset or the next type. -/
structure LeadingType where
  pure : List Char
  extended : List Char
  rest : List Char
  hollow : Bool
  encoding : Encoding .type pure
  encodes : Encodes .type (pure ++ (extended ++ rest)) (extended ++ rest) hollow
  isExtended : IsExtended extended rest
  head_rest : ∀ c ∈ rest.head?, c ≠ '<' ∧ c ≠ '"'

namespace LeadingType

variable (a b : LeadingType)

/-- The whole string -/
def text : List Char := a.pure ++ (a.extended ++ a.rest)

/-- The type, up to where the next type or the offset starts -/
def lead : List Char := a.pure ++ a.extended

/-- The type is an object with protocols in angle brackets. -/
def HasProtocols : Prop := (∃ c ∈ a.pure.head?, isObjectType c = true) ∧ a.lead.tail.head? = some '<'

/-- The type is a struct, a union or an array. -/
def HasBrackets : Prop := ∃ c ∈ a.pure.head?, opensBracket c = true

/-- When the comparison gets two types right: they start with different characters, or they are the same, or they are
bracketed types that differ, or the second one does not go on from the protocols of the first one. -/
def Comparable : Prop :=
  a.pure.head? = b.pure.head? →
    a.lead = b.lead ∨ a.HasBrackets ∧ a.pure ≠ b.pure ∨ a.HasProtocols ∧ ¬ a.lead.dropLast <+: b.lead

end LeadingType

/-! ## Brackets -/

section Brackets

variable {p q : List Char} {part : Part}

lemma nested_digits {digits : List Char} (h : ∀ c ∈ digits, isDigit c = true) :
    Nested opensBracket closesBracket digits := by
  apply Nested.of_plain
  intro c hc
  have hdigit := h c hc
  have hbrackets : ['{', '(', '[', '}', ')', ']'].all (isDigit · = false) = true := by decide
  have hne : ∀ d ∈ ['{', '(', '[', '}', ')', ']'], c ≠ d := by
    rintro d hd rfl
    rw [of_decide_eq_true (List.all_eq_true.mp hbrackets c hd)] at hdigit
    cases hdigit
  simp only [List.forall_mem_cons] at hne
  simp [opensBracket, closesBracket, hne]

lemma Kind.opensBracket_opening (k : Kind) : opensBracket k.opening = true := by cases k <;> rfl

lemma Kind.opensBracket_closing (k : Kind) : opensBracket k.closing = false := by cases k <;> rfl

lemma Kind.closesBracket_closing (k : Kind) : closesBracket k.closing = true := by cases k <;> rfl

lemma plain_of_scalarKind {c : Char} (h : scalarKind c = 0) : opensBracket c = false ∧ closesBracket c = false := by
  have hall : scalars.all (fun c => opensBracket c = false ∧ closesBracket c = false) = true := by decide
  exact of_decide_eq_true (List.all_eq_true.mp hall c (mem_of_scalarKind h))

/-- **The brackets of a type are nested.** -/
theorem Encoding.nested (h : Encoding part p) : Nested opensBracket closesBracket p := by
  induction h with
  | simple h => exact .plain (plain_of_scalarKind h).1 (plain_of_scalarKind h).2 .nil
  | bitfield h => exact .plain rfl rfl (nested_digits h)
  | object => exact .plain rfl rfl .nil
  | block => exact .plain rfl rfl (.plain rfl rfl .nil)
  | pointer _ ih => exact .plain rfl rfl ih
  | array hdigits _ ih => exact .bracket rfl ((nested_digits hdigits).append ih) rfl rfl .nil
  | @opaque_ k _ hname =>
    exact .bracket k.opensBracket_opening hname k.opensBracket_closing k.closesBracket_closing .nil
  | @empty k _ hname =>
    exact .bracket k.opensBracket_opening (hname.append (.plain rfl rfl .nil)) k.opensBracket_closing
      k.closesBracket_closing .nil
  | @aggregate k _ _ hname _ ih =>
    exact .bracket k.opensBracket_opening (hname.append (.plain rfl rfl ih)) k.opensBracket_closing
      k.closesBracket_closing .nil
  | last _ ih => exact ih
  | more _ _ ih ihmore => exact ih.append ihmore

end Brackets

/-! ## The first character -/

section Heads

variable {c : Char} {p : List Char}

lemma Encoding.exists_cons (h : Encoding .type p) : ∃ c q, p = c :: q := by
  cases h <;> exact ⟨_, _, rfl⟩

/-- What starts with a bracket ends with the bracket that closes it. -/
lemma Encoding.bracket (h : Encoding .type (c :: p)) (hc : opensBracket c = true) :
    ∃ body d, p = body ++ [d] ∧ Nested opensBracket closesBracket body ∧ opensBracket d = false ∧
      closesBracket d = true := by
  generalize hs : c :: p = s at h
  generalize hpart : Part.type = part at h
  cases h with
  | simple h =>
    cases hs
    rw [(plain_of_scalarKind h).1] at hc
    cases hc
  | bitfield | object | block | pointer =>
    cases hs
    cases hc
  | array hdigits h =>
    cases hs
    exact ⟨_, _, rfl, (nested_digits hdigits).append h.nested, rfl, rfl⟩
  | @opaque_ k name hname =>
    cases hs
    exact ⟨_, _, rfl, hname, k.opensBracket_closing, k.closesBracket_closing⟩
  | @empty k name hname =>
    cases hs
    exact ⟨_, _, rfl, hname.append (.plain rfl rfl .nil), k.opensBracket_closing, k.closesBracket_closing⟩
  | @aggregate k name ms hname h =>
    cases hs
    exact ⟨_, _, rfl, hname.append (.plain rfl rfl h.nested), k.opensBracket_closing, k.closesBracket_closing⟩
  | last | more => cases hpart

lemma Encoding.object_eq (h : Encoding .type (c :: p)) (hc : isObjectType c = true) : p = [] ∨ p = ['?'] := by
  generalize hs : c :: p = s at h
  generalize hpart : Part.type = part at h
  cases h with
  | simple | object =>
    cases hs
    exact .inl rfl
  | block =>
    cases hs
    exact .inr rfl
  | bitfield | pointer | array =>
    cases hs
    cases hc
  | @opaque_ k | @empty k | @aggregate k =>
    cases hs
    cases k <;> cases hc
  | last | more => cases hpart

end Heads

/-! ## The loops -/

section Loops

variable {level : ℕ} {a b u body r : List Char}

/-- The loop compares what the brackets of the first string enclose. -/
lemma equalBrackets_iff :
    equalBrackets level a b = true ↔ ∃ p, enclosed opensBracket closesBracket level a = some p ∧ p <+: b := by
  induction a generalizing level b with
  | nil => simp [equalBrackets, enclosed]
  | cons c a ih =>
    rw [enclosed]
    cases b with
    | nil => simp [equalBrackets]
    | cons d b =>
      rw [equalBrackets, exists_map_cons_prefix]
      by_cases hcd : c = d
      · rw [if_neg (not_not.mpr hcd)]
        split
        · simpa [hcd] using ih
        · split
          · split
            · simp [hcd]
            · simpa [hcd] using ih
          · simpa [hcd] using ih
      · simp [hcd]

lemma equalProtocols_iff (hbody : ∀ c ∈ body, c ≠ '>') (c : Char) :
    equalProtocols (c :: (body ++ '>' :: r)) b = true ↔ c :: body <+: b := by
  induction body generalizing c b with
  | nil =>
    cases b with
    | nil => simp [equalProtocols]
    | cons d b => simp [equalProtocols]
  | cons e body ih =>
    obtain ⟨he, hbody⟩ := List.forall_mem_cons.mp hbody
    cases b with
    | nil => simp [equalProtocols]
    | cons d b =>
      have hnext : (e :: (body ++ '>' :: r)).head? ≠ some '>' := fun h => he (Option.some.inj h)
      rw [List.cons_append, equalProtocols, if_neg hnext, List.cons_prefix_cons]
      by_cases hcd : c = d
      · simpa [hcd] using ih hbody e
      · simp [hcd]

end Loops

/-! ## The three kinds of types -/

section Kinds

lemma prefix_of_prefix_append {body u r : List Char} (hbody : ∀ c ∈ body, c ≠ '>') (h : body <+: u ++ '>' :: r) :
    body <+: u := by
  have hu : u ++ ['>'] <+: u ++ '>' :: r := ⟨r, by simp⟩
  rcases List.prefix_or_prefix_of_prefix h hu with h | h
  · rcases List.prefix_concat_iff.mp h with rfl | h
    · exact absurd rfl (hbody '>' (by simp))
    · exact h
  · exact absurd rfl (hbody '>' (h.subset (by simp)))

end Kinds

namespace LeadingType

variable {a b : LeadingType} {c : Char} {p q : List Char}

lemma text_eq (ha : a.pure = c :: p) : a.text = c :: (p ++ (a.extended ++ a.rest)) := by
  rw [text, ha]
  rfl

lemma lead_eq (ha : a.pure = c :: p) : a.lead = c :: (p ++ a.extended) := by
  rw [lead, ha]
  rfl

section Brackets

variable (hc : opensBracket c = true) (ha : a.pure = c :: p)
include hc ha

lemma enclosed_tail (s : List Char) : enclosed opensBracket closesBracket 1 (p ++ s) = some p := by
  have hencoding := a.encoding
  rw [ha] at hencoding
  obtain ⟨body, d, rfl, hnested, hopens, hcloses⟩ := hencoding.bracket hc
  rw [List.append_assoc]
  exact hnested.enclosed_bracket hopens hcloses s

lemma tail_eq_of_append_eq (hb : b.pure = c :: q) {s t : List Char} (h : p ++ s = q ++ t) : p = q := by
  have hp := enclosed_tail hc ha s
  rw [h, enclosed_tail hc hb t] at hp
  exact (Option.some.inj hp).symm

lemma equal_of_brackets (hb : b.pure = c :: q) : typeIsEqualToType a.text b.text = true ↔ a.pure = b.pure := by
  have hobject : isObjectType c = false := by
    simp only [opensBracket, Bool.or_eq_true, decide_eq_true_eq] at hc
    rcases hc with (rfl | rfl) | rfl <;> rfl
  rw [text_eq ha, text_eq hb, typeIsEqualToType, if_neg (not_not.mpr rfl), hobject, if_neg Bool.false_ne_true, if_pos hc,
    equalBrackets_iff, enclosed_tail hc ha, ha, hb, List.cons.injEq]
  constructor
  · rintro ⟨_, ⟨⟩, t, ht⟩
    exact ⟨rfl, tail_eq_of_append_eq hc ha hb ht⟩
  · rintro ⟨-, rfl⟩
    exact ⟨p, rfl, List.prefix_append _ _⟩

lemma pure_eq_of_lead_eq (hb : b.pure = c :: q) (h : a.lead = b.lead) : a.pure = b.pure := by
  rw [lead_eq ha, lead_eq hb, List.cons.injEq] at h
  rw [ha, hb, tail_eq_of_append_eq hc ha hb h.2]

end Brackets

section Objects

variable (hc : isObjectType c = true) (ha : a.pure = c :: p)
include hc ha

lemma protocols_eq (hprotocols : a.lead.tail.head? = some '<') :
    ∃ body, (∀ c ∈ body, c ≠ '>') ∧ p = [] ∧ a.extended = '<' :: (body ++ ['>']) := by
  have hencoding := a.encoding
  rw [ha] at hencoding
  rw [lead_eq ha, List.tail_cons] at hprotocols
  rcases hencoding.object_eq hc with rfl | rfl
  · rcases a.isExtended.cases with he | ⟨body, he, hbody⟩ | ⟨body, he, -⟩
    · rw [he] at hprotocols
      cases hprotocols
    · exact ⟨body, hbody, rfl, he⟩
    · rw [he] at hprotocols
      cases hprotocols
  · cases hprotocols

variable (hb : b.pure = c :: q)
include hb

lemma equal_of_object (hprotocols : a.lead.tail.head? ≠ some '<') : typeIsEqualToType a.text b.text = true := by
  have hhead : (p ++ (a.extended ++ a.rest)).head? ≠ some '<' := by
    rw [lead_eq ha, List.tail_cons] at hprotocols
    rw [← List.append_assoc]
    cases hlead : p ++ a.extended with
    | nil => exact fun h => (a.head_rest '<' h).1 rfl
    | cons d u =>
      rw [hlead] at hprotocols
      exact hprotocols
  rw [text_eq ha, text_eq hb, typeIsEqualToType, if_neg (not_not.mpr rfl), if_pos hc, if_pos hhead]

/-- The protocols of the first type are looked for in the second one. -/
lemma equal_of_protocols (hprotocols : a.lead.tail.head? = some '<') :
    typeIsEqualToType a.text b.text = true ↔ a.lead.dropLast <+: b.lead := by
  obtain ⟨body, hbody, rfl, hextended⟩ := protocols_eq hc ha hprotocols
  have hcode : typeIsEqualToType a.text b.text = true ↔ '<' :: body <+: q ++ (b.extended ++ b.rest) := by
    have hhead : ([] ++ (a.extended ++ a.rest)).head? = some '<' := by rw [hextended]; rfl
    rw [text_eq ha, text_eq hb, typeIsEqualToType, if_neg (not_not.mpr rfl), if_pos hc, if_neg (not_not.mpr hhead),
      hextended, List.nil_append, List.cons_append, List.append_assoc]
    exact equalProtocols_iff hbody '<'
  have hdrop : a.lead.dropLast = c :: '<' :: body := by
    rw [lead_eq ha, hextended, List.nil_append, ← List.cons_append, ← List.cons_append, List.dropLast_concat]
  rw [hcode, hdrop, lead_eq hb, List.cons_prefix_cons]
  constructor
  · intro h
    refine ⟨rfl, ?_⟩
    have hencoding := b.encoding
    rw [hb] at hencoding
    rcases hencoding.object_eq hc with rfl | rfl
    · rw [List.nil_append] at h ⊢
      rcases b.isExtended.cases with he | ⟨body', he, -⟩ | ⟨body', he, -⟩
      · rw [he, List.nil_append] at h
        obtain ⟨t, ht⟩ := h
        exact absurd rfl (b.head_rest '<' (ht ▸ rfl)).1
      · rw [he, List.cons_append, List.cons_prefix_cons, List.append_assoc] at h
        rw [he, List.cons_prefix_cons]
        exact ⟨rfl, (prefix_of_prefix_append hbody h.2).trans (List.prefix_append _ _)⟩
      · rw [he, List.cons_append, List.cons_prefix_cons] at h
        exact absurd h.1 (by decide)
    · exact absurd (List.cons_prefix_cons.mp h).1 (by decide)
  · rintro ⟨-, h⟩
    rw [← List.append_assoc]
    exact h.trans (List.prefix_append _ _)

end Objects

end LeadingType

/-- **When types are compared by their text**: the comparison is right about two types exactly if they are
comparable. -/
theorem typeIsEqualToType_iff (a b : LeadingType) :
    (typeIsEqualToType a.text b.text = true ↔ a.lead = b.lead) ↔ a.Comparable b := by
  obtain ⟨c, p, ha⟩ := a.encoding.exists_cons
  obtain ⟨d, q, hb⟩ := b.encoding.exists_cons
  have hheads : a.pure.head? = b.pure.head? ↔ c = d := by rw [ha, hb]; simp
  have hexists : ∀ f : Char → Bool, (∃ x ∈ a.pure.head?, f x = true) ↔ f c = true := by
    intro f
    rw [ha]
    simp
  unfold LeadingType.Comparable LeadingType.HasBrackets LeadingType.HasProtocols
  rw [hheads, hexists, hexists]
  by_cases hcd : c = d
  · subst hcd
    cases hbrackets : opensBracket c with
    | true =>
      have hobject : isObjectType c = false := by
        simp only [opensBracket, Bool.or_eq_true, decide_eq_true_eq] at hbrackets
        rcases hbrackets with (rfl | rfl) | rfl <;> rfl
      have hlead : a.lead = b.lead → a.pure = b.pure := LeadingType.pure_eq_of_lead_eq hbrackets ha hb
      rw [LeadingType.equal_of_brackets hbrackets ha hb, hobject]
      simp only [Bool.false_eq_true, false_and, or_false, true_and, forall_true_left, ne_eq]
      tauto
    | false =>
      cases hobject : isObjectType c with
      | true =>
        by_cases hprotocols : a.lead.tail.head? = some '<'
        · have hlead : a.lead = b.lead → a.lead.dropLast <+: b.lead := fun h => h ▸ List.dropLast_prefix _
          rw [LeadingType.equal_of_protocols hobject ha hb hprotocols]
          simp only [Bool.false_eq_true, false_and, false_or, hprotocols, true_and, forall_true_left]
          tauto
        · rw [LeadingType.equal_of_object hobject ha hb hprotocols]
          simp only [hprotocols, Bool.false_eq_true, false_and, and_false, or_false, true_iff, forall_true_left]
      | false =>
        rw [LeadingType.text_eq ha, LeadingType.text_eq hb, typeIsEqualToType, if_neg (not_not.mpr rfl), hobject,
          hbrackets]
        simp
  · have hlead : a.lead ≠ b.lead := by
      rw [LeadingType.lead_eq ha, LeadingType.lead_eq hb]
      exact fun h => hcd (List.cons.inj h).1
    rw [LeadingType.text_eq ha, LeadingType.text_eq hb, typeIsEqualToType, if_pos hcd]
    simp [hcd, hlead]

lemma LeadingType.exists_of_encodes {pure : List Char} {hollow : Bool} (extended : List Char) (encoding : Encoding .type pure)
    (encodes : Encodes .type (pure ++ (extended ++ [])) (extended ++ []) hollow) (isExtended : IsExtended extended []) :
    ∃ a : LeadingType, a.lead = pure ++ extended ∧ a.text = pure ++ extended :=
  ⟨⟨pure, extended, [], hollow, encoding, encodes, isExtended, fun _ h => nomatch h⟩, rfl, by simp [text]⟩

/-- Types that the comparison does not tell apart: pointers, bit fields, objects and blocks, protocols. -/
def conflated : List (String × String) := [("^i", "^c"), ("b3", "b5"), ("@", "@?"), ("@", "@<A>"), ("@<A>", "@<AB>")]

lemma exists_conflated {pair : String × String} (h : pair ∈ conflated) :
    ∃ a b : LeadingType, a.lead = pair.1.toList ∧ a.text = pair.1.toList ∧ b.lead = pair.2.toList ∧
      b.text = pair.2.toList := by
  have hpointer : ∀ c, scalarKind c = 0 → ∃ a : LeadingType, a.lead = ['^', c] ∧ a.text = ['^', c] :=
    fun c hc => LeadingType.exists_of_encodes [] (.pointer (.simple hc)) (.pointer (.simple hc)) (.inl rfl)
  have hbits : ∀ d ∈ ['3', '5'], ∃ a : LeadingType, a.lead = ['b', d] ∧ a.text = ['b', d] := by
    intro d hd
    have hdigits : ['3', '5'].all isDigit = true := by decide
    have hdigit : isDigit d = true := List.all_eq_true.mp hdigits d hd
    have hwidth : encodings.width [d] := by
      refine ⟨?_, d, rfl, hdigit⟩
      simp only [List.mem_cons, List.not_mem_nil, or_false] at hd
      rcases hd with rfl | rfl <;> exact ⟨_, _, rfl⟩
    have hencodes : Encodes .type ['b', d] ([d].dropWhile isDigit) false := .bitfield hwidth
    rw [List.dropWhile_cons_of_pos hdigit] at hencodes
    exact LeadingType.exists_of_encodes [] (.bitfield (List.forall_mem_singleton.mpr hdigit)) hencodes (.inl rfl)
  have hobject : ∃ a : LeadingType, a.lead = ['@'] ∧ a.text = ['@'] :=
    LeadingType.exists_of_encodes [] .object (.object (by decide)) (.inl rfl)
  have hblock : ∃ a : LeadingType, a.lead = ['@', '?'] ∧ a.text = ['@', '?'] :=
    LeadingType.exists_of_encodes [] .block .block (.inl rfl)
  have hprotocols : ∀ body, (∀ c ∈ body, c ≠ '>') →
      ∃ a : LeadingType, a.lead = '@' :: '<' :: (body ++ ['>']) ∧ a.text = '@' :: '<' :: (body ++ ['>']) := by
    intro body hbody
    refine LeadingType.exists_of_encodes ('<' :: (body ++ ['>'])) .object (.object (by simp)) (.inr ?_)
    rw [List.append_nil]
    exact .angles hbody
  simp only [conflated, List.mem_cons, List.not_mem_nil, or_false] at h
  rcases h with rfl | rfl | rfl | rfl | rfl
  · obtain ⟨a, ha⟩ := hpointer 'i' rfl
    obtain ⟨b, hb⟩ := hpointer 'c' rfl
    exact ⟨a, b, ha.1, ha.2, hb⟩
  · obtain ⟨a, ha⟩ := hbits '3' (by decide)
    obtain ⟨b, hb⟩ := hbits '5' (by decide)
    exact ⟨a, b, ha.1, ha.2, hb⟩
  · obtain ⟨a, ha⟩ := hobject
    obtain ⟨b, hb⟩ := hblock
    exact ⟨a, b, ha.1, ha.2, hb⟩
  · obtain ⟨a, ha⟩ := hobject
    obtain ⟨b, hb⟩ := hprotocols ['A'] (by simp)
    exact ⟨a, b, ha.1, ha.2, hb⟩
  · obtain ⟨a, ha⟩ := hprotocols ['A'] (by simp)
    obtain ⟨b, hb⟩ := hprotocols ['A', 'B'] (by simp)
    exact ⟨a, b, ha.1, ha.2, hb⟩

/-- **Different types are equal**, when only their first characters are looked at. -/
theorem different_types_equal :
    (∀ pair ∈ conflated, ∃ a b : LeadingType, a.text = pair.1.toList ∧ b.text = pair.2.toList ∧
      typeIsEqualToType a.text b.text = true ∧ a.lead ≠ b.lead) ∧
    ¬ ∀ a b : LeadingType, typeIsEqualToType a.text b.text = true ↔ a.lead = b.lead := by
  have hall : ∀ pair ∈ conflated, ∃ a b : LeadingType, a.text = pair.1.toList ∧ b.text = pair.2.toList ∧
      typeIsEqualToType a.text b.text = true ∧ a.lead ≠ b.lead := by
    intro pair hpair
    obtain ⟨a, b, halead, hatext, hblead, hbtext⟩ := exists_conflated hpair
    have hjudged : ∀ pair ∈ conflated,
        typeIsEqualToType pair.1.toList pair.2.toList = true ∧ pair.1.toList ≠ pair.2.toList := by decide
    exact ⟨a, b, hatext, hbtext, by rw [hatext, hbtext]; exact (hjudged pair hpair).1,
      by rw [halead, hblead]; exact (hjudged pair hpair).2⟩
  refine ⟨hall, fun h => ?_⟩
  obtain ⟨a, b, -, -, hequal, hne⟩ := hall ("^i", "^c") (List.mem_cons_self ..)
  exact hne ((h a b).mp hequal)

end MulleObjcRuntime.Signature.Raw
