import MulleObjcRuntime.Signature.Grammar
import MulleObjcRuntime.Lib.Fallible

/-!
# The parser and what it reads

Without an info, the parser reads what is skipped as a type, and nothing else.

* `typeParse_eq` — what a grammar reads, the parser reads, if it takes the characters of the grammar;
* `reads_of_typeParse` — what the parser reads without an info is skipped as a type;
* `typeParse_info` — with an info, the parser does the same or returns `NULL`.
-/

namespace MulleObjcRuntime.Signature.Raw

open Lib.Fallible

/-- `NULL`, or where the rest begins. -/
def Pointer.ofRest : Option (List Char) → Pointer
  | none => .null
  | some r => .rest r

variable (ndebug : Bool)

/-! ## The parser, case by case -/

section Cases

variable (fuel : ℕ) (level : ℤ) (info : Bool) (c : Char) (s : List Char)

/-- The type goes on behind its first character. -/
def IsComplex : Prop := if info then scalarKind c = 1 else isMultiCharacterType c

instance : Decidable (IsComplex info c) :=
  inferInstanceAs (Decidable (if info then scalarKind c = 1 else isMultiCharacterType c))

lemma typeParse_cons :
    typeParse ndebug (fuel + 1) level info (.rest (c :: s)) =
      if IsComplex info c then parseComplex ndebug (typeParse ndebug fuel) (level + 1) info c s else .ok (.rest s) := by
  rw [typeParse]
  rfl

lemma isComplex_of_isMultiCharacterType {c : Char} (h : isMultiCharacterType c = true) : IsComplex info c := by
  unfold IsComplex
  cases info with
  | false => exact h
  | true =>
    rcases scalarKind_eq_one_or c with h0 | h1
    · rw [isMultiCharacterType_of_scalarKind h0] at h
      cases h
    · exact h1

lemma typeParse_simple {c : Char} (h : ¬ IsComplex info c) :
    typeParse ndebug (fuel + 1) level info (.rest (c :: s)) = .ok (.rest s) := by
  rw [typeParse_cons, if_neg h]

lemma typeParse_pointer :
    typeParse ndebug (fuel + 1) level info (.rest ('^' :: s)) =
      match info, s with
      | true, '?' :: s => .ok (.rest s)
      | _, s => typeParse ndebug fuel (level + 1) false (.rest s) := by
  rw [typeParse_cons, if_pos (isComplex_of_isMultiCharacterType info rfl)]
  rfl

lemma typeParse_array :
    typeParse ndebug (fuel + 1) level info (.rest ('[' :: s)) =
      supplyArrayTypeinfo ndebug (typeParse ndebug fuel (level + 1) (info && level + 1 ≠ 0)) s := by
  rw [typeParse_cons, if_pos (isComplex_of_isMultiCharacterType info rfl)]
  rfl

lemma typeParse_bitfield :
    typeParse ndebug (fuel + 1) level info (.rest ('b' :: s)) = supplyBitfieldTypeinfo s := by
  rw [typeParse_cons, if_pos (isComplex_of_isMultiCharacterType info rfl)]
  rfl

lemma typeParse_object :
    typeParse ndebug (fuel + 1) level info (.rest ('@' :: s)) = supplyObjectTypeinfo s := by
  rw [typeParse_cons, if_pos (isComplex_of_isMultiCharacterType info rfl)]
  rfl

lemma typeParse_opening (k : Kind) :
    typeParse ndebug (fuel + 1) level info (.rest (k.opening :: s)) =
      supplyMembersTypeinfo k.closing (typeParse ndebug fuel (level + 1) info) (s.length + 1) 0 (.rest s) := by
  rw [typeParse_cons, if_pos (isComplex_of_isMultiCharacterType info (by cases k <;> rfl))]
  cases k <;> rfl

end Cases

section Members

variable (k : Kind) (parse : Pointer → Reading Pointer)

/-- What the loop does with what it has parsed. -/
def nextMember (fuel n : ℕ) : Pointer → Reading Pointer
  | .null => .ok .null
  | type => supplyMembersTypeinfo k.closing parse fuel n type

lemma supplyMembersTypeinfo_closing (fuel n : ℕ) (s : List Char) :
    supplyMembersTypeinfo k.closing parse (fuel + 1) n (.rest (k.closing :: s)) = .ok (.rest s) := by
  rw [supplyMembersTypeinfo, if_pos rfl]

lemma supplyMembersTypeinfo_nil (fuel n : ℕ) :
    supplyMembersTypeinfo k.closing parse (fuel + 1) n (.rest []) = .ok .null := by
  rw [supplyMembersTypeinfo]

lemma supplyMembersTypeinfo_equal (fuel : ℕ) (s : List Char) :
    supplyMembersTypeinfo k.closing parse (fuel + 1) 0 (.rest ('=' :: s)) =
      parse (.rest s) >>= nextMember k parse fuel 1 := by
  rw [supplyMembersTypeinfo, if_neg (by cases k <;> decide), if_neg (by simp)]
  rfl

lemma supplyMembersTypeinfo_member (fuel n : ℕ) {c : Char} (s : List Char) (hc : c ≠ k.closing) :
    supplyMembersTypeinfo k.closing parse (fuel + 1) (n + 1) (.rest (c :: s)) =
      parse (.rest (c :: s)) >>= nextMember k parse fuel (n + 2) := by
  rw [supplyMembersTypeinfo, if_neg hc, if_neg (by omega)]
  rfl

lemma supplyMembersTypeinfo_name {name : List Char} (hname : Unnamed k name) (fuel : ℕ) (s : List Char) :
    supplyMembersTypeinfo k.closing parse (name.length + fuel) 0 (.rest (name ++ s)) =
      supplyMembersTypeinfo k.closing parse fuel 0 (.rest s) := by
  induction name with
  | nil => rw [List.length_nil, Nat.zero_add, List.nil_append]
  | cons c name ih =>
    obtain ⟨hne, hclose⟩ := hname c (List.mem_cons_self ..)
    rw [List.length_cons, Nat.add_right_comm, List.cons_append, supplyMembersTypeinfo, if_neg hclose, if_pos ⟨rfl, hne⟩]
    exact ih fun c hc => hname c (List.mem_cons_of_mem _ hc)

end Members

/-! ## What is read is parsed -/

/-- The parser takes the characters, widths and closings of the grammar. -/
structure Accepted (info : Bool) (g : Grammar) : Prop where
  simple : ∀ c, g.simple c → isMultiCharacterType c = false ∧ (info = true → scalarKind c = 0)
  width : ∀ s, g.width s → ∃ n : ℤ, atoi s = .ok n ∧ 0 ≤ n
  closing : ∀ c, g.closing c → c = ']' ∨ ndebug = true

variable {ndebug}

lemma accepted_encodings (info : Bool) : Accepted ndebug info encodings where
  simple _ h := ⟨isMultiCharacterType_of_scalarKind h, fun _ => h⟩
  width _ := atoi_of_width
  closing _ := Or.inl

lemma accepted_skipping : Accepted ndebug false (skipping ndebug) where
  simple _ h := ⟨h, fun h => nomatch h⟩
  width _ h := h
  closing _ h := h

section Accepted

variable {info : Bool} {g : Grammar}

lemma Accepted.of_le {info' : Bool} (h : Accepted ndebug info g) (hle : info' = true → info = true) :
    Accepted ndebug info' g :=
  ⟨fun c hc => ⟨(h.simple c hc).1, fun hi => (h.simple c hc).2 (hle hi)⟩, h.width, h.closing⟩

lemma Accepted.not_isComplex {c : Char} (h : Accepted ndebug info g) (hc : g.simple c) : ¬ IsComplex info c := by
  obtain ⟨hmulti, hkind⟩ := h.simple c hc
  unfold IsComplex
  cases info with
  | false => simp [hmulti]
  | true => simp [hkind rfl]

end Accepted

variable (ndebug) in
/-- What the parser does with a type, and the loop with the members. -/
def Parsed (g : Grammar) (s : List Char) (o : Option (List Char)) : Part → Prop
  | .type => ∀ info, Accepted ndebug info g → ∀ fuel level, s.length < fuel →
      typeParse ndebug fuel level info (.rest s) = .ok (.ofRest o)
  | .members k => ∀ info, Accepted ndebug info g → ∀ fuel level, s.length < fuel → ∀ steps n, s.length ≤ steps →
      typeParse ndebug fuel level info (.rest s) >>= nextMember k (typeParse ndebug fuel level info) steps (n + 1) =
        .ok (.ofRest o)

lemma Reads.rest_of_question {g : Grammar} {s : List Char} {o : Option (List Char)}
    (h : Reads g .type ('?' :: s) o) : o = some s := by
  generalize hs : '?' :: s = t at h
  generalize hpart : Part.type = part at h
  cases h with
  | simple =>
    cases hs
    rfl
  | @opaque_ k | @nameCut k | @aggregate k => cases k <;> cases hs
  | bitfield | object | block | pointer | array | arrayCut => cases hs
  | last | membersCut | memberCut | more => cases hpart

/-- What a grammar reads, the parser reads. -/
lemma parsed_of_reads {g : Grammar} {part : Part} {s : List Char} {o : Option (List Char)} (h : Reads g part s o) :
    Parsed ndebug g s o part := by
  induction h with
  | simple h =>
    intro info hacc fuel level hfuel
    obtain ⟨fuel, rfl⟩ := Nat.exists_eq_add_one.mpr (by omega : 0 < fuel)
    exact typeParse_simple ndebug fuel level info _ (hacc.not_isComplex h)
  | bitfield h =>
    intro info hacc fuel level hfuel
    obtain ⟨fuel, rfl⟩ := Nat.exists_eq_add_one.mpr (by omega : 0 < fuel)
    obtain ⟨n, hn, hpos⟩ := hacc.width _ h
    rw [typeParse_bitfield, supplyBitfieldTypeinfo, hn]
    exact if_neg (not_lt.mpr hpos)
  | object h =>
    intro info hacc fuel level hfuel
    obtain ⟨fuel, rfl⟩ := Nat.exists_eq_add_one.mpr (by omega : 0 < fuel)
    rw [typeParse_object, supplyObjectTypeinfo]
    · rfl
    · rintro t rfl
      exact h rfl
  | block =>
    intro info hacc fuel level hfuel
    obtain ⟨fuel, rfl⟩ := Nat.exists_eq_add_one.mpr (by omega : 0 < fuel)
    rw [typeParse_object]
    rfl
  | pointer h ih =>
    intro info hacc fuel level hfuel
    obtain ⟨fuel, rfl⟩ := Nat.exists_eq_add_one.mpr (by omega : 0 < fuel)
    have hskip := ih false (hacc.of_le fun h => nomatch h) fuel (level + 1) (by simpa using hfuel)
    rw [typeParse_pointer]
    split
    · rw [h.rest_of_question]
      rfl
    · exact hskip
  | array hn h hc ih =>
    intro info hacc fuel level hfuel
    obtain ⟨fuel, rfl⟩ := Nat.exists_eq_add_one.mpr (by omega : 0 < fuel)
    have hle := length_of_number hn
    simp only [List.length_cons] at hfuel
    have hmember := ih (info && level + 1 ≠ 0) (hacc.of_le (by simp; tauto)) fuel (level + 1) (by omega)
    rw [typeParse_array, supplyArrayTypeinfo]
    simp only [hn, hmember, bind, Except.bind, Pointer.ofRest]
    exact if_pos (hacc.closing _ hc)
  | arrayCut hn h ih =>
    intro info hacc fuel level hfuel
    obtain ⟨fuel, rfl⟩ := Nat.exists_eq_add_one.mpr (by omega : 0 < fuel)
    have hle := length_of_number hn
    simp only [List.length_cons] at hfuel
    have hmember := ih (info && level + 1 ≠ 0) (hacc.of_le (by simp; tauto)) fuel (level + 1) (by omega)
    rw [typeParse_array, supplyArrayTypeinfo]
    simp only [hn, hmember, bind, Except.bind, Pointer.ofRest]
    rfl
  | @opaque_ k name s h =>
    intro info hacc fuel level hfuel
    obtain ⟨fuel, rfl⟩ := Nat.exists_eq_add_one.mpr (by omega : 0 < fuel)
    have hsteps : (name ++ k.closing :: s).length + 1 = name.length + (s.length + 1 + 1) := by
      simp only [List.length_append, List.length_cons]
      omega
    rw [typeParse_opening, hsteps, supplyMembersTypeinfo_name k _ h, supplyMembersTypeinfo_closing]
    rfl
  | @nameCut k s h =>
    intro info hacc fuel level hfuel
    obtain ⟨fuel, rfl⟩ := Nat.exists_eq_add_one.mpr (by omega : 0 < fuel)
    have hname := supplyMembersTypeinfo_name k (typeParse ndebug fuel (level + 1) info) h 1 []
    rw [List.append_nil] at hname
    rw [typeParse_opening, hname, supplyMembersTypeinfo_nil]
    rfl
  | @aggregate k name s o hname h ih =>
    intro info hacc fuel level hfuel
    obtain ⟨fuel, rfl⟩ := Nat.exists_eq_add_one.mpr (by omega : 0 < fuel)
    have hsteps : (name ++ '=' :: s).length + 1 = name.length + (s.length + 1 + 1) := by
      simp only [List.length_append, List.length_cons]
      omega
    simp only [List.length_cons, List.length_append] at hfuel
    rw [typeParse_opening, hsteps, supplyMembersTypeinfo_name k _ hname, supplyMembersTypeinfo_equal]
    exact ih info hacc fuel (level + 1) (by omega) (s.length + 1) 0 (by omega)
  | @last k s r h ih =>
    intro info hacc fuel level hfuel steps n hsteps
    have hlt := h.length_lt _ rfl
    obtain ⟨steps, rfl⟩ := Nat.exists_eq_add_one.mpr (by omega : 0 < steps)
    rw [ih info hacc fuel level hfuel]
    exact supplyMembersTypeinfo_closing k _ steps (n + 1) r
  | @membersCut k s h ih =>
    intro info hacc fuel level hfuel steps n hsteps
    have hlt := h.length_lt _ rfl
    obtain ⟨steps, rfl⟩ := Nat.exists_eq_add_one.mpr (by omega : 0 < steps)
    rw [ih info hacc fuel level hfuel]
    exact supplyMembersTypeinfo_nil k (typeParse ndebug fuel level info) steps (n + 1)
  | @memberCut k s h ih =>
    intro info hacc fuel level hfuel steps n hsteps
    rw [ih info hacc fuel level hfuel]
    rfl
  | @more k s c t o h hc hmore ih ihmore =>
    intro info hacc fuel level hfuel steps n hsteps
    have hlt := h.length_lt _ rfl
    obtain ⟨steps, rfl⟩ := Nat.exists_eq_add_one.mpr (by omega : 0 < steps)
    rw [ih info hacc fuel level hfuel]
    refine (supplyMembersTypeinfo_member k _ steps n t hc).trans ?_
    exact ihmore info hacc fuel level (by omega) steps (n + 1) (by omega)

lemma typeParse_eq {info : Bool} {g : Grammar} {s : List Char} {o : Option (List Char)} (h : Reads g .type s o)
    (hacc : Accepted ndebug info g) {fuel : ℕ} (hfuel : s.length < fuel) (level : ℤ) :
    typeParse ndebug fuel level info (.rest s) = .ok (.ofRest o) :=
  parsed_of_reads h info hacc fuel level hfuel

/-! ## What is parsed without an info, is read -/

@[simp]
lemma Pointer.ofRest_eq_null {o : Option (List Char)} : Pointer.ofRest o = .null ↔ o = none := by
  cases o <;> simp [Pointer.ofRest]

@[simp]
lemma Pointer.ofRest_eq_rest {o : Option (List Char)} {r : List Char} : Pointer.ofRest o = .rest r ↔ o = some r := by
  cases o <;> simp [Pointer.ofRest]

@[simp]
lemma Pointer.ofRest_ne_behind {o : Option (List Char)} : Pointer.ofRest o ≠ .behind := by
  cases o <;> simp [Pointer.ofRest]

lemma complex_cases {c : Char} (h : isMultiCharacterType c = true) :
    c = '^' ∨ c = '[' ∨ c = 'b' ∨ c = '@' ∨ ∃ k : Kind, c = k.opening := by
  unfold isMultiCharacterType at h
  split at h
  · exact .inl rfl
  · exact .inr (.inl rfl)
  · exact .inr (.inr (.inr (.inr ⟨.struct, rfl⟩)))
  · exact .inr (.inr (.inr (.inr ⟨.union, rfl⟩)))
  · exact .inr (.inr (.inl rfl))
  · exact .inr (.inr (.inr (.inl rfl)))
  · cases h

lemma parseComplex_unknown {parse : ℤ → Bool → Pointer → Reading Pointer} {level : ℤ} {info : Bool} {c : Char}
    {s : List Char} (hc : ¬ isMultiCharacterType c = true) : parseComplex ndebug parse level info c s = .ok .null := by
  unfold parseComplex
  split
  all_goals first | rfl | exact absurd rfl hc

/-- Without an info the rest is known, or that there is none; with an info, `NULL` says nothing. -/
def Known (info : Bool) (o : Option (List Char)) : Prop := info = true → o.isSome = true

section Loop

variable {g : Grammar} {k : Kind} {parse : Pointer → Reading Pointer} {info : Bool} {o : Option (List Char)}

lemma known_some (r : List Char) : Known info (some r) := fun _ => rfl

lemma known_false (o : Option (List Char)) : Known false o := fun hinfo => nomatch hinfo

/-- The loop over the members, when the last one that has been parsed is at the head of the string. -/
lemma reads_of_nextMember (hparse : ∀ s o, Known info o → parse (.rest s) = .ok (.ofRest o) → Reads g .type s o)
    {fuel n : ℕ} {p : Pointer} {s : List Char} (ho : Known info o)
    (hp : ∀ o, Known info o → p = .ofRest o → Reads g .type s o)
    (h : nextMember k parse fuel (n + 1) p = .ok (.ofRest o)) : Reads g (.members k) s o := by
  induction fuel generalizing n p s with
  | zero =>
    cases p with
    | null =>
      cases Pointer.ofRest_eq_null.mp (Except.ok.inj h).symm
      exact .memberCut (hp none ho rfl)
    | rest t => cases h
    | behind => cases h
  | succ fuel ih =>
    cases p with
    | null =>
      cases Pointer.ofRest_eq_null.mp (Except.ok.inj h).symm
      exact .memberCut (hp none ho rfl)
    | behind => cases h
    | rest t =>
      have htype := hp (some t) (known_some t) rfl
      cases t with
      | nil =>
        cases Pointer.ofRest_eq_null.mp (Except.ok.inj h).symm
        exact .membersCut htype
      | cons c t =>
        by_cases hc : c = k.closing
        · subst hc
          rw [nextMember, supplyMembersTypeinfo_closing] at h
          · cases Pointer.ofRest_eq_rest.mp (Except.ok.inj h).symm
            exact .last htype
          · exact fun h => nomatch h
        · have hloop : supplyMembersTypeinfo k.closing parse (fuel + 1) (n + 1) (.rest (c :: t)) = .ok (.ofRest o) := h
          rw [supplyMembersTypeinfo_member k parse fuel n t hc, bind_eq_ok] at hloop
          obtain ⟨p, hmember, hnext⟩ := hloop
          exact .more htype hc (ih (fun o ho heq => hparse _ o ho (heq ▸ hmember)) hnext)

/-- The loop over the members, when it is still in the name. -/
lemma reads_of_supplyMembersTypeinfo
    (hparse : ∀ s o, Known info o → parse (.rest s) = .ok (.ofRest o) → Reads g .type s o) {fuel : ℕ} {name s : List Char}
    (ho : Known info o) (hname : Unnamed k name)
    (h : supplyMembersTypeinfo k.closing parse fuel 0 (.rest s) = .ok (.ofRest o)) :
    Reads g .type (k.opening :: (name ++ s)) o := by
  induction fuel generalizing name s with
  | zero => cases h
  | succ fuel ih =>
    cases s with
    | nil =>
      cases Pointer.ofRest_eq_null.mp (Except.ok.inj h).symm
      rw [List.append_nil]
      exact .nameCut hname
    | cons c s =>
      by_cases hclose : c = k.closing
      · subst hclose
        rw [supplyMembersTypeinfo_closing] at h
        cases Pointer.ofRest_eq_rest.mp (Except.ok.inj h).symm
        exact .opaque_ hname
      · by_cases hequal : c = '='
        · subst hequal
          rw [supplyMembersTypeinfo_equal, bind_eq_ok] at h
          obtain ⟨p, hmember, hnext⟩ := h
          exact .aggregate hname (reads_of_nextMember hparse ho (fun o ho heq => hparse _ o ho (heq ▸ hmember)) hnext)
        · rw [supplyMembersTypeinfo, if_neg hclose, if_pos ⟨rfl, hequal⟩] at h
          have hlonger : Unnamed k (name ++ [c]) := by
            intro d hd
            rcases List.mem_append.mp hd with hd | hd
            · exact hname d hd
            · rw [List.mem_singleton.mp hd]
              exact ⟨hequal, hclose⟩
          have hread := ih hlonger h
          rwa [List.append_assoc] at hread

lemma reads_of_supplyArrayTypeinfo {s : List Char}
    (hparse : ∀ s o, Known info o → parse (.rest s) = .ok (.ofRest o) → Reads (skipping ndebug) .type s o)
    (ho : Known info o) (h : supplyArrayTypeinfo ndebug parse s = .ok (.ofRest o)) :
    Reads (skipping ndebug) .type ('[' :: s) o := by
  rw [supplyArrayTypeinfo, bind_eq_ok] at h
  obtain ⟨⟨n, t⟩, hn, h⟩ := h
  obtain ⟨p, hmember, h⟩ := bind_eq_ok.mp h
  cases p with
  | null =>
    cases Pointer.ofRest_eq_null.mp (Except.ok.inj h).symm
    exact .arrayCut hn (hparse _ _ ho hmember)
  | behind =>
    simp only [] at h
    split at h
    · exact absurd (Except.ok.inj h).symm Pointer.ofRest_ne_behind
    · cases h
  | rest r =>
    cases r with
    | nil =>
      simp only [] at h
      split at h
      · exact absurd (Except.ok.inj h).symm Pointer.ofRest_ne_behind
      · cases h
    | cons d r =>
      simp only [] at h
      split at h
      · rename_i hclose
        cases Pointer.ofRest_eq_rest.mp (Except.ok.inj h).symm
        exact .array hn (hparse _ _ (known_some (d :: r)) hmember) hclose
      · cases h

end Loop

section Single

variable {s : List Char} {o : Option (List Char)}

lemma reads_of_supplyBitfieldTypeinfo (h : supplyBitfieldTypeinfo s = .ok (.ofRest o)) :
    Reads (skipping ndebug) .type ('b' :: s) o := by
  rw [supplyBitfieldTypeinfo, bind_eq_ok] at h
  obtain ⟨n, hn, h⟩ := h
  split at h
  · cases h
  · rename_i hpos
    cases Pointer.ofRest_eq_rest.mp (Except.ok.inj h).symm
    exact .bitfield ⟨n, hn, not_lt.mp hpos⟩

lemma reads_of_supplyObjectTypeinfo (h : supplyObjectTypeinfo s = .ok (.ofRest o)) :
    Reads (skipping ndebug) .type ('@' :: s) o := by
  unfold supplyObjectTypeinfo at h
  split at h
  · cases Pointer.ofRest_eq_rest.mp (Except.ok.inj h).symm
    exact .block
  · rename_i hne
    cases Pointer.ofRest_eq_rest.mp (Except.ok.inj h).symm
    refine .object fun hhead => ?_
    obtain ⟨t, rfl⟩ := List.head?_eq_some_iff.mp hhead
    exact hne t rfl

end Single

/-- What the parser reads is skipped as a type, as far as the parser tells. -/
lemma reads_of_typeParse_known {fuel : ℕ} {level : ℤ} {info : Bool} {s : List Char} {o : Option (List Char)}
    (ho : Known info o) (h : typeParse ndebug fuel level info (.rest s) = .ok (.ofRest o)) :
    Reads (skipping ndebug) .type s o := by
  induction fuel generalizing level info s o with
  | zero => cases h
  | succ fuel ih =>
    cases s with
    | nil =>
      cases info with
      | false => exact absurd (Except.ok.inj h).symm Pointer.ofRest_ne_behind
      | true =>
        cases Pointer.ofRest_eq_null.mp (Except.ok.inj h).symm
        cases ho rfl
    | cons c s =>
      by_cases hc : isMultiCharacterType c = true
      · rcases complex_cases hc with rfl | rfl | rfl | rfl | ⟨k, rfl⟩
        · rw [typeParse_pointer] at h
          split at h
          · cases Pointer.ofRest_eq_rest.mp (Except.ok.inj h).symm
            exact .pointer (.simple (show isMultiCharacterType '?' = false from rfl))
          · exact .pointer (ih (known_false o) h)
        · rw [typeParse_array] at h
          exact reads_of_supplyArrayTypeinfo (fun s o => ih) (fun hinfo => ho (Bool.and_eq_true_iff.mp hinfo).1) h
        · rw [typeParse_bitfield] at h
          exact reads_of_supplyBitfieldTypeinfo h
        · rw [typeParse_object] at h
          exact reads_of_supplyObjectTypeinfo h
        · rw [typeParse_opening] at h
          have hname : Unnamed k [] := fun c hc => nomatch hc
          exact reads_of_supplyMembersTypeinfo (fun s o => ih) ho hname h
      · by_cases hcomplex : IsComplex info c
        · cases info with
          | false => exact absurd hcomplex hc
          | true =>
            rw [typeParse_cons, if_pos hcomplex, parseComplex_unknown hc] at h
            cases Pointer.ofRest_eq_null.mp (Except.ok.inj h).symm
            cases ho rfl
        · rw [typeParse_simple ndebug fuel level info s hcomplex] at h
          cases Pointer.ofRest_eq_rest.mp (Except.ok.inj h).symm
          exact .simple (Bool.eq_false_iff.mpr hc)

lemma reads_of_typeParse {fuel : ℕ} {level : ℤ} {s : List Char} {o : Option (List Char)}
    (h : typeParse ndebug fuel level false (.rest s) = .ok (.ofRest o)) : Reads (skipping ndebug) .type s o :=
  reads_of_typeParse_known (known_false o) h

/-! ## With an info -/

section Level

variable {parse : ℤ → Bool → Pointer → Reading Pointer} {level level' : ℤ}

lemma parseComplex_level (hparse : parse level false = parse level' false) (c : Char) (s : List Char) :
    parseComplex ndebug parse level false c s = parseComplex ndebug parse level' false c s := by
  unfold parseComplex
  simp only [Bool.false_and, hparse]

lemma typeParse_level (fuel : ℕ) (level level' : ℤ) :
    typeParse ndebug fuel level false = typeParse ndebug fuel level' false := by
  induction fuel generalizing level level' with
  | zero => rfl
  | succ fuel ih =>
    funext p
    cases p with
    | null | behind => rfl
    | rest s =>
      cases s with
      | nil => rfl
      | cons c s => rw [typeParse_cons, typeParse_cons, parseComplex_level (ih (level + 1) (level' + 1))]

end Level

/-- The first computation does what the second one does, or it gives `NULL`, if the second one comes to an end. -/
def Stricter (x y : Reading Pointer) : Prop := x = .ok .null ∨ x = y ∨ y = .error .outOfFuel

section Stricter

variable {x y : Reading Pointer} {f g : Pointer → Reading Pointer}

lemma Stricter.of_eq (h : x = y) : Stricter x y := .inr (.inl h)

lemma Stricter.bind (h : Stricter x y) (hnull : f .null = .ok .null) (hf : ∀ p, Stricter (f p) (g p)) :
    Stricter (x >>= f) (y >>= g) := by
  rcases h with rfl | rfl | rfl
  · exact .inl hnull
  · cases x with
    | error e => exact .of_eq rfl
    | ok p => exact hf p
  · exact .inr (.inr rfl)

lemma Stricter.array (h : ∀ p, Stricter (f p) (g p)) (s : List Char) :
    Stricter (supplyArrayTypeinfo ndebug f s) (supplyArrayTypeinfo ndebug g s) := by
  unfold supplyArrayTypeinfo
  cases number s with
  | error e => exact .of_eq rfl
  | ok r => exact (h _).bind rfl fun p => .of_eq rfl

lemma Stricter.members (h : ∀ p, Stricter (f p) (g p)) (k : Kind) (fuel n : ℕ) (p : Pointer) :
    Stricter (supplyMembersTypeinfo k.closing f fuel n p) (supplyMembersTypeinfo k.closing g fuel n p) := by
  induction fuel generalizing n p with
  | zero => exact .of_eq rfl
  | succ fuel ih =>
    cases p with
    | null | behind => exact .of_eq rfl
    | rest s =>
      cases s with
      | nil => exact .of_eq rfl
      | cons c s =>
        rw [supplyMembersTypeinfo, supplyMembersTypeinfo]
        split
        · exact .of_eq rfl
        · split
          · exact ih n _
          · refine (h _).bind rfl fun p => ?_
            cases p with
            | null => exact .of_eq rfl
            | rest | behind => exact ih (n + 1) _

end Stricter

/-- With an info, the parser does the same, or it returns `NULL`. -/
lemma typeParse_info (fuel : ℕ) (level level' : ℤ) (p : Pointer) :
    Stricter (typeParse ndebug fuel level true p) (typeParse ndebug fuel level' false p) := by
  induction fuel generalizing level level' p with
  | zero => exact .of_eq rfl
  | succ fuel ih =>
    cases p with
    | null | behind => exact .of_eq rfl
    | rest s =>
      cases s with
      | nil => exact .inl rfl
      | cons c s =>
        by_cases hc : isMultiCharacterType c = true
        · rcases complex_cases hc with rfl | rfl | rfl | rfl | ⟨k, rfl⟩
          · rw [typeParse_pointer, typeParse_pointer]
            split
            · cases fuel with
              | zero => exact .inr (.inr rfl)
              | succ fuel => exact .of_eq (typeParse_simple ndebug fuel _ false _ (by decide)).symm
            · exact .of_eq (congrFun (typeParse_level fuel _ _) _)
          · rw [typeParse_array, typeParse_array]
            cases hlevel : (true && level + 1 ≠ 0 : Bool) with
            | true => exact Stricter.array (ih _ _) s
            | false =>
              rw [typeParse_level fuel (level + 1) (level' + 1)]
              exact .of_eq rfl
          · rw [typeParse_bitfield, typeParse_bitfield]
            exact .of_eq rfl
          · rw [typeParse_object, typeParse_object]
            exact .of_eq rfl
          · rw [typeParse_opening, typeParse_opening]
            exact Stricter.members (ih _ _) k _ 0 _
        · rw [typeParse_simple ndebug fuel level' false s hc]
          by_cases hkind : IsComplex true c
          · rw [typeParse_cons, if_pos hkind]
            exact .inl (parseComplex_unknown hc)
          · rw [typeParse_simple ndebug fuel level true s hkind]
            exact .of_eq rfl

end MulleObjcRuntime.Signature.Raw
