import MulleObjcRuntime.Signature.Stepping

/-!
# Any string

What the entry points make of a string that is no signature.

* `FirstType` — the string starts with a well formed type;
* `Robust` — nothing is read behind the zero, and without a first type the result is `NULL`;
* `Passes` — the types can be skipped, up to the end or up to where one breaks off;
* `robust_iff` — which strings the entry points are robust for.
-/

namespace MulleObjcRuntime.Signature.Raw

open Lib.Fallible

/-! ## What is promised -/

/-- If the string starts with `opening`, then `close` comes later, and the rest behind it.  Otherwise all of it is the
rest. -/
inductive Bracketed (opening close : Char) : List Char → List Char → Prop
  | without {s} (h : s.head? ≠ some opening) : Bracketed opening close s s
  | within {body s} (h : ∀ c ∈ body, c ≠ close) : Bracketed opening close (opening :: (body ++ close :: s)) s

/-- There is a well formed type at the head of the string, what is in brackets or quotes behind it included. -/
def FirstType (s : List Char) : Prop :=
  ∃ t u r, Reads encodings .type s (some t) ∧ Bracketed '<' '>' t u ∧ Bracketed '"' '"' u r

section

variable (ndebug : Bool) (level : ℤ) (s : List Char)

/-- The result is `NULL` or a pointer into the string, and it is `NULL` if there is no first type. -/
def Pointing (result : Reading Pointer) : Prop :=
  ∃ o, result = .ok (.ofRest o) ∧ (∀ r ∈ o, r <:+ s) ∧ (¬ FirstType s → o = none)

structure Robust : Prop where
  supplyTypeinfo : ∀ info, Pointing s (signatureSupplyTypeinfo ndebug level info s)
  nextType : Pointing s (nextType ndebug s)
  countTypeinfos : ∃ n, countTypeinfos ndebug s = .ok n ∧ (¬ FirstType s → n = 0)

end

/-! ## When it is kept -/

/-- Brackets or quotes that are not closed any more. -/
inductive Unclosed : List Char → Prop
  | angles {s} (h : ∀ c ∈ s, c ≠ '>') : Unclosed ('<' :: s)
  | quotes {s} (h : ∀ c ∈ s, c ≠ '"') : Unclosed ('"' :: s)

/-- Signs and digits are skipped, and what is in brackets or quotes with one more character, up to a character that is
none of this.  There is none, when brackets or quotes are not closed. -/
inductive Skips : List Char → Option (List Char) → Prop
  | stop {s} (h : Stops s) : Skips s (some s)
  | offset {c s o} (hc : c = '-' ∨ c = '+' ∨ isDigit c = true) (h : Skips s o) : Skips (c :: s) o
  | extended {t c s o} (ht : Extended t (c :: s)) (h : Skips s o) : Skips t o
  | unclosed {s} (h : Unclosed s) : Skips s none

section

variable (ndebug : Bool)

/-- What is skipped as the first type ends in a struct or in a union, or in brackets behind it. -/
def BreaksOff (s : List Char) : Prop :=
  Reads (skipping ndebug) .type s none ∨
    ∃ t, Reads (skipping ndebug) .type s (some ('<' :: t)) ∧ ∀ c ∈ t, c ≠ '>'

/-- The string can be skipped type by type, up to its end, or up to a type or an extended info that breaks off. -/
inductive Passes : List Char → Prop
  | nil : Passes []
  | cut {s} (h : Reads (skipping ndebug) .type s none) : Passes s
  | unclosed {s t} (htype : Reads (skipping ndebug) .type s (some t)) (h : Skips t none) : Passes s
  | cons {s t r} (htype : Reads (skipping ndebug) .type s (some t)) (hskips : Skips t (some r)) (h : Passes r) : Passes s

end

/-! ## Brackets and quotes -/

section Brackets

variable {s t u r : List Char} {o : Option (List Char)}

lemma skipPast_eq_some {close : Char} (h : skipPast close s = some r) :
    ∃ body, (∀ c ∈ body, c ≠ close) ∧ s = body ++ close :: r := by
  induction s with
  | nil => cases h
  | cons c s ih =>
    rw [skipPast] at h
    by_cases hc : c = close
    · rw [if_pos hc, Option.some.injEq] at h
      exact ⟨[], by simp, by rw [hc, h, List.nil_append]⟩
    · rw [if_neg hc] at h
      obtain ⟨body, hbody, rfl⟩ := ih h
      exact ⟨c :: body, List.forall_mem_cons.mpr ⟨hc, hbody⟩, rfl⟩

lemma skipPast_eq_none {close : Char} : skipPast close s = none ↔ ∀ c ∈ s, c ≠ close := by
  induction s with
  | nil => simp [skipPast]
  | cons c s ih =>
    rw [skipPast, List.forall_mem_cons]
    by_cases hc : c = close
    · simp [hc]
    · simp [hc, ih]

lemma skipAngles_of_bracketed (h : Bracketed '<' '>' t u) : skipAngles t = some u := by
  cases h with
  | without h => exact skipAngles_of_head fun c hc => by rintro rfl; exact h hc
  | within h => rw [skipAngles, skipPast_body h]

lemma skipQuotes_of_bracketed (h : Bracketed '"' '"' u r) : skipQuotes u = .ok r := by
  cases h with
  | without h => exact skipQuotes_of_head fun c hc => by rintro rfl; exact h hc
  | within h => rw [skipQuotes, skipPast_body h]

/-- What is skipped, the code skips. -/
lemma skipExtendedtypeinfo_eq (h : Skips t o) {fuel : ℕ} (hfuel : t.length < fuel) :
    skipExtendedtypeinfo fuel t = .ok (.ofRest o) := by
  induction h generalizing fuel with
  | stop h =>
    obtain ⟨fuel, rfl⟩ := Nat.exists_eq_add_one.mpr (by omega : 0 < fuel)
    exact skipExtendedtypeinfo_stop h fuel
  | @offset c s o hc h ih =>
    obtain ⟨fuel, rfl⟩ := Nat.exists_eq_add_one.mpr (by omega : 0 < fuel)
    have hinfo : ¬ (c = '<' ∨ c = '"') := by
      rintro (rfl | rfl)
      all_goals exact absurd hc (by decide)
    rw [skipExtendedtypeinfo, if_neg hinfo, if_pos hc]
    exact ih (by simpa using hfuel)
  | extended ht h ih =>
    obtain ⟨fuel, rfl⟩ := Nat.exists_eq_add_one.mpr (by omega : 0 < fuel)
    have hlt := ht.length_lt
    rw [skipExtendedtypeinfo_extended ht]
    exact ih (by simp only [List.length_cons] at hlt; omega)
  | unclosed h =>
    obtain ⟨fuel, rfl⟩ := Nat.exists_eq_add_one.mpr (by omega : 0 < fuel)
    cases h with
    | angles h =>
      rw [skipExtendedtypeinfo, if_pos (.inl rfl), if_pos rfl, skipPast_eq_none.mpr h]
      rfl
    | quotes h =>
      rw [skipExtendedtypeinfo, if_pos (.inr rfl), if_neg (by decide), skipPast_eq_none.mpr h]
      rfl

lemma skips_of_skipPast {opening close : Char} {fuel : ℕ}
    (hextended : ∀ body s, (∀ c ∈ body, c ≠ close) → Extended (opening :: (body ++ close :: s)) s)
    (hunclosed : (∀ c ∈ t, c ≠ close) → Unclosed (opening :: t))
    (hskips : ∀ t, skipExtendedtypeinfo fuel t = .ok (.ofRest o) → Skips t o)
    (h : (match skipPast close t with
      | none => .ok .null
      | some [] => .error .overrun
      | some (_ :: s) => skipExtendedtypeinfo fuel s) = Except.ok (Pointer.ofRest o)) : Skips (opening :: t) o := by
  cases hskip : skipPast close t with
  | none =>
    rw [hskip] at h
    cases Pointer.ofRest_eq_null.mp (Except.ok.inj h).symm
    exact .unclosed (hunclosed (skipPast_eq_none.mp hskip))
  | some v =>
    rw [hskip] at h
    obtain ⟨body, hbody, rfl⟩ := skipPast_eq_some hskip
    cases v with
    | nil => cases h
    | cons c v => exact .extended (hextended body (c :: v) hbody) (hskips v h)

/-- What the code skips, is skipped. -/
lemma skips_of_skipExtendedtypeinfo {fuel : ℕ} (h : skipExtendedtypeinfo fuel t = .ok (.ofRest o)) : Skips t o := by
  induction fuel generalizing t with
  | zero => cases h
  | succ fuel ih =>
    cases t with
    | nil =>
      cases Pointer.ofRest_eq_rest.mp (Except.ok.inj h).symm
      exact .stop fun c hc => nomatch hc
    | cons c t =>
      by_cases hinfo : c = '<' ∨ c = '"'
      · rw [skipExtendedtypeinfo, if_pos hinfo] at h
        rcases hinfo with rfl | rfl
        · rw [if_pos rfl] at h
          exact skips_of_skipPast (fun _ _ => .angles) .angles (fun t => ih) h
        · rw [if_neg (by decide)] at h
          exact skips_of_skipPast (fun _ _ => .quotes) .quotes (fun t => ih) h
      · by_cases hoffset : c = '-' ∨ c = '+' ∨ isDigit c = true
        · rw [skipExtendedtypeinfo, if_neg hinfo, if_pos hoffset] at h
          exact .offset hoffset (ih h)
        · rw [skipExtendedtypeinfo, if_neg hinfo, if_neg hoffset] at h
          cases Pointer.ofRest_eq_rest.mp (Except.ok.inj h).symm
          refine .stop ?_
          rintro c ⟨⟩
          simpa [not_or, and_assoc] using And.intro hinfo hoffset

end Brackets

/-! ## The rest is in the string -/

section Suffix

variable {g : Grammar} {part : Part} {s t u r : List Char} {o : Option (List Char)}

lemma Reads.suffix (h : Reads g part s o) : ∀ r ∈ o, r <:+ s := by
  induction h with
  | simple | object =>
    rintro r ⟨⟩
    exact List.suffix_cons ..
  | bitfield =>
    rintro r ⟨⟩
    exact (List.dropWhile_suffix _).trans (List.suffix_cons ..)
  | block =>
    rintro r ⟨⟩
    exact (List.suffix_cons ..).trans (List.suffix_cons ..)
  | pointer _ ih => exact fun r hr => (ih r hr).trans (List.suffix_cons ..)
  | array hn _ _ ih =>
    rintro r ⟨⟩
    have hdrop := eq_dropWhile_of_number hn
    exact (((List.suffix_cons ..).trans (ih _ rfl)).trans (hdrop ▸ List.dropWhile_suffix _)).trans (List.suffix_cons ..)
  | opaque_ =>
    rintro r ⟨⟩
    exact ((List.suffix_cons ..).trans (List.suffix_append ..)).trans (List.suffix_cons ..)
  | aggregate _ _ ih =>
    intro r hr
    exact (((ih r hr).trans (List.suffix_cons ..)).trans (List.suffix_append ..)).trans (List.suffix_cons ..)
  | last _ ih =>
    rintro r ⟨⟩
    exact (List.suffix_cons ..).trans (ih _ rfl)
  | more _ _ _ ih ihmore => exact fun r hr => (ihmore r hr).trans (ih _ rfl)
  | arrayCut | nameCut | membersCut | memberCut => exact fun r hr => nomatch hr

lemma Extended.suffix (h : Extended t u) : u <:+ t := by
  cases h
  all_goals exact ((List.suffix_cons ..).trans (List.suffix_append ..)).trans (List.suffix_cons ..)

lemma Bracketed.suffix {opening close : Char} (h : Bracketed opening close t u) : u <:+ t := by
  cases h with
  | without => exact List.suffix_refl _
  | within => exact ((List.suffix_cons ..).trans (List.suffix_append ..)).trans (List.suffix_cons ..)

lemma Skips.suffix (h : Skips t o) : ∀ r ∈ o, r <:+ t := by
  induction h with
  | stop =>
    rintro r ⟨⟩
    exact List.suffix_refl _
  | offset _ _ ih => exact fun r hr => (ih r hr).trans (List.suffix_cons ..)
  | extended ht _ ih => exact fun r hr => ((ih r hr).trans (List.suffix_cons ..)).trans ht.suffix
  | unclosed => exact fun r hr => nomatch hr

lemma skipOffset_suffix (s : List Char) : skipOffset s <:+ s := by
  have hite : ∀ c (s : List Char), (if s.head? = some c then s.tail else s) <:+ s := by
    intro c s
    split
    · exact List.tail_suffix s
    · exact List.suffix_refl s
  exact ((List.dropWhile_suffix _).trans (hite '+' _)).trans (hite '-' s)

end Suffix

/-! ## The entry points -/

section EntryPoints

variable {ndebug : Bool} {s t r : List Char} {o : Option (List Char)}

lemma typeParse_skipped (h : Reads (skipping ndebug) .type s o) (level : ℤ) :
    typeParse ndebug (s.length + 1) level false (.rest s) = .ok (.ofRest o) :=
  typeParse_eq h accepted_skipping (Nat.lt_succ_self _) level

lemma Reads.ne_nil (h : Reads (skipping ndebug) .type s o) : s ≠ [] := by
  rintro rfl
  have hparse := typeParse_skipped h 0
  exact absurd (Except.ok.inj hparse).symm Pointer.ofRest_ne_behind

lemma nextType_cases (hne : s ≠ []) (h : nextType ndebug s = .ok (.ofRest o)) :
    (o = none ∧ Reads (skipping ndebug) .type s none) ∨
      ∃ t, Reads (skipping ndebug) .type s (some t) ∧ Skips t o := by
  rw [nextType, if_neg hne, bind_eq_ok] at h
  obtain ⟨p, hp, h⟩ := h
  cases p with
  | null =>
    have hcut : Reads (skipping ndebug) .type s none := reads_of_typeParse (o := none) hp
    exact .inl ⟨Pointer.ofRest_eq_null.mp (Except.ok.inj h).symm, hcut⟩
  | behind => cases h
  | rest t => exact .inr ⟨t, reads_of_typeParse (o := some t) hp, skips_of_skipExtendedtypeinfo h⟩

lemma nextType_cut (h : Reads (skipping ndebug) .type s none) : nextType ndebug s = .ok .null := by
  rw [nextType, if_neg h.ne_nil, typeParse_skipped h]
  rfl

lemma nextType_skips (htype : Reads (skipping ndebug) .type s (some t)) (h : Skips t o) :
    nextType ndebug s = .ok (.ofRest o) := by
  rw [nextType, if_neg htype.ne_nil, typeParse_skipped htype]
  exact skipExtendedtypeinfo_eq h (Nat.lt_succ_self _)

/-- A string that has been counted can be skipped type by type. -/
lemma passes_of_countFrom {fuel n : ℕ} (h : countFrom ndebug fuel s = .ok n) : Passes ndebug s := by
  induction fuel generalizing s n with
  | zero => cases h
  | succ fuel ih =>
    by_cases hne : s = []
    · rw [hne]
      exact .nil
    · obtain ⟨p, hp, h⟩ := bind_eq_ok.mp h
      cases p with
      | null =>
        obtain ⟨-, hcut⟩ | ⟨t, htype, hskips⟩ := nextType_cases (o := none) hne hp
        · exact .cut hcut
        · exact .unclosed htype hskips
      | behind => cases h
      | rest r =>
        obtain ⟨hnone, -⟩ | ⟨t, htype, hskips⟩ := nextType_cases (o := some r) hne hp
        · cases hnone
        · cases hcount : countFrom ndebug fuel r with
          | error e =>
            have hmap : (· + 1) <$> countFrom ndebug fuel r = .ok n := h
            rw [hcount] at hmap
            cases hmap
          | ok n => exact .cons htype hskips (ih hcount)

lemma Passes.countFrom (h : Passes ndebug s) {fuel : ℕ} (hfuel : s.length < fuel) :
    ∃ n, countFrom ndebug fuel s = .ok n := by
  induction h generalizing fuel with
  | nil =>
    obtain ⟨fuel, rfl⟩ := Nat.exists_eq_add_one.mpr hfuel
    exact ⟨0, rfl⟩
  | cut h =>
    obtain ⟨fuel, rfl⟩ := Nat.exists_eq_add_one.mpr (by omega : 0 < fuel)
    exact ⟨0, by rw [Raw.countFrom, nextType_cut h]; rfl⟩
  | unclosed htype h =>
    obtain ⟨fuel, rfl⟩ := Nat.exists_eq_add_one.mpr (by omega : 0 < fuel)
    exact ⟨0, by rw [Raw.countFrom, nextType_skips htype h]; rfl⟩
  | cons htype hskips h ih =>
    obtain ⟨fuel, rfl⟩ := Nat.exists_eq_add_one.mpr (by omega : 0 < fuel)
    have hlt := htype.length_lt _ rfl
    have hle := (hskips.suffix _ rfl).length_le
    obtain ⟨n, hn⟩ := ih (by omega : _ < fuel)
    refine ⟨n + 1, ?_⟩
    rw [Raw.countFrom, nextType_skips htype hskips]
    simp only [bind, Except.bind, Pointer.ofRest, hn]
    rfl

end EntryPoints

/-! ## Exactly when -/

section Exactly

variable {ndebug : Bool} {level : ℤ} {s t : List Char}

lemma Pointing.null {result : Reading Pointer} (h : result = .ok .null) : Pointing s result :=
  ⟨none, h, by simp, fun _ => rfl⟩

lemma Pointing.rest {result : Reading Pointer} {r : List Char} (h : result = .ok (.rest r)) (hr : r <:+ s)
    (hfirst : FirstType s) : Pointing s result := by
  refine ⟨some r, h, ?_, fun hnot => absurd hfirst hnot⟩
  rintro r ⟨⟩
  exact hr

/-- With an info or without one, when the type is skipped and leads to `NULL`. -/
lemma supplyTypeinfo_null {o : Option (List Char)} (htype : Reads (skipping ndebug) .type s o)
    (ho : ∀ t ∈ o, skipAngles t = none) (info : Bool) : supplyTypeinfo ndebug level info s = .ok .null := by
  have hskipped := typeParse_skipped htype level
  have hparse : typeParse ndebug (s.length + 1) level info (.rest s) = .ok .null ∨
      typeParse ndebug (s.length + 1) level info (.rest s) = .ok (.ofRest o) := by
    cases info with
    | false => exact .inr hskipped
    | true =>
      rcases @typeParse_info ndebug (s.length + 1) level level (.rest s) with h | h | h
      · exact .inl h
      · exact .inr (h.trans hskipped)
      · cases h.symm.trans hskipped
  rcases hparse with h | h
  · rw [supplyTypeinfo, h]
    rfl
  · rw [supplyTypeinfo, h]
    cases o with
    | none => rfl
    | some t =>
      simp only [bind, Except.bind, Pointer.ofRest, ho t rfl]

lemma BreaksOff.robust (h : BreaksOff ndebug s) : Robust ndebug level s := by
  have hnull : (∀ info, signatureSupplyTypeinfo ndebug level info s = .ok .null) ∧ nextType ndebug s = .ok .null := by
    rcases h with hcut | ⟨t, htype, hopen⟩
    · refine ⟨fun info => ?_, nextType_cut hcut⟩
      rw [signatureSupplyTypeinfo, if_neg hcut.ne_nil]
      exact supplyTypeinfo_null hcut (fun t ht => nomatch ht) info
    · refine ⟨fun info => ?_, nextType_skips htype (.unclosed (.angles hopen))⟩
      rw [signatureSupplyTypeinfo, if_neg htype.ne_nil]
      refine supplyTypeinfo_null htype ?_ info
      rintro t ⟨⟩
      exact skipPast_eq_none.mpr hopen
  refine ⟨fun info => .null (hnull.1 info), .null hnull.2, 0, ?_, fun _ => rfl⟩
  rw [countTypeinfos, countFrom, hnull.2]
  rfl

lemma supplyTypeinfo_bracketed {u r : List Char} (htype : Reads encodings .type s (some t))
    (hangles : Bracketed '<' '>' t u) (hquotes : Bracketed '"' '"' u r) (info : Bool) :
    supplyTypeinfo ndebug level info s = .ok (.rest (skipOffset r)) := by
  have hparse : typeParse ndebug (s.length + 1) level info (.rest s) = .ok (.ofRest (some t)) :=
    typeParse_eq htype (accepted_encodings info) (Nat.lt_succ_self _) level
  rw [supplyTypeinfo, hparse]
  simp only [bind, Except.bind, Pointer.ofRest, skipAngles_of_bracketed hangles, skipQuotes_of_bracketed hquotes]
  rfl

lemma Passes.robust (h : Passes ndebug s) (hfirst : FirstType s) : Robust ndebug level s := by
  refine ⟨fun info => ?_, ?_, ?_⟩
  · obtain ⟨t, u, r, htype, hangles, hquotes⟩ := id hfirst
    have hskipped : Reads (skipping ndebug) .type s (some t) := htype.skipped
    refine .rest ((if_neg hskipped.ne_nil).trans (supplyTypeinfo_bracketed htype hangles hquotes info)) ?_ hfirst
    exact (skipOffset_suffix r).trans (hquotes.suffix.trans (hangles.suffix.trans (htype.suffix t rfl)))
  · cases h with
    | nil => exact .null rfl
    | cut h => exact .null (nextType_cut h)
    | unclosed htype h => exact .null (nextType_skips htype h)
    | cons htype hskips h =>
      exact .rest (nextType_skips htype hskips) ((hskips.suffix _ rfl).trans (htype.suffix _ rfl)) hfirst
  · obtain ⟨n, hn⟩ := h.countFrom (Nat.lt_succ_self _)
    exact ⟨n, hn, fun hnot => absurd hfirst hnot⟩

lemma breaksOff_or_firstType (htype : Reads (skipping ndebug) .type s (some t))
    (h : Pointing s (signatureSupplyTypeinfo ndebug level false s)) : BreaksOff ndebug s ∨ FirstType s := by
  obtain ⟨o, ho, -, hfirst⟩ := h
  rw [signatureSupplyTypeinfo, if_neg htype.ne_nil, supplyTypeinfo, typeParse_skipped htype] at ho
  cases hangles : skipAngles t with
  | none =>
    unfold skipAngles at hangles
    split at hangles
    · exact .inl (.inr ⟨_, htype, skipPast_eq_none.mp hangles⟩)
    · cases hangles
  | some u =>
    refine .inr (Classical.byContradiction fun hnot => ?_)
    rw [hfirst hnot] at ho
    simp only [bind, Except.bind, Pointer.ofRest, hangles] at ho
    split at ho
    · cases ho
    · cases ho

/-- The entry points are robust for the empty string, for a first type that breaks off, and for a well formed first type
in a string that can be skipped type by type; for other strings they are not. -/
theorem robust_iff (ndebug : Bool) (level : ℤ) (s : List Char) :
    Robust ndebug level s ↔ s = [] ∨ BreaksOff ndebug s ∨ FirstType s ∧ Passes ndebug s := by
  constructor
  · intro h
    by_cases hne : s = []
    · exact .inl hne
    · right
      obtain ⟨o, ho, -, -⟩ := h.nextType
      obtain ⟨-, hcut⟩ | ⟨t, htype, -⟩ := nextType_cases hne ho
      · exact .inl (.inl hcut)
      · rcases breaksOff_or_firstType htype (h.supplyTypeinfo false) with hbreaks | hfirst
        · exact .inl hbreaks
        · obtain ⟨n, hn, -⟩ := h.countTypeinfos
          exact .inr ⟨hfirst, passes_of_countFrom hn⟩
  · rintro (rfl | hbreaks | ⟨hfirst, hpasses⟩)
    · exact ⟨fun info => .null rfl, .null rfl, 0, rfl, fun _ => rfl⟩
    · exact hbreaks.robust
    · exact hpasses.robust hfirst

/-- A pointer to nothing: each entry point goes on behind the zero. -/
theorem lonePointer_overruns :
    (∀ info, signatureSupplyTypeinfo false 0 info ['^'] = .error .overrun) ∧
      nextType false ['^'] = .error .overrun ∧ countTypeinfos false ['^'] = .error .overrun ∧
      ¬ Robust false 0 ['^'] := by
  have hnext : nextType false ['^'] = .error .overrun := by decide +kernel
  refine ⟨by decide +kernel, hnext, by decide +kernel, fun h => ?_⟩
  obtain ⟨o, ho, -⟩ := h.nextType
  cases hnext.symm.trans ho

end Exactly

end MulleObjcRuntime.Signature.Raw
