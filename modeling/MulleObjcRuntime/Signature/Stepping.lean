import MulleObjcRuntime.Signature.Hollow

/-!
# Stepping through a signature

Three ways to get from one type of a signature to the next one: with `nextType`, with `supplyTypeinfo`, and with the
enumerator.

* `InStep` — the three ways visit the same starts;
* `Spelling.Skippable` — no struct or union of the type is without members, and behind extended info there is an offset;
* `Visits` — one way visits some starts, step by step;
* `inStep_iff` — the three ways are in step, if all types are skippable.
-/

namespace MulleObjcRuntime.Signature.Raw

open Lib.Fallible

/-! ## Iterating -/

/-- The types that are visited, when `next` gives the next one. -/
def startsBy (next : List Char → Reading Pointer) : ℕ → List Char → Reading (List (List Char))
  | 0, _ => .error .outOfFuel
  | _ + 1, [] => .ok []
  | fuel + 1, c :: s =>
    next (c :: s) >>= fun
      | .null => .ok [c :: s]
      | .rest t => do
        let starts ← startsBy next fuel t
        return (c :: s) :: starts
      | .behind => .error .overrun

section

variable (ndebug : Bool)

/-- `for( ; types && *types; types = mulle_objc_signature_next_type( types))` -/
def nextTypeStarts (types : List Char) : Reading (List (List Char)) :=
  startsBy (nextType ndebug) (types.length + 1) types

/-- The same with `_mulle_objc_signature_supply_typeinfo` -/
def supplyTypeinfoStarts (level : ℤ) (info : Bool) (types : List Char) : Reading (List (List Char)) :=
  startsBy (supplyTypeinfo ndebug level info) (types.length + 1) types

/-- `while( _mulle_objc_signatureenumerator_next( &rover, &info))` -/
def Signatureenumerator.arguments : ℕ → Signatureenumerator → Reading (List (List Char))
  | 0, _ => .error .outOfFuel
  | fuel + 1, rover =>
    rover.next ndebug >>= fun
      | none => .ok []
      | some (type, rover) => do
        let types ← rover.arguments fuel
        return type :: types

/-- The arguments that the enumerator yields, behind the return value. -/
def enumerated (types : List Char) : Reading (Option (List Char) × List (List Char)) := do
  let rover ← signatureEnumerate ndebug types
  let arguments ← rover.arguments ndebug (types.length + 1)
  return (rover.rval, arguments)

/-- The same types are visited, and they are counted right. -/
structure InStep (types : List Char) : Prop where
  starts : ∀ level info, nextTypeStarts ndebug types = supplyTypeinfoStarts ndebug level info types
  enumerator : ∃ rval arguments, enumerated ndebug types = .ok (some rval, arguments) ∧
    nextTypeStarts ndebug types = .ok (rval :: arguments) ∧
    countTypeinfos ndebug types = .ok (arguments.length + 1)

end

/-- A type that all three ways get behind. -/
def Spelling.Skippable (t : Spelling) : Prop := t.hollow = false ∧ (t.extended ≠ [] → t.offset ≠ [])

instance : DecidablePred Spelling.Skippable := fun _ => inferInstanceAs (Decidable (_ ∧ _))

/-! ## Skipping what follows a type -/

section Offset

variable {s r : List Char}

lemma skipExtendedtypeinfo_stop (hr : Stops r) (fuel : ℕ) : skipExtendedtypeinfo (fuel + 1) r = .ok (.rest r) := by
  cases r with
  | nil => rfl
  | cons c r =>
    obtain ⟨hangle, hquote, hminus, hplus, hdigit⟩ := hr c rfl
    rw [skipExtendedtypeinfo, if_neg (by simp [hangle, hquote]), if_neg (by simp [hminus, hplus, hdigit])]

lemma skipExtendedtypeinfo_digits {digits : List Char} (hdigits : ∀ c ∈ digits, isDigit c = true) (hr : Stops r)
    (fuel : ℕ) (hfuel : digits.length < fuel) : skipExtendedtypeinfo fuel (digits ++ r) = .ok (.rest r) := by
  induction digits generalizing fuel with
  | nil =>
    obtain ⟨fuel, rfl⟩ := Nat.exists_eq_add_one.mpr hfuel
    exact skipExtendedtypeinfo_stop hr fuel
  | cons d digits ih =>
    obtain ⟨fuel, rfl⟩ := Nat.exists_eq_add_one.mpr (by omega : 0 < fuel)
    have hdigit := hdigits d (List.mem_cons_self ..)
    have hinfo : ¬ (d = '<' ∨ d = '"') := by
      rintro (rfl | rfl)
      all_goals exact absurd hdigit (by decide)
    rw [List.cons_append, skipExtendedtypeinfo, if_neg hinfo, if_pos (.inr (.inr hdigit))]
    exact ih (fun c hc => hdigits c (List.mem_cons_of_mem _ hc)) fuel (by simpa using hfuel)

lemma skipExtendedtypeinfo_offset (h : Offset s r) (hr : Stops r) (fuel : ℕ) (hfuel : s.length < fuel) :
    skipExtendedtypeinfo fuel s = .ok (.rest r) := by
  obtain ⟨sign, digits, hsign, hdigits, rfl⟩ := h
  simp only [List.length_append] at hfuel
  rcases hsign with rfl | rfl | rfl
  · exact skipExtendedtypeinfo_digits hdigits hr fuel (by omega)
  all_goals
    obtain ⟨fuel, rfl⟩ := Nat.exists_eq_add_one.mpr (by omega : 0 < fuel)
    refine Eq.trans ?_ (skipExtendedtypeinfo_digits hdigits hr fuel (by simp only [List.length_singleton] at hfuel; omega))
    rw [List.cons_append, List.nil_append, skipExtendedtypeinfo, if_neg (by decide), if_pos (by decide)]

end Offset

section Extended

variable {s t u r : List Char}

lemma skipExtendedtypeinfo_extended (h : Extended t u) (fuel : ℕ) :
    skipExtendedtypeinfo (fuel + 1) t =
      match u with
      | [] => .error .overrun
      | _ :: u => skipExtendedtypeinfo fuel u := by
  cases h with
  | angles h =>
    rw [skipExtendedtypeinfo, if_pos (.inl rfl), if_pos rfl, skipPast_body h]
    cases u <;> rfl
  | quotes h =>
    rw [skipExtendedtypeinfo, if_pos (.inr rfl), if_neg (by decide), skipPast_body h]
    cases u <;> rfl

lemma skipPast_length {close : Char} (h : skipPast close s = some t) : t.length < s.length := by
  induction s with
  | nil => cases h
  | cons c s ih =>
    rw [skipPast] at h
    split at h
    · cases h
      exact Nat.lt_succ_self _
    · exact (ih h).trans (Nat.lt_succ_self _)

lemma skipExtendedtypeinfo_length {fuel : ℕ} (h : skipExtendedtypeinfo fuel s = .ok (.rest r)) :
    r.length ≤ s.length := by
  induction fuel generalizing s with
  | zero => cases h
  | succ fuel ih =>
    cases s with
    | nil =>
      cases h
      exact Nat.le_refl _
    | cons c s =>
      rw [skipExtendedtypeinfo] at h
      split at h
      · split at h
        · cases h
        · cases h
        · rename_i d v hskip
          have hlt := skipPast_length hskip
          have hle := ih h
          simp only [List.length_cons] at hlt ⊢
          omega
      · split at h
        · exact (ih h).trans (Nat.le_succ _)
        · cases h
          exact Nat.le_refl _

end Extended

/-! ## Steps -/

section Steps

variable {ndebug : Bool} {s t u r : List Char}

lemma supplyTypeinfo_eq (htype : Reads encodings .type s (some t)) {v : List Char} (hangles : skipAngles t = some v)
    (hquotes : skipQuotes v = .ok u) (hoffset : Offset u r) (hr : Stops r) (level : ℤ) (info : Bool) :
    supplyTypeinfo ndebug level info s = .ok (.rest r) := by
  have htype : typeParse ndebug (s.length + 1) level info (.rest s) = .ok (.ofRest (some t)) :=
    typeParse_eq htype (accepted_encodings info) (Nat.lt_succ_self _) level
  unfold supplyTypeinfo
  simp only [htype, bind, Except.bind, Pointer.ofRest, hangles, hquotes]
  rw [skipOffset_eq hoffset hr]
  rfl

lemma nextType_eq (htype : Reads encodings .type s (some t)) :
    nextType ndebug s = skipExtendedtypeinfo (t.length + 1) t := by
  have hne : s ≠ [] := by
    rintro rfl
    exact Nat.not_lt_zero _ (htype.length_lt t rfl)
  have htype : typeParse ndebug (s.length + 1) (-1) false (.rest s) = .ok (.ofRest (some t)) :=
    typeParse_eq htype.skipped accepted_skipping (Nat.lt_succ_self _) (-1)
  unfold nextType
  simp only [if_neg hne, htype, bind, Except.bind, Pointer.ofRest]

/-- `next` visits the starts and gets to the end of the string. -/
inductive Visits (next : List Char → Reading Pointer) : List Char → List (List Char) → Prop
  | nil : Visits next [] []
  | cons {s r starts} (hnext : next s = .ok (.rest r)) (hlt : r.length < s.length) (h : Visits next r starts) :
    Visits next s (s :: starts)

section Visits

variable {next : List Char → Reading Pointer} {starts : List (List Char)}

lemma Visits.startsBy (h : Visits next s starts) {fuel : ℕ} (hfuel : s.length < fuel) :
    startsBy next fuel s = .ok starts := by
  induction h generalizing fuel with
  | nil =>
    obtain ⟨fuel, rfl⟩ := Nat.exists_eq_add_one.mpr hfuel
    rfl
  | @cons s r starts hnext hlt h ih =>
    obtain ⟨fuel, rfl⟩ := Nat.exists_eq_add_one.mpr (by omega : 0 < fuel)
    cases s with
    | nil => exact absurd hlt (Nat.not_lt_zero _)
    | cons c s =>
      have hrest := ih (by omega : r.length < fuel)
      rw [Raw.startsBy, hnext]
      simp only [bind, Except.bind, hrest]
      rfl

lemma Visits.countFrom (h : Visits (nextType ndebug) s starts) {fuel : ℕ} (hfuel : s.length < fuel) :
    countFrom ndebug fuel s = .ok starts.length := by
  induction h generalizing fuel with
  | nil =>
    obtain ⟨fuel, rfl⟩ := Nat.exists_eq_add_one.mpr hfuel
    rfl
  | @cons s r starts hnext hlt h ih =>
    obtain ⟨fuel, rfl⟩ := Nat.exists_eq_add_one.mpr (by omega : 0 < fuel)
    have hrest := ih (by omega : r.length < fuel)
    rw [Raw.countFrom, hnext]
    simp only [bind, Except.bind, hrest]
    rfl

lemma Visits.arguments (h : Visits (supplyTypeinfo ndebug 0 true) s starts) {fuel : ℕ} (hfuel : s.length < fuel)
    (rval : Option (List Char)) :
    Signatureenumerator.arguments ndebug fuel ⟨(Pointer.rest s).unread, rval⟩ = .ok starts := by
  induction h generalizing fuel with
  | nil =>
    obtain ⟨fuel, rfl⟩ := Nat.exists_eq_add_one.mpr hfuel
    rfl
  | @cons s r starts hnext hlt h ih =>
    obtain ⟨fuel, rfl⟩ := Nat.exists_eq_add_one.mpr (by omega : 0 < fuel)
    cases s with
    | nil => exact absurd hlt (Nat.not_lt_zero _)
    | cons c s =>
      rw [Signatureenumerator.arguments, Signatureenumerator.next, Pointer.unread]
      simp only [hnext, bind, Except.bind, pure, Except.pure]
      rw [ih (by omega)]

lemma Visits.enumerated {rval : List Char} (h : Visits (supplyTypeinfo ndebug 0 true) s (rval :: starts)) :
    enumerated ndebug s = .ok (some rval, starts) := by
  cases h with
  | cons hnext hlt h =>
    have hne : s ≠ [] := by
      rintro rfl
      exact Nat.not_lt_zero _ hlt
    unfold Raw.enumerated
    simp only [signatureEnumerate, if_neg hne, hnext, bind, Except.bind, pure, Except.pure]
    rw [h.arguments (by omega)]

end Visits

end Steps

/-! ## The three ways -/

section Ways

variable {ndebug : Bool} {s : List Char} {types : List Spelling}

lemma Offset.tail {c : Char} {u r : List Char} (h : Offset (c :: u) r) (hne : c :: u ≠ r) : Offset u r := by
  obtain ⟨sign, digits, hsign, hdigits, heq⟩ := h
  rcases hsign with rfl | rfl | rfl
  · cases digits with
    | nil => exact absurd heq hne
    | cons d digits =>
      cases heq
      exact ⟨[], digits, .inl rfl, fun c hc => hdigits c (List.mem_cons_of_mem _ hc), rfl⟩
  all_goals
    cases heq
    exact ⟨[], digits, .inl rfl, hdigits, rfl⟩

lemma nextType_plain {t r : List Char} (htype : Reads encodings .type s (some t)) (hoffset : Offset t r)
    (hr : Stops r) : nextType ndebug s = .ok (.rest r) :=
  (nextType_eq htype).trans (skipExtendedtypeinfo_offset hoffset hr _ (Nat.lt_succ_self _))

lemma nextType_extended {t u r : List Char} (htype : Reads encodings .type s (some t)) (hextended : Extended t u)
    (hoffset : Offset u r) (hr : Stops r) (hne : u ≠ r) : nextType ndebug s = .ok (.rest r) := by
  rw [nextType_eq htype, skipExtendedtypeinfo_extended hextended]
  cases u with
  | nil => exact absurd (List.eq_nil_of_length_eq_zero (Nat.le_zero.mp hoffset.length_le)).symm hne
  | cons c u =>
    have hlt := hextended.length_lt
    exact skipExtendedtypeinfo_offset (hoffset.tail hne) hr _ (by simp only [List.length_cons] at hlt; omega)

section Single

variable {pure extended offset r : List Char}

variable (ndebug) in
lemma supplyTypeinfo_spelled (htype : Reads encodings .type (pure ++ (extended ++ (offset ++ r))) (some (extended ++ (offset ++ r))))
    (hextended : IsExtended extended (offset ++ r)) (hoffset : Offset (offset ++ r) r) (hr : Stops r) (level : ℤ)
    (info : Bool) : supplyTypeinfo ndebug level info (pure ++ (extended ++ (offset ++ r))) = .ok (.rest r) := by
  have hhead := hoffset.head hr
  rcases hextended with rfl | hextended
  · exact supplyTypeinfo_eq htype (skipAngles_of_head fun c hc => (hhead c hc).1)
      (skipQuotes_of_head fun c hc => (hhead c hc).2) hoffset hr level info
  · obtain ⟨v, hangles, hquotes⟩ := skip_of_extended hextended hhead
    exact supplyTypeinfo_eq htype hangles hquotes hoffset hr level info

variable (ndebug) in
/-- `mulle_objc_signature_next_type` finds it, if there is an offset behind extended info. -/
lemma nextType_spelled (htype : Reads encodings .type (pure ++ (extended ++ (offset ++ r))) (some (extended ++ (offset ++ r))))
    (hextended : IsExtended extended (offset ++ r)) (hoffset : Offset (offset ++ r) r) (hr : Stops r)
    (hne : extended ≠ [] → offset ≠ []) :
    nextType ndebug (pure ++ (extended ++ (offset ++ r))) = .ok (.rest r) := by
  by_cases hempty : extended = []
  · subst hempty
    exact nextType_plain htype hoffset hr
  · exact nextType_extended htype (hextended.resolve_left hempty) hoffset hr
      fun heq => hne hempty (List.append_left_eq_self.mp heq)

end Single

variable (ndebug) in
lemma Spells.exists_visits (h : Spells s types) (hskippable : ∀ t ∈ types, t.Skippable) :
    ∃ starts, starts.length = types.length ∧
      (∀ level info, Visits (supplyTypeinfo ndebug level info) s starts) ∧ Visits (nextType ndebug) s starts := by
  induction h with
  | nil => exact ⟨[], rfl, fun _ _ => .nil, .nil⟩
  | @cons pure extended offset r hollow types htype hextended hoffset h ih =>
    obtain ⟨⟨hfull, hoffsets⟩, hskippable⟩ := List.forall_mem_cons.mp hskippable
    obtain ⟨starts, hlength, hsupply, hnext⟩ := ih hskippable
    have hread := htype.reads hfull
    have hlt := Spells.length_lt htype
    exact ⟨_ :: starts, congrArg Nat.succ hlength,
      fun level info => .cons (supplyTypeinfo_spelled ndebug hread hextended hoffset h.stops level info) hlt
        (hsupply level info),
      .cons (nextType_spelled ndebug hread hextended hoffset h.stops hoffsets) hlt hnext⟩

end Ways

section Late

variable {ndebug : Bool} {s t u r : List Char}

/-- The first step of an iteration. -/
lemma startsBy_cases {next : List Char → Reading Pointer} {fuel : ℕ} {starts : List (List Char)} (hne : s ≠ [])
    (h : startsBy next fuel s = .ok starts) :
    ∃ later, starts = s :: later ∧ (next s = .ok .null ∧ later = [] ∨
      ∃ t fuel, next s = .ok (.rest t) ∧ startsBy next fuel t = .ok later) := by
  cases fuel with
  | zero => cases h
  | succ fuel =>
    cases s with
    | nil => exact absurd rfl hne
    | cons c s =>
      obtain ⟨p, hp, h⟩ := bind_eq_ok.mp h
      cases p with
      | null =>
        cases h
        exact ⟨[], rfl, .inl ⟨hp, rfl⟩⟩
      | behind => cases h
      | rest t =>
        obtain ⟨later, hlater, h⟩ := bind_eq_ok.mp h
        cases h
        exact ⟨later, rfl, .inr ⟨t, fuel, hp, hlater⟩⟩

lemma startsBy_unique {next next' : List Char → Reading Pointer} {fuel fuel' : ℕ} {starts : List (List Char)}
    (h : startsBy next fuel s = .ok starts) (h' : startsBy next' fuel' t = .ok starts) : s = t := by
  by_cases hs : s = []
  · by_cases ht : t = []
    · rw [hs, ht]
    · obtain ⟨later, rfl, -⟩ := startsBy_cases ht h'
      rw [hs] at h
      cases fuel <;> cases h
  · obtain ⟨later, rfl, -⟩ := startsBy_cases hs h
    by_cases ht : t = []
    · rw [ht] at h'
      cases fuel' <;> cases h'
    · obtain ⟨later', heq, -⟩ := startsBy_cases ht h'
      exact (List.cons.inj heq).1

lemma nextType_ne (htype : Reads encodings .type s (some t)) (hextended : Extended t u) :
    nextType ndebug s ≠ .ok (.rest u) := by
  rw [nextType_eq htype, skipExtendedtypeinfo_extended hextended]
  cases u with
  | nil => exact fun h => nomatch h
  | cons c u =>
    intro h
    have hle := skipExtendedtypeinfo_length h
    simp only [List.length_cons] at hle
    omega

/-- Behind extended info at the end of a signature, `mulle_objc_signature_next_type` reads on. -/
theorem nextType_overrun (htype : Reads encodings .type s (some t)) (hextended : Extended t []) :
    nextType ndebug s = .error .overrun := by
  rw [nextType_eq htype, skipExtendedtypeinfo_extended hextended]

lemma countFrom_rest {fuel n : ℕ} (hnext : nextType ndebug s = .ok (.rest r)) (h : countFrom ndebug fuel s = .ok (n + 1)) :
    ∃ fuel, countFrom ndebug fuel r = .ok n := by
  cases fuel with
  | zero => cases h
  | succ fuel =>
    rw [countFrom, hnext] at h
    refine ⟨fuel, ?_⟩
    cases hcount : countFrom ndebug fuel r with
    | error e =>
      simp only [bind, Except.bind, hcount] at h
      cases h
    | ok m =>
      simp only [bind, Except.bind, hcount] at h
      exact congrArg _ (Nat.succ.inj (Except.ok.inj h))

lemma countFrom_null {fuel n : ℕ} (hnext : nextType ndebug s = .ok .null) (h : countFrom ndebug fuel s = .ok n) : n = 0 := by
  cases fuel with
  | zero => cases h
  | succ fuel =>
    rw [countFrom, hnext] at h
    exact (Except.ok.inj h).symm

lemma Spells.nextType_ne_rest {types : List Spelling} {x : Spelling} (h : Spells s (x :: types)) (hx : x.hollow = true)
    (hplain : Plain (x :: types)) (r : List Char) : nextType false s ≠ .ok (.rest r) := by
  intro hnext
  unfold nextType at hnext
  split at hnext
  · cases hnext
  · obtain ⟨p, hp, hskip⟩ := bind_eq_ok.mp hnext
    cases p with
    | rest t => exact h.not_typeParse hx hplain _ _ _ t hp
    | null | behind => cases hskip

/-- **When the starts are those of the types and their number is right, all types are skippable.** -/
theorem Spells.skippable {types : List Spelling} (h : Spells s types) (hplain : Plain types) {starts : List (List Char)}
    {fuel fuel' fuel'' : ℕ} (hnext : startsBy (nextType false) fuel s = .ok starts)
    (hsupply : startsBy (supplyTypeinfo false 0 true) fuel' s = .ok starts)
    (hcount : countFrom false fuel'' s = .ok starts.length) : ∀ x ∈ types, x.Skippable := by
  induction h generalizing starts fuel fuel' fuel'' with
  | nil => exact fun x hx => nomatch hx
  | @cons pure extended offset r hollow types htype hextended hoffset h ih =>
    have hlt := Spells.length_lt htype
    have hne : pure ++ (extended ++ (offset ++ r)) ≠ [] := List.ne_nil_of_length_pos (by omega)
    obtain ⟨later, rfl, hstep⟩ := startsBy_cases hne hnext
    -- the type is counted, so the next one is found
    obtain ⟨t, fuel, hrest, hlater⟩ : ∃ t fuel, nextType false (pure ++ (extended ++ (offset ++ r))) = .ok (.rest t) ∧
        startsBy (nextType false) fuel t = .ok later :=
      hstep.resolve_left fun hnull => absurd (countFrom_null hnull.1 hcount) (Nat.succ_ne_zero _)
    cases hollow with
    | true => exact absurd hrest ((Spells.cons htype hextended hoffset h).nextType_ne_rest rfl hplain t)
    | false =>
      have hread := htype.reads rfl
      have hfound := supplyTypeinfo_spelled false hread hextended hoffset h.stops 0 true
      obtain ⟨later', hlist, ⟨hnull, -⟩ | ⟨t', fuel', hrest', hlater'⟩⟩ := startsBy_cases hne hsupply
      · cases hfound.symm.trans hnull
      · cases hfound.symm.trans hrest'
        cases hlist
        cases startsBy_unique hlater hlater'
        obtain ⟨fuel'', hcount⟩ := countFrom_rest hrest hcount
        refine List.forall_mem_cons.mpr ⟨⟨rfl, fun hinfo hempty => ?_⟩,
          ih (List.forall_mem_cons.mp hplain).2 hlater hlater' hcount⟩
        -- without an offset, a character of the next type is skipped
        cases (show offset = [] from hempty)
        exact nextType_ne hread (hextended.resolve_left hinfo) hrest

end Late

/-- **All three ways visit the same types, if every type is skippable**: its structs and unions have members, and an offset
follows its extended info.  With the names of classes and protocols for extended info, they do so only then. -/
theorem inStep_iff {s : List Char} {types : List Spelling} (h : Spells s types) (hne : s ≠ []) :
    ((∀ t ∈ types, t.Skippable) → ∀ ndebug, InStep ndebug s) ∧
      (Plain types → ((∀ ndebug, InStep ndebug s) ↔ ∀ t ∈ types, t.Skippable)) := by
  have hsteps (hskippable : ∀ t ∈ types, t.Skippable) (ndebug : Bool) : InStep ndebug s := by
    obtain ⟨starts, hlength, hsupply, hnext⟩ := h.exists_visits ndebug hskippable
    have hstarts : nextTypeStarts ndebug s = .ok starts := hnext.startsBy (Nat.lt_succ_self _)
    refine ⟨fun level info => hstarts.trans ((hsupply level info).startsBy (Nat.lt_succ_self _)).symm, ?_⟩
    cases starts with
    | nil =>
      cases h with
      | nil => exact absurd rfl hne
      | cons => cases hlength
    | cons rval arguments =>
      exact ⟨rval, arguments, (hsupply 0 true).enumerated, hstarts, hnext.countFrom (Nat.lt_succ_self _)⟩
  refine ⟨hsteps, fun hplain => ⟨fun hall => ?_, hsteps⟩⟩
  obtain ⟨rval, arguments, -, hstarts, hcount⟩ := (hall false).enumerator
  exact h.skippable hplain hstarts (((hall false).starts 0 true).symm.trans hstarts) hcount

/-- A class name, with an offset or without one. -/
def quotedClass (offset : List Char) : List Char := '@' :: '"' :: 'A' :: '"' :: (offset ++ ['@', ':'])

lemma spells_quotedClass {offset : List Char} (hoffset : offset.all isDigit = true) :
    Spells (quotedClass offset) [⟨['@'], ['"', 'A', '"'], offset, false⟩, ⟨['@'], [], [], false⟩, ⟨[':'], [], [], false⟩] :=
  @Spells.cons ['@'] ['"', 'A', '"'] offset ['@', ':'] false _ (.object (by simp))
    (.inr (@Extended.quotes ['A'] _ (by simp))) (.digits hoffset _)
    (.character '@' [] (.object (by decide)) rfl (.scalar ':' [] rfl rfl .nil))

theorem inStep_quotedClass : InStep false (quotedClass ['8']) :=
  (inStep_iff (spells_quotedClass rfl) (by decide)).1 (by decide) false

/-- `"v@:^{x=}i"`: a pointer to a struct without members -/
def hollowPointer : List Char := ['v', '@', ':', '^', '{', 'x', '=', '}', 'i']

lemma spells_hollowPointer :
    Spells hollowPointer [⟨['v'], [], [], false⟩, ⟨['@'], [], [], false⟩, ⟨[':'], [], [], false⟩,
      ⟨['^', '{', 'x', '=', '}'], [], [], true⟩, ⟨['i'], [], [], false⟩] :=
  .scalar 'v' [] rfl rfl (.character '@' [] (.object (by decide)) rfl (.scalar ':' [] rfl rfl
    (@Spells.cons ['^', '{', 'x', '=', '}'] [] [] ['i'] true _
      (.pointer (@Encodes.empty .struct ['x'] ['i'] (by simp [Unnamed, Kind.closing]))) (.inl rfl) .refl
      (.scalar 'i' [] rfl rfl .nil))))

/-- The receiver's type is gone, when it comes directly behind a class name.  A struct without members ends the iterations,
and is not counted. -/
theorem quotedClass_skips_receiver :
    ((∃ types, Spells (quotedClass []) types) ∧
      nextTypeStarts false (quotedClass []) = .ok [quotedClass [], [':']] ∧
      supplyTypeinfoStarts false 0 true (quotedClass []) = .ok [quotedClass [], ['@', ':'], [':']] ∧
      countTypeinfos false (quotedClass []) = .ok 2 ∧
      ¬ InStep false (quotedClass [])) ∧
    (∃ types, Spells hollowPointer types) ∧
      enumerated false hollowPointer =
        .ok (some hollowPointer, [hollowPointer.tail, hollowPointer.drop 2, hollowPointer.drop 3]) ∧
      countTypeinfos false hollowPointer = .ok 3 ∧
      ¬ InStep false hollowPointer := by
  have hnext : nextTypeStarts false (quotedClass []) = .ok [quotedClass [], [':']] := by decide +kernel
  have hsupply : supplyTypeinfoStarts false 0 true (quotedClass []) = .ok [quotedClass [], ['@', ':'], [':']] := by
    decide +kernel
  have henumerated : enumerated false hollowPointer =
      .ok (some hollowPointer, [hollowPointer.tail, hollowPointer.drop 2, hollowPointer.drop 3]) := by
    decide +kernel
  have hcount : countTypeinfos false hollowPointer = .ok 3 := by decide +kernel
  refine ⟨⟨⟨_, spells_quotedClass rfl⟩, hnext, hsupply, by decide +kernel, fun h => ?_⟩,
    ⟨_, spells_hollowPointer⟩, henumerated, hcount, fun h => ?_⟩
  · have heq := (hnext.symm.trans (h.starts 0 true)).trans hsupply
    exact absurd heq (by decide)
  · obtain ⟨rval, arguments, hyielded, -, hcounted⟩ := h.enumerator
    cases henumerated.symm.trans hyielded
    exact absurd (hcount.symm.trans hcounted) (by decide)

end MulleObjcRuntime.Signature.Raw
