import MulleObjcRuntime.Signature.Types

/-!
# Parsing an encoding

The recursive descent finds the type again, and what it does on the way depends on the type only.

* `Ty.info` — the info of a type, computed without a string;
* `typeParse_encode` — the parser returns it, and stops behind the encoding.
-/

namespace MulleObjcRuntime.Signature

variable (l : Layout) (align : ℕ → ℕ → ℕ)

mutual

/-- What the parser finds out. -/
def Ty.info : Ty → TypeInfo
  | .scalar s => (supplyScalarTypeinfo l s.char).2
  | .object => l.objcTypeInfo .object true
  | .block | .functionPointer => l.cTypeInfo .functionptr
  | .voidPointer | .pointer _ => l.cTypeInfo .voidptr
  | .array digits t => updateArrayTypeinfoWithLength (count 0 digits) t.info
  | .struct _ ms => ms.info (structAggregate align) 0 .clear
  | .union _ ms => ms.info unionAggregate 0 .clear

/-- The info after `n` members, updated with the others and finalized. -/
def Members.info : Members → Aggregate → ℕ → TypeInfo → TypeInfo
  | .one t, agg, n, info => agg.finalize (n + 1) (agg.update n info t.info)
  | .cons t ms, agg, n, info => ms.info agg (n + 1) (agg.update n info t.info)

end

/-! ## Characters -/

section Characters

lemma supplyScalarTypeinfo_char (s : Scalar) : (supplyScalarTypeinfo l s.char).1 = 0 := by
  cases s <;> rfl

lemma isMultiCharacterType_char (s : Scalar) : isMultiCharacterType s.char = false := by
  cases s <;> rfl

/-- No encoding starts like this. -/
def Starts (c : Char) : Prop := c ≠ '?' ∧ ¬ ('0' ≤ c ∧ c ≤ '9') ∧ c ≠ '}' ∧ c ≠ ')'

instance : DecidablePred Starts := fun c =>
  inferInstanceAs (Decidable (c ≠ '?' ∧ ¬ ('0' ≤ c ∧ c ≤ '9') ∧ c ≠ '}' ∧ c ≠ ')'))

lemma Ty.encode_head (t : Ty) : ∃ c s, t.encode = c :: s ∧ Starts c := by
  cases t with
  | scalar s => exact ⟨_, _, rfl, by cases s <;> decide⟩
  | object | block | functionPointer | voidPointer | pointer | array | struct | union =>
    exact ⟨_, _, rfl, by decide⟩

lemma Members.encode_head (ms : Members) : ∃ c s, ms.encode = c :: s ∧ Starts c := by
  cases ms with
  | one t => exact t.encode_head
  | cons t ms =>
    obtain ⟨c, s, h, hc⟩ := t.encode_head
    exact ⟨c, s ++ ms.encode, by rw [Members.encode, h, List.cons_append], hc⟩

lemma Ty.encode_pos (t : Ty) : 0 < t.encode.length := by
  obtain ⟨c, s, h, -⟩ := t.encode_head
  rw [h]
  exact Nat.succ_pos _

lemma digitChar_digit : ∀ d : Fin 10,
    ('0' ≤ digitChar d ∧ digitChar d ≤ '9') ∧ (digitChar d).toNat - '0'.toNat = d := by
  decide

lemma le_count (n : ℕ) (digits : List (Fin 10)) : n ≤ count n digits := by
  induction digits generalizing n with
  | nil => exact Nat.le_refl n
  | cons d digits ih => exact Nat.le_trans (by omega) (ih (n * 10 + d))

lemma parseLength_digits (n : ℕ) (hn : n < 2 ^ 31) (digits : List (Fin 10)) (c : Char) (s : List Char)
    (hc : Starts c) :
    parseLength n (digits.map digitChar ++ c :: s) =
      if count n digits < 2 ^ 31 then some (count n digits, c :: s) else none := by
  induction digits generalizing n with
  | nil =>
    rw [List.map_nil, List.nil_append, parseLength, if_neg hc.2.1]
    exact (if_pos hn).symm
  | cons d digits ih =>
    obtain ⟨hdigit, hvalue⟩ := digitChar_digit d
    rw [List.map_cons, List.cons_append, parseLength, if_pos hdigit, hvalue]
    by_cases hfits : n * 10 + (d : ℕ) < 2 ^ 31
    · simp only [hfits, if_true]
      exact ih _ hfits
    · have hle : n * 10 + (d : ℕ) ≤ count n (d :: digits) := le_count (n * 10 + d) digits
      simp only [hfits, if_false]
      rw [if_neg (by omega)]

end Characters

/-! ## The loop over the members -/

section Loop

variable (agg : Aggregate) (parse : List Char → Parsed) (fuel n : ℕ) (info : Option TypeInfo) (s : List Char)

lemma supplyMembersTypeinfo_close :
    supplyMembersTypeinfo agg parse (fuel + 1) n info (agg.close :: s) = some (info.map (agg.finalize n), s) := by
  rw [supplyMembersTypeinfo, if_pos rfl]

lemma supplyMembersTypeinfo_member {c : Char} (hc : c ≠ agg.close) :
    supplyMembersTypeinfo agg parse (fuel + 1) (n + 1) info (c :: s) =
      (parse (c :: s)).bind fun (tmp, s) =>
        supplyMembersTypeinfo agg parse fuel (n + 2)
          (info.bind fun info => tmp.map fun tmp => agg.update (n + 1) info tmp) s := by
  rw [supplyMembersTypeinfo, if_neg hc, if_neg (by omega), if_neg (Nat.succ_ne_zero n)]

end Loop

/-- The name of a struct or a union is skipped. -/
lemma supplyMembersTypeinfo_name (agg : Aggregate) (parse : List Char → Parsed) (info : Option TypeInfo)
    (name s : List Char) (hname : ∀ c ∈ name, c ≠ '=' ∧ c ≠ agg.close) (hclose : agg.close ≠ '=') (fuel : ℕ)
    (hfuel : name.length < fuel) :
    supplyMembersTypeinfo agg parse fuel 0 info (name ++ '=' :: s) =
      (parse s).bind fun (tmp, s) =>
        supplyMembersTypeinfo agg parse (fuel - name.length - 1) 1
          (info.bind fun info => tmp.map fun tmp => agg.update 0 info tmp) s := by
  induction name generalizing fuel with
  | nil =>
    obtain ⟨fuel, rfl⟩ : ∃ k, fuel = k + 1 := ⟨fuel - 1, by simp only [List.length_nil] at hfuel; omega⟩
    rw [List.nil_append, supplyMembersTypeinfo, if_neg (Ne.symm hclose), if_neg (by simp), if_pos rfl]
    rfl
  | cons c name ih =>
    obtain ⟨fuel, rfl⟩ : ∃ k, fuel = k + 1 := ⟨fuel - 1, by omega⟩
    obtain ⟨hne, hnclose⟩ := hname c (List.mem_cons_self ..)
    rw [List.cons_append, supplyMembersTypeinfo, if_neg hnclose, if_pos ⟨rfl, hne⟩,
      ih (fun c hc => hname c (List.mem_cons_of_mem _ hc)) fuel (by simp only [List.length_cons] at hfuel; omega)]
    simp only [List.length_cons]
    rw [show fuel + 1 - (name.length + 1) - 1 = fuel - name.length - 1 by omega]

/-! ## The descent -/

/-- What is asked for is returned. -/
def wanted (info : Bool) (tmp : TypeInfo) : Option TypeInfo := if info then some tmp else none

section Head

variable (fuel : ℕ) (level : ℤ) (info : Bool) (s : List Char)

lemma typeParse_scalar (sc : Scalar) :
    typeParse l align (fuel + 1) level info (sc.char :: s) =
      some (wanted info (supplyScalarTypeinfo l sc.char).2, s) := by
  have hsupply := supplyScalarTypeinfo_char l sc
  have hmulti := isMultiCharacterType_char sc
  rw [typeParse]
  simp only [hsupply, hmulti]
  rw [if_neg (by cases info <;> simp)]
  rfl

lemma typeParse_object (hs : s.head? ≠ some '?') :
    typeParse l align (fuel + 1) level info ('@' :: s) = some (wanted info (l.objcTypeInfo .object true), s) := by
  have hparse : typeParse l align (fuel + 1) level info ('@' :: s) = supplyObjectTypeinfo l info s := by
    cases info <;> rfl
  rw [hparse, supplyObjectTypeinfo]
  · rfl
  · rintro s rfl
    exact hs rfl

lemma typeParse_block :
    typeParse l align (fuel + 1) level info ('@' :: '?' :: s) = some (wanted info (l.cTypeInfo .functionptr), s) := by
  cases info <;> rfl

lemma typeParse_functionPointer :
    typeParse l align (fuel + 2) level info ('^' :: '?' :: s) = some (wanted info (l.cTypeInfo .functionptr), s) := by
  cases info <;> rfl

lemma typeParse_voidPointer :
    typeParse l align (fuel + 2) level info ('^' :: 'v' :: s) = some (wanted info (l.cTypeInfo .voidptr), s) := by
  cases info <;> rfl

lemma typeParse_pointer (hs : s.head? ≠ some '?') {r : Option (List Char)}
    (h : typeParse l align fuel (level + 1) false s = r.map fun s => (none, s)) :
    typeParse l align (fuel + 1) level info ('^' :: s) = r.map fun s => (wanted info (l.cTypeInfo .voidptr), s) := by
  cases info with
  | false =>
    have hparse : typeParse l align (fuel + 1) level false ('^' :: s) = typeParse l align fuel (level + 1) false s := rfl
    rw [hparse, h]
    rfl
  | true =>
    have hparse : typeParse l align (fuel + 1) level true ('^' :: s) =
        parseComplex l align (typeParse l align fuel) (level + 1) true .clear '^' s := rfl
    rw [hparse, parseComplex, if_pos rfl]
    · rw [h]
      cases r <;> rfl
    · rintro s rfl
      exact hs rfl

lemma typeParse_array (hlevel : 0 ≤ level) :
    typeParse l align (fuel + 1) level info ('[' :: s) =
      supplyArrayTypeinfo (typeParse l align fuel (level + 1) info) s := by
  have hne : level + 1 ≠ 0 := by omega
  have hparse : typeParse l align (fuel + 1) level info ('[' :: s) =
      parseComplex l align (typeParse l align fuel) (level + 1) info .clear '[' s := by
    cases info <;> rfl
  rw [hparse, parseComplex, if_neg hne]

lemma typeParse_struct :
    typeParse l align (fuel + 1) level info ('{' :: s) =
      supplyStructTypeinfo align (typeParse l align fuel (level + 1) info) (wanted info .clear) s := by
  cases info <;> rfl

lemma typeParse_union :
    typeParse l align (fuel + 1) level info ('(' :: s) =
      supplyUnionTypeinfo (typeParse l align fuel (level + 1) info) (wanted info .clear) s := by
  cases info <;> rfl

end Head

lemma supplyArrayTypeinfo_eq {parse : List Char → Parsed} {s s' s'' : List Char} {len : ℕ} {counts : Bool}
    {tmp : Option TypeInfo} (hlength : parseLength 0 s = if len < 2 ^ 31 then some (len, s') else none)
    (hmember : parse s' = if counts then some (tmp, ']' :: s'') else none) :
    supplyArrayTypeinfo parse s =
      if decide (len < 2 ^ 31) && counts then some (tmp.map (updateArrayTypeinfoWithLength len), s'') else none := by
  rw [supplyArrayTypeinfo, hlength]
  by_cases hlen : len < 2 ^ 31
  · rw [if_pos hlen, Option.bind_eq_bind, Option.bind_some]
    dsimp only
    rw [hmember, decide_eq_true hlen]
    cases counts <;> rfl
  · rw [if_neg hlen, decide_eq_false hlen]
    rfl

mutual

/-- **The parser finds a type again.**  The induction is on the type, with enough fuel for its characters.  What follows
may not turn an object into a block. -/
theorem typeParse_encode (t : Ty) (fuel : ℕ) (hfuel : t.encode.length ≤ fuel) (level : ℤ) (hlevel : 0 ≤ level)
    (info : Bool) (s : List Char) (hs : s.head? ≠ some '?') :
    typeParse l align fuel level info (t.encode ++ s) =
      if t.counts then some (wanted info (t.info l align), s) else none := by
  have hpos := t.encode_pos
  obtain ⟨fuel, rfl⟩ : ∃ k, fuel = k + 1 := ⟨fuel - 1, by omega⟩
  cases t with
  | scalar sc => exact typeParse_scalar l align fuel level info s sc
  | object => exact typeParse_object l align fuel level info s hs
  | block => exact typeParse_block l align fuel level info s
  | functionPointer =>
    obtain ⟨fuel, rfl⟩ : ∃ k, fuel = k + 1 := ⟨fuel - 1, by simp [Ty.encode] at hfuel; omega⟩
    exact typeParse_functionPointer l align fuel level info s
  | voidPointer =>
    obtain ⟨fuel, rfl⟩ : ∃ k, fuel = k + 1 := ⟨fuel - 1, by simp [Ty.encode] at hfuel; omega⟩
    exact typeParse_voidPointer l align fuel level info s
  | pointer t =>
    obtain ⟨c, s', h, hc⟩ := t.encode_head
    have hhead : (t.encode ++ s).head? ≠ some '?' := by
      rw [h]
      exact fun h => hc.1 (Option.some.inj h)
    have hskip := typeParse_encode t fuel (by simpa [Ty.encode] using hfuel) (level + 1) (by omega) false s hs
    have hr : (if t.counts then some (wanted false (t.info l align), s) else none) =
        (if t.counts then some s else none).map fun s => (none, s) := by
      split <;> rfl
    rw [Ty.encode, List.cons_append, typeParse_pointer l align fuel level info _ hhead (hskip.trans hr), Ty.counts]
    split <;> rfl
  | array digits t =>
    obtain ⟨c, s', ht, hc⟩ := t.encode_head
    have hlength := parseLength_digits 0 (by decide) digits c (s' ++ ']' :: s) hc
    have hmember := typeParse_encode t fuel (by simp [Ty.encode] at hfuel; omega) (level + 1) (by omega) info
      (']' :: s) (by simp)
    rw [ht, List.cons_append] at hmember
    rw [Ty.encode, List.cons_append, typeParse_array l align fuel level info _ hlevel, List.append_assoc,
      List.append_assoc, ht, List.cons_append, List.cons_append, List.nil_append,
      supplyArrayTypeinfo_eq hlength hmember, Ty.counts]
    cases info <;> rfl
  | struct name ms =>
    have hlen : ms.encode.length ≤ fuel := by
      simp [Ty.encode] at hfuel
      omega
    have hclose : '}' ≠ '=' := by decide
    rw [Ty.encode, List.cons_append, typeParse_struct, supplyStructTypeinfo, List.append_assoc, List.append_assoc,
      List.cons_append]
    refine (supplyMembersTypeinfo_name (structAggregate align) _ _ _ _ name.free hclose _ ?_).trans ?_
    · simp only [List.length_append]
      omega
    · refine members_parse ms (structAggregate align) (Or.inl rfl) fuel hlen (level + 1) (by omega) info _ ?_ 0 _ s
      simp only [List.length_append, List.length_cons]
      omega
  | union name ms =>
    have hlen : ms.encode.length ≤ fuel := by
      simp [Ty.encode] at hfuel
      omega
    rw [Ty.encode, List.cons_append, typeParse_union, supplyUnionTypeinfo, List.append_assoc, List.append_assoc,
      List.cons_append]
    refine (supplyMembersTypeinfo_name unionAggregate _ _ _ _ name.free (by decide) _ ?_).trans ?_
    · simp only [List.length_append]
      omega
    · refine members_parse ms unionAggregate (Or.inr rfl) fuel hlen (level + 1) (by omega) info _ ?_ 0 _ s
      simp only [List.length_append, List.length_cons]
      omega

theorem members_parse (ms : Members) (agg : Aggregate) (hclose : agg.close = '}' ∨ agg.close = ')') (fuel : ℕ)
    (hfuel : ms.encode.length ≤ fuel) (level : ℤ) (hlevel : 0 ≤ level) (info : Bool) (loop : ℕ)
    (hloop : ms.encode.length ≤ loop) (n : ℕ) (acc : TypeInfo) (s : List Char) :
    ((typeParse l align fuel level info (ms.encode ++ agg.close :: s)).bind fun (tmp, s) =>
        supplyMembersTypeinfo agg (typeParse l align fuel level info) loop (n + 1)
          ((wanted info acc).bind fun info => tmp.map fun tmp => agg.update n info tmp) s) =
      if ms.counts then some (wanted info (ms.info l align agg n acc), s) else none := by
  cases ms with
  | one t =>
    have hpos := t.encode_pos
    obtain ⟨loop, rfl⟩ : ∃ k, loop = k + 1 := ⟨loop - 1, by simp only [Members.encode] at hloop; omega⟩
    have hend : (agg.close :: s).head? ≠ some '?' := by
      rcases hclose with h | h <;> rw [h] <;> simp
    rw [Members.encode, typeParse_encode t fuel hfuel level hlevel info _ hend, Members.counts]
    split
    · refine (supplyMembersTypeinfo_close agg _ loop (n + 1) _ s).trans ?_
      cases info <;> rfl
    · rfl
  | cons t ms =>
    obtain ⟨c, s', hms, hc⟩ := ms.encode_head
    have hpos := t.encode_pos
    rw [Members.encode, List.length_append] at hloop
    obtain ⟨loop, rfl⟩ : ∃ k, loop = k + 1 := ⟨loop - 1, by omega⟩
    have hend : (ms.encode ++ agg.close :: s).head? ≠ some '?' := by
      rw [hms]
      exact fun h => hc.1 (Option.some.inj h)
    have hlen : t.encode.length + ms.encode.length ≤ fuel := by
      rw [Members.encode, List.length_append] at hfuel
      exact hfuel
    have hne : c ≠ agg.close := by
      rcases hclose with h | h
      · rw [h]
        exact hc.2.2.1
      · rw [h]
        exact hc.2.2.2
    rw [Members.encode, List.append_assoc, typeParse_encode t fuel (by omega) level hlevel info _ hend, Members.counts]
    cases ht : t.counts with
    | false => rfl
    | true =>
      have hrest := members_parse ms agg hclose fuel (by omega) level hlevel info loop (by omega) (n + 1)
        (agg.update n acc (t.info l align)) s
      rw [hms] at hrest ⊢
      refine (supplyMembersTypeinfo_member agg _ loop n _ _ hne).trans (Eq.trans ?_ hrest)
      cases info <;> rfl

end

end MulleObjcRuntime.Signature
