import MulleObjcRuntime.Signature.Reading

/-!
# The parser with its callback

The encoding parser asserts that it gets a callback only together with an info, each time it calls itself.

* `Callbacks.typeParse` — the parser pointer by pointer, with the callback and the assertion;
* `typeParse_eq_raw`, `typeParse_outer` — where the assertion holds, it is the parser of `Raw`;
* `typeParse_outer_array` — at level -1, it does not hold inside of an array.
-/

namespace MulleObjcRuntime.Signature.Raw.Callbacks

section

variable (ndebug : Bool)

/-- The part of `_mulle_objc_type_parse` for the types of several characters, the first of which is `c`. -/
def parseComplex (parse : ℤ → Bool → Bool → Pointer → Reading Pointer) (level : ℤ) (info callback : Bool) (c : Char)
    (s : List Char) : Reading Pointer :=
  match c with
  | '^' =>
    match info, s with
    | true, '?' :: s => .ok (.rest s)
    | _, s => parse level false false (.rest s)
  -- an outer array loses the info, but not the callback
  | '[' => supplyArrayTypeinfo ndebug (parse level (info && level ≠ 0) callback) s
  | 'b' => supplyBitfieldTypeinfo s
  | '@' => supplyObjectTypeinfo s
  | '{' => supplyStructTypeinfo (parse level info callback) s
  | '(' => supplyUnionTypeinfo (parse level info callback) s
  | _ => .ok .null

/-- `_mulle_objc_type_parse` -/
def typeParse : ℕ → ℤ → Bool → Bool → Pointer → Reading Pointer
  | 0, _, _, _, _ => .error .outOfFuel
  | fuel + 1, level, info, callback, type =>
    if callback && !info && !ndebug then .error .aborted
    else
      match type with
      | .rest (c :: s) =>
        if (if info then scalarKind c = 1 else isMultiCharacterType c) then
          parseComplex ndebug (typeParse fuel) (level + 1) info callback c s
        else .ok (.rest s)
      | .rest [] => .ok (if info then .null else .behind)
      | _ => .error .overrun

end

variable {ndebug info callback : Bool} {fuel : ℕ} {level : ℤ}

/-! ## Where the assertion holds -/

lemma parseComplex_eq_raw {parse : ℤ → Bool → Bool → Pointer → Reading Pointer}
    {parse' : ℤ → Bool → Pointer → Reading Pointer} {c : Char} (s : List Char)
    (hskip : parse level false false = parse' level false)
    (harray : c = '[' → parse level (info && level ≠ 0) callback = parse' level (info && level ≠ 0))
    (hmembers : parse level info callback = parse' level info) :
    parseComplex ndebug parse level info callback c s = Raw.parseComplex ndebug parse' level info c s := by
  by_cases hc : isMultiCharacterType c = true
  · rcases complex_cases hc with rfl | rfl | rfl | rfl | ⟨k, rfl⟩
    · exact congrArg (fun parse : Pointer → Reading Pointer => match info, s with
        | true, '?' :: s => (.ok (.rest s) : Reading Pointer)
        | _, s => parse (.rest s)) hskip
    · simp only [parseComplex, Raw.parseComplex, harray rfl]
    · rfl
    · rfl
    · cases k <;> simp only [Kind.opening, parseComplex, Raw.parseComplex, hmembers]
  · rw [parseComplex_unknown hc]
    unfold parseComplex
    split
    all_goals first | rfl | exact absurd rfl hc

lemma typeParse_cons {s : List Char} {c : Char} (h : (callback && !info && !ndebug) = false) :
    typeParse ndebug (fuel + 1) level info callback (.rest (c :: s)) =
      if IsComplex info c then parseComplex ndebug (typeParse ndebug fuel) (level + 1) info callback c s
      else .ok (.rest s) := by
  rw [typeParse, h, if_neg Bool.false_ne_true]
  rfl

/-- Where the info is there, or where there is no callback, or without assertions, the callback does not matter. -/
lemma typeParse_eq_raw (h : callback = true → ndebug = true ∨ (info = true ∧ 0 ≤ level)) :
    typeParse ndebug fuel level info callback = Raw.typeParse ndebug fuel level info := by
  induction fuel generalizing level info callback with
  | zero => rfl
  | succ fuel ih =>
    have hassert : (callback && !info && !ndebug) = false := by
      cases callback with
      | false => rfl
      | true => rcases h rfl with rfl | ⟨rfl, -⟩ <;> simp
    funext p
    cases p with
    | null | behind => simp [typeParse, hassert, Raw.typeParse]
    | rest s =>
      cases s with
      | nil =>
        rw [typeParse, hassert, if_neg Bool.false_ne_true]
        rfl
      | cons c s =>
        rw [typeParse_cons hassert, Raw.typeParse_cons]
        congr 1
        have hinner := fun hcallback => (h hcallback).imp_right (And.imp_right (Int.add_nonneg · Int.one_nonneg))
        refine parseComplex_eq_raw s (ih (by simp)) (fun _ => ih fun hcallback => ?_) (ih hinner)
        refine (h hcallback).imp_right fun hboth => ?_
        simp only [hboth.1, Bool.true_and, decide_eq_true_eq]
        omega

lemma typeParse_without : typeParse ndebug fuel level info false = Raw.typeParse ndebug fuel level info :=
  typeParse_eq_raw (by simp)

lemma typeParse_outer {s : List Char} (h : s.head? ≠ some '[') (hlevel : -1 ≤ level) :
    typeParse ndebug fuel level true true (.rest s) = Raw.typeParse ndebug fuel level true (.rest s) := by
  cases fuel with
  | zero => rfl
  | succ fuel =>
    cases s with
    | nil => rfl
    | cons c s =>
      rw [typeParse_cons rfl, Raw.typeParse_cons]
      congr 1
      refine parseComplex_eq_raw s typeParse_without ?_ (typeParse_eq_raw fun _ => Or.inr ⟨rfl, ?_⟩)
      · rintro rfl
        exact absurd rfl h
      · omega

lemma typeParse_outer_array {s : List Char} {p : Pointer} :
    typeParse false fuel (-1) true true (.rest ('[' :: s)) ≠ .ok p := by
  cases fuel with
  | zero => exact fun h => nomatch h
  | succ fuel =>
    rw [typeParse_cons rfl, if_pos (isComplex_of_isMultiCharacterType true rfl)]
    show supplyArrayTypeinfo false (typeParse false fuel 0 false true) s ≠ .ok p
    rw [supplyArrayTypeinfo, Ne, Lib.Fallible.bind_eq_ok]
    rintro ⟨⟨n, t⟩, -, h⟩
    obtain ⟨q, hq, -⟩ := Lib.Fallible.bind_eq_ok.mp h
    cases fuel with
    | zero => cases hq
    | succ fuel => cases hq

end MulleObjcRuntime.Signature.Raw.Callbacks
