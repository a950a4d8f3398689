import MulleObjcRuntime.Signature.Hollow

/-!
# The lenient comparison of signatures

* `strncmp`, `typeinfoCompare` — how two types are compared by their text;
* `methodsignatureCompareLenient` — the two signatures are read in step, behind their return types;
* `Scans` — the types that are read of a string;
* `compareLenient_of_scans` — the result is the lexicographic order of what is read behind the return types;
* `compareLenient_totalPreorder` — so it is a total preorder on the signatures that are read to their ends, and on no
  others.
-/

namespace MulleObjcRuntime.Signature.Raw

/-! ## Comparing two types -/

/-- `strncmp`: the difference of the first characters that differ, as unsigned characters -/
def strncmp : List Char → List Char → ℕ → ℤ
  | _, _, 0 => 0
  | [], [], _ + 1 => 0
  | [], d :: _, _ + 1 => -(d.toNat : ℤ)
  | c :: _, [], _ + 1 => c.toNat
  | c :: s, d :: t, n + 1 => if c = d then strncmp s t n else c.toNat - d.toNat

/-- `_mulle_objc_typeinfo_compare` -/
def typeinfoCompare (a b : Typeinfo) : ℤ :=
  let aLen := a.type.length - a.pureTypeEnd.length
  let bLen := b.type.length - b.pureTypeEnd.length
  let comparison := strncmp a.type b.type (min aLen bLen)
  if comparison ≠ 0 then comparison
  else if aLen ≠ bLen then if aLen < bLen then -1 else 1
  else 0

section

variable (ndebug : Bool)

/-- The loop of `_mulle_objc_methodsignature_compare_lenient` -/
def compareArguments : ℕ → List Char → List Char → Reading ℤ
  | 0, _, _ => .error .outOfFuel
  | fuel + 1, a, b => do
    match ← supplyInfo ndebug a, ← supplyInfo ndebug b with
    | none, none => return 0
    | none, some _ => return -1
    | some _, none => return 1
    | some (aInfo, a), some (bInfo, b) =>
      let comparison := typeinfoCompare aInfo bInfo
      if comparison ≠ 0 then return comparison else compareArguments fuel a b

/-- `_mulle_objc_methodsignature_compare_lenient` -/
def methodsignatureCompareLenient (a b : List Char) : Reading ℤ := do
  -- skip the return values
  match ← supplyInfo ndebug a, ← supplyInfo ndebug b with
  | none, none => return 0
  | none, some _ => return -1
  | some _, none => return 1
  | some (_, a), some (_, b) => compareArguments ndebug (a.length + 1) a b

end

/-! ## The order of the types -/

/-- The order that the sign of a result stands for. -/
def ordering (n : ℤ) : Ordering := compare n 0

section Ordering

variable {n : ℤ}

lemma ordering_lt_iff : ordering n = .lt ↔ n < 0 := Int.compare_eq_lt

lemma ordering_eq_iff : ordering n = .eq ↔ n = 0 := Int.compare_eq_eq

lemma ordering_gt_iff : ordering n = .gt ↔ 0 < n := Int.compare_eq_gt

lemma ordering_isLE_iff : (ordering n).isLE ↔ n ≤ 0 := Int.isLE_compare

lemma sign_eq_neg {m : ℤ} (h : ordering n = (ordering m).swap) : n.sign = -m.sign := by
  cases hm : ordering m with
  | lt =>
    rw [hm] at h
    rw [Int.sign_eq_one_of_pos (ordering_gt_iff.mp h), Int.sign_eq_neg_one_of_neg (ordering_lt_iff.mp hm)]
    rfl
  | eq =>
    rw [hm] at h
    rw [ordering_eq_iff.mp h, ordering_eq_iff.mp hm]
    rfl
  | gt =>
    rw [hm] at h
    rw [Int.sign_eq_neg_one_of_neg (ordering_lt_iff.mp h), Int.sign_eq_one_of_pos (ordering_gt_iff.mp hm)]

lemma ordering_toNat_sub (c d : Char) : ordering (c.toNat - d.toNat : ℤ) = compare c d := by
  have hcompare : compare c d = if c < d then .lt else if c = d then .eq else .gt := rfl
  have hlt : c < d ↔ c.toNat < d.toNat := Iff.rfl
  rw [hcompare]
  split
  · rename_i hless
    have hless : c.toNat < d.toNat := hlt.mp hless
    exact ordering_lt_iff.mpr (by omega)
  · rename_i hnot
    have hnot : ¬ c.toNat < d.toNat := fun h => hnot (hlt.mpr h)
    split
    · rename_i heq
      rw [heq]
      exact ordering_eq_iff.mpr (by omega)
    · rename_i hne
      have hne : c.toNat ≠ d.toNat := fun h => hne (Char.toNat_inj.mp h)
      exact ordering_gt_iff.mpr (by omega)

end Ordering

section Texts

variable {p q : List Char} {r t : List Char}

lemma typeinfoCompare_eq :
    typeinfoCompare ⟨p ++ r, r⟩ ⟨q ++ t, t⟩ =
      if strncmp (p ++ r) (q ++ t) (min p.length q.length) ≠ 0 then
        strncmp (p ++ r) (q ++ t) (min p.length q.length)
      else if p.length ≠ q.length then if p.length < q.length then -1 else 1
      else 0 := by
  simp only [typeinfoCompare, List.length_append, Nat.add_sub_cancel]

lemma typeinfoCompare_nil : typeinfoCompare ⟨[] ++ r, r⟩ ⟨q ++ t, t⟩ = if q = [] then 0 else -1 := by
  rw [typeinfoCompare_eq]
  cases q <;> simp [strncmp]

lemma typeinfoCompare_nil_right (hp : p ≠ []) : typeinfoCompare ⟨p ++ r, r⟩ ⟨[] ++ t, t⟩ = 1 := by
  rw [typeinfoCompare_eq]
  simp [strncmp, hp]

lemma typeinfoCompare_cons (c d : Char) :
    typeinfoCompare ⟨c :: p ++ r, r⟩ ⟨d :: q ++ t, t⟩ =
      if c = d then typeinfoCompare ⟨p ++ r, r⟩ ⟨q ++ t, t⟩ else c.toNat - d.toNat := by
  rw [typeinfoCompare_eq, typeinfoCompare_eq]
  simp only [List.length_cons, Nat.add_min_add_right, List.cons_append, strncmp]
  by_cases hcd : c = d
  · simp [hcd]
  · have hne : c.toNat ≠ d.toNat := fun h => hcd (Char.toNat_inj.mp h)
    have hsub : (c.toNat : ℤ) - d.toNat ≠ 0 := by omega
    rw [if_neg hcd, if_pos hsub, if_neg hcd]

/-- The pure texts are compared as lists of characters: a text that another one goes on from comes first. -/
lemma ordering_typeinfoCompare : ordering (typeinfoCompare ⟨p ++ r, r⟩ ⟨q ++ t, t⟩) = compare p q := by
  induction p generalizing q with
  | nil =>
    rw [typeinfoCompare_nil]
    cases q with
    | nil => rfl
    | cons d q => rfl
  | cons c p ih =>
    cases q with
    | nil =>
      rw [typeinfoCompare_nil_right (List.cons_ne_nil c p)]
      rfl
    | cons d q =>
      rw [typeinfoCompare_cons, List.compare_cons_cons]
      by_cases hcd : c = d
      · have hself : compare d d = .eq := Std.ReflCmp.compare_self
        rw [if_pos hcd, ih, hcd, hself]
        rfl
      · rw [if_neg hcd, ordering_toNat_sub]
        cases hc : compare c d with
        | eq => exact absurd (Std.LawfulEqOrd.eq_of_compare hc) hcd
        | lt => rfl
        | gt => rfl

end Texts

/-! ## What is read -/

/-- The pure types that are read one after the other, up to the end of the string or up to a type that the parser does not
get behind. -/
inductive Scans (ndebug : Bool) : List Char → List (List Char) → Prop
  | stop {s} (h : supplyInfo ndebug s = .ok none) : Scans ndebug s []
  | type {pure t r types} (h : supplyInfo ndebug (pure ++ t) = .ok (some (⟨pure ++ t, t⟩, r)))
    (hlt : r.length < (pure ++ t).length) (hrest : Scans ndebug r types) : Scans ndebug (pure ++ t) (pure :: types)

/-- The pure types, which are all that counts. -/
def pures (types : List Spelling) : List (List Char) := types.map Spelling.pure

section Scans

variable {ndebug : Bool} {a b s : List Char} {as bs : List (List Char)} {types : List Spelling}

variable (ndebug) in
lemma Spells.scans (h : Spells s types) (hfull : Full types) : Scans ndebug s (pures types) := by
  induction h with
  | nil => exact .stop supplyInfo_nil
  | @cons pure extended offset r hollow types htype hextended hoffset h ih =>
    obtain ⟨hhollow, hfull⟩ := full_cons.mp hfull
    exact .type (Spells.supplyInfo ndebug (htype.reads hhollow) hextended hoffset h.stops) (Spells.length_lt htype)
      (ih hfull)

/-- Two strings are read in step, up to the first types that differ or up to the end of one of them. -/
lemma compareArguments_eq (ha : Scans ndebug a as) (hb : Scans ndebug b bs) {fuel : ℕ} (hfuel : a.length < fuel) :
    ∃ n, compareArguments ndebug fuel a b = .ok n ∧ ordering n = compare as bs := by
  induction ha generalizing b bs fuel with
  | stop h =>
    obtain ⟨fuel, rfl⟩ := Nat.exists_eq_add_one.mpr (by omega : 0 < fuel)
    cases hb with
    | stop h' =>
      refine ⟨0, ?_, rfl⟩
      rw [compareArguments, h, h']
      rfl
    | type h' =>
      refine ⟨-1, ?_, rfl⟩
      rw [compareArguments, h, h']
      rfl
  | @type pure t r types h hlt hrest ih =>
    obtain ⟨fuel, rfl⟩ := Nat.exists_eq_add_one.mpr (by omega : 0 < fuel)
    cases hb with
    | stop h' =>
      refine ⟨1, ?_, rfl⟩
      rw [compareArguments, h, h']
      rfl
    | @type pure' t' r' types' h' hlt' hrest' =>
      rw [compareArguments, h, h']
      simp only [bind, Except.bind, Pure.pure, Except.pure, List.compare_cons_cons]
      have hfirst : ordering (typeinfoCompare ⟨pure ++ t, t⟩ ⟨pure' ++ t', t'⟩) = compare pure pure' :=
        ordering_typeinfoCompare
      generalize typeinfoCompare _ _ = comparison at hfirst ⊢
      by_cases hzero : comparison = 0
      · obtain ⟨n, hn, hordering⟩ := ih hrest' (by omega : _ < fuel)
        rw [if_neg (not_not.mpr hzero), ← hfirst, ordering_eq_iff.mpr hzero]
        exact ⟨n, hn, hordering⟩
      · rw [if_pos hzero, ← hfirst]
        refine ⟨comparison, rfl, ?_⟩
        cases hc : ordering comparison with
        | eq => exact absurd (ordering_eq_iff.mp hc) hzero
        | lt => rfl
        | gt => rfl

/-- **The comparison of two strings** has the sign of the lexicographic order of what is read behind their first types; a
string with nothing to be read comes first. -/
theorem compareLenient_of_scans (ha : Scans ndebug a as) (hb : Scans ndebug b bs) :
    ∃ n, methodsignatureCompareLenient ndebug a b = .ok n ∧ ordering n = compare as.tail? bs.tail? := by
  unfold methodsignatureCompareLenient
  cases ha with
  | stop h =>
    cases hb with
    | stop h' => exact ⟨0, by rw [h, h']; rfl, rfl⟩
    | type h' => exact ⟨-1, by rw [h, h']; rfl, rfl⟩
  | type h hlt hrest =>
    cases hb with
    | stop h' => exact ⟨1, by rw [h, h']; rfl, rfl⟩
    | type h' hlt' hrest' =>
      obtain ⟨n, hn, hordering⟩ := compareArguments_eq hrest hrest' (Nat.lt_succ_self _)
      refine ⟨n, ?_, hordering⟩
      rw [h, h']
      exact hn

end Scans

/-! ## The order of the signatures -/

section Signatures

variable {m m' : Methodsignature}

/-- **The comparison of two signatures** has the sign of the lexicographic order of their arguments. -/
theorem compareLenient_eq (ndebug : Bool) (hm : Full m.types) (hm' : Full m'.types) :
    ∃ n, methodsignatureCompareLenient ndebug m.text m'.text = .ok n ∧
      ordering n = compare (pures m.args) (pures m'.args) :=
  compareLenient_of_scans (m.spells.scans ndebug hm) (m'.spells.scans ndebug hm')

end Signatures

/-! ## Structs and unions without members -/

section Hollow

variable {s r r' extended offset : List Char} {types : List Spelling} {t : Spelling}

lemma IsExtended.followed (h : IsExtended extended r) (r' : List Char) : IsExtended extended r' := by
  rcases h.cases with rfl | ⟨body, rfl, hbody⟩ | ⟨body, rfl, hbody⟩
  · exact .inl rfl
  · refine .inr ?_
    rw [List.cons_append, List.append_assoc]
    exact .angles hbody
  · refine .inr ?_
    rw [List.cons_append, List.append_assoc]
    exact .quotes hbody

lemma Offset.followed (h : Offset (offset ++ r) r) (r' : List Char) : Offset (offset ++ r') r' := by
  obtain ⟨sign, digits, hsign, hdigits, heq⟩ := h
  rw [← List.append_assoc] at heq
  exact ⟨sign, digits, hsign, hdigits, by rw [List.append_cancel_right heq, List.append_assoc]⟩

/-- An `int` -/
def intSpelling : Spelling := ⟨['i'], [], [], false⟩

lemma Spells.snoc (h : Spells s types) : Spells (s ++ ['i']) (types ++ [intSpelling]) := by
  induction h with
  | nil => exact .scalar 'i' [] rfl rfl .nil
  | @cons pure extended offset r hollow types htype hextended hoffset h ih =>
    have hends : ¬ Continues (pure ++ (extended ++ (offset ++ r))) ['i'] := by simp [Continues, isDigit]
    have htype := htype.append fun _ _ => hends
    simp only [List.append_assoc] at htype ⊢
    exact .cons htype (hextended.followed _) (hoffset.followed _) ih

/-- The signature with another parameter. -/
def Methodsignature.withParameter (m : Methodsignature) : Methodsignature where
  text := m.text ++ ['i']
  rval := m.rval
  self := m.self
  cmd := m.cmd
  params := m.params ++ [intSpelling]
  spells := m.spells.snoc

lemma plain_snoc (h : Plain types) : Plain (types ++ [intSpelling]) :=
  List.forall_mem_append.mpr ⟨h, List.forall_mem_singleton.mpr (List.forall_mem_nil _)⟩

lemma Spells.supplyInfo_ne (h : Spells s (t :: types)) (ht : t.hollow = true) (hplain : Plain (t :: types))
    (x : Typeinfo × List Char) : Raw.supplyInfo false s ≠ .ok (some x) := by
  intro hinfo
  obtain ⟨p, hp, hskip⟩ := Lib.Fallible.bind_eq_ok.mp hinfo
  cases p with
  | rest r => exact h.not_typeParse ht hplain _ _ _ r hp
  | null | behind => cases hskip

lemma typeinfoCompare_self (p r t : List Char) : typeinfoCompare ⟨p ++ r, r⟩ ⟨p ++ t, t⟩ = 0 := by
  have hself : compare p p = .eq := Std.ReflCmp.compare_self
  exact ordering_eq_iff.mp (ordering_typeinfoCompare.trans hself)

lemma Spells.step_snoc {pure : List Char} (htype : Encodes .type (pure ++ (extended ++ (offset ++ r)))
      (extended ++ (offset ++ r)) false) (hextended : IsExtended extended (offset ++ r)) (hoffset : Offset (offset ++ r) r)
    (h : Spells r types) :
    ∃ t t', Raw.supplyInfo false (pure ++ (extended ++ (offset ++ r))) = .ok (some (⟨pure ++ t, t⟩, r)) ∧
      Raw.supplyInfo false (pure ++ (extended ++ (offset ++ r)) ++ ['i']) = .ok (some (⟨pure ++ t', t'⟩, r ++ ['i'])) := by
  have hends : ¬ Continues (pure ++ (extended ++ (offset ++ r))) ['i'] := by simp [Continues, isDigit]
  have hlonger := htype.append fun _ _ => hends
  simp only [List.append_assoc] at hlonger ⊢
  exact ⟨_, _, Spells.supplyInfo false (htype.reads rfl) hextended hoffset h.stops,
    Spells.supplyInfo false (hlonger.reads rfl) (hextended.followed _) (hoffset.followed _) h.snoc.stops⟩

/-- Two signatures that cannot be read any further at the same place, are equal there. -/
lemma Spells.compareArguments_snoc (h : Spells s types) (hplain : Plain types) (hhollow : ¬ Full types) {fuel : ℕ} {n : ℤ}
    (hn : compareArguments false fuel s (s ++ ['i']) = .ok n) : n = 0 := by
  induction h generalizing fuel with
  | nil => exact absurd (List.forall_mem_nil _) hhollow
  | @cons pure extended offset r hollow types htype hextended hoffset h ih =>
    have hspells := Spells.cons htype hextended hoffset h
    cases fuel with
    | zero => cases hn
    | succ fuel =>
      obtain ⟨x, hx, hn⟩ := Lib.Fallible.bind_eq_ok.mp hn
      obtain ⟨y, hy, hn⟩ := Lib.Fallible.bind_eq_ok.mp hn
      cases hollow with
      | true =>
        cases x with
        | some x => exact absurd hx (hspells.supplyInfo_ne rfl hplain x)
        | none =>
          cases y with
          | some y => exact absurd hy (hspells.snoc.supplyInfo_ne rfl (plain_snoc hplain) y)
          | none => exact (Except.ok.inj hn).symm
      | false =>
        obtain ⟨t, t', ht, ht'⟩ := Spells.step_snoc htype hextended hoffset h
        cases ht.symm.trans hx
        cases ht'.symm.trans hy
        simp only [typeinfoCompare_self, ne_eq, not_true_eq_false, if_false] at hn
        exact ih (List.forall_mem_cons.mp hplain).2 (fun hfull => hhollow (full_cons.mpr ⟨rfl, hfull⟩)) hn

/-- With such a type, a signature is equal to the one with another parameter, if there is a result at all. -/
lemma Methodsignature.compareLenient_withParameter (m : Methodsignature) (hplain : Plain m.types)
    (hhollow : ¬ Full m.types) {n : ℤ}
    (hn : methodsignatureCompareLenient false m.text m.withParameter.text = .ok n) : n = 0 := by
  obtain ⟨s, rval, self, cmd, params, h⟩ := m
  have hspells := h
  cases h with
  | @cons pure extended offset r hollow types htype hextended hoffset h =>
    obtain ⟨x, hx, hn⟩ := Lib.Fallible.bind_eq_ok.mp hn
    obtain ⟨y, hy, hn⟩ := Lib.Fallible.bind_eq_ok.mp hn
    cases hollow with
    | true =>
      cases x with
      | some x => exact absurd hx (hspells.supplyInfo_ne rfl hplain x)
      | none =>
        cases y with
        | some y => exact absurd hy (hspells.snoc.supplyInfo_ne rfl (plain_snoc hplain) y)
        | none => exact (Except.ok.inj hn).symm
    | false =>
      obtain ⟨t, t', ht, ht'⟩ := Spells.step_snoc htype hextended hoffset h
      cases ht.symm.trans hx
      cases ht'.symm.trans hy
      exact h.compareArguments_snoc (List.forall_mem_cons.mp hplain).2
        (fun hfull => hhollow (full_cons.mpr ⟨rfl, hfull⟩)) hn

end Hollow

/-! ## A total preorder -/

/-- On these signatures the comparison is a total preorder, and two signatures are equivalent if they have the same pure types
of arguments. -/
structure Preorders (ndebug : Bool) (S : Methodsignature → Prop) (cmp : Methodsignature → Methodsignature → ℤ) : Prop where
  compares : ∀ a b, S a → S b → methodsignatureCompareLenient ndebug a.text b.text = .ok (cmp a b)
  sign_eq_neg : ∀ a b, S a → S b → (cmp a b).sign = -(cmp b a).sign
  trans : ∀ a b c, S a → S b → S c → cmp a b ≤ 0 → cmp b c ≤ 0 → cmp a c ≤ 0
  eq_zero_iff : ∀ a b, S a → S b → (cmp a b = 0 ↔ pures a.args = pures b.args)

/-- Signatures that are read to their ends are in the order of their arguments. -/
lemma preorders_of_full (ndebug : Bool) {S : Methodsignature → Prop} (hfull : ∀ m, S m → Full m.types) :
    ∃ cmp, Preorders ndebug S cmp := by
  have hcompares : ∀ a b, ∃ n, S a → S b → methodsignatureCompareLenient ndebug a.text b.text = .ok n ∧
      ordering n = compare (pures a.args) (pures b.args) := by
    intro a b
    by_cases h : S a ∧ S b
    · obtain ⟨n, hn⟩ := compareLenient_eq ndebug (hfull a h.1) (hfull b h.2)
      exact ⟨n, fun _ _ => hn⟩
    · exact ⟨0, fun ha hb => absurd ⟨ha, hb⟩ h⟩
  choose cmp hcmp using hcompares
  refine ⟨cmp, fun a b ha hb => (hcmp a b ha hb).1, ?_, ?_, ?_⟩
  · intro a b ha hb
    apply sign_eq_neg
    rw [(hcmp a b ha hb).2, (hcmp b a hb ha).2]
    exact Std.OrientedCmp.eq_swap
  · intro a b c ha hb hc
    simp only [← ordering_isLE_iff, (hcmp _ _ _ _).2, ha, hb, hc]
    exact Std.TransCmp.isLE_trans
  · intro a b ha hb
    rw [← ordering_eq_iff, (hcmp a b ha hb).2]
    exact Std.LawfulEqOrd.compare_eq_iff_eq

/-- **The lenient comparison is a total preorder on signatures of methods in which every struct and every union has
members.**  It is on no others: where another parameter does not matter, all of them are such. -/
theorem compareLenient_totalPreorder (S : Methodsignature → Prop) :
    ((∀ m, S m → Full m.types) → ∀ ndebug, ∃ cmp, Preorders ndebug S cmp) ∧
      ((∀ m, S m → Plain m.types) → (∀ m, S m → S m.withParameter) →
        ((∀ ndebug, ∃ cmp, Preorders ndebug S cmp) ↔ ∀ m, S m → Full m.types)) := by
  refine ⟨fun hfull ndebug => preorders_of_full ndebug hfull,
    fun hplain hmore => ⟨fun h m hm => ?_, fun hfull ndebug => preorders_of_full ndebug hfull⟩⟩
  obtain ⟨cmp, hcmp⟩ := h false
  by_contra hhollow
  have hzero : cmp m m.withParameter = 0 :=
    m.compareLenient_withParameter (hplain m hm) hhollow (hcmp.compares m _ hm (hmore m hm))
  have hlength := congrArg List.length ((hcmp.eq_zero_iff m _ hm (hmore m hm)).mp hzero)
  simp [pures, Methodsignature.args, Methodsignature.withParameter] at hlength

section Samples

/-- `"v16@0:8"` -/
def withoutParameter : Methodsignature where
  text := "v16@0:8".toList
  rval := ⟨['v'], [], ['1', '6'], false⟩
  self := ⟨['@'], [], ['0'], false⟩
  cmd := ⟨[':'], [], ['8'], false⟩
  params := []
  spells := .scalar 'v' ['1', '6'] rfl rfl (.character '@' ['0'] (.object (by simp)) rfl (.scalar ':' ['8'] rfl rfl .nil))

lemma unnamed_x : Unnamed .struct ['x'] := by simp [Unnamed, Kind.closing]

/-- `"v24@0:8^{x=}16"`: a parameter that points to a struct without members -/
def hollowParameter : Methodsignature where
  text := "v24@0:8^{x=}16".toList
  rval := ⟨['v'], [], ['2', '4'], false⟩
  self := ⟨['@'], [], ['0'], false⟩
  cmd := ⟨[':'], [], ['8'], false⟩
  params := [⟨['^', '{', 'x', '=', '}'], [], ['1', '6'], true⟩]
  spells := .scalar 'v' ['2', '4'] rfl rfl (.character '@' ['0'] (.object (by simp)) rfl (.scalar ':' ['8'] rfl rfl
    (@Spells.cons ['^', '{', 'x', '=', '}'] [] ['1', '6'] [] true [] (.pointer (@Encodes.empty .struct ['x'] _ unnamed_x))
      (.inl rfl) (.digits rfl []) .nil)))

/-- **Signatures with different numbers of arguments are equal**, when a struct has no members. -/
theorem hollowParameter_equal :
    methodsignatureCompareLenient false hollowParameter.text withoutParameter.text = .ok 0 ∧
      hollowParameter.args.length ≠ withoutParameter.args.length ∧
      ¬ ∃ cmp, Preorders false (fun _ => True) cmp := by
  have hequal : methodsignatureCompareLenient false hollowParameter.text withoutParameter.text = .ok 0 := by decide +kernel
  refine ⟨hequal, by decide, ?_⟩
  rintro ⟨cmp, hcmp⟩
  have hzero := hcmp.compares hollowParameter withoutParameter trivial trivial
  rw [hequal] at hzero
  have hpures := (hcmp.eq_zero_iff hollowParameter withoutParameter trivial trivial).mp (Except.ok.inj hzero).symm
  exact absurd hpures (by decide)

end Samples

end MulleObjcRuntime.Signature.Raw
