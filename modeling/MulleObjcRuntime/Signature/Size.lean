import MulleObjcRuntime.Signature.Parse

/-!
# Sizes and alignments

The size and the alignment that are reported for an encoding, compared with the layout of the type in C.

* `Ty.Agrees` — what is reported is right;
* `Ty.Regular` — no union needs padding, and no number is too large;
* `Exact` — the info of a type, given its layout;
* `all_agrees_iff` — a type and all types in it are reported right exactly when they are regular.
-/

namespace MulleObjcRuntime.Signature

open Lib.Alignment

variable (l : Layout) (align : ℕ → ℕ → ℕ)

/-- The helper for alignments rounds up to every alignment of a type, in bits. -/
def RoundsUp : Prop :=
  ∀ t p, p + l.alignof t * 8 < 2 ^ 64 → align p (l.alignof t * 8) = roundUp p (l.alignof t * 8)

/-- The natural size, and the size and the alignment that callers get, are those of the layout. -/
def Ty.Agrees (t : Ty) : Prop :=
  (∃ info, supplyTypeinfo l align true t.encode = some (some info, []) ∧ info.naturalSize = t.size l) ∧
    supplySizeAndAlignment l align t.encode = some (t.size l, t.alignment l, [])

/-- The largest member of a union leaves no room up to its alignment.  The size fits into an `unsigned int`, for a struct
the size in bits does, and lengths of arrays into an `int`. -/
def Ty.Regular : Ty → Prop
  | .pointer t => (Ty.pointer t).size l < 2 ^ 32 ∧ t.counts
  | .array digits t => (Ty.array digits t).size l < 2 ^ 32 ∧ count 0 digits < 2 ^ 31
  | .struct name ms => 8 * (Ty.struct name ms).size l < 2 ^ 32
  | .union name ms => (Ty.union name ms).size l < 2 ^ 32 ∧ ms.alignment l ∣ ms.largest l
  | t => t.size l < 2 ^ 32

instance decidableRegular (t : Ty) : Decidable (t.Regular l) :=
  match t with
  | .pointer _ | .array _ _ | .union _ _ => inferInstanceAs (Decidable (_ ∧ _))
  | .struct _ _ | .scalar _ | .object | .block | .functionPointer | .voidPointer => inferInstanceAs (Decidable (_ < _))

/-! ## What callers get -/

section Callers

variable (t : Ty)

lemma supplyTypeinfo_encode :
    supplyTypeinfo l align true t.encode = if t.counts then some (some (t.info l align), []) else none := by
  have hparse := typeParse_encode l align t t.encode.length (Nat.le_refl _) 0 (Int.le_refl 0) true [] (by simp)
  rw [List.append_nil] at hparse
  rw [supplyTypeinfo, hparse]
  split <;> rfl

lemma supplySizeAndAlignment_encode :
    supplySizeAndAlignment l align t.encode =
      if t.counts then some (unsigned 32 ((t.info l align).bitsSize / 8), (t.info l align).naturalAlignment, [])
      else none := by
  have hguard : (guard (t.encode ≠ []) : Option Unit) = some () := if_pos (List.ne_nil_of_length_pos t.encode_pos)
  rw [supplySizeAndAlignment, supplyTypeinfo_encode, hguard]
  split <;> rfl

lemma Ty.agrees_iff :
    t.Agrees l align ↔ t.counts = true ∧ (t.info l align).naturalSize = t.size l ∧
      unsigned 32 ((t.info l align).bitsSize / 8) = t.size l ∧ (t.info l align).naturalAlignment = t.alignment l := by
  rw [Ty.Agrees, supplyTypeinfo_encode, supplySizeAndAlignment_encode]
  cases t.counts with
  | false => simp
  | true => simp

end Callers

/-! ## Exact infos -/

/-- The info of a type of this size and alignment. -/
structure Exact (size alignment : ℕ) (info : TypeInfo) : Prop where
  naturalSize : info.naturalSize = size
  bitsSize : info.bitsSize = size * 8
  bitsStructAlignment : info.bitsStructAlignment = alignment * 8
  naturalAlignment : info.naturalAlignment = alignment

section Exactness

lemma unsigned_of_lt {bits n : ℕ} (h : n < 2 ^ bits) : unsigned bits n = n := Nat.mod_eq_of_lt h

lemma exact_typeInfo (t : CType) (hasObject hasRetainableType : Bool) (h : l.sizeof t < 2 ^ 32) :
    Exact (l.sizeof t) (l.alignof t) (l.typeInfo t hasObject hasRetainableType) := by
  have hlt := l.alignof_lt t
  refine ⟨unsigned_of_lt (by omega), unsigned_of_lt (by omega), unsigned_of_lt hlt, unsigned_of_lt (by omega)⟩

lemma exact_scalar (s : Scalar) (h : l.sizeof s.ctype < 2 ^ 32) :
    Exact (l.sizeof s.ctype) (l.alignof s.ctype) (supplyScalarTypeinfo l s.char).2 := by
  cases s <;> exact exact_typeInfo l _ _ _ h

mutual

lemma Ty.alignment_eq (t : Ty) : ∃ c, t.alignment l = l.alignof c := by
  cases t with
  | scalar | object | block | functionPointer | voidPointer | pointer => exact ⟨_, rfl⟩
  | array _ t => exact t.alignment_eq
  | struct _ ms | union _ ms => exact ms.alignment_eq

lemma Members.alignment_eq (ms : Members) : ∃ c, ms.alignment l = l.alignof c := by
  cases ms with
  | one t => exact t.alignment_eq
  | cons t ms =>
    obtain ⟨c, hc⟩ := t.alignment_eq
    obtain ⟨c', hc'⟩ := ms.alignment_eq
    rw [Members.alignment, hc, hc']
    rcases Nat.le_total (l.alignof c) (l.alignof c') with h | h
    · exact ⟨c', Nat.max_eq_right h⟩
    · exact ⟨c, Nat.max_eq_left h⟩

end

lemma Ty.alignment_pos (t : Ty) : 0 < t.alignment l := by
  obtain ⟨c, hc⟩ := t.alignment_eq l
  rw [hc]
  exact l.alignof_pos c

lemma Members.alignment_pos (ms : Members) : 0 < ms.alignment l := by
  obtain ⟨c, hc⟩ := ms.alignment_eq l
  rw [hc]
  exact l.alignof_pos c

lemma Members.le_placed (ms : Members) (o : ℕ) : o ≤ ms.placed l o := by
  cases ms with
  | one t =>
    rw [Members.placed]
    exact Nat.le_trans (le_roundUp (t.alignment_pos l)) (Nat.le_add_right _ _)
  | cons t ms =>
    rw [Members.placed]
    refine Nat.le_trans ?_ (ms.le_placed _)
    exact Nat.le_trans (le_roundUp (t.alignment_pos l)) (Nat.le_add_right _ _)

/-- The infos of the members are exact. -/
def Members.Exacts : Members → Prop
  | .one t => Exact (t.size l) (t.alignment l) (t.info l align)
  | .cons t ms => Exact (t.size l) (t.alignment l) (t.info l align) ∧ ms.Exacts

/-- A struct after some members: where they end, and the largest alignment so far. -/
structure Placed (offset alignment : ℕ) (info : TypeInfo) : Prop where
  bitsSize : info.bitsSize = offset * 8
  bitsStructAlignment : info.bitsStructAlignment = alignment * 8
  naturalAlignment : info.naturalAlignment = alignment
  aligned : ∃ c, alignment = l.alignof c

variable {l align} {info tmp : TypeInfo} {o a : ℕ} {t : Ty}

lemma roundUp_eight {n b : ℕ} (hb : 0 < b) : roundUp (n * 8) (b * 8) = roundUp n b * 8 := by
  rw [Nat.mul_comm n, Nat.mul_comm b, roundUp_mul (by decide) hb, Nat.mul_comm]

lemma placed_first (htmp : Exact (t.size l) (t.alignment l) tmp) :
    Placed l (roundUp 0 (t.alignment l) + t.size l) (t.alignment l)
      (updateStructTypeinfoWithFirstMemberTypeinfo info tmp) := by
  have hzero : roundUp 0 (t.alignment l) = 0 := (roundUp_eq_self_iff (t.alignment_pos l)).2 (Nat.dvd_zero _)
  refine ⟨?_, htmp.bitsStructAlignment, htmp.naturalAlignment, t.alignment_eq l⟩
  rw [hzero, Nat.zero_add]
  exact htmp.bitsSize

/-- Every other member is placed at its alignment. -/
lemma Placed.subsequent (halign : RoundsUp l align) (h : Placed l o a info)
    (htmp : Exact (t.size l) (t.alignment l) tmp) (hlt : (roundUp o (t.alignment l) + t.size l) * 8 < 2 ^ 32) :
    Placed l (roundUp o (t.alignment l) + t.size l) (max a (t.alignment l))
      (updateStructTypeinfoWithSubsequentMemberTypeinfo align info tmp) := by
  obtain ⟨c, hc⟩ := t.alignment_eq l
  obtain ⟨c', hc'⟩ := h.aligned
  have hle := le_roundUp (n := o) (t.alignment_pos l)
  have hpow := l.alignof_lt c
  have hsmall : o * 8 + l.alignof c * 8 < 2 ^ 64 := by omega
  have hround : align (o * 8) (t.alignment l * 8) = roundUp o (t.alignment l) * 8 := by
    rw [hc, halign c (o * 8) hsmall, roundUp_eight (l.alignof_pos c)]
  refine ⟨?_, ?_, ?_, ?_⟩
  · show unsigned 64 (unsigned 32 (align info.bitsSize tmp.bitsStructAlignment) + tmp.bitsSize) = _
    rw [h.bitsSize, htmp.bitsStructAlignment, htmp.bitsSize, hround, unsigned_of_lt (n := roundUp _ _ * 8) (by omega),
      unsigned_of_lt (by omega), Nat.add_mul]
  · show max info.bitsStructAlignment tmp.bitsStructAlignment = _
    rw [h.bitsStructAlignment, htmp.bitsStructAlignment]
    omega
  · show max info.naturalAlignment tmp.naturalAlignment = _
    rw [h.naturalAlignment, htmp.naturalAlignment]
  · rcases Nat.le_total a (t.alignment l) with hle | hle
    · exact ⟨c, (Nat.max_eq_right hle).trans hc⟩
    · exact ⟨c', (Nat.max_eq_left hle).trans hc'⟩

lemma Placed.finalize (halign : RoundsUp l align) (h : Placed l o a info) (hlt : roundUp o a * 8 < 2 ^ 32) (n : ℕ) :
    Exact (roundUp o a) a (finalizeStructTypeinfo align n info) := by
  obtain ⟨c, rfl⟩ := h.aligned
  have hle := le_roundUp (n := o) (l.alignof_pos c)
  have hpow := l.alignof_lt c
  have hbits : unsigned 32 (align info.bitsSize info.bitsStructAlignment) = roundUp o (l.alignof c) * 8 := by
    rw [h.bitsSize, h.bitsStructAlignment, halign c (o * 8) (by omega), roundUp_eight (l.alignof_pos c),
      unsigned_of_lt hlt]
  refine ⟨?_, hbits, h.bitsStructAlignment, h.naturalAlignment⟩
  show unsigned 32 (align info.bitsSize info.bitsStructAlignment) / 8 = _
  rw [hbits, Nat.mul_div_cancel _ (by decide)]

end Exactness

section Aggregates

variable {l align}

lemma Placed.members (halign : RoundsUp l align) (ms : Members) (hms : ms.Exacts l align) {info : TypeInfo} {o a : ℕ}
    (h : Placed l o a info) (hlt : roundUp (ms.placed l o) (max a (ms.alignment l)) * 8 < 2 ^ 32) (n : ℕ) :
    Exact (roundUp (ms.placed l o) (max a (ms.alignment l))) (max a (ms.alignment l))
      (ms.info l align (structAggregate align) (n + 1) info) := by
  have hpos : 0 < max a (ms.alignment l) := Nat.lt_of_lt_of_le (ms.alignment_pos l) (Nat.le_max_right ..)
  have hle : ms.placed l o ≤ roundUp (ms.placed l o) (max a (ms.alignment l)) := le_roundUp hpos
  have hsmall : ms.placed l o * 8 < 2 ^ 32 := by omega
  cases ms with
  | one t => exact (h.subsequent halign hms hsmall).finalize halign hlt (n + 2)
  | cons t ms =>
    rw [Members.placed] at hsmall
    have hrest := ms.le_placed l (roundUp o (t.alignment l) + t.size l)
    have hplaced := h.subsequent halign hms.1 (by omega)
    have hmax : max a ((Members.cons t ms).alignment l) = max (max a (t.alignment l)) (ms.alignment l) :=
      (Nat.max_assoc ..).symm
    rw [hmax] at hlt ⊢
    exact hplaced.members halign ms hms.2 hlt (n + 1)

/-- **A struct is laid out as in C.** -/
lemma exact_struct (halign : RoundsUp l align) (name : Name '}') (ms : Members) (hms : ms.Exacts l align)
    (hlt : 8 * (Ty.struct name ms).size l < 2 ^ 32) :
    Exact ((Ty.struct name ms).size l) ((Ty.struct name ms).alignment l) ((Ty.struct name ms).info l align) := by
  rw [Nat.mul_comm] at hlt
  cases ms with
  | one t => exact (placed_first hms).finalize halign hlt 1
  | cons t ms => exact (placed_first hms.1).members halign ms hms.2 hlt 0

/-- What a union has after some members: the largest size and the largest alignment. -/
lemma Exact.members (ms : Members) (hms : ms.Exacts l align) {info : TypeInfo} {m a : ℕ} (h : Exact m a info) (n : ℕ) :
    Exact (max m (ms.largest l)) (max a (ms.alignment l)) (ms.info l align unionAggregate n info) := by
  have hupdate : ∀ {t : Ty} (_ : Exact (t.size l) (t.alignment l) (t.info l align)), Exact (max m (t.size l))
      (max a (t.alignment l)) (updateUnionTypeinfoWithMemberTypeinfo info (t.info l align)) := by
    intro t ht
    refine ⟨?_, ?_, ?_, ?_⟩ <;> simp only [updateUnionTypeinfoWithMemberTypeinfo]
    · rw [h.naturalSize, ht.naturalSize]
    · rw [h.bitsSize, ht.bitsSize]
      omega
    · rw [h.bitsStructAlignment, ht.bitsStructAlignment]
      omega
    · rw [h.naturalAlignment, ht.naturalAlignment]
  cases ms with
  | one t =>
    have ht := hupdate hms
    exact ⟨ht.naturalSize, ht.bitsSize, ht.bitsStructAlignment, ht.naturalAlignment⟩
  | cons t ms =>
    have ht := (hupdate hms.1).members ms hms.2 (n + 1)
    rw [Nat.max_assoc, Nat.max_assoc] at ht
    exact ht

/-- **A union has the size of its largest member.** -/
lemma exact_union (name : Name ')') (ms : Members) (hms : ms.Exacts l align) :
    Exact (ms.largest l) (ms.alignment l) ((Ty.union name ms).info l align) := by
  have hclear : Exact 0 0 TypeInfo.clear := ⟨rfl, rfl, rfl, rfl⟩
  have hunion := hclear.members ms hms 0
  rw [Nat.zero_max, Nat.zero_max] at hunion
  exact hunion

lemma exact_array (digits : List (Fin 10)) (t : Ty) (ht : Exact (t.size l) (t.alignment l) (t.info l align))
    (hlt : (Ty.array digits t).size l < 2 ^ 32) :
    Exact ((Ty.array digits t).size l) ((Ty.array digits t).alignment l) ((Ty.array digits t).info l align) := by
  rw [Ty.size] at hlt ⊢
  refine ⟨?_, ?_, ht.bitsStructAlignment, ht.naturalAlignment⟩
  · show unsigned 64 (count 0 digits * (t.info l align).naturalSize) = _
    rw [ht.naturalSize]
    exact unsigned_of_lt (by omega)
  · show unsigned 64 (count 0 digits * (t.info l align).bitsSize) = _
    rw [ht.bitsSize, ← Nat.mul_assoc]
    exact unsigned_of_lt (by omega)

mutual

/-- **The infos of regular types are exact.** -/
theorem Ty.exact (halign : RoundsUp l align) (t : Ty) (ht : t.All (Ty.Regular l)) :
    Exact (t.size l) (t.alignment l) (t.info l align) := by
  cases t with
  | scalar s => exact exact_scalar l s ht
  | object => exact exact_typeInfo l _ _ _ ht
  | block => exact exact_typeInfo l _ _ _ ht
  | functionPointer => exact exact_typeInfo l _ _ _ ht
  | voidPointer => exact exact_typeInfo l _ _ _ ht
  | pointer t => exact exact_typeInfo l _ _ _ ht.1
  | array digits t => exact exact_array digits t (t.exact halign ht.2) ht.1.1
  | struct name ms => exact exact_struct halign name ms (ms.exacts halign ht.2) ht.1
  | union name ms =>
    have hunion := exact_union name ms (ms.exacts halign ht.2)
    rw [Ty.size, (roundUp_eq_self_iff (ms.alignment_pos l)).2 ht.1.2]
    exact hunion

theorem Members.exacts (halign : RoundsUp l align) (ms : Members) (hms : ms.All (Ty.Regular l)) :
    ms.Exacts l align := by
  cases ms with
  | one t => exact t.exact halign hms
  | cons t ms => exact ⟨t.exact halign hms.1, ms.exacts halign hms.2⟩

end

mutual

lemma Ty.counts_of_regular (t : Ty) (ht : t.All (Ty.Regular l)) : t.counts = true := by
  cases t with
  | scalar | object | block | functionPointer | voidPointer => rfl
  | pointer t => exact ht.2
  | array digits t =>
    rw [Ty.counts, Bool.and_eq_true]
    exact ⟨decide_eq_true ht.1.2, t.counts_of_regular ht.2⟩
  | struct _ ms | union _ ms => exact ms.counts_of_regular ht.2

lemma Members.counts_of_regular (ms : Members) (hms : ms.All (Ty.Regular l)) : ms.counts = true := by
  cases ms with
  | one t => exact t.counts_of_regular hms
  | cons t ms =>
    rw [Members.counts, Bool.and_eq_true]
    exact ⟨t.counts_of_regular hms.1, ms.counts_of_regular hms.2⟩

end

end Aggregates

/-! ## Which encodings are reported right -/

section Reported

variable {l align}

/-- **A regular type is reported right.** -/
theorem Ty.agrees_of_regular (halign : RoundsUp l align) (t : Ty) (ht : t.All (Ty.Regular l)) : t.Agrees l align := by
  have hexact := t.exact halign ht
  have hlt : t.size l < 2 ^ 32 := by
    cases t with
    | scalar | object | block | functionPointer | voidPointer => exact ht
    | pointer => exact ht.1
    | array | union => exact ht.1.1
    | struct =>
      have h := ht.1
      rw [Ty.Regular] at h
      omega
  refine (t.agrees_iff l align).2 ⟨t.counts_of_regular ht, hexact.naturalSize, ?_, hexact.naturalAlignment⟩
  rw [hexact.bitsSize, Nat.mul_div_cancel _ (by decide), unsigned_of_lt hlt]

lemma struct_naturalSize_lt (ms : Members) (n : ℕ) (info : TypeInfo) :
    8 * (ms.info l align (structAggregate align) n info).naturalSize < 2 ^ 32 := by
  cases ms with
  | one t =>
    show 8 * (unsigned 32 _ / 8) < 2 ^ 32
    have hlt : ∀ b, unsigned 32 b < 2 ^ 32 := fun b => Nat.mod_lt b (by decide)
    have := Nat.mul_div_le (unsigned 32 (align ((structAggregate align).update n info (t.info l align)).bitsSize
      ((structAggregate align).update n info (t.info l align)).bitsStructAlignment)) 8
    exact Nat.lt_of_le_of_lt this (hlt _)
  | cons t ms => exact struct_naturalSize_lt ms _ _

lemma Ty.Agrees.size_lt {t : Ty} (h : t.Agrees l align) : t.size l < 2 ^ 32 := by
  obtain ⟨-, -, hsize, -⟩ := (t.agrees_iff l align).1 h
  rw [← hsize]
  exact Nat.mod_lt _ (by decide)

mutual

/-- **What is reported right, with all types in it, is regular.**  The infos of the members of a union are exact by the
induction, so its size is that of the largest member. -/
theorem Ty.regular_of_agrees (halign : RoundsUp l align) (t : Ty) (ht : t.All (Ty.Agrees l align)) :
    t.All (Ty.Regular l) := by
  cases t with
  | scalar s => exact Ty.Agrees.size_lt ht
  | object => exact Ty.Agrees.size_lt ht
  | block => exact Ty.Agrees.size_lt ht
  | functionPointer => exact Ty.Agrees.size_lt ht
  | voidPointer => exact Ty.Agrees.size_lt ht
  | pointer t => exact ⟨Ty.Agrees.size_lt ht, ((Ty.agrees_iff ..).1 ht).1⟩
  | array digits t =>
    have hcounts := ((Ty.agrees_iff ..).1 ht.1).1
    rw [Ty.counts, Bool.and_eq_true] at hcounts
    exact ⟨⟨ht.1.size_lt, of_decide_eq_true hcounts.1⟩, t.regular_of_agrees halign ht.2⟩
  | struct name ms =>
    obtain ⟨-, hnatural, -⟩ := (Ty.agrees_iff ..).1 ht.1
    refine ⟨?_, ms.regular_of_agrees halign ht.2⟩
    rw [Ty.Regular, ← hnatural]
    exact struct_naturalSize_lt ms 0 .clear
  | union name ms =>
    obtain ⟨-, hnatural, -⟩ := (Ty.agrees_iff ..).1 ht.1
    have hms := ms.regular_of_agrees halign ht.2
    refine ⟨⟨ht.1.size_lt, ?_⟩, hms⟩
    rw [(exact_union name ms (ms.exacts halign hms)).naturalSize, Ty.size] at hnatural
    exact (roundUp_eq_self_iff (ms.alignment_pos l)).1 hnatural.symm

theorem Members.regular_of_agrees (halign : RoundsUp l align) (ms : Members) (hms : ms.All (Ty.Agrees l align)) :
    ms.All (Ty.Regular l) := by
  cases ms with
  | one t => exact t.regular_of_agrees halign hms
  | cons t ms => exact ⟨t.regular_of_agrees halign hms.1, ms.regular_of_agrees halign hms.2⟩

end

mutual

lemma Ty.all_agrees_of_regular (halign : RoundsUp l align) (t : Ty) (ht : t.All (Ty.Regular l)) :
    t.All (Ty.Agrees l align) := by
  have hagrees := t.agrees_of_regular halign ht
  cases t with
  | scalar | object | block | functionPointer | voidPointer | pointer => exact hagrees
  | array digits t => exact ⟨hagrees, t.all_agrees_of_regular halign ht.2⟩
  | struct name ms | union name ms => exact ⟨hagrees, ms.all_agrees_of_regular halign ht.2⟩

lemma Members.all_agrees_of_regular (halign : RoundsUp l align) (ms : Members) (hms : ms.All (Ty.Regular l)) :
    ms.All (Ty.Agrees l align) := by
  cases ms with
  | one t => exact t.all_agrees_of_regular halign hms
  | cons t ms => exact ⟨t.all_agrees_of_regular halign hms.1, ms.all_agrees_of_regular halign hms.2⟩

end

end Reported

variable {l align}

/-- **When sizes and alignments are those of C.**  For every type, whatever the sizes and alignments of the scalars, a
regular type is reported right, and a type and all types that it contains are reported right exactly when they all are
regular: when no union has a largest member that leaves room up to the alignment of the union, and sizes and lengths fit
into the numbers that the parser has for them. -/
theorem all_agrees_iff (halign : RoundsUp l align) (t : Ty) :
    (t.All (Ty.Regular l) → t.Agrees l align) ∧ (t.All (Ty.Agrees l align) ↔ t.All (Ty.Regular l)) :=
  ⟨t.agrees_of_regular halign, t.regular_of_agrees halign, t.all_agrees_of_regular halign⟩

/-! ## A layout -/

/-- Sizes, which are the alignments as well. -/
def commonSize : CType → ℕ
  | .char | .uchar => 1
  | .short | .ushort => 2
  | .methodid | .int | .uint | .float => 4
  | .object | .class_ | .long | .ulong | .longlong | .ulonglong | .double | .charptr | .voidptr | .functionptr => 8

lemma commonSize_pos (t : CType) : 0 < commonSize t := by cases t <;> decide

lemma commonSize_lt (t : CType) : commonSize t * 8 < 2 ^ 16 := by cases t <;> decide

/-- The layout of most machines with pointers of 64 bits. -/
def commonLayout : Layout where
  sizeof := commonSize
  alignof := commonSize
  alignof_pos := commonSize_pos
  alignof_lt := commonSize_lt
  alignof_dvd _ := Nat.dvd_refl _

lemma roundsUp_roundUp (l : Layout) : RoundsUp l roundUp := fun _ _ _ => rfl

lemma anonymousStruct_free : ∀ c ∈ ['?'], c ≠ '=' ∧ c ≠ '}' := by
  intro c hc
  rw [List.mem_singleton.1 hc]
  exact ⟨by decide, by decide⟩

lemma anonymousUnion_free : ∀ c ∈ ['?'], c ≠ '=' ∧ c ≠ ')' := by
  intro c hc
  rw [List.mem_singleton.1 hc]
  exact ⟨by decide, by decide⟩

/-- `struct { char; union { int; short[2]; }; double *; }` -/
def regularStruct : Ty :=
  .struct ⟨['?'], anonymousStruct_free⟩
    (.cons (.scalar .chr)
      (.cons (.union ⟨['?'], anonymousUnion_free⟩
          (.cons (.scalar .int) (.one (.array [2] (.scalar .sht)))))
        (.one (.pointer (.scalar .dbl)))))

/-- A struct with a union whose members fill it. -/
theorem all_agrees_iff_sample :
    regularStruct.encode = "{?=c(?=i[2s])^d}".toList ∧ regularStruct.Agrees commonLayout roundUp ∧
      regularStruct.size commonLayout = 16 :=
  ⟨by decide,
    (all_agrees_iff (roundsUp_roundUp commonLayout) regularStruct).1
      ⟨by decide, by decide, ⟨by decide, by decide, by decide, by decide⟩, by decide⟩,
    by decide⟩

/-- `union { char[5]; int; }` -/
def paddedUnion : Ty :=
  .union ⟨['?'], anonymousUnion_free⟩ (.cons (.array [5] (.scalar .chr)) (.one (.scalar .int)))

/-- **A union that needs padding.**  Its five characters are reported as its size, which is eight. -/
theorem union_without_padding :
    paddedUnion.encode = "(?=[5c]i)".toList ∧ paddedUnion.size commonLayout = 8 ∧
      supplySizeAndAlignment commonLayout roundUp paddedUnion.encode = some (5, 4, []) ∧
      ¬ paddedUnion.Agrees commonLayout roundUp := by
  refine ⟨by decide, by decide, by decide, fun h => ?_⟩
  exact absurd h.2 (by decide)

end MulleObjcRuntime.Signature
