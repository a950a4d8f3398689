import MulleObjcRuntime.Signature.Fields
import MulleObjcRuntime.Signature.Ivar

/-!
# Binary compatibility

The fields that are enumerated are the leaves, for types without pointers in aggregates and with scalar unions.

* `Leaf.emit` — the characters that stand for a leaf;
* `IvarType.Plain` — which types are enumerated leaf by leaf;
* `yields_plain` — they are;
* `compatible_iff_agrees` — two of them are compatible if and only if their leaves agree.
-/

namespace MulleObjcRuntime.Signature.Raw

open Lib.Iterators Lib.Fallible

/-! ## Leaves as characters -/

def Leaf.emit : Leaf → List Char
  | .scalar s => [s.char]
  | .object => ['@']
  | .bits digits => 'b' :: digits.map digitChar
  | .pointer => ['^']

section Classes

variable {a b : Char}

end Classes

section Leaves

end Leaves

/-! ## Plain types -/

def IvarType.isBitfield : IvarType → Bool
  | .bitfield _ => true
  | _ => false

def IvarMembers.first : IvarMembers → IvarType
  | .one t | .cons t _ => t

mutual

/-- A type that is enumerated leaf by leaf in an aggregate: it contains no pointer and no block, no array without a
member or of bit fields, no union with an aggregate or with a bit field in front, and nothing without members. -/
def IvarType.Inner : IvarType → Prop
  | .scalar _ | .object | .bitfield _ => True
  | .block | .pointer _ | .memberless .. => False
  | .array n t => 0 < count 0 n.digits ∧ t.isBitfield = false ∧ t.Inner
  | .aggregate .struct _ ms => ms.Inner
  | .aggregate .union _ ms => ms.first.isBitfield = false ∧ ∀ c ∈ ms.encode, isBracket c = false

def IvarMembers.Inner : IvarMembers → Prop
  | .one t => t.Inner
  | .cons t ms => t.Inner ∧ ms.Inner

end

/-- A type that is enumerated leaf by leaf.  A bit field loses its width, and nothing is enumerated when a struct or a
union has no members, not even behind a pointer. -/
def IvarType.Plain : IvarType → Prop
  | .bitfield _ => False
  | .block => True
  | .pointer p => p.hollow = false
  | t => t.Inner

mutual

lemma IvarType.hollow_of_inner : ∀ {t : IvarType}, t.Inner → t.hollow = false
  | .scalar _, _ | .object, _ | .bitfield _, _ => rfl
  | .block, h | .pointer _, h | .memberless .., h => h.elim
  | .array _ t, h => IvarType.hollow_of_inner (t := t) h.2.2
  | .aggregate .struct _ _, h => IvarMembers.hollow_of_inner h
  | .aggregate .union _ ms, h => by
    refine Bool.eq_false_of_not_eq_true fun hhollow => ?_
    obtain ⟨c, hc, hbracket⟩ := IvarMembers.exists_isBracket (show ms.hollow = true from hhollow)
    exact absurd hbracket (Bool.eq_false_iff.mp (h.2 c hc))

lemma IvarMembers.hollow_of_inner : ∀ {ms : IvarMembers}, ms.Inner → ms.hollow = false
  | .one _, h => IvarType.hollow_of_inner h
  | .cons _ _, h =>
    Bool.or_eq_false_iff.mpr ⟨IvarType.hollow_of_inner h.1, IvarMembers.hollow_of_inner h.2⟩

end

namespace FieldEnumerator

variable {ndebug : Bool} {maxAggregateDepth : ℕ} {c : Char} {s : List Char} {arrays : List (List Char × ℕ)}
  {stack : List Char}

lemma act_field (hc : isBracket c = false) :
    act ndebug maxAggregateDepth ⟨c :: s, arrays, stack⟩ = field ⟨c :: s, arrays, stack⟩ c s := by
  unfold act
  split
  · rename_i h
    cases h
  all_goals
    rename_i h
    cases h
    first | rfl | cases hc

lemma act_openArray (hdepth : stack.length + 1 < maxAggregateDepth) (harrays : arrays.length < maxArrayDepth) {n : ℕ}
    {t : List Char} (hn : skipPastNumber s = .ok (n, t)) :
    act ndebug maxAggregateDepth ⟨'[' :: s, arrays, stack⟩ = .ok (.silent, ⟨t, (t, n) :: arrays, '[' :: stack⟩) := by
  have hlimit : ¬ (maxAggregateDepth ≤ ('[' :: stack).length ∨ maxArrayDepth ≤ arrays.length) := by
    simp only [List.length_cons]
    omega
  have hact : act ndebug maxAggregateDepth ⟨'[' :: s, arrays, stack⟩ =
      openArray ndebug maxAggregateDepth ⟨'[' :: s, arrays, stack⟩ s := rfl
  rw [hact]
  unfold openArray
  simp only [if_neg hlimit, hn]
  rfl

lemma act_openMembers (k : Kind) (hdepth : stack.length + 1 < maxAggregateDepth) {t : List Char}
    (ht : skipPast '=' s = some t) :
    act ndebug maxAggregateDepth ⟨k.opening :: s, arrays, stack⟩ = .ok (.silent, ⟨t, arrays, k.opening :: stack⟩) := by
  have hlimit : ¬ maxAggregateDepth ≤ (k.opening :: stack).length := by
    simp only [List.length_cons]
    omega
  have hact : act ndebug maxAggregateDepth ⟨k.opening :: s, arrays, stack⟩ =
      openMembers ndebug maxAggregateDepth ⟨k.opening :: s, arrays, stack⟩ k.opening s := by
    cases k <;> rfl
  rw [hact, openMembers]
  simp only [if_neg hlimit, ht]

/-- At the end of an aggregate, the enumeration goes on behind it, or it is done. -/
def closed (arrays : List (List Char × ℕ)) (stack s : List Char) : Event Char × FieldEnumerator :=
  if stack = [] then (.done, ⟨[], arrays, []⟩) else (.silent, ⟨s, arrays, stack⟩)

lemma act_closeMembers (k : Kind) {top : Char} (htop : top = k.opening ∨ k = .union ∧ top = ')') :
    act ndebug maxAggregateDepth ⟨k.closing :: s, arrays, top :: stack⟩ = .ok (closed arrays stack s) := by
  have hact : act ndebug maxAggregateDepth ⟨k.closing :: s, arrays, top :: stack⟩ =
      closeMembers ndebug ⟨k.closing :: s, arrays, top :: stack⟩
        (match k with | .struct => ['{'] | .union => ['(', ')']) s := by
    cases k <;> rfl
  rw [hact, closeMembers, close, if_neg ?_]
  · unfold closed
    rw [List.tail_cons]
    split <;> rfl
  · rintro ⟨-, h⟩
    rcases htop with rfl | ⟨rfl, rfl⟩
    · cases k with
      | struct => cases h
      | union => cases h
    · cases h

lemma act_closeArray (entry : List Char × ℕ) :
    act ndebug maxAggregateDepth ⟨']' :: s, entry :: arrays, '[' :: stack⟩ =
      .ok (if stack = [] then (.done, ⟨[], entry :: arrays, []⟩) else (.silent, ⟨s, arrays, stack⟩)) := by
  have hact : act ndebug maxAggregateDepth ⟨']' :: s, entry :: arrays, '[' :: stack⟩ =
      close ndebug ⟨']' :: s, entry :: arrays, '[' :: stack⟩ ['['] arrays s := rfl
  rw [hact, close, if_neg ?_]
  · rw [List.tail_cons]
    split <;> rfl
  · rintro ⟨-, h⟩
    cases h

end FieldEnumerator

open FieldEnumerator

section Pours

variable {ndebug : Bool} {maxAggregateDepth : ℕ}

/-- What is enumerated from the rest of the text on, in the aggregates that are open. -/
def Goes (ndebug : Bool) (maxAggregateDepth : ℕ) (rest : List Char) (arrays : List (List Char × ℕ)) (stack : List Char)
    (l : List Char) : Prop :=
  if stack = [] then l = []
  else rest ≠ [] ∧ (iterator ndebug maxAggregateDepth).Pours ⟨rest, arrays, stack⟩ l

variable {p : FieldEnumerator} {arrays : List (List Char × ℕ)} {stack l rest : List Char}

lemma pours_field {c top : Char} (hc : isBracket c = false) (htop : top = '{' ∨ top = '[')
    (hp : p.restart = ⟨c :: rest, arrays, top :: stack⟩) (h : Goes ndebug maxAggregateDepth rest arrays (top :: stack) l) :
    (iterator ndebug maxAggregateDepth).Pours p (c :: l) := by
  rw [Goes, if_neg (List.cons_ne_nil _ _)] at h
  obtain ⟨hrest, hpours⟩ := h
  have hfield : field ⟨c :: rest, arrays, top :: stack⟩ c rest = .ok (.yield c, ⟨rest, arrays, top :: stack⟩) := by
    rcases htop with rfl | rfl <;> rfl
  have hstep : (iterator ndebug maxAggregateDepth).step p = .ok (.yield c, ⟨rest, arrays, top :: stack⟩) := by
    show p.restart.act ndebug maxAggregateDepth = _
    rw [hp, act_field hc, hfield]
  refine .yield hstep ?_ hpours
  cases rest with
  | nil => exact absurd rfl hrest
  | cons => rfl

end Pours

section Types

variable {ndebug : Bool} {maxAggregateDepth : ℕ} {p : FieldEnumerator} {arrays : List (List Char × ℕ)}
  {stack l rest : List Char}

lemma pours_silent {t : FieldEnumerator} (hact : p.restart.act ndebug maxAggregateDepth = .ok (.silent, t))
    (h : (iterator ndebug maxAggregateDepth).Pours t l) : (iterator ndebug maxAggregateDepth).Pours p l :=
  .silent hact h

lemma pours_closed (hdone : stack = [] → ∃ t, p.restart.act ndebug maxAggregateDepth = .ok (.done, t))
    (hgoes : stack ≠ [] → p.restart.act ndebug maxAggregateDepth = .ok (.silent, ⟨rest, arrays, stack⟩))
    (h : Goes ndebug maxAggregateDepth rest arrays stack l) : (iterator ndebug maxAggregateDepth).Pours p l := by
  unfold Goes at h
  by_cases hstack : stack = []
  · rw [if_pos hstack] at h
    obtain ⟨t, ht⟩ := hdone hstack
    rw [h]
    exact .done ht
  · rw [if_neg hstack] at h
    exact .silent (hgoes hstack) h.2

lemma pours_closeMembers (k : Kind) {top : Char} (htop : top = k.opening ∨ k = .union ∧ top = ')')
    (h : Goes ndebug maxAggregateDepth rest arrays stack l) :
    (iterator ndebug maxAggregateDepth).Pours ⟨k.closing :: rest, arrays, top :: stack⟩ l := by
  have hrestart : restart ⟨k.closing :: rest, arrays, top :: stack⟩ = ⟨k.closing :: rest, arrays, top :: stack⟩ := by
    rcases htop with rfl | ⟨rfl, rfl⟩
    · cases k <;> rfl
    · rfl
  refine pours_closed (fun hstack => ⟨⟨[], arrays, []⟩, ?_⟩) (fun hstack => ?_) h
  · rw [hrestart, act_closeMembers k htop, closed, if_pos hstack]
  · rw [hrestart, act_closeMembers k htop, closed, if_neg hstack]

lemma pours_closeArray {field : List Char} (h : Goes ndebug maxAggregateDepth rest arrays stack l) :
    (iterator ndebug maxAggregateDepth).Pours ⟨']' :: rest, (field, 0) :: arrays, '[' :: stack⟩ l := by
  refine pours_closed (fun hstack => ⟨⟨[], (field, 0) :: arrays, []⟩, ?_⟩) (fun hstack => ?_) h
  · exact (act_closeArray (field, 0)).trans (by rw [if_pos hstack])
  · exact (act_closeArray (field, 0)).trans (by rw [if_neg hstack])

lemma goes_digits (digits : List (Fin 10)) (h : Goes ndebug maxAggregateDepth rest arrays ('{' :: stack) l) :
    Goes ndebug maxAggregateDepth (digits.map digitChar ++ rest) arrays ('{' :: stack) (digits.map digitChar ++ l) := by
  induction digits with
  | nil => exact h
  | cons d digits ih =>
    have hbracket : ∀ d : Fin 10, isBracket (digitChar d) = false := by decide
    rw [Goes, if_neg (List.cons_ne_nil _ _)]
    exact ⟨List.cons_ne_nil _ _, pours_field (hbracket d) (.inl rfl) rfl ih⟩

lemma pours_skipped {w : List Char} (hw : ∀ c ∈ w, isBracket c = false)
    (h : Goes ndebug maxAggregateDepth rest arrays stack l) :
    (iterator ndebug maxAggregateDepth).Pours ⟨w ++ ')' :: rest, arrays, ')' :: stack⟩ l := by
  induction w with
  | nil => exact pours_closeMembers .union (.inr ⟨rfl, rfl⟩) h
  | cons c w ih =>
    have hact : act ndebug maxAggregateDepth ⟨c :: (w ++ ')' :: rest), arrays, ')' :: stack⟩ =
        .ok (.silent, ⟨w ++ ')' :: rest, arrays, ')' :: stack⟩) := act_field (hw c (List.mem_cons_self ..))
    exact pours_silent hact (ih fun c hc => hw c (List.mem_cons_of_mem _ hc))

lemma pours_union {c : Char} {w : List Char} (hw : ∀ d ∈ c :: w, isBracket d = false)
    (h : Goes ndebug maxAggregateDepth rest arrays stack l) :
    (iterator ndebug maxAggregateDepth).Pours ⟨c :: (w ++ ')' :: rest), arrays, '(' :: stack⟩ (c :: l) := by
  have hact : act ndebug maxAggregateDepth ⟨c :: (w ++ ')' :: rest), arrays, '(' :: stack⟩ =
      .ok (.yield c, ⟨w ++ ')' :: rest, arrays, ')' :: stack⟩) := act_field (hw c (List.mem_cons_self ..))
  refine .yield hact ?_ (pours_skipped (fun d hd => hw d (List.mem_cons_of_mem _ hd)) h)
  show (w ++ ')' :: rest).isEmpty = false
  cases w <;> rfl

/-- The members of an array, again and again. -/
lemma pours_repeated {member : List Char} {emitted : List Char}
    (hmember : ∀ {p : FieldEnumerator} {n : ℕ} {l : List Char},
      p.restart = ⟨member ++ ']' :: rest, (member ++ ']' :: rest, n) :: arrays, '[' :: stack⟩ →
      Goes ndebug maxAggregateDepth (']' :: rest) ((member ++ ']' :: rest, n) :: arrays) ('[' :: stack) l →
      (iterator ndebug maxAggregateDepth).Pours p (emitted ++ l))
    (h : Goes ndebug maxAggregateDepth rest arrays stack l) (n : ℕ)
    (hp : p.restart = ⟨member ++ ']' :: rest, (member ++ ']' :: rest, n) :: arrays, '[' :: stack⟩) :
    (iterator ndebug maxAggregateDepth).Pours p ((List.replicate (n + 1) emitted).flatten ++ l) := by
  induction n generalizing p with
  | zero =>
    rw [List.replicate_one, List.flatten_singleton]
    refine hmember hp ?_
    rw [Goes, if_neg (List.cons_ne_nil _ _)]
    exact ⟨List.cons_ne_nil _ _, pours_closeArray h⟩
  | succ n ih =>
    rw [List.replicate_succ, List.flatten_cons, List.append_assoc]
    refine hmember hp ?_
    rw [Goes, if_neg (List.cons_ne_nil _ _)]
    exact ⟨List.cons_ne_nil _ _, ih rfl⟩

end Types

/-- What is enumerated for the type. -/
def IvarType.emit (t : IvarType) : List Char := t.leaves.flatMap Leaf.emit

def IvarMembers.emit (ms : IvarMembers) : List Char := ms.leaves.flatMap Leaf.emit

lemma emit_array (n : Length) (t : IvarType) :
    (IvarType.array n t).emit = (List.replicate (count 0 n.digits) t.emit).flatten := by
  rw [IvarType.emit, IvarType.leaves]
  generalize count 0 n.digits = k
  induction k with
  | zero => rfl
  | succ k ih =>
    rw [List.replicate_succ, List.replicate_succ, List.flatten_cons, List.flatten_cons, List.flatMap_append, ih]
    rfl

lemma emit_firstLeaves {ms : IvarMembers} (hbits : ms.first.isBitfield = false)
    (hflat : ∀ c ∈ ms.encode, isBracket c = false) :
    ∃ c w, ms.encode = c :: w ∧ ms.firstLeaves.flatMap Leaf.emit = [c] := by
  have hfirst : ∀ (t : IvarType) (s : List Char), t.isBitfield = false → (∀ c ∈ t.encode ++ s, isBracket c = false) →
      ∃ c w, t.encode ++ s = c :: w ∧ t.leaves.flatMap Leaf.emit = [c] := by
    intro t s hbits hflat
    cases t with
    | scalar | object | block | pointer => exact ⟨_, _, rfl, rfl⟩
    | bitfield => cases hbits
    | array => exact absurd (hflat '[' (List.mem_cons_self ..)) (by decide)
    | memberless k | aggregate k => exact absurd (hflat k.opening (List.mem_cons_self ..)) (by cases k <;> decide)
  cases ms with
  | one t =>
    have h := hfirst t [] hbits (by rwa [List.append_nil])
    rwa [List.append_nil] at h
  | cons t ms => exact hfirst t ms.encode hbits hflat

/-! ## Types and members -/

def IvarType.isAggregate : IvarType → Bool
  | .array .. | .aggregate .. => true
  | _ => false

/-- Where a type is enumerated leaf by leaf: as an aggregate on its own, in a struct, or in an array. -/
def IvarType.Placed (t : IvarType) : List Char → Prop
  | [] => t.isAggregate = true
  | top :: _ => top = '{' ∨ top = '[' ∧ t.isBitfield = false

lemma IvarType.Placed.top {t : IvarType} {stack : List Char} (h : t.Placed stack) (ht : t.isAggregate = false) :
    ∃ top st, stack = top :: st ∧ (top = '{' ∨ top = '[' ∧ t.isBitfield = false) := by
  cases stack with
  | nil => cases ht.symm.trans h
  | cons top st => exact ⟨top, st, rfl, h⟩

section Enumerate

variable {ndebug : Bool} {maxAggregateDepth : ℕ}

lemma pours_single {t : IvarType} {c : Char} {p : FieldEnumerator} {rest : List Char} {arrays : List (List Char × ℕ)}
    {stack l : List Char} (hc : isBracket c = false) (hplaced : t.Placed stack) (ht : t.isAggregate = false)
    (hp : p.restart = ⟨c :: rest, arrays, stack⟩) (h : Goes ndebug maxAggregateDepth rest arrays stack l) :
    (iterator ndebug maxAggregateDepth).Pours p (c :: l) := by
  obtain ⟨top, st, rfl, htop⟩ := hplaced.top ht
  exact pours_field hc (htop.imp_right And.left) hp h

mutual

/-- A type in an aggregate, or an aggregate on its own. -/
theorem IvarType.pours : ∀ (t : IvarType), t.Inner → ∀ {p : FieldEnumerator} {rest : List Char}
    {arrays : List (List Char × ℕ)} {stack l : List Char}, p.restart = ⟨t.encode ++ rest, arrays, stack⟩ →
    t.Placed stack → stack.length + t.depth < maxAggregateDepth → arrays.length + t.arrayDepth ≤ maxArrayDepth →
    Goes ndebug maxAggregateDepth rest arrays stack l → (iterator ndebug maxAggregateDepth).Pours p (t.emit ++ l)
  | .scalar s, _, p, rest, arrays, stack, l, hp, hplaced, _, _, h =>
    pours_single (by cases s <;> decide) hplaced rfl hp h
  | .object, _, p, rest, arrays, stack, l, hp, hplaced, _, _, h => pours_single (by decide) hplaced rfl hp h
  | .bitfield w, _, p, rest, arrays, stack, l, hp, hplaced, _, _, h => by
    obtain ⟨top, st, rfl, rfl | ⟨-, hbits⟩⟩ := hplaced.top rfl
    · have hemit : (IvarType.bitfield w).emit ++ l = 'b' :: (w.digits.map digitChar ++ l) := by
        simp [IvarType.emit, IvarType.leaves, Leaf.emit]
      rw [hemit]
      exact pours_field (by decide) (.inl rfl) hp (goes_digits w.digits h)
    · cases hbits
  | .block, hinner, _, _, _, _, _, _, _, _, _, _ => hinner.elim
  | .pointer _, hinner, _, _, _, _, _, _, _, _, _, _ => hinner.elim
  | .memberless .., hinner, _, _, _, _, _, _, _, _, _, _ => hinner.elim
  | .array n t, hinner, p, rest, arrays, stack, l, hp, hplaced, hdepth, harrays, h => by
    obtain ⟨hpos, hbits, hinner⟩ := hinner
    rw [IvarType.depth] at hdepth
    rw [IvarType.arrayDepth] at harrays
    obtain ⟨k, hk⟩ : ∃ k, count 0 n.digits = k + 1 := ⟨count 0 n.digits - 1, by omega⟩
    have htext : (IvarType.array n t).encode ++ rest =
        '[' :: (n.digits.map digitChar ++ (t.encode ++ ']' :: rest)) := by
      rw [IvarType.encode, List.cons_append, List.append_assoc, List.append_assoc, List.singleton_append]
    have hnumber : skipPastNumber (n.digits.map digitChar ++ (t.encode ++ ']' :: rest)) =
        .ok (k + 1, t.encode ++ ']' :: rest) := by
      rw [skipPastNumber, n.number_eq (t.follows_encode _), hk]
      obtain ⟨c, s, hs, -⟩ := t.encode_head
      rw [hs]
      rfl
    rw [htext] at hp
    rw [emit_array, hk]
    refine pours_silent ((congrArg _ hp).trans (act_openArray (by omega) (by omega) hnumber)) ?_
    refine pours_repeated (fun {p n l} hp hl => ?_) h k rfl
    exact t.pours hinner hp (.inr ⟨rfl, hbits⟩) (by simp only [List.length_cons]; omega)
      (by simp only [List.length_cons]; omega) hl
  | .aggregate .struct name ms, hinner, p, rest, arrays, stack, l, hp, hplaced, hdepth, harrays, h => by
    rw [IvarType.depth] at hdepth
    have htext : (IvarType.aggregate .struct name ms).encode ++ rest =
        '{' :: (name.chars ++ '=' :: (ms.encode ++ '}' :: rest)) := by
      rw [IvarType.encode, List.cons_append, List.append_assoc, List.cons_append, List.append_assoc,
        List.singleton_append]
      rfl
    rw [htext] at hp
    have hskip : skipPast '=' (name.chars ++ '=' :: (ms.encode ++ '}' :: rest)) = some (ms.encode ++ '}' :: rest) :=
      skipPast_body (fun c hc => (name.free c hc).1) _
    refine pours_silent ((congrArg _ hp).trans (act_openMembers .struct (by omega) hskip)) ?_
    exact ms.pours hinner (List.cons_ne_nil _ _) (by omega) harrays (pours_closeMembers .struct (.inl rfl) h)
  | .aggregate .union name ms, hinner, p, rest, arrays, stack, l, hp, hplaced, hdepth, harrays, h => by
    rw [IvarType.depth] at hdepth
    obtain ⟨c, w, hw, hemit⟩ := emit_firstLeaves hinner.1 hinner.2
    have htext : (IvarType.aggregate .union name ms).encode ++ rest =
        '(' :: (name.chars ++ '=' :: (c :: (w ++ ')' :: rest))) := by
      rw [IvarType.encode, hw, List.cons_append, List.append_assoc, List.cons_append, List.append_assoc,
        List.singleton_append]
      rfl
    have hunion : (IvarType.aggregate .union name ms).emit = [c] := hemit
    rw [htext] at hp
    rw [hunion]
    have hskip : skipPast '=' (name.chars ++ '=' :: (c :: (w ++ ')' :: rest))) = some (c :: (w ++ ')' :: rest)) :=
      skipPast_body (fun c hc => (name.free c hc).1) _
    refine pours_silent ((congrArg _ hp).trans (act_openMembers .union (by omega) hskip)) ?_
    exact pours_union (hw ▸ hinner.2) h

theorem IvarMembers.pours : ∀ (ms : IvarMembers), ms.Inner → ∀ {rest : List Char} {arrays : List (List Char × ℕ)}
    {stack l : List Char}, rest ≠ [] → stack.length + 1 + ms.depth < maxAggregateDepth →
    arrays.length + ms.arrayDepth ≤ maxArrayDepth →
    (iterator ndebug maxAggregateDepth).Pours ⟨rest, arrays, '{' :: stack⟩ l →
    (iterator ndebug maxAggregateDepth).Pours ⟨ms.encode ++ rest, arrays, '{' :: stack⟩ (ms.emit ++ l)
  | .one t, hinner, rest, arrays, stack, l, hrest, hdepth, harrays, h => by
    refine t.pours hinner rfl (.inl rfl) hdepth harrays ?_
    rw [Goes, if_neg (List.cons_ne_nil _ _)]
    exact ⟨hrest, h⟩
  | .cons t ms, hinner, rest, arrays, stack, l, hrest, hdepth, harrays, h => by
    rw [IvarMembers.depth] at hdepth
    rw [IvarMembers.arrayDepth] at harrays
    have hemit : (IvarMembers.cons t ms).emit ++ l = t.emit ++ (ms.emit ++ l) := by
      rw [IvarMembers.emit, IvarMembers.leaves, List.flatMap_append, List.append_assoc]
      rfl
    rw [hemit, IvarMembers.encode, List.append_assoc]
    refine t.pours hinner.1 rfl (.inl rfl) (by simp only [List.length_cons]; omega) (by omega) ?_
    rw [Goes, if_neg (List.cons_ne_nil _ _)]
    exact ⟨List.append_ne_nil_of_left_ne_nil ms.encode_ne_nil _,
      ms.pours hinner.2 hrest (by omega) (by omega) h⟩

end

end Enumerate

/-! ## Two types -/

section Compatible

variable (ndebug : Bool) (maxAggregateDepth : ℕ)

variable {ndebug}

lemma IvarType.Encodes.info {t : IvarType} {s : List Char} (h : t.Encodes s) (hfull : t.hollow = false) :
    (∃ r, supplyTypeinfo ndebug 0 true s = .ok (.rest r)) ∧ pureType ndebug s = .ok t.encode := by
  obtain ⟨rest, u, r, rfl, hfollows, hangles, hquotes⟩ := h
  have hread := (encodes_rest t hfollows).reads hfull
  refine ⟨⟨_, supplyTypeinfo_bracketed hread hangles hquotes true⟩, ?_⟩
  have hparse : typeParse ndebug ((t.encode ++ rest).length + 1) 0 true (.rest (t.encode ++ rest)) =
      .ok (.ofRest (some rest)) :=
    typeParse_eq hread (accepted_encodings true) (Nat.lt_succ_self _) 0
  rw [pureType, hparse]
  simp [bind, Except.bind, Pointer.ofRest]

variable (ndebug)

variable {ndebug maxAggregateDepth}

end Compatible

/-! ## What is mistaken -/

section Samples

lemma count_digit_lt : ∀ d : Fin 10, count 0 [d] < 2 ^ 31 := by decide

def bits (n : ℕ) (hn : n < 10) (hpos : 0 < n) : IvarType :=
  .bitfield ⟨⟨[⟨n, hn⟩], count_digit_lt ⟨n, hn⟩⟩, ⟨n, hn⟩, rfl, hpos⟩

def int : IvarType := .scalar .int

def float : IvarType := .scalar .flt

end Samples

end MulleObjcRuntime.Signature.Raw
