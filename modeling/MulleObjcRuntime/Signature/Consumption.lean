import MulleObjcRuntime.Signature.Callbacks
import MulleObjcRuntime.Signature.Encoding

/-!
# How much of a string the parser consumes

* `Consumed` — the parser returns the position behind an encoding, with an info and without;
* `Closes` — how the parser goes on with structs and unions it takes for unfinished;
* `swallows` — behind a struct without members, it always does;
* `consumed_iff` — which encodings are consumed.
-/

namespace MulleObjcRuntime.Signature.Raw

/-- The parser consumes the encoding, with an info and a callback and without both, with its assertions and without. -/
def Consumed (level : ℤ) (t r : List Char) : Prop :=
  ∀ ndebug, ∃ bound, ∀ fuel ≥ bound, ∀ info,
    Callbacks.typeParse ndebug fuel level info info (.rest (t ++ r)) = .ok (.rest r)

variable {part : Part} {s t r : List Char} {hollow : Bool}

/-! ## What is unfinished -/

/-- What the parser is inside of: an array, or a struct or a union behind a member. -/
inductive Frame
  | array
  | members (k : Kind)

def Frame.closing : Frame → Char
  | .array => ']'
  | .members k => k.closing

/-- Where the parser finds all the frames closed, if it goes on from a string without an info. -/
inductive Closes : List Frame → List Char → List Char → Prop
  | done {s : List Char} : Closes [] s s
  | close {top : Frame} {frames : List Frame} {s r : List Char} (h : Closes frames s r) :
    Closes (top :: frames) (top.closing :: s) r
  | member {k : Kind} {frames : List Frame} {c : Char} {s t r : List Char} (hc : c ≠ k.closing)
    (hread : Reads (skipping false) .type (c :: s) (some t)) (h : Closes (.members k :: frames) t r) :
    Closes (.members k :: frames) (c :: s) r

lemma Frame.closing_mem (top : Frame) : top.closing ∈ closers := by
  rcases top with _ | _ | _ <;> decide

lemma Closes.length_le {frames : List Frame} (h : Closes frames s r) : r.length + frames.length ≤ s.length := by
  induction h with
  | done => simp
  | close _ ih =>
    simp only [List.length_cons]
    omega
  | member _ hread _ ih =>
    have hlt := hread.length_lt _ rfl
    omega

lemma Closes.exists_member {k : Kind} {frames : List Frame} {r' : List Char} (h : Closes (.members k :: frames) s r')
    (hs : Encodes part s r hollow) :
    ∃ t, Reads (skipping false) .type s (some t) ∧ Closes (.members k :: frames) t r' := by
  obtain ⟨c, t, rfl, hc⟩ := hs.exists_head
  generalize hframes : Frame.members k :: frames = all at h
  cases h with
  | done => cases hframes
  | close => exact absurd (Frame.closing_mem _) hc
  | member _ hread h =>
    cases hframes
    exact ⟨_, hread, h⟩

lemma Reads.unique {ndebug : Bool} {o o' : Option (List Char)} (h : Reads (skipping ndebug) .type s o)
    (h' : Reads (skipping ndebug) .type s o') : o = o' := by
  have heq := (typeParse_eq h accepted_skipping (Nat.lt_succ_self _) 0).symm.trans
    (typeParse_eq h' accepted_skipping (Nat.lt_succ_self _) 0)
  cases o <;> cases o' <;> simp_all [Pointer.ofRest]

lemma reads_closer {c : Char} (hc : c ∈ closers) : Reads (skipping false) .type (c :: r) (some r) := by
  have hall : closers.all (fun c => !isMultiCharacterType c) = true := by decide
  exact .simple ((Bool.not_eq_true' _).mp (List.all_eq_true.mp hall c hc))

/-- A closing character closes the innermost frame, or it is a member in it.  In either case something is left unfinished if
there was a frame in between or if the outer one has another closing. -/
lemma Closes.closer {frames extra : List Frame} {top : Frame} {c : Char} {r r' : List Char} (hc : c ∈ closers)
    (h : Closes (extra ++ top :: frames) (c :: r) r') :
    ∃ extra', (extra ≠ [] ∨ c ≠ top.closing → extra' ≠ []) ∧ Closes (extra' ++ frames) r r' := by
  cases extra with
  | nil =>
    cases h with
    | close h => exact ⟨[], by simp, h⟩
    | @member k _ _ _ t _ _ hread h =>
      cases (reads_closer hc).unique hread
      exact ⟨[.members k], by simp, h⟩
  | cons inner extra =>
    rw [List.cons_append] at h
    cases h with
    | close h =>
      refine ⟨extra ++ [top], by simp, ?_⟩
      rwa [List.append_assoc]
    | @member k _ _ _ t _ _ hread h =>
      cases (reads_closer hc).unique hread
      refine ⟨.members k :: extra ++ [top], by simp, ?_⟩
      rwa [List.append_assoc]

lemma Closes.of_reads {k : Kind} {frames : List Frame} {s' r' : List Char}
    (h : Reads (skipping false) (.members k) s (some s')) (hcloses : Closes frames s' r') :
    ∃ t, Reads (skipping false) .type s (some t) ∧ Closes (.members k :: frames) t r' := by
  generalize hpart : Part.members k = part at h
  generalize ho : some s' = o at h
  induction h with
  | last h =>
    cases hpart
    cases ho
    exact ⟨_, h, @Closes.close (.members k) _ _ _ hcloses⟩
  | more h hc _ _ ihmore =>
    cases hpart
    obtain ⟨t, hread, hmore⟩ := ihmore rfl ho
    exact ⟨_, h, .member hc hread hmore⟩
  | membersCut | memberCut => cases ho
  | _ => cases hpart

/-! ## What is skipped -/

lemma reads_pointer {o : Option (List Char)} (h : Reads (skipping false) .type ('^' :: s) o) :
    Reads (skipping false) .type s o := by
  have hparse := typeParse_eq h accepted_skipping (Nat.lt_succ_self _) 0
  rw [typeParse_pointer] at hparse
  exact reads_of_typeParse hparse

/-- An array is skipped up to its bracket. -/
lemma reads_array {n : ℕ} {t : List Char} (hn : number s = .ok (n, t))
    (h : Reads (skipping false) .type ('[' :: s) (some r)) : Reads (skipping false) .type t (some (']' :: r)) := by
  generalize hs : '[' :: s = text at h
  generalize ho : some r = o at h
  generalize hpart : Part.type = part at h
  cases h with
  | array hn' h hc =>
    cases hs
    cases ho
    cases hn.symm.trans hn'
    rcases hc with rfl | hc
    · exact h
    · cases hc
  | simple h =>
    cases hs
    cases h
  | @opaque_ k | @nameCut k | @aggregate k => cases k <;> cases hs
  | bitfield | object | block | pointer => cases hs
  | arrayCut => cases ho
  | last | membersCut | memberCut | more => cases hpart

lemma reads_aggregate {k : Kind} {name : List Char} {o : Option (List Char)} (hname : Unnamed k name)
    (h : Reads (skipping false) .type (k.opening :: (name ++ '=' :: s)) o) : Reads (skipping false) (.members k) s o := by
  have hparse := typeParse_eq h accepted_skipping (Nat.lt_succ_self _) 0
  have hsteps : (name ++ '=' :: s).length + 1 = name.length + (s.length + 1 + 1) := by
    simp only [List.length_append, List.length_cons]
    omega
  rw [typeParse_opening, hsteps, supplyMembersTypeinfo_name k _ hname, supplyMembersTypeinfo_equal,
    Lib.Fallible.bind_eq_ok] at hparse
  obtain ⟨p, hmember, hnext⟩ := hparse
  refine reads_of_nextMember (fun s o _ => reads_of_typeParse) (known_false o) (fun o _ ho => ?_) hnext
  rw [ho] at hmember
  exact reads_of_typeParse hmember

/-! ## Hollow encodings -/

/-- Behind the encoding the frames are still there, and others if the encoding is hollow or if the frame around its members
has another closing. -/
def Swallows (s r : List Char) (hollow : Bool) : Part → Prop
  | .type => ∀ frames s' r', Reads (skipping false) .type s (some s') → Closes frames s' r' →
      ∃ extra, (hollow = true → extra ≠ []) ∧ Closes (extra ++ frames) r r'
  | .members k => ∀ k' frames r', Closes (.members k' :: frames) s r' →
      ∃ extra, (hollow = true ∨ k.closing ≠ k'.closing → extra ≠ []) ∧ Closes (extra ++ frames) r r'

lemma swallows_of_reads (h : Reads encodings .type s (some r)) : Swallows s r false .type := by
  intro frames s' r' hread hcloses
  cases (h.skipped.unique hread)
  exact ⟨[], by simp, hcloses⟩

lemma swallows (h : Encodes part s r hollow) : Swallows s r hollow part := by
  induction h with
  | simple h => exact swallows_of_reads (.simple h)
  | bitfield h => exact swallows_of_reads (.bitfield h)
  | object h => exact swallows_of_reads (.object h)
  | block => exact swallows_of_reads .block
  | opaque_ h => exact swallows_of_reads (.opaque_ h)
  | pointer _ ih => exact fun frames s' r' hread => ih frames s' r' (reads_pointer hread)
  | array hn _ ih =>
    intro frames s' r' hread hcloses
    obtain ⟨extra, hextra, hmore⟩ := ih (.array :: frames) _ r' (reads_array hn hread) (@Closes.close .array _ _ _ hcloses)
    obtain ⟨extra', hextra', hrest⟩ := hmore.closer (by decide)
    exact ⟨extra', fun hhollow => hextra' (Or.inl (hextra hhollow)), hrest⟩
  | @empty k name r hname =>
    -- the closing is skipped as a member, and the members go on
    intro frames s' r' hread hcloses
    obtain ⟨t, hmember, hmore⟩ := hcloses.of_reads (reads_aggregate hname hread)
    cases (reads_closer (Frame.closing_mem (.members k))).unique hmember
    exact ⟨[.members k], by simp, hmore⟩
  | @aggregate k name s r hollow hname h ih =>
    intro frames s' r' hread hcloses
    obtain ⟨t, hmember, hmore⟩ := hcloses.of_reads (reads_aggregate hname hread)
    obtain ⟨c, s, rfl, hc⟩ := h.exists_head
    have hopen : c ≠ k.closing := fun heq => hc (heq ▸ Frame.closing_mem (.members k))
    obtain ⟨extra, hextra, hrest⟩ := ih k frames r' (.member hopen hmember hmore)
    exact ⟨extra, fun hhollow => hextra (Or.inl hhollow), hrest⟩
  | @last k s r hollow h ih =>
    intro k' frames r' hcloses
    obtain ⟨t, hread, hmore⟩ := hcloses.exists_member h
    obtain ⟨extra, hextra, hrest⟩ := ih _ t r' hread hmore
    obtain ⟨extra', hextra', hrest'⟩ := hrest.closer (Frame.closing_mem (.members k))
    exact ⟨extra', fun hcase => hextra' (hcase.imp_left hextra), hrest'⟩
  | @more k s c t r hollow hollow' h hc hmore ih ihmore =>
    intro k' frames r' hcloses
    obtain ⟨s', hread, hmembers⟩ := hcloses.exists_member h
    obtain ⟨extra, hextra, hrest⟩ := ih _ s' r' hread hmembers
    cases extra with
    | nil =>
      obtain ⟨extra', hextra', hrest'⟩ := ihmore k' frames r' hrest
      refine ⟨extra', fun hcase => hextra' (hcase.imp_left fun hor => ?_), hrest'⟩
      exact (Bool.or_eq_true_iff.mp hor).resolve_left fun hhollow => hextra hhollow rfl
    | cons top extra =>
      -- the member has left a frame open, and the next one goes there
      rw [List.cons_append] at hrest
      cases top with
      | array =>
        cases hrest
        obtain ⟨_, _, heq, hnot⟩ := hmore.exists_head
        cases heq
        exact absurd (Frame.closing_mem .array) hnot
      | members k'' =>
        obtain ⟨extra', -, hrest'⟩ := ihmore k'' _ r' hrest
        refine ⟨extra' ++ extra ++ [.members k'], by simp, ?_⟩
        simpa only [List.append_assoc, List.singleton_append] using hrest'

/-! ## What is consumed -/

/-- Where the text goes on with the encoding, the parser goes on, too. -/
lemma not_reads_of_continues (h : Continues t r) : ¬ Reads (skipping false) .type (t ++ r) (some r) := by
  intro hread
  induction t with
  | nil => simp [Continues] at h
  | cons c t ih =>
    by_cases hc : c = '^'
    · subst hc
      exact ih (continues_pointer.mp h) (reads_pointer hread)
    · rw [Continues, List.dropWhile_cons_of_neg (by simpa using hc)] at h
      have hparse := typeParse_eq hread accepted_skipping (Nat.lt_succ_self _) 0
      rcases h with ⟨ht, hr⟩ | ⟨ht, d, hd, hdigit⟩
      · cases ht
        obtain ⟨r, rfl⟩ := List.head?_eq_some_iff.mp hr
        rw [List.cons_append, typeParse_object] at hparse
        have heq := Pointer.rest.inj (Except.ok.inj hparse)
        exact absurd heq.symm (List.cons_ne_self _ _)
      · cases ht
        obtain ⟨r, rfl⟩ := List.head?_eq_some_iff.mp hd
        rw [List.cons_append, typeParse_bitfield, supplyBitfieldTypeinfo, Lib.Fallible.bind_eq_ok] at hparse
        obtain ⟨len, -, hlen⟩ := hparse
        split at hlen
        · cases hlen
        · have heq := Pointer.rest.inj (Except.ok.inj hlen)
          have hhead := List.head?_dropWhile_not isDigit (t ++ d :: r)
          rw [heq] at hhead
          exact absurd hdigit (by simpa using hhead)

/-- The parser returns the position behind the encoding, unless there is a struct or a union without members in it, or an
array is the outermost type; a text that goes on with the encoding makes it another one. -/
theorem consumed_iff {level : ℤ} (h : Encodes .type t [] hollow) (hlevel : -1 ≤ level) :
    Consumed level t r ↔ hollow = false ∧ ¬ (level = -1 ∧ t.head? = some '[') ∧ ¬ Continues t r := by
  constructor
  · intro hconsumed
    obtain ⟨bound, hbound⟩ := hconsumed false
    have hskip : Reads (skipping false) .type (t ++ r) (some r) := by
      have hparse := hbound bound le_rfl false
      rw [Callbacks.typeParse_without] at hparse
      exact reads_of_typeParse hparse
    have hends : ¬ Continues t r := fun hcontinues => not_reads_of_continues hcontinues hskip
    refine ⟨Bool.eq_false_of_not_eq_true fun hhollow => ?_, ?_, hends⟩
    · obtain ⟨extra, hextra, hcloses⟩ := swallows (h.append fun _ _ => hends) [] r r hskip .done
      have hpos := List.length_pos_iff.mpr (hextra hhollow)
      have hle := hcloses.length_le
      simp only [List.length_append, List.nil_append] at hle
      omega
    · rintro ⟨rfl, hhead⟩
      obtain ⟨s, rfl⟩ := List.head?_eq_some_iff.mp hhead
      exact Callbacks.typeParse_outer_array (hbound bound le_rfl true)
  · rintro ⟨hfull, houter, hends⟩ ndebug
    have hread : Reads encodings .type (t ++ r) (some r) := (h.append fun _ _ => hends).reads hfull
    refine ⟨(t ++ r).length + 1, fun fuel hfuel info => ?_⟩
    rw [← show Pointer.ofRest (some r) = .rest r from rfl,
      ← typeParse_eq hread (accepted_encodings info) hfuel level]
    by_cases hhead : t.head? = some '['
    · have hinner : level ≠ -1 := fun hlevel => houter ⟨hlevel, hhead⟩
      rw [Callbacks.typeParse_eq_raw fun hinfo => Or.inr ⟨hinfo, by omega⟩]
    · obtain ⟨c, s, rfl, -⟩ := h.exists_head
      cases info with
      | false => rw [Callbacks.typeParse_without]
      | true => exact Callbacks.typeParse_outer hhead hlevel

/-- A struct with a member is consumed, one without is not. -/
theorem consumed_struct : Consumed (-1) ['{', 'x', '=', 'i', '}'] ['i'] ∧ ¬ Consumed (-1) ['{', 'x', '=', '}'] ['i'] := by
  have hname : Unnamed .struct ['x'] := by simp [Unnamed, Kind.closing]
  have hmember : Encodes .type ['{', 'x', '=', 'i', '}'] [] false :=
    @Encodes.aggregate .struct ['x'] ['i', '}'] [] false hname (@Encodes.last .struct _ _ _ (.simple (by decide)))
  have hhollow : Encodes .type ['{', 'x', '=', '}'] [] true := @Encodes.empty .struct ['x'] [] hname
  refine ⟨(consumed_iff hmember le_rfl).mpr ⟨rfl, by decide, by simp [Continues]⟩, fun hconsumed => ?_⟩
  exact absurd ((consumed_iff hhollow le_rfl).mp hconsumed).1 (by decide)

/-- The outermost array is an encoding, too. -/
theorem not_consumed_array :
    Encodes .type ['[', '3', 'i', ']'] [] false ∧ ¬ Consumed (-1) ['[', '3', 'i', ']'] [] := by
  refine ⟨.array (rfl : number ['3', 'i', ']'] = .ok (3, ['i', ']'])) (.simple (by decide)), fun hconsumed => ?_⟩
  obtain ⟨bound, hbound⟩ := hconsumed false
  exact Callbacks.typeParse_outer_array (hbound bound le_rfl true)

end MulleObjcRuntime.Signature.Raw
