import MulleObjcRuntime.Signature.Consumption
import MulleObjcRuntime.Signature.Spelling

/-!
# Structs and unions without members in signatures

The parser takes the bracket that closes such a struct for a member, and looks for another one in the rest of the signature.

* `Barren` — no frame is closed in the text;
* `Filler` — what is between two types: it has no brackets and goes on with no type;
* `Spells.barren` — a signature closes no frames that it has not opened;
* `Spells.not_typeParse` — so the parser does not get behind the first type, if there is such a struct in it.
-/

namespace MulleObjcRuntime.Signature.Raw

/-- A frame that is open is not closed in the text. -/
def Barren (s : List Char) : Prop := ∀ top frames r, ¬ Closes (top :: frames) s r

def NoBrackets (s : List Char) : Prop := ∀ c ∈ s, isBracket c = false

instance : DecidablePred NoBrackets := fun s => inferInstanceAs (Decidable (∀ c ∈ s, isBracket c = false))

/-- Extended info and an offset, or the end of them. -/
structure Filler (s : List Char) : Prop where
  noBrackets : NoBrackets s
  last : ∀ c ∈ s.getLast?, isMultiCharacterType c = false

/-- There are no brackets in extended info: it is the names of classes and of protocols. -/
def Plain (types : List Spelling) : Prop := ∀ t ∈ types, NoBrackets t.extended

instance : DecidablePred Plain := fun types => inferInstanceAs (Decidable (∀ t ∈ types, NoBrackets t.extended))

/-! ## Between two types -/

section Filler

variable {s t f g r : List Char} {c : Char}

lemma Filler.of_suffix (h : Filler f) (hg : g <:+ f) : Filler g := by
  refine ⟨fun c hc => h.noBrackets c (hg.subset hc), fun c hc => ?_⟩
  obtain ⟨front, rfl⟩ := hg
  refine h.last c ?_
  rw [List.getLast?_append, Option.mem_def.mp hc]
  rfl

lemma Filler.tail (h : Filler (c :: f)) : Filler f := h.of_suffix (List.suffix_cons c f)

lemma Filler.ne_nil (h : Filler (c :: f)) (hc : isMultiCharacterType c = true) : f ≠ [] := by
  rintro rfl
  rw [h.last c rfl] at hc
  cases hc

/-- **What is skipped as a type from there on, ends there.** -/
lemma Filler.of_reads (hf : Filler f) (hne : f ≠ []) (hs : Stops s) (h : Reads (skipping false) .type (f ++ s) (some t)) :
    ∃ g, t = g ++ s ∧ Filler g ∧ g.length < f.length := by
  induction f with
  | nil => exact absurd rfl hne
  | cons c f ih =>
    have hplain := hf.noBrackets c List.mem_cons_self
    have hrest : ∃ g, f ++ s = g ++ s ∧ Filler g ∧ g.length < (c :: f).length :=
      ⟨f, rfl, hf.tail, Nat.lt_succ_self _⟩
    generalize htext : c :: f ++ s = text at h
    generalize ho : some t = o at h
    generalize hpart : Part.type = part at h
    cases h with
    | simple | object =>
      cases htext
      cases ho
      exact hrest
    | bitfield =>
      cases htext
      cases ho
      refine ⟨f.dropWhile isDigit, ?_, hf.tail.of_suffix (List.dropWhile_suffix _), ?_⟩
      · show (f ++ s).dropWhile isDigit = f.dropWhile isDigit ++ s
        rw [List.dropWhile_append]
        cases hdrop : f.dropWhile isDigit with
        | nil => exact hs.dropWhile
        | cons => rfl
      · exact Nat.lt_succ_of_le (List.dropWhile_sublist _).length_le
    | block =>
      obtain ⟨rfl, htail⟩ := List.cons.inj htext
      obtain ⟨d, f, rfl⟩ := List.exists_cons_of_ne_nil (hf.ne_nil rfl)
      cases htail
      cases ho
      exact ⟨f, rfl, hf.tail.tail, (Nat.lt_succ_self _).trans (Nat.lt_succ_self _)⟩
    | pointer h =>
      obtain ⟨rfl, rfl⟩ := List.cons.inj htext
      cases ho
      obtain ⟨g, rfl, hg, hlt⟩ := ih hf.tail (hf.ne_nil rfl) h
      exact ⟨g, rfl, hg, Nat.lt_succ_of_lt hlt⟩
    | array =>
      cases htext
      cases hplain
    | @opaque_ k | @aggregate k =>
      obtain ⟨rfl, -⟩ := List.cons.inj htext
      cases k <;> cases hplain
    | arrayCut | nameCut => cases ho
    | last | membersCut | memberCut | more => cases hpart

lemma isBracket_of_mem {c : Char} (hc : c ∈ closers) : isBracket c = true := by
  have hall : closers.all isBracket = true := by decide
  exact List.all_eq_true.mp hall c hc

lemma barren_nil : Barren [] := by
  intro top frames r h
  cases h

/-- Nothing is closed between two types. -/
lemma Barren.append (h : Barren s) (hs : Stops s) (hf : Filler f) : Barren (f ++ s) := by
  induction hn : f.length using Nat.strong_induction_on generalizing f with
  | _ n ih =>
    subst hn
    cases f with
    | nil => exact h
    | cons c f =>
      intro top frames r hcloses
      generalize htext : c :: f ++ s = text at hcloses
      generalize hframes : top :: frames = all at hcloses
      cases hcloses with
      | done => cases hframes
      | close =>
        obtain ⟨rfl, -⟩ := List.cons.inj htext
        cases hframes
        exact absurd (isBracket_of_mem (Frame.closing_mem top)) (by rw [hf.noBrackets _ List.mem_cons_self]; decide)
      | member hc hread hmore =>
        rw [← htext] at hread
        obtain ⟨g, rfl, hg, hlt⟩ := hf.of_reads (List.cons_ne_nil _ _) hs hread
        exact ih _ hlt hg rfl _ _ _ hmore

lemma Barren.encodes {hollow : Bool} (h : Barren r) (hs : Encodes .type s r hollow) : Barren s := by
  intro top frames r' hcloses
  cases top with
  | array =>
    obtain ⟨c, t, rfl, hc⟩ := hs.exists_head
    cases hcloses
    exact hc (Frame.closing_mem .array)
  | members k =>
    obtain ⟨t, hread, hmore⟩ := hcloses.exists_member hs
    obtain ⟨extra, -, hrest⟩ := swallows hs _ t r' hread hmore
    cases extra with
    | nil => exact h _ _ _ hrest
    | cons => exact h _ _ _ hrest

end Filler

/-! ## Signatures -/

section Spells

variable {s extended offset r : List Char} {types : List Spelling} {t : Spelling}

lemma plain_of_isDigit {c : Char} (h : isDigit c = true) : isBracket c = false ∧ isMultiCharacterType c = false := by
  have hall : ['[', ']', '{', '}', '(', ')', '^', 'b', '@'].all (isDigit · = false) = true := by decide
  have hnot : c ∉ ['[', ']', '{', '}', '(', ')', '^', 'b', '@'] := by
    intro hmem
    rw [of_decide_eq_true (List.all_eq_true.mp hall c hmem)] at h
    cases h
  simp only [List.mem_cons, List.not_mem_nil, or_false, not_or] at hnot
  simp [isBracket, isMultiCharacterType, hnot]

lemma filler_offset (hoffset : Offset (offset ++ r) r) : Filler offset := by
  have hmem : ∀ c ∈ offset, isBracket c = false ∧ isMultiCharacterType c = false := by
    intro c hc
    rcases hoffset.mem c hc with rfl | rfl | hdigit
    · decide
    · decide
    · exact plain_of_isDigit hdigit
  exact ⟨fun c hc => (hmem c hc).1, fun c hc => (hmem c (List.mem_of_getLast? hc)).2⟩

lemma filler_extended (hextended : IsExtended extended r) (h : NoBrackets extended) : Filler extended := by
  refine ⟨h, fun c hc => ?_⟩
  rcases hextended.cases with rfl | ⟨body, rfl, -⟩ | ⟨body, rfl, -⟩
  · cases hc
  all_goals
    rw [← List.cons_append, List.getLast?_concat] at hc
    cases hc
    rfl

lemma Filler.append {f g : List Char} (hf : Filler f) (hg : Filler g) : Filler (f ++ g) := by
  refine ⟨fun c hc => (List.mem_append.mp hc).elim (hf.noBrackets c) (hg.noBrackets c), fun c hc => ?_⟩
  rw [List.getLast?_append] at hc
  cases hlast : g.getLast? with
  | none =>
    rw [hlast] at hc
    exact hf.last c hc
  | some d =>
    rw [hlast] at hc
    exact hg.last c (hlast ▸ hc)

lemma Barren.trailing (h : Barren r) (hr : Stops r) (hextended : IsExtended extended (offset ++ r))
    (hoffset : Offset (offset ++ r) r) (hinfo : NoBrackets extended) : Barren (extended ++ (offset ++ r)) := by
  rw [← List.append_assoc]
  exact h.append hr ((filler_extended hextended hinfo).append (filler_offset hoffset))

/-- **A signature closes nothing that it has not opened.** -/
theorem Spells.barren (h : Spells s types) (hplain : Plain types) : Barren s := by
  induction h with
  | nil => exact barren_nil
  | @cons pure extended offset r hollow types htype hextended hoffset h ih =>
    obtain ⟨hinfo, htypes⟩ := List.forall_mem_cons.mp hplain
    exact ((ih htypes).trailing h.stops hextended hoffset hinfo).encodes htype

lemma Spells.not_reads (h : Spells s (t :: types)) (ht : t.hollow = true) (hplain : Plain (t :: types)) (r : List Char) :
    ¬ Reads (skipping false) .type s (some r) := by
  intro hread
  cases h with
  | @cons pure extended offset r' hollow types htype hextended hoffset h =>
    obtain ⟨hinfo, htypes⟩ := List.forall_mem_cons.mp hplain
    cases (show hollow = true from ht)
    have hrest : Barren (extended ++ (offset ++ r')) := (h.barren htypes).trailing h.stops hextended hoffset hinfo
    -- something is left open behind the type, and never closed
    obtain ⟨extra, hextra, hcloses⟩ := swallows htype [] r r hread .done
    obtain ⟨top, extra, rfl⟩ := List.exists_cons_of_ne_nil (hextra rfl)
    exact hrest _ _ _ hcloses

/-- **The parser does not get behind it**, with an info or without. -/
theorem Spells.not_typeParse (h : Spells s (t :: types)) (ht : t.hollow = true) (hplain : Plain (t :: types)) (fuel : ℕ)
    (level : ℤ) (info : Bool) (r : List Char) : typeParse false fuel level info (.rest s) ≠ .ok (.rest r) :=
  fun hparse => h.not_reads ht hplain r (reads_of_typeParse_known (o := some r) (known_some r) hparse)

end Spells

end MulleObjcRuntime.Signature.Raw
