import Mathlib.Data.Nat.Bitwise
import MulleObjcRuntime.Descriptors.Defs
import MulleObjcRuntime.Lib.Runs
import MulleObjcRuntime.Lib.Variation

/-!
# The order in which descriptors are registered

* `SameType`, `sameType_equivalence` — what is compared of two descriptors, at every level an equivalence relation;
* `Registered` — the tables after some descriptors, told from the descriptors alone;
* `Registered.step` — one more descriptor;
* `run_iff` — every order of the same descriptors ends with the same ids in both tables.
-/

namespace MulleObjcRuntime.Descriptors

open Lib.Runs Lib.Variation Signature.Raw

/-! ## The comparison -/

/-- Two descriptors are of the same type: as to their signatures at the level that is asked for, and as to their bits, if
these are asked for. -/
def SameType (w : Warn) (a b : Descriptor) : Prop :=
  signatureComparison w a.signature b.signature = some 0 ∧
    (w.methodBits = true → methodBitsTypeEqual a.bits b.bits = true)

/-- Where signatures are parsed for the comparison, this one is read type by type, up to its end or up to a type that the
parser does not get behind. -/
def Readable (w : Warn) (d : Descriptor) : Prop :=
  w.methodType = .lenient → ∃ types, Scans w.ndebug d.signature types

section Comparison

variable {w : Warn} {a b c : Descriptor}

lemma methodBitsTypeEqual_iff {x y : ℕ} :
    methodBitsTypeEqual x y = true ↔ x &&& methodBitsEqualityMask = y &&& methodBitsEqualityMask := by
  unfold methodBitsTypeEqual
  rw [beq_iff_eq, Nat.and_xor_distrib_right, Nat.xor_eq_zero_iff]

lemma methodsignatureCompare_eq_zero_iff {s t : List Char} :
    methodsignatureCompare s t = 0 ↔ strstr s receiver = strstr t receiver := by
  unfold methodsignatureCompare
  cases strstr s receiver with
  | none => cases strstr t receiver <;> simp
  | some s' =>
    cases strstr t receiver with
    | none => simp
    | some t' => rw [strcmp_eq_zero_iff, Option.some.injEq]

lemma readable_of_full {d : Descriptor} {m : Methodsignature} (hm : Full m.types) (h : m.text = d.signature) :
    Readable w d :=
  fun _ => ⟨pures m.types, h ▸ m.spells.scans w.ndebug hm⟩

lemma exists_signatureComparison (ha : Readable w a) (hb : Readable w b) :
    ∃ n, signatureComparison w a.signature b.signature = some n := by
  unfold signatureComparison
  cases hw : w.methodType with
  | none => exact ⟨_, rfl⟩
  | normal => exact ⟨_, rfl⟩
  | strict => exact ⟨_, rfl⟩
  | lenient =>
    obtain ⟨as, has⟩ := ha hw
    obtain ⟨bs, hbs⟩ := hb hw
    obtain ⟨n, hn, -⟩ := compareLenient_of_scans has hbs
    exact ⟨n, congrArg Except.toOption hn⟩

/-- Each level compares something of the signatures. -/
lemma exists_types (w : Warn) : ∃ (τ : Type) (type : Descriptor → τ),
    ∀ a b, Readable w a → Readable w b → (signatureComparison w a.signature b.signature = some 0 ↔ type a = type b) := by
  cases hw : w.methodType with
  | none => exact ⟨Unit, fun _ => (), fun a b _ _ => by simp [signatureComparison, hw]⟩
  | normal =>
    refine ⟨_, fun d => strstr d.signature receiver, fun a b _ _ => ?_⟩
    rw [← methodsignatureCompare_eq_zero_iff]
    simp [signatureComparison, hw]
  | strict =>
    refine ⟨_, fun d => d.signature, fun a b _ _ => ?_⟩
    rw [← strcmp_eq_zero_iff]
    simp [signatureComparison, hw, signatureCompareStrict]
  | lenient =>
    classical
    refine ⟨Option (List (List Char)),
      fun d => if h : ∃ types, Scans w.ndebug d.signature types then h.choose.tail? else none, fun a b ha hb => ?_⟩
    have ha := ha hw
    have hb := hb hw
    obtain ⟨n, hn, hordering⟩ := compareLenient_of_scans ha.choose_spec hb.choose_spec
    simp only [dif_pos ha, dif_pos hb]
    rw [← Std.LawfulEqOrd.compare_eq_iff_eq (α := Option (List (List Char))), ← hordering, ordering_eq_iff]
    unfold signatureComparison
    rw [hw]
    exact Lib.Fallible.toOption_eq_some.trans ⟨fun h => Except.ok.inj (hn.symm.trans h), fun h => hn.trans (congrArg _ h)⟩

/-- **At every level the comparison is an equivalence relation.** -/
theorem sameType_equivalence (w : Warn) : EquivalenceOn (Readable w) (SameType w) := by
  obtain ⟨τ, type, htype⟩ := exists_types w
  unfold SameType
  simp only [methodBitsTypeEqual_iff]
  constructor
  · intro a ha
    exact ⟨(htype a a ha ha).2 rfl, fun _ => rfl⟩
  · rintro a b ha hb ⟨hab, hbits⟩
    exact ⟨(htype b a hb ha).2 ((htype a b ha hb).1 hab).symm, fun h => (hbits h).symm⟩
  · rintro a b c ha hb hc ⟨hab, habits⟩ ⟨hbc, hbbits⟩
    exact ⟨(htype a c ha hc).2 (((htype a b ha hb).1 hab).trans ((htype b c hb hc).1 hbc)),
      fun h => (habits h).trans (hbbits h)⟩

end Comparison

/-! ## What is registered -/

/-- One registration. -/
def register (w : Warn) (u : Tables) (p : Descriptor) : Option Tables := (registerDescriptor w u p).map Prod.snd

/-- Equal ids have equal names. -/
def NamesAgree (l : List Descriptor) : Prop := ∀ a ∈ l, ∀ b ∈ l, a.methodid = b.methodid → a.name = b.name

instance : DecidablePred NamesAgree := fun l => inferInstanceAs (Decidable (∀ a ∈ l, ∀ b ∈ l, _ → _))

/-- The ids with descriptors of different types. -/
def VaryingType (w : Warn) (l : List Descriptor) (methodid : ℕ) : Prop :=
  Varies Descriptor.methodid (SameType w) l methodid

/-- A warning is to crash or to hang, and there is something to warn about. -/
def Stops (w : Warn) (l : List Descriptor) : Prop :=
  (w.crash || w.hang) = true ∧ ∃ methodid, methodid ∉ shortcuts ∧ VaryingType w l methodid

/-- The tables after the descriptors of a list: the first one of each id, and the ids with descriptors of different
types. -/
structure Registered (w : Warn) (l : List Descriptor) (u : Tables) : Prop where
  descriptortable : ∀ methodid, u.descriptortable methodid = l.find? fun d => d.methodid = methodid
  varyingtype : ∀ methodid, u.varyingtypedescriptortable methodid = true ↔ VaryingType w l methodid

section Registered

variable {w : Warn} {l l' : List Descriptor} {d f : Descriptor} {u u' : Tables}

lemma registered_new (w : Warn) : Registered w [] Tables.new :=
  ⟨fun _ => rfl, fun _ => iff_of_false Bool.false_ne_true not_varies_nil⟩

lemma not_stops_nil (w : Warn) : ¬ Stops w [] := by
  rintro ⟨-, methodid, -, hvaries⟩
  exact not_varies_nil hvaries

lemma Stops.append (h : Stops w l) : Stops w (l ++ l') := by
  obtain ⟨hwarn, methodid, hshortcut, hvaries⟩ := h
  exact ⟨hwarn, methodid, hshortcut, hvaries.append⟩

lemma stops_congr (h : ∀ a, a ∈ l ↔ a ∈ l') : Stops w l ↔ Stops w l' := by
  unfold Stops VaryingType
  simp only [varies_congr h]

lemma stops_concat_iff (h : ¬ Stops w l) :
    Stops w (l ++ [d]) ↔ (w.crash || w.hang) = true ∧ d.methodid ∉ shortcuts ∧ VaryingType w (l ++ [d]) d.methodid := by
  constructor
  · rintro ⟨hwarn, methodid, hshortcut, hvaries⟩
    by_cases hid : d.methodid = methodid
    · subst hid
      exact ⟨hwarn, hshortcut, hvaries⟩
    · exact absurd ⟨hwarn, methodid, hshortcut, (varies_concat_of_ne hid).mp hvaries⟩ h
  · rintro ⟨hwarn, hshortcut, hvaries⟩
    exact ⟨hwarn, _, hshortcut, hvaries⟩

lemma find?_concat (l : List Descriptor) (d : Descriptor) (methodid : ℕ) :
    (l ++ [d]).find? (fun d => d.methodid = methodid) =
      (l.find? fun d => d.methodid = methodid).or (if d.methodid = methodid then some d else none) := by
  rw [List.find?_append]
  by_cases h : d.methodid = methodid <;> simp [h]

/-- The first descriptor of an id is entered. -/
lemma Registered.first (h : Registered w l u) (hfirst : u.descriptortable d.methodid = none)
    (hreadable : Readable w d) :
    ¬ VaryingType w (l ++ [d]) d.methodid ∧
      Registered w (l ++ [d]) { u with descriptortable := Function.update u.descriptortable d.methodid (some d) } := by
  rw [h.descriptortable, List.find?_eq_none] at hfirst
  have hnone : ∀ a ∈ l, a.methodid ≠ d.methodid := fun a ha => by simpa using hfirst a ha
  have hnew : ¬ VaryingType w (l ++ [d]) d.methodid := not_varies_concat (sameType_equivalence w) hreadable hnone
  refine ⟨hnew, fun methodid => ?_, fun methodid => ?_⟩
  · rw [find?_concat]
    by_cases hid : methodid = d.methodid
    · subst hid
      rw [List.find?_eq_none.mpr hfirst, if_pos rfl]
      exact Function.update_self ..
    · rw [if_neg (Ne.symm hid), Option.or_none, ← h.descriptortable]
      exact Function.update_of_ne hid ..
  · by_cases hid : methodid = d.methodid
    · subst hid
      rw [h.varyingtype]
      exact iff_of_false (fun hvaries => hnew hvaries.append) hnew
    · rw [h.varyingtype]
      exact (varies_concat_of_ne (Ne.symm hid)).symm

lemma Registered.later (h : Registered w l u) (hf : u.descriptortable d.methodid = some f)
    (hreadable : ∀ a ∈ l ++ [d], Readable w a) :
    (VaryingType w (l ++ [d]) d.methodid ↔ VaryingType w l d.methodid ∨ ¬ SameType w f d) ∧
      ∀ varying : ℕ → Bool, (∀ methodid, varying methodid = true ↔ VaryingType w (l ++ [d]) methodid) →
        Registered w (l ++ [d]) { u with varyingtypedescriptortable := varying } := by
  rw [h.descriptortable] at hf
  have hid : f.methodid = d.methodid := by simpa using List.find?_some hf
  refine ⟨varies_concat_iff (sameType_equivalence w) hreadable (List.mem_of_find?_eq_some hf) hid, fun varying hvarying =>
    ⟨fun methodid => ?_, hvarying⟩⟩
  rw [find?_concat]
  by_cases hid : d.methodid = methodid
  · subst hid
    rw [hf]
    exact (h.descriptortable _).trans hf
  · rw [if_neg hid, Option.or_none]
    exact h.descriptortable methodid

lemma not_sameType_iff {n : ℤ} (hn : signatureComparison w f.signature d.signature = some n) :
    ¬ SameType w f d ↔ n ≠ 0 ∨ (w.methodBits && !methodBitsTypeEqual f.bits d.bits) = true := by
  unfold SameType
  rw [hn, Option.some.injEq, not_and_or, Classical.not_imp, Bool.and_eq_true, Bool.not_eq_true', Bool.not_eq_true]

/-- **The step lemma**: one more descriptor is registered, or there is something to warn about and the program stops. -/
lemma Registered.register (h : Registered w l u) (hnames : NamesAgree (l ++ [d]))
    (hreadable : ∀ a ∈ l ++ [d], Readable w a) (hstops : ¬ Stops w l) :
    (register w u d = none ↔ Stops w (l ++ [d])) ∧ ∀ u', register w u d = some u' → Registered w (l ++ [d]) u' := by
  have hd : d ∈ l ++ [d] := List.mem_append_right l List.mem_cons_self
  unfold Descriptors.register registerDescriptor
  cases hf : u.descriptortable d.methodid with
  | none =>
    obtain ⟨hnew, hregistered⟩ := h.first hf (hreadable d hd)
    refine ⟨iff_of_false (Option.some_ne_none _) fun hs => hnew ((stops_concat_iff hstops).mp hs).2.2, ?_⟩
    rintro u' ⟨⟩
    exact hregistered
  | some f =>
    have hfound := (h.descriptortable d.methodid).symm.trans hf
    have hfl : f ∈ l ++ [d] := List.mem_append_left [d] (List.mem_of_find?_eq_some hfound)
    have hid : f.methodid = d.methodid := by simpa using List.find?_some hfound
    obtain ⟨n, hn⟩ := exists_signatureComparison (hreadable f hfl) (hreadable d hd)
    obtain ⟨hvaries, hlater⟩ := h.later hf hreadable
    have hdiffer := not_sameType_iff hn
    simp only [if_pos (hnames f hfl d hd hid), hn, stops_concat_iff hstops, hvaries]
    by_cases hsame : SameType w f d
    · -- nothing new: the ids with different types are those from before
      have hold (methodid : ℕ) : u.varyingtypedescriptortable methodid = true ↔ VaryingType w (l ++ [d]) methodid := by
        rw [h.varyingtype]
        by_cases hm : d.methodid = methodid
        · rw [← hm, hvaries, or_iff_left (not_not.mpr hsame)]
        · exact (varies_concat_of_ne hm).symm
      rw [if_neg fun h => hdiffer.mpr h hsame, or_iff_left (not_not.mpr hsame)]
      refine ⟨iff_of_false (Option.some_ne_none _) ?_, ?_⟩
      · rintro ⟨hwarn, hshortcut, hvaried⟩
        exact hstops ⟨hwarn, _, hshortcut, hvaried⟩
      · rintro u' ⟨⟩
        exact hlater _ hold
    · rw [if_pos (hdiffer.mp hsame)]
      by_cases hwarn : d.methodid ∉ shortcuts ∧ (w.crash || w.hang) = true
      · rw [if_pos hwarn]
        refine ⟨iff_of_true rfl ⟨hwarn.2, hwarn.1, Or.inr hsame⟩, ?_⟩
        rintro u' ⟨⟩
      · rw [if_neg hwarn]
        refine ⟨iff_of_false (Option.some_ne_none _) fun hs => hwarn ⟨hs.2.1, hs.1⟩, ?_⟩
        rintro u' ⟨⟩
        refine hlater _ fun methodid => ?_
        by_cases hm : methodid = d.methodid
        · subst hm
          rw [Function.update_self]
          exact iff_of_true rfl (hvaries.mpr (Or.inr hsame))
        · rw [Function.update_of_ne hm, h.varyingtype]
          exact (varies_concat_of_ne (Ne.symm hm)).symm

/-- **The run lemma**, by induction on what is still to be registered. -/
lemma Registered.run {rest : List Descriptor} (h : Registered w l u) (hnames : NamesAgree (l ++ rest))
    (hreadable : ∀ a ∈ l ++ rest, Readable w a) (hstops : ¬ Stops w l) :
    (Lib.Runs.run (Descriptors.register w) u rest = none ↔ Stops w (l ++ rest)) ∧
      ∀ u', Lib.Runs.run (Descriptors.register w) u rest = some u' → Registered w (l ++ rest) u' := by
  induction rest generalizing l u with
  | nil =>
    rw [List.append_nil]
    refine ⟨iff_of_false (Option.some_ne_none _) hstops, ?_⟩
    rintro u' ⟨⟩
    exact h
  | cons d rest ih =>
    have hsub : ∀ a ∈ l ++ [d], a ∈ l ++ d :: rest := by
      intro a ha
      rw [List.mem_append, List.mem_singleton] at ha
      rw [List.mem_append, List.mem_cons]
      tauto
    obtain ⟨hnone, hsome⟩ := h.register (fun a ha b hb => hnames a (hsub a ha) b (hsub b hb))
      (fun a ha => hreadable a (hsub a ha)) hstops
    rw [show l ++ d :: rest = l ++ [d] ++ rest by simp] at hnames hreadable ⊢
    rw [Lib.Runs.run]
    cases hu : Descriptors.register w u d with
    | none =>
      refine ⟨iff_of_true rfl (hnone.mp hu).append, ?_⟩
      rintro u' ⟨⟩
    | some t =>
      have hgoes : ¬ Stops w (l ++ [d]) := fun hs => Option.some_ne_none t (hu.symm.trans (hnone.mpr hs))
      exact ih (hsome t hu) hnames hreadable hgoes

end Registered

/-! ## Every order -/

/-- **Descriptors are registered with the same outcome in every order.**  The program stops in all of them or in none, and
if it does not, the descriptor table has the ids of the descriptors, and the other one those ids of which two descriptors
are of different types. -/
theorem run_iff {w : Warn} {l l' : List Descriptor} (hnames : NamesAgree l) (hreadable : ∀ d ∈ l, Readable w d)
    (hperm : l'.Perm l) :
    (Lib.Runs.run (register w) Tables.new l' = none ↔ Stops w l) ∧
      ∀ u, Lib.Runs.run (register w) Tables.new l' = some u →
        (∀ methodid, (u.descriptortable methodid).isSome = true ↔ ∃ d ∈ l, d.methodid = methodid) ∧
        ∀ methodid, u.varyingtypedescriptortable methodid = true ↔
          ∃ a ∈ l, ∃ b ∈ l, a.methodid = methodid ∧ b.methodid = methodid ∧ ¬ SameType w a b := by
  have hmem (a : Descriptor) : a ∈ l' ↔ a ∈ l := hperm.mem_iff
  have hnames' : NamesAgree ([] ++ l') := fun a ha b hb => hnames a ((hmem a).mp ha) b ((hmem b).mp hb)
  have hreadable' : ∀ a ∈ [] ++ l', Readable w a := fun a ha => hreadable a ((hmem a).mp ha)
  obtain ⟨hnone, hsome⟩ := (registered_new w).run hnames' hreadable' (not_stops_nil w)
  refine ⟨hnone.trans (stops_congr hmem), fun u hu => ⟨fun methodid => ?_, fun methodid => ?_⟩⟩
  · rw [(hsome u hu).descriptortable, List.find?_isSome]
    simp only [List.nil_append, hmem, decide_eq_true_eq]
  · rw [(hsome u hu).varyingtype]
    exact varies_congr hmem

/-- Warnings about signatures at the lenient level, and about bits. -/
def lenientWarn : Warn := ⟨.lenient, true, false, false, true⟩

/-- `"v@:"` and `"@@:@"` under one id. -/
def twoSignatures : List Descriptor :=
  [⟨7, ['f'], noParameters.text, 0⟩, ⟨7, ['f'], oneParameter.text, 0⟩]

lemma readable_twoSignatures : ∀ d ∈ twoSignatures, Readable lenientWarn d := by
  intro d hd _
  rcases List.mem_cons.mp hd with rfl | hd
  · exact readable_of_full (m := noParameters.toMethodsignature) (by decide) rfl rfl
  · cases List.mem_singleton.mp hd
    exact readable_of_full (m := oneParameter.toMethodsignature) (by decide) rfl rfl

/-- The two signatures, registered in the other order. -/
theorem run_twoSignatures :
    ∃ u, Lib.Runs.run (register lenientWarn) Tables.new twoSignatures.reverse = some u ∧
      (u.descriptortable 7).isSome = true ∧ u.varyingtypedescriptortable 7 = true := by
  obtain ⟨u, hu⟩ : ∃ u, Lib.Runs.run (register lenientWarn) Tables.new twoSignatures.reverse = some u := ⟨_, rfl⟩
  have hnames : NamesAgree twoSignatures := by decide
  obtain ⟨hids, hvarying⟩ := (run_iff hnames readable_twoSignatures (List.reverse_perm _)).2 u hu
  refine ⟨u, hu, (hids 7).mpr ⟨_, List.mem_cons_self, rfl⟩, (hvarying 7).mpr ?_⟩
  refine ⟨_, List.mem_cons_self, _, List.mem_cons_of_mem _ List.mem_cons_self, rfl, rfl, ?_⟩
  rintro ⟨hcomparison, -⟩
  have hlenient : signatureComparison lenientWarn noParameters.text oneParameter.text = some (-1) := rfl
  cases hlenient.symm.trans hcomparison

/-- Warnings about signatures, but none about bits (`MULLE_OBJC_WARN_METHOD_BITS=NO`). -/
def noBitsWarn : Warn := ⟨.normal, false, false, false, true⟩

/-- A method and a variadic one, with one signature. -/
def twoBits : List Descriptor := [⟨7, ['f'], noParameters.text, 0⟩, ⟨7, ['f'], noParameters.text, 0x08⟩]

/-- Without these warnings an id whose descriptors differ in their type bits is not entered. -/
theorem twoBits_not_varying :
    ∃ u, Lib.Runs.run (register noBitsWarn) Tables.new twoBits = some u ∧
      ¬ (u.varyingtypedescriptortable 7 = true ↔
        ∃ a ∈ twoBits, ∃ b ∈ twoBits, a.methodid = 7 ∧ b.methodid = 7 ∧
          (signatureComparison noBitsWarn a.signature b.signature ≠ some 0 ∨ methodBitsTypeEqual a.bits b.bits = false)) := by
  refine ⟨_, rfl, fun h => ?_⟩
  have hvaries := h.mpr ⟨_, List.mem_cons_self, _, List.mem_cons_of_mem _ List.mem_cons_self, rfl, rfl, Or.inr rfl⟩
  cases hvaries

end MulleObjcRuntime.Descriptors
