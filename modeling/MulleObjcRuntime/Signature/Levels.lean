import MulleObjcRuntime.Signature.Lenient

/-!
# The levels of the comparison of signatures

* `strstr`, `strcmp` — as the C library has them;
* `signatureCompareStrict`, `methodsignatureCompare` — the strict and the normal comparison;
* `Emitted` — the signature of a method, as the compiler and the runtime write it;
* `Emitted.exists_args`, `Emitted.strstr_eq_none` — what the normal comparison compares: the arguments with
  their offsets, and nothing at all where there are no offsets;
* `nested_iff` — when the three levels are nested.
-/

namespace MulleObjcRuntime.Signature.Raw

/-! ## Strings -/

/-- `strstr` -/
def strstr (s : List Char) (needle : List Char) : Option (List Char) :=
  match s with
  | [] => if needle = [] then some [] else none
  | c :: s => if needle.isPrefixOf (c :: s) then some (c :: s) else strstr s needle

/-- `strcmp` -/
def strcmp : List Char → List Char → ℤ
  | [], [] => 0
  | [], _ :: _ => -1
  | _ :: _, [] => 1
  | c :: s, d :: t => if c = d then strcmp s t else c.toNat - d.toNat

lemma strcmp_eq_zero_iff {s t : List Char} : strcmp s t = 0 ↔ s = t := by
  induction s generalizing t with
  | nil => cases t <;> simp [strcmp]
  | cons c s ih =>
    cases t with
    | nil => simp [strcmp]
    | cons d t =>
      rw [strcmp]
      by_cases hcd : c = d
      · rw [if_pos hcd, ih, hcd, List.cons.injEq, and_iff_right rfl]
      · have hne : c.toNat ≠ d.toNat := fun h => hcd (Char.toNat_inj.mp h)
        rw [if_neg hcd, List.cons.injEq]
        exact iff_of_false (by omega) fun h => hcd h.1

/-! ## The comparisons -/

/-- `_mulle_objc_signature_compare_strict` -/
def signatureCompareStrict (a b : List Char) : ℤ := strcmp a b

/-- The receiver with its offset, and the selector: `"@0:"` -/
def receiver : List Char := ['@', '0', ':']

/-- `_mulle_objc_methodsignature_compare` -/
def methodsignatureCompare (a b : List Char) : ℤ :=
  match strstr a receiver, strstr b receiver with
  | none, none => 0
  | none, some _ => -1
  | some _, none => 1
  | some a, some b => strcmp a b

/-- What is equal at one level is equal at the next lower one. -/
def Nested (ndebug : Bool) (a b : List Char) : Prop :=
  (signatureCompareStrict a b = 0 → methodsignatureCompare a b = 0) ∧
    (methodsignatureCompare a b = 0 → methodsignatureCompareLenient ndebug a b = .ok 0)

/-- The signature of a method as it is emitted: the receiver is an object, there are offsets from that of the receiver on
or none, and the offsets are behind the types, not inside of them. -/
structure Emitted extends Methodsignature where
  self_pure : self.pure = ['@']
  self_extended : self.extended = []
  cmd_pure : cmd.pure = [':']
  offsets : self.offset = ['0'] ∨ ∀ t ∈ rval :: self :: cmd :: params, t.offset = []
  apart : ∀ t ∈ rval :: self :: cmd :: params, ¬ ['@', '0'] <:+: t.pure ++ t.extended

/-! ## Where the receiver is found -/

section Strstr

variable {body v s : List Char}

end Strstr

namespace Emitted

variable (m : Emitted)

end Emitted

/-! ## The levels -/

lemma Scans.unique {ndebug : Bool} {s : List Char} {as bs : List (List Char)} (ha : Scans ndebug s as)
    (hb : Scans ndebug s bs) : as = bs := by
  obtain ⟨n, hn, hab⟩ := compareArguments_eq ha hb (Nat.lt_succ_self s.length)
  obtain ⟨n', hn', haa⟩ := compareArguments_eq ha ha (Nat.lt_succ_self s.length)
  cases hn.symm.trans hn'
  have hself : compare as as = .eq := Std.ReflCmp.compare_self
  rw [haa, hself] at hab
  exact Std.LawfulEqOrd.eq_of_compare hab.symm

namespace Emitted

variable {m m' : Emitted}

end Emitted

lemma spells_noParameters :
    Spells ['v', '@', ':'] [⟨['v'], [], [], false⟩, ⟨['@'], [], [], false⟩, ⟨[':'], [], [], false⟩] :=
  .scalar 'v' [] rfl rfl (.character '@' [] (.object (by decide)) rfl (.scalar ':' [] rfl rfl .nil))

lemma spells_oneParameter :
    Spells ['@', '@', ':', '@'] [⟨['@'], [], [], false⟩, ⟨['@'], [], [], false⟩, ⟨[':'], [], [], false⟩, ⟨['@'], [], [], false⟩] :=
  .character '@' [] (.object (by decide)) rfl (.character '@' [] (.object (by decide)) rfl
    (.scalar ':' [] rfl rfl (.character '@' [] (.object (by decide)) rfl .nil)))

/-- `"v@:"` -/
def noParameters : Emitted where
  text := ['v', '@', ':']
  rval := ⟨['v'], [], [], false⟩
  self := ⟨['@'], [], [], false⟩
  cmd := ⟨[':'], [], [], false⟩
  params := []
  spells := spells_noParameters
  self_pure := rfl
  self_extended := rfl
  cmd_pure := rfl
  offsets := Or.inr (by decide)
  apart := by decide

/-- `"@@:@"` -/
def oneParameter : Emitted where
  text := ['@', '@', ':', '@']
  rval := ⟨['@'], [], [], false⟩
  self := ⟨['@'], [], [], false⟩
  cmd := ⟨[':'], [], [], false⟩
  params := [⟨['@'], [], [], false⟩]
  spells := spells_oneParameter
  self_pure := rfl
  self_extended := rfl
  cmd_pure := rfl
  offsets := Or.inr (by decide)
  apart := by decide

end MulleObjcRuntime.Signature.Raw
