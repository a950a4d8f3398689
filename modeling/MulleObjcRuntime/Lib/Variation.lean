import Mathlib.Data.List.Basic
import Mathlib.Tactic.Common

/-!
# Elements that differ from the first of their kind

* `EquivalenceOn` — an equivalence relation among the elements with a property;
* `Varies` — among the elements with a key, there are two that the relation tells apart;
* `varies_concat_iff` — of a relation that is an equivalence, one comparison with an earlier element with the key is
  enough to follow this through a list.
-/

namespace MulleObjcRuntime.Lib.Variation

variable {α κ : Type} {P : α → Prop} {r : α → α → Prop} {key : α → κ} {l l' : List α} {k : κ} {a d : α}

/-- The relation is an equivalence among the elements with the property. -/
structure EquivalenceOn (P : α → Prop) (r : α → α → Prop) : Prop where
  refl : ∀ a, P a → r a a
  symm : ∀ a b, P a → P b → r a b → r b a
  trans : ∀ a b c, P a → P b → P c → r a b → r b c → r a c

/-- Two elements of the list with the key are told apart. -/
def Varies (key : α → κ) (r : α → α → Prop) (l : List α) (k : κ) : Prop :=
  ∃ a ∈ l, ∃ b ∈ l, key a = k ∧ key b = k ∧ ¬ r a b

lemma varies_congr (h : ∀ a, a ∈ l ↔ a ∈ l') : Varies key r l k ↔ Varies key r l' k := by
  unfold Varies
  simp only [h]

lemma not_varies_nil : ¬ Varies key r [] k := by
  rintro ⟨a, ha, -⟩
  cases ha

lemma Varies.append (h : Varies key r l k) : Varies key r (l ++ l') k := by
  obtain ⟨a, ha, b, hb, hvaries⟩ := h
  exact ⟨a, List.mem_append_left l' ha, b, List.mem_append_left l' hb, hvaries⟩

lemma varies_concat_of_ne (hd : key d ≠ k) : Varies key r (l ++ [d]) k ↔ Varies key r l k := by
  refine ⟨?_, Varies.append⟩
  have hold (a : α) (ha : a ∈ l ++ [d]) (hk : key a = k) : a ∈ l := by
    rcases List.mem_append.mp ha with ha | ha
    · exact ha
    · exact absurd (List.mem_singleton.mp ha ▸ hk) hd
  rintro ⟨a, ha, b, hb, hka, hkb, hne⟩
  exact ⟨a, hold a ha hka, b, hold b hb hkb, hka, hkb, hne⟩

lemma not_varies_concat (hr : EquivalenceOn P r) (hPd : P d) (hl : ∀ a ∈ l, key a ≠ key d) :
    ¬ Varies key r (l ++ [d]) (key d) := by
  have honly (a : α) (ha : a ∈ l ++ [d]) (hk : key a = key d) : a = d := by
    rcases List.mem_append.mp ha with ha | ha
    · exact absurd hk (hl a ha)
    · exact List.mem_singleton.mp ha
  rintro ⟨a, ha, b, hb, hka, hkb, hne⟩
  rw [honly a ha hka, honly b hb hkb] at hne
  exact hne (hr.refl d hPd)

/-- **One comparison is enough**: an element is told apart from some earlier one with its key exactly when it is told apart
from any given one, unless the earlier ones vary already. -/
theorem varies_concat_iff (hr : EquivalenceOn P r) (hP : ∀ b ∈ l ++ [d], P b) (ha : a ∈ l) (hk : key a = key d) :
    Varies key r (l ++ [d]) (key d) ↔ Varies key r l (key d) ∨ ¬ r a d := by
  have hPd : P d := hP d (List.mem_append_right l List.mem_cons_self)
  have hPl (b : α) (hb : b ∈ l) : P b := hP b (List.mem_append_left [d] hb)
  constructor
  · intro hvaries
    by_contra hnot
    rw [not_or, not_not] at hnot
    obtain ⟨hsame, had⟩ := hnot
    -- every element with the key is like the given one
    have hall (b : α) (hb : b ∈ l ++ [d]) (hkb : key b = key d) : r a b := by
      rcases List.mem_append.mp hb with hb | hb
      · by_contra hne
        exact hsame ⟨a, ha, b, hb, hk, hkb, hne⟩
      · exact List.mem_singleton.mp hb ▸ had
    obtain ⟨b, hb, c, hc, hkb, hkc, hne⟩ := hvaries
    have hba : r b a := hr.symm a b (hPl a ha) (hP b hb) (hall b hb hkb)
    exact hne (hr.trans b a c (hP b hb) (hPl a ha) (hP c hc) hba (hall c hc hkc))
  · rintro (hvaries | hne)
    · exact hvaries.append
    · exact ⟨a, List.mem_append_left [d] ha, d, List.mem_append_right l List.mem_cons_self, hk, rfl, hne⟩

end MulleObjcRuntime.Lib.Variation
