import Mathlib.Data.List.AList
import Mathlib.Logic.Function.Basic
import Mathlib.Tactic.Common

/-!
# Tables whose values have a key of their own

A table may have a value under several keys.  One of them owns it: the value's own key when the value is there, any
other key otherwise.

* `Owns`, `OwnedOnce` — what a key owns, and a value that exactly one key owns;
* `owned` — the values of a table, without those under a key that does not own them;
* `count_owned` — a value that is owned once is there once;
* `posed`, `PosesWell` — a value is put in the place of another one, which moves to a free key, and when all values are
  still owned once.
-/

namespace MulleObjcRuntime.Lib.OwnedKeys

variable {K V : Type} (own : V → K)

/-- A key that has a value owns it, unless the value is under its own key. -/
def Owns (T : K → Option V) (k : K) (v : V) : Prop := T k = some v ∧ (own v = k ∨ T (own v) ≠ some v)

/-- One key owns the value. -/
def OwnedOnce (T : K → Option V) (v : V) : Prop := ∃! k, Owns own T k v

variable {own} {T T' : K → Option V} {k k₁ : K} {v s p : V}

/-! ## The owning key -/

lemma owns_of_own (h : T (own v) = some v) : Owns own T k v ↔ k = own v := by
  unfold Owns
  constructor
  · rintro ⟨-, hown | hown⟩
    · exact hown.symm
    · exact absurd h hown
  · rintro rfl
    exact ⟨h, Or.inl rfl⟩

lemma owns_of_not_own (h : T (own v) ≠ some v) : Owns own T k v ↔ T k = some v := by
  unfold Owns
  constructor
  · intro hk
    exact hk.1
  · intro hk
    exact ⟨hk, Or.inr h⟩

lemma ownedOnce_of_own (h : T (own v) = some v) : OwnedOnce own T v :=
  ⟨own v, (owns_of_own h).2 rfl, fun _ hk => (owns_of_own h).1 hk⟩

lemma ownedOnce_of_not_own (h : T (own v) ≠ some v) : OwnedOnce own T v ↔ ∃! k, T k = some v := by
  unfold OwnedOnce
  simp only [owns_of_not_own h]

lemma OwnedOnce.exists_key (h : OwnedOnce own T v) : ∃ k, T k = some v := by
  obtain ⟨k, hk, -⟩ := h
  exact ⟨k, hk.1⟩

lemma ownedOnce_congr (h : ∀ k, T' k = some v ↔ T k = some v) : OwnedOnce own T' v ↔ OwnedOnce own T v := by
  unfold OwnedOnce Owns
  simp only [Ne, h]

lemma ownedOnce_own_congr {own' : V → K} (h : own' v = own v) : OwnedOnce own' T v ↔ OwnedOnce own T v := by
  unfold OwnedOnce Owns
  simp only [h]

/-! ## The owned values -/

section Listing

variable [DecidableEq K] [DecidableEq V] (own)

/-- The values of some entries, without those under a key that does not own them. -/
def owned (T : K → Option V) (entries : List (Σ _ : K, V)) : List V :=
  (entries.filter fun e => own e.2 = e.1 ∨ T (own e.2) ≠ some e.2).map Sigma.snd

variable {own}

/-- **A value is listed once exactly when it is owned once**, in whatever order the entries come. -/
theorem count_owned (t : AList fun _ : K => V) {entries : List (Σ _ : K, V)} (hperm : entries.Perm t.entries) :
    (owned own t.lookup entries).count v = 1 ↔ OwnedOnce own t.lookup v := by
  have hnodup : entries.Nodup := hperm.nodup_iff.2 (List.NodupKeys.nodup t.nodupKeys)
  have hmem : ∀ e : Σ _ : K, V, e ∈ entries ↔ t.lookup e.1 = some e.2 := by
    intro e
    rw [hperm.mem_iff, ← Option.mem_def, AList.mem_lookup_iff]
  have hcount : (owned own t.lookup entries).count v =
      (entries.filter fun e => e.2 = v ∧ (own e.2 = e.1 ∨ t.lookup (own e.2) ≠ some e.2)).length := by
    unfold owned List.count
    rw [List.countP_map, List.countP_eq_length_filter, List.filter_filter]
    congr 1
    apply List.filter_congr
    intro e _
    simp [Bool.beq_eq_decide_eq]
  have hfilter : ∀ e, e ∈ entries.filter (fun e => e.2 = v ∧ (own e.2 = e.1 ∨ t.lookup (own e.2) ≠ some e.2)) ↔
      e.2 = v ∧ Owns own t.lookup e.1 v := by
    rintro ⟨k, w⟩
    simp only [List.mem_filter, hmem, decide_eq_true_eq, Owns]
    constructor
    · rintro ⟨hk, rfl, hown⟩
      exact ⟨rfl, hk, hown⟩
    · rintro ⟨rfl, hk, hown⟩
      exact ⟨hk, rfl, hown⟩
  rw [hcount, List.length_eq_one_iff]
  constructor
  · rintro ⟨e, he⟩
    obtain ⟨rfl, howns⟩ := (hfilter e).1 (he ▸ List.mem_singleton.2 rfl)
    refine ⟨e.1, howns, ?_⟩
    intro k hk
    have hke := (hfilter ⟨k, e.2⟩).2 ⟨rfl, hk⟩
    rw [he, List.mem_singleton] at hke
    exact congrArg Sigma.fst hke
  · rintro ⟨k, hk, hunique⟩
    refine ⟨⟨k, v⟩, ?_⟩
    rw [← List.perm_singleton, List.perm_ext_iff_of_nodup (hnodup.filter _) (List.nodup_singleton _)]
    intro e
    rw [hfilter, List.mem_singleton]
    constructor
    · rintro ⟨rfl, he⟩
      rw [← hunique _ he]
    · rintro rfl
      exact ⟨rfl, hk⟩

end Listing

/-! ## Posing -/

section Posing

variable [DecidableEq K]

lemma ownedOnce_update (h : T (own s) = none) :
    OwnedOnce own (Function.update T (own s) (some s)) v ↔ v = s ∨ OwnedOnce own T v := by
  by_cases hv : v = s
  · subst hv
    simp only [true_or, iff_true]
    exact ownedOnce_of_own (Function.update_self _ _ _)
  · rw [ownedOnce_congr (T := T), or_iff_right hv]
    intro k
    by_cases hk : k = own s
    · subst hk
      rw [Function.update_self, h]
      simp [Ne.symm hv]
    · rw [Function.update_of_ne hk]

variable (own)

/-- `s` moves to the key `k₁`, and `p` takes the place of whatever is under the own key of `s`. -/
def posed (T : K → Option V) (k₁ : K) (s p : V) : K → Option V :=
  Function.update (Function.update T k₁ (some s)) (own s) (some p)

/-- When posing leaves every value with one owning key. -/
structure PosesWell (T : K → Option V) (s p : V) : Prop where
  victim : ∀ k ≠ own s, T k ≠ some s
  poser : T (own p) = some p ∨ own p = own s ∨ ∀ k ≠ own s, T k ≠ some p
  holder : ∀ x, T (own s) = some x → x = s ∨ x = p ∨ (own x ≠ own s ∧ T (own x) = some x) ∨
    (own x = own s ∧ ∃! k, k ≠ own s ∧ T k = some x)

variable {own}

@[simp] lemma posed_own : posed own T k₁ s p (own s) = some p := Function.update_self _ _ _

lemma posed_of_ne (hk : k ≠ own s) (hk₁ : k ≠ k₁) : posed own T k₁ s p k = T k := by
  rw [posed, Function.update_of_ne hk, Function.update_of_ne hk₁]

lemma posed_free (h : k₁ ≠ own s) : posed own T k₁ s p k₁ = some s := by
  rw [posed, Function.update_of_ne h, Function.update_self]

section

variable (hfree : T k₁ = none) (hheld : T (own s) ≠ none) (hsp : s ≠ p)
include hfree

omit [DecidableEq K] in
include hheld in
lemma free_ne_own : k₁ ≠ own s := by
  rintro rfl
  exact hheld hfree

lemma posed_eq_some (hs : v ≠ s) (hp : v ≠ p) : posed own T k₁ s p k = some v ↔ k ≠ own s ∧ T k = some v := by
  by_cases hk : k = own s
  · subst hk
    simp [Ne.symm hp]
  by_cases hk₁ : k = k₁
  · subst hk₁
    rw [posed_free hk, hfree]
    simp [Ne.symm hs]
  · rw [posed_of_ne hk hk₁]
    simp [hk]

include hsp

include hheld in
lemma posed_eq_victim : posed own T k₁ s p k = some s ↔ k = k₁ ∨ (k ≠ own s ∧ T k = some s) := by
  have hne := free_ne_own hfree hheld
  by_cases hk : k = own s
  · subst hk
    simp [Ne.symm hsp, Ne.symm hne]
  by_cases hk₁ : k = k₁
  · subst hk₁
    simp [posed_free hk]
  · rw [posed_of_ne hk hk₁]
    simp [hk, hk₁]

lemma posed_eq_poser : posed own T k₁ s p k = some p ↔ k = own s ∨ (k ≠ own s ∧ T k = some p) := by
  by_cases hk : k = own s
  · subst hk
    simp
  by_cases hk₁ : k = k₁
  · subst hk₁
    rw [posed_free hk, hfree]
    simp [hk, hsp]
  · rw [posed_of_ne hk hk₁]
    simp [hk]

include hheld in
lemma ownedOnce_victim : OwnedOnce own (posed own T k₁ s p) s ↔ ∀ k ≠ own s, T k ≠ some s := by
  rw [ownedOnce_of_not_own (by simp [Ne.symm hsp])]
  simp only [posed_eq_victim hfree hheld hsp]
  constructor
  · rintro ⟨k, -, hunique⟩ j hj hjs
    have h₁ := hunique k₁ (Or.inl rfl)
    have h₂ := hunique j (Or.inr ⟨hj, hjs⟩)
    rw [h₂, ← h₁, hfree] at hjs
    cases hjs
  · intro hnone
    refine ⟨k₁, Or.inl rfl, ?_⟩
    rintro k (hk | ⟨hk, hks⟩)
    · exact hk
    · exact absurd hks (hnone k hk)

lemma ownedOnce_poser : OwnedOnce own (posed own T k₁ s p) p ↔
    T (own p) = some p ∨ own p = own s ∨ ∀ k ≠ own s, T k ≠ some p := by
  by_cases hown : T (own p) = some p
  · simp only [hown, true_or, iff_true]
    refine ownedOnce_of_own ((posed_eq_poser hfree hsp).2 ?_)
    by_cases hps : own p = own s
    · exact Or.inl hps
    · exact Or.inr ⟨hps, hown⟩
  by_cases hps : own p = own s
  · simp only [hps, true_or, or_true, iff_true]
    exact ownedOnce_of_own ((posed_eq_poser hfree hsp).2 (Or.inl hps))
  rw [ownedOnce_of_not_own fun h => hown (((posed_eq_poser hfree hsp).1 h).resolve_left hps).2]
  simp only [posed_eq_poser hfree hsp, hown, hps, false_or]
  constructor
  · rintro ⟨k, -, hunique⟩ j hj hjp
    exact hj ((hunique j (Or.inr ⟨hj, hjp⟩)).trans (hunique (own s) (Or.inl rfl)).symm)
  · intro hnone
    refine ⟨own s, Or.inl rfl, ?_⟩
    rintro k (hk | ⟨hk, hkp⟩)
    · exact hk
    · exact absurd hkp (hnone k hk)

omit hsp in
/-- The value whose key is taken needs another one. -/
lemma ownedOnce_holder (hs : v ≠ s) (hp : v ≠ p) (hv : T (own s) = some v) (honce : OwnedOnce own T v) :
    OwnedOnce own (posed own T k₁ s p) v ↔
      (own v ≠ own s ∧ T (own v) = some v) ∨ (own v = own s ∧ ∃! k, k ≠ own s ∧ T k = some v) := by
  have hposed : ∀ k, posed own T k₁ s p k = some v ↔ k ≠ own s ∧ T k = some v :=
    fun k => posed_eq_some hfree hs hp
  by_cases howns : own v = own s
  · simp only [howns, ne_eq, not_true_eq_false, false_and, true_and, false_or]
    rw [ownedOnce_of_not_own fun h => ((hposed _).1 h).1 howns]
    simp only [hposed, ne_eq]
  by_cases hown : T (own v) = some v
  · simp only [howns, hown, ne_eq, not_false_eq_true, and_self, true_or, iff_true]
    exact ownedOnce_of_own ((hposed _).2 ⟨howns, hown⟩)
  simp only [howns, hown, ne_eq, not_false_eq_true, and_false, false_and, or_false, iff_false]
  -- the key that is taken was the only one
  intro hposes
  obtain ⟨j, hj⟩ := hposes.exists_key
  obtain ⟨hjs, hjv⟩ := (hposed j).1 hj
  exact hjs (((ownedOnce_of_not_own hown).1 honce).unique hjv hv)

include hheld in
/-- **Posing keeps every value owned once exactly when it poses well.** -/
theorem ownedOnce_posed_iff {R : V → Prop} (hR : ∀ k v, T k = some v → R v) (honce : ∀ v, R v → OwnedOnce own T v) :
    (∀ v, R v ∨ v = s ∨ v = p → OwnedOnce own (posed own T k₁ s p) v) ↔ PosesWell own T s p := by
  constructor
  · intro h
    refine ⟨(ownedOnce_victim hfree hheld hsp).1 (h s (by simp)), (ownedOnce_poser hfree hsp).1 (h p (by simp)),
      ?_⟩
    intro x hx
    by_cases hs : x = s
    · exact Or.inl hs
    by_cases hp : x = p
    · exact Or.inr (Or.inl hp)
    have hRx := hR _ _ hx
    exact Or.inr (Or.inr ((ownedOnce_holder hfree hs hp hx (honce x hRx)).1 (h x (Or.inl hRx))))
  · intro h v hv
    by_cases hs : v = s
    · subst hs
      exact (ownedOnce_victim hfree hheld hsp).2 h.victim
    by_cases hp : v = p
    · subst hp
      exact (ownedOnce_poser hfree hsp).2 h.poser
    have hRv := hv.resolve_right (not_or.2 ⟨hs, hp⟩)
    by_cases hheldv : T (own s) = some v
    · exact (ownedOnce_holder hfree hs hp hheldv (honce v hRv)).2
        (((h.holder v hheldv).resolve_left hs).resolve_left hp)
    · rw [ownedOnce_congr (T := T)]
      · exact honce v hRv
      · intro k
        rw [posed_eq_some hfree hs hp, and_iff_right_iff_imp]
        rintro hk rfl
        exact hheldv hk

end

end Posing

end MulleObjcRuntime.Lib.OwnedKeys
