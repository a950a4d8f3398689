import Mathlib.Order.Nat
import Mathlib.Tactic.Common

/-!
# Open addressing with linear probing

A table of `n` slots, each free or with a key and a value, where a key is looked for from its home position on,
slot by slot and around the end.  Nothing is ever taken out of a table.

* `probe` — the walk from a position to the first slot that is free or holds the key;
* `Chained` — every stored key is reached from its home position before a free slot;
* `Chained.insert` — storing a key in the free slot where its probe ends keeps the chains;
* `lookup` — what a probe reads, and `Chained.lookup_skip`: a walk that leaves out a home slot without the key reads
  the same.
-/

namespace MulleObjcRuntime.Lib.OpenAddressing

variable {K V : Type} [DecidableEq K]

/-- A probe for `k` stops at the slot `i`: it is free or holds `k`. -/
def Stops (slot : ℕ → Option (K × V)) (k : K) (i : ℕ) : Prop := ∀ e ∈ slot i, e.1 = k

instance (slot : ℕ → Option (K × V)) (k : K) (i : ℕ) : Decidable (Stops slot k i) := by
  unfold Stops
  infer_instance

/-- The walk from the position `i` to the first slot where a probe for `k` stops; `none` when the fuel is used up. -/
def probe (n : ℕ) (slot : ℕ → Option (K × V)) (k : K) : ℕ → ℕ → Option ℕ
  | 0, _ => none
  | fuel + 1, i => if Stops slot k (i % n) then some (i % n) else probe n slot k fuel (i + 1)

/-- What the probe for `k` reads: no value in a free slot. -/
def lookup (n : ℕ) (slot : ℕ → Option (K × V)) (k : K) (fuel i : ℕ) : Option (Option V) :=
  (probe n slot k fuel i).map fun p => (slot p).map Prod.snd

/-- No slot holds `k`. -/
def Absent (n : ℕ) (slot : ℕ → Option (K × V)) (k : K) : Prop := ∀ i < n, ∀ e ∈ slot i, e.1 ≠ k

/-- A slot is free. -/
def HasFree (n : ℕ) (slot : ℕ → Option (K × V)) : Prop := ∃ i < n, slot i = none

/-- An entry is in the table. -/
def Stored (n : ℕ) (slot : ℕ → Option (K × V)) (e : K × V) : Prop := ∃ i < n, slot i = some e

/-- Between the home position of a stored key and its slot all slots hold other keys. -/
def Chained (n : ℕ) (home : K → ℕ) (slot : ℕ → Option (K × V)) : Prop :=
  ∀ i < n, ∀ e, slot i = some e →
    ∃ d, (home e.1 + d) % n = i ∧ ∀ j < d, ¬ Stops slot e.1 ((home e.1 + j) % n)

variable {n fuel i p d : ℕ} {slot slot' : ℕ → Option (K × V)} {home : K → ℕ} {k : K} {v : V} {e e' : K × V}

/-! ## Where a probe ends -/

omit [DecidableEq K] in
lemma stops_of_free (h : slot i = none) : Stops slot k i := by simp [Stops, h]

omit [DecidableEq K] in
lemma stops_of_key (h : slot i = some e) : Stops slot e.1 i := by
  intro e' he'
  rw [h] at he'
  cases he'
  rfl

omit [DecidableEq K] in
lemma Absent.free (h : Absent n slot k) (hi : i < n) (hstops : Stops slot k i) : slot i = none := by
  by_contra hne
  obtain ⟨e, he⟩ := Option.ne_none_iff_exists'.1 hne
  exact h i hi e he (hstops e he)

theorem probe_eq_some : probe n slot k fuel i = some p ↔
    ∃ d < fuel, (i + d) % n = p ∧ Stops slot k p ∧ ∀ j < d, ¬ Stops slot k ((i + j) % n) := by
  induction fuel generalizing i with
  | zero => simp [probe]
  | succ fuel ih =>
    unfold probe
    split
    · rename_i hstops
      rw [Option.some_inj]
      constructor
      · rintro rfl
        exact ⟨0, by omega, rfl, hstops, by omega⟩
      · rintro ⟨d, -, hp, -, hbefore⟩
        rcases Nat.eq_zero_or_pos d with rfl | hd
        · exact hp
        · exact absurd hstops (hbefore 0 hd)
    · rename_i hstops
      rw [ih]
      constructor
      · rintro ⟨d, hd, hp, hp', hbefore⟩
        refine ⟨d + 1, by omega, by rw [← hp]; congr 1; omega, hp', ?_⟩
        intro j hj
        rcases Nat.eq_zero_or_pos j with rfl | hj0
        · exact hstops
        · have := hbefore (j - 1) (by omega)
          rwa [show i + 1 + (j - 1) = i + j by omega] at this
      · rintro ⟨d, hd, hp, hp', hbefore⟩
        rcases Nat.eq_zero_or_pos d with rfl | hd0
        · rw [← hp] at hp'
          exact absurd hp' hstops
        · refine ⟨d - 1, by omega, by rw [← hp]; congr 1; omega, hp', ?_⟩
          intro j hj
          have := hbefore (j + 1) (by omega)
          rwa [show i + (j + 1) = i + 1 + j by omega] at this

theorem probe_eq_none : probe n slot k fuel i = none ↔ ∀ j < fuel, ¬ Stops slot k ((i + j) % n) := by
  induction fuel generalizing i with
  | zero => simp [probe]
  | succ fuel ih =>
    unfold probe
    split
    · rename_i hstops
      constructor
      · intro h
        cases h
      · intro h
        exact absurd hstops (h 0 (by omega))
    · rename_i hstops
      rw [ih]
      constructor
      · intro h j hj
        rcases Nat.eq_zero_or_pos j with rfl | hj0
        · exact hstops
        · have := h (j - 1) (by omega)
          rwa [show i + 1 + (j - 1) = i + j by omega] at this
      · intro h j hj
        have := h (j + 1) (by omega)
        rwa [show i + (j + 1) = i + 1 + j by omega] at this

lemma probe_congr {j : ℕ} (h : i % n = j % n) : probe n slot k fuel i = probe n slot k fuel j := by
  induction fuel generalizing i j with
  | zero => rfl
  | succ fuel ih =>
    unfold probe
    rw [h, ih (show (i + 1) % n = (j + 1) % n by rw [Nat.add_mod, h, ← Nat.add_mod])]

lemma lookup_congr {j : ℕ} (h : i % n = j % n) : lookup n slot k fuel i = lookup n slot k fuel j := by
  rw [lookup, lookup, probe_congr h]

lemma exists_step (i : ℕ) (hp : p < n) : ∃ j < n, (i + j) % n = p := by
  refine ⟨(p + n - i % n) % n, Nat.mod_lt _ (by omega), ?_⟩
  have hi : i % n < n := Nat.mod_lt _ (by omega)
  calc (i + (p + n - i % n) % n) % n = (i % n + (p + n - i % n)) % n := by rw [Nat.add_mod_mod, Nat.mod_add_mod]
    _ = (p + n) % n := by congr 1; omega
    _ = p := by rw [Nat.add_mod_right, Nat.mod_eq_of_lt hp]

/-- **A probe for an absent key ends at a free slot.** -/
theorem probe_absent (h : Absent n slot k) (hfree : HasFree n slot) (hfuel : n ≤ fuel) (i : ℕ) :
    ∃ p < n, probe n slot k fuel i = some p ∧ slot p = none := by
  obtain ⟨q, hq, hnone⟩ := hfree
  obtain ⟨j, hj, hjq⟩ := exists_step i hq
  have hne : probe n slot k fuel i ≠ none := by
    rw [Ne, probe_eq_none]
    intro hall
    exact hall j (by omega) (by rw [hjq]; exact stops_of_free hnone)
  obtain ⟨p, hp⟩ := Option.ne_none_iff_exists'.1 hne
  obtain ⟨d, -, hd, hstops, -⟩ := probe_eq_some.1 hp
  have hlt : p < n := by
    rw [← hd]
    exact Nat.mod_lt _ (by omega)
  exact ⟨p, hlt, hp, h.free hlt hstops⟩

/-- A probe for an absent key in a full table does not end. -/
theorem probe_full (h : Absent n slot k) (hfull : ¬ HasFree n slot) (hn : 0 < n) (fuel i : ℕ) :
    probe n slot k fuel i = none := by
  rw [probe_eq_none]
  intro j _ hstops
  have hlt := Nat.mod_lt (i + j) hn
  exact hfull ⟨_, hlt, h.free hlt hstops⟩

/-! ## Chains -/

omit [DecidableEq K] in
lemma Chained.dist_lt (hi : i < n) (hd : (home e.1 + d) % n = i) (he : slot i = some e)
    (hbefore : ∀ j < d, ¬ Stops slot e.1 ((home e.1 + j) % n)) : d < n := by
  by_contra hlt
  refine hbefore (d - n) (by omega) ?_
  have : (home e.1 + (d - n)) % n = i := by
    rw [← hd, ← Nat.add_mod_right, show home e.1 + (d - n) + n = home e.1 + d by omega]
  rw [this]
  exact stops_of_key he

/-- **A probe for a stored key ends at its slot.** -/
theorem Chained.probe_stored (h : Chained n home slot) (hi : i < n) (he : slot i = some e) (hfuel : n ≤ fuel) :
    probe n slot e.1 fuel (home e.1) = some i := by
  obtain ⟨d, hd, hbefore⟩ := h i hi e he
  have := dist_lt hi hd he hbefore
  exact probe_eq_some.2 ⟨d, by omega, hd, stops_of_key he, hbefore⟩

/-- A key is stored once. -/
theorem Chained.unique (h : Chained n home slot) (he : Stored n slot e) (he' : Stored n slot e')
    (hkey : e.1 = e'.1) : e = e' := by
  obtain ⟨i, hi, hei⟩ := he
  obtain ⟨j, hj, hej⟩ := he'
  have h₁ := h.probe_stored hi hei le_rfl
  have h₂ := h.probe_stored hj hej le_rfl
  rw [hkey, h₂] at h₁
  cases h₁
  rw [hei] at hej
  exact Option.some.inj hej

omit [DecidableEq K] in
lemma not_absent : ¬ Absent n slot k ↔ ∃ v, Stored n slot (k, v) := by
  unfold Absent Stored
  push Not
  constructor
  · rintro ⟨i, hi, ⟨k', v⟩, he, rfl⟩
    exact ⟨v, i, hi, he⟩
  · rintro ⟨v, i, hi, he⟩
    exact ⟨i, hi, (k, v), he, rfl⟩

lemma Chained.absent_of_free (h : Chained n home slot) (hprobe : probe n slot k fuel (home k) = some p)
    (hfree : slot p = none) : Absent n slot k := by
  by_contra hne
  obtain ⟨v, i, hi, he⟩ := not_absent.1 hne
  have hstored := h.probe_stored hi he (le_max_right fuel n)
  obtain ⟨d, hd, hp⟩ := probe_eq_some.1 hprobe
  have hmore : probe n slot k (max fuel n) (home k) = some p := probe_eq_some.2 ⟨d, by omega, hp⟩
  rw [hmore] at hstored
  cases hstored
  rw [hfree] at he
  cases he

/-- **Storing a key in the free slot where its probe ends keeps the chains.** -/
theorem Chained.insert (h : Chained n home slot) (hprobe : probe n slot k fuel (home k) = some p)
    (hfree : slot p = none) (hp : slot' p = some (k, v)) (hother : ∀ i, i ≠ p → slot' i = slot i) :
    Chained n home slot' := by
  -- the slots a chain runs through are taken, so they are not the new one
  have hkeep : ∀ k' q, ¬ Stops slot k' q → ¬ Stops slot' k' q := by
    intro k' q hq
    have hqp : q ≠ p := by
      rintro rfl
      exact hq (stops_of_free hfree)
    unfold Stops
    rwa [hother q hqp]
  intro i hi e he
  by_cases hip : i = p
  · subst hip
    rw [hp] at he
    cases he
    obtain ⟨d, -, hd, -, hbefore⟩ := probe_eq_some.1 hprobe
    exact ⟨d, hd, fun j hj => hkeep _ _ (hbefore j hj)⟩
  · rw [hother i hip] at he
    obtain ⟨d, hd, hbefore⟩ := h i hi e he
    exact ⟨d, hd, fun j hj => hkeep _ _ (hbefore j hj)⟩

omit [DecidableEq K] in
lemma stored_insert (hlt : p < n) (hfree : slot p = none) (hp : slot' p = some (k, v))
    (hother : ∀ i, i ≠ p → slot' i = slot i) : Stored n slot' e ↔ Stored n slot e ∨ e = (k, v) := by
  constructor
  · rintro ⟨i, hi, he⟩
    by_cases hip : i = p
    · subst hip
      rw [hp] at he
      exact Or.inr (Option.some.inj he).symm
    · exact Or.inl ⟨i, hi, by rwa [← hother i hip]⟩
  · rintro (⟨i, hi, he⟩ | rfl)
    · refine ⟨i, hi, ?_⟩
      rw [hother i, he]
      rintro rfl
      rw [hfree] at he
      cases he
    · exact ⟨p, hlt, hp⟩

omit [DecidableEq K] in
lemma chained_empty (home : K → ℕ) (h : ∀ i < n, slot i = none) : Chained n home slot := by
  intro i hi e he
  rw [h i hi] at he
  cases he

/-! ## What a lookup reads -/

lemma lookup_succ : lookup n slot k (fuel + 1) i =
    match slot (i % n) with
    | none => some none
    | some e => if e.1 = k then some (some e.2) else lookup n slot k fuel (i + 1) := by
  rw [lookup, probe]
  rcases hs : slot (i % n) with _ | e
  · rw [if_pos (stops_of_free hs)]
    simp [hs]
  · by_cases he : e.1 = k
    · rw [if_pos (he ▸ stops_of_key hs)]
      simp [hs, he]
    · rw [if_neg fun h => he (h e hs)]
      simp [he, lookup]

theorem Chained.lookup_stored (h : Chained n home slot) (hs : Stored n slot (k, v)) (hfuel : n ≤ fuel) :
    lookup n slot k fuel (home k) = some (some v) := by
  obtain ⟨i, hi, he⟩ := hs
  have := h.probe_stored hi he hfuel
  simp only at this
  simp [lookup, this, he]

theorem lookup_absent (h : Absent n slot k) (hfree : HasFree n slot) (hfuel : n ≤ fuel) (i : ℕ) :
    lookup n slot k fuel i = some none := by
  obtain ⟨p, -, hp, hnone⟩ := probe_absent h hfree hfuel i
  simp [lookup, hp, hnone]

theorem lookup_full (h : Absent n slot k) (hfull : ¬ HasFree n slot) (hn : 0 < n) (fuel i : ℕ) :
    lookup n slot k fuel i = none := by
  simp [lookup, probe_full h hfull hn]

/-- **A walk that leaves out a home slot without the key reads the same**, also in a full table. -/
theorem Chained.lookup_skip (h : Chained n home slot) (hn : 0 < n) (hhome : ∀ e ∈ slot (home k % n), e.1 ≠ k)
    (hfuel : n ≤ fuel) : lookup n slot k fuel (home k + 1) = lookup n slot k fuel (home k) := by
  by_cases habsent : Absent n slot k
  · by_cases hfree : HasFree n slot
    · rw [lookup_absent habsent hfree hfuel, lookup_absent habsent hfree hfuel]
    · rw [lookup_full habsent hfree hn, lookup_full habsent hfree hn]
  · obtain ⟨v, i, hi, he⟩ := not_absent.1 habsent
    have hprobe := h.probe_stored hi he hfuel
    obtain ⟨d, hd, hdi, hstops, hbefore⟩ := probe_eq_some.1 hprobe
    -- the key is not at home, so its chain has a first step
    have hd0 : 0 < d := by
      rcases Nat.eq_zero_or_pos d with rfl | hd0
      · rw [Nat.add_zero] at hdi
        exact absurd rfl (hhome (k, v) (by rw [hdi]; exact he))
      · exact hd0
    have hskip : probe n slot k fuel (home k + 1) = some i := by
      refine probe_eq_some.2 ⟨d - 1, by omega, by rw [← hdi]; congr 1; simp only; omega, hstops, fun j hj => ?_⟩
      have := hbefore (j + 1) (by omega)
      rwa [show home k + (j + 1) = home k + 1 + j by omega] at this
    simp only at hprobe
    rw [lookup, lookup, hskip, hprobe]

end MulleObjcRuntime.Lib.OpenAddressing
