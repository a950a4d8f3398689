import MulleObjcRuntime.Objects.PropertyValue

/-!
# The atomic setter of a C string property

The string that is passed is duplicated, and the duplicate is swapped in for the value that was read.  Who loses frees the
duplicate, who wins frees the old value.

* `setPropertyCstring` — `mulle_objc_object_set_property_cstring` with the atomic strategy, run by itself;
* `CstringSetter.begin`, `CstringSetter.advance` — the same with a stop at every access;
* `Duplicates` — where each duplicate is, at any time;
* `cstring_safe` — no duplicate leaks or is freed twice, and no undisturbed set is lost.

An address that has been given out is not given out again while the threads run.
-/

namespace MulleObjcRuntime.Objects

open Lib.Interleaving

/-- The ivar, with everything that was duplicated and freed. -/
structure CstringIvar where
  ivar : Option ℕ
  /-- the strings that were passed -/
  passed : List String
  /-- the duplicates, with their contents -/
  made : List (ℕ × String)
  freed : List ℕ
  /-- how often the ivar has been written -/
  writes : ℕ
  deriving DecidableEq

/-- The ivar of a new object. -/
def CstringIvar.new : CstringIvar := ⟨none, [], [], [], 0⟩

/-- `mulle_allocator_strdup`, which returns the address `fresh`. -/
def CstringIvar.strdup (s : CstringIvar) (fresh : ℕ) (str : String) : CstringIvar :=
  { s with made := (fresh, str) :: s.made }

/-- `mulle_allocator_abafree`, `mulle_allocator_free` -/
def CstringIvar.free (s : CstringIvar) (block : Option ℕ) : CstringIvar :=
  { s with freed := block.toList ++ s.freed }

/-- The ivar is written. -/
def CstringIvar.write (s : CstringIvar) (value : Option ℕ) : CstringIvar :=
  { s with ivar := value, writes := s.writes + 1 }

/-- The address of a string that is passed. -/
def address (value : Option (ℕ × String)) : Option ℕ := value.map Prod.fst

/-- The strings of a call, if there is one. -/
def CstringIvar.pass (s : CstringIvar) (value : Option (ℕ × String)) : CstringIvar :=
  { s with passed := (value.map Prod.snd).toList ++ s.passed }

/-- `mulle_objc_object_set_property_cstring`, when nobody else is at it: the swap is won. -/
def setPropertyCstring (s : CstringIvar) (value : Option (ℕ × String)) (fresh : ℕ) : CstringIvar :=
  let s := s.pass value
  let old := s.ivar
  if address value = old then s
  else match value with
    | none => (s.write none).free old
    | some (_, str) => ((s.strdup fresh str).write (some fresh)).free old

/-- Where a thread is in the setter.  With the value it read it remembers how often the ivar had been written. -/
inductive CstringSetter
  | idle
  | called (value : Option (ℕ × String))
  /-- about to duplicate the string -/
  | duplicating (value : Option (ℕ × String)) (old : Option ℕ) (writes : ℕ)
  /-- about to compare and swap -/
  | exchanging (value : Option (ℕ × String)) (duplicate old : Option ℕ) (writes : ℕ)
  /-- about to free what the ivar does not hold -/
  | freeing (block : Option ℕ)
  deriving DecidableEq

/-- The beginning of a call. -/
def CstringSetter.begin (s : CstringIvar) (value : Option (ℕ × String)) : CstringIvar × CstringSetter :=
  (s.pass value, .called value)

/-- The next access.  A duplicate gets the address `fresh`. -/
def CstringSetter.advance (s : CstringIvar) (fresh : ℕ) : CstringSetter → Option (CstringIvar × CstringSetter)
  | .idle => none
  | .called value => if address value = s.ivar then some (s, .idle) else some (s, .duplicating value s.ivar s.writes)
  | .duplicating value old writes =>
    match value with
    | none => some (s, .exchanging none none old writes)
    | some (p, str) =>
      if fresh ∈ s.made.map Prod.fst then none
      else some (s.strdup fresh str, .exchanging (some (p, str)) (some fresh) old writes)
  | .exchanging _ duplicate old _ =>
    if s.ivar = old then some (s.write duplicate, .freeing old) else some (s, .freeing duplicate)
  | .freeing block => some (s.free block, .idle)

/-- A step of a thread. -/
inductive CstringStep : CstringIvar → CstringSetter → CstringIvar → CstringSetter → Prop
  | call {s : CstringIvar} (value : Option (ℕ × String)) :
    CstringStep s .idle (CstringSetter.begin s value).1 (CstringSetter.begin s value).2
  | next {s s' : CstringIvar} {l l' : CstringSetter} (fresh : ℕ) (h : l.advance s fresh = some (s', l')) :
    CstringStep s l s' l'

/-- Threads that have not called the setter yet. -/
def cstringStart (ι : Type) : Threads ι CstringIvar CstringSetter := ⟨.new, fun _ => .idle⟩

/-- A call that nobody disturbs is the function of the source. -/
theorem solo_setPropertyCstring (s : CstringIvar) (value : Option (ℕ × String)) {fresh : ℕ}
    (hfresh : fresh ∉ s.made.map Prod.fst) :
    Solo CstringStep s .idle (setPropertyCstring s value fresh) .idle := by
  apply Solo.step (.call value)
  by_cases hsame : address value = s.ivar
  · have hfinal : setPropertyCstring s value fresh = s.pass value := if_pos hsame
    have hadvance : CstringSetter.advance (s.pass value) fresh (.called value) = some (s.pass value, .idle) := if_pos hsame
    rw [hfinal]
    exact Solo.step (.next fresh hadvance) (Solo.refl _ _)
  · have hadvance : CstringSetter.advance (s.pass value) fresh (.called value) =
        some (s.pass value, .duplicating value s.ivar s.writes) := if_neg hsame
    apply Solo.step (.next fresh hadvance)
    cases value with
    | none =>
      have hfinal : setPropertyCstring s none fresh = ((s.pass none).write none).free s.ivar := if_neg hsame
      have hexchange : CstringSetter.advance (s.pass none) fresh (.exchanging none none s.ivar s.writes) =
          some ((s.pass none).write none, .freeing s.ivar) := if_pos rfl
      rw [hfinal]
      exact Solo.step (.next fresh rfl) (Solo.step (.next fresh hexchange) (Solo.step (.next fresh rfl) (Solo.refl _ _)))
    | some value =>
      obtain ⟨p, str⟩ := value
      have hfinal : setPropertyCstring s (some (p, str)) fresh =
          (((s.pass (some (p, str))).strdup fresh str).write (some fresh)).free s.ivar := if_neg hsame
      have hduplicate : CstringSetter.advance (s.pass (some (p, str))) fresh
          (.duplicating (some (p, str)) s.ivar s.writes) = some ((s.pass (some (p, str))).strdup fresh str,
            .exchanging (some (p, str)) (some fresh) s.ivar s.writes) := if_neg hfresh
      have hexchange : CstringSetter.advance ((s.pass (some (p, str))).strdup fresh str) fresh
          (.exchanging (some (p, str)) (some fresh) s.ivar s.writes) =
          some (((s.pass (some (p, str))).strdup fresh str).write (some fresh), .freeing s.ivar) := if_pos rfl
      rw [hfinal]
      exact Solo.step (.next fresh hduplicate)
        (Solo.step (.next fresh hexchange) (Solo.step (.next fresh rfl) (Solo.refl _ _)))

lemma setPropertyCstring_ivar {s : CstringIvar} {value : Option (ℕ × String)} (fresh : ℕ) (hne : address value ≠ s.ivar) :
    (setPropertyCstring s value fresh).ivar = value.map fun _ => fresh := by
  have hpass : ¬ address value = (s.pass value).ivar := hne
  simp only [setPropertyCstring, if_neg hpass]
  cases value with
  | none => rfl
  | some value => rfl

/-! ## Where the duplicates are -/

/-- What the thread alone can free. -/
def CstringSetter.holds (x : ℕ) : CstringSetter → ℕ
  | .exchanging _ duplicate _ _ => isObject x duplicate
  | .freeing block => isObject x block
  | .idle | .called _ | .duplicating _ _ _ => 0

/-- What a thread knows of the ivar and of the string it was passed. -/
def CstringSetter.Knows (s : CstringIvar) : CstringSetter → Prop
  | .idle | .freeing _ => True
  | .called value => ∀ p str, value = some (p, str) → str ∈ s.passed
  | .duplicating value old writes =>
    (∀ p str, value = some (p, str) → str ∈ s.passed) ∧ writes ≤ s.writes ∧ (writes = s.writes → s.ivar = old)
  | .exchanging value duplicate old writes =>
    (value = none ∧ duplicate = none ∨ ∃ p str x, value = some (p, str) ∧ duplicate = some x ∧ (x, str) ∈ s.made) ∧
      writes ≤ s.writes ∧ (writes = s.writes → s.ivar = old)

@[simp]
lemma isObject_none (x : ℕ) : isObject x none = 0 := rfl

@[simp]
lemma isObject_self (x : ℕ) : isObject x (some x) = 1 := if_pos rfl

lemma isObject_ne {x : ℕ} {value : Option ℕ} (h : value ≠ some x) : isObject x value = 0 := if_neg h

lemma count_address (x y : ℕ) (l : List ℕ) : (y :: l).count x = isObject x (some y) + l.count x := by
  rw [List.count_cons, isObject, Nat.add_comm]
  simp

variable {ι : Type} [DecidableEq ι] [Fintype ι] {t : Threads ι CstringIvar CstringSetter} {s : CstringIvar}
  {l : CstringSetter}

/-- **Each duplicate at any time**: it is in one place, and it is one of a string that was passed. -/
structure Duplicates (t : Threads ι CstringIvar CstringSetter) : Prop where
  place : ∀ x, (t.shared.made.map Prod.fst).count x =
    isObject x t.shared.ivar + t.shared.freed.count x + t.total (CstringSetter.holds x)
  nodup : (t.shared.made.map Prod.fst).Nodup
  passed : ∀ x str, (x, str) ∈ t.shared.made → str ∈ t.shared.passed
  knows : ∀ i, (t.thread i).Knows t.shared

omit [DecidableEq ι] in
lemma duplicates_start : Duplicates (cstringStart ι) := by
  refine ⟨fun x => ?_, List.nodup_nil, fun x str h => absurd h List.not_mem_nil, fun i => trivial⟩
  have htotal : (cstringStart ι).total (CstringSetter.holds x) = 0 := total_eq_zero fun _ => rfl
  rw [htotal]
  rfl

/-- What others know stays true: strings and duplicates are not forgotten, and a write shows in the count. -/
lemma CstringSetter.Knows.mono {s' : CstringIvar} (h : l.Knows s) (hpassed : s.passed ⊆ s'.passed)
    (hmade : s.made ⊆ s'.made) (hwrites : s.writes < s'.writes ∨ s.writes = s'.writes ∧ s.ivar = s'.ivar) :
    l.Knows s' := by
  have hold : ∀ {old writes}, writes ≤ s.writes ∧ (writes = s.writes → s.ivar = old) →
      writes ≤ s'.writes ∧ (writes = s'.writes → s'.ivar = old) := by
    rintro old writes ⟨hle, hivar⟩
    rcases hwrites with hlt | ⟨heq, hsame⟩
    · exact ⟨by omega, fun h => by omega⟩
    · exact ⟨by omega, fun h => by rw [← hsame, hivar (by omega)]⟩
  cases l with
  | idle => trivial
  | freeing block => trivial
  | called value => exact fun p str hvalue => hpassed (h p str hvalue)
  | duplicating value old writes => exact ⟨fun p str hvalue => hpassed (h.1 p str hvalue), hold h.2⟩
  | exchanging value duplicate old writes =>
    refine ⟨h.1.imp_right ?_, hold h.2⟩
    rintro ⟨p, str, x, hvalue, hduplicate, hmem⟩
    exact ⟨p, str, x, hvalue, hduplicate, hmade hmem⟩

lemma Duplicates.moved (h : Duplicates t) {i : ι} {l₀ : CstringSetter} (hthread : t.thread i = l₀)
    (hplace : ∀ x,
      (s.made.map Prod.fst).count x + (isObject x t.shared.ivar + t.shared.freed.count x + l₀.holds x) =
        (t.shared.made.map Prod.fst).count x + (isObject x s.ivar + s.freed.count x + l.holds x))
    (hnodup : (s.made.map Prod.fst).Nodup) (hfrom : ∀ x str, (x, str) ∈ s.made → str ∈ s.passed)
    (hpassed : t.shared.passed ⊆ s.passed) (hmade : t.shared.made ⊆ s.made)
    (hwrites : t.shared.writes < s.writes ∨ t.shared.writes = s.writes ∧ t.shared.ivar = s.ivar) (hknows : l.Knows s) :
    Duplicates (t.moved i s l) := by
  subst hthread
  refine ⟨fun x => ?_, hnodup, hfrom, ?_⟩
  · have hholds := total_moved (s := t) (CstringSetter.holds x) i s l
    have hbefore := h.place x
    have hstep := hplace x
    simp only [Threads.moved] at hholds ⊢
    omega
  · exact (forall_moved fun _ (l : CstringSetter) => l.Knows s).2
      ⟨hknows, fun j _ => (h.knows j).mono hpassed hmade hwrites⟩

lemma Duplicates.moved_still (h : Duplicates t) {i : ι} {l₀ : CstringSetter} (hthread : t.thread i = l₀)
    (hholds : ∀ x, l.holds x = l₀.holds x) (hknows : l.Knows t.shared) : Duplicates (t.moved i t.shared l) := by
  refine h.moved hthread (fun x => ?_) h.nodup h.passed (List.Subset.refl _) (List.Subset.refl _) (Or.inr ⟨rfl, rfl⟩)
    hknows
  rw [hholds]

/-- **Each step keeps track of the duplicates.** -/
theorem Duplicates.step (h : Duplicates t) {i : ι} (hstep : CstringStep t.shared (t.thread i) s l) :
    Duplicates (t.moved i s l) := by
  have hknows := h.knows i
  generalize hthread : t.thread i = l₀ at hstep hknows
  cases hstep with
  | call value =>
    refine h.moved hthread (fun x => rfl) h.nodup (fun x str hmem => List.mem_append_right _ (h.passed x str hmem))
      (List.subset_append_right _ _) (List.Subset.refl _) (Or.inr ⟨rfl, rfl⟩) ?_
    rintro p str rfl
    exact List.mem_append_left _ (List.mem_singleton_self _)
  | next fresh hadvance =>
    cases l₀ with
    | idle => cases hadvance
    | called value =>
      simp only [CstringSetter.advance] at hadvance
      split at hadvance
      · cases hadvance
        exact h.moved_still hthread (fun x => rfl) trivial
      · cases hadvance
        exact h.moved_still hthread (fun x => rfl) ⟨hknows, le_refl _, fun _ => rfl⟩
    | duplicating value old writes =>
      obtain ⟨hvalue, hold⟩ := hknows
      cases value with
      | none =>
        cases hadvance
        exact h.moved_still hthread (fun x => rfl) ⟨Or.inl ⟨rfl, rfl⟩, hold⟩
      | some value =>
        obtain ⟨p, str⟩ := value
        simp only [CstringSetter.advance] at hadvance
        split at hadvance
        · cases hadvance
        · next hfresh =>
          cases hadvance
          refine h.moved hthread (fun x => ?_) (List.nodup_cons.2 ⟨hfresh, h.nodup⟩) (fun x str' hmem => ?_)
            (List.Subset.refl _) (List.subset_cons_self _ _) (Or.inr ⟨rfl, rfl⟩)
            ⟨Or.inr ⟨p, str, fresh, rfl, rfl, List.mem_cons_self⟩, hold⟩
          · simp only [CstringSetter.holds, CstringIvar.strdup, List.map_cons, count_address]
            omega
          · rcases List.mem_cons.1 hmem with hmem | hmem
            · obtain ⟨rfl, rfl⟩ := Prod.mk.inj hmem
              exact hvalue p str' rfl
            · exact h.passed x str' hmem
    | exchanging value duplicate old writes =>
      simp only [CstringSetter.advance] at hadvance
      split at hadvance
      · next hwon =>
        cases hadvance
        refine h.moved hthread (fun x => ?_) h.nodup h.passed (List.Subset.refl _) (List.Subset.refl _)
          (Or.inl (Nat.lt_succ_self _)) trivial
        simp only [CstringSetter.holds, CstringIvar.write, hwon]
        omega
      · cases hadvance
        exact h.moved_still hthread (fun x => rfl) trivial
    | freeing block =>
      cases hadvance
      refine h.moved hthread (fun x => ?_) h.nodup h.passed (List.Subset.refl _) (List.Subset.refl _)
        (Or.inr ⟨rfl, rfl⟩) trivial
      simp only [CstringSetter.holds, CstringIvar.free, count_toList]
      omega

/-! ## What is promised -/

/-- Whatever the threads do. -/
structure CstringSafe (t : Threads ι CstringIvar CstringSetter) : Prop where
  /-- a duplicate is the value of the ivar, or freed, or in the hands of one setter, and only once -/
  place : ∀ x str, (x, str) ∈ t.shared.made →
    isObject x t.shared.ivar + t.shared.freed.count x + t.total (CstringSetter.holds x) = 1
  /-- no setter is under way -/
  settled : (∀ i, t.thread i = .idle) → ∀ x str, (x, str) ∈ t.shared.made →
    t.shared.ivar = some x ∧ x ∉ t.shared.freed ∨ t.shared.ivar ≠ some x ∧ t.shared.freed.count x = 1
  /-- only a duplicate is freed, and only once -/
  freed : ∀ x ∈ t.shared.freed, t.shared.freed.count x = 1 ∧ ∃ str, (x, str) ∈ t.shared.made
  /-- the ivar holds a live duplicate of a string that was passed -/
  current : t.shared.ivar = none ∨
    ∃ x str, t.shared.ivar = some x ∧ (x, str) ∈ t.shared.made ∧ x ∉ t.shared.freed ∧ str ∈ t.shared.passed
  /-- a set is not lost when the ivar has not been written since it was read -/
  notLost : ∀ i value duplicate old, t.thread i = .exchanging value duplicate old t.shared.writes →
    ∀ fresh s l, (t.thread i).advance t.shared fresh = some (s, l) →
      value = none ∧ s.ivar = none ∨ ∃ p str x, value = some (p, str) ∧ s.ivar = some x ∧ (x, str) ∈ s.made
  /-- nor is one that nobody disturbs at all -/
  alone : ∀ i, t.thread i = .idle → ∀ value fresh, fresh ∉ t.shared.made.map Prod.fst → address value ≠ t.shared.ivar →
    Solo CstringStep t.shared (t.thread i) (setPropertyCstring t.shared value fresh) .idle ∧
      (setPropertyCstring t.shared value fresh).ivar = value.map fun _ => fresh

omit [DecidableEq ι] in
lemma Duplicates.count_made (h : Duplicates t) {x : ℕ} {str : String} (hmem : (x, str) ∈ t.shared.made) :
    (t.shared.made.map Prod.fst).count x = 1 :=
  List.count_eq_one_of_mem h.nodup (List.mem_map_of_mem hmem)

omit [DecidableEq ι] in
lemma Duplicates.exists_made (h : Duplicates t) {x : ℕ} (hpos : 0 < isObject x t.shared.ivar + t.shared.freed.count x) :
    ∃ str, (x, str) ∈ t.shared.made := by
  have hplace := h.place x
  have hmem : x ∈ t.shared.made.map Prod.fst := List.count_pos_iff.1 (by omega)
  obtain ⟨⟨y, str⟩, hmade, rfl⟩ := List.mem_map.1 hmem
  exact ⟨str, hmade⟩

omit [DecidableEq ι] in
lemma Duplicates.safe (h : Duplicates t) : CstringSafe t := by
  have hplace : ∀ x str, (x, str) ∈ t.shared.made →
      isObject x t.shared.ivar + t.shared.freed.count x + t.total (CstringSetter.holds x) = 1 := by
    intro x str hmem
    rw [← h.place x, h.count_made hmem]
  refine ⟨hplace, fun hidle x str hmem => ?_, fun x hfreed => ?_, ?_, ?_, fun i hidle value fresh hfresh hne => ?_⟩
  · have htotal : t.total (CstringSetter.holds x) = 0 := total_eq_zero fun i => by rw [hidle i]; rfl
    have hone := hplace x str hmem
    by_cases hivar : t.shared.ivar = some x
    · rw [hivar, isObject_self] at hone
      exact Or.inl ⟨hivar, List.count_eq_zero.1 (by omega)⟩
    · rw [isObject_ne hivar] at hone
      exact Or.inr ⟨hivar, by omega⟩
  · have hpos := List.count_pos_iff.2 hfreed
    obtain ⟨str, hmem⟩ := h.exists_made (x := x) (by omega)
    have hone := hplace x str hmem
    exact ⟨by omega, str, hmem⟩
  · cases hivar : t.shared.ivar with
    | none => exact Or.inl rfl
    | some x =>
      have hself : isObject x t.shared.ivar = 1 := by rw [hivar, isObject_self]
      obtain ⟨str, hmem⟩ := h.exists_made (x := x) (by omega)
      have hone := hplace x str hmem
      exact Or.inr ⟨x, str, rfl, hmem, List.count_eq_zero.1 (by omega), h.passed x str hmem⟩
  · intro i value duplicate old hthread fresh s l hadvance
    have hknows := h.knows i
    rw [hthread] at hknows hadvance
    obtain ⟨hduplicate, -, hold⟩ := hknows
    simp only [CstringSetter.advance, hold rfl, if_true] at hadvance
    cases hadvance
    rcases hduplicate with ⟨hvalue, hnone⟩ | ⟨p, str, x, hvalue, hsome, hmem⟩
    · exact Or.inl ⟨hvalue, hnone⟩
    · exact Or.inr ⟨p, str, x, hvalue, hsome, hmem⟩
  · rw [hidle]
    exact ⟨solo_setPropertyCstring t.shared value hfresh, setPropertyCstring_ivar fresh hne⟩

/-- **No duplicate leaks, none is freed twice, and no undisturbed set is lost**, in any interleaving. -/
theorem cstring_safe (ι : Type) [DecidableEq ι] [Fintype ι] (t : Threads ι CstringIvar CstringSetter)
    (h : Threads.Reachable (fun _ => CstringStep) (cstringStart ι) t) : CstringSafe t :=
  (h.invariant duplicates_start fun _ _ _ _ hduplicates hstep => hduplicates.step hstep).safe

lemma reachable_race :
    ∃ t : Threads Bool CstringIvar CstringSetter, Threads.Reachable (fun _ => CstringStep) (cstringStart Bool) t ∧
      t.shared.ivar = some 100 ∧ t.shared.freed = [200] := by
  refine ⟨_, ((((((((Threads.Reachable.start.step ⟨false, _, _, .call (some (1, "a")), rfl⟩).step
    ⟨true, _, _, .call (some (2, "b")), rfl⟩).step ⟨false, _, _, .next 0 rfl, rfl⟩).step
    ⟨true, _, _, .next 0 rfl, rfl⟩).step ⟨false, _, _, .next 100 rfl, rfl⟩).step ⟨true, _, _, .next 200 rfl, rfl⟩).step
    ⟨false, _, _, .next 0 rfl, rfl⟩).step ⟨true, _, _, .next 0 rfl, rfl⟩).step ⟨true, _, _, .next 0 rfl, rfl⟩, rfl, rfl⟩

theorem cstring_safe_race :
    ∃ t : Threads Bool CstringIvar CstringSetter, t.shared.ivar = some 100 ∧ t.shared.freed = [200] ∧ CstringSafe t := by
  obtain ⟨t, hreach, hivar, hfreed⟩ := reachable_race
  exact ⟨t, hivar, hfreed, cstring_safe Bool t hreach⟩

end MulleObjcRuntime.Objects
