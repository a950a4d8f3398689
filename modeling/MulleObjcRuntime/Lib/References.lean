import Mathlib.Data.List.Induction
import Mathlib.Data.List.Nodup
import Mathlib.Tactic.Common

/-!
# References resolved in place

Some cells of a memory hold a reference where a value is expected.  A pass goes over them in a given order and copies
into each what its target holds at that time.

* `Cell` — a value, or a reference that has not been resolved;
* `resolveAll` — the pass;
* `Resolves` — the value at the end of a chain of references;
* `InOrder` — every target comes before the reference to it, or is no reference;
* `resolveAll_iff` — the pass leaves every cell with the value of its chain exactly when the order is right.
-/

namespace MulleObjcRuntime.Lib.References

variable {A R V : Type}

/-- What a cell of the memory holds. -/
inductive Cell (R V : Type)
  | value (v : V)
  | reference (r : R)
deriving DecidableEq

/-- The cell holds a value. -/
def Cell.IsValue (cell : Cell R V) : Prop := ∃ v, cell = .value v

instance (cell : Cell R V) : Decidable cell.IsValue :=
  match cell with
  | .value v => .isTrue ⟨v, rfl⟩
  | .reference _ => .isFalse fun ⟨_, h⟩ => by cases h

/-- The value at the end of a chain: `refs` are the cells that are references. -/
inductive Resolves (target : A → Option A) (refs : List A) (memory : A → Cell R V) : A → V → Prop
  | value {a : A} {v : V} (hrefs : a ∉ refs) (hmemory : memory a = .value v) : Resolves target refs memory a v
  | reference {a b : A} {v : V} (hrefs : a ∈ refs) (htarget : target a = some b)
      (hb : Resolves target refs memory b v) : Resolves target refs memory a v

/-- Each reference has its target before it, or no reference but a value. -/
def InOrder (target : A → Option A) (refs : List A) (memory : A → Cell R V) : Prop :=
  ∀ before a after, refs = before ++ a :: after → ∀ b, target a = some b →
    b ∈ before ∨ (b ∉ refs ∧ (memory b).IsValue)

variable [DecidableEq A] (target : A → Option A)

/-- The order is right from some point of the list on, when the references before it are those in `done`. -/
def InOrderFrom (refs : List A) (memory : A → Cell R V) : List A → List A → Prop
  | _, [] => True
  | done, a :: rest =>
    (∀ b ∈ target a, b ∈ done ∨ (b ∉ refs ∧ (memory b).IsValue)) ∧ InOrderFrom refs memory (done ++ [a]) rest

instance decidableInOrderFrom (refs : List A) (memory : A → Cell R V) :
    (done rest : List A) → Decidable (InOrderFrom target refs memory done rest)
  | _, [] => inferInstanceAs (Decidable True)
  | done, a :: rest =>
    have := decidableInOrderFrom refs memory (done ++ [a]) rest
    inferInstanceAs (Decidable ((∀ b ∈ target a, b ∈ done ∨ (b ∉ refs ∧ (memory b).IsValue)) ∧
      InOrderFrom target refs memory (done ++ [a]) rest))

/-- One step of the pass; it fails where there is no target. -/
def resolveOne (memory : A → Cell R V) (a : A) : Option (A → Cell R V) :=
  (target a).map fun b => Function.update memory a (memory b)

/-- The pass over the references. -/
def resolveAll (memory : A → Cell R V) (refs : List A) : Option (A → Cell R V) :=
  refs.foldlM (resolveOne target) memory

variable {target} {memory memory' : A → Cell R V} {refs before after : List A} {a b : A}

omit [DecidableEq A] in
lemma inOrderFrom_iff : InOrderFrom target refs memory before after ↔
    ∀ done a rest, after = done ++ a :: rest → ∀ b, target a = some b →
      b ∈ before ++ done ∨ (b ∉ refs ∧ (memory b).IsValue) := by
  induction after generalizing before with
  | nil => simp [InOrderFrom]
  | cons c after ih =>
    unfold InOrderFrom
    rw [ih]
    constructor
    · rintro ⟨hhead, htail⟩ done a rest hsplit b hb
      rcases done with _ | ⟨d, done⟩
      · obtain ⟨rfl, -⟩ := List.cons.inj hsplit
        rw [List.append_nil]
        exact hhead b hb
      · obtain ⟨rfl, hrest⟩ := List.cons.inj hsplit
        rw [List.append_cons]
        exact htail done a rest hrest b hb
    · intro h
      refine ⟨fun b hb => ?_, fun done a rest hsplit b hb => ?_⟩
      · have := h [] c after rfl b hb
        rwa [List.append_nil] at this
      · rw [← List.append_cons]
        exact h (c :: done) a rest (congrArg (c :: ·) hsplit) b hb

instance : Decidable (InOrder target refs memory) :=
  decidable_of_iff (InOrderFrom target refs memory [] refs) inOrderFrom_iff

@[simp]
lemma resolveAll_nil : resolveAll target memory [] = some memory := rfl

lemma resolveAll_append : resolveAll target memory (before ++ after) =
    (resolveAll target memory before).bind fun m => resolveAll target m after := by
  unfold resolveAll
  rw [List.foldlM_append]
  rfl

lemma resolveAll_cons : resolveAll target memory (a :: after) =
    (target a).bind fun b => resolveAll target (Function.update memory a (memory b)) after := by
  unfold resolveAll resolveOne
  rw [List.foldlM_cons]
  cases target a <;> rfl

lemma resolveAll_cons_eq_some : resolveAll target memory (a :: after) = some memory' ↔
    ∃ b, target a = some b ∧ resolveAll target (Function.update memory a (memory b)) after = some memory' := by
  rw [resolveAll_cons, Option.bind_eq_some_iff]

/-- The pass comes to an end exactly when every reference has a target. -/
theorem resolveAll_isSome : (resolveAll target memory refs).isSome ↔ ∀ a ∈ refs, (target a).isSome := by
  induction refs generalizing memory with
  | nil => simp
  | cons a refs ih =>
    rw [List.forall_mem_cons, Option.isSome_iff_exists, Option.isSome_iff_exists]
    constructor
    · rintro ⟨memory', h⟩
      obtain ⟨b, hb, hrest⟩ := resolveAll_cons_eq_some.1 h
      exact ⟨⟨b, hb⟩, ih.1 (Option.isSome_of_eq_some hrest)⟩
    · rintro ⟨⟨b, hb⟩, hrest⟩
      obtain ⟨memory', h⟩ := Option.isSome_iff_exists.1 (ih.2 hrest)
      exact ⟨memory', resolveAll_cons_eq_some.2 ⟨b, hb, h⟩⟩

lemma resolveAll_of_not_mem (h : resolveAll target memory refs = some memory') (ha : a ∉ refs) :
    memory' a = memory a := by
  induction refs generalizing memory with
  | nil =>
    cases h
    rfl
  | cons c refs ih =>
    obtain ⟨b, -, hrest⟩ := resolveAll_cons_eq_some.1 h
    rw [ih hrest (List.not_mem_of_not_mem_cons ha), Function.update_of_ne (List.ne_of_not_mem_cons ha)]

lemma resolveAll_at (hnodup : (before ++ a :: after).Nodup)
    (h : resolveAll target memory (before ++ a :: after) = some memory') :
    ∃ between b, resolveAll target memory before = some between ∧ target a = some b ∧ memory' a = between b := by
  rw [resolveAll_append, Option.bind_eq_some_iff] at h
  obtain ⟨between, hbefore, h⟩ := h
  obtain ⟨b, hb, hafter⟩ := resolveAll_cons_eq_some.1 h
  have ha : a ∉ after := (List.nodup_cons.1 (List.nodup_append.1 hnodup).2.1).1
  refine ⟨between, b, hbefore, hb, ?_⟩
  rw [resolveAll_of_not_mem hafter ha, Function.update_self]

/-- In the right order every reference passed so far holds the value of its chain. -/
lemma InOrder.resolved (horder : InOrder target refs memory) (hnodup : refs.Nodup) (hrefs : refs = before ++ after)
    (h : resolveAll target memory before = some memory') :
    ∀ a ∈ before, ∃ v, Resolves target refs memory a v ∧ memory' a = .value v := by
  -- by induction on the part that is done; a value that has been written is not written again
  induction before using List.reverseRecOn generalizing after memory' with
  | nil => simp
  | append_singleton before c ih =>
    rw [List.append_assoc, List.singleton_append] at hrefs
    rw [resolveAll_append, Option.bind_eq_some_iff] at h
    obtain ⟨between, hbefore, h⟩ := h
    obtain ⟨b, hb, hlast⟩ := resolveAll_cons_eq_some.1 h
    cases hlast
    have ih := ih hrefs hbefore
    have hc : c ∉ before := fun hmem => (List.nodup_append.1 (hrefs ▸ hnodup)).2.2 c hmem c List.mem_cons_self rfl
    intro a ha
    rcases List.mem_append.1 ha with hdone | ha
    · obtain ⟨v, hv, hvalue⟩ := ih a hdone
      have hne : a ≠ c := by
        rintro rfl
        exact hc hdone
      exact ⟨v, hv, by rw [Function.update_of_ne hne, hvalue]⟩
    · obtain rfl := List.mem_singleton.1 ha
      have hmem : a ∈ refs := by simp [hrefs]
      rw [Function.update_self]
      rcases horder before a after hrefs b hb with hdone | ⟨hnot, v, hvalue⟩
      · obtain ⟨v, hv, hvalue⟩ := ih b hdone
        exact ⟨v, .reference hmem hb hv, hvalue⟩
      · refine ⟨v, .reference hmem hb (.value hnot hvalue), ?_⟩
        rw [resolveAll_of_not_mem hbefore fun hmem => hnot (hrefs ▸ List.mem_append_left _ hmem), hvalue]

/-- **The pass leaves every cell with the value of its chain exactly when the order is right.** -/
theorem resolveAll_iff (hnodup : refs.Nodup) (hunresolved : ∀ a ∈ refs, ∃ r, memory a = .reference r)
    (h : resolveAll target memory refs = some memory') :
    (∀ a ∈ refs, ∃ v, Resolves target refs memory a v ∧ memory' a = .value v) ↔ InOrder target refs memory := by
  constructor
  · intro hall before a after hrefs b hb
    obtain ⟨v, -, hvalue⟩ := hall a (by simp [hrefs])
    obtain ⟨between, b', hbefore, hb', hat⟩ := resolveAll_at (hrefs ▸ hnodup) (hrefs ▸ h)
    rw [hb] at hb'
    cases hb'
    by_cases hdone : b ∈ before
    · exact .inl hdone
    · -- the target has not been written, so it has held the value from the start
      have hmemory : memory b = .value v := by rw [← resolveAll_of_not_mem hbefore hdone, ← hat, hvalue]
      refine .inr ⟨fun hmem => ?_, v, hmemory⟩
      obtain ⟨r, hr⟩ := hunresolved b hmem
      rw [hmemory] at hr
      cases hr
  · exact fun horder => horder.resolved hnodup (List.append_nil refs).symm h

end MulleObjcRuntime.Lib.References
