import Mathlib.Data.Finset.Insert
import MulleObjcRuntime.Lib.Interleaving

/-!
# Giving back memory that threads read without locks

Threads read which block is installed, look into it, and exchange it for a new one.  A block that has been installed is
freed later, when every thread has checked in and so looks at no block; a block that has not is freed at once.  An
address is allocated again as soon as its block is gone.

* `Memory` — what an allocator with both ways to free a block keeps of its blocks;
* `Hands` — what a thread has to do with blocks, and `Act`, what it may do next;
* `Sound` — what holds of all threads throughout, `Sound.act`;
* `Reachable.sound` — whatever follows the rules never looks at a block that is gone.
-/

namespace MulleObjcRuntime.Lib.Reclamation

open Interleaving

variable {ι : Type} [DecidableEq ι]

/-- What an allocator keeps of its blocks: those that are allocated and, of those that are to be freed later, which
threads have checked in since. -/
structure Memory (ι : Type) where
  allocated : ℕ → Bool
  deferred : ℕ → Option (Finset ι)

namespace Memory

/-- A block is there: it has not been freed, and if it is to be freed later, a thread has yet to check in. -/
def Live (m : Memory ι) (b : ℕ) : Prop := m.allocated b = true ∧ ∀ seen ∈ m.deferred b, ∃ i, i ∉ seen

/-- A block is there and nobody has freed it. -/
def Owned (m : Memory ι) (b : ℕ) : Prop := m.allocated b = true ∧ m.deferred b = none

/-- A thread may look at a block: it has not checked in since the block was to be freed. -/
def LiveFor (m : Memory ι) (i : ι) (b : ℕ) : Prop := m.allocated b = true ∧ ∀ seen ∈ m.deferred b, i ∉ seen

def alloc (m : Memory ι) (b : ℕ) : Memory ι :=
  ⟨Function.update m.allocated b true, Function.update m.deferred b none⟩

/-- To free a block at once. -/
def free (m : Memory ι) (b : ℕ) : Memory ι := { m with allocated := Function.update m.allocated b false }

/-- To free a block when all threads have checked in. -/
def abafree (m : Memory ι) (b : ℕ) : Memory ι := { m with deferred := Function.update m.deferred b (some ∅) }

def checkin (m : Memory ι) (i : ι) : Memory ι := { m with deferred := fun b => (m.deferred b).map (insert i) }

variable {m : Memory ι} {b c : ℕ} {i : ι}

omit [DecidableEq ι] in
lemma Owned.liveFor (h : m.Owned b) (i : ι) : m.LiveFor i b := ⟨h.1, by simp [h.2]⟩

omit [DecidableEq ι] in
lemma LiveFor.live (h : m.LiveFor i b) : m.Live b := ⟨h.1, fun seen hseen => ⟨i, h.2 seen hseen⟩⟩

omit [DecidableEq ι] in
lemma Owned.live [Nonempty ι] (h : m.Owned b) : m.Live b := (h.liveFor (Classical.arbitrary ι)).live

omit [DecidableEq ι] in
lemma alloc_owned : (m.alloc b).Owned b := by simp [Owned, alloc]

omit [DecidableEq ι] in
lemma owned_alloc (hne : c ≠ b) : (m.alloc b).Owned c ↔ m.Owned c := by simp [Owned, alloc, hne]

omit [DecidableEq ι] in
lemma liveFor_alloc (hne : c ≠ b) : (m.alloc b).LiveFor i c ↔ m.LiveFor i c := by simp [LiveFor, alloc, hne]

omit [DecidableEq ι] in
lemma owned_free (hne : c ≠ b) : (m.free b).Owned c ↔ m.Owned c := by simp [Owned, free, hne]

omit [DecidableEq ι] in
lemma liveFor_free (hne : c ≠ b) : (m.free b).LiveFor i c ↔ m.LiveFor i c := by simp [LiveFor, free, hne]

omit [DecidableEq ι] in
lemma owned_abafree (hne : c ≠ b) : (m.abafree b).Owned c ↔ m.Owned c := by simp [Owned, abafree, hne]

omit [DecidableEq ι] in
lemma LiveFor.abafree (h : m.LiveFor i c) (b : ℕ) : (m.abafree b).LiveFor i c := by
  refine ⟨h.1, ?_⟩
  by_cases hcb : c = b
  · simp [Memory.abafree, hcb]
  · simpa [Memory.abafree, hcb] using h.2

lemma owned_checkin : (m.checkin i).Owned c ↔ m.Owned c := by simp [Owned, checkin]

lemma LiveFor.checkin {j : ι} (h : m.LiveFor j c) (hne : j ≠ i) : (m.checkin i).LiveFor j c := by
  refine ⟨h.1, ?_⟩
  intro seen hseen
  obtain ⟨before, hbefore, rfl⟩ := Option.map_eq_some_iff.1 hseen
  simpa [hne] using h.2 before hbefore

end Memory

/-- The memory, and the block that is installed. -/
structure Shared (ι : Type) where
  memory : Memory ι
  installed : ℕ

/-- What a thread has to do with blocks: one that it has allocated and not yet installed, one that it has taken out and
not yet freed, and those that it may look at. -/
structure Hands where
  fresh : Option ℕ
  retired : Option ℕ
  known : Set ℕ

section Act

variable (permanent : ℕ → Prop) [DecidablePred permanent]

/-- What becomes of a block that is taken out: permanent ones are not freed. -/
def leave (b : ℕ) : Option ℕ := if permanent b then none else some b

/-- What a thread may do. -/
inductive Act (i : ι) : Shared ι → Hands → Shared ι → Hands → Prop
  | forget {s : Shared ι} {h : Hands} {known : Set ℕ} (hle : known ⊆ h.known) : Act i s h s { h with known }
  | look {s : Shared ι} {h : Hands} : Act i s h s { h with known := insert s.installed h.known }
  | alloc {s : Shared ι} {retired : Option ℕ} {known : Set ℕ} {b : ℕ} (hgone : ¬ s.memory.Live b) :
      Act i s ⟨none, retired, known⟩ { s with memory := s.memory.alloc b } ⟨some b, retired, known⟩
  | install {s : Shared ι} {known : Set ℕ} {b : ℕ} :
      Act i s ⟨some b, none, known⟩ { s with installed := b } ⟨none, leave permanent s.installed, insert b known⟩
  | clear {s : Shared ι} {fresh : Option ℕ} {known : Set ℕ} {b : ℕ} (hb : permanent b) :
      Act i s ⟨fresh, none, known⟩ { s with installed := b } ⟨fresh, leave permanent s.installed, known⟩
  | free {s : Shared ι} {retired : Option ℕ} {known : Set ℕ} {b : ℕ} :
      Act i s ⟨some b, retired, known⟩ { s with memory := s.memory.free b } ⟨none, retired, known⟩
  | abafree {s : Shared ι} {fresh : Option ℕ} {known : Set ℕ} {b : ℕ} :
      Act i s ⟨fresh, some b, known⟩ { s with memory := s.memory.abafree b } ⟨fresh, none, known⟩
  | checkin {s : Shared ι} {fresh retired : Option ℕ} :
      Act i s ⟨fresh, retired, ∅⟩ { s with memory := s.memory.checkin i } ⟨fresh, retired, ∅⟩

/-- Steps that the rules allow a thread. -/
def Allowed (i : ι) : Shared ι → Hands → Shared ι → Hands → Prop := Solo (Act permanent i)

/-- The permanent blocks are there, and one block is installed. -/
def startMemory (b : ℕ) : Memory ι := ⟨fun c => decide (permanent c ∨ c = b), fun _ => none⟩

/-- No thread has to do with any block. -/
def start (b : ℕ) : Threads ι (Shared ι) Hands := ⟨⟨startMemory permanent b, b⟩, fun _ => ⟨none, none, ∅⟩⟩

/-- A thread has allocated a block or taken it out, and has to see to it. -/
def Hands.Holds (h : Hands) (b : ℕ) : Prop := h.fresh = some b ∨ h.retired = some b

/-- **What holds throughout**: a block that is not freed is permanent, installed, or in the hands of one thread, and no
thread may look at a block that is gone or that another has not installed yet. -/
structure Sound (s : Threads ι (Shared ι) Hands) : Prop where
  permanent_owned : ∀ b, permanent b → s.shared.memory.Owned b
  installed_owned : s.shared.memory.Owned s.shared.installed
  held_owned : ∀ i b, (s.thread i).Holds b → s.shared.memory.Owned b ∧ ¬ permanent b ∧ b ≠ s.shared.installed
  held_once : ∀ i j b, (s.thread i).Holds b → (s.thread j).Holds b → i = j
  held_apart : ∀ i b, (s.thread i).fresh = some b → (s.thread i).retired ≠ some b
  known_live : ∀ i, ∀ b ∈ (s.thread i).known, s.shared.memory.LiveFor i b ∧ ∀ j, (s.thread j).fresh ≠ some b
  owned_kept : ∀ b, s.shared.memory.Owned b → permanent b ∨ b = s.shared.installed ∨ ∃ i, (s.thread i).Holds b

end Act

variable {permanent : ℕ → Prop} [DecidablePred permanent] {s : Threads ι (Shared ι) Hands} {i : ι} {b : ℕ}

omit [DecidableEq ι] in
lemma leave_eq_some {old : ℕ} : leave permanent old = some b ↔ old = b ∧ ¬ permanent b := by
  unfold leave
  split
  · rename_i hold
    constructor
    · intro h
      cases h
    · rintro ⟨rfl, hnot⟩
      exact absurd hold hnot
  · rename_i hold
    rw [Option.some_inj]
    constructor
    · rintro rfl
      exact ⟨rfl, hold⟩
    · exact fun h => h.1

lemma allowed_look (s : Shared ι) : Allowed permanent i s ⟨none, none, ∅⟩ s ⟨none, none, {s.installed}⟩ := by
  rw [← insert_empty_eq]
  exact .step Act.look (.refl _ _)

lemma allowed_forget (s : Shared ι) (fresh retired : Option ℕ) {known known' : Set ℕ} (hle : known' ⊆ known) :
    Allowed permanent i s ⟨fresh, retired, known⟩ s ⟨fresh, retired, known'⟩ :=
  .step (Act.forget hle) (.refl _ _)

lemma allowed_install (s : Shared ι) (b : ℕ) :
    Allowed permanent i s ⟨some b, none, ∅⟩ { s with installed := b } ⟨none, leave permanent s.installed, {b}⟩ := by
  rw [← insert_empty_eq]
  exact .step Act.install (.refl _ _)

namespace Sound

omit [DecidablePred permanent] [DecidableEq ι] in
lemma others_free (h : Sound permanent s) (hb : (s.thread i).Holds b) {j : ι} (hj : j ≠ i) :
    ¬ (s.thread j).Holds b := fun hj' => hj (h.held_once j i b hj' hb)

omit [DecidablePred permanent] in
/-- What is to be shown after a step of one thread. -/
lemma moved (h : Sound permanent s) {shared : Shared ι} {l : Hands}
    (hpermanent : ∀ b, permanent b → shared.memory.Owned b) (hinstalled : shared.memory.Owned shared.installed)
    (hself : ∀ b, l.Holds b → shared.memory.Owned b ∧ ¬ permanent b ∧ b ≠ shared.installed ∧
      ∀ j ≠ i, ¬ (s.thread j).Holds b)
    (hothers : ∀ j ≠ i, ∀ b, (s.thread j).Holds b → shared.memory.Owned b ∧ b ≠ shared.installed)
    (hapart : ∀ b, l.fresh = some b → l.retired ≠ some b)
    (hknown : ∀ b ∈ l.known, shared.memory.LiveFor i b ∧ l.fresh ≠ some b ∧ ∀ j ≠ i, (s.thread j).fresh ≠ some b)
    (hothersKnown : ∀ j ≠ i, ∀ b ∈ (s.thread j).known, shared.memory.LiveFor j b ∧ l.fresh ≠ some b)
    (hkept : ∀ b, shared.memory.Owned b → permanent b ∨ b = shared.installed ∨ l.Holds b ∨
      ∃ j ≠ i, (s.thread j).Holds b) : Sound permanent (s.moved i shared l) := by
  refine ⟨hpermanent, hinstalled, ?_, ?_, ?_, ?_, ?_⟩
  · refine (forall_moved fun _ (l : Hands) => ∀ b, l.Holds b →
      shared.memory.Owned b ∧ ¬ permanent b ∧ b ≠ shared.installed).2 ⟨?_, ?_⟩
    · intro b hb
      obtain ⟨howned, hnot, hne, -⟩ := hself b hb
      exact ⟨howned, hnot, hne⟩
    · intro j hj b hb
      obtain ⟨howned, hne⟩ := hothers j hj b hb
      exact ⟨howned, (h.held_owned j b hb).2.1, hne⟩
  · intro j k b hjb hkb
    by_cases hj : j = i <;> by_cases hk : k = i
    · rw [hj, hk]
    · subst hj
      rw [moved_self] at hjb
      rw [moved_ne hk] at hkb
      exact absurd hkb ((hself b hjb).2.2.2 k hk)
    · subst hk
      rw [moved_self] at hkb
      rw [moved_ne hj] at hjb
      exact absurd hjb ((hself b hkb).2.2.2 j hj)
    · rw [moved_ne hj] at hjb
      rw [moved_ne hk] at hkb
      exact h.held_once j k b hjb hkb
  · exact (forall_moved fun _ (l : Hands) => ∀ b, l.fresh = some b → l.retired ≠ some b).2
      ⟨hapart, fun j _ => h.held_apart j⟩
  · have hfresh : ∀ b, (∀ j, ((s.moved i shared l).thread j).fresh ≠ some b) ↔
        l.fresh ≠ some b ∧ ∀ j ≠ i, (s.thread j).fresh ≠ some b := fun b =>
      forall_moved fun _ (l : Hands) => l.fresh ≠ some b
    intro j b hb
    rw [moved_shared, hfresh]
    by_cases hj : j = i
    · subst hj
      rw [moved_self] at hb
      exact hknown b hb
    · rw [moved_ne hj] at hb
      obtain ⟨hlive, hne⟩ := hothersKnown j hj b hb
      exact ⟨hlive, hne, fun k _ => (h.known_live j b hb).2 k⟩
  · intro b hb
    rcases hkept b hb with hb | hb | hb | ⟨j, hj, hb⟩
    · exact Or.inl hb
    · exact Or.inr (Or.inl hb)
    · exact Or.inr (Or.inr ⟨i, by rwa [moved_self]⟩)
    · exact Or.inr (Or.inr ⟨j, by rwa [moved_ne hj]⟩)

omit [DecidablePred permanent] [DecidableEq ι] in
lemma kept (h : Sound permanent s) (i : ι) (hb : s.shared.memory.Owned b) :
    permanent b ∨ b = s.shared.installed ∨ (s.thread i).Holds b ∨ ∃ j ≠ i, (s.thread j).Holds b := by
  rcases h.owned_kept b hb with hb | hb | ⟨j, hb⟩
  · exact Or.inl hb
  · exact Or.inr (Or.inl hb)
  · by_cases hj : j = i
    · subst hj
      exact Or.inr (Or.inr (Or.inl hb))
    · exact Or.inr (Or.inr (Or.inr ⟨j, hj, hb⟩))

omit [DecidablePred permanent] in
/-- A step that leaves the memory, the block that is installed and what the thread holds as they are. -/
lemma looks (h : Sound permanent s) {known : Set ℕ}
    (hknown : ∀ b ∈ known, b ∈ (s.thread i).known ∨ b = s.shared.installed) :
    Sound permanent (s.moved i s.shared { s.thread i with known }) := by
  refine h.moved h.permanent_owned h.installed_owned ?_ ?_ (h.held_apart i) ?_ ?_ (fun b hb => h.kept i hb)
  · intro b hb
    obtain ⟨howned, hnot, hne⟩ := h.held_owned i b hb
    exact ⟨howned, hnot, hne, fun j hj => h.others_free hb hj⟩
  · intro j _ b hb
    obtain ⟨howned, -, hne⟩ := h.held_owned j b hb
    exact ⟨howned, hne⟩
  · intro b hb
    rcases hknown b hb with hb | rfl
    · obtain ⟨hlive, hfresh⟩ := h.known_live i b hb
      exact ⟨hlive, hfresh i, fun j _ => hfresh j⟩
    · have hfresh : ∀ j, (s.thread j).fresh ≠ some s.shared.installed := fun j hj =>
        (h.held_owned j _ (Or.inl hj)).2.2 rfl
      exact ⟨h.installed_owned.liveFor i, hfresh i, fun j _ => hfresh j⟩
  · intro j _ b hb
    obtain ⟨hlive, hfresh⟩ := h.known_live j b hb
    exact ⟨hlive, hfresh i⟩

omit [DecidablePred permanent] in
lemma alloc (h : Sound permanent s) {retired : Option ℕ} {known : Set ℕ}
    (hi : s.thread i = ⟨none, retired, known⟩) (hgone : ¬ s.shared.memory.Live b) :
    Sound permanent (s.moved i { s.shared with memory := s.shared.memory.alloc b } ⟨some b, retired, known⟩) := by
  -- whatever is not freed, or may be looked at, is another block
  have : Nonempty ι := ⟨i⟩
  have howned : ∀ c, s.shared.memory.Owned c → c ≠ b := fun c hc hcb => hgone (hcb ▸ hc.live)
  have hb : ¬ permanent b := fun hb => howned b (h.permanent_owned b hb) rfl
  have hheld : ∀ j c, (s.thread j).Holds c → c ≠ b := fun j c hc => howned c (h.held_owned j c hc).1
  have hretired : ∀ c, retired = some c → (s.thread i).Holds c := fun c hc => Or.inr (by rw [hi, hc])
  refine h.moved ?_ ?_ ?_ ?_ ?_ ?_ ?_ ?_
  · intro c hc
    have := h.permanent_owned c hc
    exact (Memory.owned_alloc (howned c this)).2 this
  · exact (Memory.owned_alloc (howned _ h.installed_owned)).2 h.installed_owned
  · rintro c (hc | hc)
    · cases hc
      exact ⟨Memory.alloc_owned, hb, Ne.symm (howned _ h.installed_owned), fun j _ hj => hheld j b hj rfl⟩
    · obtain ⟨hown, hnot, hne⟩ := h.held_owned i c (hretired c hc)
      exact ⟨(Memory.owned_alloc (howned c hown)).2 hown, hnot, hne, fun j hj => h.others_free (hretired c hc) hj⟩
  · intro j _ c hc
    obtain ⟨hown, -, hne⟩ := h.held_owned j c hc
    exact ⟨(Memory.owned_alloc (howned c hown)).2 hown, hne⟩
  · rintro c hc hc'
    cases hc
    exact hheld i b (hretired b hc') rfl
  · intro c hc
    obtain ⟨hlive, hfresh⟩ := h.known_live i c (by rw [hi]; exact hc)
    have hne : c ≠ b := fun hcb => hgone (hcb ▸ hlive.live)
    exact ⟨(Memory.liveFor_alloc hne).2 hlive, fun hcb => hne (Option.some_inj.1 hcb).symm, fun j _ => hfresh j⟩
  · intro j _ c hc
    obtain ⟨hlive, -⟩ := h.known_live j c hc
    have hne : c ≠ b := fun hcb => hgone (hcb ▸ hlive.live)
    exact ⟨(Memory.liveFor_alloc hne).2 hlive, fun hcb => hne (Option.some_inj.1 hcb).symm⟩
  · intro c hc
    by_cases hcb : c = b
    · exact Or.inr (Or.inr (Or.inl (Or.inl (by rw [hcb]))))
    · rcases h.kept i ((Memory.owned_alloc hcb).1 hc) with hc | hc | hc | hc
      · exact Or.inl hc
      · exact Or.inr (Or.inl hc)
      · rw [hi] at hc
        rcases hc with hc | hc
        · cases hc
        · exact Or.inr (Or.inr (Or.inl (Or.inr hc)))
      · exact Or.inr (Or.inr (Or.inr hc))

/-- Another block is installed: one that the thread had allocated, or a permanent one. -/
lemma exchange (h : Sound permanent s) {fresh : Option ℕ} {known : Set ℕ} (hretired : (s.thread i).retired = none)
    (hb : (s.thread i).fresh = some b ∧ fresh = none ∨ permanent b ∧ fresh = (s.thread i).fresh)
    (hknown : ∀ c ∈ known, c ∈ (s.thread i).known ∨ c = b) :
    Sound permanent (s.moved i { s.shared with installed := b } ⟨fresh, leave permanent s.shared.installed, known⟩) := by
  have hfresh : ∀ c, fresh = some c → (s.thread i).Holds c := by
    rintro c rfl
    rcases hb with ⟨-, hb⟩ | ⟨-, hb⟩
    · cases hb
    · exact Or.inl hb.symm
  have hbowned : s.shared.memory.Owned b := by
    rcases hb with ⟨hb, -⟩ | ⟨hb, -⟩
    · exact (h.held_owned i b (Or.inl hb)).1
    · exact h.permanent_owned b hb
  have hnotfresh : fresh ≠ some b := by
    intro hc
    rcases hb with ⟨-, hb⟩ | ⟨hb, -⟩
    · rw [hb] at hc
      cases hc
    · exact (h.held_owned i b (hfresh b hc)).2.1 hb
  have hothers : ∀ j ≠ i, ¬ (s.thread j).Holds b := by
    intro j hj hc
    rcases hb with ⟨hb, -⟩ | ⟨hb, -⟩
    · exact h.others_free (Or.inl hb) hj hc
    · exact (h.held_owned j b hc).2.1 hb
  refine h.moved h.permanent_owned hbowned ?_ ?_ ?_ ?_ ?_ ?_
  · rintro c (hc | hc)
    · obtain ⟨hown, hnot, -⟩ := h.held_owned i c (hfresh c hc)
      refine ⟨hown, hnot, ?_, fun j hj => h.others_free (hfresh c hc) hj⟩
      rintro rfl
      exact hnotfresh hc
    · obtain ⟨rfl, hnot⟩ := leave_eq_some.1 hc
      refine ⟨h.installed_owned, hnot, ?_, fun j _ hj => (h.held_owned j _ hj).2.2 rfl⟩
      rintro rfl
      rcases hb with ⟨hb, -⟩ | ⟨hb, -⟩
      · exact (h.held_owned i _ (Or.inl hb)).2.2 rfl
      · exact hnot hb
  · intro j hj c hc
    refine ⟨(h.held_owned j c hc).1, ?_⟩
    rintro rfl
    exact hothers j hj hc
  · intro c hc hc'
    obtain ⟨rfl, -⟩ := leave_eq_some.1 hc'
    exact (h.held_owned i _ (hfresh _ hc)).2.2 rfl
  · intro c hc
    rcases hknown c hc with hc | rfl
    · obtain ⟨hlive, hnot⟩ := h.known_live i c hc
      refine ⟨hlive, ?_, fun j _ => hnot j⟩
      rintro rfl
      rcases hb with ⟨-, hb⟩ | ⟨-, hb⟩
      · cases hb
      · exact hnot i hb.symm
    · exact ⟨hbowned.liveFor i, hnotfresh, fun j hj hc => hothers j hj (Or.inl hc)⟩
  · intro j _ c hc
    obtain ⟨hlive, hnot⟩ := h.known_live j c hc
    refine ⟨hlive, ?_⟩
    rintro rfl
    rcases hb with ⟨-, hb⟩ | ⟨-, hb⟩
    · cases hb
    · exact hnot i hb.symm
  · -- what was installed is in the hands of the thread now
    intro c hc
    rcases h.kept i hc with hc | rfl | hc | hc
    · exact Or.inl hc
    · by_cases hperm : permanent s.shared.installed
      · exact Or.inl hperm
      · exact Or.inr (Or.inr (Or.inl (Or.inr (leave_eq_some.2 ⟨rfl, hperm⟩))))
    · rcases hc with hc | hc
      · rcases hb with ⟨hb, -⟩ | ⟨-, hb⟩
        · rw [hc] at hb
          cases hb
          exact Or.inr (Or.inl rfl)
        · exact Or.inr (Or.inr (Or.inl (Or.inl (by rw [hb, hc]))))
      · rw [hretired] at hc
        cases hc
    · exact Or.inr (Or.inr (Or.inr hc))

omit [DecidablePred permanent] in
lemma free (h : Sound permanent s) {retired : Option ℕ} {known : Set ℕ}
    (hi : s.thread i = ⟨some b, retired, known⟩) :
    Sound permanent (s.moved i { s.shared with memory := s.shared.memory.free b } ⟨none, retired, known⟩) := by
  have hb : (s.thread i).Holds b := Or.inl (by rw [hi])
  obtain ⟨-, hnot, hinstalled⟩ := h.held_owned i b hb
  have hretired : ∀ c, retired = some c → c ≠ b ∧ (s.thread i).Holds c := by
    rintro c rfl
    have hapart := h.held_apart i b (by rw [hi])
    rw [hi] at hapart
    exact ⟨fun hcb => hapart (by rw [hcb]), Or.inr (by rw [hi])⟩
  refine h.moved ?_ ((Memory.owned_free hinstalled.symm).2 h.installed_owned) ?_ ?_ (fun c hc => by cases hc) ?_ ?_ ?_
  · intro c hc
    have hne : c ≠ b := fun hcb => hnot (hcb ▸ hc)
    exact (Memory.owned_free hne).2 (h.permanent_owned c hc)
  · rintro c (hc | hc)
    · cases hc
    · obtain ⟨hne, hc⟩ := hretired c hc
      obtain ⟨hown, hnot, hinstalled⟩ := h.held_owned i c hc
      exact ⟨(Memory.owned_free hne).2 hown, hnot, hinstalled, fun j hj => h.others_free hc hj⟩
  · intro j hj c hc
    obtain ⟨hown, -, hinstalled⟩ := h.held_owned j c hc
    have hne : c ≠ b := fun hcb => h.others_free hb hj (hcb ▸ hc)
    exact ⟨(Memory.owned_free hne).2 hown, hinstalled⟩
  · intro c hc
    obtain ⟨hlive, hfresh⟩ := h.known_live i c (by rw [hi]; exact hc)
    have hne : c ≠ b := fun hcb => hfresh i (by rw [hi, hcb])
    exact ⟨(Memory.liveFor_free hne).2 hlive, by simp, fun j _ => hfresh j⟩
  · intro j _ c hc
    obtain ⟨hlive, hfresh⟩ := h.known_live j c hc
    have hne : c ≠ b := fun hcb => hfresh i (by rw [hi, hcb])
    exact ⟨(Memory.liveFor_free hne).2 hlive, by simp⟩
  · intro c hc
    have hne : c ≠ b := by
      rintro rfl
      simp [Memory.Owned, Memory.free] at hc
    rcases h.kept i ((Memory.owned_free hne).1 hc) with hc | hc | hc | hc
    · exact Or.inl hc
    · exact Or.inr (Or.inl hc)
    · rw [hi] at hc
      rcases hc with hc | hc
      · exact absurd (Option.some_inj.1 hc).symm hne
      · exact Or.inr (Or.inr (Or.inl (Or.inr hc)))
    · exact Or.inr (Or.inr (Or.inr hc))

omit [DecidablePred permanent] in
lemma abafree (h : Sound permanent s) {fresh : Option ℕ} {known : Set ℕ}
    (hi : s.thread i = ⟨fresh, some b, known⟩) :
    Sound permanent (s.moved i { s.shared with memory := s.shared.memory.abafree b } ⟨fresh, none, known⟩) := by
  have hb : (s.thread i).Holds b := Or.inr (by rw [hi])
  obtain ⟨-, hnot, hinstalled⟩ := h.held_owned i b hb
  have hfresh : ∀ c, fresh = some c → c ≠ b ∧ (s.thread i).Holds c := by
    rintro c rfl
    have hapart := h.held_apart i c (by rw [hi])
    rw [hi] at hapart
    exact ⟨fun hcb => hapart (by rw [hcb]), Or.inl (by rw [hi])⟩
  refine h.moved ?_ ((Memory.owned_abafree hinstalled.symm).2 h.installed_owned) ?_ ?_ (fun c _ hc => by cases hc) ?_ ?_ ?_
  · intro c hc
    have hne : c ≠ b := fun hcb => hnot (hcb ▸ hc)
    exact (Memory.owned_abafree hne).2 (h.permanent_owned c hc)
  · rintro c (hc | hc)
    · obtain ⟨hne, hc⟩ := hfresh c hc
      obtain ⟨hown, hnot, hinstalled⟩ := h.held_owned i c hc
      exact ⟨(Memory.owned_abafree hne).2 hown, hnot, hinstalled, fun j hj => h.others_free hc hj⟩
    · cases hc
  · intro j hj c hc
    obtain ⟨hown, -, hinstalled⟩ := h.held_owned j c hc
    have hne : c ≠ b := fun hcb => h.others_free hb hj (hcb ▸ hc)
    exact ⟨(Memory.owned_abafree hne).2 hown, hinstalled⟩
  · intro c hc
    obtain ⟨hlive, hnot⟩ := h.known_live i c (by rw [hi]; exact hc)
    refine ⟨hlive.abafree b, ?_, fun j _ => hnot j⟩
    have := hnot i
    rwa [hi] at this
  · intro j _ c hc
    obtain ⟨hlive, hnot⟩ := h.known_live j c hc
    refine ⟨hlive.abafree b, ?_⟩
    have := hnot i
    rwa [hi] at this
  · intro c hc
    have hne : c ≠ b := by
      rintro rfl
      simp [Memory.Owned, Memory.abafree] at hc
    rcases h.kept i ((Memory.owned_abafree hne).1 hc) with hc | hc | hc | hc
    · exact Or.inl hc
    · exact Or.inr (Or.inl hc)
    · rw [hi] at hc
      rcases hc with hc | hc
      · exact Or.inr (Or.inr (Or.inl (Or.inl hc)))
      · exact absurd (Option.some_inj.1 hc).symm hne
    · exact Or.inr (Or.inr (Or.inr hc))

omit [DecidablePred permanent] in
/-- A thread that may look at no block checks in. -/
lemma checkin (h : Sound permanent s) {fresh retired : Option ℕ} (hi : s.thread i = ⟨fresh, retired, ∅⟩) :
    Sound permanent (s.moved i { s.shared with memory := s.shared.memory.checkin i } ⟨fresh, retired, ∅⟩) := by
  refine h.moved (fun c hc => Memory.owned_checkin.2 (h.permanent_owned c hc))
    (Memory.owned_checkin.2 h.installed_owned) ?_ ?_ ?_ (fun c hc => by cases hc) ?_ ?_
  · intro c hc
    rw [← hi] at hc
    obtain ⟨hown, hnot, hinstalled⟩ := h.held_owned i c hc
    exact ⟨Memory.owned_checkin.2 hown, hnot, hinstalled, fun j hj => h.others_free hc hj⟩
  · intro j _ c hc
    obtain ⟨hown, -, hinstalled⟩ := h.held_owned j c hc
    exact ⟨Memory.owned_checkin.2 hown, hinstalled⟩
  · rw [← hi]
    exact h.held_apart i
  · intro j hj c hc
    obtain ⟨hlive, hnot⟩ := h.known_live j c hc
    have := hnot i
    rw [hi] at this
    exact ⟨hlive.checkin hj, this⟩
  · intro c hc
    rw [← hi]
    exact h.kept i (Memory.owned_checkin.1 hc)

/-- **Every step keeps it.** -/
theorem act (h : Sound permanent s) {shared : Shared ι} {l : Hands}
    (hact : Act permanent i s.shared (s.thread i) shared l) : Sound permanent (s.moved i shared l) := by
  generalize hi : s.thread i = before at hact
  cases hact with
  | forget hle =>
    rw [← hi]
    exact h.looks fun b hb => Or.inl (hi ▸ hle hb)
  | look =>
    rw [← hi]
    exact h.looks fun b hb => (Set.mem_insert_iff.1 hb).symm
  | alloc hgone => exact h.alloc hi hgone
  | install =>
    exact h.exchange (by rw [hi]) (Or.inl ⟨by rw [hi], rfl⟩) fun c hc => by
      rw [hi]
      exact (Set.mem_insert_iff.1 hc).symm
  | clear hb => exact h.exchange (by rw [hi]) (Or.inr ⟨hb, by rw [hi]⟩) fun c hc => Or.inl (by rw [hi]; exact hc)
  | free => exact h.free hi
  | abafree => exact h.abafree hi
  | checkin => exact h.checkin hi

end Sound

/-! ## What follows -/

namespace Sound

omit [DecidablePred permanent] [DecidableEq ι] in
lemma live (h : Sound permanent s) (hb : b ∈ (s.thread i).known ∨ (s.thread i).Holds b) : s.shared.memory.Live b := by
  rcases hb with hb | hb
  · exact (h.known_live i b hb).1.live
  · exact ((h.held_owned i b hb).1.liveFor i).live

omit [DecidablePred permanent] [DecidableEq ι] in
lemma once (h : Sound permanent s) (hb : (s.thread i).Holds b) :
    s.shared.memory.Owned b ∧ b ≠ s.shared.installed ∧ ∀ j ≠ i, ¬ (s.thread j).Holds b := by
  obtain ⟨howned, -, hinstalled⟩ := h.held_owned i b hb
  exact ⟨howned, hinstalled, fun j hj => h.others_free hb hj⟩

omit [DecidablePred permanent] [DecidableEq ι] in
lemma apart (h : Sound permanent s) (hb : (s.thread i).fresh = some b) {j : ι} (hj : j ≠ i) :
    ¬ (b ∈ (s.thread j).known ∨ (s.thread j).Holds b) := by
  rintro (hb' | hb')
  · exact (h.known_live j b hb').2 i hb
  · exact h.others_free (Or.inl hb) hj hb'

omit [DecidablePred permanent] [DecidableEq ι] in
lemma kept_idle (h : Sound permanent s) (hidle : ∀ i b, ¬ (s.thread i).Holds b) (hb : s.shared.memory.Owned b) :
    permanent b ∨ b = s.shared.installed := by
  rcases h.owned_kept b hb with hb | hb | ⟨i, hb⟩
  · exact Or.inl hb
  · exact Or.inr hb
  · exact absurd hb (hidle i b)

end Sound

/-! ## Programs -/

omit [DecidableEq ι] in
lemma sound_start (b : ℕ) : Sound permanent (start permanent b : Threads ι (Shared ι) Hands) := by
  have howned : ∀ c, (startMemory permanent b : Memory ι).Owned c ↔ permanent c ∨ c = b := fun c => by
    simp [Memory.Owned, startMemory]
  refine ⟨fun c hc => (howned c).2 (Or.inl hc), (howned b).2 (Or.inr rfl), ?_, ?_, ?_, ?_, ?_⟩
  · rintro i c (hc | hc) <;> cases hc
  · rintro i j c (hc | hc) <;> cases hc
  · intro i c hc
    cases hc
  · intro i c hc
    cases hc
  · intro c hc
    rcases (howned c).1 hc with hc | hc
    · exact Or.inl hc
    · exact Or.inr (Or.inl hc)

/-- **Whoever follows the rules never looks at a block that is gone, and loses none.**  A program follows them when all
that a thread does, in the view of this module, is what a thread may do. -/
theorem Reachable.sound {S L : Type} {act : ι → S → L → S → L → Prop} {begin t : Threads ι S L}
    (h : Threads.Reachable act begin t) (shared : S → Shared ι) (hands : L → Hands)
    (hstart : ∃ b, (⟨shared begin.shared, fun i => hands (begin.thread i)⟩ : Threads ι (Shared ι) Hands) =
      start permanent b)
    (hact : ∀ i mem l mem' l', act i mem l mem' l' →
      Allowed permanent i (shared mem) (hands l) (shared mem') (hands l')) :
    Sound permanent ⟨shared t.shared, fun i => hands (t.thread i)⟩ := by
  obtain ⟨b, hb⟩ := hstart
  have hreach : Threads.Reachable (Act permanent) (start permanent b)
      (⟨shared t.shared, fun i => hands (t.thread i)⟩ : Threads ι (Shared ι) Hands) := by
    induction h with
    | start =>
      rw [hb]
      exact .start
    | step _ hstep ih =>
      obtain ⟨i, mem, l, hmove, rfl⟩ := hstep
      have hsolo := ih.solo (hact i _ _ _ _ hmove)
      convert hsolo using 1
      refine Threads.ext rfl (funext fun j => ?_)
      by_cases hj : j = i
      · subst hj
        rw [moved_self]
        simp only [moved_self]
      · rw [moved_ne hj]
        simp only [moved_ne hj]
  exact hreach.invariant (sound_start b) fun s i mem l hs hmove => hs.act hmove

end MulleObjcRuntime.Lib.Reclamation
