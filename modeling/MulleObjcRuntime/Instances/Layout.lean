import Mathlib.Algebra.Order.Ring.Nat
import Mathlib.Tactic.Common

/-!
# Where the parts of an instance are

* `Target`, `Class` — the sizes the compiler settles and those a class is created with;
* `allocInstanceExtra`, `objectGetExtra` — an instance with extra bytes, and where the extra bytes are looked for;
* `regions`, `LaidOut` — the header extra, the header, the instance variables and the extra bytes, one behind the other
  in the allocated block;
* `laidOut_iff` — when an instance is laid out like this, and when a sum that wraps is noticed.
-/

namespace MulleObjcRuntime.Instances

/-! ## Sizes -/

/-- The size of a pointer in bytes, and whether an object header has the fields of `MULLE_OBJC_TAO_OBJECT_HEADER`. -/
structure Target where
  pointerSize : ℕ
  pointerSize_pos : 0 < pointerSize
  taoObjectHeader : Bool

/-- The number of values of a `size_t`. -/
def Target.sizes (t : Target) : ℕ := 2 ^ (8 * t.pointerSize)

/-- `sizeof( struct _mulle_objc_objectheader)` -/
def Target.sizeofObjectheader (t : Target) : ℕ := t.pointerSize * if t.taoObjectHeader then 4 else 2

/-- The sizes in a `_mulle_objc_class`. -/
structure Class where
  allocationsize : ℕ
  headerextrasize : ℕ
deriving DecidableEq, Repr

/-- The sizes that `_mulle_objc_class_init` sets.  The header extra size is a `uint16_t`. -/
def classInit (t : Target) (instancesize headerextrasize : ℕ) : Class :=
  ⟨(t.sizeofObjectheader + instancesize + headerextrasize) % t.sizes, headerextrasize % 2 ^ 16⟩

/-! ## Addresses -/

section Addresses

variable (t : Target)

/-- `_mulle_objc_alloc_get_objectheader` -/
def allocGetObjectheader (alloc headerextrasize : ℕ) : ℕ := alloc + headerextrasize

/-- `_mulle_objc_objectheader_get_alloc` -/
def objectheaderGetAlloc (header headerextrasize : ℕ) : ℕ := header - headerextrasize

/-- `_mulle_objc_objectheader_get_object` -/
def objectheaderGetObject (header : ℕ) : ℕ := header + t.sizeofObjectheader

/-- `_mulle_objc_object_get_objectheader` -/
def objectGetObjectheader (obj : ℕ) : ℕ := obj - t.sizeofObjectheader

/-- `_mulle_objc_object_get_extra` -/
def objectGetExtra (cls : Class) (obj : ℕ) : ℕ :=
  obj + (cls.allocationsize + t.sizes - t.sizeofObjectheader) % t.sizes

/-- A block and the object in it. -/
structure Instance where
  alloc : ℕ
  size : ℕ
  obj : ℕ
deriving DecidableEq, Repr

/-- The size that `_mulle_objc_infraclass_allocator_alloc_instance_extra` allocates, `none` where the allocator is made
to fail. -/
def instanceSize (cls : Class) (extra : ℕ) : Option ℕ :=
  let size := (cls.allocationsize + extra) % t.sizes
  if size ≤ extra then none else some size

/-- `_mulle_objc_infraclass_allocator_alloc_instance_extra`, with the address of the block. -/
def allocInstanceExtra (cls : Class) (extra alloc : ℕ) : Option Instance :=
  (instanceSize t cls extra).map fun size =>
    ⟨alloc, size, objectheaderGetObject t (allocGetObjectheader alloc cls.headerextrasize)⟩

/-- What `_mulle_objc_infraclass_allocator_free_instance` takes for the block of an object. -/
def freedAlloc (cls : Class) (obj : ℕ) : ℕ := objectheaderGetAlloc (objectGetObjectheader t obj) cls.headerextrasize

/-! ## The layout -/

/-- Bytes in a row. -/
structure Region where
  start : ℕ
  length : ℕ
deriving DecidableEq, Repr

/-- The address of a byte of the region. -/
def Region.Has (r : Region) (x : ℕ) : Prop := r.start ≤ x ∧ x < r.start + r.length

/-- The header extra, the header, the instance variables and the extra bytes of an instance. -/
def regions (cls : Class) (i : Instance) (instancesize headerextrasize extra : ℕ) : List Region :=
  [⟨i.alloc, headerextrasize⟩, ⟨objectGetObjectheader t i.obj, t.sizeofObjectheader⟩, ⟨i.obj, instancesize⟩,
    ⟨objectGetExtra t cls i.obj, extra⟩]

/-- The regions are one behind the other and inside the block. -/
def Fits (i : Instance) (rs : List Region) : Prop :=
  (rs.Pairwise fun r r' => ∀ x y, r.Has x → r'.Has y → x < y) ∧
    ∀ r ∈ rs, ∀ x, r.Has x → (⟨i.alloc, i.size⟩ : Region).Has x

/-- Where the sizes of an instance have a sum that is a `size_t`, it is allocated and laid out, and where the sum wraps,
the allocation fails. -/
def LaidOut (instancesize headerextrasize extra alloc : ℕ) : Prop :=
  let cls := classInit t instancesize headerextrasize
  if t.sizeofObjectheader + instancesize + headerextrasize + extra < t.sizes then
    ∃ i, allocInstanceExtra t cls extra alloc = some i ∧ Fits i (regions t cls i instancesize headerextrasize extra)
  else allocInstanceExtra t cls extra alloc = none

/-- There is no header extra, or there is one whose size is a `uint16_t`, and no extra bytes.  Of a sum that wraps, the
part that is known to the class does not, or what is left of it is nothing or wraps once more. -/
def Placeable (instancesize headerextrasize extra : ℕ) : Prop :=
  let size := t.sizeofObjectheader + instancesize + headerextrasize
  if size + extra < t.sizes then headerextrasize = 0 ∨ headerextrasize < 2 ^ 16 ∧ extra = 0
  else size < t.sizes ∨ size % t.sizes = 0 ∨ t.sizes ≤ size % t.sizes + extra

variable {t}

lemma sizes_pos : 0 < t.sizes := Nat.two_pow_pos _

lemma sizeofObjectheader_pos : 0 < t.sizeofObjectheader := by
  unfold Target.sizeofObjectheader
  have := t.pointerSize_pos
  split <;> omega

/-- The block of an object is found again. -/
theorem freedAlloc_eq {cls : Class} {extra alloc : ℕ} {i : Instance} (h : allocInstanceExtra t cls extra alloc = some i) :
    freedAlloc t cls i.obj = alloc := by
  obtain ⟨size, -, rfl⟩ := Option.map_eq_some_iff.1 h
  show alloc + cls.headerextrasize + t.sizeofObjectheader - t.sizeofObjectheader - cls.headerextrasize = alloc
  omega

lemma instanceSize_of_lt {cls : Class} {extra : ℕ} (hpos : 0 < cls.allocationsize)
    (h : cls.allocationsize + extra < t.sizes) : instanceSize t cls extra = some (cls.allocationsize + extra) := by
  unfold instanceSize
  simp only [Nat.mod_eq_of_lt h]
  rw [if_neg (by omega)]

lemma instanceSize_eq_none_iff {cls : Class} {extra : ℕ} (hcls : cls.allocationsize < t.sizes) :
    instanceSize t cls extra = none ↔ cls.allocationsize = 0 ∨ t.sizes ≤ cls.allocationsize + extra := by
  unfold instanceSize
  simp only [ite_eq_left_iff, reduceCtorEq, imp_false, not_not]
  by_cases h : cls.allocationsize + extra < t.sizes
  · rw [Nat.mod_eq_of_lt h]
    omega
  · have hwrap : (cls.allocationsize + extra) % t.sizes ≤ extra := by
      rw [Nat.mod_eq_sub_mod (by omega)]
      have := Nat.mod_le (cls.allocationsize + extra - t.sizes) t.sizes
      omega
    exact iff_of_true hwrap (Or.inr (by omega))

/-- The regions of an instance whose sizes have a sum that is a `size_t`.  The extra bytes are looked for behind as many
bytes as the header extra has. -/
lemma regions_eq {instancesize headerextrasize : ℕ}
    (h : t.sizeofObjectheader + instancesize + headerextrasize < t.sizes) (alloc size extra : ℕ) :
    let obj := alloc + headerextrasize % 2 ^ 16 + t.sizeofObjectheader
    regions t ⟨t.sizeofObjectheader + instancesize + headerextrasize, headerextrasize % 2 ^ 16⟩ ⟨alloc, size, obj⟩
        instancesize headerextrasize extra =
      [⟨alloc, headerextrasize⟩, ⟨alloc + headerextrasize % 2 ^ 16, t.sizeofObjectheader⟩, ⟨obj, instancesize⟩,
        ⟨obj + (instancesize + headerextrasize), extra⟩] := by
  have hrest : (t.sizeofObjectheader + instancesize + headerextrasize + t.sizes - t.sizeofObjectheader) % t.sizes =
      instancesize + headerextrasize := by
    rw [show t.sizeofObjectheader + instancesize + headerextrasize + t.sizes - t.sizeofObjectheader =
      instancesize + headerextrasize + t.sizes by omega, Nat.add_mod_right]
    exact Nat.mod_eq_of_lt (by omega)
  simp only [regions, objectGetObjectheader, objectGetExtra, hrest, Nat.add_sub_cancel]

/-- **Four regions, of which the second and the last one are placed by different sizes of the first one.** -/
lemma fits_iff {alloc obj H inst ahead extra : ℕ} (hH : 0 < H) :
    Fits ⟨alloc, H + inst + ahead + extra, obj⟩ [⟨alloc, ahead⟩, ⟨alloc + ahead % 2 ^ 16, H⟩,
      ⟨alloc + ahead % 2 ^ 16 + H, inst⟩, ⟨alloc + ahead % 2 ^ 16 + H + (inst + ahead), extra⟩] ↔
      ahead = 0 ∨ ahead < 2 ^ 16 ∧ extra = 0 := by
  have hmod : ahead % 2 ^ 16 ≤ ahead := Nat.mod_le _ _
  unfold Fits Region.Has
  simp only [List.pairwise_cons, List.forall_mem_cons, List.not_mem_nil, List.Pairwise.nil, false_implies, and_true,
    implies_true]
  constructor
  · rintro ⟨⟨⟨hheader, -, -⟩, -, -⟩, -, -, -, hextra⟩
    have hshort : ahead < 2 ^ 16 := by
      by_contra hlong
      -- the header begins inside the header extra
      have := hheader (alloc + ahead % 2 ^ 16) (alloc + ahead % 2 ^ 16)
      omega
    by_contra hne
    -- the last extra byte is behind the block
    have := hextra (alloc + ahead % 2 ^ 16 + H + (inst + ahead) + (extra - 1))
    omega
  · rintro (rfl | ⟨hshort, rfl⟩)
    · refine ⟨⟨⟨?_, ?_, ?_⟩, ⟨?_, ?_⟩, ?_⟩, ?_, ?_, ?_, ?_⟩ <;> intros <;> omega
    · rw [Nat.mod_eq_of_lt hshort]
      refine ⟨⟨⟨?_, ?_, ?_⟩, ⟨?_, ?_⟩, ?_⟩, ?_, ?_, ?_, ?_⟩ <;> intros <;> omega

/-- **When an instance is laid out, and when a sum that wraps is noticed.** -/
theorem laidOut_iff (t : Target) (instancesize headerextrasize extra alloc : ℕ) :
    LaidOut t instancesize headerextrasize extra alloc ↔ Placeable t instancesize headerextrasize extra := by
  have hS : 0 < t.sizes := sizes_pos
  have hH : 0 < t.sizeofObjectheader := sizeofObjectheader_pos
  unfold LaidOut Placeable
  by_cases hsum : t.sizeofObjectheader + instancesize + headerextrasize + extra < t.sizes
  · simp only [if_pos hsum]
    have hcls : classInit t instancesize headerextrasize =
        ⟨t.sizeofObjectheader + instancesize + headerextrasize, headerextrasize % 2 ^ 16⟩ := by
      unfold classInit
      rw [Nat.mod_eq_of_lt (by omega)]
    have halloc : allocInstanceExtra t ⟨t.sizeofObjectheader + instancesize + headerextrasize,
        headerextrasize % 2 ^ 16⟩ extra alloc =
          some ⟨alloc, t.sizeofObjectheader + instancesize + headerextrasize + extra,
            alloc + headerextrasize % 2 ^ 16 + t.sizeofObjectheader⟩ := by
      unfold allocInstanceExtra
      rw [instanceSize_of_lt (by show 0 < _ + _ + _; omega) hsum]
      rfl
    simp only [hcls, halloc, Option.some.injEq, exists_eq_left']
    rw [regions_eq (by omega), fits_iff hH]
  · simp only [if_neg hsum]
    unfold allocInstanceExtra
    rw [Option.map_eq_none_iff, instanceSize_eq_none_iff (Nat.mod_lt _ hS)]
    show (_ % _ = 0 ∨ t.sizes ≤ _ % _ + extra) ↔ _
    by_cases hsize : t.sizeofObjectheader + instancesize + headerextrasize < t.sizes
    · rw [Nat.mod_eq_of_lt hsize]
      exact iff_of_true (Or.inr (by omega)) (Or.inl hsize)
    · exact (or_iff_right hsize).symm

end Addresses

/-! ## An instance with a header extra -/

/-- Pointers of eight bytes, and headers of two. -/
def lp64 : Target := ⟨8, by decide, false⟩

/-- Eight bytes of header extra, eight of instance variables and four extra bytes: the extra bytes are looked for from
byte 40 on in a block of 36 bytes. -/
theorem not_laidOut_headerextra :
    allocInstanceExtra lp64 (classInit lp64 8 8) 4 0 = some ⟨0, 36, 24⟩ ∧
      objectGetExtra lp64 (classInit lp64 8 8) 24 = 40 ∧ ¬ LaidOut lp64 8 8 4 0 := by
  have halloc : allocInstanceExtra lp64 (classInit lp64 8 8) 4 0 = some ⟨0, 36, 24⟩ := by decide
  refine ⟨halloc, by decide, fun hlaid => ?_⟩
  unfold LaidOut at hlaid
  rw [if_pos (by decide)] at hlaid
  obtain ⟨i, hi, -, hinside⟩ := hlaid
  cases halloc.symm.trans hi
  have hextra := hinside ⟨40, 4⟩ (by decide) 40 ⟨le_refl _, by decide⟩
  exact absurd hextra.2 (by decide)

end MulleObjcRuntime.Instances
