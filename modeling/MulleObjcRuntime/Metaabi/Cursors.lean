import Mathlib.Data.List.Perm.Subperm
import MulleObjcRuntime.Lib.Bytes
import MulleObjcRuntime.Lib.Placement
import MulleObjcRuntime.Lib.Runs

/-!
# Values that go through a MetaABI block

* `Ctype`, `Value`, `Scope` — typed values, and the writers that are in scope where a push is written;
* `push`, `metaabiNext` — the macros that write a value and that read one;
* `Transfers` — what is pushed is read again and lies where a struct has it;
* `transfers_iff` — it is so unless a function pointer is pushed, or a union to a writer that is not called `p`.
-/

namespace MulleObjcRuntime.Metaabi

open Lib.Alignment Lib.Bytes Lib.Bytes.Memory Lib.Placement Lib.Runs

/-- The kinds of types that there are macros for -/
inductive Kind
  | scalar
  | pointer
  | functionpointer
  | struct
  | union
deriving DecidableEq, Repr

/-- A type with its `sizeof( type)`, its `alignof( type)` and its `alignof( struct{ type x; })` -/
structure Ctype where
  kind : Kind
  size : ℕ
  alignof : ℕ
  memberAlignof : ℕ
  size_pos : 0 < size
  alignof_pos : 0 < alignof
  memberAlignof_pos : 0 < memberAlignof

/-- A value of a type, as it is in memory -/
structure Value where
  type : Ctype
  bytes : List Byte
  length_bytes : bytes.length = type.size

/-- The memory, and the `struct mulle_metaabi_writer` in scope, by what they are called, with their `p` -/
structure Scope where
  memory : Memory
  writers : List Char → Option ℕ

/-- The scope after a value is put at an address and the writer goes behind it -/
def Scope.put (s : Scope) (ap : List Char) (address : ℕ) (v : Value) : Scope :=
  ⟨s.memory.store address v.bytes, Function.update s.writers ap (some (address + v.type.size))⟩

section Put

variable {s : Scope} {ap name : List Char} {address x : ℕ} {v : Value}

@[simp] lemma put_writers_self : (s.put ap address v).writers ap = some (address + v.type.size) :=
  Function.update_self _ _ _

lemma put_writers_of_ne (h : name ≠ ap) : (s.put ap address v).writers name = s.writers name :=
  Function.update_of_ne h _ _

lemma put_memory_of_not_mem (h : x < address ∨ address + v.type.size ≤ x) :
    (s.put ap address v).memory x = s.memory x := by
  rw [← v.length_bytes] at h
  exact store_of_not_mem h

@[simp] lemma put_load : (s.put ap address v).memory.load address v.type.size = v.bytes := by
  rw [← v.length_bytes]
  exact load_store

end Put

/-! ## The macros -/

section Macros

variable (s : Scope) (ap : List Char) (v : Value)

/-- `ap.p` is aligned, the value is put there and `ap.p` goes behind it.  Without an `ap` this is not compiled. -/
def pushAligned : Option Scope :=
  (s.writers ap).map fun p => s.put ap (roundUp p v.type.alignof) v

/-- `_mulle_metaabi_push` -/
def metaabiPush : Option Scope := pushAligned s ap v

/-- `mulle_metaabi_push_pointer` -/
def metaabiPushPointer : Option Scope := metaabiPush s ap v

/-- `mulle_metaabi_push_functionpointer`.  `_mulle_metaabi_push` makes `(void (*)( void) *)` of the type, which is not
compiled. -/
def metaabiPushFunctionpointer : Option Scope := none

/-- `mulle_metaabi_push_struct` -/
def metaabiPushStruct : Option Scope := pushAligned s ap v

/-- `mulle_metaabi_push_union`, which is `mulle_metaabi_push_struct( p, value)` whatever the writer is called. -/
def metaabiPushUnion : Option Scope := metaabiPushStruct s ['p'] v

/-- The macro for a value -/
def push : Option Scope :=
  match v.type.kind with
  | .scalar => metaabiPush s ap v
  | .pointer => metaabiPushPointer s ap v
  | .functionpointer => metaabiPushFunctionpointer
  | .struct => metaabiPushStruct s ap v
  | .union => metaabiPushUnion s v

/-- `_mulle_metaabi_reader_align_pointer`, with the `p` of the reader -/
def readerAlignPointer (p size align : ℕ) : ℕ × ℕ :=
  let q := roundUp p align
  (q, q + size)

/-- `_mulle_metaabi_next`, which all the macros that read are, with the `p` of the reader -/
def metaabiNext (memory : Memory) (p : ℕ) (type : Ctype) : List Byte × ℕ :=
  let (q, p) := readerAlignPointer p type.size type.memberAlignof
  (memory.load q type.size, p)

end Macros

/-- The values of some types, read one after the other -/
def nextAll (memory : Memory) : ℕ → List Ctype → List (List Byte) × ℕ
  | p, [] => ([], p)
  | p, type :: types =>
    let (bytes, p) := metaabiNext memory p type
    let (rest, p) := nextAll memory p types
    (bytes :: rest, p)

/-! ## What a block is for -/

/-- A member of a struct -/
def Ctype.member (type : Ctype) : Block := ⟨type.size, type.memberAlignof⟩

/-- The members of the struct that has these values -/
def members (values : List Value) : List Block := values.map fun v => v.type.member

/-- The values that are no unions -/
def others (values : List Value) : List Value := values.filter fun v => v.type.kind ≠ .union

/-- The unions of the values -/
def unions (values : List Value) : List Value := values.filter fun v => v.type.kind = .union

/-- The values can be pushed with the writer, each is then where the struct has it, and reading gives them again and
ends where the writer is. -/
def Transfers (s : Scope) (ap : List Char) (base : ℕ) (values : List Value) : Prop :=
  ∃ s', run (push · ap) s values = some s' ∧
    List.Forall₂ (fun x v => s'.memory.load (base + x.1) v.type.size = v.bytes) (place 0 (members values)) values ∧
    ∃ p, s'.writers ap = some p ∧
      nextAll s'.memory base (values.map fun v => v.type) = (values.map fun v => v.bytes, p)

/-- A writer that is called `p` and is not this one has no part in its block. -/
def Apart (writers : List Char → Option ℕ) (ap : List Char) (base : ℕ) (values : List Value) : Prop :=
  ap ≠ ['p'] → ∀ q, writers ['p'] = some q →
    List.Disjoint (footprint base (members values))
      (footprint q (members (unions values)))

variable {s s' t : Scope} {ap : List Char} {v : Value} {values : List Value} {c q : ℕ}

lemma members_cons (v : Value) (values : List Value) : members (v :: values) = v.type.member :: members values := rfl

lemma mem_footprint_members_cons {x : ℕ} :
    x ∈ footprint c (members (v :: values)) ↔
      (roundUp c v.type.memberAlignof ≤ x ∧ x < roundUp c v.type.memberAlignof + v.type.size) ∨
        x ∈ footprint (roundUp c v.type.memberAlignof + v.type.size) (members values) := by
  rw [members_cons, footprint_cons, List.mem_append, List.mem_range'_1]
  rfl

lemma members_alignment_pos : ∀ b ∈ members values, 0 < b.alignment := by
  intro b hb
  obtain ⟨v, -, rfl⟩ := List.mem_map.mp hb
  exact v.type.memberAlignof_pos

/-! ## Pushing through one writer -/

lemma pushAligned_of_some (hap : s.writers ap = some c) (htarget : v.type.alignof = v.type.memberAlignof) :
    pushAligned s ap v = some (s.put ap (roundUp c v.type.memberAlignof) v) := by
  unfold pushAligned
  rw [hap, htarget]
  rfl

lemma push_eq (hfunction : v.type.kind ≠ .functionpointer) :
    push s ap v = pushAligned s (if v.type.kind = .union then ['p'] else ap) v := by
  unfold push
  cases hkind : v.type.kind with
  | functionpointer => exact absurd hkind hfunction
  | scalar | pointer | struct | union => rfl

/-- **What a writer that all the values go to has written.**  What is before it stays. -/
lemma run_through (hap : s.writers ap = some c)
    (hvalues : ∀ v ∈ values, v.type.kind ≠ .functionpointer ∧ (v.type.kind = .union → ap = ['p']))
    (htarget : ∀ v ∈ values, v.type.alignof = v.type.memberAlignof) :
    ∃ s', run (push · ap) s values = some s' ∧ s'.writers ap = some (placedEnd c (members values)) ∧
      (∀ x < c, s'.memory x = s.memory x) ∧
      List.Forall₂ (fun x v => s'.memory.load x.1 v.type.size = v.bytes) (place c (members values)) values := by
  induction values generalizing s c with
  | nil => exact ⟨s, rfl, hap, fun x _ => rfl, .nil⟩
  | cons v values ih =>
    obtain ⟨⟨hfunction, hunion⟩, hvalues⟩ := List.forall_mem_cons.mp hvalues
    obtain ⟨htype, htarget⟩ := List.forall_mem_cons.mp htarget
    have hround : c ≤ roundUp c v.type.memberAlignof := le_roundUp v.type.memberAlignof_pos
    have hname : (if v.type.kind = .union then ['p'] else ap) = ap := by
      split
      · exact (hunion ‹_›).symm
      · rfl
    have hpush : push s ap v = _ := push_eq hfunction
    rw [hname, pushAligned_of_some hap htype] at hpush
    obtain ⟨s', hrun, hcursor, hkept, hplaced⟩ := ih put_writers_self hvalues htarget
    refine ⟨s', run_cons_eq_some.mpr ⟨_, hpush, hrun⟩, hcursor, fun x hx => ?_, .cons ?_ hplaced⟩
    · rw [hkept x (by omega), put_memory_of_not_mem (Or.inl (by omega))]
    · show s'.memory.load (roundUp c v.type.memberAlignof) v.type.size = v.bytes
      rw [load_eq_load_iff.mpr fun x _ hlt => hkept x hlt, put_load]

lemma nextAll_eq {memory : Memory}
    (h : List.Forall₂ (fun x v => memory.load x.1 v.type.size = v.bytes) (place c (members values)) values) :
    nextAll memory c (values.map fun v => v.type) = (values.map fun v => v.bytes, placedEnd c (members values)) := by
  induction values generalizing c with
  | nil => rfl
  | cons v values ih =>
    rw [members_cons, place] at h
    obtain ⟨hhead, hrest⟩ := List.forall₂_cons.mp h
    have hbytes : memory.load (roundUp c v.type.memberAlignof) v.type.size = v.bytes := hhead
    have hrest := ih hrest
    rw [List.map_cons, List.map_cons, nextAll, metaabiNext, readerAlignPointer]
    simp only
    rw [hbytes]
    exact congrArg (fun r : List (List Byte) × ℕ => (v.bytes :: r.1, r.2)) hrest

/-! ## Pushing through two writers -/

lemma push_eq_some (h : push s ap v = some t) :
    v.type.kind ≠ .functionpointer ∧
      ∃ p, s.writers (if v.type.kind = .union then ['p'] else ap) = some p ∧
        t = s.put (if v.type.kind = .union then ['p'] else ap) (roundUp p v.type.alignof) v := by
  have hfunction : v.type.kind ≠ .functionpointer := by
    intro hkind
    rw [push, hkind] at h
    cases h
  rw [push_eq hfunction] at h
  obtain ⟨p, hp, rfl⟩ := Option.map_eq_some_iff.mp h
  exact ⟨hfunction, p, hp, rfl⟩

lemma push_isSome (h : push s ap v = some t) (name : List Char) : (t.writers name).isSome = (s.writers name).isSome := by
  obtain ⟨-, p, hp, rfl⟩ := push_eq_some h
  by_cases hname : name = if v.type.kind = .union then ['p'] else ap
  · rw [hname, put_writers_self, hp]
    rfl
  · rw [put_writers_of_ne hname]

lemma run_compiled (hrun : run (push · ap) s values = some s') :
    ∀ v ∈ values, v.type.kind ≠ .functionpointer ∧ (v.type.kind = .union → (s.writers ['p']).isSome) := by
  induction values generalizing s with
  | nil => exact fun v hv => absurd hv List.not_mem_nil
  | cons v values ih =>
    obtain ⟨t, ht, hrest⟩ := run_cons_eq_some.mp hrun
    obtain ⟨hfunction, p, hp, -⟩ := push_eq_some ht
    refine List.forall_mem_cons.mpr ⟨⟨hfunction, fun hunion => ?_⟩, ?_⟩
    · rw [if_pos hunion] at hp
      rw [hp]
      rfl
    · rw [← push_isSome ht]
      exact ih hrest

section Filter

variable (v values)

lemma others_cons : others (v :: values) = if v.type.kind = .union then others values else v :: others values := by
  unfold others
  rw [List.filter_cons]
  split <;> simp_all

lemma unions_cons : unions (v :: values) = if v.type.kind = .union then v :: unions values else unions values := by
  unfold unions
  rw [List.filter_cons]
  simp only [decide_eq_true_eq]

end Filter

/-- **What neither of two writers comes by stays.** -/
lemma run_untouched (hne : ap ≠ ['p']) (hap : s.writers ap = some c) (hp : s.writers ['p'] = some q)
    (htarget : ∀ v ∈ values, v.type.alignof = v.type.memberAlignof)
    (hrun : run (push · ap) s values = some s') {x : ℕ}
    (hx : x ∉ footprint c (members (others values))) (hx' : x ∉ footprint q (members (unions values))) :
    s'.memory x = s.memory x := by
  induction values generalizing s c q with
  | nil =>
    cases hrun
    rfl
  | cons v values ih =>
    obtain ⟨htype, htarget⟩ := List.forall_mem_cons.mp htarget
    obtain ⟨t, ht, hrest⟩ := run_cons_eq_some.mp hrun
    obtain ⟨-, p, hwriter, rfl⟩ := push_eq_some ht
    rw [others_cons] at hx
    rw [unions_cons] at hx'
    rw [htype] at hrest
    by_cases hunion : v.type.kind = .union
    · simp only [if_pos hunion] at hwriter hrest hx hx'
      cases hp.symm.trans hwriter
      rw [mem_footprint_members_cons, not_or] at hx'
      obtain ⟨hhead, hx'⟩ := hx'
      rw [ih ((put_writers_of_ne hne).trans hap) put_writers_self htarget hrest hx hx']
      exact put_memory_of_not_mem (by omega)
    · simp only [if_neg hunion] at hwriter hrest hx hx'
      cases hap.symm.trans hwriter
      rw [mem_footprint_members_cons, not_or] at hx
      obtain ⟨hhead, hx⟩ := hx
      rw [ih put_writers_self ((put_writers_of_ne hne.symm).trans hp) htarget hrest hx hx']
      exact put_memory_of_not_mem (by omega)

/-! ## What is missing -/

/-- The bytes that the values take without the padding -/
def bytesOf (values : List Value) : ℕ := totalSize (members values)

lemma bytesOf_cons (v : Value) (values : List Value) : bytesOf (v :: values) = v.type.size + bytesOf values := rfl

lemma bytesOf_others_le (values : List Value) : bytesOf (others values) ≤ bytesOf values := by
  induction values with
  | nil => exact Nat.le_refl _
  | cons v values ih =>
    rw [others_cons, bytesOf_cons]
    split
    · omega
    · rw [bytesOf_cons]
      omega

lemma bytesOf_others_lt (hv : v ∈ values) (hunion : v.type.kind = .union) : bytesOf (others values) < bytesOf values := by
  induction values with
  | nil => exact absurd hv List.not_mem_nil
  | cons w values ih =>
    rw [others_cons, bytesOf_cons]
    rcases List.mem_cons.mp hv with rfl | hv
    · have hpos : 0 < v.type.size := v.type.size_pos
      have hle := bytesOf_others_le values
      rw [if_pos hunion]
      omega
    · have hlt := ih hv
      split
      · omega
      · rw [bytesOf_cons]
        omega

lemma exists_unwritten (base : ℕ) (hv : v ∈ values) (hunion : v.type.kind = .union) :
    ∃ x ∈ footprint base (members values), x ∉ footprint base (members (others values)) := by
  by_contra! hwritten
  have hlength := ((nodup_footprint members_alignment_pos).subperm hwritten).length_le
  rw [length_footprint, length_footprint] at hlength
  exact absurd hlength (Nat.not_le.mpr (bytesOf_others_lt hv hunion))

lemma eq_of_placed {memory memory' : Memory}
    (h : List.Forall₂ (fun x v => memory.load x.1 v.type.size = v.bytes) (place c (members values)) values)
    (h' : List.Forall₂ (fun x v => memory'.load x.1 v.type.size = v.bytes) (place c (members values)) values) :
    ∀ x ∈ footprint c (members values), memory x = memory' x := by
  induction values generalizing c with
  | nil => exact fun x hx => absurd hx List.not_mem_nil
  | cons v values ih =>
    obtain ⟨hhead, hrest⟩ := List.forall₂_cons.mp h
    obtain ⟨hhead', hrest'⟩ := List.forall₂_cons.mp h'
    intro x hx
    rcases mem_footprint_members_cons.mp hx with ⟨hle, hlt⟩ | hx
    · exact load_eq_load_iff.mp (hhead.trans hhead'.symm) x hle hlt
    · exact ih hrest hrest' x hx

/-! ## When values are transferred -/

lemma placed_iff {base : ℕ} {memory : Memory} (haligned : ∀ v ∈ values, v.type.memberAlignof ∣ base) :
    List.Forall₂ (fun x v => memory.load (base + x.1) v.type.size = v.bytes) (place 0 (members values)) values ↔
      List.Forall₂ (fun x v => memory.load x.1 v.type.size = v.bytes) (place base (members values)) values := by
  have hmembers : ∀ b ∈ members values, b.alignment ∣ base := by
    intro b hb
    obtain ⟨v, hv, rfl⟩ := List.mem_map.mp hb
    exact haligned v hv
  have hplace : place base (members values) = (place 0 (members values)).map (Prod.map (base + ·) id) :=
    place_add (o := 0) members_alignment_pos hmembers
  rw [hplace, List.forall₂_map_left_iff]
  rfl

/-- **Values are transferred whatever was in memory exactly when there are no function pointers among them, and unions
only where the writer is called `p`.** -/
theorem transfers_iff {writers : List Char → Option ℕ} {ap : List Char} {base : ℕ} {values : List Value}
    (hap : writers ap = some base) (haligned : ∀ v ∈ values, v.type.memberAlignof ∣ base)
    (htarget : ∀ v ∈ values, v.type.alignof = v.type.memberAlignof) (hapart : Apart writers ap base values) :
    (∀ memory, Transfers ⟨memory, writers⟩ ap base values) ↔
      ∀ v ∈ values, v.type.kind ≠ .functionpointer ∧ (v.type.kind = .union → ap = ['p']) := by
  constructor
  · intro htransfers v hv
    obtain ⟨s, hrun, hplaced, -⟩ := htransfers fun _ => 0
    obtain ⟨t, hrun', hplaced', -⟩ := htransfers fun _ => 1
    obtain ⟨hfunction, hscope⟩ := run_compiled hrun v hv
    refine ⟨hfunction, fun hunion => ?_⟩
    by_contra hne
    obtain ⟨q, hq⟩ := Option.isSome_iff_exists.mp (hscope hunion)
    -- a byte of the struct that neither writer comes by is the same after both runs and was not before them
    obtain ⟨x, hx, hunwritten⟩ := exists_unwritten base hv hunion
    have hunwritten' : x ∉ footprint q (members (unions values)) := fun h => hapart hne q hq hx h
    have hzero := run_untouched (s := ⟨fun _ => 0, writers⟩) hne hap hq htarget hrun hunwritten hunwritten'
    have hone := run_untouched (s := ⟨fun _ => 1, writers⟩) hne hap hq htarget hrun' hunwritten hunwritten'
    have hsame := eq_of_placed ((placed_iff haligned).mp hplaced) ((placed_iff haligned).mp hplaced') x hx
    have hbyte : (0 : Byte) = 1 := hzero.symm.trans (hsame.trans hone)
    exact absurd hbyte (by decide)
  · intro hvalues memory
    obtain ⟨s', hrun, hcursor, -, hplaced⟩ := run_through (s := ⟨memory, writers⟩) hap hvalues htarget
    exact ⟨s', hrun, (placed_iff haligned).mpr hplaced, _, hcursor, nextAll_eq hplaced⟩

/-! ## A union among the values -/

/-- A union of two bytes -/
def twoBytes : Value := ⟨⟨.union, 2, 2, 2, Nat.two_pos, Nat.two_pos, Nat.two_pos⟩, [5, 6], rfl⟩

lemma four_pos : 0 < 4 := by decide

/-- A `char`, the union and a pointer of four bytes -/
def threeValues : List Value :=
  [⟨⟨.scalar, 1, 1, 1, Nat.one_pos, Nat.one_pos, Nat.one_pos⟩, [7], rfl⟩, twoBytes,
    ⟨⟨.pointer, 4, 4, 4, four_pos, four_pos, four_pos⟩, [1, 2, 3, 4], rfl⟩]

theorem transfers_threeValues :
    Transfers ⟨fun _ => 0, fun name => if name = ['p'] then some 64 else none⟩ ['p'] 64 threeValues := by
  apply (transfers_iff rfl (by decide) (by decide) _).mpr
  · decide
  · intro hne
    exact absurd rfl hne

/-- A writer `ap` at 64, and another one at 128 that is called `p` -/
def twoWriters (name : List Char) : Option ℕ :=
  if name = ['a', 'p'] then some 64 else if name = ['p'] then some 128 else none

/-- The union is pushed with `ap` and goes to `p`. -/
theorem not_transfers_union :
    ((push ⟨fun _ => 0, twoWriters⟩ ['a', 'p'] twoBytes).map fun s =>
        (s.memory.load 64 2, s.memory.load 128 2, s.writers ['a', 'p'])) = some ([0, 0], [5, 6], some 64) ∧
      ¬ Transfers ⟨fun _ => 0, twoWriters⟩ ['a', 'p'] 64 [twoBytes] := by
  refine ⟨rfl, ?_⟩
  rintro ⟨s, hrun, hplaced, -⟩
  cases hrun
  obtain ⟨hhead, -⟩ := List.forall₂_cons.mp hplaced
  exact absurd hhead (by decide)

end MulleObjcRuntime.Metaabi
