import Mathlib.Data.Nat.Digits.Defs
import MulleObjcRuntime.Lib.Bytes
import MulleObjcRuntime.Reflect.Symbolizer

/-!
# The text for an address

A symbolizer prints the method that an address is in to a buffer, with the offset.  That takes two calls to `snprintf`, one
behind the other.

* `snprintf` — the function of the C library, for a text that has been formatted;
* `mmcSnprint`, `symbolizerSnprint` — what the symbolizer prints to a memory;
* `symbolText` — the text of the method and the offset that are to be printed;
* `symbolizerSnprint_spec` — it is as if there were one call, unless the method does not fit and there is an offset: then
  the second call is for a place behind the buffer, of almost any length.
-/

namespace MulleObjcRuntime.Reflect

open Classes Lib.BinarySearch Lib.Bytes Lib.IntBisection

/-- A text in the memory -/
def ascii (text : List Char) : List Byte := text.map fun c => BitVec.ofNat 8 c.toNat

/-- `snprintf` of a text.  `posix` is for a library that returns an error for a size that is no `int`. -/
def snprintf (posix : Bool) (mem : Memory) (buf size : ℕ) (text : List Byte) : ℤ × Memory :=
  if 2 ^ 31 ≤ text.length ∨ (posix = true ∧ 2 ^ 31 ≤ size) then (-1, mem)
  else (text.length, if size = 0 then mem else mem.store buf (text.take (size - 1) ++ [0]))

/-- The names that there are for what is in an array -/
structure Names (P : Type) where
  className : P → List Byte
  methodName : Method → List Byte
  categoryName : MethodList → List Byte

/-- What `symbolizer_snprint` returns, with the memory and whether `errno` is set to `EINVAL`. -/
structure Printed where
  rval : ℤ
  mem : Memory
  einval : Bool

/-- A `size_t` that is cast to `ptrdiff_t`, or an address to `intptr_t` -/
def intptr (n : ℕ) : ℤ := if n < 2 ^ 63 then n else n - 2 ^ 64

section Defs

variable {P : Type} (names : Names P) (posix : Bool)

/-- The text of `mmc_snprint` -/
def mmcText (p : Mmc P) : List Byte :=
  let sign := ascii [if p.cls.isMeta then '+' else '-']
  if p.list.categoryid = 0 then
    sign ++ ascii ['['] ++ names.className p.cls.pair ++ ascii [' '] ++ names.methodName p.method ++ ascii [']']
  else
    sign ++ ascii ['['] ++ names.className p.cls.pair ++ ascii ['(', ' '] ++ names.categoryName p.list ++ ascii [')', ' '] ++
      names.methodName p.method ++ ascii [']']

/-- `mmc_snprint` -/
def mmcSnprint (mem : Memory) (p : Mmc P) (buf len : ℕ) : ℤ × Memory := snprintf posix mem buf len (mmcText names p)

/-- `+0x%lx` -/
def offsetText (diff : ℕ) : List Byte := ascii ('+' :: '0' :: 'x' :: Nat.toDigits 16 diff)

/-- The end of `mulle_objc_symbolizer_snprint`: the method, and the offset behind it. -/
def printSymbol (q : Mmc P) (diff buf len : ℕ) (mem : Memory) : ℤ × Memory :=
  let r := mmcSnprint names posix mem q buf len
  if diff ≠ 0 ∧ 0 ≤ r.1 then
    let r' := snprintf posix r.2 (buf + r.1.toNat) ((len + 2 ^ 64 - r.1.toNat) % 2 ^ 64) (offsetText diff)
    if r'.1 < 0 then r' else (r.1 + r'.1, r'.2)
  else r

/-- `mulle_objc_symbolizer_snprint`.  A difference of addresses that is no `intptr_t` is an overflow. -/
def symbolizerSnprint (p : Option (Mmcarray P)) (address max buf len : ℕ) (mem : Memory) : Except Fault Printed :=
  match p with
  | none => .ok ⟨-1, mem, true⟩
  | some array => do
    match ← array.findNearestimp address with
    | none => .ok ⟨0, mem, false⟩
    | some q =>
      let diff := intptr address - intptr q.imp
      if diff ≤ -2 ^ 63 ∨ 2 ^ 63 ≤ diff then .error .overflow
      else if (diff.natAbs : ℤ) > intptr max then .ok ⟨0, mem, false⟩
      else
        let r := printSymbol names posix q diff.natAbs buf len mem
        .ok ⟨r.1, r.2, false⟩

end Defs

/-- The method, and the offset if there is one -/
def symbolText {P : Type} (names : Names P) (p : Mmc P) (diff : ℕ) : List Byte :=
  mmcText names p ++ if diff = 0 then [] else offsetText diff

/-! ## Two calls behind each other -/

variable {posix : Bool} {mem : Memory} {buf size len : ℕ} {text text' : List Byte}

lemma snprintf_error (h : 2 ^ 31 ≤ text.length ∨ (posix = true ∧ 2 ^ 31 ≤ size)) :
    snprintf posix mem buf size text = (-1, mem) := if_pos h

lemma snprintf_ok (htext : text.length < 2 ^ 31) (hsize : posix = true → size < 2 ^ 31) :
    snprintf posix mem buf size text =
      ((text.length : ℤ), if size = 0 then mem else mem.store buf (text.take (size - 1) ++ [0])) := by
  refine if_neg fun h => ?_
  rcases h with h | ⟨hposix, h⟩
  · omega
  · have := hsize hposix
    omega

lemma snprintf_outside {x : ℕ} (hx : x < buf ∨ buf + size ≤ x) : (snprintf posix mem buf size text).2 x = mem x := by
  unfold snprintf
  split
  · rfl
  · simp only
    split
    · rfl
    · apply Memory.store_of_not_mem
      rw [List.length_append, List.length_take, List.length_singleton]
      omega

lemma store_end {a : ℕ} {b : Byte} {rest : List Byte} :
    (mem.store a (text ++ [0])).store (a + text.length) (b :: rest) = mem.store a (text ++ b :: rest) := by
  have hone : ∀ mem : Memory, (mem.store (a + text.length) [0]).store (a + text.length) [b] =
      mem.store (a + text.length) [b] := fun _ => Memory.store_store_same rfl
  have hsplit : ∀ mem : Memory, mem.store (a + text.length) (b :: rest) =
      (mem.store (a + text.length) [b]).store (a + text.length + [b].length) rest := fun mem =>
    (@Memory.store_store mem (a + text.length) [b] rest).symm
  rw [← Memory.store_store, ← Memory.store_store, hsplit, hone, ← hsplit]

/-- **If the first text fits, two calls do what one would do.** -/
lemma snprintf_append (mem : Memory) (buf : ℕ) (htext : (text ++ text').length < 2 ^ 31) (hsize : posix = true → len < 2 ^ 31)
    (hlen : len < 2 ^ 64) (hfits : text.length ≤ len) :
    snprintf posix (snprintf posix mem buf len text).2 (buf + text.length) ((len + 2 ^ 64 - text.length) % 2 ^ 64) text' =
      ((text'.length : ℤ), (snprintf posix mem buf len (text ++ text')).2) := by
  have hroom : (len + 2 ^ 64 - text.length) % 2 ^ 64 = len - text.length := by omega
  rw [List.length_append] at htext
  rw [hroom, snprintf_ok (by omega) (fun h => by have := hsize h; omega), snprintf_ok (by omega) hsize,
    snprintf_ok (by rw [List.length_append]; omega) hsize]
  refine Prod.ext rfl ?_
  simp only
  rcases Nat.eq_or_lt_of_le hfits with rfl | hlt
  · -- there is no room for the second text
    rw [if_pos (Nat.sub_self _), List.take_append_of_le_length (Nat.sub_le _ _)]
  · have htake : text.take (len - 1) = text := List.take_of_length_le (by omega)
    have hboth : (text ++ text').take (len - 1) = text ++ text'.take (len - text.length - 1) := by
      rw [List.take_append, htake, Nat.sub_right_comm]
    obtain ⟨b, rest, hrest⟩ := List.exists_cons_of_ne_nil
      (List.append_ne_nil_of_right_ne_nil (text'.take (len - text.length - 1)) (List.cons_ne_nil (0 : Byte) []))
    rw [if_neg (by omega), if_neg (by omega), if_neg (by omega), htake, hboth, List.append_assoc, hrest]
    exact store_end

lemma snprintf_behind (posix : Bool) (mem : Memory) (buf : ℕ) (htext' : text'.length < 2 ^ 31) (htext : text.length < 2 ^ 31) (hlen : len < text.length) :
    snprintf posix mem (buf + text.length) ((len + 2 ^ 64 - text.length) % 2 ^ 64) text' =
      if posix = true then (-1, mem) else ((text'.length : ℤ), mem.store (buf + text.length) (text' ++ [0])) := by
  have hsize : (len + 2 ^ 64 - text.length) % 2 ^ 64 = len + 2 ^ 64 - text.length := Nat.mod_eq_of_lt (by omega)
  rw [hsize]
  cases posix with
  | true => exact snprintf_error (Or.inr ⟨rfl, by omega⟩)
  | false =>
    rw [snprintf_ok htext' (fun h => by cases h), if_neg (by omega), List.take_of_length_le (by omega)]
    rfl

/-! ## The symbolizer -/

section Symbol

variable {P : Type} {names : Names P} {array : Mmcarray P} {q : Mmc P} {address max : ℕ}

lemma intptr_sub (haddress : address < 2 ^ 63) (hle : q.imp ≤ address) :
    intptr address - intptr q.imp = (address - q.imp : ℕ) := by
  rw [intptr, intptr, if_pos haddress, if_pos (by omega)]
  omega

lemma symbolizerSnprint_none (hfound : array.findNearestimp address = .ok none) :
    symbolizerSnprint names posix (some array) address max buf len mem = .ok ⟨0, mem, false⟩ := by
  simp only [symbolizerSnprint, hfound]
  rfl

lemma symbolizerSnprint_far (haddress : address < 2 ^ 63) (hfound : array.findNearestimp address = .ok (some q))
    (hle : q.imp ≤ address) (hfar : intptr max < (address - q.imp : ℕ)) :
    symbolizerSnprint names posix (some array) address max buf len mem = .ok ⟨0, mem, false⟩ := by
  simp only [symbolizerSnprint, hfound]
  show (if _ ∨ _ then _ else if _ then _ else _) = _
  simp only [intptr_sub haddress hle, Int.natAbs_natCast]
  exact (if_neg (by omega)).trans (if_pos hfar)

lemma symbolizerSnprint_near (names : Names P) (posix : Bool) (buf len : ℕ) (mem : Memory) (haddress : address < 2 ^ 63) (hfound : array.findNearestimp address = .ok (some q))
    (hle : q.imp ≤ address) (hnear : (address - q.imp : ℕ) ≤ intptr max) :
    symbolizerSnprint names posix (some array) address max buf len mem =
      .ok ⟨(printSymbol names posix q (address - q.imp) buf len mem).1,
        (printSymbol names posix q (address - q.imp) buf len mem).2, false⟩ := by
  simp only [symbolizerSnprint, hfound]
  show (if _ ∨ _ then _ else if _ then _ else _) = _
  simp only [intptr_sub haddress hle, Int.natAbs_natCast]
  exact (if_neg (by omega)).trans (if_neg (by omega))

lemma length_offsetText {diff : ℕ} (hdiff : diff < 2 ^ 63) : (offsetText diff).length < 2 ^ 30 := by
  have hdigits := Nat.toDigits_length 16 diff 16 (by omega) (by omega)
  rw [offsetText, ascii, List.length_map, List.length_cons, List.length_cons, List.length_cons]
  omega

/-- If the method fits, or there is no offset, it is as if everything was printed at once. -/
lemma printSymbol_eq {diff : ℕ} (hdiff : diff < 2 ^ 63) (hlen : len < 2 ^ 64) (hshort : (mmcText names q).length < 2 ^ 30)
    (hfits : diff = 0 ∨ (mmcText names q).length ≤ len) :
    printSymbol names posix q diff buf len mem = snprintf posix mem buf len (symbolText names q diff) := by
  have htext' := length_offsetText hdiff
  by_cases hsize : posix = true ∧ 2 ^ 31 ≤ len
  · simp only [printSymbol, mmcSnprint, snprintf_error (Or.inr hsize)]
    exact if_neg (by omega)
  · have hsize' : posix = true → len < 2 ^ 31 := fun h => by
      by_contra hle
      exact hsize ⟨h, by omega⟩
    have hfirst : mmcSnprint names posix mem q buf len = (((mmcText names q).length : ℤ),
        (snprintf posix mem buf len (mmcText names q)).2) := by
      rw [mmcSnprint, snprintf_ok (by omega) hsize']
    by_cases hzero : diff = 0
    · rw [symbolText, if_pos hzero, List.append_nil]
      exact if_neg (by simp [hzero])
    · rw [symbolText, if_neg hzero]
      have hboth : (mmcText names q ++ offsetText diff).length < 2 ^ 31 := by
        rw [List.length_append]
        omega
      have hsecond := snprintf_append mem buf hboth hsize' hlen (hfits.resolve_left hzero)
      simp only [printSymbol, hfirst, Int.toNat_natCast, hsecond]
      rw [if_pos ⟨hzero, by omega⟩, if_neg (by omega), snprintf_ok hboth hsize', List.length_append]
      push_cast
      rfl

/-- The library may tell that the size is wrong, but if it does not, the second call writes behind the buffer. -/
lemma printSymbol_inside_iff (buf : ℕ) {diff : ℕ} (hdiff : diff < 2 ^ 63) (hlen : len < 2 ^ 64)
    (hshort : (mmcText names q).length < 2 ^ 30) :
    (∀ mem x, (x < buf ∨ buf + len ≤ x) → (printSymbol names posix q diff buf len mem).2 x = mem x) ↔
      posix = true ∨ diff = 0 ∨ (mmcText names q).length ≤ len := by
  have htext' := length_offsetText hdiff
  by_cases hfits : diff = 0 ∨ (mmcText names q).length ≤ len
  · refine iff_of_true (fun mem x hx => ?_) (Or.inr hfits)
    rw [printSymbol_eq hdiff hlen hshort hfits, snprintf_outside hx]
  · rw [not_or, not_le] at hfits
    obtain ⟨hne, hlt⟩ := hfits
    have hsmall : posix = true → len < 2 ^ 31 := fun _ => by omega
    have hfirst : ∀ mem, mmcSnprint names posix mem q buf len = (((mmcText names q).length : ℤ),
        (snprintf posix mem buf len (mmcText names q)).2) := fun mem => by
      rw [mmcSnprint, snprintf_ok (by omega) hsmall]
    have hsecond := fun mem => snprintf_behind posix mem buf (htext'.trans (by omega)) (by omega) hlt
    simp only [printSymbol, hfirst, Int.toNat_natCast, hsecond]
    cases posix with
    | true => exact iff_of_true (fun mem x hx => by simp [hne, snprintf_outside hx]) (Or.inl rfl)
    | false =>
      refine iff_of_false (fun hinside => ?_) (by simp [hne, hlt])
      have h := hinside (fun _ => 0) (buf + (mmcText names q).length) (Or.inr (by omega))
      have hcall : diff ≠ 0 ∧ (0 : ℤ) ≤ (mmcText names q).length := ⟨hne, by omega⟩
      rw [if_pos hcall, if_neg (by simp)] at h
      -- the first of the bytes behind the method is a plus sign, which is not what was there
      simp [offsetText, ascii, Memory.store] at h

end Symbol

variable {P : Type} [DecidableEq P] {g : ClassGraph P} {m : Members.ClassMembers P} {ndebug : Bool}
  {qsort : Quicksort (Mmc P)} {frames : ℕ} {classtable : List P} {array : Mmcarray P}

/-- **A symbolizer prints a method as if at once**, with the offset of the address, if the method fits or the address is
its first one.  Nothing is printed if the method is too far away.  What is outside of the buffer stays exactly if the
method fits, or there is no offset, or the library is careful about the size. -/
theorem symbolizerSnprint_spec (names : Names P) (posix : Bool) (hframes : ∀ c ∈ classtable, g.depth c < frames)
    (hinit : symbolizerInit g m ndebug qsort frames classtable = some array)
    (hcount : (methodsOfClasses g classtable).length ≤ 2 ^ 30)
    (hshort : ∀ q ∈ methodsOfClasses g classtable, (mmcText names q).length < 2 ^ 30) {address : ℕ}
    (haddress : address < 2 ^ 63) (max buf : ℕ) {len : ℕ} (hlen : len < 2 ^ 64) :
    ∃ found, array.findNearestimp address = .ok found ∧
      ((∀ q, found = some q → intptr max < (address - q.imp : ℕ)) → ∀ mem,
        symbolizerSnprint names posix (some array) address max buf len mem = .ok ⟨0, mem, false⟩) ∧
      ∀ q, found = some q → (address - q.imp : ℕ) ≤ intptr max →
        (q.imp = address ∨ (mmcText names q).length ≤ len → ∀ mem,
          symbolizerSnprint names posix (some array) address max buf len mem =
            .ok ⟨(snprintf posix mem buf len (symbolText names q (address - q.imp))).1,
              (snprintf posix mem buf len (symbolText names q (address - q.imp))).2, false⟩) ∧
        ((∀ mem r, symbolizerSnprint names posix (some array) address max buf len mem = .ok r →
            ∀ x, (x < buf ∨ buf + len ≤ x) → r.mem x = mem x) ↔
          posix = true ∨ q.imp = address ∨ (mmcText names q).length ≤ len) := by
  obtain ⟨hperm, hsorted⟩ := (symbolizerInit_values m ndebug qsort hframes).2 array hinit
  obtain ⟨found, hfound, hnone, hsome⟩ := Lib.NearestBelow.nearest_spec (k := address) hsorted
    (hperm.length_eq.trans_le hcount)
  refine ⟨found, hfound, fun hfar mem => ?_, fun q hq hnear => ?_⟩
  · cases found with
    | none => exact symbolizerSnprint_none hfound
    | some q => exact symbolizerSnprint_far haddress hfound (hsome q rfl).2.1 (hfar q rfl)
  · obtain ⟨hmem, hle, -⟩ := hsome q hq
    subst hq
    have hdiff : address - q.imp < 2 ^ 63 := by omega
    have hzero : address - q.imp = 0 ↔ q.imp = address := by omega
    have hshort' := hshort q (hperm.mem_iff.mp hmem)
    have hprinted := fun mem => symbolizerSnprint_near names posix buf len mem haddress hfound hle hnear
    constructor
    · intro hfits mem
      rw [hprinted, printSymbol_eq hdiff hlen hshort' (hfits.imp_left hzero.mpr)]
    · rw [← hzero, ← printSymbol_inside_iff buf hdiff hlen hshort']
      simp only [hprinted, Except.ok.injEq, forall_eq']

/-- The classes are named `A` and `B`, the category is named `C` and the methods are named `f`. -/
def twoClassesNames : Names ℕ :=
  ⟨fun c => ascii [if c = 0 then 'A' else 'B'], fun _ => ascii ['f'], fun _ => ascii ['C']⟩

theorem symbolizerSnprint_spec_small :
    ∃ array, symbolizerInit twoClasses twoClassesMembers false (insertionQuicksort (Mmc ℕ)) 2 [0, 1] = some array ∧
      ∃ found, array.findNearestimp 9000 = .ok found ∧
        ((∀ q, found = some q → intptr 1000 < (9000 - q.imp : ℕ)) → ∀ mem,
          symbolizerSnprint twoClassesNames false (some array) 9000 1000 64 8 mem = .ok ⟨0, mem, false⟩) ∧
        ∀ q, found = some q → (9000 - q.imp : ℕ) ≤ intptr 1000 →
          (q.imp = 9000 ∨ (mmcText twoClassesNames q).length ≤ 8 → ∀ mem,
            symbolizerSnprint twoClassesNames false (some array) 9000 1000 64 8 mem =
              .ok ⟨(snprintf false mem 64 8 (symbolText twoClassesNames q (9000 - q.imp))).1,
                (snprintf false mem 64 8 (symbolText twoClassesNames q (9000 - q.imp))).2, false⟩) ∧
          ((∀ mem r, symbolizerSnprint twoClassesNames false (some array) 9000 1000 64 8 mem = .ok r →
              ∀ x, (x < 64 ∨ 64 + 8 ≤ x) → r.mem x = mem x) ↔
            false = true ∨ q.imp = 9000 ∨ (mmcText twoClassesNames q).length ≤ 8) := by
  have hsome : (symbolizerInit twoClasses twoClassesMembers false (insertionQuicksort (Mmc ℕ)) 2 [0, 1]).isSome = true := by
    decide +kernel
  obtain ⟨array, hinit⟩ := Option.isSome_iff_exists.mp hsome
  exact ⟨array, hinit, symbolizerSnprint_spec twoClassesNames false (by decide) hinit (by decide +kernel)
    (by decide +kernel) (by decide) 1000 64 (by decide)⟩

/-- A method of ten bytes for a buffer of eight: the plus sign is at the third byte behind it. -/
example : ((symbolizerInit twoClasses twoClassesMembers false (insertionQuicksort (Mmc ℕ)) 2 [0, 1]).bind fun array =>
    ((symbolizerSnprint twoClassesNames false (some array) 9000 1000 64 8 fun _ => 0).toOption).map fun r =>
      (r.rval, r.mem 71, r.mem 72, r.mem 73, r.mem 74)) = some (16, 0, 0, 0, 43) := by
  decide +kernel

end MulleObjcRuntime.Reflect
