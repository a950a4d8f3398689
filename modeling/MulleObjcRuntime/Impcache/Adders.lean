import MulleObjcRuntime.Impcache.Map
import MulleObjcRuntime.Lib.Interleaving

/-!
# Threads that add to one cache

`_mulle_objc_cache_add_pointer_entry` and `_mulle_objc_cache_add_functionpointer_entry` access a cache that other threads
add to, too.  A step of a thread is one access.

* `Adding` — where a call of an adder is, and `Adding.step`, its next access;
* `Later` — what can become of a cache: nothing that is set is ever changed;
* `AddersInv` — what holds of the threads at all times;
* `adders_safe` — what is found in the cache was put there for the id, and in the end all ids are found.
-/

namespace MulleObjcRuntime.Impcache

open Lib.PowerOfTwo Lib.Interleaving

/-- A call of an adder.  Its assertions want a pointer and a sane id. -/
structure AddCall where
  pointer : ℕ
  uniqueid : ℕ
  pointer_ne : pointer ≠ 0
  uniqueid_ne : uniqueid ≠ 0

/-- Where a call of an adder is; the masked offset is that of the entry it looks at.  A call that is done has returned an
entry, here its offset, or `NULL`. -/
inductive Adding
  | ready
  | readKey (offset : ℕ)
  | readValue (offset : ℕ)
  | swap (offset : ℕ)
  | checkKey (offset : ℕ)
  | increment (offset : ℕ)
  | writeKey (offset : ℕ)
  | done (entry : Option ℕ)
deriving DecidableEq, Repr

section Step

variable (shift : ℕ) (cache : Cache)

/-- The write to `entry->value`. -/
def Cache.writeValue (offset pointer : ℕ) : Cache :=
  { cache with
    entries := cache.entries.modify (offset / sizeofCacheentry shift) fun entry => { entry with value := pointer } }

/-- The write to `entry->key`. -/
def Cache.writeKey (offset uniqueid : ℕ) : Cache :=
  { cache with
    entries := cache.entries.modify (offset / sizeofCacheentry shift) fun entry => { entry with uniqueid } }

/-- The next access of a call.  The first two are those of `_mulle_objc_cache_probe_entryoffset`. -/
def Adding.step (call : AddCall) : Adding → Cache × Adding
  | .ready => (cache, .readKey call.uniqueid)
  | .readKey offset =>
    let offset := offset &&& cache.mask
    (cache, if (cache.entryAt shift offset).uniqueid = call.uniqueid then .swap offset else .readValue offset)
  | .readValue offset =>
    (cache, if (cache.entryAt shift offset).value = 0 then .swap offset else .readKey (offset + sizeofCacheentry shift))
  | .swap offset =>
    if (cache.entryAt shift offset).value = 0 then (cache.writeValue shift offset call.pointer, .increment offset)
    else (cache, .checkKey offset)
  | .checkKey offset =>
    (cache, .done (if (cache.entryAt shift offset).uniqueid = call.uniqueid then some offset else none))
  | .increment offset => ({ cache with n := cache.n + 1 }, .writeKey offset)
  | .writeKey offset => (cache.writeKey shift offset call.uniqueid, .done (some offset))
  | .done entry => (cache, .done entry)

end Step

/-- What the threads do, each with its call. -/
def addersAct {ι : Type} (shift : ℕ) (calls : ι → AddCall) (i : ι) (cache : Cache) (a : Adding) (cache' : Cache)
    (a' : Adding) : Prop :=
  (cache', a') = a.step shift cache (calls i)

/-- A new cache, and no call has begun. -/
def addersStart (ι : Type) (shift bits : ℕ) : Threads ι Cache Adding := ⟨Cache.uncut shift (2 ^ bits), fun _ => .ready⟩

variable {ι : Type} {shift bits fuel uniqueid offset : ℕ} {cache cache' : Cache} {call : AddCall} {a a' : Adding}

/-! ## What becomes of a cache -/

attribute [ext] CacheEntry

/-- The entry at a position. -/
def Cache.entry (cache : Cache) (p : ℕ) : CacheEntry := cache.entries.getD p ⟨0, 0⟩

/-- What can become of a cache while threads add to it. -/
structure Later (cache cache' : Cache) : Prop where
  mask_eq : cache'.mask = cache.mask
  length_eq : cache'.entries.length = cache.entries.length
  value_eq : ∀ p, (cache.entry p).value ≠ 0 → (cache'.entry p).value = (cache.entry p).value
  key_eq : ∀ p, (cache.entry p).uniqueid ≠ 0 → (cache'.entry p).uniqueid = (cache.entry p).uniqueid

lemma Later.refl (cache : Cache) : Later cache cache := ⟨rfl, rfl, fun _ _ => rfl, fun _ _ => rfl⟩

lemma Later.trans {cache'' : Cache} (h : Later cache cache') (h' : Later cache' cache'') : Later cache cache'' := by
  refine ⟨by rw [h'.mask_eq, h.mask_eq], by rw [h'.length_eq, h.length_eq], fun p hp => ?_, fun p hp => ?_⟩
  · have hvalue := h.value_eq p hp
    rw [h'.value_eq p (by rwa [hvalue]), hvalue]
  · have hkey := h.key_eq p hp
    rw [h'.key_eq p (by rwa [hkey]), hkey]

lemma Later.laid (h : Later cache cache') (hlaid : cache.Laid shift) : cache'.Laid shift := by
  obtain ⟨bits, hlength, hmask⟩ := hlaid
  exact ⟨bits, by rw [h.length_eq, hlength], by rw [h.mask_eq, hmask]⟩

lemma entry_modify {p i : ℕ} (f : CacheEntry → CacheEntry) (hi : i < cache.entries.length) :
    Cache.entry { cache with entries := cache.entries.modify i f } p =
      if p = i then f (cache.entry i) else cache.entry p := by
  unfold Cache.entry
  simp only [List.getD_eq_getElem?_getD, List.getElem?_modify]
  by_cases hp : p = i
  · subst hp
    simp [List.getElem?_eq_getElem hi]
  · simp [hp, Ne.symm hp]

lemma entryAt_eq (cache : Cache) (offset : ℕ) : cache.entryAt shift offset = cache.entry (offset / 2 ^ shift) := rfl

lemma entryFrom_eq (cache : Cache) (offset d : ℕ) :
    cache.entryFrom shift offset d = cache.entry ((offset / 2 ^ shift + d) % cache.entries.length) := rfl

lemma Later.entryFrom_value (h : Later cache cache') (d : ℕ)
    (hvalue : (cache.entryFrom shift uniqueid d).value ≠ 0) :
    (cache'.entryFrom shift uniqueid d).value ≠ 0 := by
  rw [entryFrom_eq] at hvalue ⊢
  rw [h.length_eq, h.value_eq _ hvalue]
  exact hvalue

/-! ## The invariant -/

/-- A call with this id has come to this offset: all entries from the home of the id on have values. -/
def Reached (shift : ℕ) (cache : Cache) (uniqueid offset : ℕ) : Prop :=
  ∃ d, offset = (uniqueid / 2 ^ shift + d) % cache.entries.length * 2 ^ shift ∧
    ∀ j < d, (cache.entryFrom shift uniqueid j).value ≠ 0

/-- A call has put its value into the entry and is about to write the key. -/
def Adding.Inserting (offset : ℕ) (a : Adding) : Prop := a = .increment offset ∨ a = .writeKey offset

/-- What a call has found out. -/
def Adding.Ok (shift : ℕ) (call : AddCall) (cache : Cache) : Adding → Prop
  | .ready => True
  | .readKey offset => Reached shift cache call.uniqueid (offset &&& cache.mask)
  | .readValue offset => Reached shift cache call.uniqueid offset
  | .swap offset => Reached shift cache call.uniqueid offset
  | .checkKey offset => Reached shift cache call.uniqueid offset
  | .increment offset => Reached shift cache call.uniqueid offset ∧ cache.entryAt shift offset = ⟨0, call.pointer⟩
  | .writeKey offset => Reached shift cache call.uniqueid offset ∧ cache.entryAt shift offset = ⟨0, call.pointer⟩
  | .done none => True
  | .done (some offset) =>
    Reached shift cache call.uniqueid offset ∧ (cache.entryAt shift offset).uniqueid = call.uniqueid

/-- The call that has put its value into an entry: it has written the key, or is about to. -/
def Owner (shift : ℕ) (calls : ι → AddCall) (s : Threads ι Cache Adding) (p : ℕ) (i : ι) : Prop :=
  (calls i).pointer = (s.shared.entry p).value ∧
    (((s.shared.entry p).uniqueid = 0 ∧ (s.thread i).Inserting (p * 2 ^ shift)) ∨
      ((s.shared.entry p).uniqueid = (calls i).uniqueid ∧ s.thread i = .done (some (p * 2 ^ shift))))

/-- What holds of the threads at all times. -/
structure AddersInv (shift bits : ℕ) (calls : ι → AddCall) (s : Threads ι Cache Adding) : Prop where
  laid : s.shared.Laid shift
  length_eq : s.shared.entries.length = 2 ^ bits
  keyed : ∀ p, (s.shared.entry p).uniqueid ≠ 0 → (s.shared.entry p).value ≠ 0
  ok : ∀ i, (s.thread i).Ok shift (calls i) s.shared
  alone : ∀ i j offset, (s.thread i).Inserting offset → (s.thread j).Inserting offset → i = j
  owned : ∀ p < s.shared.entries.length, (s.shared.entry p).value ≠ 0 → ∃ i, Owner shift calls s p i

lemma Reached.later (h : Reached shift cache uniqueid offset) (hlater : Later cache cache') :
    Reached shift cache' uniqueid offset := by
  obtain ⟨d, hoffset, hvalues⟩ := h
  exact ⟨d, by rw [hlater.length_eq, hoffset], fun j hj => hlater.entryFrom_value j (hvalues j hj)⟩

lemma Reached.eq_pos (h : Reached shift cache uniqueid offset) (hlaid : cache.Laid shift) :
    offset / 2 ^ shift < cache.entries.length ∧ offset = offset / 2 ^ shift * 2 ^ shift := by
  obtain ⟨d, rfl, -⟩ := h
  rw [Nat.mul_div_cancel _ (Nat.two_pow_pos shift)]
  exact ⟨Nat.mod_lt _ hlaid.length_pos, rfl⟩

/-- What a call has found out stays true while others add, if they leave its own entry to it. -/
lemma Adding.Ok.later (h : a.Ok shift call cache) (hlater : Later cache cache')
    (hown : ∀ offset, a.Inserting offset → cache'.entryAt shift offset = cache.entryAt shift offset) :
    a.Ok shift call cache' := by
  rcases a with _ | offset | offset | offset | offset | offset | offset | _ | offset
  · trivial
  · unfold Ok
    rw [hlater.mask_eq]
    exact Reached.later h hlater
  · exact Reached.later h hlater
  · exact Reached.later h hlater
  · exact Reached.later h hlater
  · exact ⟨h.1.later hlater, by rw [hown _ (Or.inl rfl)]; exact h.2⟩
  · exact ⟨h.1.later hlater, by rw [hown _ (Or.inr rfl)]; exact h.2⟩
  · trivial
  · refine ⟨h.1.later hlater, ?_⟩
    have hkey := h.2
    rw [entryAt_eq] at hkey ⊢
    rw [hlater.key_eq _ (by rw [hkey]; exact call.uniqueid_ne), hkey]

/-! ## What an access does -/

/-- An access that only reads: the call is neither in the middle of an entry nor done before, and knows what it needs
afterwards; or it is done and stays so. -/
def OnlyReads (shift : ℕ) (call : AddCall) (cache : Cache) (a a' : Adding) : Prop :=
  a'.Ok shift call cache ∧ a' ≠ .ready ∧ (∀ offset, ¬ a'.Inserting offset) ∧ (∀ offset, ¬ a.Inserting offset) ∧
    ∀ entry, a = .done entry → a' = a

lemma not_inserting (h : ∀ offset, a ≠ .increment offset) (h' : ∀ offset, a ≠ .writeKey offset) (offset : ℕ) :
    ¬ a.Inserting offset := by
  rintro (rfl | rfl)
  · exact h offset rfl
  · exact h' offset rfl

/-- **What an access does**: it reads, or makes one of the three writes. -/
lemma Adding.step_cases (hlaid : cache.Laid shift) (h : a.Ok shift call cache)
    (hstep : (cache', a') = a.step shift cache call) :
    (cache' = cache ∧ OnlyReads shift call cache a a') ∨
    (∃ offset, a = .swap offset ∧ (cache.entryAt shift offset).value = 0 ∧
      cache' = cache.writeValue shift offset call.pointer ∧ a' = .increment offset) ∨
    (∃ offset, a = .increment offset ∧ cache' = { cache with n := cache.n + 1 } ∧ a' = .writeKey offset) ∨
    (∃ offset, a = .writeKey offset ∧ cache' = cache.writeKey shift offset call.uniqueid ∧
      a' = .done (some offset)) := by
  rcases a with _ | offset | offset | offset | offset | offset | offset | entry
  · -- the walk begins at home
    cases hstep
    refine Or.inl ⟨rfl, ⟨0, ?_, by omega⟩, by simp, ?_, ?_, by simp⟩
    · rw [hlaid.div_mask, Nat.add_zero]
    · exact not_inserting (by simp) (by simp)
    · exact not_inserting (by simp) (by simp)
  · cases hstep
    refine Or.inl ⟨rfl, ?_, ?_, ?_, not_inserting (by simp) (by simp), by simp⟩
    · split
      · exact h
      · exact h
    · split <;> simp
    · split <;> exact not_inserting (by simp) (by simp)
  · cases hstep
    refine Or.inl ⟨rfl, ?_, ?_, ?_, not_inserting (by simp) (by simp), by simp⟩
    · split
      · exact h
      · -- an entry with a value is passed
        rename_i hvalue
        obtain ⟨d, rfl, hvalues⟩ := h
        refine ⟨d + 1, ?_, fun j hj => ?_⟩
        · rw [hlaid.div_mask, sizeofCacheentry, Nat.add_div_right _ (Nat.two_pow_pos shift),
            Nat.mul_div_cancel _ (Nat.two_pow_pos shift), Nat.mod_add_mod, Nat.add_assoc]
        · rcases Nat.lt_succ_iff_lt_or_eq.1 hj with hj | rfl
          · exact hvalues j hj
          · rwa [entryAt_pos] at hvalue
    · split <;> simp
    · split <;> exact not_inserting (by simp) (by simp)
  · rw [Adding.step] at hstep
    split at hstep
    · rename_i hvalue
      cases hstep
      exact Or.inr (Or.inl ⟨offset, rfl, hvalue, rfl, rfl⟩)
    · cases hstep
      exact Or.inl ⟨rfl, h, by simp, not_inserting (by simp) (by simp), not_inserting (by simp) (by simp), by simp⟩
  · cases hstep
    refine Or.inl ⟨rfl, ?_, by simp, not_inserting (by simp) (by simp), not_inserting (by simp) (by simp), by simp⟩
    split
    · rename_i hkey
      exact ⟨h, hkey⟩
    · trivial
  · cases hstep
    exact Or.inr (Or.inr (Or.inl ⟨offset, rfl, rfl, rfl⟩))
  · cases hstep
    exact Or.inr (Or.inr (Or.inr ⟨offset, rfl, rfl, rfl⟩))
  · cases hstep
    exact Or.inl ⟨rfl, h, by simp, not_inserting (by simp) (by simp), not_inserting (by simp) (by simp), by simp⟩

lemma entry_writeValue (hlt : offset / 2 ^ shift < cache.entries.length) (pointer p : ℕ) :
    (cache.writeValue shift offset pointer).entry p =
      if p = offset / 2 ^ shift then ⟨(cache.entry p).uniqueid, pointer⟩ else cache.entry p := by
  rw [Cache.writeValue, sizeofCacheentry, entry_modify _ hlt]
  split
  · rename_i hp
    rw [hp]
  · rfl

lemma entry_writeKey (hlt : offset / 2 ^ shift < cache.entries.length) (uniqueid p : ℕ) :
    (cache.writeKey shift offset uniqueid).entry p =
      if p = offset / 2 ^ shift then ⟨uniqueid, (cache.entry p).value⟩ else cache.entry p := by
  rw [Cache.writeKey, sizeofCacheentry, entry_modify _ hlt]
  split
  · rename_i hp
    rw [hp]
  · rfl

lemma later_writeValue (pointer : ℕ) (hlt : offset / 2 ^ shift < cache.entries.length)
    (hvalue : (cache.entryAt shift offset).value = 0) : Later cache (cache.writeValue shift offset pointer) := by
  refine ⟨rfl, by simp [Cache.writeValue], ?_, ?_⟩
  · intro p hp
    rw [entry_writeValue hlt, if_neg]
    rintro rfl
    exact hp hvalue
  · intro p _
    rw [entry_writeValue hlt]
    split <;> rfl

lemma later_writeKey (uniqueid : ℕ) (hlt : offset / 2 ^ shift < cache.entries.length)
    (hkey : (cache.entryAt shift offset).uniqueid = 0) : Later cache (cache.writeKey shift offset uniqueid) := by
  refine ⟨rfl, by simp [Cache.writeKey], ?_, ?_⟩
  · intro p _
    rw [entry_writeKey hlt]
    split <;> rfl
  · intro p hp
    rw [entry_writeKey hlt, if_neg]
    rintro rfl
    exact hp hkey

lemma later_increment (cache : Cache) : Later cache { cache with n := cache.n + 1 } :=
  ⟨rfl, rfl, fun _ _ => rfl, fun _ _ => rfl⟩

/-- **Nothing that is set is changed**, neither a value nor a key. -/
theorem Adding.step_later (hlaid : cache.Laid shift) (h : a.Ok shift call cache)
    (hstep : (cache', a') = a.step shift cache call) : Later cache cache' := by
  rcases a.step_cases hlaid h hstep with
    ⟨rfl, -⟩ | ⟨offset, rfl, hvalue, rfl, -⟩ | ⟨offset, rfl, rfl, -⟩ | ⟨offset, rfl, rfl, -⟩
  · exact Later.refl _
  · exact later_writeValue _ (Reached.eq_pos h hlaid).1 hvalue
  · exact later_increment _
  · exact later_writeKey _ (h.1.eq_pos hlaid).1 (by rw [h.2])

/-! ## The invariant is kept -/

variable [DecidableEq ι] {calls : ι → AddCall} {s : Threads ι Cache Adding} {i : ι}

lemma Owner.moved {p : ℕ} {j : ι} (h : Owner shift calls s p j) (hij : j ≠ i)
    (hentry : cache'.entry p = s.shared.entry p) : Owner shift calls (s.moved i cache' a') p j := by
  unfold Owner
  rw [moved_shared, moved_ne hij, hentry]
  exact h

namespace AddersInv

omit [DecidableEq ι] in
lemma start (shift bits : ℕ) (calls : ι → AddCall) : AddersInv shift bits calls (addersStart ι shift bits) := by
  have hzero : ∀ p, (addersStart ι shift bits).shared.entry p = ⟨0, 0⟩ := by
    intro p
    unfold addersStart Cache.uncut Cache.entry
    simp only [List.getD_eq_getElem?_getD, List.getElem?_replicate]
    split <;> rfl
  refine ⟨⟨bits, by simp [addersStart, Cache.uncut], rfl⟩, by simp [addersStart, Cache.uncut], ?_, ?_, ?_, ?_⟩
  · intro p hp
    rw [hzero] at hp
    exact absurd rfl hp
  · intro i
    trivial
  · rintro i j offset (h | h) _ <;> cases h
  · intro p _ hp
    rw [hzero] at hp
    exact absurd rfl hp

lemma ok_moved (h : AddersInv shift bits calls s) (hlater : Later s.shared cache') (ha : a'.Ok shift (calls i) cache')
    (hown : ∀ j ≠ i, ∀ offset, (s.thread j).Inserting offset →
      cache'.entryAt shift offset = s.shared.entryAt shift offset) (j : ι) :
    ((s.moved i cache' a').thread j).Ok shift (calls j) cache' := by
  by_cases hij : j = i
  · subst hij
    rwa [moved_self]
  · rw [moved_ne hij]
    exact (h.ok j).later hlater (hown j hij)

lemma alone_moved (h : AddersInv shift bits calls s)
    (hown : ∀ offset, a'.Inserting offset → ∀ j ≠ i, ¬ (s.thread j).Inserting offset) (j k : ι) (offset : ℕ)
    (hj : ((s.moved i cache' a').thread j).Inserting offset)
    (hk : ((s.moved i cache' a').thread k).Inserting offset) : j = k := by
  by_cases hji : j = i <;> by_cases hki : k = i
  · rw [hji, hki]
  · subst hji
    rw [moved_self] at hj
    rw [moved_ne hki] at hk
    exact absurd hk (hown offset hj k hki)
  · subst hki
    rw [moved_self] at hk
    rw [moved_ne hji] at hj
    exact absurd hj (hown offset hk j hji)
  · rw [moved_ne hji] at hj
    rw [moved_ne hki] at hk
    exact h.alone j k offset hj hk

omit [DecidableEq ι] in
lemma inserting (h : AddersInv shift bits calls s) {j : ι} (hj : (s.thread j).Inserting offset) :
    Reached shift s.shared (calls j).uniqueid offset ∧ s.shared.entryAt shift offset = ⟨0, (calls j).pointer⟩ := by
  have hok := h.ok j
  rcases hj with hj | hj
  · rw [hj] at hok
    exact hok
  · rw [hj] at hok
    exact hok

lemma onlyReads (h : AddersInv shift bits calls s) (hreads : OnlyReads shift (calls i) s.shared (s.thread i) a') :
    AddersInv shift bits calls (s.moved i s.shared a') := by
  obtain ⟨hok, -, hafter, hbefore, hdone⟩ := hreads
  refine ⟨h.laid, h.length_eq, h.keyed, h.ok_moved (Later.refl _) hok fun _ _ _ _ => rfl,
    h.alone_moved fun offset hoffset => absurd hoffset (hafter offset), ?_⟩
  · intro p hp hvalue
    obtain ⟨j, hj⟩ := h.owned p hp hvalue
    by_cases hji : j = i
    · -- it owns the entry, so it is done and stays so
      subst hji
      obtain ⟨hpointer, ⟨-, hinserting⟩ | ⟨hkey, hdone'⟩⟩ := hj
      · exact absurd hinserting (hbefore _)
      · exact ⟨j, hpointer, Or.inr ⟨hkey, by rw [moved_self, hdone _ hdone', hdone']⟩⟩
    · exact ⟨j, hj.moved hji rfl⟩

/-- The compare and swap of a value. -/
lemma writeValue (h : AddersInv shift bits calls s) (hi : s.thread i = .swap offset)
    (hvalue : (s.shared.entryAt shift offset).value = 0) :
    AddersInv shift bits calls (s.moved i (s.shared.writeValue shift offset (calls i).pointer) (.increment offset)) := by
  have hreached : Reached shift s.shared (calls i).uniqueid offset := by
    have := h.ok i
    rwa [hi] at this
  obtain ⟨hlt, hoffset⟩ := hreached.eq_pos h.laid
  have hlater := later_writeValue (calls i).pointer hlt hvalue
  have hzero : s.shared.entry (offset / 2 ^ shift) = ⟨0, 0⟩ := by
    have hkey : (s.shared.entry (offset / 2 ^ shift)).uniqueid = 0 := by
      by_contra hkey
      exact h.keyed _ hkey hvalue
    exact CacheEntry.ext hkey hvalue
  -- an entry that is being inserted has a value
  have hother : ∀ j, ∀ offset', (s.thread j).Inserting offset' → offset' / 2 ^ shift ≠ offset / 2 ^ shift := by
    intro j offset' hj hpos
    have hentry := (h.inserting hj).2
    rw [entryAt_eq, hpos, hzero] at hentry
    exact (calls j).pointer_ne (congrArg CacheEntry.value hentry).symm
  have hnew : (s.shared.writeValue shift offset (calls i).pointer).entry (offset / 2 ^ shift) = ⟨0, (calls i).pointer⟩ := by
    rw [entry_writeValue hlt, if_pos rfl, hzero]
  refine ⟨hlater.laid h.laid, by rw [moved_shared, hlater.length_eq, h.length_eq], ?_, ?_, ?_, ?_⟩
  · intro p hp
    rw [moved_shared, entry_writeValue hlt] at hp ⊢
    split
    · exact (calls i).pointer_ne
    · rename_i hne
      rw [if_neg hne] at hp
      exact h.keyed p hp
  · refine h.ok_moved hlater ⟨hreached.later hlater, hnew⟩ ?_
    intro j _ offset' hj
    rw [moved_shared, entryAt_eq, entryAt_eq, entry_writeValue hlt, if_neg (hother j offset' hj)]
  · refine h.alone_moved ?_
    rintro offset' (heq | heq) j - hj
    · cases heq
      exact hother j offset hj rfl
    · cases heq
  · intro p hp hvalue'
    rw [moved_shared] at hp hvalue'
    rw [hlater.length_eq] at hp
    by_cases hpos : p = offset / 2 ^ shift
    · subst hpos
      refine ⟨i, ?_, Or.inl ⟨?_, ?_⟩⟩
      · rw [moved_shared, hnew]
      · rw [moved_shared, hnew]
      · rw [moved_self, ← hoffset]
        exact Or.inl rfl
    · rw [entry_writeValue hlt, if_neg hpos] at hvalue'
      obtain ⟨j, hj⟩ := h.owned p hp hvalue'
      have hji : j ≠ i := by
        rintro rfl
        obtain ⟨-, ⟨-, hj | hj⟩ | ⟨-, hj⟩⟩ := hj <;> rw [hi] at hj <;> cases hj
      exact ⟨j, hj.moved hji (by rw [entry_writeValue hlt, if_neg hpos])⟩

/-- The increment of the count. -/
lemma increment (h : AddersInv shift bits calls s) (hi : s.thread i = .increment offset) :
    AddersInv shift bits calls (s.moved i { s.shared with n := s.shared.n + 1 } (.writeKey offset)) := by
  have hinserting : (s.thread i).Inserting offset := Or.inl hi
  refine ⟨h.laid, h.length_eq, h.keyed, h.ok_moved (later_increment _) (h.inserting hinserting) fun _ _ _ _ => rfl, ?_, ?_⟩
  · refine h.alone_moved ?_
    rintro offset' (heq | heq) j hji hj
    · cases heq
    · cases heq
      exact hji (h.alone j i offset hj hinserting)
  · intro p hp hvalue
    obtain ⟨j, hj⟩ := h.owned p hp hvalue
    by_cases hji : j = i
    · subst hji
      obtain ⟨hpointer, ⟨hkey, hown⟩ | ⟨-, hdone⟩⟩ := hj
      · refine ⟨j, hpointer, Or.inl ⟨hkey, ?_⟩⟩
        rw [hi] at hown
        rw [moved_self]
        rcases hown with heq | heq
        · cases heq
          exact Or.inr rfl
        · cases heq
      · rw [hi] at hdone
        cases hdone
    · exact ⟨j, hj.moved hji rfl⟩

/-- The write of a key. -/
lemma writeKey (h : AddersInv shift bits calls s) (hi : s.thread i = .writeKey offset) :
    AddersInv shift bits calls
      (s.moved i (s.shared.writeKey shift offset (calls i).uniqueid) (.done (some offset))) := by
  have hinserting : (s.thread i).Inserting offset := Or.inr hi
  obtain ⟨hreached, hentry⟩ := h.inserting hinserting
  obtain ⟨hlt, hoffset⟩ := hreached.eq_pos h.laid
  have hlater := later_writeKey (calls i).uniqueid hlt (by rw [hentry])
  have hnew : (s.shared.writeKey shift offset (calls i).uniqueid).entry (offset / 2 ^ shift) =
      ⟨(calls i).uniqueid, (calls i).pointer⟩ := by
    rw [entry_writeKey hlt, if_pos rfl, ← entryAt_eq, hentry]
  refine ⟨hlater.laid h.laid, by rw [moved_shared, hlater.length_eq, h.length_eq], ?_, ?_, ?_, ?_⟩
  · intro p hp
    rw [moved_shared] at hp ⊢
    by_cases hpos : p = offset / 2 ^ shift
    · subst hpos
      rw [hnew]
      exact (calls i).pointer_ne
    · rw [entry_writeKey hlt, if_neg hpos] at hp ⊢
      exact h.keyed p hp
  · refine h.ok_moved hlater ⟨hreached.later hlater, ?_⟩ ?_
    · rw [moved_shared, entryAt_eq, hnew]
    · intro j hji offset' hj
      -- another call is in the middle of another entry
      have hne : offset' / 2 ^ shift ≠ offset / 2 ^ shift := by
        intro hpos
        have hoffset' := ((h.inserting hj).1.eq_pos h.laid).2
        rw [hpos, ← hoffset] at hoffset'
        subst hoffset'
        exact hji (h.alone j i offset' hj hinserting)
      rw [moved_shared, entryAt_eq, entryAt_eq, entry_writeKey hlt, if_neg hne]
  · refine h.alone_moved ?_
    rintro offset' (heq | heq) <;> cases heq
  · intro p hp hvalue
    rw [moved_shared] at hp hvalue
    rw [hlater.length_eq] at hp
    by_cases hpos : p = offset / 2 ^ shift
    · subst hpos
      refine ⟨i, ?_, Or.inr ⟨?_, ?_⟩⟩
      · rw [moved_shared, hnew]
      · rw [moved_shared, hnew]
      · rw [moved_self, ← hoffset]
    · rw [entry_writeKey hlt, if_neg hpos] at hvalue
      obtain ⟨j, hj⟩ := h.owned p hp hvalue
      have hji : j ≠ i := by
        rintro rfl
        obtain ⟨-, ⟨-, hj⟩ | ⟨-, hj⟩⟩ := hj
        · rw [hi] at hj
          rcases hj with heq | heq <;> cases heq
          exact hpos (Nat.mul_div_cancel _ (Nat.two_pow_pos shift)).symm
        · rw [hi] at hj
          cases hj
      exact ⟨j, hj.moved hji (by rw [entry_writeKey hlt, if_neg hpos])⟩

/-- **Every access keeps the invariant.** -/
theorem step (h : AddersInv shift bits calls s) (hact : addersAct shift calls i s.shared (s.thread i) cache' a') :
    AddersInv shift bits calls (s.moved i cache' a') := by
  rcases (s.thread i).step_cases h.laid (h.ok i) hact with
    ⟨rfl, hreads⟩ | ⟨offset, hi, hvalue, rfl, rfl⟩ | ⟨offset, hi, rfl, rfl⟩ | ⟨offset, hi, rfl, rfl⟩
  · exact h.onlyReads hreads
  · exact h.writeValue hi hvalue
  · exact h.increment hi
  · exact h.writeKey hi

end AddersInv

/-- The states that any interleaving of the calls' accesses leads to. -/
def AddersReachable (shift bits : ℕ) (calls : ι → AddCall) (s : Threads ι Cache Adding) : Prop :=
  Threads.Reachable (addersAct shift calls) (addersStart ι shift bits) s

theorem AddersReachable.inv (h : AddersReachable shift bits calls s) : AddersInv shift bits calls s :=
  Threads.Reachable.invariant h (AddersInv.start shift bits calls) fun _ _ _ _ hinv hact => hinv.step hact

/-! ## What is found -/

/-- A call that has begun has supplied the value for the id. -/
def Supplied (calls : ι → AddCall) (s : Threads ι Cache Adding) (uniqueid value : ℕ) : Prop :=
  ∃ i, (calls i).uniqueid = uniqueid ∧ (calls i).pointer = value ∧ s.thread i ≠ .ready

namespace AddersInv

omit [DecidableEq ι] in
lemma supplied (h : AddersInv shift bits calls s) {p : ℕ} (hkey : (s.shared.entry p).uniqueid ≠ 0) :
    Supplied calls s (s.shared.entry p).uniqueid (s.shared.entry p).value := by
  have hvalue := h.keyed p hkey
  have hp : p < s.shared.entries.length := by
    by_contra hp
    unfold Cache.entry at hkey
    rw [List.getD_eq_default _ _ (by omega)] at hkey
    exact hkey rfl
  obtain ⟨i, hpointer, ⟨hzero, -⟩ | ⟨hid, hdone⟩⟩ := h.owned p hp hvalue
  · exact absurd hzero hkey
  · exact ⟨i, hid.symm, hpointer, by rw [hdone]; simp⟩

omit [DecidableEq ι] in
lemma isKeyed (h : AddersInv shift bits calls s) : s.shared.Keyed := by
  intro e he hkey
  obtain ⟨p, hp, rfl⟩ := List.mem_iff_getElem.1 he
  have hentry : s.shared.entry p = s.shared.entries[p] := List.getD_eq_getElem _ _ hp
  rw [← hentry] at hkey ⊢
  exact h.keyed p hkey

omit [DecidableEq ι] in
/-- When no call is in the middle of an entry, the entry a call has returned is in reach of every probe. -/
lemma found (h : AddersInv shift bits calls s)
    (hfinished : ∀ j, s.thread j = .ready ∨ ∃ entry, s.thread j = .done entry) (hdone : s.thread i = .done (some offset))
    (probe : Probe) (hfuel : 2 ^ bits ≤ fuel) :
    ∃ value, probe.read shift fuel s.shared (calls i).uniqueid = some (some value) := by
  have hlen : 0 < s.shared.entries.length := h.laid.length_pos
  obtain ⟨⟨d, rfl, hvalues⟩, hkey⟩ : Reached shift s.shared (calls i).uniqueid offset ∧
      (s.shared.entryAt shift offset).uniqueid = (calls i).uniqueid := by
    have := h.ok i
    rwa [hdone] at this
  rw [entryAt_pos] at hkey
  -- a value without a key would be one that is being inserted
  have hkeys : ∀ p < s.shared.entries.length, (s.shared.entry p).value ≠ 0 → (s.shared.entry p).uniqueid ≠ 0 := by
    intro p hp hvalue hzero
    obtain ⟨j, -, ⟨-, hj⟩ | ⟨hid, -⟩⟩ := h.owned p hp hvalue
    · rcases hfinished j with hready | ⟨entry, hentry⟩
      · rw [hready] at hj
        rcases hj with heq | heq <;> cases heq
      · rw [hentry] at hj
        rcases hj with heq | heq <;> cases heq
    · exact (calls j).uniqueid_ne (by rw [← hid, hzero])
  -- the first entry with the id is less than once around
  have hexists : ∃ j, (s.shared.entryFrom shift (calls i).uniqueid j).uniqueid = (calls i).uniqueid := ⟨d, hkey⟩
  have hround : (s.shared.entryFrom shift (calls i).uniqueid (d % s.shared.entries.length)).uniqueid =
      (calls i).uniqueid := by
    rw [entryFrom_eq, Nat.add_mod_mod, ← entryFrom_eq]
    exact hkey
  have hmin : Nat.find hexists ≤ d % s.shared.entries.length := Nat.find_min' hexists hround
  have hlt := Nat.mod_lt d hlen
  have hle := Nat.mod_le d s.shared.entries.length
  refine ⟨(s.shared.entryFrom shift (calls i).uniqueid (Nat.find hexists)).value, ?_⟩
  rw [probe.read_eq_some h.laid h.isKeyed (calls i).uniqueid_ne]
  refine ⟨Nat.find hexists, ⟨?_, ?_, Or.inl (Nat.find_spec hexists)⟩, by rw [if_pos (Nat.find_spec hexists)]⟩
  · have := h.length_eq
    omega
  · intro j hj
    refine ⟨Nat.find_min hexists hj, ?_⟩
    have hvalue := hvalues j (by omega)
    have hkey' : (s.shared.entryFrom shift (calls i).uniqueid j).uniqueid ≠ 0 := by
      rw [entryFrom_eq] at hvalue ⊢
      exact hkeys _ (Nat.mod_lt _ hlen) hvalue
    cases probe <;> simpa [Probe.free, CacheEntry.hasNoValue, CacheEntry.hasNoKey]

end AddersInv

/-- **Threads that add to one cache do not disturb each other**: what is set stays, every key has a value of one of its
own adders, probes and adders find such a value or none, and when all calls have returned every added id is found. -/
theorem adders_safe (h : AddersReachable shift bits calls s) :
    (∀ s', Threads.Reachable (addersAct shift calls) s s' → Later s.shared s'.shared) ∧
    (∀ e ∈ s.shared.entries, e.uniqueid ≠ 0 → Supplied calls s e.uniqueid e.value) ∧
    (∀ uniqueid ≠ 0, ∀ (probe : Probe) (fuel value : ℕ),
      probe.read shift fuel s.shared uniqueid = some (some value) → Supplied calls s uniqueid value) ∧
    (∀ i offset, s.thread i = .done (some offset) →
      Supplied calls s (calls i).uniqueid (s.shared.entryAt shift offset).value) ∧
    ((∀ i, s.thread i = .ready ∨ ∃ entry, s.thread i = .done entry) →
      ∀ i offset, s.thread i = .done (some offset) → ∀ (probe : Probe), ∀ fuel ≥ 2 ^ bits,
        ∃ value, probe.read shift fuel s.shared (calls i).uniqueid = some (some value)) := by
  have hinv := h.inv
  refine ⟨?_, ?_, ?_, ?_, ?_⟩
  · intro s' hs'
    induction hs' with
    | start => exact Later.refl _
    | step hreach hstep ih =>
      obtain ⟨i, cache', a', hact, rfl⟩ := hstep
      have hbefore := AddersReachable.inv (Threads.Reachable.trans h hreach)
      exact ih.trans (Adding.step_later hbefore.laid (hbefore.ok i) hact)
  · intro e he hkey
    obtain ⟨p, hp, rfl⟩ := List.mem_iff_getElem.1 he
    have hentry : s.shared.entry p = s.shared.entries[p] := List.getD_eq_getElem _ _ hp
    rw [← hentry] at hkey ⊢
    exact hinv.supplied hkey
  · intro uniqueid hid probe fuel value hread
    rw [probe.read_eq_some hinv.laid hinv.isKeyed hid] at hread
    obtain ⟨d, -, hd⟩ := hread
    split at hd
    · rename_i hkey
      cases hd
      have := hinv.supplied (p := (uniqueid / 2 ^ shift + d) % s.shared.entries.length) (by
        rw [← entryFrom_eq, hkey]
        exact hid)
      rwa [← entryFrom_eq, hkey] at this
    · cases hd
  · intro i offset hdone
    have hok := hinv.ok i
    rw [hdone] at hok
    have hkey := hok.2
    rw [entryAt_eq] at hkey ⊢
    rw [← hkey]
    exact hinv.supplied (by rw [hkey]; exact (calls i).uniqueid_ne)
  · intro hfinished i offset hdone probe fuel hfuel
    exact hinv.found hfinished hdone probe hfuel

/-- Two calls with one id. -/
def sampleCalls (first : Bool) : AddCall := ⟨if first then 7 else 9, 16, by cases first <;> decide, by decide⟩

/-- The second call has come while the first had not written its key yet, so that the id has two entries. -/
def sampleThreads : Threads Bool Cache Adding :=
  ⟨⟨2, 4, 48, [⟨0, 0⟩, ⟨16, 7⟩, ⟨16, 9⟩, ⟨0, 0⟩]⟩, fun first => .done (some (if first then 16 else 32))⟩

lemma sampleThreads_reachable : AddersReachable 4 2 sampleCalls sampleThreads := by
  have hvalue : Solo (addersAct 4 sampleCalls true) (Cache.uncut 4 (2 ^ 2)) .ready
      ⟨0, 4, 48, [⟨0, 0⟩, ⟨0, 7⟩, ⟨0, 0⟩, ⟨0, 0⟩]⟩ (.increment 16) :=
    .step rfl (.step rfl (.step rfl (.step rfl (.refl _ _))))
  have hother : Solo (addersAct 4 sampleCalls false) ⟨0, 4, 48, [⟨0, 0⟩, ⟨0, 7⟩, ⟨0, 0⟩, ⟨0, 0⟩]⟩ .ready
      ⟨1, 4, 48, [⟨0, 0⟩, ⟨0, 7⟩, ⟨16, 9⟩, ⟨0, 0⟩]⟩ (.done (some 32)) :=
    .step rfl (.step rfl (.step rfl (.step rfl (.step rfl (.step rfl (.step rfl (.step rfl (.refl _ _))))))))
  have hkey : Solo (addersAct 4 sampleCalls true) ⟨1, 4, 48, [⟨0, 0⟩, ⟨0, 7⟩, ⟨16, 9⟩, ⟨0, 0⟩]⟩ (.increment 16)
      ⟨2, 4, 48, [⟨0, 0⟩, ⟨16, 7⟩, ⟨16, 9⟩, ⟨0, 0⟩]⟩ (.done (some 16)) :=
    .step rfl (.step rfl (.refl _ _))
  have h₀ : Threads.Reachable (addersAct 4 sampleCalls) (addersStart Bool 4 2) _ := .start
  have h₁ := h₀.solo hvalue
  have h₂ := h₁.solo hother
  have h₃ := h₂.solo hkey
  have hreach : ∀ s, AddersReachable 4 2 sampleCalls s → s.shared = sampleThreads.shared →
      s.thread = sampleThreads.thread → AddersReachable 4 2 sampleCalls sampleThreads := by
    intro s h hshared hthread
    obtain rfl := Threads.ext hshared hthread
    exact h
  exact hreach _ h₃ rfl (funext fun first => by cases first <;> rfl)

theorem adders_safe_sample : Supplied sampleCalls sampleThreads 16 9 ∧
    ∃ value, Probe.impcachepivot.read 4 4 sampleThreads.shared 16 = some (some value) := by
  have h := adders_safe sampleThreads_reachable
  refine ⟨h.2.1 ⟨16, 9⟩ (by decide) (by decide), ?_⟩
  exact h.2.2.2.2 (fun i => Or.inr ⟨_, rfl⟩) true 16 rfl .impcachepivot 4 (by decide)

end MulleObjcRuntime.Impcache
