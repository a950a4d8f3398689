import Mathlib.Data.Finset.Basic
import Mathlib.Data.Fintype.EquivFin
import Mathlib.Data.List.Perm.Basic

/-!
# The walk over a hash map that is changed meanwhile

* `Entry`, `Enumeration` — what a hash map has, and what an enumeration of it lists until it ends or is interrupted;
* `walkHashmap` — the walk, which enumerates again after an interruption and skips what it has been at;
* `Enumerated`, `Once` — enumerations of entries that stay, and callbacks that get each entry once;
* `Resumable`, `once_iff` — when that is so, whatever the callback does and is left to chance;
* `resumable_of_sameOrder` — it is so in an order that stays if the interruptions come one behind the other.
-/

namespace MulleObjcRuntime.Hashmap

/-- `mulle_objc_walkcommand_t` -/
inductive Walkcommand
  | error
  | ok
  | dontDescend
  | done
  | cancel
deriving DecidableEq, Repr

/-- `mulle_objc_walkcommand_is_stopper` -/
def Walkcommand.isStopper : Walkcommand → Bool
  | error | done | cancel => true
  | ok | dontDescend => false

/-- What is in a hash map.  An item is the address of something, a hash map has no `NULL` items. -/
structure Entry where
  hash : ℕ
  item : ℕ
deriving DecidableEq, Repr

/-- What `mulle_concurrent_hashmap_for_rval` lists, and whether it ends with `EBUSY`, which leaves `item` as it is. -/
structure Enumeration where
  listed : List Entry
  busy : Bool

/-- The variables of the walk, of which `none` is `NULL`, and the entries that the callback got. -/
structure Walk where
  cmd : Walkcommand
  skip : Option ℕ
  item : Option ℕ
  called : List Entry
deriving DecidableEq, Repr

/-! ## The walk -/

section Defs

variable {υ : Type} (callback : List ℕ → ℕ → Walkcommand)

/-- The body of the loop for the entries listed, and whether it was left with `break`.  The callback decides by the
items that it got before. -/
def walkListed : Walk → List Entry → Walk × Bool
  | w, [] => (w, false)
  | w, e :: listed =>
    match w.skip with
    | some skip => walkListed ⟨w.cmd, if e.item = skip then none else some skip, some e.item, w.called⟩ listed
    | none =>
      let cmd := callback (w.called.map (·.item)) e.item
      if cmd.isStopper then (⟨cmd, none, some e.item, w.called ++ [e]⟩, true)
      else walkListed ⟨cmd, none, some e.item, w.called ++ [e]⟩ listed

/-- One enumeration after the other.  Of interrupted ones alone the walk does not return. -/
def walkEnumerations : Walk → List Enumeration → Option Walk
  | _, [] => none
  | w, enumeration :: enumerations =>
    let (w, stopped) := walkListed callback w enumeration.listed
    if ¬ stopped ∧ enumeration.busy then walkEnumerations ⟨w.cmd, w.item, w.item, w.called⟩ enumerations else some w

/-- `_mulle_objc_universe_walk_hashmap`, with the entries that the callback got.  What is in `item` before anything is
listed is left to chance. -/
def walkHashmap (universe' : Option υ) (enumerations : List Enumeration)
    (callback : Option (υ → List ℕ → ℕ → Walkcommand)) (chance : Option ℕ) : Option (Walkcommand × List Entry) :=
  match universe', callback with
  | some universe', some callback =>
    (walkEnumerations (callback universe') ⟨.done, none, chance, []⟩ enumerations).map fun w => (w.cmd, w.called)
  | _, _ => some (.error, [])

end Defs

/-! ## What a walk is for -/

/-- Interrupted enumerations and one that is not, of entries that stay but for their order. -/
structure Enumerated (content : List Entry) (interrupted : List (List Entry)) (last : List Entry) : Prop where
  hashes : (content.map (·.hash)).Nodup
  interrupted : ∀ listed ∈ interrupted, ∃ rest, (listed ++ rest).Perm content
  last : last.Perm content

/-- The enumerations that list these entries -/
def enumerations (interrupted : List (List Entry)) (last : List Entry) : List Enumeration :=
  interrupted.map (⟨·, true⟩) ++ [⟨last, false⟩]

/-- The callback stopped the walk when it got the last one of these. -/
def Stopped (callback : List ℕ → ℕ → Walkcommand) (called : List Entry) : Prop :=
  ∃ before e, called = before ++ [e] ∧ (callback (before.map (·.item)) e.item).isStopper = true

/-- The walk returns, and unless the callback stopped it, the callback got each entry once. -/
def Once {υ : Type} (u : υ) (content : List Entry) (es : List Enumeration)
    (callback : υ → List ℕ → ℕ → Walkcommand) (chance : Option ℕ) : Prop :=
  ∃ cmd called, walkHashmap (some u) es (some callback) chance = some (cmd, called) ∧
    (Stopped (callback u) called ∨ called.Perm content)

/-! ## What comes behind -/

/-- What is listed behind an item, everything for `NULL` -/
def behind : Option ℕ → List Entry → List Entry
  | none, listed => listed
  | some item, listed => (listed.dropWhile fun e => e.item ≠ item).tail

/-- The item listed last, or the one before if nothing is listed -/
def lastItem (item : Option ℕ) (listed : List Entry) : Option ℕ := (listed.getLast?.map (·.item)).or item

/-- What each of the enumerations lists behind the item that was listed last before it -/
def parts : Option ℕ → Option ℕ → List (List Entry) → List (List Entry)
  | _, _, [] => []
  | skip, item, listed :: rest => behind skip listed :: parts (lastItem item listed) (lastItem item listed) rest

/-- The first enumeration is not interrupted before it lists something, and each entry comes behind the item that was
listed last before in exactly one of the enumerations. -/
def Resumable (content : List Entry) (interrupted : List (List Entry)) (last : List Entry) : Prop :=
  (interrupted.head? = some [] → content = []) ∧
    ∀ e ∈ content, (parts none none (interrupted ++ [last])).countP (e ∈ ·) = 1

section Behind

variable {skip item item' : Option ℕ} {e : Entry} {listed : List Entry} {rest : List (List Entry)} {i : ℕ}

@[simp] lemma behind_nil : behind skip [] = [] := by
  cases skip <;> rfl

lemma behind_some : behind (some i) listed = (listed.dropWhile fun e => e.item ≠ i).tail := rfl

lemma behind_cons_self : behind (some e.item) (e :: listed) = listed := by
  rw [behind_some, List.dropWhile_cons_of_neg (by simp), List.tail_cons]

lemma behind_cons_of_ne (h : e.item ≠ i) : behind (some i) (e :: listed) = behind (some i) listed := by
  rw [behind_some, List.dropWhile_cons_of_pos (by simpa using h), behind_some]

lemma behind_sublist : (behind skip listed).Sublist listed := by
  cases skip with
  | none => exact List.Sublist.refl listed
  | some i => exact (List.tail_sublist _).trans (List.dropWhile_sublist _)

lemma behind_of_not_mem (h : i ∉ listed.map (·.item)) : behind (some i) listed = [] := by
  induction listed with
  | nil => rfl
  | cons e listed ih =>
    rw [List.map_cons] at h
    rw [behind_cons_of_ne (List.ne_of_not_mem_cons h).symm, ih (List.not_mem_of_not_mem_cons h)]

@[simp] lemma lastItem_nil : lastItem item [] = item := rfl

lemma lastItem_cons : lastItem item (e :: listed) = lastItem (some e.item) listed := by
  unfold lastItem
  rw [List.getLast?_cons]
  cases listed.getLast? <;> rfl

lemma lastItem_of_ne_nil (h : listed ≠ []) : lastItem item listed = lastItem item' listed := by
  cases listed with
  | nil => exact absurd rfl h
  | cons e listed => rw [lastItem_cons, lastItem_cons]

end Behind

/-! ## What the callback gets -/

section Calls

variable (callback : List ℕ → ℕ → Walkcommand)

/-- **An enumeration, unless the callback stops the walk, is gone through from behind the item to skip to its end.** -/
lemma walkListed_spec (w : Walk) (listed : List Entry) :
    ∃ w', (walkListed callback w listed = (w', true) ∧ Stopped callback w'.called) ∨
      (walkListed callback w listed = (w', false) ∧ w'.called = w.called ++ behind w.skip listed ∧
        w'.item = lastItem w.item listed) := by
  induction listed generalizing w with
  | nil =>
    refine ⟨w, Or.inr ⟨rfl, ?_, rfl⟩⟩
    rw [behind_nil, List.append_nil]
  | cons e listed ih =>
    obtain ⟨cmd, skip, item, called⟩ := w
    rw [lastItem_cons]
    cases skip with
    | some i =>
      obtain ⟨w', h⟩ := ih ⟨cmd, if e.item = i then none else some i, some e.item, called⟩
      have hbehind : behind (if e.item = i then none else some i) listed = behind (some i) (e :: listed) := by
        split
        · rename_i hitem
          subst hitem
          exact behind_cons_self.symm
        · rename_i hitem
          exact (behind_cons_of_ne hitem).symm
      rw [hbehind] at h
      exact ⟨w', h⟩
    | none =>
      by_cases hstop : (callback (called.map (·.item)) e.item).isStopper
      · refine ⟨⟨callback (called.map (·.item)) e.item, none, some e.item, called ++ [e]⟩, Or.inl ⟨?_, called, e, rfl, hstop⟩⟩
        rw [walkListed]
        exact if_pos hstop
      · obtain ⟨w', h⟩ := ih ⟨callback (called.map (·.item)) e.item, none, some e.item, called ++ [e]⟩
        have hwalk : walkListed callback ⟨cmd, none, item, called⟩ (e :: listed) =
            walkListed callback ⟨callback (called.map (·.item)) e.item, none, some e.item, called ++ [e]⟩ listed := by
          rw [walkListed]
          exact if_neg hstop
        rw [List.append_assoc] at h
        rw [hwalk]
        exact ⟨w', h⟩

/-- **The walk returns, and unless the callback stops it, each enumeration is gone through from behind the item that
was listed last before.** -/
lemma walkEnumerations_spec (w : Walk) (interrupted : List (List Entry)) (last : List Entry) :
    ∃ w', walkEnumerations callback w (enumerations interrupted last) = some w' ∧
      (Stopped callback w'.called ∨
        w'.called = w.called ++ (parts w.skip w.item (interrupted ++ [last])).flatten) := by
  induction interrupted generalizing w with
  | nil =>
    obtain ⟨w', ⟨hwalk, hstopped⟩ | ⟨hwalk, hcalled, -⟩⟩ := walkListed_spec callback w last
    · refine ⟨w', ?_, Or.inl hstopped⟩
      show walkEnumerations callback w [⟨last, false⟩] = _
      rw [walkEnumerations, hwalk]
      rfl
    · refine ⟨w', ?_, Or.inr ?_⟩
      · show walkEnumerations callback w [⟨last, false⟩] = _
        rw [walkEnumerations, hwalk]
        rfl
      · rw [hcalled, List.nil_append, parts, parts, List.flatten_singleton]
  | cons listed interrupted ih =>
    have hcons : enumerations (listed :: interrupted) last = ⟨listed, true⟩ :: enumerations interrupted last := rfl
    rw [hcons, walkEnumerations]
    obtain ⟨w', ⟨hwalk, hstopped⟩ | ⟨hwalk, hcalled, hitem⟩⟩ := walkListed_spec callback w listed
    · refine ⟨w', ?_, Or.inl hstopped⟩
      rw [hwalk]
      rfl
    · obtain ⟨w'', hrest, hresult⟩ := ih ⟨w'.cmd, w'.item, w'.item, w'.called⟩
      refine ⟨w'', ?_, ?_⟩
      · rw [hwalk]
        exact hrest
      · rw [hcalled, hitem, List.append_assoc] at hresult
        exact hresult

end Calls

section Walked

variable {υ : Type} {u : υ} {content last : List Entry} {interrupted : List (List Entry)} {chance : Option ℕ}

lemma once_iff_perm (callback : υ → List ℕ → ℕ → Walkcommand) (hgoes : ∀ called, ¬ Stopped (callback u) called) :
    Once u content (enumerations interrupted last) callback chance ↔
      (parts none chance (interrupted ++ [last])).flatten.Perm content := by
  obtain ⟨w, hwalk, hcalled⟩ := walkEnumerations_spec (callback u) ⟨.done, none, chance, []⟩ interrupted last
  have hcalled : w.called = (parts none chance (interrupted ++ [last])).flatten := hcalled.resolve_left (hgoes _)
  unfold Once walkHashmap
  simp only [hwalk, Option.map_some, Option.some.injEq, Prod.mk.injEq]
  constructor
  · rintro ⟨cmd, called, ⟨-, rfl⟩, hstopped | hperm⟩
    · exact absurd hstopped (hgoes _)
    · rwa [hcalled] at hperm
  · intro hperm
    rw [← hcalled] at hperm
    exact ⟨_, _, ⟨rfl, rfl⟩, Or.inr hperm⟩

lemma once_of_perm (callback : υ → List ℕ → ℕ → Walkcommand)
    (h : (parts none chance (interrupted ++ [last])).flatten.Perm content) :
    Once u content (enumerations interrupted last) callback chance := by
  obtain ⟨w, hwalk, hcalled⟩ := walkEnumerations_spec (callback u) ⟨.done, none, chance, []⟩ interrupted last
  refine ⟨w.cmd, w.called, ?_, hcalled.imp_right fun hcalled => ?_⟩
  · simp only [walkHashmap, hwalk, Option.map_some]
  · rw [hcalled]
    exact h

end Walked

/-! ## When each entry is got once -/

section Parts

variable {skip item : Option ℕ}

lemma parts_of_head_ne_nil {listed : List Entry} {rest : List (List Entry)} (h : listed ≠ []) :
    parts skip item (listed :: rest) = parts skip none (listed :: rest) := by
  rw [parts, parts, lastItem_of_ne_nil h]

lemma mem_of_mem_parts {lists : List (List Entry)} :
    ∀ part ∈ parts skip item lists, ∃ listed ∈ lists, part.Sublist listed := by
  induction lists generalizing skip item with
  | nil => exact fun part hpart => absurd hpart List.not_mem_nil
  | cons listed lists ih =>
    intro part hpart
    rcases List.mem_cons.mp hpart with rfl | hpart
    · exact ⟨listed, List.mem_cons_self, behind_sublist⟩
    · obtain ⟨listed', hlisted', hsub⟩ := ih part hpart
      exact ⟨listed', List.mem_cons_of_mem _ hlisted', hsub⟩

lemma count_flatten_eq_countP {lists : List (List Entry)} (h : ∀ list ∈ lists, list.Nodup) (e : Entry) :
    lists.flatten.count e = lists.countP (e ∈ ·) := by
  induction lists with
  | nil => rfl
  | cons list lists ih =>
    obtain ⟨hlist, hlists⟩ := List.forall_mem_cons.mp h
    rw [List.flatten_cons, List.count_append, List.countP_cons, ih hlists, List.Nodup.count hlist]
    simp only [decide_eq_true_eq, Nat.add_comm]

/-- Of an item that is nowhere listed, what is listed first is lost. -/
lemma length_parts_lt {lists : List (List Entry)} {i : ℕ} (hi : ∀ listed ∈ lists, i ∉ listed.map (·.item))
    (h : ∃ listed ∈ lists, listed ≠ []) :
    (parts (some i) (some i) lists).flatten.length < (parts none none lists).flatten.length := by
  induction lists with
  | nil =>
    obtain ⟨listed, hlisted, -⟩ := h
    cases hlisted
  | cons listed lists ih =>
    obtain ⟨hhead, hrest⟩ := List.forall_mem_cons.mp hi
    rw [parts, parts, behind_of_not_mem hhead, List.flatten_cons, List.flatten_cons, List.nil_append]
    cases listed with
    | nil =>
      obtain ⟨listed, hlisted, hne⟩ := h
      rcases List.mem_cons.mp hlisted with rfl | hlisted
      · exact absurd rfl hne
      · exact ih hrest ⟨listed, hlisted, hne⟩
    | cons e listed =>
      rw [lastItem_cons, lastItem_cons, List.length_append]
      exact Nat.lt_add_of_pos_left (Nat.succ_pos _)

end Parts

section Enumerated

variable {content last : List Entry} {interrupted : List (List Entry)}

lemma Enumerated.nodup (h : Enumerated content interrupted last) : content.Nodup := h.hashes.of_map _

lemma Enumerated.sound (h : Enumerated content interrupted last) :
    ∀ listed ∈ interrupted ++ [last], listed.Nodup ∧ listed ⊆ content := by
  intro listed hlisted
  rcases List.mem_append.mp hlisted with hlisted | hlisted
  · obtain ⟨rest, hrest⟩ := h.interrupted listed hlisted
    have hnodup : (listed ++ rest).Nodup := hrest.nodup_iff.mpr h.nodup
    exact ⟨hnodup.of_append_left, fun e he => hrest.subset (List.mem_append_left rest he)⟩
  · rw [List.mem_singleton.mp hlisted]
    exact ⟨h.last.nodup_iff.mpr h.nodup, h.last.subset⟩

lemma Enumerated.parts_sound (h : Enumerated content interrupted last) (chance : Option ℕ) :
    ∀ part ∈ parts none chance (interrupted ++ [last]), part.Nodup ∧ part ⊆ content := by
  intro part hpart
  obtain ⟨listed, hlisted, hsub⟩ := mem_of_mem_parts part hpart
  obtain ⟨hnodup, hcontent⟩ := h.sound listed hlisted
  exact ⟨hsub.nodup hnodup, List.Subset.trans hsub.subset hcontent⟩

lemma Enumerated.count_parts (h : Enumerated content interrupted last) (chance : Option ℕ) (e : Entry) :
    (parts none chance (interrupted ++ [last])).flatten.count e =
      (parts none chance (interrupted ++ [last])).countP (e ∈ ·) :=
  count_flatten_eq_countP (fun part hpart => (h.parts_sound chance part hpart).1) e

/-- If all the entries are got whatever was in `item`, an interrupted enumeration lists one of them before any other. -/
lemma Enumerated.eq_nil_of_head_nil {rest : List (List Entry)} (h : Enumerated content ([] :: rest) last)
    (hperm : ∀ chance, (parts none chance ([] :: rest ++ [last])).flatten.Perm content) : content = [] := by
  by_contra hne
  obtain ⟨i, hi⟩ := Infinite.exists_notMem_finset (content.map (·.item)).toFinset
  have hlast : last ≠ [] := by
    rintro rfl
    exact hne h.last.symm.eq_nil
  have hlt : (parts (some i) (some i) (rest ++ [last])).flatten.length <
      (parts none none (rest ++ [last])).flatten.length := by
    apply length_parts_lt
    · intro listed hlisted hmem
      obtain ⟨e, he, rfl⟩ := List.mem_map.mp hmem
      have he : e ∈ content := (h.sound listed (List.mem_cons_of_mem _ hlisted)).2 he
      exact hi (List.mem_toFinset.mpr (List.mem_map.mpr ⟨e, he, rfl⟩))
    · exact ⟨last, List.mem_append_right _ List.mem_cons_self, hlast⟩
  have hsome := (hperm (some i)).length_eq
  have hnone := (hperm none).length_eq
  rw [List.cons_append, parts, List.flatten_cons, behind_nil, List.nil_append, lastItem_nil] at hsome hnone
  omega

/-- What the item left to chance is, is of no account. -/
lemma Enumerated.flatten_parts (h : Enumerated content interrupted last) (hhead : interrupted.head? = some [] → content = [])
    (chance : Option ℕ) :
    (parts none chance (interrupted ++ [last])).flatten = (parts none none (interrupted ++ [last])).flatten := by
  by_cases hcontent : content = []
  · have hnil (chance : Option ℕ) : (parts none chance (interrupted ++ [last])).flatten = [] := by
      apply List.flatten_eq_nil_iff.mpr
      intro part hpart
      have hsub := (h.parts_sound chance part hpart).2
      rw [hcontent] at hsub
      exact List.eq_nil_of_subset_nil hsub
    rw [hnil, hnil]
  · cases interrupted with
    | nil =>
      have hlast : last ≠ [] := by
        rintro rfl
        exact hcontent h.last.symm.eq_nil
      rw [List.nil_append, parts_of_head_ne_nil hlast]
    | cons listed interrupted =>
      have hlisted : listed ≠ [] := by
        rintro rfl
        exact hcontent (hhead rfl)
      rw [List.cons_append, parts_of_head_ne_nil hlisted]

/-- **Whatever the callback does and is left to chance, each entry is got once exactly when the enumerations resume where
they were interrupted.** -/
theorem once_iff {υ : Type} (u : υ) (h : Enumerated content interrupted last) :
    (∀ callback chance, Once u content (enumerations interrupted last) callback chance) ↔
      Resumable content interrupted last := by
  constructor
  · intro honce
    have hperm (chance : Option ℕ) : (parts none chance (interrupted ++ [last])).flatten.Perm content := by
      apply (once_iff_perm (fun _ _ _ => Walkcommand.ok) _).mp (honce _ chance)
      rintro called ⟨before, e, -, hstop⟩
      cases hstop
    refine ⟨fun hhead => ?_, fun e he => ?_⟩
    · obtain ⟨rest, rfl⟩ := List.head?_eq_some_iff.mp hhead
      exact h.eq_nil_of_head_nil hperm
    · rw [← h.count_parts, (hperm none).count_eq]
      exact List.count_eq_one_of_mem h.nodup he
  · rintro ⟨hhead, hcount⟩ callback chance
    apply once_of_perm
    rw [h.flatten_parts hhead chance, List.perm_iff_count]
    intro e
    by_cases he : e ∈ content
    · rw [h.count_parts, hcount e he, List.count_eq_one_of_mem h.nodup he]
    · rw [List.count_eq_zero_of_not_mem he, h.count_parts, List.countP_eq_zero]
      intro part hpart hmem
      exact he ((h.parts_sound none part hpart).2 (of_decide_eq_true hmem))

end Enumerated

/-! ## An order that stays -/

section SameOrder

variable {order : List Entry} {cuts : List ℕ}

lemma behind_append {before after : List Entry} {e : Entry} (h : ∀ e' ∈ before, e'.item ≠ e.item) :
    behind (some e.item) (before ++ e :: after) = after := by
  induction before with
  | nil => exact behind_cons_self
  | cons e' before ih =>
    obtain ⟨hne, hbefore⟩ := List.forall_mem_cons.mp h
    rw [List.cons_append, behind_cons_of_ne hne, ih hbefore]

lemma item_ne_of_nodup {before after : List Entry} {e : Entry} (h : ((before ++ e :: after).map (·.item)).Nodup) :
    ∀ e' ∈ before, e'.item ≠ e.item := by
  rw [List.map_append, List.map_cons, List.nodup_append'] at h
  intro e' he' heq
  exact h.2.2 (List.mem_map_of_mem he') (heq ▸ List.mem_cons_self)

lemma lastItem_concat (item : Option ℕ) (listed : List Entry) (e : Entry) :
    lastItem item (listed ++ [e]) = some e.item := by
  unfold lastItem
  rw [List.getLast?_concat]
  rfl

/-- What is got behind an entry if no interruption comes before it. -/
lemma flatten_parts_take (hitems : (order.map (·.item)).Nodup) (hcuts : cuts.Pairwise (· ≤ ·))
    {before after : List Entry} {e : Entry} (horder : order = before ++ e :: after)
    (hbehind : ∀ n ∈ cuts, before.length < n) :
    (parts (some e.item) (some e.item) (cuts.map order.take ++ [order])).flatten = after := by
  induction cuts generalizing before after e with
  | nil =>
    have hbefore : ∀ e' ∈ before, e'.item ≠ e.item := by
      rw [horder] at hitems
      exact item_ne_of_nodup hitems
    rw [List.map_nil, List.nil_append, parts, parts, List.flatten_singleton, horder, behind_append hbefore]
  | cons n cuts ih =>
    obtain ⟨hn, hcuts'⟩ := List.pairwise_cons.mp hcuts
    obtain ⟨hlt, hrest⟩ := List.forall_mem_cons.mp hbehind
    obtain ⟨m, rfl⟩ := Nat.exists_eq_add_of_lt hlt
    have htake : order.take (before.length + m + 1) = before ++ e :: after.take m := by
      rw [horder, Nat.add_assoc, List.take_length_add_append, List.take_succ_cons]
    have hbefore : ∀ e' ∈ before, e'.item ≠ e.item := by
      rw [horder] at hitems
      exact item_ne_of_nodup hitems
    rw [List.map_cons, List.cons_append, parts, List.flatten_cons, htake, behind_append hbefore]
    -- the walk resumes behind the same entry if nothing else was listed
    obtain hmid | ⟨mid, e', hmid⟩ := List.eq_nil_or_concat' (after.take m)
    · rw [hmid, List.nil_append, lastItem_concat]
      exact ih hcuts' horder hrest
    · have hsplit : after = mid ++ e' :: after.drop m := by
        rw [← List.singleton_append, ← List.append_assoc, ← hmid, List.take_append_drop]
      have hlength : mid.length + 1 ≤ m := by
        have hle := List.length_take_le m after
        rwa [hmid, List.length_append] at hle
      have horder' : order = (before ++ e :: mid) ++ e' :: after.drop m := by
        rw [List.append_assoc, List.cons_append, ← hsplit]
        exact horder
      have hlater : ∀ n' ∈ cuts, (before ++ e :: mid).length < n' := by
        intro n' hn'
        have hle := hn n' hn'
        rw [List.length_append, List.length_cons]
        omega
      rw [hmid, ← List.cons_append, ← List.append_assoc, lastItem_concat,
        ih hcuts' horder' hlater, List.append_assoc]
      exact hsplit.symm

lemma flatten_parts_cons (e : Entry) (listed : List Entry) (rest : List (List Entry)) :
    (parts none none ((e :: listed) :: rest)).flatten =
      e :: (parts (some e.item) (some e.item) ((e :: listed) :: rest)).flatten := by
  rw [parts, parts, behind_cons_self, lastItem_cons, lastItem_cons]
  rfl

/-- **In an order that stays and with every interruption behind the one before it, each entry is got once.** -/
theorem resumable_of_sameOrder (hitems : (order.map (·.item)).Nodup) (hcuts : cuts.Pairwise (· ≤ ·))
    (hpos : ∀ n ∈ cuts, 0 < n) : Resumable order (cuts.map order.take) order := by
  have hsublist : ∀ listed ∈ cuts.map order.take ++ [order], listed.Sublist order := by
    intro listed hlisted
    rcases List.mem_append.mp hlisted with hlisted | hlisted
    · obtain ⟨n, -, rfl⟩ := List.mem_map.mp hlisted
      exact List.take_sublist n order
    · rw [List.mem_singleton.mp hlisted]
  have hparts : ∀ part ∈ parts none none (cuts.map order.take ++ [order]), part.Nodup := by
    intro part hpart
    obtain ⟨listed, hlisted, hpart⟩ := mem_of_mem_parts part hpart
    exact (hpart.trans (hsublist listed hlisted)).nodup (hitems.of_map _)
  cases order with
  | nil => exact ⟨fun _ => rfl, fun e he => absurd he List.not_mem_nil⟩
  | cons e order =>
    have hflatten : (parts none none (cuts.map (e :: order).take ++ [e :: order])).flatten = e :: order := by
      have hbehind : (parts (some e.item) (some e.item) (cuts.map (e :: order).take ++ [e :: order])).flatten = order :=
        flatten_parts_take hitems hcuts (List.nil_append _).symm hpos
      cases cuts with
      | nil =>
        rw [List.map_nil, List.nil_append] at hbehind ⊢
        rw [flatten_parts_cons, hbehind]
      | cons n cuts =>
        obtain ⟨m, rfl⟩ := Nat.exists_eq_add_of_lt (hpos n List.mem_cons_self)
        rw [List.map_cons, List.cons_append, Nat.zero_add, List.take_succ_cons] at hbehind ⊢
        rw [flatten_parts_cons, hbehind]
    refine ⟨fun hhead => ?_, fun e' he' => ?_⟩
    · cases cuts with
      | nil => cases hhead
      | cons n cuts =>
        have hpos := hpos n List.mem_cons_self
        cases n with
        | zero => exact absurd hpos (Nat.lt_irrefl 0)
        | succ n => cases hhead
    · rw [← count_flatten_eq_countP hparts, hflatten]
      exact List.count_eq_one_of_mem (hitems.of_map _) he'

end SameOrder

/-! ## Four entries -/

section Sample

/-- The entry of a class -/
def sampleEntry (n : ℕ) : Entry := ⟨n, 16 * n⟩

lemma enumerated_sample : Enumerated ((List.range 4).map sampleEntry) [[sampleEntry 0, sampleEntry 1, sampleEntry 2]]
    [sampleEntry 1, sampleEntry 0, sampleEntry 2, sampleEntry 3] where
  hashes := by decide
  interrupted := by
    intro listed hlisted
    rw [List.mem_singleton.mp hlisted]
    exact ⟨[sampleEntry 3], List.Perm.refl _⟩
  last := by decide

theorem once_sample : Once () ((List.range 4).map sampleEntry)
    (enumerations [[sampleEntry 0, sampleEntry 1, sampleEntry 2]]
      [sampleEntry 1, sampleEntry 0, sampleEntry 2, sampleEntry 3]) (fun _ _ _ => Walkcommand.ok) none :=
  (once_iff () enumerated_sample).mpr ⟨by decide, by decide⟩ _ _

/-- The walk is interrupted after the first of two entries, and then the other one is listed first: nobody gets it. -/
theorem not_once_reordered :
    Enumerated [sampleEntry 0, sampleEntry 1] [[sampleEntry 0]] [sampleEntry 1, sampleEntry 0] ∧
      ¬ Once () [sampleEntry 0, sampleEntry 1] (enumerations [[sampleEntry 0]] [sampleEntry 1, sampleEntry 0])
        (fun _ _ _ => Walkcommand.ok) none := by
  refine ⟨⟨by decide, ?_, by decide⟩, ?_⟩
  · intro listed hlisted
    rw [List.mem_singleton.mp hlisted]
    exact ⟨[sampleEntry 1], List.Perm.refl _⟩
  · rw [once_iff_perm]
    · decide
    · rintro called ⟨before, e, -, hstop⟩
      cases hstop

end Sample

end MulleObjcRuntime.Hashmap
