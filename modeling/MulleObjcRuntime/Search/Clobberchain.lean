import Mathlib.Data.List.Nodup
import Mathlib.Data.List.Perm.Subperm
import MulleObjcRuntime.Search.Chain
import MulleObjcRuntime.Search.Previous

/-!
# The clobber chain enumerator

The enumerator is to give out the implementations of a method in the lists of one class object, each next one by an
overridden search from the last.

* `ClobberchainEnumerator.next` — `_mulle_objc_clobberchainenumerator_next`;
* `yields` — what successive calls give out;
* `yields_eq_with` — a chain of overridden searches in the class object's own lists;
* `Clobberchain` — the lists it can cope with;
* `clobberchain_iff` — these are the ones it enumerates.
-/

namespace MulleObjcRuntime.Search

open Classes Lib.AnchoredChain

variable {P : Type} [DecidableEq P]

/-! ## The enumerator -/

/-- `mulle_objc_clobberchainenumerator` -/
structure ClobberchainEnumerator (P : Type) where
  cls : ClassRef P
  args : SearchArguments P
  result : Option (Hit P)

omit [DecidableEq P] in
/-- `mulle_objc_class_clobberchain_enumerate` -/
def clobberchainEnumerate (cls : ClassRef P) (methodid : ℕ) : ClobberchainEnumerator P :=
  ⟨cls, .makeDefault methodid, none⟩

omit [DecidableEq P] in
/-- The inheritance of the enumerator's searches. -/
def clobberchainInheritance (g : ClassGraph P) (cls : ClassRef P) : ℕ :=
  g.inheritance cls ||| dontInheritSuperclass ||| dontInheritProtocols ||| dontInheritProtocolCategories

/-- `_mulle_objc_clobberchainenumerator_next`: the implementation, or the end. -/
def ClobberchainEnumerator.next (g : ClassGraph P) (rover : ClobberchainEnumerator P) :
    Option (ℕ × ClobberchainEnumerator P) :=
  match searchMethod g [] rover.cls rover.args (clobberchainInheritance g rover.cls) with
  | (.found method, st) =>
    -- without a result the ids are zero
    let classid := st.result.elim 0 fun h => g.classid h.cls
    let categoryid := st.result.elim 0 fun h => h.list.categoryid
    some (method.implementation, { rover with args := .makeOverridden method.methodid classid categoryid, result := st.result })
  | _ => none

/-- The enumerator after some calls, none of which was the end. -/
def clobberchainAt (g : ClassGraph P) (cls : ClassRef P) (methodid : ℕ) : ℕ → Option (ClobberchainEnumerator P)
  | 0 => some (clobberchainEnumerate cls methodid)
  | n + 1 => (clobberchainAt g cls methodid n).bind fun rover => (rover.next g).map Prod.snd

/-- What the call after `n` calls gives out, with the result it leaves in the enumerator. -/
def yields (g : ClassGraph P) (cls : ClassRef P) (methodid n : ℕ) : Option (ℕ × Option (Hit P)) :=
  (clobberchainAt g cls methodid n).bind fun rover => (rover.next g).map fun r => (r.1, r.2.result)

/-- The implementations of the class object's own lists are given out, last added first, and then the end. -/
def Enumerates (g : ClassGraph P) (cls : ClassRef P) (methodid : ℕ) : Prop :=
  ∀ n, yields g cls methodid n = ((implementations g cls methodid)[n]?).map fun h => (h.method.implementation, some h)

variable {g : ClassGraph P} {cls : ClassRef P} {methodid : ℕ}

/-! ## A chain of searches -/

/-- The search arguments after some calls. -/
def clobberchainArgs (g : ClassGraph P) (methodid : ℕ) : Option (Hit P) → SearchArguments P
  | none => .makeDefault methodid
  | some h => .makeOverridden methodid (h.ids g).1 (h.ids g).2

omit [DecidableEq P] in
lemma own_inheritance :
    has (clobberchainInheritance g cls) dontInheritSuperclass = true ∧
      has (clobberchainInheritance g cls) dontInheritProtocols = true := by
  unfold clobberchainInheritance
  simp only [has_or, Bool.or_eq_true]
  exact ⟨Or.inl (Or.inl (Or.inr (by decide))), Or.inl (Or.inr (by decide))⟩

lemma linearization_clobberchain :
    linearization g cls (clobberchainInheritance g cls) = [ownVisit g cls (clobberchainInheritance g cls)] :=
  linearization_own own_inheritance.2 own_inheritance.1

lemma ClobberchainEnumerator.next_eq {rover : ClobberchainEnumerator P} {o : Option (Hit P)}
    (h : Returns (searchMethod g [] rover.cls rover.args (clobberchainInheritance g rover.cls)) o)
    (hid : ∀ x ∈ o, x.method.methodid = methodid) :
    rover.next g = o.map fun x => (x.method.implementation, ⟨rover.cls, clobberchainArgs g methodid (some x), some x⟩) := by
  unfold ClobberchainEnumerator.next
  generalize searchMethod g [] rover.cls rover.args (clobberchainInheritance g rover.cls) = r at h
  obtain ⟨outcome, st⟩ := r
  cases o with
  | none =>
    obtain rfl : outcome = .null := h
    rfl
  | some x =>
    obtain ⟨houtcome, hresult⟩ := h
    simp only at houtcome hresult
    subst houtcome
    simp only [hresult, hid x rfl]
    rfl

lemma methodid_of_nthOverriddenWith {inheritance n : ℕ} {h : Hit P}
    (hn : nthOverriddenWith g cls methodid inheritance n = some h) : h.method.methodid = methodid := by
  rw [nthOverriddenWith_eq_chain] at hn
  obtain ⟨e, -, he⟩ := List.mem_filterMap.1 (mem_of_chain hn)
  obtain ⟨m, hm, rfl⟩ := Option.map_eq_some_iff.1 he
  exact (MethodList.search_eq_some hm).2

lemma next_enumerate :
    (clobberchainEnumerate cls methodid).next g =
      (nthOverriddenWith g cls methodid (clobberchainInheritance g cls) 0).map fun x =>
        (x.method.implementation, ⟨cls, clobberchainArgs g methodid (some x), some x⟩) := by
  have hreturns := (searchMethod_default g cls methodid (clobberchainInheritance g cls)).1
  have hzero : nthOverriddenWith g cls methodid (clobberchainInheritance g cls) 0 = _ := hreturns.returned_eq
  rw [hzero]
  refine ClobberchainEnumerator.next_eq hreturns fun x hx => ?_
  rw [Option.mem_def, ← hzero] at hx
  exact methodid_of_nthOverriddenWith hx

lemma next_overridden {n : ℕ} {h : Hit P}
    (hn : nthOverriddenWith g cls methodid (clobberchainInheritance g cls) n = some h) :
    (⟨cls, clobberchainArgs g methodid (some h), some h⟩ : ClobberchainEnumerator P).next g =
      (nthOverriddenWith g cls methodid (clobberchainInheritance g cls) (n + 1)).map fun x =>
        (x.method.implementation, ⟨cls, clobberchainArgs g methodid (some x), some x⟩) := by
  have hreturns := searchMethod_overridden g cls (clobberchainInheritance g cls) methodid (h.ids g)
  have hsucc : nthOverriddenWith g cls methodid (clobberchainInheritance g cls) (n + 1) =
      returned (searchMethod g [] cls (.makeOverridden methodid (h.ids g).1 (h.ids g).2) (clobberchainInheritance g cls)) := by
    rw [nthOverriddenWith, hn]
    rfl
  rw [hreturns.returned_eq] at hsucc
  rw [hsucc]
  refine ClobberchainEnumerator.next_eq hreturns fun x hx => ?_
  rw [Option.mem_def, ← hsucc] at hx
  exact methodid_of_nthOverriddenWith hx

lemma clobberchainAt_succ (g : ClassGraph P) (cls : ClassRef P) (methodid n : ℕ) :
    clobberchainAt g cls methodid (n + 1) =
      (nthOverriddenWith g cls methodid (clobberchainInheritance g cls) n).map fun x =>
        ⟨cls, clobberchainArgs g methodid (some x), some x⟩ := by
  induction n with
  | zero =>
    rw [clobberchainAt, clobberchainAt, Option.bind_some, next_enumerate, Option.map_map]
    rfl
  | succ n ih =>
    rw [clobberchainAt, ih]
    cases hn : nthOverriddenWith g cls methodid (clobberchainInheritance g cls) n with
    | none =>
      rw [nthOverriddenWith, hn]
      rfl
    | some h =>
      rw [Option.map_some, Option.bind_some, next_overridden hn, Option.map_map]
      rfl

/-- **The calls give out a chain of overridden searches.** -/
theorem yields_eq_with (g : ClassGraph P) (cls : ClassRef P) (methodid n : ℕ) :
    yields g cls methodid n =
      (nthOverriddenWith g cls methodid (clobberchainInheritance g cls) n).map fun h => (h.method.implementation, some h) := by
  cases n with
  | zero =>
    rw [yields, clobberchainAt, Option.bind_some, next_enumerate, Option.map_map]
    rfl
  | succ n =>
    rw [yields, clobberchainAt_succ]
    cases hn : nthOverriddenWith g cls methodid (clobberchainInheritance g cls) n with
    | none =>
      rw [nthOverriddenWith, hn]
      rfl
    | some h =>
      rw [Option.map_some, Option.bind_some, next_overridden hn, Option.map_map]
      rfl

lemma enumerates_iff_with :
    Enumerates g cls methodid ↔
      ∀ n, nthOverriddenWith g cls methodid (clobberchainInheritance g cls) n = (implementations g cls methodid)[n]? := by
  have hinj : Function.Injective fun h : Hit P => (h.method.implementation, some h) := by
    intro a b hab
    exact Option.some.inj (Prod.mk.inj hab).2
  refine forall_congr' fun n => ?_
  rw [yields_eq_with]
  exact (Option.map_injective hinj).eq_iff

/-! ## What can be enumerated -/

/-- The lists of a class object that the enumerator can cope with. -/
structure Clobberchain (g : ClassGraph P) (cls : ClassRef P) (methodid : ℕ) : Prop where
  /-- the class object's own `DONT_INHERIT` flags leave out no list with the method -/
  visible : Visit.hits methodid (ownVisit g cls (clobberchainInheritance g cls)) = implementations g cls methodid
  /-- none but the implementation that was added first is a fatal hidden override -/
  notFatal : ∀ n h, (implementations g cls methodid)[n]? = some h → n + 1 < (implementations g cls methodid).length →
    h.method.isHiddenOverrideFatal = false
  /-- of two lists with the method, no list that is looked into up to the later added one has the category id of the
  other -/
  direct : Direct MethodList.categoryid (fun list => list.search methodid)
    (visibleLists (clobberchainInheritance g cls) (g.methodlists cls))

/-! ## Exactly what can be enumerated -/

/-- The lists the searches look into. -/
def ownEntries (g : ClassGraph P) (cls : ClassRef P) : List (Entry P) :=
  entries [ownVisit g cls (clobberchainInheritance g cls)]

omit [DecidableEq P] in
lemma ownEntries_eq :
    ownEntries g cls = (visibleLists (clobberchainInheritance g cls) (g.methodlists cls)).map (Entry.mk cls) := by
  rw [ownEntries, entries, List.flatMap_singleton]
  rfl

omit [DecidableEq P] in
lemma hits_ownEntries :
    (ownEntries g cls).filterMap (Entry.hit methodid) =
      Visit.hits methodid (ownVisit g cls (clobberchainInheritance g cls)) := by
  rw [ownEntries, ← hits_eq_entries, hits, List.flatMap_singleton]

omit [DecidableEq P] in
lemma direct_ownEntries :
    Direct (Entry.ids g) (Entry.hit methodid) (ownEntries g cls) ↔
      Direct MethodList.categoryid (fun list => list.search methodid)
        (visibleLists (clobberchainInheritance g cls) (g.methodlists cls)) := by
  rw [ownEntries_eq, direct_map]
  simp only [Direct, Entry.ids, Entry.hit, Option.isSome_map, ne_eq, Prod.mk.injEq, true_and]

lemma nthOverriddenWith_own (g : ClassGraph P) (cls : ClassRef P) (methodid n : ℕ) :
    nthOverriddenWith g cls methodid (clobberchainInheritance g cls) n =
      chain (Entry.ids g) (Entry.hit methodid) (Hit.ids g)
        (goesOn g methodid [ownVisit g cls (clobberchainInheritance g cls)])
        (!decide (Blocked (Visit.hits methodid (ownVisit g cls (clobberchainInheritance g cls))))) (ownEntries g cls) n := by
  rw [nthOverriddenWith_eq_chain, linearization_clobberchain, hits, List.flatMap_singleton]
  rfl

omit [DecidableEq P] in
lemma goesOn_own {k : ℕ × ℕ} (hk : ∃ e ∈ ownEntries g cls, e.ids g = k) :
    goesOn g methodid [ownVisit g cls (clobberchainInheritance g cls)] k =
      !decide (Blocked (candidates (Entry.ids g) (Entry.hit methodid) k (ownEntries g cls))) := by
  obtain ⟨e, he, rfl⟩ := hk
  rw [ownEntries_eq] at he
  obtain ⟨list, hlist, rfl⟩ := List.mem_map.1 he
  have hanchored : anchored g (Entry.ids g ⟨cls, list⟩) [ownVisit g cls (clobberchainInheritance g cls)] = true := by
    simp only [anchored, Entry.ids, ownVisit, List.find?_cons, decide_true, List.any_eq_true]
    exact ⟨list, hlist, decide_eq_true rfl⟩
  rw [goesOn, hanchored, Bool.true_and]
  rfl

omit [DecidableEq P] in
lemma hits_own_sublist :
    (Visit.hits methodid (ownVisit g cls (clobberchainInheritance g cls))).Sublist (implementations g cls methodid) := by
  refine List.Sublist.filterMap _ ?_
  simp only [ownVisit, visibleLists, List.reverse_sublist]
  have hclass : ∀ lists : List MethodList, (if has (clobberchainInheritance g cls) dontInheritClass then lists.drop 1
      else lists).Sublist lists := by
    intro lists
    split
    · exact List.drop_sublist _ _
    · exact List.Sublist.refl _
  refine (hclass _).trans ?_
  split
  · exact List.take_sublist _ _
  · exact List.Sublist.refl _

omit [DecidableEq P] in
lemma blocked_of_head {l : List (Hit P)} {h : Hit P} (hhead : l.head? = some h) :
    Blocked l ↔ h.method.isHiddenOverrideFatal = true ∧ 1 < l.length := by
  cases l with
  | nil => cases hhead
  | cons first rest =>
    obtain rfl : first = h := by simpa using hhead
    rw [blocked_cons, List.length_cons, ← List.length_pos_iff]
    simp

/-- Lists the enumerator can cope with are enumerated. -/
theorem Clobberchain.enumerates (h : Clobberchain g cls methodid) : Enumerates g cls methodid := by
  rw [enumerates_iff_with]
  intro n
  have hvisible : (ownEntries g cls).filterMap (Entry.hit methodid) = implementations g cls methodid := by
    rw [hits_ownEntries, h.visible]
  rw [nthOverriddenWith_own, ← hvisible]
  refine (direct_ownEntries.2 h.direct).chain_eq (fun e x he => Entry.hit_ids he) (fun hne => ?_) ?_ n
  · rw [h.visible, Bool.not_eq_true', decide_eq_false_iff_not]
    intro hblocked
    obtain ⟨first, rest, hsplit, hfatal, hrest⟩ := hblocked
    have hpos := List.length_pos_iff.2 hrest
    have := h.notFatal 0 first (by rw [hsplit]; rfl) (by rw [hsplit, List.length_cons]; omega)
    rw [this] at hfatal
    cases hfatal
  · intro pre e post hE he hpost
    rw [goesOn_own ⟨e, by rw [hE]; simp, rfl⟩, (direct_ownEntries.2 h.direct).candidates_eq hE he, Bool.not_eq_true',
      decide_eq_false_iff_not]
    intro hblocked
    obtain ⟨first, rest, hsplit, hfatal, hrest⟩ := hblocked
    obtain ⟨x, hx⟩ := Option.isSome_iff_exists.1 he
    have himpl : implementations g cls methodid = (pre.filterMap (Entry.hit methodid) ++ [x]) ++ first :: rest := by
      rw [← hvisible, hE, List.filterMap_append, List.filterMap_cons_some hx, hsplit, List.append_assoc]
      rfl
    have hpos := List.length_pos_iff.2 hrest
    have := h.notFatal (pre.filterMap (Entry.hit methodid) ++ [x]).length first (by rw [himpl]; simp)
      (by rw [himpl, @List.length_append _ (_ ++ _), List.length_cons]; omega)
    rw [this] at hfatal
    cases hfatal

/-- What is enumerated are lists the enumerator can cope with. -/
theorem Enumerates.clobberchain (h : Enumerates g cls methodid) : Clobberchain g cls methodid := by
  rw [enumerates_iff_with] at h
  simp only [nthOverriddenWith_own] at h
  have hkey : ∀ (e : Entry P) x, e.hit methodid = some x → x.ids g = e.ids g := fun e x he => Entry.hit_ids he
  have hnodup := nodup_keys_of_chain_eq h
  -- nothing is left out
  have hvisible : Visit.hits methodid (ownVisit g cls (clobberchainInheritance g cls)) = implementations g cls methodid := by
    have hsubset : implementations g cls methodid ⊆ (ownEntries g cls).filterMap (Entry.hit methodid) := by
      intro x hx
      obtain ⟨n, hn⟩ := List.mem_iff_getElem?.1 hx
      exact mem_of_chain ((h n).trans hn)
    rw [hits_ownEntries] at hsubset
    exact hits_own_sublist.eq_of_length_le (List.subperm_of_subset (List.Nodup.of_map _ hnodup) hsubset).length_le
  have hhits : (ownEntries g cls).filterMap (Entry.hit methodid) = implementations g cls methodid :=
    hits_ownEntries.trans hvisible
  have hinj : ∀ (i j : ℕ) (x y : Hit P), (implementations g cls methodid)[i]? = some x →
      (implementations g cls methodid)[j]? = some y → x.ids g = y.ids g → i = j := by
    intro i j x y hi hj hxy
    have hi' : ((implementations g cls methodid).map (Hit.ids g))[i]? = some (x.ids g) := by
      rw [List.getElem?_map, hi]
      rfl
    have hj' : ((implementations g cls methodid).map (Hit.ids g))[j]? = some (x.ids g) := by
      rw [List.getElem?_map, hj, hxy]
      rfl
    obtain ⟨hlt, -⟩ := List.getElem?_eq_some_iff.1 hi'
    exact (List.getElem?_inj hlt hnodup).1 (hi'.trans hj'.symm)
  have hnotFatal : ∀ n x, (implementations g cls methodid)[n]? = some x → n + 1 < (implementations g cls methodid).length →
      x.method.isHiddenOverrideFatal = false := by
    intro n x hn hlt
    by_contra hfatal
    rw [Bool.not_eq_false] at hfatal
    cases n with
    | zero =>
      have hblocked : Blocked (implementations g cls methodid) := by
        rw [blocked_of_head (List.head?_eq_getElem?.trans hn)]
        exact ⟨hfatal, hlt⟩
      have h0 := h 0
      rw [chain, hvisible, decide_eq_true hblocked, hn] at h0
      cases h0
    | succ n =>
      obtain ⟨y, hy⟩ : ∃ y, (implementations g cls methodid)[n]? = some y := ⟨_, List.getElem?_eq_getElem (by omega)⟩
      obtain ⟨z, hz⟩ : ∃ z, (implementations g cls methodid)[n + 2]? = some z := ⟨_, List.getElem?_eq_getElem hlt⟩
      have hstep := (h (n + 1)).trans hn
      rw [chain_succ ((h n).trans hy)] at hstep
      split at hstep
      · next hgoes =>
        have hentry : ∃ e ∈ ownEntries g cls, e.ids g = y.ids g := by
          have hmem : y ∈ (ownEntries g cls).filterMap (Entry.hit methodid) := by
            rw [hhits]
            exact List.mem_of_getElem? hy
          obtain ⟨e, he, hey⟩ := List.mem_filterMap.1 hmem
          exact ⟨e, he, (hkey e y hey).symm⟩
        rw [goesOn_own hentry, Bool.not_eq_true', decide_eq_false_iff_not, blocked_of_head hstep] at hgoes
        have hmem : z ∈ candidates (Entry.ids g) (Entry.hit methodid) (y.ids g) (ownEntries g cls) := by
          refine mem_candidates_of_lt hkey (show n < n + 2 by omega) (by rw [hhits, hy]) (by rw [hhits, hz]) fun hids => ?_
          have := hinj _ _ _ _ hz hy hids
          omega
        obtain ⟨first, rest, hcons⟩ := List.exists_cons_of_ne_nil (List.ne_nil_of_mem hmem)
        rw [hcons] at hstep hmem hgoes
        obtain rfl : first = x := by simpa using hstep
        rcases List.mem_cons.1 hmem with rfl | hrest
        · have := hinj _ _ _ _ hz hn rfl
          omega
        · refine hgoes ⟨hfatal, ?_⟩
          rw [List.length_cons]
          have := List.length_pos_of_mem hrest
          omega
      · cases hstep
  refine ⟨hvisible, hnotFatal, direct_ownEntries.1 ?_⟩
  simp only [← hhits] at h hnotFatal
  refine direct_of_chain_eq hkey (fun x => x.method.isHiddenOverrideFatal = true) h ?_ fun n x hn hlt => ?_
  · intro k x hk hgoes hhead
    rw [goesOn_own hk, Bool.not_eq_false', decide_eq_true_eq, blocked_of_head hhead] at hgoes
    exact hgoes.1
  · rw [hnotFatal n x hn hlt]
    exact Bool.false_ne_true

/-- **What the clobber chain enumerator enumerates.** -/
theorem clobberchain_iff (g : ClassGraph P) (cls : ClassRef P) (methodid : ℕ) :
    Enumerates g cls methodid ↔ Clobberchain g cls methodid :=
  ⟨Enumerates.clobberchain, Clobberchain.enumerates⟩

/-- A root class with the method `7` in its `@implementation`, and in a list that is added later without a category. -/
def addedListGraph : ClassGraph ℕ :=
  ClassGraph.ofList
    [ClassGraph.pairOf 1 none [] false ⟨0, [.single 0 ⟨100, 7, 0, 1000⟩, .single 0 ⟨101, 7, 0, 1001⟩]⟩ ⟨0, [.empty]⟩]

/-- The `@implementation` is not given out. -/
theorem addedList_not_enumerated :
    (implementations addedListGraph ⟨0, false⟩ 7).length = 2 ∧ yields addedListGraph ⟨0, false⟩ 7 1 = none ∧
      ¬ Enumerates addedListGraph ⟨0, false⟩ 7 := by
  refine ⟨by decide, by decide, fun h => ?_⟩
  have := h 1
  revert this
  decide

end MulleObjcRuntime.Search
