import Mathlib.Data.List.Nodup
import MulleObjcRuntime.Invalidation.Methodlists
import MulleObjcRuntime.Lib.References
import MulleObjcRuntime.Lib.Runs

/-!
# Method aliases

An entry of a compiled method list may hold the id of another method in place of an implementation.  Adding the list to
a class resolves these entries in place, one after the other.

* `CompiledList` — a method list before it is added, which may be out of order;
* `registerMethods`, `resolveAliases` — the two passes over it;
* `addMethodlistNocache` — what adding it does to the classes and to the memory of the methods;
* `addMethodlistNocache_iff` — every alias holds the implementation at the end of its chain exactly when the list has
  its chains in order;
* `implemented_throughout` — lists with their chains in order, added one after the other, leave no ids behind.
-/

namespace MulleObjcRuntime.Invalidation

open Classes Search Lib.BinarySearch Lib.References

variable {P : Type} [DecidableEq P]

/-- `_mulle_objc_method_infra_alias_on_load`. -/
def infraAliasOnLoad : ℕ := 0x100

/-- `_mulle_objc_method_meta_alias_on_load`. -/
def metaAliasOnLoad : ℕ := 0x200

/-- The mask of both bits. -/
def aliasOnLoad : ℕ := infraAliasOnLoad ||| metaAliasOnLoad

/-- The entry is an alias, or was one when it was compiled. -/
def isAlias (m : Method) : Bool := has m.bits aliasOnLoad

/-- What the union of `implementation` and `alias` holds: an implementation, or the id of an unresolved alias. -/
abbrev Content := Cell ℕ ℕ

/-- The `alias` of a method: the union read as an id. -/
def Content.alias : Content → ℕ
  | .value implementation => implementation
  | .reference methodid => methodid

/-- A `_mulle_objc_methodlist` as it is compiled: an array of methods, not yet known to be sorted. -/
structure CompiledList where
  categoryid : ℕ
  methods : List Method
  nodup : (methods.map Method.address).Nodup

/-- `universe->empty_methodlist`. -/
def CompiledList.empty : CompiledList := ⟨0, [], List.nodup_nil⟩

/-- The list once its order has been checked. -/
def CompiledList.toMethodList (list : CompiledList) (h : Sorted Method.methodid list.methods) : MethodList :=
  ⟨list.categoryid, list.methods, h⟩

/-- The addresses of the aliases, in the order of the list. -/
def CompiledList.aliases (list : CompiledList) : List ℕ := (list.methods.filter isAlias).map Method.address

/-- The classes, and what is in the memory of the methods. -/
structure MethodState (P : Type) where
  graph : ClassGraph P
  content : ℕ → Content

/-- How adding a list ends.  `methodnotfound` is the call of `mulle_objc_universe_fail_methodnotfound`, which does not
return. -/
inductive AddResult (P : Type)
  | done (s : MethodState P)
  | edom (s : MethodState P)
  | methodnotfound

/-- The first loop: it checks the order and collects the bits of the descriptors. -/
def registerMethods : ℕ → ℕ → List Method → Option ℕ
  | _, aliasBits, [] => some aliasBits
  | last, aliasBits, m :: rest =>
    if last > m.methodid then none
    else registerMethods m.methodid (aliasBits ||| m.bits) rest

/-- `search_cls`: the class itself where the bit is that of its kind, and its counterpart otherwise. -/
def searchCls (cls : ClassRef P) (m : Method) : ClassRef P :=
  if (cls.isMeta && has m.bits metaAliasOnLoad) || (!cls.isMeta && has m.bits infraAliasOnLoad) then cls
  else ⟨cls.pair, !cls.isMeta⟩

/-- The second loop: every alias gets what the method it finds holds at that time. -/
def resolveAliases (g : ClassGraph P) (cls : ClassRef P) : List Method → (ℕ → Content) → Option (ℕ → Content)
  | [], content => some content
  | m :: rest, content =>
    if isAlias m then
      match defaultsearchMethod g (searchCls cls m) (content m.address).alias with
      | none => none
      | some other => resolveAliases g cls rest (Function.update content m.address (content other.address))
    else resolveAliases g cls rest content

lemma sorted_of_registerMethods {methods : List Method} {last aliasBits bits : ℕ}
    (h : registerMethods last aliasBits methods = some bits) :
    (∀ m ∈ methods, last ≤ m.methodid) ∧ Sorted Method.methodid methods := by
  induction methods generalizing last aliasBits with
  | nil => exact ⟨by simp, List.Pairwise.nil⟩
  | cons m methods ih =>
    unfold registerMethods at h
    by_cases hlast : last > m.methodid
    · rw [if_pos hlast] at h
      cases h
    · rw [if_neg hlast] at h
      obtain ⟨hle, hsorted⟩ := ih h
      have hm : last ≤ m.methodid := Nat.not_lt.1 hlast
      refine ⟨?_, List.pairwise_cons.2 ⟨hle, hsorted⟩⟩
      rintro p (_ | ⟨_, hp⟩)
      · exact hm
      · exact hm.trans (hle p hp)

/-- `_mulle_objc_class_add_methodlist_nocache` from the first loop on. -/
def addCompiledList (s : MethodState P) (cls : ClassRef P) (list : CompiledList) : AddResult P :=
  match h : registerMethods 0 0 list.methods with
  | none => .edom s
  | some aliasBits =>
    let g := addMethodlist s.graph cls (list.toMethodList (sorted_of_registerMethods h).2)
    if has aliasBits aliasOnLoad then
      match resolveAliases g cls list.methods s.content with
      | none => .methodnotfound
      | some content => .done ⟨g, content⟩
    else .done ⟨g, s.content⟩

/-- `_mulle_objc_class_add_methodlist_nocache`: without a list, a class that has none gets the empty one. -/
def addMethodlistNocache (s : MethodState P) (cls : ClassRef P) : Option CompiledList → AddResult P
  | none => if s.graph.methodlists cls ≠ [] then .done s else addCompiledList s cls .empty
  | some list => addCompiledList s cls list

/-! ## The two loops -/

lemma registerMethods_of_sorted {methods : List Method} {last : ℕ} (aliasBits : ℕ)
    (hlast : ∀ m ∈ methods, last ≤ m.methodid) (hsorted : Sorted Method.methodid methods) :
    ∃ bits, registerMethods last aliasBits methods = some bits := by
  induction methods generalizing last aliasBits with
  | nil => exact ⟨aliasBits, rfl⟩
  | cons m methods ih =>
    obtain ⟨hle, hrest⟩ := List.pairwise_cons.1 hsorted
    unfold registerMethods
    rw [if_neg (Nat.not_lt.2 (hlast m List.mem_cons_self))]
    exact ih (aliasBits ||| m.bits) hle hrest

lemma has_registerMethods {methods : List Method} {last aliasBits bits : ℕ}
    (h : registerMethods last aliasBits methods = some bits) :
    has bits aliasOnLoad = (has aliasBits aliasOnLoad || methods.any isAlias) := by
  induction methods generalizing last aliasBits with
  | nil =>
    cases h
    simp
  | cons m methods ih =>
    unfold registerMethods at h
    by_cases hlast : last > m.methodid
    · rw [if_pos hlast] at h
      cases h
    · rw [if_neg hlast] at h
      rw [ih h, has_or, List.any_cons, Bool.or_assoc]
      rfl

lemma resolveAliases_of_none {methods : List Method} (h : methods.any isAlias = false) (g : ClassGraph P)
    (cls : ClassRef P) (content : ℕ → Content) : resolveAliases g cls methods content = some content := by
  induction methods with
  | nil => rfl
  | cons m methods ih =>
    rw [List.any_cons, Bool.or_eq_false_iff] at h
    unfold resolveAliases
    rw [h.1, if_neg (by decide)]
    exact ih h.2

/-- The address of the method an alias of the list finds. -/
def aliasTarget (g : ClassGraph P) (cls : ClassRef P) (list : CompiledList) (content : ℕ → Content) (address : ℕ) :
    Option ℕ :=
  (list.methods.find? fun m => m.address == address).bind fun m =>
    (defaultsearchMethod g (searchCls cls m) (content m.address).alias).map Method.address

section Pass

variable {g : ClassGraph P} {cls : ClassRef P} {list : CompiledList} {content : ℕ → Content}

lemma CompiledList.find_address {m : Method} (hm : m ∈ list.methods) :
    (list.methods.find? fun p => p.address == m.address) = some m := by
  cases hfind : list.methods.find? fun p => p.address == m.address with
  | none => simpa using List.find?_eq_none.1 hfind m hm
  | some p =>
    have haddress : p.address = m.address := by simpa using List.find?_some hfind
    rw [List.inj_on_of_nodup_map list.nodup (List.mem_of_find?_eq_some hfind) hm haddress]

lemma aliasTarget_address {m : Method} (hm : m ∈ list.methods) :
    aliasTarget g cls list content m.address =
      (defaultsearchMethod g (searchCls cls m) (content m.address).alias).map Method.address := by
  unfold aliasTarget
  rw [CompiledList.find_address hm]
  rfl

lemma CompiledList.mem_aliases {a : ℕ} : a ∈ list.aliases ↔ ∃ m ∈ list.methods, isAlias m = true ∧ m.address = a := by
  simp [aliases, and_assoc]

lemma CompiledList.nodup_aliases : list.aliases.Nodup := by
  have hsub : (list.methods.filter isAlias).Sublist list.methods := List.filter_sublist
  exact list.nodup.sublist (hsub.map Method.address)

/-- The second loop resolves the references at the addresses of the aliases: when the turn of an alias comes, its
memory is still as it was. -/
lemma resolveAliases_eq {methods : List Method} {content' : ℕ → Content} (hsub : methods ⊆ list.methods)
    (hnodup : (methods.map Method.address).Nodup) (hcontent : ∀ m ∈ methods, content' m.address = content m.address) :
    resolveAliases g cls methods content' =
      resolveAll (aliasTarget g cls list content) content' ((methods.filter isAlias).map Method.address) := by
  induction methods generalizing content' with
  | nil => rfl
  | cons m methods ih =>
    obtain ⟨hm, hsub⟩ := List.cons_subset.1 hsub
    obtain ⟨hfresh, hnodup⟩ := List.nodup_cons.1 hnodup
    have hrest : ∀ p ∈ methods, content' p.address = content p.address := fun p hp =>
      hcontent p (List.mem_cons_of_mem m hp)
    unfold resolveAliases
    by_cases halias : isAlias m = true
    · rw [if_pos halias, List.filter_cons_of_pos halias, List.map_cons, resolveAll_cons, aliasTarget_address hm,
        hcontent m List.mem_cons_self]
      cases defaultsearchMethod g (searchCls cls m) (content m.address).alias with
      | none => rfl
      | some other =>
        refine ih hsub hnodup fun p hp => ?_
        have hne : p.address ≠ m.address := fun heq => hfresh (heq ▸ List.mem_map_of_mem hp)
        rw [Function.update_of_ne hne, hrest p hp]
    · rw [if_neg halias, List.filter_cons_of_neg halias]
      exact ih hsub hnodup hrest

end Pass

/-! ## Adding a list -/

section Adding

variable (s : MethodState P) (cls : ClassRef P) (list : CompiledList)

lemma addCompiledList_of_not_sorted (h : ¬ Sorted Method.methodid list.methods) : addCompiledList s cls list = .edom s := by
  unfold addCompiledList
  split
  · rfl
  · rename_i hregister
    exact absurd (sorted_of_registerMethods hregister).2 h

/-- A sorted list is added, and its aliases are resolved in the classes that have it. -/
lemma addCompiledList_of_sorted (h : Sorted Method.methodid list.methods) :
    addCompiledList s cls list =
      (resolveAll (aliasTarget (addMethodlist s.graph cls (list.toMethodList h)) cls list s.content) s.content
        list.aliases).elim .methodnotfound fun content =>
          .done ⟨addMethodlist s.graph cls (list.toMethodList h), content⟩ := by
  have hpass : resolveAliases (addMethodlist s.graph cls (list.toMethodList h)) cls list.methods s.content =
      resolveAll (aliasTarget (addMethodlist s.graph cls (list.toMethodList h)) cls list s.content) s.content
        list.aliases := resolveAliases_eq (List.Subset.refl list.methods) list.nodup fun _ _ => rfl
  unfold addCompiledList
  rw [← hpass]
  split
  · rename_i hregister
    obtain ⟨bits, hbits⟩ := registerMethods_of_sorted 0 (fun _ _ => Nat.zero_le _) h
    rw [hbits] at hregister
    cases hregister
  · rename_i aliasBits hregister
    have hbits := has_registerMethods hregister
    rw [has_zero, Bool.false_or] at hbits
    simp only
    by_cases halias : has aliasBits aliasOnLoad = true
    · rw [if_pos halias]
      cases resolveAliases (addMethodlist s.graph cls (list.toMethodList h)) cls list.methods s.content <;> rfl
    · have hnone : list.methods.any isAlias = false := by rw [← hbits]; simpa using halias
      rw [if_neg halias, resolveAliases_of_none hnone]
      rfl

/-- The aliases of the list hold the ids they were compiled with. -/
def Compiled : Prop := ∀ m ∈ list.methods, isAlias m = true → ∃ methodid, s.content m.address = .reference methodid

/-- After the list has been added each alias holds the implementation at the end of its chain; when it has been refused
nothing has changed. -/
def Resolved (r : AddResult P) : Prop :=
  (∀ s', r = .done s' → ∀ m ∈ list.methods, isAlias m = true → ∃ implementation,
    Resolves (aliasTarget s'.graph cls list s.content) list.aliases s.content m.address implementation ∧
      s'.content m.address = .value implementation) ∧
  ∀ s', r = .edom s' → s' = s

/-- Where the list is sorted and every alias finds a method: what an alias finds is an alias before it in the list, or
is no alias of the list and has its implementation already. -/
def ChainsInOrder : Prop :=
  ∀ h : Sorted Method.methodid list.methods,
    (∀ a ∈ list.aliases,
      (aliasTarget (addMethodlist s.graph cls (list.toMethodList h)) cls list s.content a).isSome = true) →
    InOrder (aliasTarget (addMethodlist s.graph cls (list.toMethodList h)) cls list s.content) list.aliases s.content

variable {s cls list}

omit [DecidableEq P] in
lemma Compiled.unresolved (h : Compiled s list) : ∀ a ∈ list.aliases, ∃ methodid, s.content a = .reference methodid := by
  intro a ha
  obtain ⟨m, hm, halias, rfl⟩ := CompiledList.mem_aliases.1 ha
  exact h m hm halias

lemma addCompiledList_resolved_iff (hcompiled : Compiled s list) :
    Resolved s cls list (addCompiledList s cls list) ↔ ChainsInOrder s cls list := by
  by_cases hsorted : Sorted Method.methodid list.methods
  · have hadd := addCompiledList_of_sorted s cls list hsorted
    set g := addMethodlist s.graph cls (list.toMethodList hsorted) with hg
    cases hpass : resolveAll (aliasTarget g cls list s.content) s.content list.aliases with
    | none =>
      have hnot : ¬ ∀ a ∈ list.aliases, (aliasTarget g cls list s.content a).isSome = true := by
        intro hfound
        have hsome : (resolveAll (aliasTarget g cls list s.content) s.content list.aliases).isSome :=
          resolveAll_isSome.2 hfound
        rw [hpass] at hsome
        cases hsome
      rw [hpass] at hadd
      rw [hadd]
      constructor
      · exact fun _ _ hfound => absurd hfound hnot
      · intro _
        refine ⟨?_, ?_⟩ <;> rintro s' ⟨⟩
    | some content =>
      have hfound : ∀ a ∈ list.aliases, (aliasTarget g cls list s.content a).isSome = true :=
        resolveAll_isSome.1 (Option.isSome_of_eq_some hpass)
      have hiff := resolveAll_iff CompiledList.nodup_aliases hcompiled.unresolved hpass
      rw [hpass] at hadd
      rw [hadd]
      constructor
      · intro hresolved _ _
        refine hiff.1 fun a ha => ?_
        obtain ⟨m, hm, halias, rfl⟩ := CompiledList.mem_aliases.1 ha
        exact hresolved.1 _ rfl m hm halias
      · intro horder
        refine ⟨?_, by rintro s' ⟨⟩⟩
        rintro s' ⟨⟩ m hm halias
        exact hiff.2 (horder hsorted hfound) m.address (CompiledList.mem_aliases.2 ⟨m, hm, halias, rfl⟩)
  · rw [addCompiledList_of_not_sorted s cls list hsorted]
    constructor
    · exact fun _ h => absurd h hsorted
    · intro _
      refine ⟨by rintro s' ⟨⟩, ?_⟩
      rintro s' ⟨⟩
      rfl

lemma chainsInOrder_empty : ChainsInOrder s cls .empty := by
  intro _ _ before a after hrefs
  have : ([] : List ℕ) = before ++ a :: after := hrefs
  simp at this

end Adding

/-- **Every alias ends up with the implementation at the end of its chain exactly when the chains are in order.** -/
theorem addMethodlistNocache_iff (s : MethodState P) (cls : ClassRef P) (list? : Option CompiledList)
    (hcompiled : Compiled s (list?.getD .empty)) :
    Resolved s cls (list?.getD .empty) (addMethodlistNocache s cls list?) ↔
      ChainsInOrder s cls (list?.getD .empty) := by
  cases list? with
  | some list => exact addCompiledList_resolved_iff hcompiled
  | none =>
    unfold addMethodlistNocache
    simp only
    split
    · refine ⟨fun _ => chainsInOrder_empty, fun _ => ⟨?_, by rintro s' ⟨⟩⟩⟩
      rintro s' ⟨⟩ m ⟨⟩
    · exact addCompiledList_resolved_iff hcompiled

/-- A root class without lists, and the memory of the methods of two lists. -/
def aliasState : MethodState ℕ where
  graph := ClassGraph.ofList [ClassGraph.pairOf 1 none [] false ⟨0, []⟩ ⟨0, []⟩]
  content a :=
    if a = 1 ∨ a = 13 then .reference 2
    else if a = 2 then .reference 3
    else if a = 12 then .reference 1
    else .value (1000 + a)

lemma forwardChain_nodup : [1, 2, 3].Nodup := by decide

lemma backwardChain_nodup : [11, 12, 13].Nodup := by decide

/-- The method `1` is an alias of `2`, which is an alias of `3`. -/
def forwardChain : CompiledList where
  categoryid := 0
  methods := [⟨1, 1, infraAliasOnLoad, 2⟩, ⟨2, 2, infraAliasOnLoad, 3⟩, ⟨3, 3, 0, 1003⟩]
  nodup := forwardChain_nodup

/-- The method `3` is an alias of `2`, which is an alias of `1`. -/
def backwardChain : CompiledList where
  categoryid := 0
  methods := [⟨11, 1, 0, 1011⟩, ⟨12, 2, infraAliasOnLoad, 1⟩, ⟨13, 3, infraAliasOnLoad, 2⟩]
  nodup := backwardChain_nodup

lemma compiled_forwardChain : Compiled aliasState forwardChain := by
  unfold Compiled forwardChain
  simp only [List.forall_mem_cons]
  exact ⟨fun _ => ⟨2, rfl⟩, fun _ => ⟨3, rfl⟩, fun h => absurd h (by decide), by simp⟩

lemma compiled_backwardChain : Compiled aliasState backwardChain := by
  unfold Compiled backwardChain
  simp only [List.forall_mem_cons]
  exact ⟨fun h => absurd h (by decide), fun _ => ⟨1, rfl⟩, fun _ => ⟨2, rfl⟩, by simp⟩

lemma sorted_forwardChain : Sorted Method.methodid forwardChain.methods := by
  unfold Sorted forwardChain
  decide

lemma sorted_backwardChain : Sorted Method.methodid backwardChain.methods := by
  unfold Sorted backwardChain
  decide

lemma chainsInOrder_backwardChain : ChainsInOrder aliasState ⟨0, false⟩ backwardChain := by
  intro h _
  have horder : InOrder (aliasTarget (addMethodlist aliasState.graph ⟨0, false⟩
      (backwardChain.toMethodList sorted_backwardChain)) ⟨0, false⟩ backwardChain aliasState.content)
      backwardChain.aliases aliasState.content := by decide +kernel
  exact horder

/-- A chain that leads back is in order. -/
theorem addMethodlistNocache_backwardChain :
    Resolved aliasState ⟨0, false⟩ backwardChain (addMethodlistNocache aliasState ⟨0, false⟩ (some backwardChain)) :=
  (addMethodlistNocache_iff aliasState ⟨0, false⟩ (some backwardChain) compiled_backwardChain).2
    chainsInOrder_backwardChain

/-- **An alias of an alias that comes later in the list** is left with the id of the other's target. -/
theorem forward_chain_unresolved :
    Compiled aliasState forwardChain ∧
      ∃ s', addMethodlistNocache aliasState ⟨0, false⟩ (some forwardChain) = .done s' ∧
        (∀ a ∈ forwardChain.aliases,
          Resolves (aliasTarget s'.graph ⟨0, false⟩ forwardChain aliasState.content) forwardChain.aliases
            aliasState.content a 1003) ∧
        s'.content 1 = .reference 3 := by
  have htargets : forwardChain.aliases.map (aliasTarget (addMethodlist aliasState.graph ⟨0, false⟩
      (forwardChain.toMethodList sorted_forwardChain)) ⟨0, false⟩ forwardChain aliasState.content) =
      [some 2, some 3] := by decide +kernel
  obtain ⟨h1, hrest⟩ := List.cons.inj htargets
  obtain ⟨h2, -⟩ := List.cons.inj hrest
  have hlast : Resolves (aliasTarget (addMethodlist aliasState.graph ⟨0, false⟩
      (forwardChain.toMethodList sorted_forwardChain)) ⟨0, false⟩ forwardChain aliasState.content)
      forwardChain.aliases aliasState.content 2 1003 := .reference (by decide) h2 (.value (by decide) rfl)
  refine ⟨compiled_forwardChain, ⟨addMethodlist aliasState.graph ⟨0, false⟩
    (forwardChain.toMethodList sorted_forwardChain), _⟩, rfl, fun a ha => ?_, rfl⟩
  obtain rfl | rfl : a = 1 ∨ a = 2 := by simpa using (show a ∈ [1, 2] from ha)
  · exact .reference (by decide) h1 hlast
  · exact hlast

/-! ## One list after the other -/

/-- No method of a class object holds the id of an unresolved alias. -/
def Implemented (s : MethodState P) : Prop :=
  ∀ cls, ∀ list ∈ s.graph.methodlists cls, ∀ m ∈ list.methods, (s.content m.address).IsValue

/-- Adding a list as a step; a run ends where an alias finds nothing. -/
def addStep (s : MethodState P) (a : ClassRef P × Option CompiledList) : Option (MethodState P) :=
  match addMethodlistNocache s a.1 a.2 with
  | .done s' => some s'
  | .edom s' => some s'
  | .methodnotfound => none

/-- A list with implementations where it has no aliases, and with its chains in order. -/
def RightList (s : MethodState P) (a : ClassRef P × Option CompiledList) : Prop :=
  (∀ m ∈ (a.2.getD .empty).methods, isAlias m = false → (s.content m.address).IsValue) ∧
    ChainsInOrder s a.1 (a.2.getD .empty)

section Steps

variable {s s' : MethodState P} {cls : ClassRef P} {list : CompiledList}

lemma Implemented.addCompiledList (h : Implemented s)
    (himplemented : ∀ m ∈ list.methods, isAlias m = false → (s.content m.address).IsValue)
    (horder : ChainsInOrder s cls list) (hadd : addCompiledList s cls list = .done s') : Implemented s' := by
  by_cases hsorted : Sorted Method.methodid list.methods
  · rw [addCompiledList_of_sorted s cls list hsorted] at hadd
    set g := addMethodlist s.graph cls (list.toMethodList hsorted) with hg
    cases hpass : resolveAll (aliasTarget g cls list s.content) s.content list.aliases with
    | none =>
      rw [hpass] at hadd
      cases hadd
    | some content =>
      rw [hpass] at hadd
      cases hadd
      have hfound : ∀ a ∈ list.aliases, (aliasTarget g cls list s.content a).isSome = true :=
        resolveAll_isSome.1 (Option.isSome_of_eq_some hpass)
      have hresolved := (horder hsorted hfound).resolved CompiledList.nodup_aliases (List.append_nil _).symm hpass
      -- what is not an alias of the list is as before
      have hvalue : ∀ a, (a ∉ list.aliases → (s.content a).IsValue) → (content a).IsValue := by
        intro a ha
        by_cases hmem : a ∈ list.aliases
        · obtain ⟨implementation, -, hcontent⟩ := hresolved a hmem
          exact ⟨implementation, hcontent⟩
        · rw [resolveAll_of_not_mem hpass hmem]
          exact ha hmem
      intro c l hl m hm
      have hl : l ∈ g.methodlists c := hl
      rw [hg, methodlists_addMethodlist] at hl
      apply hvalue
      intro hmem
      have hold : l ∈ s.graph.methodlists c → (s.content m.address).IsValue := fun hl => h c l hl m hm
      by_cases hc : c = cls
      · rw [if_pos hc] at hl
        rcases List.mem_append.1 hl with hl | hl
        · exact hold hl
        · obtain rfl := List.mem_singleton.1 hl
          refine himplemented m hm (Bool.eq_false_iff.2 fun halias => hmem ?_)
          exact CompiledList.mem_aliases.2 ⟨m, hm, halias, rfl⟩
      · rw [if_neg hc] at hl
        exact hold hl
  · rw [addCompiledList_of_not_sorted s cls list hsorted] at hadd
    cases hadd

lemma addCompiledList_edom (hadd : addCompiledList s cls list = .edom s') : s' = s := by
  by_cases hsorted : Sorted Method.methodid list.methods
  · rw [addCompiledList_of_sorted s cls list hsorted] at hadd
    cases hpass : resolveAll (aliasTarget (addMethodlist s.graph cls (list.toMethodList hsorted)) cls list s.content)
      s.content list.aliases <;> (rw [hpass] at hadd; cases hadd)
  · rw [addCompiledList_of_not_sorted s cls list hsorted] at hadd
    cases hadd
    rfl

/-- A list with its chains in order leaves no ids behind. -/
lemma Implemented.addStep {a : ClassRef P × Option CompiledList} (h : Implemented s) (hright : RightList s a)
    (hstep : addStep s a = some s') : Implemented s' := by
  obtain ⟨cls, list?⟩ := a
  obtain ⟨himplemented, horder⟩ := hright
  have hlist : ∀ list, addMethodlistNocache s cls list? = Invalidation.addCompiledList s cls list →
      list?.getD .empty = list → Implemented s' := by
    rintro list heq rfl
    unfold Invalidation.addStep at hstep
    simp only [heq] at hstep
    cases hadd : Invalidation.addCompiledList s cls (list?.getD .empty) with
    | done t =>
      rw [hadd] at hstep
      cases hstep
      exact h.addCompiledList himplemented horder hadd
    | edom t =>
      rw [hadd] at hstep
      cases hstep
      exact addCompiledList_edom hadd ▸ h
    | methodnotfound =>
      rw [hadd] at hstep
      cases hstep
  cases list? with
  | some list => exact hlist list rfl rfl
  | none =>
    by_cases hlists : s.graph.methodlists cls ≠ []
    · have hsame : Invalidation.addStep s (cls, none) = some s := by
        unfold Invalidation.addStep addMethodlistNocache
        simp only [if_pos hlists]
      rw [hsame] at hstep
      cases hstep
      exact h
    · exact hlist .empty (if_neg hlists) rfl

/-- **Lists whose chains are in order, one after the other,** never leave an id where an implementation is expected. -/
theorem implemented_throughout {lists : List (ClassRef P × Option CompiledList)} (h : Implemented s)
    (hlists : Lib.Runs.EachStep Invalidation.addStep RightList s lists) :
    Lib.Runs.Throughout Invalidation.addStep Implemented s lists :=
  hlists.throughout h fun _ _ _ hs hright hstep => hs.addStep hright hstep

end Steps

end MulleObjcRuntime.Invalidation
