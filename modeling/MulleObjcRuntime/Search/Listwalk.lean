import MulleObjcRuntime.Search.Collect

/-!
# The walk over method lists

`mulle_objc_class_methodlist_walk` is to hand out the method lists in the order in which a search looks into them.

* `methodlistWalk` — the walk, with its callback;
* `walkLists`, `methodlistWalk_eq` — what it hands out, until the callback ends it;
* `searchLists` — the lists of the linearization;
* `Replicates` — the walk hands out these, and the first one with a method is that in which the search finds it;
* `SameLists`, `sameLists_of_replicates`, `replicates_iff` — when it does.
-/

namespace MulleObjcRuntime.Search

open Classes

variable {P : Type} [DecidableEq P]

/-- A method list with the class object that it is handed out with. -/
abbrev Listed (P : Type) := ClassRef P × MethodList

/-- What a walk returns, and the calls of the callback, the last one first. -/
abbrev Walked (P : Type) := WalkCommand × List (Listed P)

section Walk

variable (g : ClassGraph P) (f : List (Listed P) → WalkCommand)

/-- What comes next, unless the callback has ended the walk. -/
def Walked.andThen (r : Walked P) (k : List (Listed P) → Walked P) : Walked P :=
  match r with
  | (.ok, calls) => k calls
  | r => r

/-- A loop over the `n` method lists that are enumerated: under `DONT_INHERIT_CLASS` the `n`-th ends it.  The callback
decides by the calls made so far, the present one first. -/
def walkMethodlists (cls : ClassRef P) (inheritance n : ℕ) : List MethodList → ℕ → List (Listed P) → Walked P
  | [], _, calls => (.ok, calls)
  | list :: rest, i, calls =>
    if has inheritance dontInheritClass ∧ i + 1 = n then (.ok, calls)
    else
      match f ((cls, list) :: calls) with
      | .ok => walkMethodlists cls inheritance n rest (i + 1) ((cls, list) :: calls)
      | rval => (rval, (cls, list) :: calls)

/-- The loop over the mixins, last added first.  All their lists are walked, whatever flags they have. -/
def walkMixins (cls : ClassRef P) : List P → List (Listed P) → Walked P
  | [], calls => (.ok, calls)
  | proto :: rest, calls =>
    if proto = cls.pair then walkMixins cls rest calls
    else
      let lists := g.methodlists (mixinRef cls proto)
      (walkMethodlists f (mixinRef cls proto) 0 lists.length lists.reverse 0 calls).andThen (walkMixins cls rest)

/-- `_mulle_objc_class_protocol_walk_methodlists` -/
def protocolWalkMethodlists (cls : ClassRef P) : List (Listed P) → Walked P :=
  walkMixins g f cls (g.pair cls.pair).mixins.reverse

/-- The inheritance passed on to the superclass, rewritten where the root metaclass continues into its infraclass. -/
def walkInheritanceForSuper (cls supercls : ClassRef P) (inheritance : ℕ) : ℕ :=
  if cls.isMeta = true ∧ supercls.isMeta = false then
    (if has inheritance dontInheritSuperclassInheritance then inheritance
      else g.inheritance supercls ||| dontInheritSuperclassInheritance) |||
        (dontInheritProtocols ||| dontInheritProtocolMeta)
  else inheritance

/-- `mulle_objc_class_methodlist_walk_with_inheritance`, with a bound on the number of superclasses -/
def methodlistWalkWithInheritance : ℕ → ClassRef P → ℕ → List (Listed P) → Walked P
  | 0, _, _, calls => (.ok, calls)
  | bound + 1, cls, inheritance, calls =>
    let n := enumeratedCount g cls inheritance
    (walkMethodlists f cls inheritance n ((g.methodlists cls).take n).reverse 0 calls).andThen fun calls =>
      (if has inheritance dontInheritProtocols then (.ok, calls) else protocolWalkMethodlists g f cls calls :
        Walked P).andThen fun calls =>
        if has inheritance dontInheritSuperclass then (.ok, calls)
        else
          match g.superclass cls with
          | none => (.ok, calls)
          | some supercls =>
            methodlistWalkWithInheritance bound supercls (walkInheritanceForSuper g cls supercls inheritance) calls

/-- `mulle_objc_class_methodlist_walk` -/
def methodlistWalk (cls : ClassRef P) : Walked P :=
  methodlistWalkWithInheritance g f (g.rank cls + 1) cls (g.inheritance cls) []

end Walk

/-! ## What is handed out -/

/-- Lists are handed out one after the other, until the callback ends it. -/
def handOut (f : List (Listed P) → WalkCommand) : List (Listed P) → List (Listed P) → Walked P
  | [], calls => (.ok, calls)
  | x :: rest, calls =>
    match f (x :: calls) with
    | .ok => handOut f rest (x :: calls)
    | rval => (rval, x :: calls)

section Sequences

variable (g : ClassGraph P) (cls : ClassRef P)

/-- The lists of a visit -/
def Visit.listed (v : Visit P) : List (Listed P) := v.lists.map (v.cls, ·)

/-- The lists that the walk hands out for the mixins of a class -/
def walkMixinVisits (inheritance : ℕ) : List (Visit P) :=
  if has inheritance dontInheritProtocols then []
  else
    ((g.pair cls.pair).mixins.reverse.filter (· ≠ cls.pair)).map fun proto =>
      ⟨mixinRef cls proto, (g.methodlists (mixinRef cls proto)).reverse⟩

/-- The inheritance with which the walk goes on to the superclass, if it does. -/
def walkSuper (supercls : ClassRef P) (inheritance : ℕ) : Option ℕ :=
  if has inheritance dontInheritSuperclass then none else some (walkInheritanceForSuper g cls supercls inheritance)

/-- The inheritance with which the search goes on to the superclass, if it does. -/
def searchSuper (supercls : ClassRef P) (inheritance : ℕ) : Option ℕ :=
  if has inheritance dontInheritSuperclass then none else some (superInheritance g cls supercls inheritance)

/-- What is seen with an inheritance, and nothing after the end. -/
def seen {α : Type} (lists : ℕ → List α) (inheritance : Option ℕ) : List α := inheritance.elim [] lists

/-- The lists on the way up from a class: its own, those of its mixins, and those on the way up from the superclass. -/
def wayUp (g : ClassGraph P) (mixins : ClassRef P → ℕ → List (Visit P)) (super : ClassRef P → ClassRef P → ℕ → Option ℕ) :
    ℕ → ClassRef P → Option ℕ → List (Listed P)
  | 0, _, _ => []
  | bound + 1, cls, inheritance =>
    seen (fun i => (ownVisit g cls i).listed) inheritance ++
      (seen (fun i => (mixins cls i).flatMap Visit.listed) inheritance ++
        (g.superclass cls).elim [] fun supercls =>
          wayUp g mixins super bound supercls (inheritance.bind (super cls supercls)))

/-- The lists that the walk hands out -/
def walkLists : List (Listed P) :=
  wayUp g (walkMixinVisits g) (walkSuper g) (g.rank cls + 1) cls (some (g.inheritance cls))

/-- The lists that a search looks into that starts with the inheritance of the class itself, in their order -/
def searchLists : List (Listed P) := (linearization g cls (g.inheritance cls)).flatMap Visit.listed

/-- **The walk hands out the lists that the search looks into, in the same order, until the callback ends it; so the
first of them with a method is the one in which the search finds it.** -/
structure Replicates : Prop where
  walk : ∀ f, methodlistWalk g f cls = handOut f (searchLists g cls) []
  search : ∀ methodid h, returned (searchMethod g [] cls (.makeDefault methodid) (g.inheritance cls)) = some h →
    (methodlistWalk g (fun _ => .ok) cls).2.reverse.find? (fun x => (x.2.search methodid).isSome) = some (h.cls, h.list)

end Sequences

variable {g : ClassGraph P} {cls : ClassRef P} {f : List (Listed P) → WalkCommand}

/-! ## The walk hands them out -/

section HandOut

omit [DecidableEq P]

@[simp] lemma andThen_ok (calls : List (Listed P)) (k : List (Listed P) → Walked P) :
    Walked.andThen (.ok, calls) k = k calls := rfl

lemma handOut_append (a b calls : List (Listed P)) :
    handOut f (a ++ b) calls = (handOut f a calls).andThen (handOut f b) := by
  induction a generalizing calls with
  | nil => rfl
  | cons x a ih =>
    rw [List.cons_append, handOut, handOut]
    cases f (x :: calls) with
    | ok => exact ih _
    | done | dontDescend | cancel | error => rfl

lemma handOut_ok (a calls : List (Listed P)) : handOut (fun _ => .ok) a calls = (.ok, a.reverse ++ calls) := by
  induction a generalizing calls with
  | nil => rfl
  | cons x a ih => rw [handOut, ih, List.reverse_cons, List.append_assoc, List.singleton_append]

lemma walkMethodlists_eq {inheritance n : ℕ} (lists : List MethodList) (i : ℕ) (calls : List (Listed P))
    (hn : lists = [] ∨ i + lists.length = n) :
    walkMethodlists f cls inheritance n lists i calls =
      handOut f ((unlessLast inheritance lists).map (cls, ·)) calls := by
  induction lists generalizing i calls with
  | nil =>
    unfold unlessLast
    split <;> rfl
  | cons list rest ih =>
    have hlength : i + (rest.length + 1) = n := hn.resolve_left (List.cons_ne_nil _ _)
    rw [walkMethodlists]
    by_cases hlast : has inheritance dontInheritClass = true ∧ rest = []
    · obtain ⟨hcls, rfl⟩ := hlast
      rw [if_pos ⟨hcls, hlength⟩, unlessLast, if_pos hcls]
      rfl
    · have hnot : ¬ (has inheritance dontInheritClass = true ∧ i + 1 = n) := by
        rintro ⟨hcls, hi⟩
        exact hlast ⟨hcls, List.length_eq_zero_iff.1 (by omega)⟩
      rw [if_neg hnot, unlessLast_cons hlast, List.map_cons, handOut]
      cases f ((cls, list) :: calls) with
      | ok => exact ih (i + 1) _ (Or.inr (by omega))
      | done | dontDescend | cancel | error => rfl

end HandOut

lemma walkMixins_eq (protos : List P) (calls : List (Listed P)) :
    walkMixins g f cls protos calls =
      handOut f (((protos.filter (· ≠ cls.pair)).map fun proto =>
        (⟨mixinRef cls proto, (g.methodlists (mixinRef cls proto)).reverse⟩ : Visit P)).flatMap Visit.listed) calls := by
  induction protos generalizing calls with
  | nil => rfl
  | cons proto rest ih =>
    rw [walkMixins]
    by_cases hself : proto = cls.pair
    · rw [if_pos hself, List.filter_cons_of_neg (by simpa using hself), ih]
    · rw [if_neg hself, List.filter_cons_of_pos (by simpa using hself), List.map_cons, List.flatMap_cons, handOut_append]
      dsimp only
      rw [walkMethodlists_eq _ _ _ (Or.inr (by simp)), unlessLast, if_neg (by simp)]
      exact congrArg _ (funext ih)

omit [DecidableEq P] in
lemma wayUp_none (mixins : ClassRef P → ℕ → List (Visit P)) (super : ClassRef P → ClassRef P → ℕ → Option ℕ) (bound : ℕ)
    (cls : ClassRef P) : wayUp g mixins super bound cls none = [] := by
  induction bound generalizing cls with
  | zero => rfl
  | succ bound ih =>
    rw [wayUp]
    cases g.superclass cls with
    | none => rfl
    | some supercls => exact ih supercls

/-- **What the walk hands out**, from a class on.  The induction is on the superclasses. -/
lemma methodlistWalkWithInheritance_eq (bound : ℕ) (cls : ClassRef P) (inheritance : ℕ) (calls : List (Listed P)) :
    methodlistWalkWithInheritance g f bound cls inheritance calls =
      handOut f (wayUp g (walkMixinVisits g) (walkSuper g) bound cls (some inheritance)) calls := by
  induction bound generalizing cls inheritance calls with
  | zero => rfl
  | succ bound ih =>
    have hown : walkMethodlists f cls inheritance (enumeratedCount g cls inheritance)
        ((g.methodlists cls).take (enumeratedCount g cls inheritance)).reverse 0 calls =
        handOut f (ownVisit g cls inheritance).listed calls := by
      rw [walkMethodlists_eq, ← visibleLists_eq_unlessLast]
      · rfl
      · unfold enumeratedCount
        cases g.methodlists cls with
        | nil =>
          left
          rw [List.take_nil, List.reverse_nil]
        | cons list rest =>
          right
          split <;> simp
    have hmixins : ∀ calls, (if has inheritance dontInheritProtocols then (.ok, calls)
        else protocolWalkMethodlists g f cls calls : Walked P) =
        handOut f ((walkMixinVisits g cls inheritance).flatMap Visit.listed) calls := by
      intro calls
      unfold walkMixinVisits protocolWalkMethodlists
      split
      · rfl
      · rw [walkMixins_eq]
    rw [methodlistWalkWithInheritance, wayUp, handOut_append]
    dsimp only [seen, Option.elim]
    rw [hown]
    congr 1
    funext calls
    rw [hmixins, handOut_append]
    congr 1
    funext calls
    cases g.superclass cls with
    | none =>
      split <;> rfl
    | some supercls =>
      simp only [Option.bind_some, walkSuper]
      split
      · rw [wayUp_none]
        rfl
      · exact ih supercls _ calls

theorem methodlistWalk_eq (g : ClassGraph P) (f : List (Listed P) → WalkCommand) (cls : ClassRef P) :
    methodlistWalk g f cls = handOut f (walkLists g cls) [] :=
  methodlistWalkWithInheritance_eq _ _ _ _

/-! ## When it is the order of the search -/

lemma linearizationTo_listed (bound : ℕ) (cls : ClassRef P) (inheritance : ℕ) :
    (linearizationTo g bound cls inheritance).flatMap Visit.listed =
      wayUp g (fun cls => mixinVisits g cls) (searchSuper g) bound cls (some inheritance) := by
  induction bound generalizing cls inheritance with
  | zero => rfl
  | succ bound ih =>
    rw [linearizationTo, wayUp, List.flatMap_cons, List.flatMap_append]
    dsimp only [seen, Option.elim]
    congr 2
    cases g.superclass cls with
    | none => rfl
    | some supercls =>
      simp only [Option.bind_some, searchSuper]
      split
      · rw [wayUp_none]
        rfl
      · exact ih _ _

lemma searchLists_eq (g : ClassGraph P) (cls : ClassRef P) :
    searchLists g cls = wayUp g (fun cls => mixinVisits g cls) (searchSuper g) (g.rank cls + 1) cls (some (g.inheritance cls)) :=
  linearizationTo_listed _ _ _

omit [DecidableEq P] in
lemma hits_eq_filterMap (methodid : ℕ) (path : List (Visit P)) :
    hits methodid path =
      (path.flatMap Visit.listed).filterMap fun x => (x.2.search methodid).map (Hit.mk x.1 x.2) := by
  rw [List.filterMap_flatMap]
  apply List.flatMap_congr
  intro v _
  rw [Visit.listed, List.filterMap_map]
  rfl

omit [DecidableEq P] in
lemma find_of_head_hits {methodid : ℕ} {path : List (Visit P)} {h : Hit P} (hh : (hits methodid path).head? = some h) :
    (path.flatMap Visit.listed).find? (fun x => (x.2.search methodid).isSome) = some (h.cls, h.list) := by
  rw [hits_eq_filterMap] at hh
  generalize path.flatMap Visit.listed = lists at hh ⊢
  induction lists with
  | nil => cases hh
  | cons x rest ih =>
    cases hx : x.2.search methodid with
    | none =>
      rw [List.filterMap_cons_none (by simp [hx])] at hh
      rw [List.find?_cons_of_neg (by simp [hx])]
      exact ih hh
    | some method =>
      rw [List.filterMap_cons_some (by rw [hx, Option.map_some])] at hh
      rw [List.find?_cons_of_pos (by simp [hx])]
      cases hh
      rfl

/-- **The walk is right exactly when it hands out the lists that the search looks into.** -/
lemma replicates_iff_lists : Replicates g cls ↔ walkLists g cls = searchLists g cls := by
  constructor
  · intro h
    have hall := h.walk fun _ => .ok
    rw [methodlistWalk_eq, handOut_ok, handOut_ok, Prod.mk.injEq, List.append_nil, List.append_nil] at hall
    exact List.reverse_injective hall.2
  · intro h
    refine ⟨?_, ?_⟩
    · intro f
      rw [methodlistWalk_eq, h]
    · intro methodid hit hreturned
      rw [methodlistWalk_eq, handOut_ok, List.append_nil, List.reverse_reverse, h]
      apply find_of_head_hits
      have hpick := (searchMethod_default g cls methodid (g.inheritance cls)).1.returned_eq.symm.trans hreturned
      rw [pick_eq] at hpick
      split at hpick
      · cases hpick
      · exact hpick

/-- On the way up, with the inheritance of the walk and with that of the search, a class object has the same lists, and
so have its mixins. -/
def SameLists (g : ClassGraph P) : ℕ → ClassRef P → Option ℕ → Option ℕ → Prop
  | 0, _, _, _ => True
  | bound + 1, cls, i, j =>
    seen (fun i => visibleLists i (g.methodlists cls)) i = seen (fun j => visibleLists j (g.methodlists cls)) j ∧
      seen (fun i => (walkMixinVisits g cls i).flatMap Visit.listed) i =
        seen (fun j => (mixinVisits g cls j).flatMap Visit.listed) j ∧
      (g.superclass cls).elim True fun supercls =>
        SameLists g bound supercls (i.bind (walkSuper g cls supercls)) (j.bind (searchSuper g cls supercls))

omit [DecidableEq P] in
lemma seen_listed (g : ClassGraph P) (cls : ClassRef P) (i : Option ℕ) :
    seen (fun i => (ownVisit g cls i).listed) i = (seen (fun i => visibleLists i (g.methodlists cls)) i).map (cls, ·) := by
  cases i <;> rfl

lemma wayUp_eq_of_sameLists {bound : ℕ} {cls : ClassRef P} {i j : Option ℕ} (h : SameLists g bound cls i j) :
    wayUp g (walkMixinVisits g) (walkSuper g) bound cls i = wayUp g (fun cls => mixinVisits g cls) (searchSuper g) bound cls j := by
  induction bound generalizing cls i j with
  | zero => rfl
  | succ bound ih =>
    obtain ⟨hown, hmixins, hsuper⟩ := h
    rw [wayUp, wayUp, seen_listed, seen_listed, hown, hmixins]
    cases hs : g.superclass cls with
    | none => rfl
    | some supercls =>
      rw [hs] at hsuper
      simp only [Option.elim, ih hsuper]

/-! ## When it is not -/

section Converse

variable {mixins : ClassRef P → ℕ → List (Visit P)} {next : ClassRef P → ClassRef P → ℕ → Option ℕ}
  {adopted : ClassRef P → Bool} {bound : ℕ} {i j : Option ℕ} {k : ℕ}

/-- The visits are those of mixins. -/
def OfMixins (g : ClassGraph P) (mixins : ClassRef P → ℕ → List (Visit P)) : Prop :=
  ∀ cls i, ∀ v ∈ mixins cls i, ∃ proto ∈ (g.pair cls.pair).mixins, proto ≠ cls.pair ∧ v.cls = mixinRef cls proto

/-- On the way up from a class, `adopted` tells the mixins from the superclasses. -/
def TellsApart (g : ClassGraph P) (adopted : ClassRef P → Bool) : ℕ → ClassRef P → Prop
  | 0, _ => True
  | bound + 1, cls =>
    adopted cls = false ∧ (∀ proto ∈ (g.pair cls.pair).mixins, proto ≠ cls.pair → adopted (mixinRef cls proto) = true) ∧
      (g.superclass cls).elim True fun supercls => TellsApart g adopted bound supercls

lemma ofMixins_walk (g : ClassGraph P) : OfMixins g (walkMixinVisits g) := by
  intro cls i v hv
  unfold walkMixinVisits at hv
  split at hv
  · cases hv
  · obtain ⟨proto, hproto, rfl⟩ := List.mem_map.1 hv
    obtain ⟨hmem, hne⟩ := List.mem_filter.1 hproto
    exact ⟨proto, List.mem_reverse.1 hmem, by simpa using hne, rfl⟩

lemma ofMixins_search (g : ClassGraph P) : OfMixins g fun cls => mixinVisits g cls := by
  intro cls i v hv
  simp only [mixinVisits] at hv
  split at hv
  · cases hv
  · obtain ⟨proto, hproto, rfl⟩ := List.mem_map.1 hv
    obtain ⟨hmem, hne⟩ := List.mem_filter.1 hproto
    exact ⟨proto, List.mem_reverse.1 hmem, by simpa using hne, rfl⟩

omit [DecidableEq P] in
lemma mem_mixins (hmixins : OfMixins g mixins) {x : Listed P}
    (hx : x ∈ seen (fun i => (mixins cls i).flatMap Visit.listed) i) :
    ∃ proto ∈ (g.pair cls.pair).mixins, proto ≠ cls.pair ∧ x.1 = mixinRef cls proto := by
  cases i with
  | none => cases hx
  | some i =>
    obtain ⟨v, hv, hx⟩ := List.mem_flatMap.1 hx
    obtain ⟨list, -, rfl⟩ := List.mem_map.1 hx
    exact hmixins cls i v hv

omit [DecidableEq P] in
/-- Whatever is on the way up, is a mixin or a superclass. -/
lemma adopted_or_rank_le (hmixins : OfMixins g mixins) (h : TellsApart g adopted bound cls) {x : Listed P}
    (hx : x ∈ wayUp g mixins next bound cls i) : adopted x.1 = true ∨ g.rank x.1 ≤ g.rank cls := by
  induction bound generalizing cls i with
  | zero => cases hx
  | succ bound ih =>
    obtain ⟨-, hadopted, hsuper⟩ := h
    rw [wayUp, seen_listed] at hx
    rcases List.mem_append.1 hx with hx | hx
    · obtain ⟨list, -, rfl⟩ := List.mem_map.1 hx
      exact Or.inr le_rfl
    rcases List.mem_append.1 hx with hx | hx
    · obtain ⟨proto, hproto, hne, hcls⟩ := mem_mixins hmixins hx
      exact Or.inl (hcls ▸ hadopted proto hproto hne)
    · cases hs : g.superclass cls with
      | none =>
        rw [hs] at hx
        cases hx
      | some supercls =>
        rw [hs] at hx hsuper
        have hlt := ClassGraph.rank_superclass hs
        rcases ih hsuper hx with hx | hx
        · exact Or.inl hx
        · exact Or.inr (by omega)

omit [DecidableEq P] in
lemma isMeta_superclass {supercls : ClassRef P} (hs : g.superclass cls = some supercls) :
    supercls.isMeta = cls.isMeta ∨ cls.isMeta = true ∧ supercls.isMeta = false := by
  unfold ClassGraph.superclass at hs
  split at hs
  · cases hs
    exact Or.inl rfl
  · rename_i hmeta _
    cases hs
    exact Or.inr ⟨hmeta, rfl⟩
  · cases hs

omit [DecidableEq P] in
/-- Above an infraclass there are infraclasses only. -/
lemma isMeta_of_mem_wayUp (hmixins : OfMixins g mixins) (hmeta : cls.isMeta = false) {x : Listed P}
    (hx : x ∈ wayUp g mixins next bound cls i) : x.1.isMeta = false := by
  induction bound generalizing cls i with
  | zero => cases hx
  | succ bound ih =>
    rw [wayUp, seen_listed] at hx
    rcases List.mem_append.1 hx with hx | hx
    · obtain ⟨list, -, rfl⟩ := List.mem_map.1 hx
      exact hmeta
    rcases List.mem_append.1 hx with hx | hx
    · obtain ⟨proto, -, -, hcls⟩ := mem_mixins hmixins hx
      rw [hcls]
      exact hmeta
    · cases hs : g.superclass cls with
      | none =>
        rw [hs] at hx
        cases hx
      | some supercls =>
        rw [hs] at hx
        refine ih ?_ hx
        rcases isMeta_superclass hs with h | h
        · exact h.trans hmeta
        · exact h.2

/-- No mixins are to be walked. -/
def NoMixins (i : Option ℕ) : Prop := ∀ k ∈ i, has k dontInheritProtocols = true

/-- Mixins and superclasses are to be walked. -/
structure Walks (k : ℕ) : Prop where
  mixins : has k dontInheritProtocols = false
  super : has k dontInheritSuperclass = false

omit [DecidableEq P] in
lemma NoMixins.bind {supercls : ClassRef P} (h : NoMixins i) : NoMixins (i.bind (walkSuper g cls supercls)) := by
  intro k hk
  obtain ⟨k', hk', hk⟩ := Option.bind_eq_some_iff.1 hk
  have hprotocols := h k' hk'
  unfold walkSuper walkInheritanceForSuper at hk
  split at hk
  · cases hk
  · cases hk
    split
    · rw [has_or, has_or]
      simp [show has dontInheritProtocols dontInheritProtocols = true by decide]
    · exact hprotocols

omit [DecidableEq P] in
lemma Walks.bind {supercls : ClassRef P} (h : Walks k) (hs : g.superclass cls = some supercls) :
    supercls.isMeta = cls.isMeta ∧ (some k).bind (walkSuper g cls supercls) = some k ∨
      cls.isMeta = true ∧ supercls.isMeta = false ∧ NoMixins ((some k).bind (walkSuper g cls supercls)) := by
  have hgo : (some k).bind (walkSuper g cls supercls) = some (walkInheritanceForSuper g cls supercls k) := by
    rw [Option.bind_some, walkSuper, if_neg (by simp [h.super])]
  rw [hgo]
  rcases isMeta_superclass hs with hmeta | ⟨hmeta, hinfra⟩
  · refine Or.inl ⟨hmeta, ?_⟩
    rw [walkInheritanceForSuper, if_neg (by rw [hmeta]; simp)]
  · refine Or.inr ⟨hmeta, hinfra, ?_⟩
    rintro _ ⟨⟩
    rw [walkInheritanceForSuper, if_pos ⟨hmeta, hinfra⟩, has_or, has_or]
    simp [show has dontInheritProtocols dontInheritProtocols = true by decide]

lemma walkMixins_of_noMixins (hi : NoMixins i) : seen (fun i => (walkMixinVisits g cls i).flatMap Visit.listed) i = [] := by
  cases i with
  | none => rfl
  | some k =>
    have hnone : walkMixinVisits g cls k = [] := by
      rw [walkMixinVisits, if_pos (hi k rfl)]
    simp only [seen, Option.elim, hnone, List.flatMap_nil]

/-- Without mixins, the walk hands out the lists of superclasses only. -/
lemma not_adopted_of_noMixins (h : TellsApart g adopted bound cls) (hi : NoMixins i) {x : Listed P}
    (hx : x ∈ wayUp g (walkMixinVisits g) (walkSuper g) bound cls i) : adopted x.1 = false := by
  induction bound generalizing cls i with
  | zero => cases hx
  | succ bound ih =>
    obtain ⟨hcls, -, hsuper⟩ := h
    rw [wayUp, seen_listed] at hx
    rcases List.mem_append.1 hx with hx | hx
    · obtain ⟨list, -, rfl⟩ := List.mem_map.1 hx
      exact hcls
    rcases List.mem_append.1 hx with hx | hx
    · rw [walkMixins_of_noMixins hi] at hx
      cases hx
    · cases hs : g.superclass cls with
      | none =>
        rw [hs] at hx
        cases hx
      | some supercls =>
        rw [hs] at hx hsuper
        exact ih hsuper hi.bind hx

omit [DecidableEq P] in
lemma visibleLists_sublist (k : ℕ) (lists : List MethodList) : (visibleLists k lists).Sublist lists.reverse := by
  unfold visibleLists
  apply List.Sublist.reverse
  split <;> split
  · exact (List.drop_sublist _ _).trans (List.take_sublist _ _)
  · exact List.drop_sublist _ _
  · exact List.take_sublist _ _
  · exact List.Sublist.refl _

variable (g cls) in
lemma mixins_sublist (hk : has k dontInheritProtocols = false) (j : Option ℕ) :
    (seen (fun j => (mixinVisits g cls j).flatMap Visit.listed) j).Sublist
      ((walkMixinVisits g cls k).flatMap Visit.listed) := by
  cases j with
  | none => exact List.nil_sublist _
  | some j =>
    simp only [seen, Option.elim]
    unfold mixinVisits walkMixinVisits
    simp only [hk, Bool.false_eq_true, if_false]
    split
    · exact List.nil_sublist _
    · induction (g.pair cls.pair).mixins.reverse.filter (· ≠ cls.pair) with
      | nil => exact List.Sublist.refl _
      | cons proto rest ih =>
        rw [List.map_cons, List.map_cons, List.flatMap_cons, List.flatMap_cons]
        exact ((visibleLists_sublist _ _).map _).append ih

/-- The lists of mixins on one side of the wraparound -/
def counts (adopted : ClassRef P → Bool) (isMeta : Bool) (x : Listed P) : Bool :=
  adopted x.1 && x.1.isMeta == isMeta

omit [DecidableEq P] in
lemma countP_mixins (hmixins : OfMixins g mixins)
    (hadopted : ∀ proto ∈ (g.pair cls.pair).mixins, proto ≠ cls.pair → adopted (mixinRef cls proto) = true) :
    (seen (fun i => (mixins cls i).flatMap Visit.listed) i).countP (counts adopted cls.isMeta) =
      (seen (fun i => (mixins cls i).flatMap Visit.listed) i).length := by
  rw [List.countP_eq_length]
  intro x hx
  obtain ⟨proto, hproto, hself, hcls⟩ := mem_mixins hmixins hx
  have htrue := hadopted proto hproto hself
  rw [← hcls] at htrue
  rw [counts, htrue, hcls]
  exact beq_self_eq_true _

variable (g cls adopted bound) in
/-- When the walk hands out enough lists of mixins from the superclass on, it does so where it goes on to it. -/
lemma countP_above_le (hk : Walks k) (j : Option ℕ)
    (hsuper : ∀ supercls, g.superclass cls = some supercls → ∀ j,
      (wayUp g (fun cls => mixinVisits g cls) (searchSuper g) bound supercls j).countP (counts adopted supercls.isMeta) ≤
        (wayUp g (walkMixinVisits g) (walkSuper g) bound supercls (some k)).countP (counts adopted supercls.isMeta)) :
    ((g.superclass cls).elim [] fun supercls => wayUp g (fun cls => mixinVisits g cls) (searchSuper g) bound supercls
        (j.bind (searchSuper g cls supercls))).countP (counts adopted cls.isMeta) ≤
      ((g.superclass cls).elim [] fun supercls => wayUp g (walkMixinVisits g) (walkSuper g) bound supercls
        ((some k).bind (walkSuper g cls supercls))).countP (counts adopted cls.isMeta) := by
  cases hs : g.superclass cls with
  | none => exact le_rfl
  | some supercls =>
    simp only [Option.elim]
    rcases hk.bind hs with ⟨hmeta, hbind⟩ | ⟨hmeta, hinfra, -⟩
    · rw [hbind, ← hmeta]
      exact hsuper supercls hs _
    · -- behind the wraparound there are no metaclasses
      have hzero : (wayUp g (fun cls => mixinVisits g cls) (searchSuper g) bound supercls
          (j.bind (searchSuper g cls supercls))).countP (counts adopted cls.isMeta) = 0 := by
        rw [List.countP_eq_zero]
        intro x hx
        simp [counts, isMeta_of_mem_wayUp (ofMixins_search g) hinfra hx, hmeta]
      rw [hzero]
      exact Nat.zero_le _

/-- The walk hands out at least as many lists of mixins as the search looks into. -/
lemma countP_wayUp_le (h : TellsApart g adopted bound cls) (hk : Walks k) (j : Option ℕ) :
    (wayUp g (fun cls => mixinVisits g cls) (searchSuper g) bound cls j).countP (counts adopted cls.isMeta) ≤
      (wayUp g (walkMixinVisits g) (walkSuper g) bound cls (some k)).countP (counts adopted cls.isMeta) := by
  induction bound generalizing cls j with
  | zero => exact Nat.zero_le _
  | succ bound ih =>
    obtain ⟨hcls, -, hsuper⟩ := h
    have hown : ∀ lists : List MethodList, (lists.map (cls, ·)).countP (counts adopted cls.isMeta) = 0 := by
      intro lists
      rw [List.countP_eq_zero]
      intro x hx
      obtain ⟨list, -, rfl⟩ := List.mem_map.1 hx
      simp [counts, hcls]
    have hmixins := (mixins_sublist g cls hk.mixins j).countP_le (p := counts adopted cls.isMeta)
    have habove := countP_above_le g cls adopted bound hk j ?_
    · rw [wayUp, wayUp, seen_listed, seen_listed, List.countP_append, List.countP_append, List.countP_append,
        List.countP_append, hown, hown]
      exact Nat.add_le_add_left (Nat.add_le_add hmixins habove) 0
    · intro supercls hs j
      rw [hs] at hsuper
      exact ih hsuper j

/-- The lists of the class object itself are told from what follows them. -/
lemma own_eq_of_append_eq {lists lists' : List MethodList} {rest rest' : List (Listed P)}
    (hrest : ∀ x ∈ rest, x.1 ≠ cls) (hrest' : ∀ x ∈ rest', x.1 ≠ cls)
    (h : lists.map (cls, ·) ++ rest = lists'.map (cls, ·) ++ rest') : lists = lists' ∧ rest = rest' := by
  have hown : ∀ lists : List MethodList, (lists.map (cls, ·)).filter (·.1 = cls) = lists.map (cls, ·) := by
    intro lists
    rw [List.filter_eq_self]
    intro x hx
    obtain ⟨list, -, rfl⟩ := List.mem_map.1 hx
    simp
  have hnone : ∀ rest : List (Listed P), (∀ x ∈ rest, x.1 ≠ cls) → rest.filter (·.1 = cls) = [] := by
    intro rest hrest
    rw [List.filter_eq_nil_iff]
    intro x hx
    simpa using hrest x hx
  have hfilter := congrArg (List.filter (·.1 = cls)) h
  rw [List.filter_append, List.filter_append, hown, hown, hnone rest hrest, hnone rest' hrest', List.append_nil,
    List.append_nil] at hfilter
  have hlists : lists = lists' := List.map_injective_iff.2 (fun _ _ heq => (Prod.mk.inj heq).2) hfilter
  subst hlists
  exact ⟨rfl, List.append_cancel_left h⟩

omit [DecidableEq P] in
/-- What follows the class object itself is something else. -/
lemma ne_of_mem_tail (hmixins : OfMixins g mixins) (h : TellsApart g adopted (bound + 1) cls) {i' : ClassRef P → Option ℕ}
    {x : Listed P} (hx : x ∈ seen (fun i => (mixins cls i).flatMap Visit.listed) i ++
      (g.superclass cls).elim [] fun supercls => wayUp g mixins next bound supercls (i' supercls)) : x.1 ≠ cls := by
  obtain ⟨hcls, hadopted, hsuper⟩ := h
  have hne : adopted x.1 = true → x.1 ≠ cls := by
    intro hx heq
    rw [heq, hcls] at hx
    cases hx
  rcases List.mem_append.1 hx with hx | hx
  · obtain ⟨proto, hproto, hself, heq⟩ := mem_mixins hmixins hx
    exact hne (heq ▸ hadopted proto hproto hself)
  · cases hs : g.superclass cls with
    | none =>
      rw [hs] at hx
      cases hx
    | some supercls =>
      rw [hs] at hx hsuper
      have hlt := ClassGraph.rank_superclass hs
      rcases adopted_or_rank_le hmixins hsuper hx with hx | hx
      · exact hne hx
      · intro heq
        rw [heq] at hx
        omega

/-- **Where the mixins are told from the superclasses, the same lists are the same lists of each class object and of its
mixins.**  The induction is on the superclasses. -/
lemma sameLists_of_wayUp_eq (h : TellsApart g adopted bound cls) (hi : NoMixins i ∨ ∃ k, i = some k ∧ Walks k)
    (heq : wayUp g (walkMixinVisits g) (walkSuper g) bound cls i =
      wayUp g (fun cls => mixinVisits g cls) (searchSuper g) bound cls j) : SameLists g bound cls i j := by
  induction bound generalizing cls i j with
  | zero => trivial
  | succ bound ih =>
    rw [wayUp, wayUp, seen_listed, seen_listed] at heq
    obtain ⟨hown, htail⟩ := own_eq_of_append_eq (fun x => ne_of_mem_tail (ofMixins_walk g) h)
      (fun x => ne_of_mem_tail (ofMixins_search g) h) heq
    obtain ⟨hcls, hadopted, hsuper⟩ := h
    have hmixins : seen (fun i => (walkMixinVisits g cls i).flatMap Visit.listed) i =
        seen (fun j => (mixinVisits g cls j).flatMap Visit.listed) j := by
      rcases hi with hi | ⟨k, rfl, hk⟩
      · rw [walkMixins_of_noMixins hi, List.nil_append] at htail
        rw [walkMixins_of_noMixins hi, eq_comm, List.eq_nil_iff_forall_not_mem]
        intro x hx
        obtain ⟨proto, hproto, hself, hxcls⟩ := mem_mixins (ofMixins_search g) hx
        have htrue : adopted x.1 = true := hxcls ▸ hadopted proto hproto hself
        have hfalse : adopted x.1 = false := by
          have hmem := htail ▸ List.mem_append_left _ hx
          cases hs : g.superclass cls with
          | none =>
            rw [hs] at hmem
            cases hmem
          | some supercls =>
            rw [hs] at hmem hsuper
            exact not_adopted_of_noMixins hsuper hi.bind hmem
        rw [htrue] at hfalse
        cases hfalse
      · have habove := countP_above_le g cls adopted bound hk j ?_
        · have hcount := congrArg (List.countP (counts adopted cls.isMeta)) htail
          rw [List.countP_append, List.countP_append, countP_mixins (ofMixins_walk g) hadopted,
            countP_mixins (ofMixins_search g) hadopted] at hcount
          refine ((mixins_sublist g cls hk.mixins j).eq_of_length_le ?_).symm
          have hseen : seen (fun i => (walkMixinVisits g cls i).flatMap Visit.listed) (some k) =
            (walkMixinVisits g cls k).flatMap Visit.listed := rfl
          rw [hseen] at hcount
          omega
        · intro supercls hs j
          rw [hs] at hsuper
          exact countP_wayUp_le hsuper hk j
    refine ⟨hown, hmixins, ?_⟩
    rw [hmixins] at htail
    have hrest := List.append_cancel_left htail
    cases hs : g.superclass cls with
    | none => trivial
    | some supercls =>
      rw [hs] at hrest hsuper
      refine ih hsuper ?_ hrest
      rcases hi with hi | ⟨k, rfl, hk⟩
      · exact Or.inl hi.bind
      · rcases hk.bind hs with ⟨-, hbind⟩ | ⟨-, -, hnone⟩
        · exact Or.inr ⟨k, hbind, hk⟩
        · exact Or.inl hnone

omit [DecidableEq P] in
lemma wayUp_of_end (hnext : ∀ supercls, next cls supercls k = none) :
    wayUp g mixins next (bound + 1) cls (some k) =
      (ownVisit g cls k).listed ++ (mixins cls k).flatMap Visit.listed := by
  have habove : ((g.superclass cls).elim [] fun supercls =>
      wayUp g mixins next bound supercls ((some k).bind (next cls supercls))) = [] := by
    cases g.superclass cls with
    | none => rfl
    | some supercls =>
      simp only [Option.elim, Option.bind_some, hnext]
      exact wayUp_none _ _ _ _
  rw [wayUp, habove, List.append_nil]
  rfl

lemma sameLists_none (g : ClassGraph P) (bound : ℕ) (cls : ClassRef P) : SameLists g bound cls none none := by
  induction bound generalizing cls with
  | zero => trivial
  | succ bound ih =>
    refine ⟨rfl, rfl, ?_⟩
    cases g.superclass cls with
    | none => trivial
    | some supercls => exact ih supercls

end Converse

/-- The class object and its superclasses, with a bound on their number -/
def superclasses (g : ClassGraph P) : ℕ → ClassRef P → List (ClassRef P)
  | 0, _ => []
  | bound + 1, cls => cls :: (g.superclass cls).elim [] (superclasses g bound)

/-- The class itself or one of its superclasses is a mixin that one of them adopts. -/
def AdoptsSuperclass (g : ClassGraph P) (cls : ClassRef P) : Prop :=
  ∃ c ∈ superclasses g (g.rank cls + 1) cls, ∃ proto ∈ (g.pair c.pair).mixins,
    proto ≠ c.pair ∧ mixinRef c proto ∈ superclasses g (g.rank cls + 1) cls

lemma tellsApart {classes : List (ClassRef P)} {bound : ℕ} (hsub : ∀ c ∈ superclasses g bound cls, c ∈ classes)
    (h : ∀ c ∈ classes, ∀ proto ∈ (g.pair c.pair).mixins, proto ≠ c.pair → mixinRef c proto ∉ classes) :
    TellsApart g (fun c => decide (c ∉ classes)) bound cls := by
  induction bound generalizing cls with
  | zero => trivial
  | succ bound ih =>
    have hcls := hsub cls (List.mem_cons_self ..)
    refine ⟨by simpa using hcls, ?_, ?_⟩
    · intro proto hproto hself
      simpa using h cls hcls proto hproto hself
    · cases hs : g.superclass cls with
      | none => trivial
      | some supercls =>
        apply ih
        intro c hc
        apply hsub
        rw [superclasses, hs]
        exact List.mem_cons_of_mem _ hc

/-- Where no superclass is a mixin as well, the walk is right only with the same lists everywhere. -/
lemma sameLists_of_replicates (hadopts : ¬ AdoptsSuperclass g cls) (h : Replicates g cls) :
    SameLists g (g.rank cls + 1) cls (some (g.inheritance cls)) (some (g.inheritance cls)) := by
  have heq := replicates_iff_lists.1 h
  rw [searchLists_eq, walkLists] at heq
  have happart : TellsApart g (fun c => decide (c ∉ superclasses g (g.rank cls + 1) cls)) (g.rank cls + 1) cls := by
    apply tellsApart (fun _ hc => hc)
    intro c hc proto hproto hself hmem
    exact hadopts ⟨c, hc, proto, hproto, hself, hmem⟩
  by_cases hmixins : has (g.inheritance cls) dontInheritProtocols = true
  · refine sameLists_of_wayUp_eq happart (Or.inl ?_) heq
    rintro _ ⟨⟩
    exact hmixins
  by_cases hsuper : has (g.inheritance cls) dontInheritSuperclass = true
  · have hwalk : ∀ supercls, walkSuper g cls supercls (g.inheritance cls) = none := fun _ => if_pos hsuper
    have hsearch : ∀ supercls, searchSuper g cls supercls (g.inheritance cls) = none := fun _ => if_pos hsuper
    rw [wayUp_of_end hwalk, wayUp_of_end hsearch] at heq
    refine ⟨rfl, List.append_cancel_left heq, ?_⟩
    cases g.superclass cls with
    | none => trivial
    | some supercls =>
      simp only [Option.elim, Option.bind_some, hwalk, hsearch]
      exact sameLists_none _ _ _
  · exact sameLists_of_wayUp_eq happart (Or.inr ⟨_, rfl, by simpa using hmixins, by simpa using hsuper⟩) heq

/-- **When the walk visits the lists in the order of the search**: when each class object on the way up has the same
lists with the inheritance of the walk and with that of the search, and so have its mixins; and, unless a superclass is
adopted as a mixin as well, only then. -/
theorem replicates_iff (g : ClassGraph P) (cls : ClassRef P) :
    (SameLists g (g.rank cls + 1) cls (some (g.inheritance cls)) (some (g.inheritance cls)) → Replicates g cls) ∧
      (¬ AdoptsSuperclass g cls → Replicates g cls →
        SameLists g (g.rank cls + 1) cls (some (g.inheritance cls)) (some (g.inheritance cls))) := by
  refine ⟨?_, sameLists_of_replicates⟩
  intro h
  rw [replicates_iff_lists, searchLists_eq]
  exact wayUp_eq_of_sameLists h

/-- **The walk hands out the lists of a mixin that hides its methods.** -/
theorem walk_ignores_mixin_flags :
    ¬ Replicates hiddenMixinGraph ⟨1, false⟩ ∧
      (methodlistWalk hiddenMixinGraph (fun _ => .ok) ⟨1, false⟩).2.map Prod.fst = [⟨0, false⟩, ⟨1, false⟩] ∧
      searchLists hiddenMixinGraph ⟨1, false⟩ = [(⟨1, false⟩, .empty)] := by
  have hsearch : searchLists hiddenMixinGraph ⟨1, false⟩ = [(⟨1, false⟩, .empty)] := by decide
  have hwalk : (methodlistWalk hiddenMixinGraph (fun _ => .ok) ⟨1, false⟩).2.map Prod.fst =
      [⟨0, false⟩, ⟨1, false⟩] := by decide
  refine ⟨?_, hwalk, hsearch⟩
  intro h
  rw [h.walk, hsearch] at hwalk
  exact absurd hwalk (by decide)

end MulleObjcRuntime.Search
