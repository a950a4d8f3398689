import MulleObjcRuntime.Search.Default

/-!
# Enumerating the implementations of one class object

`+unload`, `+initializeSelf` and `+deinitializeSelf` are called for every implementation in the lists of a
metaclass: a default search, then searches for the method previous to the one just found, always without mixins
and superclasses.

* `nthImplementation` — what the enumeration comes upon;
* `searchMethod_previous_met`, `searchMethod_previous_missed` — a previous search gets past its method only when
  no other implementation comes first;
* `nthImplementation_eq_iff` — the enumeration is right exactly up to two implementations.
-/

namespace MulleObjcRuntime.Search

open Classes

variable {P : Type} [DecidableEq P] {search : SearchArguments P} {g : ClassGraph P} {cls : ClassRef P}
  {found : Option Method} {st : SearchState P}

/-- The inheritance of the enumeration: `DONT_INHERIT_SUPERCLASS|DONT_INHERIT_PROTOCOLS`. -/
def ownInheritance : ℕ := dontInheritSuperclass ||| dontInheritProtocols

/-- The enumeration: a default search, then a previous search for the method just found. -/
def nthImplementation (g : ClassGraph P) (cls : ClassRef P) (methodid : ℕ) : ℕ → Option (Hit P)
  | 0 => returned (searchMethod g [] cls (.makeDefault methodid) ownInheritance)
  | n + 1 => (nthImplementation g cls methodid n).bind fun h =>
      returned (searchMethod g [] cls (.makePrevious h.method) ownInheritance)

/-- The implementations of a method in the lists of a class object, last added first. -/
def implementations (g : ClassGraph P) (cls : ClassRef P) (methodid : ℕ) : List (Hit P) :=
  Visit.hits methodid ⟨cls, (g.methodlists cls).reverse⟩

omit [DecidableEq P] in
lemma methodid_of_mem_implementations {methodid : ℕ} {h : Hit P} (hm : h ∈ implementations g cls methodid) :
    h.method.methodid = methodid := by
  unfold implementations Visit.hits at hm
  obtain ⟨list, -, hl⟩ := List.mem_filterMap.1 hm
  obtain ⟨m, hs, rfl⟩ := Option.map_eq_some_iff.1 hl
  exact (MethodList.search_eq_some hs).2

/-! ## The class object alone -/

omit [DecidableEq P] in
lemma ownVisit_own : ownVisit g cls ownInheritance = ⟨cls, (g.methodlists cls).reverse⟩ := rfl

lemma hits_own (methodid : ℕ) :
    hits methodid (linearization g cls ownInheritance) = implementations g cls methodid := by
  rw [linearization_own (by decide) (by decide), ownVisit_own]
  simp [hits, implementations]

lemma nextClass_own {frame : Frame P} :
    nextClass g search frame cls found ownInheritance st = (.ofFound found, st) := by
  have h1 : has ownInheritance dontInheritProtocols = true := by decide
  have h2 : has ownInheritance dontInheritSuperclass = true := by decide
  simp only [nextClass, h1, if_true, searchSuperclass, h2]
  split <;> rfl

/-! ## A previous search -/

section Loop

omit [DecidableEq P]

variable {inheritance : ℕ}

/-- The loop of a previous search up to the first implementation: there the search either is past its method or
the implementation counts. -/
lemma searchMethodlists_previous (search : SearchArguments P) (g : ClassGraph P) (cls : ClassRef P) (inheritance : ℕ)
    (hcb : search.callback = none) {h : Hit P} {rest : List (Hit P)}
    (hnf : isPreviousMethod search h.method = false → h.method.isHiddenOverrideFatal = false)
    (lists : List MethodList) (i : ℕ) (st : SearchState P) (hst : st.mode = .previousMethod)
    (hhits : Visit.hits search.methodid ⟨cls, lists⟩ = h :: rest) :
    if isPreviousMethod search h.method = true then
      ∃ lists' j, Visit.hits search.methodid ⟨cls, lists'⟩ = rest ∧
        searchMethodlists g search cls 0 lists i none inheritance st =
          searchMethodlists g search cls 0 lists' j none inheritance { st with mode := .previousMethod2 }
    else
      searchMethodlists g search cls 0 lists i none inheritance st =
        .ret (.found h.method) { st with result := some h } := by
  induction lists generalizing i with
  | nil => cases hhits
  | cons list lists ih =>
    rw [searchMethodlists_cons]
    have hsearch : methodlistSearch search st.mode list = list.search search.methodid := by
      simp [methodlistSearch, hst]
    cases hl : list.search search.methodid with
    | none =>
      have hstep : searchMethodlist g search cls none inheritance list st = .next none inheritance st := by
        simp only [searchMethodlist, lookInMethodlist, hst]
        rw [hst] at hsearch
        simp [hsearch, hl]
      rw [hstep]
      exact ih (i + 1) (by simpa [Visit.hits, hl] using hhits)
    | some method =>
      have hcons : (⟨cls, list, method⟩ : Hit P) :: Visit.hits search.methodid ⟨cls, lists⟩ = h :: rest := by
        simpa [Visit.hits, hl] using hhits
      obtain ⟨rfl, rfl⟩ := List.cons_eq_cons.1 hcons
      have hstep : searchMethodlist g search cls none inheritance list st =
          if isPreviousMethod search method = true then
            .next none inheritance { st with mode := .previousMethod2 }
          else countMethod search cls none inheritance list method st := by
        simp only [searchMethodlist, lookInMethodlist, hst]
        rw [hst] at hsearch
        simp [hsearch, hl]
      rw [hstep]
      by_cases hp : isPreviousMethod search method = true
      · rw [if_pos hp, if_pos hp]
        exact ⟨lists, i + 1, rfl, rfl⟩
      · rw [if_neg hp, if_neg hp, countMethod_eq hcb]
        have := hnf (by simpa using hp)
        simp only at this
        simp [keepMethod, this]

end Loop

lemma searchMethodInternal_previous (hcb : search.callback = none) (hstop : search.stopClassid = 0)
    (fuel : ℕ) (hst : st.mode = .previousMethod) :
    searchMethodInternal search g (fuel + 1) cls ownInheritance st =
      (searchMethodlists g search cls 0 (g.methodlists cls).reverse 0 none ownInheritance st).andThen
        (afterMethodlists g search (searchMethodInternal search g fuel) cls) := by
  rw [searchMethodInternal]
  unfold searchFrame
  rw [hst]
  exact searchClass_eq hcb (by rw [hstop]; exact ClassGraph.classid_ne_zero)

/-- **A previous search whose method comes first** settles on the implementations after it. -/
theorem searchMethod_previous_met {methodid : ℕ} {x : Method} {h : Hit P} {rest : List (Hit P)}
    (hx : x.methodid = methodid) (himpl : implementations g cls methodid = h :: rest)
    (haddr : x.address = h.method.address) :
    Returns (searchMethod g [] cls (.makePrevious x) ownInheritance) (pick rest) := by
  have hp : isPreviousMethod (.makePrevious x : SearchArguments P) h.method = true := by
    simp [isPreviousMethod, SearchArguments.makePrevious, haddr]
  subst hx
  have hloop := searchMethodlists_previous (.makePrevious x) g cls ownInheritance rfl (fun h0 => absurd hp (by simp [h0])) (g.methodlists cls).reverse 0
    ⟨.previousMethod, .ENOENT, none, []⟩ rfl himpl
  rw [if_pos hp] at hloop
  obtain ⟨lists, j, hrest, hloop⟩ := hloop
  rw [searchMethod_eq .previousMethod rfl, searchMethodOnce,
    searchMethodInternal_previous rfl rfl _ rfl, hloop]
  have hnext : ∀ found (st : SearchState P), st.mode = .previousMethod2 →
      Settles found st ⟨.previousMethod2, [], false⟩
        (afterMethodlists g (.makePrevious x)
          (searchMethodInternal (.makePrevious x) g (g.rank cls + 1)) cls found ownInheritance st) := by
    intro found st hst
    rw [afterMethodlists, if_neg (by rw [hst]; decide), nextClass_own, ← hst]
    exact settles_nil (.makePrevious x) g found st
  have hsettles := searchMethodlists_settles (.makePrevious x) g cls ownInheritance rfl .previousMethod2 hnext lists j
    none ⟨.previousMethod2, .ENOENT, none, []⟩ rfl
  have hcounted : counted (.makePrevious x) g .previousMethod2 cls lists = rest := by
    rw [← hrest]
    exact counted_eq_hits (.makePrevious x) g (by decide) (by decide) ⟨cls, lists⟩
  rw [hcounted, List.append_nil] at hsettles
  exact (returns_of_settled rfl .previousMethod2 rfl hsettles).1

/-- **A previous search before whose method another implementation comes** returns nothing: the other one
counts while the method has not been met. -/
theorem searchMethod_previous_missed {methodid : ℕ} {x : Method} {h : Hit P} {rest : List (Hit P)}
    (hx : x.methodid = methodid) (himpl : implementations g cls methodid = h :: rest)
    (haddr : x.address ≠ h.method.address) (hnf : h.method.isHiddenOverrideFatal = false) :
    Returns (searchMethod g [] cls (.makePrevious x) ownInheritance) none := by
  have hp : ¬ isPreviousMethod (.makePrevious x : SearchArguments P) h.method = true := by
    simp [isPreviousMethod, SearchArguments.makePrevious, haddr]
  subst hx
  have hloop := searchMethodlists_previous (.makePrevious x) g cls ownInheritance rfl (fun _ => hnf) (g.methodlists cls).reverse 0
    ⟨.previousMethod, .ENOENT, none, []⟩ rfl himpl
  rw [if_neg hp] at hloop
  rw [searchMethod_eq .previousMethod rfl, searchMethodOnce,
    searchMethodInternal_previous rfl rfl _ rfl, hloop]
  rfl

/-! ## The enumeration -/

section Enumeration

variable {methodid : ℕ} {h a b : Hit P} {rest : List (Hit P)}

lemma nthImplementation_zero (g : ClassGraph P) (cls : ClassRef P) (methodid : ℕ) :
    nthImplementation g cls methodid 0 = pick (implementations g cls methodid) := by
  rw [← hits_own]
  exact (searchMethod_default g cls methodid ownInheritance).1.returned_eq

lemma nthImplementation_none {n : ℕ} (hn : nthImplementation g cls methodid n = none) (k : ℕ) :
    nthImplementation g cls methodid (n + k) = none := by
  induction k with
  | zero => exact hn
  | succ k ih =>
    rw [← Nat.add_assoc, nthImplementation, ih]
    rfl

lemma nthImplementation_met {n : ℕ} (himpl : implementations g cls methodid = h :: rest) {x : Hit P}
    (hx : x ∈ implementations g cls methodid) (hn : nthImplementation g cls methodid n = some x)
    (haddr : x.method.address = h.method.address) :
    nthImplementation g cls methodid (n + 1) = pick rest := by
  rw [nthImplementation, hn]
  exact (searchMethod_previous_met (methodid_of_mem_implementations hx) himpl haddr).returned_eq

lemma nthImplementation_missed {n : ℕ} (himpl : implementations g cls methodid = h :: rest) {x : Hit P}
    (hx : x ∈ implementations g cls methodid) (hn : nthImplementation g cls methodid n = some x)
    (haddr : x.method.address ≠ h.method.address) (hnf : h.method.isHiddenOverrideFatal = false) :
    nthImplementation g cls methodid (n + 1) = none := by
  rw [nthImplementation, hn]
  exact (searchMethod_previous_missed (methodid_of_mem_implementations hx) himpl haddr hnf).returned_eq

/-- When the enumeration is right, there are at most two implementations. -/
lemma rest_eq_nil_of_enumerates (himpl : implementations g cls methodid = a :: b :: rest)
    (h : ∀ n, nthImplementation g cls methodid n = (implementations g cls methodid)[n]?) :
    rest = [] ∧ a.method.isHiddenOverrideFatal = false ∧ a.method.address ≠ b.method.address := by
  have h0 : nthImplementation g cls methodid 0 = some a := by rw [h, himpl]; rfl
  have h1 : nthImplementation g cls methodid 1 = some b := by rw [h, himpl]; rfl
  have ha : a ∈ implementations g cls methodid := by simp [himpl]
  have hb : b ∈ implementations g cls methodid := by simp [himpl]
  have hnf : a.method.isHiddenOverrideFatal = false := by
    rw [nthImplementation_zero, himpl, pick] at h0
    split at h0
    · cases h0
    · simp_all
  have haddr : a.method.address ≠ b.method.address := by
    -- otherwise `b` is found over and over again
    intro haddr
    have hpick : pick (b :: rest) = some b := by
      rw [← nthImplementation_met himpl ha h0 rfl, h1]
    have hloop : ∀ n, nthImplementation g cls methodid (n + 1) = some b := by
      intro n
      induction n with
      | zero => exact h1
      | succ n ih => rw [nthImplementation_met himpl hb ih haddr.symm, hpick]
    have := hloop (implementations g cls methodid).length
    rw [h, List.getElem?_eq_none (by omega)] at this
    cases this
  have h2 := nthImplementation_missed himpl hb h1 haddr.symm hnf
  rw [h, himpl] at h2
  refine ⟨?_, hnf, haddr⟩
  cases rest with
  | nil => rfl
  | cons c rest => simp at h2

end Enumeration

/-- **The enumeration comes upon every implementation once**, from the last added to the first, and then ends,
exactly when there are at most two of them: with a third one the search for the method previous to the second
meets the first, which counts. -/
theorem nthImplementation_eq_iff (g : ClassGraph P) (cls : ClassRef P) (methodid : ℕ) :
    (∀ n, nthImplementation g cls methodid n = (implementations g cls methodid)[n]?) ↔
      (implementations g cls methodid).length ≤ 2 ∧
        ∀ a b, implementations g cls methodid = [a, b] →
          a.method.isHiddenOverrideFatal = false ∧ a.method.address ≠ b.method.address := by
  constructor
  · intro h
    rcases himpl : implementations g cls methodid with _ | ⟨a, _ | ⟨b, rest⟩⟩
    · exact ⟨by simp, fun a b hab => by cases hab⟩
    · exact ⟨by simp, fun a b hab => by cases hab⟩
    · obtain ⟨rfl, hnf, haddr⟩ := rest_eq_nil_of_enumerates himpl h
      refine ⟨by simp, fun a' b' hab => ?_⟩
      cases hab
      exact ⟨hnf, haddr⟩
  · rintro ⟨hlen, htwo⟩
    have h0 := nthImplementation_zero g cls methodid
    -- it suffices to follow the enumeration to its end
    have hend : ∀ N, (implementations g cls methodid).length ≤ N →
        nthImplementation g cls methodid N = none → ∀ n, N ≤ n →
          nthImplementation g cls methodid n = (implementations g cls methodid)[n]? := by
      intro N hN hnone n hn
      obtain ⟨k, rfl⟩ := Nat.exists_eq_add_of_le hn
      rw [nthImplementation_none hnone, List.getElem?_eq_none (by omega)]
    rcases himpl : implementations g cls methodid with _ | ⟨a, _ | ⟨b, rest⟩⟩
    · rw [himpl] at h0 hend
      exact fun n => hend 0 (by simp) h0 n (by omega)
    · rw [himpl] at h0 hend
      have h0 : nthImplementation g cls methodid 0 = some a := by simpa [pick] using h0
      have h1 := nthImplementation_met himpl (by simp [himpl]) h0 rfl
      intro n
      rcases n with _ | n
      · exact h0
      · exact hend 1 (by simp) h1 (n + 1) (by omega)
    · have : rest = [] := by
        rw [himpl] at hlen
        cases rest with
        | nil => rfl
        | cons c rest => simp at hlen
      subst this
      obtain ⟨hnf, haddr⟩ := htwo a b himpl
      rw [himpl] at h0 hend
      have h0 : nthImplementation g cls methodid 0 = some a := by simpa [pick, hnf] using h0
      have h1 := nthImplementation_met himpl (by simp [himpl]) h0 rfl
      have h1 : nthImplementation g cls methodid 1 = some b := by simpa [pick] using h1
      have h2 := nthImplementation_missed himpl (by simp [himpl]) h1 haddr.symm hnf
      intro n
      rcases n with _ | _ | n
      · exact h0
      · exact h1
      · exact hend 2 (by simp) h2 (n + 2) (by omega)

/-- A class with two categories, all three with the class method `7`. -/
def threeImplementationsGraph : ClassGraph ℕ :=
  ClassGraph.ofList
    [ClassGraph.pairOf 1 none [] false ⟨0, [.empty]⟩
      ⟨0, [.single 0 ⟨100, 7, 0, 1000⟩, .single 41 ⟨101, 7, 0, 1001⟩, .single 42 ⟨102, 7, 0, 1002⟩]⟩]

/-- The enumeration ends before the `@implementation` of the class. -/
theorem third_implementation_missed :
    ¬ ∀ n, nthImplementation threeImplementationsGraph ⟨0, true⟩ 7 n =
      (implementations threeImplementationsGraph ⟨0, true⟩ 7)[n]? :=
  fun h => absurd (h 2) (by decide)

end MulleObjcRuntime.Search
