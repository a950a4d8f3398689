import MulleObjcRuntime.Caches.Categories
import MulleObjcRuntime.Caches.Loading

/-!
# What a class answers

* `fresh` — what a search without any cache comes to;
* `fresh_new` — a class or a mixin changes no answer;
* `Touches`, `searched_category`, `Leaves` — a category changes what it touches only;
* `Right` — what a class has cached for some keys, and its forward method, is what such a search comes to;
* `Right.moves` — a class stays right when it is asked for something;
* `Right.forgets` — a load keeps it right when it changes no answer the class goes on to give;
* `Right.call`, `Right.callSuper`, `Right.lookup`, `Right.lookupSuper` — what a right class gets to.
-/

namespace MulleObjcRuntime.Caches

open Classes Impcache Dispatch Relation

/-! ## Searching without a cache -/

section Fresh

variable (p : Setting) (u : Universe) (cls : ClassRef ℕ)

/-- The method that is searched for, without a forward method. -/
def searched (key : Key) : Option Method := found p u cls none key

/-- What a search without any cache comes to: its method, else the forward method. -/
def fresh : Key → Except Stop ℕ
  | .method methodid => answer methodid (freshMethod p u cls methodid)
  | .super superid =>
    match p.superids superid with
    | none => .error (.superNotFound superid)
    | some (classid, methodid) => answer methodid (freshSupermethod p u cls methodid classid)

/-- What a search comes to when the forward method is `forward`. -/
def answerWith (forward : Option Method) : Key → Except Stop ℕ
  | .method methodid => answer methodid (found p u cls forward (.method methodid))
  | .super superid =>
    match p.superids superid with
    | none => .error (.superNotFound superid)
    | some (_, methodid) => answer methodid (found p u cls forward (.super superid))

/-- A methodid, or a superid that is registered. -/
def Askable : Key → Prop
  | .method methodid => methodid ≠ 0
  | .super superid => superid ≠ 0 ∧ p.superids superid ≠ none

variable {p u cls} {key : Key} {forward : Option Method} {method : Method}

lemma Askable.uniqueid_ne_zero (h : Askable p key) : key.uniqueid ≠ 0 := by
  cases key with
  | method methodid => exact h
  | super superid => exact h.1

lemma fresh_eq : fresh p u cls key = answerWith p u cls (freshForwardmethod p u cls) key := by
  cases key with
  | method methodid => rfl
  | super superid =>
    rw [fresh, answerWith]
    cases hsuper : p.superids superid with
    | none => rfl
    | some ids => simp only [found_super u _ hsuper, freshSupermethod]

lemma answerFor_eq {state : ClassState} : answerFor p cls ⟨u, state⟩ key =
    answerWith p u cls (state.forwardmethod.or (freshForwardmethod p u cls)) key := by
  cases key <;> rfl

lemma answerWith_of_found (h : found p u cls forward key = some method) :
    answerWith p u cls forward key = .ok method.implementation := by
  cases key with
  | method methodid =>
    rw [answerWith, h]
    rfl
  | super superid =>
    obtain ⟨ids, hsuper, -⟩ := Option.bind_eq_some_iff.1 h
    simp only [answerWith, hsuper, h]
    rfl

lemma found_eq (hkey : Askable p key) : found p u cls forward key = (searched p u cls key).or forward := by
  cases key with
  | method methodid => rw [searched, found_method, found_method, Option.or_none]
  | super superid =>
    obtain ⟨ids, hsuper⟩ := Option.ne_none_iff_exists'.1 hkey.2
    rw [searched, found_super u forward hsuper, found_super u none hsuper, Option.or_none]

lemma fresh_of_searched (hkey : Askable p key) (h : searched p u cls key = some method) :
    fresh p u cls key = .ok method.implementation := by
  rw [fresh_eq]
  apply answerWith_of_found
  rw [found_eq hkey, h, Option.some_or]

lemma fresh_of_missing (hkey : Askable p key) (h : searched p u cls key = none)
    (hforward : freshForwardmethod p u cls = some method) : fresh p u cls key = .ok method.implementation := by
  rw [fresh_eq]
  apply answerWith_of_found
  rw [found_eq hkey, h, Option.none_or, hforward]

lemma fresh_congr {u' : Universe} (hkey : Askable p key) (h : searched p u' cls key = searched p u cls key)
    (hforward : searched p u cls key = none → freshForwardmethod p u' cls = freshForwardmethod p u cls) :
    fresh p u' cls key = fresh p u cls key := by
  cases hsearched : searched p u cls key with
  | some method => rw [fresh_of_searched hkey hsearched, fresh_of_searched hkey (h.trans hsearched)]
  | none =>
    have hfound : ∀ forward, found p u' cls forward key = found p u cls forward key := by
      intro forward
      rw [found_eq hkey, found_eq hkey, h]
    rw [fresh_eq, fresh_eq, hforward hsearched]
    cases key with
    | method methodid => rw [answerWith, answerWith, hfound]
    | super superid => simp only [answerWith, hfound]

end Fresh

/-! ## Loads that do not matter -/

section Loads

variable {p : Setting} {u u' : Universe} {cls : ClassRef ℕ} {key : Key} {item : Load.LoadItem}

/-- The search for the key is one for the method. -/
def Searches (p : Setting) : Key → ℕ → Prop
  | .method methodid, other => methodid = other
  | .super superid, other => ∃ classid, p.superids superid = some (classid, other)

lemma searched_of_agreeOn {S : ℕ → Prop} (hcls : S cls.pair)
    (h : ∀ methodid, Searches p key methodid → Invalidation.AgreeOn u.graph u'.graph methodid S) :
    searched p u' cls key = searched p u cls key := by
  cases key with
  | method methodid =>
    rw [searched, searched, found_method, found_method, (h methodid rfl).defaultsearchMethod cls hcls]
  | super superid =>
    cases hsuper : p.superids superid with
    | none => simp only [searched, found, hsuper, Option.bind_none]
    | some ids =>
      obtain ⟨classid, methodid⟩ := ids
      rw [searched, searched, found_super u none hsuper, found_super u' none hsuper]
      exact congrArg (Option.or · none) ((h methodid ⟨classid, hsuper⟩).supersearch cls hcls classid)

/-- **A class or a mixin** changes no answer of the classes that are loaded. -/
lemma fresh_new (hu : Adopted u) {r : ℕ × String × ℕ × Bool} (hitem : item.summary = some r)
    (h : item.install p.load u = .ok u') (hcls : cls.pair < u.pairs.length) :
    freshForwardmethod p u' cls = freshForwardmethod p u cls ∧
      ∀ key, searched p u' cls key = searched p u cls key := by
  constructor
  · unfold freshForwardmethod
    rw [(agreeOn_new hu hitem h forwardMethodid).defaultsearchMethod cls hcls]
  · intro key
    exact searched_of_agreeOn hcls fun methodid _ => agreeOn_new hu hitem h methodid

/-- The visits of a search for the key, were it not to end. -/
def way (p : Setting) (u : Universe) (cls : ClassRef ℕ) : Key → List (Search.Visit ℕ)
  | .method _ => Search.linearization u.graph cls (u.graph.inheritance cls)
  | .super superid =>
    match p.superids superid with
    | none => []
    | some (classid, _) =>
      Search.behindClass u.graph classid (Search.linearization u.graph cls (u.graph.inheritance cls))

/-- A mixin with a method that the search for the key is for, or the one that a superid names. -/
def Offers (p : Setting) (u : Universe) (key : Key) (proto : ℕ) : Prop :=
  (∃ superid, key = .super superid ∧ ∃ ids ∈ p.superids superid, (u.graph.pair proto).classid = ids.1) ∨
    ∃ methodid, Searches p key methodid ∧ ∃ isMeta, ∃ list ∈ u.graph.methodlists ⟨proto, isMeta⟩, list.search methodid ≠ none

/-- **A category touches a key** in a class: the search for it comes to the category's class, where the category adds a
method that it is for; or the category's class is one that the class inherits from, and gets a mixin with such a method. -/
inductive Touches (p : Setting) (u : Universe) (info : Load.LoadCategory) (cls : ClassRef ℕ) (key : Key) : Prop
  | methodlist {infra methodid : ℕ} {isMeta : Bool} {list : MethodList} (hclass : u.lookup info.classid = some infra)
      (hlist : info.methodlist isMeta = some list) (hsearches : Searches p key methodid)
      (hmethod : list.search methodid ≠ none) (hway : ⟨infra, isMeta⟩ ∈ comesTo methodid (way p u cls key))
  | mixin {infra mixinid proto : ℕ} (hclass : u.lookup info.classid = some infra) (hmixinid : mixinid ∈ info.mixinids)
      (hproto : u.lookup mixinid = some proto) (hoffers : Offers p u key proto)
      (hway : ∃ v ∈ Search.linearization u.graph cls (u.graph.inheritance cls), v.cls.pair = infra)

lemma hits_of_visitsMixin {mixins : List ℕ} {methodid : ℕ} {v : Search.Visit ℕ} (h : VisitsMixin u.graph mixins v)
    (hmixins : ∀ proto ∈ mixins, ∀ isMeta, ∀ list ∈ u.graph.methodlists ⟨proto, isMeta⟩, list.search methodid = none) :
    v.hits methodid = [] := by
  unfold Search.Visit.hits
  rw [List.filterMap_eq_nil_iff]
  intro list hlist
  rw [hmixins v.cls.pair h.1 v.cls.isMeta list (h.2 list hlist)]
  rfl

/-- **A category** changes nothing it does not touch. -/
lemma searched_category {info : Load.LoadCategory} (htouches : ¬ Touches p u info cls key)
    (h : (Load.LoadItem.loadcategory info).install p.load u = .ok u') :
    searched p u' cls key = searched p u cls key := by
  obtain ⟨infra, mixins, hclass, hmixins, hwidens⟩ := widens_install h
  -- the mixins are passed by only where the category's class is on the way, and offer nothing there
  have hoffers : ∀ proto ∈ mixins, (∃ v ∈ Search.linearization u.graph cls (u.graph.inheritance cls), v.cls.pair = infra) →
      ¬ Offers p u key proto := by
    intro proto hproto hway hoffers
    obtain ⟨mixinid, hmixinid, hlookup⟩ := hmixins proto hproto
    exact htouches (.mixin hclass hmixinid hlookup hoffers hway)
  have hgains : ∀ {methodid c}, Searches p key methodid → c ∈ comesTo methodid (way p u cls key) →
      ¬ Gains infra info.methodlist methodid c := by
    rintro methodid ⟨_, isMeta⟩ hsearches hway ⟨rfl, list, hlist, hmethod⟩
    exact htouches (.methodlist hclass hlist hsearches hmethod hway)
  have hwidened : ∀ methodid, Widened methodid (Gains infra info.methodlist methodid)
      (fun v => (∃ v ∈ Search.linearization u.graph cls (u.graph.inheritance cls), v.cls.pair = infra) ∧
        VisitsMixin u.graph mixins v)
      (Search.linearization u'.graph cls (u.graph.inheritance cls))
      (Search.linearization u.graph cls (u.graph.inheritance cls)) :=
    fun methodid => hwidens.linearization cls _ fun v hv hpair => ⟨v, hv, hpair⟩
  have hempty : ∀ {methodid}, Searches p key methodid → ∀ v : Search.Visit ℕ,
      (∃ v ∈ Search.linearization u.graph cls (u.graph.inheritance cls), v.cls.pair = infra) ∧
        VisitsMixin u.graph mixins v → v.hits methodid = [] := by
    rintro methodid hsearches v ⟨hway, hvisits⟩
    refine hits_of_visitsMixin hvisits fun proto hproto isMeta list hlist => ?_
    by_contra hne
    exact hoffers proto hproto hway (Or.inr ⟨methodid, hsearches, isMeta, list, hlist, hne⟩)
  cases key with
  | method methodid =>
    rw [searched, searched, found_method, found_method, Invalidation.defaultsearchMethod_eq,
      Invalidation.defaultsearchMethod_eq, hwidens.inheritance,
      (hwidened methodid).pick_hits (hempty rfl) fun c hc => hgains rfl hc]
  | super superid =>
    cases hsuper : p.superids superid with
    | none => simp only [searched, found, hsuper, Option.bind_none]
    | some ids =>
      obtain ⟨classid, methodid⟩ := ids
      have hsearches : Searches p (.super superid) methodid := ⟨classid, hsuper⟩
      have hother : ∀ v : Search.Visit ℕ,
          (∃ v ∈ Search.linearization u.graph cls (u.graph.inheritance cls), v.cls.pair = infra) ∧
            VisitsMixin u.graph mixins v → u.graph.classid v.cls ≠ classid := by
        rintro v ⟨hway, hvisits⟩ hclassid
        exact hoffers v.cls.pair hvisits.1 hway (Or.inl ⟨superid, rfl, _, hsuper, hclassid⟩)
      have hway : ∀ c ∈ comesTo methodid (Search.behindClass u.graph classid
          (Search.linearization u.graph cls (u.graph.inheritance cls))), ¬ Gains infra info.methodlist methodid c := by
        intro c hc
        apply hgains hsearches
        simp only [way, hsuper]
        exact hc
      have hbehind := ((hwidened methodid).behindClass hwidens.classid hother).pick_hits (hempty hsearches) hway
      rw [searched, searched, found_super u none hsuper, found_super u' none hsuper, supersearchMethod, supersearchMethod,
        (Search.searchMethod_super u'.graph cls _ methodid classid).returned_eq,
        (Search.searchMethod_super u.graph cls _ methodid classid).returned_eq, hwidens.inheritance, hbehind]

lemma freshForwardmethod_category {info : Load.LoadCategory} (htouches : ¬ Touches p u info cls (.method forwardMethodid))
    (h : (Load.LoadItem.loadcategory info).install p.load u = .ok u') :
    freshForwardmethod p u' cls = freshForwardmethod p u cls := by
  have hsearched := searched_category htouches h
  rw [searched, searched, found_method, found_method, Option.or_none, Option.or_none] at hsearched
  unfold freshForwardmethod
  rw [hsearched]

/-- A category leaves what is searched for with a key: it does not touch the key, nor `forward:` where that decides. -/
structure Leaves (p : Setting) (u : Universe) (info : Load.LoadCategory) (cls : ClassRef ℕ) (key : Key) : Prop where
  untouched : ¬ Touches p u info cls key
  forward : searched p u cls key = none → ¬ Touches p u info cls (.method forwardMethodid)

/-- **A category changes no answer that it leaves.** -/
lemma Leaves.fresh_eq {info : Load.LoadCategory} (hleaves : Leaves p u info cls key) (hkey : Askable p key)
    (h : (Load.LoadItem.loadcategory info).install p.load u = .ok u') : fresh p u' cls key = fresh p u cls key :=
  fresh_congr hkey (searched_category hleaves.untouched h) fun hmissing =>
    freshForwardmethod_category (hleaves.forward hmissing) h

end Loads

/-! ## A class that is right -/

section Right

variable {p : Setting} {K : Key → Prop} {u u' : Universe} {cls : ClassRef ℕ} {key : Key} {state state' : ClassState}

/-- What the class has cached for the keys, and its forward method where it is needed for one of them, is what a search
without any cache comes to. -/
structure Right (p : Setting) (K : Key → Prop) (u : Universe) (cls : ClassRef ℕ) (state : ClassState) : Prop where
  cached : ∀ key, K key → ∀ imp, state.cache.cached key.uniqueid = some imp → fresh p u cls key = .ok imp
  forward : ∀ key, K key → searched p u cls key = none → ∀ method ∈ state.forwardmethod,
    fresh p u cls key = .ok method.implementation

/-- The keys are asked for by nothing but themselves. -/
structure Keys (p : Setting) (K : Key → Prop) (key : Key) : Prop where
  askable : ∀ key, K key → Askable p key
  own : ∀ other, K other → other.uniqueid = key.uniqueid → other = key

lemma right_new (hK : ∀ key, K key → Askable p key) : Right p K u cls ClassState.new := by
  constructor
  · intro key hkey imp hcached
    have hnone : ClassState.new.cache.cached key.uniqueid = none :=
      zeroCache_cached key.uniqueid (hK key hkey).uniqueid_ne_zero
    rw [hnone] at hcached
    cases hcached
  · intro key _ _ method hmethod
    cases hmethod

lemma Right.of_found (hr : Right p K u cls state) (hkey : K key) (haskable : Askable p key) {method : Method}
    (h : found p u cls state.forwardmethod key = some method) : fresh p u cls key = .ok method.implementation := by
  rw [found_eq haskable] at h
  rcases Option.or_eq_some_iff.1 h with h | ⟨hmissing, hforward⟩
  · exact fresh_of_searched haskable h
  · exact hr.forward key hkey hmissing method hforward

lemma Right.move (hu : Implemented u cls) (hK : Keys p K key) (h : Move p u cls key state state') (hf : Forwards state)
    (hs : state.Inv p.toConfig) (hr : Right p K u cls state) : Right p K u cls state' := by
  constructor
  · intro other hother imp hcached
    rcases h.cached hu hf hs (hK.askable other hother).uniqueid_ne_zero hcached with hold | ⟨hsame, method, hmethod, rfl⟩
    · exact hr.cached other hother imp hold
    · obtain rfl := hK.own other hother hsame
      exact hr.of_found hother (hK.askable other hother) hmethod
  · intro other hother hmissing method hmethod
    rcases h.forwardmethod with hsame | ⟨-, hforward⟩
    · rw [hsame] at hmethod
      exact hr.forward other hother hmissing method hmethod
    · rw [hforward] at hmethod
      exact fresh_of_missing (hK.askable other hother) hmissing hmethod

/-- **A class stays right** when it is asked for something. -/
lemma Right.moves (hfits : p.Fits) (hu : Implemented u cls) (hK : Keys p K key) (h : Moves p u cls key state state')
    (hs : Sound p state) (hf : Forwards state) (hr : Right p K u cls state) : Right p K u cls state' := by
  induction h with
  | refl => exact hr
  | tail hmoves hmove ih =>
    obtain ⟨hs', hf'⟩ := Moves.sound hfits hu hmoves hs hf
    exact ih.move hu hK hmove hf' hs'.toInv

/-- What is cached and stays so when the methods are added. -/
def Survives (methods : List Method) (state : ClassState) (key : Key) : Prop :=
  state.cache.cached key.uniqueid ≠ none ∧ ∀ method ∈ methods, state.cache.cached method.methodid = none

/-- **A load keeps a class right** when it changes no answer the class goes on to give. -/
lemma Right.forgets {methods : List Method} (hK : ∀ key, K key → Askable p key) (h : Forgets methods state state')
    (hcached : ∀ key, K key → Survives methods state key → fresh p u' cls key = fresh p u cls key)
    (hforward : ∀ key, K key → searched p u' cls key = none → ∀ method ∈ state.forwardmethod,
      fresh p u' cls key = .ok method.implementation)
    (hr : Right p K u cls state) : Right p K u' cls state' := by
  constructor
  · intro key hkey imp himp
    obtain ⟨hold, hnone⟩ := h.cached (hK key hkey).uniqueid_ne_zero himp
    have hsurvives : Survives methods state key := ⟨by rw [hold]; simp, hnone⟩
    rw [hcached key hkey hsurvives]
    exact hr.cached key hkey imp hold
  · intro key hkey hmissing method hmethod
    rw [h.forwardmethod] at hmethod
    exact hforward key hkey hmissing method hmethod

lemma not_survives_new {methods : List Method} (hkey : Askable p key) : ¬ Survives methods ClassState.new key :=
  fun h => h.1 (zeroCache_cached key.uniqueid hkey.uniqueid_ne_zero)

/-! ## What a right class gets to -/

lemma Right.answerFor_eq (hr : Right p K u cls state) (hkey : K key) (haskable : Askable p key) :
    answerFor p cls ⟨u, state⟩ key = fresh p u cls key := by
  rw [Caches.answerFor_eq]
  cases hforward : state.forwardmethod with
  | none => rw [Option.none_or, fresh_eq]
  | some forward =>
    rw [Option.some_or]
    cases hsearched : searched p u cls key with
    | some method =>
      rw [fresh_of_searched haskable hsearched]
      apply answerWith_of_found
      rw [found_eq haskable, hsearched, Option.some_or]
    | none =>
      rw [hr.forward key hkey hsearched forward hforward]
      apply answerWith_of_found
      rw [found_eq haskable, hsearched, Option.none_or]

lemma Right.value_eq (hr : Right p K u cls state) (hkey : K key) (haskable : Askable p key) :
    value p cls ⟨u, state⟩ key = fresh p u cls key := by
  unfold value
  cases hcached : state.cache.cached key.uniqueid with
  | some imp => exact (hr.cached key hkey imp hcached).symm
  | none => exact hr.answerFor_eq hkey haskable

lemma map_unlessNil_object {W : Type} (s : State W) (selection : Selection W) :
    (unlessNil .object s selection).map Prod.fst = (selection.map Prod.fst).map some := by
  cases selection <;> rfl

variable {fuel : ℕ}

/-- **A call**, unless it goes through the fast method table. -/
lemma Right.call (hfits : p.Fits) (hu : Implemented u cls) (hs : Sound p state) (hf : Forwards state)
    (hfuel : Enough p fuel state) (hr : Right p K u cls state) {methodid : ℕ} (hid : methodid ≠ 0)
    (hkey : K (.method methodid)) {path : MethodCall}
    (hpath : path.prefersFastmethods = true → getFastmethodtableIndex (environment p cls) methodid = none) :
    (path.run (environment p cls) fuel .object methodid ⟨u, state⟩).map Prod.fst =
      (fresh p u cls (.method methodid)).map some := by
  have hselected := @selected_value p cls ⟨u, state⟩ (.method methodid) hfits hu hs hf fuel hid hfuel
  rw [hr.value_eq hkey hid] at hselected
  rw [← hselected, ← map_unlessNil_object ⟨u, state⟩,
    MethodCall.run_eq (environment p cls) (s := ⟨u, state⟩) hs.toInv hid (hs.ends methodid) hfuel.1]
  split
  · rename_i hprefers
    unfold preferFastmethod
    rw [hpath hprefers]
    rfl
  · rfl

/-- **A super call.** -/
lemma Right.callSuper (hfits : p.Fits) (hu : Implemented u cls) (hs : Sound p state) (hf : Forwards state)
    (hfuel : Enough p fuel state) (hr : Right p K u cls state) {superid : ℕ} (hid : superid ≠ 0)
    (hkey : K (.super superid)) (haskable : Askable p (.super superid)) (path : SuperCall) :
    (path.run (environment p cls) fuel .object superid ⟨u, state⟩).map Prod.fst =
      (fresh p u cls (.super superid)).map some := by
  have hselected := @selected_value p cls ⟨u, state⟩ (.super superid) hfits hu hs hf fuel hid hfuel
  rw [hr.value_eq hkey haskable] at hselected
  rw [← hselected, ← map_unlessNil_object ⟨u, state⟩,
    SuperCall.run_eq (environment p cls) (s := ⟨u, state⟩) hs.toInv hid (hs.ends superid) hfuel.1]
  rfl

lemma Right.of_prepared (hfits : p.Fits) (hu : Implemented u cls) (hK : Keys p K key) (hs : Sound p state)
    (hf : Forwards state) (hr : Right p K u cls state) (hkey : K key) {s : State Universe}
    (hprepares : Prepares p cls ⟨u, state⟩ s) {method : Method}
    (hfound : found p u cls s.cls.forwardmethod key = some method) :
    fresh p u cls key = .ok method.implementation :=
  (hr.moves hfits hu hK (hprepares.moves key) hs hf).of_found hkey (hK.askable key hkey) hfound

lemma Right.lookupUncached (hfits : p.Fits) (hu : Implemented u cls) {methodid : ℕ} (hK : Keys p K (.method methodid))
    (hs : Sound p state) (hf : Forwards state) (hr : Right p K u cls state) (hkey : K (.method methodid))
    {mode : LookupMode} {imp : ℕ} {s' : State Universe}
    (h : lookupImplementationUncached (environment p cls) fuel mode methodid ⟨u, state⟩ = .ok (some imp, s')) :
    fresh p u cls (.method methodid) = .ok imp := by
  obtain ⟨s₁, hprepares, hfound, heq⟩ := lookupImplementationUncached_spec p cls fuel mode methodid ⟨u, state⟩
  rw [heq] at h
  split at h
  · split at h <;> cases h
  rename_i method hlookedUp
  have hfresh := hr.of_prepared hfits hu hK hs hf hkey hprepares (hfound method hlookedUp)
  split at h
  · cases h
    exact hfresh
  · obtain ⟨state', -, h⟩ := Lib.Fallible.map_eq_ok.1 h
    cases h
    exact hfresh

/-- **A lookup**, in every mode. -/
lemma Right.lookup (hfits : p.Fits) (hu : Implemented u cls) {methodid : ℕ} (hK : Keys p K (.method methodid))
    (hs : Sound p state) (hf : Forwards state) (hr : Right p K u cls state) (hkey : K (.method methodid))
    {mode : LookupMode} {imp : ℕ} {s' : State Universe}
    (h : lookupImplementationMode (environment p cls) fuel mode methodid ⟨u, state⟩ = .ok (some imp, s')) :
    fresh p u cls (.method methodid) = .ok imp := by
  have hid : methodid ≠ 0 := hK.askable _ hkey
  unfold lookupImplementationMode at h
  split at h
  · exact hr.lookupUncached hfits hu hK hs hf hkey h
  split at h
  · cases h
  · exact hr.lookupUncached hfits hu hK hs hf hkey h
  rename_i imp' hloop
  split at h
  · exact hr.lookupUncached hfits hu hK hs hf hkey h
  split at h
  · split at h <;> cases h
  · cases h
    exact hr.cached (.method methodid) hkey imp (probeLoop_eq_some hs.valid hid hloop).symm

/-- **A super lookup.** -/
lemma Right.lookupSuper (hfits : p.Fits) (hu : Implemented u cls) {superid : ℕ} (hK : Keys p K (.super superid))
    (hs : Sound p state) (hf : Forwards state) (hr : Right p K u cls state) (hkey : K (.super superid))
    {imp : ℕ} {s' : State Universe}
    (h : lookupSuperimplementationNofail (environment p cls) fuel superid ⟨u, state⟩ = .ok (imp, s')) :
    fresh p u cls (.super superid) = .ok imp := by
  have hid : superid ≠ 0 := (hK.askable _ hkey).1
  have hrefreshed : ∀ {imp s'}, refreshed (environment p cls) (searchNofail p cls (.super superid)) fuel
      (Key.super superid).uniqueid ⟨u, state⟩ = .ok (imp, s') → fresh p u cls (.super superid) = .ok imp := by
    intro imp s' h
    obtain ⟨⟨method, s₂⟩, h, heq⟩ := Lib.Fallible.map_eq_ok.1 h
    obtain ⟨⟨method', s₁⟩, hsearch, h⟩ := Lib.Fallible.bind_eq_ok.1 h
    obtain ⟨state', -, h⟩ := Lib.Fallible.bind_eq_ok.1 h
    cases h
    cases heq
    obtain ⟨hprepares, hfound⟩ := (searchNofail_spec p cls (.super superid) ⟨u, state⟩).2 _ _ hsearch
    exact hr.of_prepared hfits hu hK hs hf hkey hprepares hfound
  unfold lookupSuperimplementationNofail at h
  split at h
  · cases h
  · exact hrefreshed h
  rename_i imp' hloop
  split at h
  · exact hrefreshed h
  · cases h
    exact hr.cached (.super superid) hkey imp (probeLoop_eq_some hs.valid hid hloop).symm

end Right

end MulleObjcRuntime.Caches
