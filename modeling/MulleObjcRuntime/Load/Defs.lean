import MulleObjcRuntime.Classes.Universe
import MulleObjcRuntime.Lib.Fallible
import MulleObjcRuntime.Lib.KeyedQueue

/-!
# Loading classes, mixins and categories

The loader of `mulle-objc-load.c`, under the lock of the wait queues:

* `LoadClass`, `LoadMixin`, `LoadCategory` — what a `.o` file brings, and `LoadItem` for one of them;
* `loadclassFulfillDependencies`, `loadcategoryFulfillDependencies` — the first dependency that is not met;
* `installClass`, `installMixin`, `installCategory` — what becomes part of the universe;
* `loadclassEnqueueNofail` and its siblings — install or wait, and wake up those who wait;
* `loadinfoEnqueue` — all items of a loadinfo, and then the `+load` calls.

An array that ends with a zero id is the list of what comes before it.  Where the loader gives up and ends the
process the model has a `Failure`.
-/

namespace MulleObjcRuntime.Load

open Classes Lib Lib.Fallible

/-! ## What is loaded -/

/-- A `_mulle_objc_dependency`; the category id is `0` when only the class is needed. -/
structure Dependency where
  classid : ℕ
  categoryid : ℕ
deriving DecidableEq

/-- A `_mulle_objc_loadclassbase`. -/
structure LoadClassBase where
  classid : ℕ
  classname : String
  classmethods : Option MethodList
  instancemethods : Option MethodList
deriving DecidableEq

/-- A `_mulle_objc_loadclass`; a root class has the superclass id `0`. -/
structure LoadClass where
  base : LoadClassBase
  classivarhash : ℕ
  superclassid : ℕ
  superclassname : String
  superclassivarhash : ℕ
  fastclassindex : ℤ
  mixinids : List ℕ
deriving DecidableEq

/-- A `_mulle_objc_loadmixin`. -/
structure LoadMixin where
  base : LoadClassBase
deriving DecidableEq

/-- A `_mulle_objc_loadcategory`. -/
structure LoadCategory where
  categoryid : ℕ
  categoryname : String
  classid : ℕ
  classname : String
  classivarhash : ℕ
  classmethods : Option MethodList
  instancemethods : Option MethodList
  mixinids : List ℕ
deriving DecidableEq

/-- One of the three. -/
inductive LoadItem
  | loadclass (info : LoadClass)
  | loadmixin (info : LoadMixin)
  | loadcategory (info : LoadCategory)
deriving DecidableEq

/-- A `_mulle_objc_loadinfo`. -/
structure LoadInfo where
  loadclasslist : List LoadClass
  loadmixinlist : List LoadMixin
  loadcategorylist : List LoadCategory

/-- The items in the order they are enqueued. -/
def LoadInfo.items (info : LoadInfo) : List LoadItem :=
  info.loadclasslist.map .loadclass ++ info.loadmixinlist.map .loadmixin ++
    info.loadcategorylist.map .loadcategory

/-- What loading relies on beyond the loaded data: the hash of a name, what an implementation of `+dependencies`
returns (`none` is `NULL`), the configuration of the universe and the width of a pointer. -/
structure Environment where
  classidFromString : String → ℕ
  dependencies : ℕ → Option (List Dependency)
  ignoreIvarhashMismatch : Bool
  intptrMax : ℕ

/-- Why the process ends. -/
inductive Failure
  | EINVAL
  | hashCollision (id : ℕ) (name other : String)
  | superclassChanged (superclassname classname : String)
  | dependenciesNull (classname : String)
  | notAMixin (mixinid : ℕ)
  | fastclassOutOfBounds (index classid : ℕ)
  | fastclassOccupied (index classid other : ℕ)
  | superclassMissing (classid : ℕ)
  | duplicateClass (classid : ℕ)
  | classChanged (classname categoryname : String)
  | duplicateCategory (classid categoryid : ℕ)
  | duplicateCategoryName (categoryid : ℕ) (name other : String)
deriving DecidableEq

/-- Why the model stops: the process has ended, or the bound on the depth of the recursion is used up. -/
inductive Stop
  | failure (e : Failure)
  | outOfFuel
deriving DecidableEq

/-- `MULLE_OBJC_INVALID_UNIQUEID`. -/
def invalidUniqueid : ℕ := 2 ^ 32 - 1

/-- `MULLE_OBJC_DEPENDENCIES_METHODID`. -/
def dependenciesMethodid : ℕ := 0x53d9d606

/-- `MULLE_OBJC_LOAD_METHODID`. -/
def loadMethodid : ℕ := 0x60759e9e

/-- `MULLE_OBJC_S_FASTCLASSES`. -/
def numberOfFastclasses : ℕ := 64

/-- `mulle_objc_uniqueid_is_sane`. -/
def uniqueidIsSane (uniqueid : ℕ) : Bool := uniqueid != 0 && uniqueid != invalidUniqueid

variable (env : Environment) (u : Universe)

/-! ## Dependencies -/

/-- The first dependency that is not met, or none. -/
abbrev Fulfilled := Except Failure (Option Dependency)

/-- Go on with another check when all dependencies so far are met. -/
def Fulfilled.next (first second : Fulfilled) : Fulfilled :=
  match first with
  | .ok none => second
  | first => first

/-- The loop of `_mulle_objc_universe_fulfill_dependencies`, with the class it looked at last. -/
def fulfillDependencies : Option ℕ → List Dependency → Option Dependency
  | _, [] => none
  | infra, dependency :: dependencies =>
    let current := infra.filter fun i => (u.pair i).classid = dependency.classid
    match current.or (u.lookup dependency.classid) with
    | none => some dependency
    | some i =>
      if dependency.categoryid ≠ 0 ∧ dependency.categoryid ∉ (u.pair i).categoryids then some dependency
      else fulfillDependencies (some i) dependencies

/-- `_mulle_objc_methodlist_bsearch_dependencies_imp`. -/
def bsearchDependenciesImp (methods : MethodList) : Option ℕ :=
  (BinarySearch.bsearch Method.methodid dependenciesMethodid methods.methods).map Method.implementation

/-- What `_mulle_objc_loadclass_fulfill_user_dependencies` and its sibling for categories do: `infra` is the class
that is known to be there. -/
def fulfillUserDependencies (infra : Option ℕ) (classname : String) (classmethods : Option MethodList) : Fulfilled :=
  match classmethods.bind bsearchDependenciesImp with
  | none => .ok none
  | some imp =>
    match env.dependencies imp with
    | none => .error (.dependenciesNull classname)
    | some dependencies => .ok (fulfillDependencies u infra dependencies)

/-- `_mulle_objc_loadclass_fulfill_user_dependencies`. -/
def loadclassFulfillUserDependencies (info : LoadClass) : Fulfilled :=
  fulfillUserDependencies env u none info.base.classname info.base.classmethods

/-- `_mulle_objc_loadcategory_fulfill_user_dependencies`. -/
def loadcategoryFulfillUserDependencies (info : LoadCategory) (infra : ℕ) : Fulfilled :=
  fulfillUserDependencies env u (some infra) info.classname info.classmethods

/-- The superclass of a loadclass, which must be the one it was compiled with. -/
def fulfillSuperclass (info : LoadClass) : Fulfilled :=
  if info.superclassid = 0 then .ok none
  else
    match u.lookup info.superclassid with
    | none => .ok (some ⟨info.superclassid, 0⟩)
    | some superclass =>
      if info.superclassname ≠ (u.pair superclass).classname then
        .error (.hashCollision info.superclassid info.superclassname (u.pair superclass).classname)
      else if (u.pair superclass).ivarhash ≠ info.superclassivarhash ∧ env.ignoreIvarhashMismatch = false then
        .error (.superclassChanged info.superclassname info.base.classname)
      else .ok none

/-- The loop over `mixinids`, which leaves out some ids. -/
def fulfillMixins (skip mixinids : List ℕ) : Fulfilled :=
  .ok ((mixinids.find? fun id => id ∉ skip ∧ u.lookup id = none).map fun id => ⟨id, 0⟩)

/-- `_mulle_objc_loadclass_fulfill_dependencies`. -/
def loadclassFulfillDependencies (info : LoadClass) : Fulfilled :=
  (fulfillSuperclass env u info).next <|
    (fulfillMixins u [info.superclassid, info.base.classid] info.mixinids).next <|
      loadclassFulfillUserDependencies env u info

/-- `_mulle_objc_loadcategory_fulfill_dependencies`. -/
def loadcategoryFulfillDependencies (info : LoadCategory) : Fulfilled :=
  match u.lookup info.classid with
  | none => .ok (some ⟨info.classid, 0⟩)
  | some infra =>
    (fulfillMixins u [info.classid] info.mixinids).next <| loadcategoryFulfillUserDependencies env u info infra

/-! ## Installing -/

/-- `mulle_objc_universe_new_classpair`. -/
def newClasspair (classid : ℕ) (classname : String) (superclass : Option ℕ) : Except Failure Pair :=
  if h : classid = 0 then .error .EINVAL
  else if classid = invalidUniqueid ∨ classname = "" ∨ classid ≠ env.classidFromString classname then .error .EINVAL
  else
    let inheritance := match superclass with
      | some q => (u.pair q).infraclass.inheritance
      | none => u.classdefaults
    let metaInheritance := match superclass with
      | some q => (u.pair q).metaclass.inheritance
      | none => inheritance
    .ok
      { classid, classid_ne_zero := h, superclass, mixins := [], isMixin := false,
        infraclass := ⟨inheritance, []⟩, metaclass := ⟨metaInheritance, []⟩,
        classname, ivarhash := 0, categoryids := [] }

/-- `_mulle_objc_class_add_methodlist_nocache`: the first list of a class may be missing. -/
def addMethodlist (cls : Classes.Class) (list : Option MethodList) : Classes.Class :=
  match list with
  | some list => { cls with methodlists := cls.methodlists ++ [list] }
  | none => if cls.methodlists = [] then { cls with methodlists := [MethodList.empty] } else cls

/-- `mulle_objc_classpair_add_mixinids_nofail`, on the mixins of the pair. -/
def addMixinids (mixins : List ℕ) : List ℕ → Except Failure (List ℕ)
  | [] => .ok mixins
  | mixinid :: mixinids =>
    match u.lookup mixinid with
    | none => .error .EINVAL
    | some proto =>
      if (u.pair proto).isMixin = false then .error (.notAMixin mixinid)
      else addMixinids (if proto ∈ mixins then mixins else mixins ++ [proto]) mixinids

/-- `_mulle_objc_universe_set_fastclass`, for a class that wants a place. -/
def setFastclass (classid : ℕ) (fastclassindex : ℤ) : Except Failure Universe :=
  if fastclassindex < 0 then .ok u
  else
    let index := fastclassindex.toNat
    if index ≥ numberOfFastclasses then .error (.fastclassOutOfBounds index classid)
    else
      match u.fastclasses.lookup index with
      | some other => .error (.fastclassOccupied index classid other)
      | none => .ok { u with fastclasses := u.fastclasses ++ [(index, classid)] }

/-- `mulle_objc_universe_register_infraclass`. -/
def registerInfraclass (pair : Pair) : Except Failure Universe :=
  if hsuper : ∀ q ∈ pair.superclass, q < u.pairs.length then
    if hnew : u.lookup pair.classid = none then .ok (u.register pair hsuper hnew)
    else .error (.duplicateClass pair.classid)
  else .error (.superclassMissing pair.classid)

/-- The part of `_mulle_objc_loadclass_enqueue` that makes the class a part of the universe. -/
def installClass (info : LoadClass) : Except Failure Universe := do
  let superclass := if info.superclassid = 0 then none else u.lookup info.superclassid
  let pair ← newClasspair env u info.base.classid info.base.classname superclass
  let mixins ← addMixinids u [] info.mixinids
  let u ← setFastclass u info.base.classid info.fastclassindex
  registerInfraclass u
    { pair with
      mixins, ivarhash := info.classivarhash
      metaclass := addMethodlist pair.metaclass info.base.classmethods
      infraclass := addMethodlist pair.infraclass info.base.instancemethods }

/-- The part of `_mulle_objc_loadmixin_enqueue` that makes the mixin a part of the universe. -/
def installMixin (info : LoadMixin) : Except Failure Universe := do
  let pair ← newClasspair env u info.base.classid info.base.classname none
  registerInfraclass u
    { pair with
      isMixin := true
      metaclass := addMethodlist pair.metaclass info.base.classmethods
      infraclass := addMethodlist pair.infraclass info.base.instancemethods }

/-- `mulle_objc_universe_register_category_nofail`. -/
def registerCategory (categoryid : ℕ) (name : String) : Except Failure Universe :=
  if uniqueidIsSane categoryid = false then .error .EINVAL
  else
    match u.categorytable.lookup categoryid with
    | none => .ok { u with categorytable := u.categorytable ++ [(categoryid, name)] }
    | some dup => if dup ≠ name then .error (.duplicateCategoryName categoryid dup name) else .ok u

/-- A method list of a category, if it has methods; the loader sets the category as its owner. -/
def addCategoryMethodlist (cls : Classes.Class) (categoryid : ℕ) (list : Option MethodList) : Classes.Class :=
  match list with
  | some list => if list.methods = [] then cls else addMethodlist cls (some { list with categoryid })
  | none => cls

/-- The pair of a category's class with the category. -/
def withCategory (info : LoadCategory) (mixins : List ℕ) (p : Pair) : Pair :=
  { p with
    infraclass := addCategoryMethodlist p.infraclass info.categoryid info.instancemethods
    metaclass := addCategoryMethodlist p.metaclass info.categoryid info.classmethods
    mixins, categoryids := p.categoryids ++ [info.categoryid] }

lemma withCategory_classid (info : LoadCategory) (mixins : List ℕ) (p : Pair) :
    (withCategory info mixins p).classid = p.classid := rfl

lemma withCategory_superclass (info : LoadCategory) (mixins : List ℕ) (p : Pair) :
    (withCategory info mixins p).superclass = p.superclass := rfl

/-- The part of `_mulle_objc_loadcategory_enqueue` that makes the category a part of its class `infra`. -/
def installCategory (info : LoadCategory) : Except Failure Universe := do
  match u.lookup info.classid with
  | none => .error .EINVAL
  | some infra =>
    let pair := u.pair infra
    failIf (info.classname ≠ pair.classname) (.hashCollision info.classid info.classname pair.classname)
    failIf (info.classivarhash ≠ pair.ivarhash) (.classChanged info.classname info.categoryname)
    failIf (info.categoryid ∈ pair.categoryids) (.duplicateCategory info.classid info.categoryid)
    let u ← registerCategory u info.categoryid info.categoryname
    let mixins ← addMixinids u pair.mixins info.mixinids
    return u.modify infra (withCategory info mixins) (withCategory_classid info mixins)
      (withCategory_superclass info mixins)

/-! ## The wait queues and the call queue -/

/-- An entry of the call queue: the class, the method id and the implementation to call. -/
structure Call where
  classid : ℕ
  methodid : ℕ
  implementation : ℕ
deriving DecidableEq

/-- The state of loading.  `loads` is the call queue of the loadinfo that is being enqueued.  `executed` are the
`+load` calls made so far and `installed` the items installed so far; the loader reads neither. -/
structure State where
  runtime : Universe
  categoriestoload : KeyedQueue ℕ LoadCategory
  classestoload : KeyedQueue ℕ LoadClass
  loads : List Call
  executed : List Call
  installed : List LoadItem

/-- Before anything is loaded. -/
def State.initial (classdefaults : ℕ) : State :=
  ⟨Universe.initial classdefaults, KeyedQueue.empty, KeyedQueue.empty, [], [], []⟩

/-- `_mulle_objc_classid_to_waitqueue_hash`. -/
def waitqueueHash (classid : ℕ) : ℕ :=
  let hash := classid &&& env.intptrMax
  if hash = 0 then env.intptrMax else hash

/-- The `+load` call of a method list, `mulle_objc_methodlist_add_load_to_callqueue`. -/
def loadCall (classid : ℕ) (classmethods : Option MethodList) : Option Call :=
  (classmethods.bind fun list => list.search loadMethodid).map fun method =>
    ⟨classid, loadMethodid, method.implementation⟩

/-- `mulle_objc_loadclassbase_is_sane`. -/
def loadclassbaseIsSane (base : LoadClassBase) : Bool :=
  uniqueidIsSane base.classid && base.classmethods.all (fun list => list.categoryid == 0) &&
    base.instancemethods.all fun list => list.categoryid == 0

/-- `mulle_objc_loadcategory_is_sane`. -/
def loadcategoryIsSane (info : LoadCategory) : Bool := uniqueidIsSane info.classid && uniqueidIsSane info.categoryid

/-- The process ends when a computation fails. -/
def orStop {α : Type} (x : Except Failure α) : Except Stop α := x.mapError .failure

/-- What is done with an item that is taken from a wait queue. -/
abbrev MapCallback := LoadItem → State → Except Stop State

/-- The loop of `map_f` over the list it took from a table. -/
def mapF (f : MapCallback) (items : List LoadItem) (s : State) : Except Stop State :=
  items.foldlM (fun s value => f value s) s

/-- The two `map_f` at the end of the enqueue functions: those who wait for the class are enqueued again,
categories first. -/
def retrigger (f : MapCallback) (classid : ℕ) (s : State) : Except Stop State := do
  let hash := waitqueueHash env classid
  let s ← mapF f ((s.categoriestoload.waiting hash).map .loadcategory)
    { s with categoriestoload := s.categoriestoload.remove hash }
  mapF f ((s.classestoload.waiting hash).map .loadclass) { s with classestoload := s.classestoload.remove hash }

/-- `mulle_objc_loadclass_delayedadd`. -/
def loadclassDelayedadd (info : LoadClass) (missingclassid : ℕ) (s : State) : State :=
  { s with classestoload := s.classestoload.add (waitqueueHash env missingclassid) info }

/-- `mulle_objc_loadcategory_delayedadd`. -/
def loadcategoryDelayedadd (info : LoadCategory) (missingclassid : ℕ) (s : State) : State :=
  { s with categoriestoload := s.categoriestoload.add (waitqueueHash env missingclassid) info }

/-- The item is part of the universe `u`, and its `+load` is queued. -/
def State.install (s : State) (u : Universe) (item : LoadItem) (call : Option Call) : State :=
  { s with runtime := u, loads := s.loads ++ call.toList, installed := s.installed ++ [item] }

/-! ## Enqueueing -/

/-- `mulle_objc_loadclass_enqueue_nofail`, with what `map_f` does with the items it takes. -/
def loadclassEnqueueNofail (f : MapCallback) (info : LoadClass) (s : State) : Except Stop State := do
  failIf (loadclassbaseIsSane info.base = false) (.failure .EINVAL)
  match ← orStop (loadclassFulfillDependencies env s.runtime info) with
  | some dependency => return loadclassDelayedadd env info dependency.classid s
  | none =>
    let u ← orStop (installClass env s.runtime info)
    retrigger env f info.base.classid
      (s.install u (.loadclass info) (loadCall info.base.classid info.base.classmethods))

/-- `mulle_objc_loadmixin_enqueue_nofail`. -/
def loadmixinEnqueueNofail (f : MapCallback) (info : LoadMixin) (s : State) : Except Stop State := do
  failIf (loadclassbaseIsSane info.base = false) (.failure .EINVAL)
  let u ← orStop (installMixin env s.runtime info)
  retrigger env f info.base.classid
    (s.install u (.loadmixin info) (loadCall info.base.classid info.base.classmethods))

/-- `mulle_objc_loadcategory_enqueue_nofail`. -/
def loadcategoryEnqueueNofail (f : MapCallback) (info : LoadCategory) (s : State) : Except Stop State := do
  failIf (loadcategoryIsSane info = false) (.failure .EINVAL)
  match ← orStop (loadcategoryFulfillDependencies env s.runtime info) with
  | some dependency => return loadcategoryDelayedadd env info dependency.classid s
  | none =>
    let u ← orStop (installCategory s.runtime info)
    retrigger env f info.classid
      (s.install u (.loadcategory info) (loadCall info.classid info.classmethods))

/-- Enqueue one item.  The fuel bounds how deep items that were installed wake up others. -/
def enqueueTo : ℕ → MapCallback
  | 0, _, _ => .error .outOfFuel
  | fuel + 1, .loadclass info, s => loadclassEnqueueNofail env (enqueueTo fuel) info s
  | fuel + 1, .loadmixin info, s => loadmixinEnqueueNofail env (enqueueTo fuel) info s
  | fuel + 1, .loadcategory info, s => loadcategoryEnqueueNofail env (enqueueTo fuel) info s

/-- The items that wait. -/
def State.waiting (s : State) : Multiset LoadItem :=
  s.categoriestoload.infos.map .loadcategory + s.classestoload.infos.map .loadclass

/-- Enqueue one item, with as much fuel as there are items that can be woken up. -/
def enqueue (item : LoadItem) (s : State) : Except Stop State := enqueueTo env (Multiset.card s.waiting + 1) item s

/-- Enqueue items one after the other. -/
def enqueueAll (items : List LoadItem) (s : State) : Except Stop State :=
  items.foldlM (fun s item => enqueue env item s) s

/-- `_mulle_objc_loadinfo_enqueue_nofail`: the items, and then the calls in the call queue. -/
def loadinfoEnqueue (info : LoadInfo) (s : State) : Except Stop State := do
  let s ← enqueueAll env info.items { s with loads := [] }
  return { s with loads := [], executed := s.executed ++ s.loads }

/-- Enqueue loadinfos one after the other. -/
def loadAll (infos : List LoadInfo) (s : State) : Except Stop State :=
  infos.foldlM (fun s info => loadinfoEnqueue env info s) s

end MulleObjcRuntime.Load
