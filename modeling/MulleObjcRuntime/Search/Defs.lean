import MulleObjcRuntime.Classes.Graph

/-!
# The method search

The functions of the class search as the source computes them, with the state they share made explicit:

* `searchMethodlists` — the loop over the method lists of one class object;
* `protocolSearchMethod`, `searchMethodSuper` — the continuations into the mixins and the superclass;
* `searchMethodInternal` — one class object, its mixins and its superclass;
* `searchMethod` — the entry point with its checks and the retry after a missing method.

A search runs on the graph it finds after the class has been set up.
-/

namespace MulleObjcRuntime.Search

open Classes

variable {P : Type} [DecidableEq P]

/-- The `mode` of the search arguments; `invalid` stands for the numbers that name no mode. -/
inductive SearchMode
  | default
  | imp
  | superMethod
  | overriddenMethod
  | specificMethod
  | previousMethod
  | invalid
deriving DecidableEq, Repr

/-- `internal_search_mode`: the modes with their `OFFSET_2_MODE` and `OFFSET_3_MODE` stages. -/
inductive InternalMode
  | default
  | imp
  | superMethod
  | superMethod2
  | overriddenMethod
  | overriddenMethod2
  | overriddenMethod3
  | specificMethod
  | specificMethod2
  | specificMethod3
  | previousMethod
  | previousMethod2
deriving DecidableEq, Repr

/-- The cast of the argument mode; `invalid` has no internal mode. -/
def SearchMode.toInternal? : SearchMode → Option InternalMode
  | .default => some .default
  | .imp => some .imp
  | .superMethod => some .superMethod
  | .overriddenMethod => some .overriddenMethod
  | .specificMethod => some .specificMethod
  | .previousMethod => some .previousMethod
  | .invalid => none

/-- The error numbers a search can leave; `user` is the `errno` of a callback. -/
inductive Errno
  | ENOENT
  | EINVAL
  | EEXIST
  | ECANCELED
  | user (errno : ℕ)
deriving DecidableEq, Repr

/-- `mulle_objc_walkcommand_t`. -/
inductive WalkCommand
  | ok
  | done
  | dontDescend
  | cancel
  | error (errno : ℕ)
deriving DecidableEq, Repr

/-- The class object, the list and the method a search comes upon. -/
structure Hit (P : Type) where
  cls : ClassRef P
  list : MethodList
  method : Method
deriving DecidableEq

/-- One call of the search callback: the class object, the inheritance in force and the result so far. -/
structure Report (P : Type) where
  cls : ClassRef P
  inheritance : ℕ
  result : Option (Hit P)

/-- `_mulle_objc_searcharguments`.  A callback decides by the calls made so far, the present one first. -/
structure SearchArguments (P : Type) where
  mode : SearchMode
  methodid : ℕ
  classid : ℕ
  categoryid : ℕ
  imp : ℕ
  previousMethod : Option Method
  stopClassid : ℕ
  callback : Option (List (Report P) → WalkCommand)

/-- What the frames of one search share: the mode, the `_mulle_objc_searchresult` and the callback's calls. -/
structure SearchState (P : Type) where
  mode : InternalMode
  error : Errno
  result : Option (Hit P)
  reports : List (Report P)

/-- What a frame returns: `MULLE_OBJC_METHOD_SEARCH_FAIL`, `NULL` or a method.  `inconsistency` is the call of
`mulle_objc_universe_fail_inconsistency`, which does not return; `outOfFuel` is no value of the source. -/
inductive Outcome
  | fail
  | null
  | found (method : Method)
  | inconsistency
  | outOfFuel
deriving DecidableEq, Repr

/-- The local variable `found`: `MULLE_OBJC_METHOD_SEARCH_FAIL` or a method. -/
def Outcome.ofFound : Option Method → Outcome
  | none => .fail
  | some m => .found m

/-- `MULLE_OBJC_INVALID_CATEGORYID`. -/
def invalidCategoryid : ℕ := 0xffffffff

/-- `mulle_objc_searcharguments_make_default`. -/
def SearchArguments.makeDefault (methodid : ℕ) : SearchArguments P :=
  ⟨.default, methodid, 0, 0, 0, none, 0, none⟩

/-- `mulle_objc_searcharguments_make_super`. -/
def SearchArguments.makeSuper (methodid classid : ℕ) : SearchArguments P :=
  ⟨.superMethod, methodid, classid, invalidCategoryid, 0, none, 0, none⟩

/-- `mulle_objc_searcharguments_make_overridden`. -/
def SearchArguments.makeOverridden (methodid classid categoryid : ℕ) : SearchArguments P :=
  ⟨.overriddenMethod, methodid, classid, categoryid, 0, none, 0, none⟩

/-- `mulle_objc_searcharguments_make_previous`: the method id is that of the previous method. -/
def SearchArguments.makePrevious (previous : Method) : SearchArguments P :=
  ⟨.previousMethod, previous.methodid, 0, 0, 0, some previous, 0, none⟩

/-! ## The method lists of one class object -/

/-- How the loop over the method lists goes on after one list, with its local variables, or what it returns. -/
inductive ListStep (P : Type)
  | next (found : Option Method) (inheritance : ℕ) (st : SearchState P)
  | ret (o : Outcome) (st : SearchState P)

section Lists

variable (g : ClassGraph P) (search : SearchArguments P) (cls : ClassRef P)

/-- The search in one list; `imp` searches look for the implementation. -/
def methodlistSearch (mode : InternalMode) (list : MethodList) : Option Method :=
  if mode = .imp then list.impsearch search.imp else list.search search.methodid

/-- `search->previous_method == method`. -/
def isPreviousMethod (method : Method) : Bool :=
  match search.previousMethod with
  | some previous => previous.address == method.address
  | none => false

/-- Both ids of the anchor are those of the list. -/
def isAnchor (list : MethodList) : Bool :=
  search.classid == g.classid cls && search.categoryid == list.categoryid

/-- The end of an iteration: a method is returned unless its hidden override is fatal. -/
def keepMethod (inheritance : ℕ) (method : Method) (st : SearchState P) : ListStep P :=
  if method.isHiddenOverrideFatal then .next (some method) inheritance st else .ret (.found method) st

/-- An iteration from the point where a method counts: the check for a second method, the result and the
callback. -/
def countMethod (found : Option Method) (inheritance : ℕ) (list : MethodList) (method : Method)
    (st : SearchState P) : ListStep P :=
  if found.isSome then .ret .null { st with error := .EEXIST }
  else
    let st := { st with result := some ⟨cls, list, method⟩ }
    match search.callback with
    | none => keepMethod inheritance method st
    | some f =>
      let st := { st with reports := ⟨cls, inheritance, st.result⟩ :: st.reports }
      match f st.reports with
      | .ok => .next found inheritance st
      | .done => keepMethod inheritance method st
      | .dontDescend => .next found (inheritance ||| dontInheritSuperclass) st
      | .cancel => .ret .null { st with error := .ECANCELED }
      | .error errno => .ret .null { st with error := .user errno }

/-- An iteration from the point where the list is searched. -/
def lookInMethodlist (found : Option Method) (inheritance : ℕ) (list : MethodList) (st : SearchState P) :
    ListStep P :=
  match methodlistSearch search st.mode list with
  | none => if st.mode = .specificMethod3 then .ret .fail st else .next found inheritance st
  | some method =>
    match st.mode with
    | .overriddenMethod3 =>
      if isAnchor g search cls list then .next found inheritance st
      else countMethod search cls found inheritance list method st
    | .specificMethod3 => .ret (.found method) st
    | .previousMethod =>
      -- any other method falls through and counts
      if isPreviousMethod search method then .next found inheritance { st with mode := .previousMethod2 }
      else countMethod search cls found inheritance list method st
    | _ => countMethod search cls found inheritance list method st

/-- One iteration of the loop over the method lists. -/
def searchMethodlist (found : Option Method) (inheritance : ℕ) (list : MethodList) (st : SearchState P) :
    ListStep P :=
  match st.mode with
  | .overriddenMethod2 =>
    if search.categoryid = list.categoryid then .next found inheritance { st with mode := .overriddenMethod3 }
    else .next found inheritance st
  | .specificMethod2 =>
    if search.categoryid = list.categoryid then
      lookInMethodlist g search cls found inheritance list { st with mode := .specificMethod3 }
    else .next found inheritance st
  | _ => lookInMethodlist g search cls found inheritance list st

/-- The loop over the method lists, of which `n` are enumerated: under `DONT_INHERIT_CLASS` the `n`-th ends it. -/
def searchMethodlists (n : ℕ) : List MethodList → ℕ → Option Method → ℕ → SearchState P → ListStep P
  | [], _, found, inheritance, st => .next found inheritance st
  | list :: rest, i, found, inheritance, st =>
    if has inheritance dontInheritClass ∧ i + 1 = n then .next found inheritance st
    else
      match searchMethodlist g search cls found inheritance list st with
      | .next found inheritance st => searchMethodlists n rest (i + 1) found inheritance st
      | .ret o st => .ret o st

end Lists

/-! ## Mixins and superclass -/

/-- A frame: a class object is searched with an inheritance. -/
abbrev Frame (P : Type) := ClassRef P → ℕ → SearchState P → Outcome × SearchState P

section Frames

variable (g : ClassGraph P) (search : SearchArguments P) (frame : Frame P) (cls : ClassRef P)

/-- The loop over the mixins of a class, last added first. -/
def searchMixins (inheritance : ℕ) : List P → Option Method → SearchState P → Outcome × SearchState P
  | [], found, st => (.ofFound found, st)
  | proto :: rest, found, st =>
    if proto = cls.pair then searchMixins inheritance rest found st
    else
      let walkCls : ClassRef P := ⟨proto, cls.isMeta⟩
      match frame walkCls (inheritance ||| g.inheritance walkCls) st with
      | (.fail, st) => searchMixins inheritance rest found st
      | (.found method, st) =>
        if found.isSome then (.null, { st with error := .EEXIST })
        else
          let keep := fun st : SearchState P =>
            if method.isHiddenOverrideFatal then searchMixins inheritance rest (some method) st
            else (.found method, st)
          match search.callback with
          | none => keep st
          | some f =>
            let st := { st with reports := ⟨cls, inheritance, st.result⟩ :: st.reports }
            match f st.reports with
            | .ok => searchMixins inheritance rest found st
            | .done => keep st
            | .dontDescend => searchMixins inheritance rest found st
            | .cancel => (.null, { st with error := .ECANCELED })
            | .error errno => (.null, { st with error := .user errno })
      | other => other

/-- `_mulle_objc_class_protocol_search_method`. -/
def protocolSearchMethod (inheritance : ℕ) (st : SearchState P) : Outcome × SearchState P :=
  if (g.pair cls.pair).isMixin then (.fail, st)
  else
    let inheritance := inheritance |||
      (dontInheritSuperclass ||| dontInheritSuperclassInheritance ||| dontInheritProtocols)
    searchMixins g search frame cls inheritance (g.pair cls.pair).mixins.reverse none st

/-- `_mulle_objc_class_search_method_super`. -/
def searchMethodSuper (inheritance : ℕ) (st : SearchState P) : Outcome × SearchState P :=
  let superinheritance :=
    if has inheritance dontInheritSuperclassInheritance then inheritance else g.inheritance cls
  frame cls superinheritance st

/-- What a continuation returned is merged with what was found before: a second method is an error, a fatal one
is kept while the search goes on with `k`. -/
def mergeMethod (found : Option Method) (r : Outcome × SearchState P)
    (k : Option Method → SearchState P → Outcome × SearchState P) : Outcome × SearchState P :=
  match r with
  | (.fail, st) => k found st
  | (.found method, st) =>
    if found.isSome then (.null, { st with error := .EEXIST })
    else if method.isHiddenOverrideFatal then k (some method) st
    else (.found method, st)
  | other => other

/-- The inheritance passed on to the superclass, rewritten where the root metaclass continues into its infraclass. -/
def inheritanceForSuper (supercls : ClassRef P) (inheritance : ℕ) : ℕ :=
  if has inheritance dontInheritProtocolMeta ∧ cls.isMeta = true ∧ supercls.isMeta = false then
    (if has inheritance dontInheritSuperclassInheritance then inheritance
      else g.inheritance supercls ||| dontInheritSuperclassInheritance) |||
        (dontInheritProtocols ||| dontInheritProtocolMeta)
  else inheritance

/-- The last part of a frame: the superclass. -/
def searchSuperclass (found : Option Method) (inheritance : ℕ) (st : SearchState P) :
    Outcome × SearchState P :=
  match g.superclass cls with
  | none => (.ofFound found, st)
  | some supercls =>
    if has inheritance dontInheritSuperclass then (.ofFound found, st)
    else
      mergeMethod found
        (searchMethodSuper g frame supercls (inheritanceForSuper g cls supercls inheritance) st)
        fun found st => (.ofFound found, st)

/-- A frame from the label `next_class` on. -/
def nextClass (found : Option Method) (inheritance : ℕ) (st : SearchState P) : Outcome × SearchState P :=
  if has inheritance dontInheritProtocols then searchSuperclass g frame cls found inheritance st
  else
    let tmp := if has inheritance dontInheritProtocolCategories then dontInheritCategories else 0
    mergeMethod found (protocolSearchMethod g search frame cls tmp st) fun found st =>
      searchSuperclass g frame cls found inheritance st

/-- How many method lists are enumerated: only the first under `DONT_INHERIT_CATEGORIES`. -/
def enumeratedCount (inheritance : ℕ) : ℕ :=
  if has inheritance dontInheritCategories then 1 else (g.methodlists cls).length

/-- A frame after its method lists: when the category of the anchor was not among them, this is an error. -/
def afterMethodlists (found : Option Method) (inheritance : ℕ) (st : SearchState P) :
    Outcome × SearchState P :=
  if st.mode = .overriddenMethod2 ∨ st.mode = .specificMethod2 then (.null, { st with error := .EINVAL })
  else nextClass g search frame cls found inheritance st

/-- A frame whose class object is searched itself. -/
def searchClass (inheritance : ℕ) (st : SearchState P) : Outcome × SearchState P :=
  if g.classid cls = search.stopClassid then (.null, st)
  else
    let n := enumeratedCount g cls inheritance
    match searchMethodlists g search cls n ((g.methodlists cls).take n).reverse 0 none inheritance st with
    | .ret o st => (o, st)
    | .next found inheritance st => afterMethodlists g search frame cls found inheritance st

/-- A frame of `_mulle_objc_class_search_method_internal`: the mode decides whether the class object is searched
or skipped. -/
def searchFrame (inheritance : ℕ) (st : SearchState P) : Outcome × SearchState P :=
  match st.mode with
  | .superMethod =>
    if search.classid = g.classid cls then
      nextClass g search frame cls none inheritance { st with mode := .superMethod2 }
    else nextClass g search frame cls none inheritance st
  | .overriddenMethod =>
    if search.classid = g.classid cls then
      searchClass g search frame cls inheritance { st with mode := .overriddenMethod2 }
    else nextClass g search frame cls none inheritance st
  | .specificMethod =>
    if search.classid = g.classid cls then
      searchClass g search frame cls inheritance { st with mode := .specificMethod2 }
    else nextClass g search frame cls none inheritance st
  | _ => searchClass g search frame cls inheritance st

end Frames

/-! ## The entry point -/

variable (search : SearchArguments P)

/-- `_mulle_objc_class_search_method_internal`, with a bound on the depth of the recursion. -/
def searchMethodInternal (g : ClassGraph P) : ℕ → Frame P
  | 0 => fun _ _ st => (.outOfFuel, st)
  | fuel + 1 => searchFrame g search (searchMethodInternal g fuel)

/-- The check after a search: a relative search that is still in its original mode has not met its anchor. -/
def checkAnchor (r : Outcome × SearchState P) : Outcome × SearchState P :=
  if r.2.mode = .previousMethod ∨ r.2.mode = .superMethod ∨ r.2.mode = .overriddenMethod then
    (.null, { r.2 with error := .EINVAL })
  else r

/-- One search with its check. -/
def searchMethodOnce (g : ClassGraph P) (cls : ClassRef P) (inheritance : ℕ) (st : SearchState P) :
    Outcome × SearchState P :=
  checkAnchor (searchMethodInternal search g (g.rank cls + 2) cls inheritance st)

/-- A search that has found nothing: `retry` is what is done about it. -/
def whenMissing (r : Outcome × SearchState P) (retry : SearchState P → Outcome × SearchState P) :
    Outcome × SearchState P :=
  match r with
  | (.fail, st) => if st.error = .EEXIST then (.inconsistency, st) else retry st
  | r => r

section WhenMissing

omit [DecidableEq P]

variable (st : SearchState P) (retry : SearchState P → Outcome × SearchState P)

@[simp] lemma whenMissing_fail :
    whenMissing (.fail, st) retry = if st.error = .EEXIST then (.inconsistency, st) else retry st := rfl

@[simp] lemma whenMissing_null : whenMissing (.null, st) retry = (.null, st) := rfl

@[simp] lemma whenMissing_found (m : Method) : whenMissing (.found m, st) retry = (.found m, st) := rfl

end WhenMissing

/-- The body of `mulle_objc_class_search_method` from the label `retry` on.  `reloads` are the graphs that
`method_is_missing` leaves each time it asks for a retry; the mode of the failed search is kept. -/
def searchMethodRetry (cls : ClassRef P) (inheritance : ℕ) :
    List (ClassGraph P) → ClassGraph P → SearchState P → Outcome × SearchState P
  | [], g, st => whenMissing (searchMethodOnce search g cls inheritance st) fun st => (.null, st)
  | reload :: reloads, g, st =>
    whenMissing (searchMethodOnce search g cls inheritance st) fun st =>
      searchMethodRetry cls inheritance reloads reload st

/-- `mulle_objc_class_search_method`. -/
def searchMethod (g : ClassGraph P) (reloads : List (ClassGraph P)) (cls : ClassRef P)
    (search : SearchArguments P) (inheritance : ℕ) : Outcome × SearchState P :=
  match search.mode.toInternal? with
  | none => (.null, ⟨.default, .EINVAL, none, []⟩)
  | some mode => searchMethodRetry search cls inheritance reloads g ⟨mode, .ENOENT, none, []⟩

end MulleObjcRuntime.Search
