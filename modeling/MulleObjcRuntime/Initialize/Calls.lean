import MulleObjcRuntime.Search.Default

/-!
# The calls of +initialize and +deinitialize

Which methods are called for a class when it is set up, and which when the universe winds down.

* `callInitializeDeinitialize` — one search, and the call of what it finds;
* `callMixinsInitialize`, `callMixinsDeinitialize` — the mixins of the class and of its superclasses;
* `callInitialize`, `callDeinitialize` — all calls for a class, as the list of the method lists they come from.

A failed assertion ends the calls.
-/

namespace MulleObjcRuntime.Initialize

open Classes Search

/-- `MULLE_OBJC_INITIALIZE_METHODID` -/
def initializeMethodid : ℕ := 0xe92964bc

/-- `MULLE_OBJC_DEINITIALIZE_METHODID` -/
def deinitializeMethodid : ℕ := 0x62098d89

/-- `~MULLE_OBJC_CLASS_DONT_INHERIT_CLASS`: nothing is inherited, and no category counts. -/
def allButDontInheritClass : ℕ := 0xffffffff - dontInheritClass

/-- A method list of a class object. -/
abbrev Called (P : Type) := ClassRef P × MethodList

variable {P : Type} [DecidableEq P] (g : ClassGraph P)

/-- `_mulle_objc_metaclass_call_initialize_deinitialize`: the list of the method that is called, if there is one. -/
def callInitializeDeinitialize (cls : ClassRef P) (inheritance methodid : ℕ) : List (Called P) :=
  ((returned (searchMethod g [] cls (.makeDefault methodid) inheritance)).map fun h => (h.cls, h.list)).toList

/-- The mixins of a class, without the class itself. -/
def enumerateMixins (owner : P) : List P := (g.pair owner).mixins.filter (· ≠ owner)

/-- The call for a mixin. -/
def callMixin (methodid : ℕ) (mixin : P) : List (Called P) :=
  callInitializeDeinitialize g ⟨mixin, true⟩ allButDontInheritClass methodid

/-- `_mulle_objc_infraclass_call_mixins_initialize`, the superclass first -/
def callMixinsInitialize : ℕ → P → Option (List (Called P))
  | 0, _ => none
  | fuel + 1, owner => do
    guard (¬ (g.pair owner).isMixin)
    let above ← match (g.pair owner).superclass with
      | none => some []
      | some superclass => callMixinsInitialize fuel superclass
    return above ++ (enumerateMixins g owner).flatMap (callMixin g initializeMethodid)

/-- `_mulle_objc_infraclass_call_mixins_deinitialize`, the superclass last -/
def callMixinsDeinitialize : ℕ → P → Option (List (Called P))
  | 0, _ => none
  | fuel + 1, owner => do
    guard (¬ (g.pair owner).isMixin)
    let own := (enumerateMixins g owner).reverse.flatMap (callMixin g deinitializeMethodid)
    let above ← match (g.pair owner).superclass with
      | none => some []
      | some superclass => callMixinsDeinitialize fuel superclass
    return own ++ above

/-- With what inheritance a class is searched for its `+initialize`. -/
def initializeInheritance (p : P) : ℕ :=
  g.inheritance ⟨p, true⟩ ||| dontInheritProtocols ||| dontInheritProtocolCategories ||| dontInheritProtocolMeta |||
    dontInheritSuperclassInheritance

/-- With what inheritance a class is searched for its `+deinitialize`. -/
def deinitializeInheritance (p : P) : ℕ :=
  g.inheritance ⟨p, true⟩ ||| dontInheritProtocols ||| dontInheritProtocolCategories

/-- `_mulle_objc_infraclass_call_initialize` -/
def callInitialize (p : P) : Option (List (Called P)) :=
  if (g.pair p).isMixin then some []
  else do
    let own := callInitializeDeinitialize g ⟨p, true⟩ (initializeInheritance g p) initializeMethodid
    let mixins ← callMixinsInitialize g (g.depth p + 1) p
    return own ++ mixins

/-- `_mulle_objc_infraclass_call_deinitialize` of an initialized class -/
def callDeinitialize (p : P) : Option (List (Called P)) :=
  if (g.pair p).isMixin then some []
  else do
    let mixins ← callMixinsDeinitialize g (g.depth p + 1) p
    let own := callInitializeDeinitialize g ⟨p, true⟩ (deinitializeInheritance g p) deinitializeMethodid
    return mixins ++ own

/-! ## What is called -/

/-- The methods a search comes upon, as lists of class objects. -/
def implementers (methodid : ℕ) (path : List (Visit P)) : List (Called P) :=
  (hits methodid path).map fun h => (h.cls, h.list)

lemma callInitializeDeinitialize_eq (cls : ClassRef P) (inheritance methodid : ℕ) :
    callInitializeDeinitialize g cls inheritance methodid =
      if Blocked (hits methodid (linearization g cls inheritance)) then []
      else (implementers methodid (linearization g cls inheritance)).head?.toList := by
  have hreturns := (searchMethod_default g cls methodid inheritance).1
  unfold callInitializeDeinitialize
  rw [hreturns.returned_eq, pick_eq]
  split
  · rfl
  · rw [implementers, List.head?_map]

end MulleObjcRuntime.Initialize
