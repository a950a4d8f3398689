import MulleObjcRuntime.Hashmap.Walk
import MulleObjcRuntime.Lib.Walking
import MulleObjcRuntime.Properties.Find

/-!
# The walks over what a class has

Five walks hand what a class has to a callback, and then what its superclasses have: categories, protocols, mixins, ivars
and properties.

* `Ivar`, `Ivarlist`, `ClassMembers` — what the classes of a universe have besides methods;
* `walkSuperclasses` — a class and its superclasses, until the callback ends the walk;
* `walkCategoryids`, `walkProtocolids`, `walkMixins`, `walkIvars`, `walkProperties` — the walks;
* `handedOut` — what there is for an inheritance, in order;
* `walkSuperclasses_eq` — the walk is one loop over that.
-/

namespace MulleObjcRuntime.Members

open Classes Hashmap Lib.Walking Properties

/-- A `_mulle_objc_ivar` with its `_mulle_objc_ivardescriptor`. -/
structure Ivar where
  ivarid : ℕ
  name : List Char
  signature : List Char
  offset : ℤ
deriving DecidableEq, Repr

/-- A `_mulle_objc_ivarlist`. -/
structure Ivarlist where
  ivars : List Ivar
deriving DecidableEq, Repr

/-- What the classes of a universe have.  The lists of a class are in the order they were added. -/
structure ClassMembers (P : Type) where
  ivarlists : P → List Ivarlist
  propertylists : P → List Propertylist
  protocolids : P → List ℕ
  categoryids : P → List ℕ

/-- What a walk returns: the state of the callback, the command, and if `errno` was set to `ENOENT`. -/
structure Walked (σ : Type) where
  state : σ
  rval : Walkcommand
  enoent : Bool
deriving DecidableEq, Repr

variable {P σ α β : Type}

/-- The walk ends.  Most walks set `errno` after an error. -/
def Walked.ends (sets : Bool) (r : σ × Walkcommand) : Walked σ := ⟨r.1, r.2, sets && r.2 == .error⟩

section Walks

variable (g : ClassGraph P) (m : ClassMembers P)

/-- A class and its superclasses.  The inheritance is that of the first class throughout.  `frames` bounds the nesting of
the calls: without enough of them the outermost call has not returned. -/
def walkSuperclasses (own : P → σ → σ × Walkcommand) (sets : Bool) (inheritance : ℕ) : ℕ → P → σ → Option (Walked σ)
  | 0, _, _ => none
  | frames + 1, infra, s =>
    let r := own infra s
    if r.2 = .ok then
      if has inheritance dontInheritSuperclass then some (.ends sets r)
      else
        match (g.pair infra).superclass with
        | none => some (.ends sets r)
        | some superclass => walkSuperclasses own sets inheritance frames superclass r.1
    else some (.ends sets r)

/-- The lists that are enumerated: the `@implementation` alone, or all of them, the last one first. -/
def enumerated (inheritance : ℕ) (lists : List β) : List β :=
  (if has inheritance dontInheritCategories then lists.take 1 else lists).reverse

/-- `_mulle_objc_ivarlist_walk` -/
def ivarlistWalk (f : σ → Ivar → P → σ × Walkcommand) (infra : P) (s : σ) (list : Ivarlist) : σ × Walkcommand :=
  walk .ok (fun s p => f s p infra) s list.ivars

/-- `_mulle_objc_propertylist_walk` -/
def propertylistWalk (f : σ → Property → P → σ × Walkcommand) (infra : P) (s : σ) (list : Propertylist) :
    σ × Walkcommand :=
  walk .ok (fun s p => f s p infra) s list.properties

/-- `_mulle_objc_classpair_walk_categoryids` -/
def walkCategoryids (inheritance : ℕ) (f : σ → ℕ → P → σ × Walkcommand) : ℕ → P → σ → Option (Walked σ) :=
  walkSuperclasses g (fun pair s => walk .ok (fun s p => f s p pair) s (m.categoryids pair)) true inheritance

/-- `_mulle_objc_classpair_walk_protocolids` -/
def walkProtocolids (inheritance : ℕ) (f : σ → ℕ → P → σ × Walkcommand) : ℕ → P → σ → Option (Walked σ) :=
  walkSuperclasses g (fun pair s => walk .ok (fun s p => f s p pair) s (m.protocolids pair)) true inheritance

/-- `_mulle_objc_classpair_walk_mixins` -/
def walkMixins (inheritance : ℕ) (f : σ → P → P → σ × Walkcommand) : ℕ → P → σ → Option (Walked σ) :=
  walkSuperclasses g (fun pair s => walk .ok (fun s p => f s p pair) s (g.pair pair).mixins) true inheritance

/-- `_mulle_objc_infraclass_walk_ivars` -/
def walkIvars (inheritance : ℕ) (f : σ → Ivar → P → σ × Walkcommand) : ℕ → P → σ → Option (Walked σ) :=
  walkSuperclasses g (fun infra s => walk .ok (ivarlistWalk f infra) s (enumerated inheritance (m.ivarlists infra)))
    true inheritance

/-- `_mulle_objc_infraclass_walk_properties`, whose loop goes on with the superclass.  It does not set `errno`. -/
def walkProperties (inheritance : ℕ) (f : σ → Property → P → σ × Walkcommand) : ℕ → P → σ → Option (Walked σ) :=
  walkSuperclasses g
    (fun infra s => walk .ok (propertylistWalk f infra) s (enumerated inheritance (m.propertylists infra))) false
    inheritance

end Walks

/-! ## What is handed out -/

/-- The classes that the walks come to. -/
def reach (g : ClassGraph P) (inheritance : ℕ) (infra : P) : List P :=
  if has inheritance dontInheritSuperclass then [infra] else lineage g infra

/-- What these classes have, each with its class. -/
def handedOut (g : ClassGraph P) (own : P → List α) (inheritance : ℕ) (infra : P) : List (α × P) :=
  (reach g inheritance infra).flatMap fun c => (own c).map fun a => (a, c)

/-- The ivars of a class in the order of a walk. -/
def ClassMembers.ivars (m : ClassMembers P) (inheritance : ℕ) (infra : P) : List Ivar :=
  (enumerated inheritance (m.ivarlists infra)).flatMap Ivarlist.ivars

/-- The properties of a class in the order of a walk. -/
def ClassMembers.properties (m : ClassMembers P) (inheritance : ℕ) (infra : P) : List Property :=
  (enumerated inheritance (m.propertylists infra)).flatMap Propertylist.properties

variable {g : ClassGraph P} {m : ClassMembers P} {own : P → List α} {inheritance frames : ℕ} {infra : P}

lemma handedOut_eq (own : P → List α) (inheritance : ℕ) (infra : P) :
    handedOut g own inheritance infra = ((own infra).map fun a => (a, infra)) ++
      if has inheritance dontInheritSuperclass then []
      else (g.pair infra).superclass.elim [] (handedOut g own inheritance) := by
  unfold handedOut reach
  split
  · simp
  · cases hs : (g.pair infra).superclass with
    | none => simp [lineage_root hs]
    | some superclass => simp [lineage_superclass hs]

/-- **A walk is one loop** over what is handed out.  The induction is on the superclasses. -/
theorem walkSuperclasses_eq (f : σ → α → P → σ × Walkcommand) (sets : Bool) (hframes : g.depth infra < frames) (s : σ) :
    walkSuperclasses g (fun c s => walk .ok (fun s a => f s a c) s (own c)) sets inheritance frames infra s =
      some (.ends sets (walk .ok (fun s a => f s a.1 a.2) s (handedOut g own inheritance infra))) := by
  induction frames generalizing infra s with
  | zero => omega
  | succ frames ih =>
    rw [walkSuperclasses, handedOut_eq, walk_append, walk_map, andThen]
    split
    · rename_i hok
      have hend : ∀ r : σ × Walkcommand, r.2 = .ok → (r.1, .ok) = r := fun r hr => Prod.ext rfl hr.symm
      split
      · rw [walk_nil, hend _ hok]
      · cases hs : (g.pair infra).superclass with
        | none => rw [Option.elim_none, walk_nil, hend _ hok]
        | some superclass =>
          have hdepth := g.depth_superclass infra superclass hs
          exact ih (by omega) _
    · rfl

lemma walkIvars_eq (f : σ → Ivar → P → σ × Walkcommand) (hframes : g.depth infra < frames) (s : σ) :
    walkIvars g m inheritance f frames infra s =
      some (.ends true (walk .ok (fun s a => f s a.1 a.2) s (handedOut g (m.ivars inheritance) inheritance infra))) := by
  rw [← walkSuperclasses_eq f true hframes s, walkIvars]
  simp only [ClassMembers.ivars, walk_flatMap]
  rfl

lemma walkProperties_eq (f : σ → Property → P → σ × Walkcommand) (hframes : g.depth infra < frames) (s : σ) :
    walkProperties g m inheritance f frames infra s =
      some (.ends false
        (walk .ok (fun s a => f s a.1 a.2) s (handedOut g (m.properties inheritance) inheritance infra))) := by
  rw [← walkSuperclasses_eq f false hframes s, walkProperties]
  simp only [ClassMembers.properties, walk_flatMap]
  rfl

end MulleObjcRuntime.Members
