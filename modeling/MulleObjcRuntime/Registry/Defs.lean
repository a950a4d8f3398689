import MulleObjcRuntime.Impcache.Fillrate
import MulleObjcRuntime.Lib.OwnedKeys

/-!
# The class registry of a universe

The classtable, and what registers, poses and removes classes there.

* `Classpair`, `Universe` — the class pairs by address, the classtable, the table of fast classes and the class cache;
* `registerInfraclass`, `patchInfraclass`, `removeInfraclass`, `setFastclass` — the operations on them;
* `allInfraclasses`, `callInfraclasses`, `freeClassgraph` — what a teardown makes of the classtable;
* `Action`, `step` — class pairs that are created, registered, loaded and posed.

There is one thread, and memory does not run out.  A class is the address of its infraclass, `0` for `NULL`.
-/

namespace MulleObjcRuntime.Registry

open Lib.OwnedKeys Impcache

/-! ## The configuration -/

/-- What `errno` is set to. -/
inductive Errno
  | einval
  | efault
  | edom
  | eexist
  | enoent
  | enospc
  | enomem
  | eacces
  | echild
deriving DecidableEq, Repr

/-- `MULLE_OBJC_S_FASTCLASSES` -/
def sFastclasses : ℕ := 64

/-- What is configured when the runtime is compiled, and the hash that is not part of it. -/
structure Config where
  /-- `_mulle_fnv1a_32` -/
  fnv1a32 : List Char → BitVec 32
  /-- `DEBUG` is defined. -/
  debug : Bool
  /-- `MULLE_OBJC_FASTCLASSHASH_0` and so on, as far as they are defined -/
  fastclasshashes : List (Option ℕ)
  length_le : fastclasshashes.length ≤ sFastclasses
  caches : Impcache.Config

/-- `MULLE_OBJC_NO_UNIQUEID` -/
def noUniqueid : BitVec 32 := 0

/-- `MULLE_OBJC_INVALID_UNIQUEID` -/
def invalidUniqueid : BitVec 32 := -1

variable (cfg : Config)

/-- `mulle_objc_uniqueid_from_string`, without what it prints. -/
def uniqueidFromString (s : List Char) : BitVec 32 :=
  if s = [] then invalidUniqueid
  else
    let value := cfg.fnv1a32 s
    let value := (value <<< 4) ||| (value >>> (32 - 4))
    if value = noUniqueid then invalidUniqueid else value

/-- `mulle_objc_classid_from_string` -/
def classidFromString (s : List Char) : ℕ := (uniqueidFromString cfg s).toNat

/-- `mulle_objc_get_fastclasstable_index`, `none` for `-1` -/
def getFastclasstableIndex (classid : ℕ) : Option ℕ := cfg.fastclasshashes.findIdx? (· == some classid)

/-! ## Class pairs and the universe -/

/-- What is read and written here of a `_mulle_objc_classpair`. -/
structure Classpair where
  classid : ℕ
  name : List Char
  superclass : ℕ
  classindex : ℕ
deriving DecidableEq, Repr

/-- What is read and written here of a `_mulle_objc_universe`.  The class pairs are at the addresses up to
`allocated`. -/
structure Universe where
  allocated : ℕ
  pair : ℕ → Classpair
  classtable : AList fun _ : ℕ => ℕ
  classindex : ℕ
  fastclasstable : ℕ → ℕ
  classcache : Cache

/-- A universe without classes. -/
def Universe.new : Universe := ⟨0, fun _ => ⟨0, [], 0, 0⟩, ∅, 0, fun _ => 0, zeroCache⟩

/-- The classid of a class. -/
def Universe.classid (u : Universe) (infra : ℕ) : ℕ := (u.pair infra).classid

/-- `mulle_objc_universe_new_classpair` -/
def newClasspair (u : Universe) (classid : ℕ) (name : List Char) (superclass : ℕ) : Option Errno × Universe :=
  if classid = noUniqueid.toNat ∨ classid = invalidUniqueid.toNat then (some .einval, u)
  else if name = [] then (some .einval, u)
  else if classid ≠ classidFromString cfg name then (some .einval, u)
  else
    (none, { u with
      allocated := u.allocated + 1
      pair := Function.update u.pair (u.allocated + 1) ⟨classid, name, superclass, 0⟩ })

/-- `mulle_objc_uniqueid_is_sane_string` -/
def uniqueidIsSaneString (uniqueid : ℕ) (s : List Char) : Bool :=
  if uniqueid = noUniqueid.toNat ∨ uniqueid = invalidUniqueid.toNat then false
  else if cfg.debug then uniqueid = classidFromString cfg s
  else true

/-- `mulle_objc_infraclass_is_sane` and `mulle_objc_metaclass_is_sane`: what is wrong, if anything is.  What they find
in the lists of the class comes last. -/
def isSane (lists : Option Errno) (pair : Classpair) : Option Errno :=
  if pair.name = [] then some .einval
  else if uniqueidIsSaneString cfg pair.classid pair.name then lists
  else some .einval

/-! ## Registering -/

/-- A class gets the next index: `_mulle_objc_classpair_set_classindex` with the counter of the universe. -/
def Universe.stampClassindex (u : Universe) (infra : ℕ) : Universe :=
  { u with
    classindex := u.classindex + 1
    pair := Function.update u.pair infra { u.pair infra with classindex := u.classindex % 2 ^ 32 } }

/-- An entry of the classtable is set. -/
def Universe.setClass (u : Universe) (classid infra : ℕ) : Universe :=
  { u with classtable := u.classtable.insert classid infra }

/-- `_mulle_objc_universe_register_infraclass_for_classid` -/
def registerInfraclassForClassid (u : Universe) (infra classid : ℕ) : Option Errno × Universe :=
  match u.classtable.lookup classid with
  | some _ => (some .eexist, u)
  | none => (none, u.setClass classid infra)

/-- `mulle_objc_universe_register_infraclass` -/
def registerInfraclass (lists : Option Errno) (u : Universe) (infra : ℕ) : Option Errno × Universe :=
  if infra = 0 then (some .einval, u)
  else
    match isSane cfg lists (u.pair infra) with
    | some errno => (some errno, u)
    | none =>
      let superclass := (u.pair infra).superclass
      if superclass ≠ 0 ∧ u.classtable.lookup (u.classid superclass) = none then (some .efault, u)
      else registerInfraclassForClassid (u.stampClassindex infra) infra (u.classid infra)

/-! ## Posing -/

/-- The loop that looks for a free classid for a class that is posed away: the name with up to 32 more `%`. -/
def victimName (u : Universe) (basename : List Char) : Option (List Char) :=
  ((List.range' 1 32).map fun depth => List.replicate depth '%' ++ basename).find? fun buf =>
    u.classtable.lookup (classidFromString cfg buf) == none

/-- A class pair gets another name; it keeps its classid. -/
def Universe.rename (u : Universe) (infra : ℕ) (name : List Char) : Universe :=
  { u with pair := Function.update u.pair infra { u.pair infra with name } }

/-- `_mulle_concurrent_hashmap_patch` on the classtable -/
def patchClasstable (u : Universe) (classid infra : ℕ) : Option Errno × Universe :=
  match u.classtable.lookup classid with
  | none => (some .enoent, u)
  | some _ => (none, u.setClass classid infra)

/-- `mulle_objc_universe_patch_infraclass` -/
def patchInfraclass (lists : Option Errno) (u : Universe) (infra : ℕ) : Option Errno × Universe :=
  if infra = 0 then (some .einval, u)
  else
    match isSane cfg lists (u.pair infra) with
    | some errno => (some errno, u)
    | none =>
      let superclass := (u.pair infra).superclass
      if superclass = 0 then (some .einval, u)
      else
        let superclassid := u.classid superclass
        if u.classtable.lookup superclassid = none then (some .efault, u)
        else if getFastclasstableIndex cfg superclassid ≠ none then (some .edom, u)
        else
          let u := u.stampClassindex infra
          match victimName cfg u (u.pair superclass).name with
          | none => (some .enospc, u)
          | some newname =>
            let u := u.rename superclass newname
            match registerInfraclassForClassid u superclass (classidFromString cfg newname) with
            | (some errno, u) => (some errno, u)
            | (none, u) => patchClasstable u superclassid infra

/-! ## Removing, and fast classes -/

/-- `_mulle_objc_universe_invalidate_classcache` -/
def invalidateClasscache (u : Universe) : Universe := { u with classcache := zeroCache }

/-- `_mulle_objc_universe_remove_fastclass_at_index` -/
def removeFastclassAtIndex (u : Universe) (index : ℕ) : Universe :=
  { u with fastclasstable := Function.update u.fastclasstable index 0 }

/-- `mulle_objc_universe_remove_infraclass` -/
def removeInfraclass (u : Universe) (infra : ℕ) : Option Errno × Universe :=
  if infra = 0 then (some .einval, u)
  else if u.classtable.lookup (u.classid infra) = none then (some .enoent, u)
  else
    let u := { u with classtable := u.classtable.erase (u.classid infra) }
    let u := invalidateClasscache u
    match getFastclasstableIndex cfg (u.classid infra) with
    | none => (none, u)
    | some index => if index > 0 then (none, removeFastclassAtIndex u index) else (none, u)

/-- `_mulle_objc_universe_set_fastclass`; `none` when it gives up. -/
def setFastclass (u : Universe) (infra index : ℕ) : Option Universe :=
  if index ≥ sFastclasses then none
  else if u.fastclasstable index = 0 then some { u with fastclasstable := Function.update u.fastclasstable index infra }
  else none

/-- The end of `_mulle_objc_loadclass_enqueue`, when the class pair has been set up; `none` when it gives up. -/
def loadclassEnqueue (lists : Option Errno) (fastclassindex : ℤ) (u : Universe) (infra : ℕ) : Option Universe :=
  match if fastclassindex ≥ 0 then setFastclass u infra fastclassindex.toNat else some u with
  | none => none
  | some u =>
    match registerInfraclass cfg lists u infra with
    | (some _, _) => none
    | (none, u) => some u

/-! ## Teardown -/

/-- `_mulle_objc_universe_all_infraclasses`, with the entries in the order of the enumerator. -/
def allInfraclasses (u : Universe) (rover : List (Σ _ : ℕ, ℕ)) : List ℕ :=
  owned u.classid u.classtable.lookup rover

/-- A conversion to `int` -/
def toInt32 (n : ℤ) : ℤ := n.bmod (2 ^ 32)

/-- `reverse_compare_classindex` -/
def reverseCompareClassindex (u : Universe) (a b : ℕ) : ℤ :=
  toInt32 (toInt32 (u.pair b).classindex - toInt32 (u.pair a).classindex)

/-- `mulle_qsort`: a permutation, and in order when the comparison is one. -/
structure Qsort where
  sort : (ℕ → ℕ → ℤ) → List ℕ → List ℕ
  perm : ∀ cmp l, (sort cmp l).Perm l
  sorted : ∀ cmp l, (∀ a ∈ l, ∀ b ∈ l, cmp a b < 0 ↔ 0 < cmp b a) →
    (∀ a ∈ l, ∀ b ∈ l, ∀ c ∈ l, cmp a b ≤ 0 → cmp b c ≤ 0 → cmp a c ≤ 0) →
    (sort cmp l).Pairwise fun a b => cmp a b ≤ 0

/-- The classes in the order in which `_mulle_objc_universe_call_infraclasses` calls them. -/
def callInfraclasses (qsort : Qsort) (u : Universe) (rover : List (Σ _ : ℕ, ℕ)) : List ℕ :=
  qsort.sort (reverseCompareClassindex u) (allInfraclasses u rover)

/-- The class pairs that `_mulle_objc_universe_free_classgraph` frees, one after the other. -/
def freeClassgraph (u : Universe) (rover : List (Σ _ : ℕ, ℕ)) : List ℕ := allInfraclasses u rover

/-! ## Runs -/

/-- What is done with classes before a teardown.  What the checks find in the lists of the class comes with it. -/
inductive Action
  | newClasspair (classid : ℕ) (name : List Char) (superclass : ℕ)
  | register (infra : ℕ) (lists : Option Errno)
  | load (infra : ℕ) (fastclassindex : ℤ) (lists : Option Errno)
  | pose (infra : ℕ) (lists : Option Errno)
deriving DecidableEq, Repr

/-- A step: a class is an address that has been allocated, and loading succeeds, as otherwise the program ends. -/
@[simp] def step (u : Universe) : Action → Option Universe
  | .newClasspair classid name superclass =>
    if superclass ≤ u.allocated then some (newClasspair cfg u classid name superclass).2 else none
  | .register infra lists => if infra ≤ u.allocated then some (registerInfraclass cfg lists u infra).2 else none
  | .load infra fastclassindex lists =>
    if infra ≤ u.allocated then loadclassEnqueue cfg lists fastclassindex u infra else none
  | .pose infra lists => if infra ≤ u.allocated then some (patchInfraclass cfg lists u infra).2 else none

/-! ## A sample -/

/-- The FNV-1a hash of a string. -/
def fnv1a32 (s : List Char) : BitVec 32 :=
  s.foldl (fun hash c => (hash ^^^ BitVec.ofNat 32 c.toNat) * 16777619#32) 2166136261#32

/-- A configuration with the fast class `Fast`. -/
def sampleConfig : Config where
  fnv1a32 := fnv1a32
  debug := false
  fastclasshashes := [some 1403747576]
  length_le := by decide
  caches := Impcache.sampleConfig

/-- A class pair is created and registered. -/
def sampleClass (name : List Char) (superclass infra : ℕ) : List Action :=
  [.newClasspair (classidFromString sampleConfig name) name superclass, .register infra none]

end MulleObjcRuntime.Registry
