import MulleObjcRuntime.Bang.Defs
import MulleObjcRuntime.Lib.OnceGuard
import MulleObjcRuntime.Registry.Defs

/-!
# The table of universes

All universes but the default one are in a hashtable, which is set up by whoever needs it first.  A thread that asks for
a universe looks it up, and makes and registers one if there is none.

* `getUniverseHash` — the hash of a universe id;
* `Universetable` — the table, the universes and what has been returned;
* `GetUse` — where a thread is in `__mulle_objc_global_get_universe`, and `GetUse.step`, its next access;
* `UniversesReachable` — what any interleaving of the threads leads to.

A universe that has been returned may be set up and torn down, which changes its version.  None is taken out of the
table.
-/

namespace MulleObjcRuntime.Universes

open Bang Lib.Interleaving Lib.OnceGuard
open Registry (Config uniqueidFromString)

/-- What a build depends on. -/
structure Platform where
  cfg : Config
  /-- `UINTPTR_MAX <= UINT32_MAX` -/
  ilp32 : Bool
  /-- `NDEBUG` is defined. -/
  ndebug : Bool
  /-- A compare and swap may fail in spite of what it finds. -/
  weak : Bool

/-- `INTPTR_MAX` -/
def Platform.intptrMax (platform : Platform) : ℕ := if platform.ilp32 then 2 ^ 31 - 1 else 2 ^ 63 - 1

/-- `_mulle_objc_global_get_universe_hash` -/
def getUniverseHash (platform : Platform) (universeid : ℕ) : ℕ :=
  let hash := if platform.ilp32 then universeid &&& platform.intptrMax else universeid
  if hash = 0 then platform.intptrMax else hash

/-- `mulle_objc_universeid_from_string` of a string that is not empty -/
def universeidFromString (cfg : Config) (s : List Char) : ℕ := (uniqueidFromString cfg s).toNat

/-- A universe is asked for by its id and its name. -/
structure GetCall where
  universeid : ℕ
  universename : Option (List Char)
deriving DecidableEq, Repr

/-- The checks of `mulle_objc_alloc_universe`. -/
def GetCall.allocates (cfg : Config) (call : GetCall) : Bool :=
  if call.universeid ≠ 0 ∧ call.universename = none ∨ call.universeid = 0 ∧ call.universename ≠ none then false
  else
    match call.universename with
    | some universename =>
      if universename = [] then false
      else if universeidFromString cfg universename ≠ call.universeid then false
      else !(cfg.debug && call.universeid == 0x96fde243)
    | none => !(cfg.debug && call.universeid == 0x96fde243)

/-- The address of `mulle_objc_defaultuniverse`. -/
def defaultuniverse : ℕ := 0

/-- `mulle_objc_universetable` and the universes, which are allocated at the addresses from `1` on. -/
structure Universetable where
  mapinitvalue : ℕ
  /-- `none` as long as it has not been initialized -/
  map : Option (ℕ → Option ℕ)
  allocated : ℕ
  universeid : ℕ → ℕ
  version : ℕ → Version
  /-- the ids that were asked for, and what was returned -/
  returned : List (ℕ × ℕ)

namespace Universetable

variable (t : Universetable)

/-- `mulle_concurrent_hashtable_lookup` -/
def lookup (hash : ℕ) : Option ℕ := t.map.bind fun map => map hash

/-- `_mulle_concurrent_hashtable_init_positive` -/
def init : Universetable := { t with map := some fun _ => none }

/-- `mulle_concurrent_hashtable_register` of a hash that is not in the table -/
def register (hash univ : ℕ) : Universetable :=
  { t with map := t.map.map fun map => Function.update map hash (some univ) }

/-- A universe is allocated. -/
def alloc (universeid : ℕ) : Universetable :=
  { t with
    allocated := t.allocated + 1
    universeid := Function.update t.universeid (t.allocated + 1) universeid
    version := Function.update t.version (t.allocated + 1) .isUninitialized }

/-- A call returns. -/
def returns (universeid univ : ℕ) : Universetable := { t with returned := (universeid, univ) :: t.returned }

@[simp] lemma returns_lookup (universeid univ : ℕ) : (t.returns universeid univ).lookup = t.lookup := rfl

variable {t} in
lemma register_lookup (hmap : t.map.isSome) (hash univ : ℕ) :
    (t.register hash univ).lookup = Function.update t.lookup hash (some univ) := by
  obtain ⟨map, hmap⟩ := Option.isSome_iff_exists.1 hmap
  funext other
  simp only [lookup, register, hmap, Option.map_some, Option.bind_some, Function.update_apply]

end Universetable

/-- What `_mulle_objc_global_ensure_universe_table` is called for. -/
inductive Ensuring
  | lookup
  | register (univ : ℕ)
deriving DecidableEq, Repr

/-- Where a thread is.  Those about the init value are in `_mulle_objc_global_ensure_universe_table`. -/
inductive GetUse
  | idle
  | getUniverse (call : GetCall)
  | readInitvalue (call : GetCall) (ensuring : Ensuring)
  | casInitvalue (call : GetCall) (ensuring : Ensuring)
  | initMap (call : GetCall) (ensuring : Ensuring)
  | writeInitvalue (call : GetCall) (ensuring : Ensuring)
  | waitInitvalue (call : GetCall) (ensuring : Ensuring)
  | lookup (call : GetCall)
  | alloc (call : GetCall)
  | register (call : GetCall) (univ : ℕ)
  /-- `_mulle_objc_universe_done` of a universe that could not be registered -/
  | done (call : GetCall) (univ actual : ℕ)
  /-- with the universe that is lost -/
  | failed (univ : Option ℕ)
deriving DecidableEq, Repr

/-- The table is there. -/
def Ensuring.next (call : GetCall) : Ensuring → GetUse
  | .lookup => .lookup call
  | .register univ => .register call univ

section Step

variable (platform : Platform)

/-- The next access of a thread.  `_mulle_objc_universe_done` is modelled by its compare and swap of the version: there is
nothing to wind down in a universe that was never set up. -/
def GetUse.step (spurious : Bool) (t : Universetable) : GetUse → Universetable × GetUse
  | .idle => (t, .idle)
  | .getUniverse call =>
    if call.universeid = 0 then (t.returns call.universeid defaultuniverse, .idle) else (t, .readInitvalue call .lookup)
  | .readInitvalue call ensuring =>
    (t, if t.mapinitvalue = 2 then ensuring.next call else .casInitvalue call ensuring)
  | .casInitvalue call ensuring =>
    if t.mapinitvalue = 0 then (if spurious then t else { t with mapinitvalue := 1 }, .initMap call ensuring)
    else (t, .waitInitvalue call ensuring)
  | .initMap call ensuring => (t.init, .writeInitvalue call ensuring)
  | .writeInitvalue call ensuring => ({ t with mapinitvalue := 2 }, ensuring.next call)
  | .waitInitvalue call ensuring =>
    (t, if t.mapinitvalue = 2 then ensuring.next call else .waitInitvalue call ensuring)
  | .lookup call =>
    match t.lookup (getUniverseHash platform call.universeid) with
    | none => (t, .alloc call)
    | some univ =>
      -- the assertion of `mulle_objc_global_lookup_universe`
      if !platform.ndebug && t.version univ == .isUninitialized then (t, .failed none)
      else (t.returns call.universeid univ, .idle)
  | .alloc call =>
    if call.allocates platform.cfg then
      (t.alloc call.universeid, .readInitvalue call (.register (t.allocated + 1)))
    else (t, .failed none)
  | .register call univ =>
    let hash := getUniverseHash platform call.universeid
    match t.lookup hash with
    | none => ((t.register hash univ).returns call.universeid univ, .idle)
    | some actual => (t, .done call univ actual)
  | .done call univ actual =>
    let (found, version) := cas (t.version univ) .isDeallocating .isDeinitializing
    let t := { t with version := Function.update t.version univ version }
    if found = .isDeinitializing then (t.returns call.universeid actual, .idle) else (t, .failed (some univ))
  | .failed univ => (t, .failed univ)

/-- What a thread does: it asks for a universe, it sets up or tears down one that it has got, or it goes on. -/
inductive GetAct : Universetable → GetUse → Universetable → GetUse → Prop
  | begins {t : Universetable} (call : GetCall) (hcall : call.universeid < 2 ^ 32) :
    GetAct t .idle t (.getUniverse call)
  | versions {t : Universetable} (universeid univ : ℕ) (version : Version)
      (hreturned : (universeid, univ) ∈ t.returned) :
    GetAct t .idle { t with version := Function.update t.version univ version } .idle
  | goes {t : Universetable} {u : GetUse} (spurious : Bool) (hspurious : spurious → platform.weak) :
    GetAct t u (u.step platform spurious t).1 (u.step platform spurious t).2

/-- Nobody has asked for a universe. -/
def universesStart (ι : Type) : Threads ι Universetable GetUse :=
  ⟨⟨0, none, 0, fun _ => 0, fun _ => .isUninitialized, []⟩, fun _ => .idle⟩

/-- The states that any interleaving of the threads leads to. -/
def UniversesReachable {ι : Type} [DecidableEq ι] (s : Threads ι Universetable GetUse) : Prop :=
  Threads.Reachable (fun _ => GetAct platform) (universesStart ι) s

end Step

end MulleObjcRuntime.Universes
