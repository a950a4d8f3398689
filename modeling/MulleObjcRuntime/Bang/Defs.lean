import Mathlib.Data.Option.Basic
import MulleObjcRuntime.Lib.Interleaving

/-!
# Bang and crunch of a universe

Threads that set up a universe and tear it down, and settle by the universe's version who does it.

* `Version` — the values of the version;
* `cas` — a compare and swap;
* `Shared` — the version, and what has been done in the lives of the universe;
* `Local` — where a thread is in `__mulle_objc_universe_bang` or in `_mulle_objc_universe_crunch`;
* `threadsStep` — one access of one thread.

The setup function of a bang does not touch the version; the function of a crunch is `_mulle_objc_universe_done`.
-/

namespace MulleObjcRuntime.Bang

open Lib.Interleaving

/-- The values of `universe->version`. -/
inductive Version
  | isUninitialized
  | isInitializing
  | isDeinitializing
  | isDeallocating
  /-- `MULLE_OBJC_RUNTIME_VERSION` -/
  | runtimeVersion
  /-- `MULLE_OBJC_RUNTIME_VERSION + 1` -/
  | runtimeVersionPlusOne
deriving DecidableEq, Repr

/-- `__mulle_atomic_pointer_cas`: the value that was found, and the one that is there now -/
def cas (version value expect : Version) : Version × Version :=
  (version, if version = expect then value else version)

lemma cas_self (version value : Version) : cas version value version = (version, value) := by simp [cas]

lemma cas_ne {version value expect : Version} (h : version ≠ expect) : cas version value expect = (version, version) := by
  simp [cas, h]

/-- What a thread does in the life of a universe. -/
inductive Event (ι : Type)
  | setupBegins (i : ι)
  | setupEnds (i : ι)
  | bangReturns (i : ι)
  | teardownBegins (i : ι)
  | teardownEnds (i : ι)
deriving DecidableEq

/-- The version, what has been done in this life of the universe, and what was done in each former one. -/
structure Shared (ι : Type) where
  version : Version
  life : List (Event ι)
  formerLives : List (List (Event ι))

/-- Where a thread is. -/
inductive Local
  | idle
  /-- in the loop that locks the universe for the bang -/
  | bangLocking
  | bangLocked
  /-- the setup function runs -/
  | settingUp
  | bangUnlocking
  /-- in the loop that locks the universe for the crunch -/
  | crunchLocking
  /-- `_mulle_objc_universe_willfinalize` runs -/
  | willFinalizing
  /-- in the loop that sets the universe to deinitializing -/
  | deinitializing
  | crunchLocked
  /-- `_mulle_objc_universe_done` runs, up to its own compare and swap -/
  | tearingDown
  /-- someone is messing around with the universe -/
  | failed
  /-- `_mulle_objc_universe_done` frees stuff -/
  | freeing
  | crunchUnlocking
deriving DecidableEq, Repr

/-- What an idle thread may take up. -/
inductive Command
  | bang
  | crunch
deriving DecidableEq, Repr

variable {ι : Type}

/-- Something is done in this life. -/
def Shared.did (shared : Shared ι) (e : Event ι) : Shared ι := { shared with life := shared.life ++ [e] }

/-- The next access of the thread `i`. -/
def advance (i : ι) (shared : Shared ι) : Local → Option (Shared ι × Local)
  | .idle => none
  | .bangLocking =>
    let (actual, version) := cas shared.version .isInitializing .isUninitialized
    let shared := { shared with version }
    if actual = .runtimeVersion then some (shared.did (.bangReturns i), .idle)
    else if actual = .isUninitialized then some (shared, .bangLocked)
    else some (shared, .bangLocking)
  | .bangLocked => some (shared.did (.setupBegins i), .settingUp)
  | .settingUp => some (shared.did (.setupEnds i), .bangUnlocking)
  | .bangUnlocking =>
    let (actual, version) := cas shared.version .runtimeVersion .isInitializing
    let shared := { shared with version }
    if actual = .isInitializing then some (shared.did (.bangReturns i), .idle)
    else some (shared, .bangUnlocking)
  | .crunchLocking =>
    let (actual, version) := cas shared.version .runtimeVersionPlusOne .runtimeVersion
    let shared := { shared with version }
    if actual = .isUninitialized then some (shared, .idle)
    else if actual = .runtimeVersionPlusOne then some (shared, .willFinalizing)
    else some (shared, .crunchLocking)
  | .willFinalizing => some (shared, .deinitializing)
  | .deinitializing =>
    let (actual, version) := cas shared.version .isDeinitializing .runtimeVersionPlusOne
    let shared := { shared with version }
    if actual = .isDeinitializing then some (shared, .crunchLocked)
    else some (shared, .deinitializing)
  | .crunchLocked => some (shared.did (.teardownBegins i), .tearingDown)
  | .tearingDown =>
    let (actual, version) := cas shared.version .isDeallocating .isDeinitializing
    let shared := { shared with version }
    if actual = .isDeinitializing then some (shared, .freeing)
    else some (shared, .failed)
  | .failed => none
  | .freeing => some (shared.did (.teardownEnds i), .crunchUnlocking)
  | .crunchUnlocking =>
    let (actual, version) := cas shared.version .isUninitialized .isDeallocating
    if actual = .isDeallocating then
      -- the life of the universe ends
      some ({ version, life := [], formerLives := shared.formerLives ++ [shared.life] }, .idle)
    else some ({ shared with version }, .crunchUnlocking)

/-- An idle thread takes up a command. -/
def start : Command → Local
  | .bang => .bangLocking
  | .crunch => .crunchLocking

/-- The threads' states. -/
abbrev ThreadsState (ι : Type) := Threads ι (Shared ι) Local

/-- A universe that has been allocated, and threads that have done nothing. -/
def threadsStart (ι : Type) : ThreadsState ι := ⟨⟨.isUninitialized, [], []⟩, fun _ => .idle⟩

/-- One step of the thread `i`: an idle thread takes up a command, any other goes on. -/
def threadsStep [DecidableEq ι] (s : ThreadsState ι) : ι × Option Command → Option (ThreadsState ι)
  | (i, some command) => if s.thread i = .idle then some (s.moved i s.shared (start command)) else none
  | (i, none) => (advance i s.shared (s.thread i)).map fun (shared, l) => s.moved i shared l

end MulleObjcRuntime.Bang
