import Mathlib.Data.Fintype.Basic
import MulleObjcRuntime.Lib.LinkedStacks
import MulleObjcRuntime.Lib.Runs

/-!
# Exceptions

A try statement has an entry, which is linked with those that its thread has entered before in the same universe.  A throw
goes to the entry on top.

* `Entry`, `Runtime` — the entries, and the stacks of them;
* `tryenter`, `tryexit`, `throw`, `extractException` — the functions of the runtime;
* `Frame`, `State`, `step` — the try statements that the threads are in, and what becomes of them;
* `Proper` — how the functions are to be used;
* `Delivers` — what is expected of a throw.
-/

namespace MulleObjcRuntime.Exceptions

/-! ## The runtime -/

/-- A `_mulle_objc_exceptionstackentry`.  It is told by its address, and what `setjmp` has put into its `buf` is the try
statement that it belongs to. -/
structure Entry where
  exception : Option ℕ
  previous : Option ℕ
deriving DecidableEq

/-- The memory with the entries, and the `exception_stack` of the `_mulle_objc_threadinfo` that a thread has in a universe. -/
structure Runtime (ι υ : Type) where
  entry : ℕ → Entry
  exceptionStack : ι × υ → Option ℕ

variable {ι υ : Type} [DecidableEq ι] [DecidableEq υ]

namespace Runtime

variable (rt : Runtime ι υ) (config : ι × υ) (data : ℕ)

/-- `_mulle_objc_universe_tryenter` -/
def tryenter : Runtime ι υ where
  entry := Function.update rt.entry data ⟨none, rt.exceptionStack config⟩
  exceptionStack := Function.update rt.exceptionStack config (some data)

/-- `_mulle_objc_universe_tryexit` -/
def tryexit : Runtime ι υ where
  entry := rt.entry
  exceptionStack := Function.update rt.exceptionStack config (rt.entry data).previous

/-- `_mulle_objc_universe_throw`, with the entry for the `longjmp`; `none` where it calls `abort`. -/
def throw (exception : Option ℕ) : Option (ℕ × Runtime ι υ) :=
  match rt.exceptionStack config with
  | none => none
  | some entry =>
    some (entry,
      { entry := Function.update rt.entry entry { rt.entry entry with exception }
        exceptionStack := Function.update rt.exceptionStack config (rt.entry entry).previous })

omit [DecidableEq ι] [DecidableEq υ] in
/-- `_mulle_objc_universe_extract_exception` -/
def extractException : Option ℕ := (rt.entry data).exception

end Runtime

/-! ## Code that throws and catches -/

/-- A try statement that a thread is in: its universe, the address of its entry, and what it has caught, `none` as long as
its body runs. -/
structure Frame (υ : Type) where
  univ : υ
  data : ℕ
  caught : Option (Option ℕ)
deriving DecidableEq

/-- The body of the try statement runs, and it has been entered in the universe. -/
def Frame.awaits (univ : υ) (f : Frame υ) : Bool := f.univ = univ ∧ f.caught = none

/-- The runtime, and the try statements that each thread is in, the innermost one first. -/
structure State (ι υ : Type) where
  rt : Runtime ι υ
  frames : ι → List (Frame υ)

/-- Nothing has been entered. -/
def State.start (ι υ : Type) : State ι υ := ⟨⟨fun _ => ⟨none, none⟩, fun _ => none⟩, fun _ => []⟩

/-- What a thread does: it enters the body of a try statement, comes to its end, throws, comes to the end of a statement
that has caught something, or writes to memory. -/
inductive Action (υ : Type)
  | enter (univ : υ) (data : ℕ)
  | exit (univ : υ) (data : ℕ)
  | throw (univ : υ) (exception : Option ℕ)
  | leave
  | write (data : ℕ) (entry : Entry)
deriving DecidableEq

/-- `longjmp`: the thread is back in the try statement of an entry, and all that are inside of it are gone.  Without such a
statement, nobody knows where it is. -/
def longjmp (entry : ℕ) (exception : Option ℕ) (frames : List (Frame υ)) : Option (List (Frame υ)) :=
  match frames.dropWhile fun f => f.data != entry with
  | [] => none
  | f :: rest => some ({ f with caught := some exception } :: rest)

/-- One action of one thread, `none` where the program ends. -/
def step (s : State ι υ) : ι × Action υ → Option (State ι υ)
  | (i, .enter univ data) =>
    some ⟨s.rt.tryenter (i, univ) data, Function.update s.frames i (⟨univ, data, none⟩ :: s.frames i)⟩
  | (i, .exit univ data) => some ⟨s.rt.tryexit (i, univ) data, Function.update s.frames i (s.frames i).tail⟩
  | (i, .throw univ exception) =>
    (s.rt.throw (i, univ) exception).bind fun (entry, rt) =>
      (longjmp entry exception (s.frames i)).map fun frames => ⟨rt, Function.update s.frames i frames⟩
  | (i, .leave) => some { s with frames := Function.update s.frames i (s.frames i).tail }
  | (_, .write data entry) => some { s with rt := { s.rt with entry := Function.update s.rt.entry data entry } }

section Use

variable (s : State ι υ)

/-- No try statement has its entry there. -/
def Unused (data : ℕ) : Prop := ∀ i, ∀ f ∈ s.frames i, f.data ≠ data

/-- The entry of a try statement is a new one, which nobody else writes to, and the innermost try statement ends first. -/
def Proper : ι × Action υ → Prop
  | (_, .enter _ data) => Unused s data
  | (i, .exit univ data) => (s.frames i).head? = some ⟨univ, data, none⟩
  | (_, .throw _ _) => True
  | (i, .leave) => ∀ f ∈ (s.frames i).head?, f.caught ≠ none
  | (_, .write data _) => Unused s data

omit [DecidableEq ι] [DecidableEq υ] in
/-- What the try statements have caught is in their entries. -/
def Extracts (rt : Runtime ι υ) (frames : List (Frame υ)) : Prop :=
  ∀ f ∈ frames, ∀ exception, f.caught = some exception → rt.extractException f.data = exception

/-- **A throw goes to the innermost try statement of its universe whose body runs**, and ends the program if there is none;
a try statement that has caught something finds it. -/
structure Delivers : Prop where
  target : ∀ i univ exception,
    (s.rt.throw (i, univ) exception).map Prod.fst = ((s.frames i).find? (Frame.awaits univ)).map Frame.data
  extract : ∀ i, Extracts s.rt (s.frames i)

/-- What a throw goes past has caught something already, and is no body of another universe. -/
def StaysInside : ι × Action υ → Prop
  | (i, .throw univ _) => ∀ f ∈ (s.frames i).takeWhile fun f => !f.awaits univ, f.caught ≠ none
  | _ => True

end Use

instance decidableProper [Fintype ι] (s : State ι υ) : (a : ι × Action υ) → Decidable (Proper s a)
  | (_, .enter _ data) => inferInstanceAs (Decidable (∀ i, ∀ f ∈ s.frames i, f.data ≠ data))
  | (i, .exit univ data) => inferInstanceAs (Decidable ((s.frames i).head? = some ⟨univ, data, none⟩))
  | (_, .throw _ _) => inferInstanceAs (Decidable True)
  | (i, .leave) => inferInstanceAs (Decidable (∀ f ∈ (s.frames i).head?, f.caught ≠ none))
  | (_, .write data _) => inferInstanceAs (Decidable (∀ i, ∀ f ∈ s.frames i, f.data ≠ data))

instance decidableStaysInside (s : State ι υ) : (a : ι × Action υ) → Decidable (StaysInside s a)
  | (i, .throw univ _) =>
    inferInstanceAs (Decidable (∀ f ∈ (s.frames i).takeWhile fun f => !f.awaits univ, f.caught ≠ none))
  | (_, .enter _ _) | (_, .exit _ _) | (_, .leave) | (_, .write _ _) => inferInstanceAs (Decidable True)

end MulleObjcRuntime.Exceptions
