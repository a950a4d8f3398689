import Mathlib.Data.Int.Order.Basic
import MulleObjcRuntime.Lib.Runs

/-!
# Retain, release and finalize

The retain count of an object is one signed word of its header.  An object that goes down to zero is finalized and, if
`-finalize` has not retained it, deallocated.

* `Object` — the header word, the operations that wait for one of the object's methods, and what has happened so far;
* `incrementRetaincount`, `decrementRetaincountWaszero`, `tryfinalizetrydealloc`, `performFinalize` — as in the source;
* `Object.step` — the code that runs now, the program or the method called last, retains, releases, finalizes or returns.

A failed assertion ends the run.
-/

namespace MulleObjcRuntime.Retain

open Lib.Runs

def intptrMax : ℤ := 0x7fffffffffffffff
def intptrMin : ℤ := -0x8000000000000000

/-- The object's own `-retain` and `-release` do the counting. -/
def slowRelease : ℤ := intptrMax

/-- A constant object. -/
def neverRelease : ℤ := intptrMax - 1

/-- The last word that is counted on. -/
def inlineRelease : ℤ := intptrMax - 2

/-- The largest count that is kept in the header. -/
def inlineLimit : ℤ := inlineRelease + 1

/-- An operation of the runtime that waits for a method of the object to return. -/
inductive Frame
  | tryfinalize
  | trydealloc
  | performFinalize
  | retain
  | release
  deriving DecidableEq

/-- The wait is for `-finalize`. -/
def Frame.finalizes : Frame → Bool
  | .tryfinalize | .performFinalize => true
  | .trydealloc | .retain | .release => false

/-- A waiting operation, and whether `-dealloc` has returned since it was begun. -/
structure Activation where
  frame : Frame
  outlived : Bool
  deriving DecidableEq

/-- An object, and what has happened to it. -/
structure Object where
  /-- the word of the header -/
  retaincount_1 : ℤ
  /-- the count that the object's own `-retain`, `-release` and `-retainCount` keep, if they are asked -/
  elsewhere : ℤ
  /-- the operations that wait, the last one first -/
  stack : List Activation
  /-- the count at the start, with the retains and without the releases since -/
  owned : ℤ
  /-- the largest such count so far -/
  peak : ℤ
  /-- how often `-finalize` has been called -/
  finalizes : ℕ
  /-- how often `-dealloc` has been called -/
  deallocs : ℕ
  /-- how often `-dealloc` has been called while `-finalize` was running -/
  overlaps : ℕ
  /-- how often an operation that was waiting when `-dealloc` returned has read the header -/
  staleReads : ℕ
  deriving DecidableEq

/-- `-finalize` is running. -/
def Object.finalizing (o : Object) : Bool := o.stack.any fun a => a.frame.finalizes

/-! ## The methods of the object -/

/-- A method is called, and the operation waits for it. -/
def Object.call (o : Object) (frame : Frame) : Object := { o with stack := ⟨frame, false⟩ :: o.stack }

/-- `_mulle_objc_object_call_finalize` -/
def Object.callFinalize (o : Object) (frame : Frame) : Object :=
  { o.call frame with finalizes := o.finalizes + 1 }

/-- `_mulle_objc_object_call_dealloc` -/
def Object.callDealloc (o : Object) : Object :=
  { o.call .trydealloc with
    deallocs := o.deallocs + 1
    overlaps := if o.finalizing then o.overlaps + 1 else o.overlaps }

/-! ## The operations -/

/-- `__mulle_objc_object_get_retaincount` -/
def Object.getRetaincount (o : Object) : ℤ :=
  if o.retaincount_1 = neverRelease then neverRelease
  else if o.retaincount_1 = slowRelease then o.elsewhere
  else if o.retaincount_1 = -1 then 0
  else if o.retaincount_1 < 0 then o.retaincount_1 - intptrMin
  else o.retaincount_1 + 1

/-- `_mulle_objc_object_increment_retaincount` -/
def Object.incrementRetaincount (o : Object) : Object :=
  if o.retaincount_1 ≤ inlineRelease then { o with retaincount_1 := o.retaincount_1 + 1 }
  else if o.retaincount_1 = slowRelease then { o.call .retain with elsewhere := o.elsewhere + 1 }
  else o

/-- `_mulle_objc_object_decrement_retaincount_waszero`.  The decrement gives the word as it was. -/
def Object.decrementRetaincountWaszero (o : Object) : Option (Bool × Object) := do
  guard (o.retaincount_1 ≠ -1)
  guard (o.retaincount_1 ≠ intptrMin)
  if o.retaincount_1 ≤ inlineRelease then
    return (o.retaincount_1 ≤ 0, { o with retaincount_1 := o.retaincount_1 - 1 })
  else if o.retaincount_1 = slowRelease then
    return (false, { o.call .release with elsewhere := o.elsewhere - 1 })
  else
    return (false, o)

/-- `_mulle_objc_object_tryfinalizetrydealloc`, from where it has the word that decides about `-dealloc`. -/
def Object.trydealloc (o : Object) : Object :=
  if o.retaincount_1 = intptrMin then ({ o with retaincount_1 := -1 } : Object).callDealloc else o

/-- `_mulle_objc_object_tryfinalizetrydealloc`, up to the call of `-finalize` if there is one. -/
def Object.tryfinalizetrydealloc (o : Object) : Option Object := do
  guard (o.retaincount_1 ≠ neverRelease)
  if o.retaincount_1 = -1 then
    return ({ o with retaincount_1 := o.retaincount_1 + (intptrMin + 1) } : Object).callFinalize .tryfinalize
  else
    return o.trydealloc

/-- `_mulle_objc_object_perform_finalize` -/
def Object.performFinalize (o : Object) : Option Object := do
  guard (o.retaincount_1 ≠ neverRelease)
  if o.retaincount_1 < 0 then
    return o
  else
    return ({ o with retaincount_1 := o.retaincount_1 + intptrMin + 1 } : Object).callFinalize .performFinalize

/-- `_mulle_objc_object_retain_inline` -/
def Object.retainInline (o : Object) : Object := o.incrementRetaincount

/-- `_mulle_objc_object_release_inline` -/
def Object.releaseInline (o : Object) : Option Object := do
  let (waszero, o) ← o.decrementRetaincountWaszero
  if waszero then o.tryfinalizetrydealloc else return o

/-! ## The code that uses them -/

/-- What the code does next. -/
inductive Act
  | retain
  | release
  | performFinalize
  /-- the method called last returns -/
  | leave
  deriving DecidableEq

/-- The operation that has waited goes on.  `-dealloc` leaves the others without an object. -/
def Object.resume (o : Object) : Activation → Object
  | ⟨.tryfinalize, outlived⟩ =>
    ({ o with staleReads := if outlived then o.staleReads + 1 else o.staleReads } : Object).trydealloc
  | ⟨.trydealloc, _⟩ => { o with stack := o.stack.map fun a => { a with outlived := true } }
  | ⟨.performFinalize, _⟩ | ⟨.retain, _⟩ | ⟨.release, _⟩ => o

/-- One action. -/
def Object.step (o : Object) : Act → Option Object
  | .retain => some ({ o with owned := o.owned + 1, peak := max o.peak (o.owned + 1) } : Object).retainInline
  | .release => ({ o with owned := o.owned - 1 } : Object).releaseInline
  | .performFinalize => o.performFinalize
  | .leave =>
    match o.stack with
    | [] => none
    | a :: stack => some (({ o with stack } : Object).resume a)

/-- An object with a word in its header, before anything happens.  A negative word says that it is finalized. -/
def Object.fresh (word elsewhere : ℤ) : Object :=
  let o : Object := ⟨word, elsewhere, [], 0, 0, if word < 0 then 1 else 0, 0, 0, 0⟩
  { o with owned := o.getRetaincount, peak := o.getRetaincount }

/-- Every release gives up an ownership that is held. -/
def Object.Holds (o : Object) (a : Act) : Prop := a = .release → 0 < o.owned

instance (o : Object) : DecidablePred o.Holds := fun a => inferInstanceAs (Decidable (a = .release → 0 < o.owned))

/-! ## What an operation can do -/

section Cases

variable {o o' : Object}

lemma guard_bind_eq_some {α : Type} {p : Prop} [Decidable p] {x : Option α} {b : α} :
    (guard p >>= fun _ => x) = some b ↔ p ∧ x = some b := by
  have hguard : (guard p : Option Unit) = if p then some () else none := rfl
  rw [hguard]
  by_cases hp : p
  · simp [hp]
  · simp [hp]

lemma decrementRetaincountWaszero_cases {waszero : Bool} (h : o.decrementRetaincountWaszero = some (waszero, o')) :
    o.retaincount_1 ≠ -1 ∧ o.retaincount_1 ≠ intptrMin ∧
      ((o.retaincount_1 ≤ inlineRelease ∧ waszero = decide (o.retaincount_1 ≤ 0) ∧
          o' = { o with retaincount_1 := o.retaincount_1 - 1 }) ∨
        (o.retaincount_1 = slowRelease ∧ waszero = false ∧
          o' = { o.call .release with elsewhere := o.elsewhere - 1 }) ∨
        (inlineRelease < o.retaincount_1 ∧ o.retaincount_1 ≠ slowRelease ∧ waszero = false ∧ o' = o)) := by
  rw [Object.decrementRetaincountWaszero, guard_bind_eq_some, guard_bind_eq_some] at h
  obtain ⟨hdead, hmin, h⟩ := h
  refine ⟨hdead, hmin, ?_⟩
  split_ifs at h with hinline hslow
  · cases h
    exact Or.inl ⟨hinline, rfl, rfl⟩
  · cases h
    exact Or.inr (Or.inl ⟨hslow, rfl, rfl⟩)
  · cases h
    exact Or.inr (Or.inr ⟨by omega, hslow, rfl, rfl⟩)

lemma tryfinalizetrydealloc_cases (h : o.tryfinalizetrydealloc = some o') :
    (o.retaincount_1 = -1 ∧ o' = ({ o with retaincount_1 := intptrMin } : Object).callFinalize .tryfinalize) ∨
      (o.retaincount_1 ≠ -1 ∧ o' = o.trydealloc) := by
  rw [Object.tryfinalizetrydealloc, guard_bind_eq_some] at h
  obtain ⟨-, h⟩ := h
  split_ifs at h with hone
  · cases h
    refine Or.inl ⟨hone, ?_⟩
    rw [hone]
    rfl
  · cases h
    exact Or.inr ⟨hone, rfl⟩

/-- What a release can do. -/
lemma releaseInline_cases (h : o.releaseInline = some o') :
    o.retaincount_1 ≠ -1 ∧ o.retaincount_1 ≠ intptrMin ∧
      ((o.retaincount_1 = 0 ∧
          o' = ({ o with retaincount_1 := intptrMin } : Object).callFinalize .tryfinalize) ∨
        (o.retaincount_1 = intptrMin + 1 ∧ o' = ({ o with retaincount_1 := -1 } : Object).callDealloc) ∨
        (o.retaincount_1 ≠ 0 ∧ o.retaincount_1 ≠ intptrMin + 1 ∧ o.retaincount_1 ≤ inlineRelease ∧
          o' = { o with retaincount_1 := o.retaincount_1 - 1 }) ∨
        (o.retaincount_1 = slowRelease ∧ o' = { o.call .release with elsewhere := o.elsewhere - 1 }) ∨
        (inlineRelease < o.retaincount_1 ∧ o.retaincount_1 ≠ slowRelease ∧ o' = o)) := by
  rw [Object.releaseInline, Option.bind_eq_bind, Option.bind_eq_some_iff] at h
  obtain ⟨⟨waszero, t⟩, ht, h⟩ := h
  dsimp only at h
  obtain ⟨hdead, hmin, ⟨hinline, rfl, rfl⟩ | ⟨hslow, rfl, rfl⟩ | ⟨hconstant, hslow, rfl, rfl⟩⟩ :=
    decrementRetaincountWaszero_cases ht
  · refine ⟨hdead, hmin, ?_⟩
    by_cases hwaszero : o.retaincount_1 ≤ 0
    · rw [if_pos (by simpa using hwaszero)] at h
      obtain ⟨hone, rfl⟩ | ⟨hone, rfl⟩ := tryfinalizetrydealloc_cases h
      · exact Or.inl ⟨by simp only at hone; omega, rfl⟩
      · simp only at hone
        rw [Object.trydealloc]
        split_ifs with hlast
        · simp only at hlast
          exact Or.inr (Or.inl ⟨by omega, rfl⟩)
        · simp only at hlast
          exact Or.inr (Or.inr (Or.inl ⟨by omega, by omega, hinline, rfl⟩))
    · rw [if_neg (by simpa using hwaszero)] at h
      cases h
      exact Or.inr (Or.inr (Or.inl ⟨by omega, by unfold intptrMin; omega, hinline, rfl⟩))
  · cases h
    exact ⟨hdead, hmin, Or.inr (Or.inr (Or.inr (Or.inl ⟨hslow, rfl⟩)))⟩
  · cases h
    exact ⟨hdead, hmin, Or.inr (Or.inr (Or.inr (Or.inr ⟨hconstant, hslow, rfl⟩)))⟩

lemma performFinalize_cases (h : o.performFinalize = some o') :
    o.retaincount_1 ≠ neverRelease ∧
      ((o.retaincount_1 < 0 ∧ o' = o) ∨
        (0 ≤ o.retaincount_1 ∧
          o' = ({ o with retaincount_1 := o.retaincount_1 + intptrMin + 1 } : Object).callFinalize
            .performFinalize)) := by
  rw [Object.performFinalize, guard_bind_eq_some] at h
  obtain ⟨hconstant, h⟩ := h
  refine ⟨hconstant, ?_⟩
  split_ifs at h with hneg
  · cases h
    exact Or.inl ⟨hneg, rfl⟩
  · cases h
    exact Or.inr ⟨by omega, rfl⟩

end Cases

end MulleObjcRuntime.Retain
