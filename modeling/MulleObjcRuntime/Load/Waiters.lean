import MulleObjcRuntime.Load.Cascade

/-!
# No stranded waiter

* `CascadeInv.unmet` — a waiting item lacks a dependency and waits under the key of its class;
* `no_stranded_waiter` — so it is after any sequence of enqueued items, and whoever lacks nothing is installed;
* `sampleEnvironment`, `sampleItems` — a class that is enqueued before its superclass, and one that has none.
-/

namespace MulleObjcRuntime.Load

open Classes Lib

section Waiters

variable {env : Environment} {s : State} {item : LoadItem} {k : ℕ}

lemma awaited_of_waitsAt (h : s.WaitsAt k item) : item.awaited env = item.dependencies env := by
  cases item with
  | loadclass info => rfl
  | loadmixin info => cases h
  | loadcategory info => rfl

/-- **A waiting item lacks a dependency** and waits under the key of its class. -/
theorem CascadeInv.unmet (h : CascadeInv env nobody s) (hk : s.WaitsAt k item) :
    ∃ d ∈ item.dependencies env, isMet s.runtime d = false ∧ waitqueueHash env d.classid = k := by
  obtain ⟨d, hd, hkey⟩ := h.stuck item k hk id
  obtain ⟨hmem, hunmet⟩ := (checks_fulfill env item).unmet s.runtime d hd
  rw [awaited_of_waitsAt hk] at hmem
  exact ⟨d, hmem, hunmet, hkey⟩

lemma CascadeInv.not_waiting (h : CascadeInv env nobody s)
    (hmet : ∀ d ∈ item.dependencies env, isMet s.runtime d = true) :
    item ∉ s.waiting := by
  intro hwaiting
  obtain ⟨k, hk⟩ := mem_waiting.1 hwaiting
  obtain ⟨d, hd, hunmet, -⟩ := h.unmet hk
  rw [hmet d hd] at hunmet
  cases hunmet

end Waiters

/-- **No stranded waiter**: after any sequence of enqueued items, in any order, an item that still waits lacks a
dependency and is in the wait queue of the class of that dependency, and an item that lacks none is installed.  The
cascade of woken up items always ends. -/
theorem no_stranded_waiter (env : Environment) (classdefaults : ℕ) (items : List LoadItem) :
    enqueueAll env items (State.initial classdefaults) ≠ .error .outOfFuel ∧
      ∀ s, enqueueAll env items (State.initial classdefaults) = .ok s →
        (∀ item k, s.WaitsAt k item →
          ∃ d ∈ item.dependencies env, isMet s.runtime d = false ∧ waitqueueHash env d.classid = k) ∧
        (∀ item ∈ items, (∃ k, s.WaitsAt k item) ∨ item ∈ s.installed) ∧
        ∀ item ∈ items, (∀ d ∈ item.dependencies env, isMet s.runtime d = true) → item ∈ s.installed := by
  refine ⟨fun h => ?_, fun s h => ?_⟩
  · obtain ⟨e, t, item, exempt, hstop, -⟩ := enqueueAll_error (inv_initial env classdefaults) h
    cases hstop
  · obtain ⟨hinv, hgrown⟩ := enqueueAll_spec (inv_initial env classdefaults) h
    -- an enqueued item is installed or waits
    have hsplit : ∀ item ∈ items, item ∈ s.installed ∨ item ∈ s.waiting := by
      intro item hitem
      have : item ∈ s.everything := by
        rw [hgrown.everything, everything_initial, add_zero]
        exact hitem
      exact Multiset.mem_add.1 this
    refine ⟨fun item k => hinv.unmet, fun item hitem => ?_, fun item hitem hmet => ?_⟩
    · exact (hsplit item hitem).symm.imp_left mem_waiting.1
    · exact (hsplit item hitem).resolve_right (hinv.not_waiting hmet)

/-! ## A sample -/

/-- Three class names with their ids; `+dependencies` names the class `2`. -/
def sampleEnvironment : Environment where
  classidFromString name := if name = "A" then 1 else if name = "B" then 2 else 3
  dependencies _ := some [⟨2, 0⟩]
  ignoreIvarhashMismatch := false
  intptrMax := 2 ^ 63 - 1

/-- A class of the sample without methods. -/
def sampleClass (classid : ℕ) (classname : String) (superclassid : ℕ) (superclassname : String) : LoadItem :=
  .loadclass ⟨⟨classid, classname, none, none⟩, 0, superclassid, superclassname, 0, -1, []⟩

/-- The class `B` below `A`, which comes later, and a class below one that never comes. -/
def sampleItems : List LoadItem := [sampleClass 2 "B" 1 "A", sampleClass 3 "C" 9 "D", sampleClass 1 "A" 0 ""]

/-- In the sample `A` and `B` get installed and the third class waits for its superclass. -/
theorem no_stranded_waiter_sample :
    ∃ s, enqueueAll sampleEnvironment sampleItems (State.initial 0) = .ok s ∧
      s.installed = [sampleClass 1 "A" 0 "", sampleClass 2 "B" 1 "A"] ∧
      ∃ d ∈ (sampleClass 3 "C" 9 "D").dependencies sampleEnvironment,
        isMet s.runtime d = false ∧ waitqueueHash sampleEnvironment d.classid = 9 :=
  ⟨_, rfl, rfl, ((no_stranded_waiter sampleEnvironment 0 sampleItems).2 _ rfl).1 (sampleClass 3 "C" 9 "D") 9
    (List.mem_singleton_self _)⟩

end MulleObjcRuntime.Load
