import Mathlib.Tactic.Abel
import MulleObjcRuntime.Lib.Closure
import MulleObjcRuntime.Load.Install

/-!
# The cascade that an enqueued item sets off

* `enqueueTo_succ` — the three enqueue functions are one: check, install or wait, wake up;
* `Provided log d`, `Ready env log x`, `Admitted env log x` — what a log of installed items makes possible;
* `CascadeInv env exempt s` — the invariant of loading; items that are about to be woken up are exempt from being stuck;
* `Grown items s s'` — `items` have become part of the state, installed or waiting;
* `enqueueTo_spec`, `enqueueTo_error` — what an enqueued item does when it succeeds, and why it fails.
-/

namespace MulleObjcRuntime.Load

open Classes Lib Lib.Fallible Lib.Closure

/-! ## One enqueue function -/

section Enqueue

variable (env : Environment)

/-- The sanity check of an item. -/
def LoadItem.isSane : LoadItem → Bool
  | .loadclass info => loadclassbaseIsSane info.base
  | .loadmixin info => loadclassbaseIsSane info.base
  | .loadcategory info => loadcategoryIsSane info

/-- The `+load` call of an item. -/
def LoadItem.call (item : LoadItem) : Option Call := loadCall item.classid item.classmethods

/-- The item waits for the class of a dependency; a mixin never does. -/
def State.delay (s : State) (item : LoadItem) (dependency : Dependency) : State :=
  match item with
  | .loadclass info => loadclassDelayedadd env info dependency.classid s
  | .loadmixin _ => s
  | .loadcategory info => loadcategoryDelayedadd env info dependency.classid s

/-- What the enqueue functions have in common. -/
def enqueueStep (f : MapCallback) (item : LoadItem) (s : State) : Except Stop State := do
  failIf (item.isSane = false) (.failure .EINVAL)
  match ← orStop (item.fulfill env s.runtime) with
  | some dependency => return s.delay env item dependency
  | none =>
    let u ← orStop (item.install env s.runtime)
    retrigger env f item.classid (s.install u item item.call)

lemma enqueueTo_succ (fuel : ℕ) : enqueueTo env (fuel + 1) = enqueueStep env (enqueueTo env fuel) := by
  funext item s
  cases item <;> rfl

lemma orStop_eq_ok {α : Type} {x : Except Failure α} {a : α} : orStop x = .ok a ↔ x = .ok a := by
  unfold orStop Except.mapError
  cases x <;> simp

lemma enqueueStep_eq_ok {env : Environment} {f : MapCallback} {item : LoadItem} {s s' : State}
    (h : enqueueStep env f item s = .ok s') :
    item.isSane = true ∧
      ((∃ d, item.fulfill env s.runtime = .ok (some d) ∧ s' = s.delay env item d) ∨
        (item.fulfill env s.runtime = .ok none ∧ ∃ u, item.install env s.runtime = .ok u ∧
          retrigger env f item.classid (s.install u item item.call) = .ok s')) := by
  unfold enqueueStep at h
  simp only [bind_eq_ok, failIf_eq_ok, orStop_eq_ok] at h
  obtain ⟨-, hsane, dependency, hdep, h⟩ := h
  refine ⟨by simpa using hsane, ?_⟩
  rcases dependency with _ | d
  · obtain ⟨u, hu, h⟩ := bind_eq_ok.1 h
    exact Or.inr ⟨hdep, u, orStop_eq_ok.1 hu, h⟩
  · cases h
    exact Or.inl ⟨d, hdep, rfl⟩

end Enqueue

/-! ## What a log makes possible -/

/-- The installed items have brought the class of a dependency, and its category if one is named. -/
def Provided (log : List LoadItem) (d : Dependency) : Prop :=
  (∃ x ∈ log, ∃ r, x.summary = some r ∧ r.1 = d.classid) ∧
    (d.categoryid = 0 ∨ ∃ info, .loadcategory info ∈ log ∧ info.classid = d.classid ∧ info.categoryid = d.categoryid)

/-- Everything an item waits for is there. -/
def Ready (env : Environment) (log : List LoadItem) (item : LoadItem) : Prop :=
  ∀ d ∈ item.awaited env, Provided log d

/-- An item could be installed on top of the log. -/
def Admitted (env : Environment) (log : List LoadItem) (item : LoadItem) : Prop :=
  item.isSane = true ∧ ∃ u, Describes u log ∧ item.fulfill env u = .ok none ∧ Installable env u item

section Logs

variable {env : Environment} {u : Universe} {log log' : List LoadItem} {item : LoadItem} {d : Dependency}

lemma Describes.isMet (h : Describes u log) : isMet u d = true ↔ Provided log d := by
  rw [isMet_iff, lookup_ne_none, h.categories]
  unfold Provided
  refine and_congr_left fun _ => ?_
  constructor
  · rintro ⟨r, hr, hc⟩
    obtain ⟨x, hx, hs⟩ := (h.classes r).1 hr
    exact ⟨x, hx, r, hs, hc⟩
  · rintro ⟨x, hx, r, hs, hc⟩
    exact ⟨r, (h.classes r).2 ⟨x, hx, hs⟩, hc⟩

lemma Provided.mono (h : Provided log d) (hlog : log ⊆ log') : Provided log' d := by
  obtain ⟨⟨x, hx, r, hs, hc⟩, hcat⟩ := h
  refine ⟨⟨x, hlog hx, r, hs, hc⟩, hcat.imp_right ?_⟩
  rintro ⟨info, hinfo, h⟩
  exact ⟨info, hlog hinfo, h⟩

lemma ready_monotone (env : Environment) : Closure.Monotone (Ready env) :=
  fun _ _ _ hlog h d hd => (h d hd).mono hlog

lemma Admitted.ready (h : Admitted env log item) : Ready env log item := by
  obtain ⟨-, u, hu, hfulfill, -⟩ := h
  intro d hd
  exact hu.isMet.1 ((checks_fulfill env item).met u hfulfill d hd)

lemma summary_classid {r : ℕ × String × ℕ × Bool} (h : item.summary = some r) : r.1 = item.classid := by
  cases item <;> cases h <;> rfl

lemma provided_concat (hd : d.classid ≠ item.classid) : Provided (log ++ [item]) d ↔ Provided log d := by
  constructor
  · rintro ⟨⟨x, hx, r, hs, hc⟩, hcat⟩
    refine ⟨⟨x, ?_, r, hs, hc⟩, hcat.imp_right ?_⟩
    · rcases List.mem_append.1 hx with hx | hx
      · exact hx
      · rw [List.mem_singleton.1 hx] at hs
        exact absurd (hc.symm.trans (summary_classid hs)) hd
    · rintro ⟨info, hinfo, hc, hk⟩
      refine ⟨info, ?_, hc, hk⟩
      rcases List.mem_append.1 hinfo with hinfo | hinfo
      · exact hinfo
      · rw [← List.mem_singleton.1 hinfo] at hd
        exact absurd hc.symm hd
  · exact fun h => h.mono (List.subset_append_left _ _)

end Logs

/-! ## The invariant -/

/-- An item waits under a key. -/
def State.WaitsAt (s : State) (k : ℕ) : LoadItem → Prop
  | .loadclass info => info ∈ s.classestoload.waiting k
  | .loadmixin _ => False
  | .loadcategory info => info ∈ s.categoriestoload.waiting k

/-- All items that have been enqueued. -/
def State.everything (s : State) : Multiset LoadItem := (s.installed : Multiset LoadItem) + s.waiting

/-- The invariant of loading.  Every waiting item, apart from the `exempt` ones, waits under the key of the first of
its dependencies that is not met. -/
structure CascadeInv (env : Environment) (exempt : LoadItem → ℕ → Prop) (s : State) : Prop where
  described : Describes s.runtime s.installed
  admitted : Grounded (Admitted env) s.installed
  stuck : ∀ item k, s.WaitsAt k item → ¬ exempt item k →
    ∃ d, item.fulfill env s.runtime = .ok (some d) ∧ waitqueueHash env d.classid = k
  sane : ∀ item k, s.WaitsAt k item → item.isSane = true
  calls : s.executed ++ s.loads = s.installed.filterMap LoadItem.call

/-- `items` have become part of the state. -/
structure Grown (items : Multiset LoadItem) (s s' : State) : Prop where
  everything : s'.everything = items + s.everything
  installed : s.installed <+: s'.installed
  executed : s'.executed = s.executed

section CascadeInv

variable {env : Environment} {exempt : LoadItem → ℕ → Prop} {s s' t : State} {item : LoadItem}
  {items items' : Multiset LoadItem} {k : ℕ}

lemma mem_waiting : item ∈ s.waiting ↔ ∃ k, s.WaitsAt k item := by
  unfold State.waiting State.WaitsAt
  cases item with
  | loadclass info => simp [KeyedQueue.mem_infos_iff]
  | loadmixin info => simp
  | loadcategory info => simp [KeyedQueue.mem_infos_iff]

lemma Grown.refl : Grown 0 s s := ⟨by simp, List.prefix_refl _, rfl⟩

lemma Grown.trans (h : Grown items s t) (h' : Grown items' t s') : Grown (items + items') s s' := by
  refine ⟨?_, h.installed.trans h'.installed, h'.executed.trans h.executed⟩
  rw [h'.everything, h.everything]
  abel

/-- An item that waits for a dependency. -/
lemma CascadeInv.delay (h : CascadeInv env exempt s) (hsane : item.isSane = true) {d : Dependency}
    (hd : item.fulfill env s.runtime = .ok (some d)) :
    CascadeInv env exempt (s.delay env item d) ∧ Grown {item} s (s.delay env item d) := by
  have hstuck : ∀ item' k, (s.delay env item d).WaitsAt k item' →
      s.WaitsAt k item' ∨ (item' = item ∧ k = waitqueueHash env d.classid) := by
    intro item' k hk
    cases item with
    | loadclass info =>
      cases item' with
      | loadclass info' =>
        rcases KeyedQueue.mem_waiting_add.1 hk with hk | ⟨rfl, rfl⟩
        · exact Or.inl hk
        · exact Or.inr ⟨rfl, rfl⟩
      | loadmixin _ => exact Or.inl hk
      | loadcategory _ => exact Or.inl hk
    | loadmixin info => cases hd
    | loadcategory info =>
      cases item' with
      | loadclass _ => exact Or.inl hk
      | loadmixin _ => exact Or.inl hk
      | loadcategory info' =>
        rcases KeyedQueue.mem_waiting_add.1 hk with hk | ⟨rfl, rfl⟩
        · exact Or.inl hk
        · exact Or.inr ⟨rfl, rfl⟩
  have hruntime : (s.delay env item d).runtime = s.runtime := by cases item <;> rfl
  have hinstalled : (s.delay env item d).installed = s.installed := by cases item <;> rfl
  have hexecuted : (s.delay env item d).executed = s.executed := by cases item <;> rfl
  have hloads : (s.delay env item d).loads = s.loads := by cases item <;> rfl
  constructor
  · constructor
    · rw [hruntime, hinstalled]
      exact h.described
    · rw [hinstalled]
      exact h.admitted
    · intro item' k hk hex
      rw [hruntime]
      rcases hstuck item' k hk with hk | ⟨rfl, rfl⟩
      · exact h.stuck item' k hk hex
      · exact ⟨d, hd, rfl⟩
    · intro item' k hk
      rcases hstuck item' k hk with hk | ⟨rfl, -⟩
      · exact h.sane item' k hk
      · exact hsane
    · rw [hinstalled, hexecuted, hloads]
      exact h.calls
  · refine ⟨?_, ⟨[], by rw [hinstalled, List.append_nil]⟩, hexecuted⟩
    unfold State.everything
    rw [hinstalled]
    have hwaiting : (s.delay env item d).waiting = item ::ₘ s.waiting := by
      cases item with
      | loadclass info =>
        simp [State.delay, loadclassDelayedadd, State.waiting, KeyedQueue.infos_add]
      | loadmixin info => cases hd
      | loadcategory info =>
        simp [State.delay, loadcategoryDelayedadd, State.waiting, KeyedQueue.infos_add]
    rw [hwaiting, ← Multiset.singleton_add]
    abel

/-- An item that is installed may meet the dependencies of those who wait under its key. -/
lemma CascadeInv.install (h : CascadeInv env exempt s) {u : Universe} (hsane : item.isSane = true)
    (hfulfill : item.fulfill env s.runtime = .ok none) (hu : item.install env s.runtime = .ok u) :
    CascadeInv env (fun item' k => exempt item' k ∨ k = waitqueueHash env item.classid) (s.install u item item.call) ∧
      Grown {item} s (s.install u item item.call) := by
  have hdescribed := h.described.install hu
  constructor
  · constructor
    · exact hdescribed
    · exact h.admitted.concat ⟨hsane, _, h.described, hfulfill, (install_ok_iff item).1 ⟨u, hu⟩⟩
    · intro item' k hk hex
      rw [not_or] at hex
      obtain ⟨d, hd, hkey⟩ := h.stuck item' k (by cases item' <;> exact hk) hex.1
      refine ⟨d, ?_, hkey⟩
      -- the dependency is on another class, and therefore still not met
      have hne : d.classid ≠ item.classid := by
        rintro heq
        rw [heq] at hkey
        exact hex.2 hkey.symm
      have hchecks := checks_fulfill env item'
      refine hchecks.waits _ u d (h.described.extends hdescribed (List.subset_append_left _ _)) hd ?_
      have hunmet := (hchecks.unmet _ d hd).2
      rw [← Bool.not_eq_true, h.described.isMet] at hunmet
      rw [← Bool.not_eq_true, hdescribed.isMet, provided_concat hne]
      exact hunmet
    · intro item' k hk
      exact h.sane item' k (by cases item' <;> exact hk)
    · show s.executed ++ (s.loads ++ item.call.toList) = (s.installed ++ [item]).filterMap LoadItem.call
      rw [← List.append_assoc, h.calls, List.filterMap_append]
      cases hcall : item.call <;> simp [hcall]
  · refine ⟨?_, List.prefix_append _ _, rfl⟩
    show ((s.installed ++ [item] : List LoadItem) : Multiset LoadItem) + s.waiting = {item} + s.everything
    rw [← Multiset.coe_add, State.everything, Multiset.coe_singleton]
    abel

/-! ## Waking up -/

/-- What is known of a callback that enqueues an item again. -/
def Enqueues (env : Environment) (f : MapCallback) : Prop :=
  ∀ exempt item s s', CascadeInv env exempt s → f item s = .ok s' → CascadeInv env exempt s' ∧ Grown {item} s s'

lemma Enqueues.mapF {f : MapCallback} (hf : Enqueues env f) {l : List LoadItem} (h : CascadeInv env exempt s)
    (hs' : mapF f l s = .ok s') : CascadeInv env exempt s' ∧ Grown l s s' := by
  refine foldlM_invariant (P := fun l t => CascadeInv env exempt t ∧ Grown l s t) hs' ⟨h, Grown.refl⟩ ?_
  rintro pre item t t' - ⟨ht, hgrown⟩ hitem
  obtain ⟨ht', hgrown'⟩ := hf exempt item t t' ht hitem
  refine ⟨ht', ?_⟩
  have := hgrown.trans hgrown'
  rwa [← Multiset.coe_singleton, Multiset.coe_add] at this

/-- Those who wait for the class under a key are taken out of the two wait queues. -/
lemma CascadeInv.takeCategories (h : CascadeInv env (fun item' k' => exempt item' k' ∨ k' = k) s) :
    CascadeInv env (fun item' k' => exempt item' k' ∨ (∃ info, item' = .loadclass info) ∧ k' = k)
        { s with categoriestoload := s.categoriestoload.remove k } ∧
      s.everything = ((s.categoriestoload.waiting k).map LoadItem.loadcategory : List LoadItem) +
        State.everything { s with categoriestoload := s.categoriestoload.remove k } := by
  refine ⟨⟨h.described, h.admitted, ?_, ?_, h.calls⟩, ?_⟩
  · intro item' k' hk' hex
    cases item' with
    | loadclass info => exact h.stuck _ _ hk' (by simpa using hex)
    | loadmixin info => cases hk'
    | loadcategory info =>
      obtain ⟨hk', hne⟩ := KeyedQueue.mem_waiting_remove.1 hk'
      exact h.stuck _ _ hk' (by simp_all)
  · intro item' k' hk'
    cases item' with
    | loadclass info => exact h.sane _ _ hk'
    | loadmixin info => cases hk'
    | loadcategory info => exact h.sane _ k' (KeyedQueue.mem_waiting_remove.1 hk').1
  · unfold State.everything State.waiting
    simp only
    rw [← KeyedQueue.infos_remove s.categoriestoload k, Multiset.map_add, Multiset.map_coe]
    abel

lemma CascadeInv.takeClasses
    (h : CascadeInv env (fun item' k' => exempt item' k' ∨ (∃ info, item' = .loadclass info) ∧ k' = k) s) :
    CascadeInv env exempt { s with classestoload := s.classestoload.remove k } ∧
      s.everything = ((s.classestoload.waiting k).map LoadItem.loadclass : List LoadItem) +
        State.everything { s with classestoload := s.classestoload.remove k } := by
  refine ⟨⟨h.described, h.admitted, ?_, ?_, h.calls⟩, ?_⟩
  · intro item' k' hk' hex
    cases item' with
    | loadclass info =>
      obtain ⟨hk', hne⟩ := KeyedQueue.mem_waiting_remove.1 hk'
      exact h.stuck _ _ hk' (by simp_all)
    | loadmixin info => cases hk'
    | loadcategory info => exact h.stuck _ _ hk' (by simpa using hex)
  · intro item' k' hk'
    cases item' with
    | loadclass info => exact h.sane _ k' (KeyedQueue.mem_waiting_remove.1 hk').1
    | loadmixin info => cases hk'
    | loadcategory info => exact h.sane _ _ hk'
  · unfold State.everything State.waiting
    simp only
    rw [← KeyedQueue.infos_remove s.classestoload k, Multiset.map_add, Multiset.map_coe]
    abel

/-- **Waking up** those who wait under the key of a class leaves nobody stranded. -/
lemma Enqueues.retrigger {f : MapCallback} (hf : Enqueues env f) {classid : ℕ}
    (h : CascadeInv env (fun item' k' => exempt item' k' ∨ k' = waitqueueHash env classid) s)
    (hs' : retrigger env f classid s = .ok s') : CascadeInv env exempt s' ∧ Grown 0 s s' := by
  obtain ⟨t, ht, hs'⟩ := bind_eq_ok.1 hs'
  obtain ⟨h₁, hevery₁⟩ := h.takeCategories
  obtain ⟨ht, hgrown₁⟩ := hf.mapF h₁ ht
  obtain ⟨h₂, hevery₂⟩ := ht.takeClasses
  obtain ⟨hs', hgrown₂⟩ := hf.mapF h₂ hs'
  refine ⟨hs', ?_, hgrown₁.installed.trans hgrown₂.installed, hgrown₂.executed.trans hgrown₁.executed⟩
  rw [zero_add, hevery₁, ← hgrown₁.everything, hevery₂, hgrown₂.everything]

/-- **The cascade keeps the invariant** and loses no item. -/
theorem enqueueTo_spec (env : Environment) (fuel : ℕ) : Enqueues env (enqueueTo env fuel) := by
  induction fuel with
  | zero => nofun
  | succ fuel ih =>
    intro exempt item s s' h hs'
    rw [enqueueTo_succ] at hs'
    obtain ⟨hsane, hwait | hinstall⟩ := enqueueStep_eq_ok hs'
    · obtain ⟨d, hd, rfl⟩ := hwait
      exact h.delay hsane hd
    · obtain ⟨hfulfill, u, hu, hs'⟩ := hinstall
      obtain ⟨h₁, hgrown₁⟩ := h.install hsane hfulfill hu
      obtain ⟨h₂, hgrown₂⟩ := ih.retrigger h₁ hs'
      have := hgrown₁.trans hgrown₂
      rw [add_zero] at this
      exact ⟨h₂, this⟩

end CascadeInv

/-! ## Failures -/

/-- Why an item cannot be enqueued. -/
def Fails (env : Environment) (u : Universe) (item : LoadItem) : Prop :=
  item.isSane = false ∨ (∃ e, item.fulfill env u = .error e) ∨
    (item.fulfill env u = .ok none ∧ ¬ Installable env u item)

/-- The process has ended because one of `items` failed, in a state made of others. -/
def Failed (env : Environment) (items : Multiset LoadItem) (stop : Stop) : Prop :=
  ∃ e t item exempt, stop = .failure e ∧ item ::ₘ t.everything ≤ items ∧ CascadeInv env exempt t ∧
    Fails env t.runtime item

/-- What is known of a callback that fails, with fuel for `bound` waiting items. -/
def FailsFor (env : Environment) (f : MapCallback) (bound : ℕ) : Prop :=
  ∀ exempt item s stop, CascadeInv env exempt s → Multiset.card s.waiting < bound → f item s = .error stop →
    Failed env (item ::ₘ s.everything) stop

section Failures

variable {env : Environment} {exempt : LoadItem → ℕ → Prop} {s s' t : State} {stop : Stop}
  {items items' : Multiset LoadItem} {bound : ℕ} {f : MapCallback}

lemma Failed.mono (h : Failed env items stop) (hle : items ≤ items') : Failed env items' stop := by
  obtain ⟨e, t, item, exempt, rfl, hitem, ht, hfails⟩ := h
  exact ⟨e, t, item, exempt, rfl, hitem.trans hle, ht, hfails⟩

lemma Grown.card_waiting (h : Grown items s s') :
    Multiset.card s'.waiting ≤ Multiset.card items + Multiset.card s.waiting := by
  have hcard := congrArg Multiset.card h.everything
  have hlen := h.installed.length_le
  simp only [State.everything, Multiset.card_add, Multiset.coe_card] at hcard
  omega

lemma cons_prefix_le (pre post : List LoadItem) (item : LoadItem) (rest : Multiset LoadItem) :
    item ::ₘ ((pre : Multiset LoadItem) + rest) ≤ ((pre ++ item :: post : List LoadItem) : Multiset LoadItem) + rest := by
  rw [← Multiset.coe_add, ← Multiset.cons_coe, ← Multiset.singleton_add, ← Multiset.singleton_add item]
  calc {item} + ((pre : Multiset LoadItem) + rest)
      ≤ {item} + ((pre : Multiset LoadItem) + rest) + post := Multiset.le_add_right _ _
    _ = pre + ({item} + (post : Multiset LoadItem)) + rest := by abel

lemma FailsFor.mapF (hok : Enqueues env f) (hf : FailsFor env f bound) {l : List LoadItem} (h : CascadeInv env exempt s)
    (hbound : l.length + Multiset.card s.waiting ≤ bound) (hs' : mapF f l s = .error stop) :
    Failed env (l + s.everything) stop := by
  obtain ⟨pre, item, post, t, rfl, ht, hitem⟩ := foldlM_eq_error hs'
  obtain ⟨ht, hgrown⟩ := hok.mapF h ht
  have hcard := hgrown.card_waiting
  rw [Multiset.coe_card] at hcard
  rw [List.length_append, List.length_cons] at hbound
  refine (hf exempt item t stop ht (by omega) hitem).mono ?_
  rw [hgrown.everything]
  exact cons_prefix_le pre post item _

lemma FailsFor.retrigger (hok : Enqueues env f) (hf : FailsFor env f bound) {classid : ℕ}
    (h : CascadeInv env (fun item' k' => exempt item' k' ∨ k' = waitqueueHash env classid) s)
    (hbound : Multiset.card s.waiting ≤ bound) (hs' : retrigger env f classid s = .error stop) :
    Failed env s.everything stop := by
  have hlist : ∀ {l : List LoadItem} {t t' : State}, t.everything = (l : Multiset LoadItem) + t'.everything →
      t'.installed = t.installed → l.length + Multiset.card t'.waiting = Multiset.card t.waiting := by
    intro l t t' hevery hinstalled
    have := congrArg Multiset.card hevery
    simp only [State.everything, hinstalled, Multiset.card_add, Multiset.coe_card] at this
    omega
  obtain ⟨h₁, hevery₁⟩ := h.takeCategories
  have hcard₁ := hlist hevery₁ rfl
  unfold Load.retrigger at hs'
  simp only at hs'
  rcases ht : Load.mapF f ((s.categoriestoload.waiting (waitqueueHash env classid)).map .loadcategory)
      { s with categoriestoload := s.categoriestoload.remove (waitqueueHash env classid) } with stop' | t
  · rw [ht] at hs'
    cases hs'
    rw [hevery₁]
    exact hf.mapF hok h₁ (by omega) ht
  · rw [ht] at hs'
    obtain ⟨ht, hgrown⟩ := hok.mapF h₁ ht
    obtain ⟨h₂, hevery₂⟩ := ht.takeClasses
    have hcard₂ := hlist hevery₂ rfl
    have hcard := hgrown.card_waiting
    rw [Multiset.coe_card] at hcard
    rw [hevery₁, ← hgrown.everything, hevery₂]
    exact hf.mapF hok h₂ (by omega) hs'

/-- **Why the cascade fails**: with fuel for all who wait, one of the items cannot be enqueued. -/
theorem enqueueTo_error (env : Environment) (fuel : ℕ) : FailsFor env (enqueueTo env fuel) fuel := by
  induction fuel with
  | zero =>
    intro exempt item s stop h hcard hs'
    omega
  | succ fuel ih =>
    intro exempt item s stop h hcard hs'
    rw [enqueueTo_succ] at hs'
    have hfailed : ∀ e, stop = .failure e → Fails env s.runtime item → Failed env (item ::ₘ s.everything) stop :=
      fun e he hfails => ⟨e, s, item, exempt, he, le_refl _, h, hfails⟩
    unfold enqueueStep at hs'
    by_cases hsane : item.isSane = false
    · rw [show failIf (item.isSane = false) (Stop.failure Failure.EINVAL) = .error (.failure .EINVAL) from
        if_pos hsane] at hs'
      cases hs'
      exact hfailed _ rfl (Or.inl hsane)
    rw [show failIf (item.isSane = false) (Stop.failure Failure.EINVAL) = .ok () from if_neg hsane] at hs'
    rcases hfulfill : item.fulfill env s.runtime with e | _ | d
    · rw [hfulfill] at hs'
      cases hs'
      exact hfailed _ rfl (Or.inr (Or.inl ⟨e, hfulfill⟩))
    · rw [hfulfill] at hs'
      rcases hu : item.install env s.runtime with e | u
      · have hs' : (orStop (item.install env s.runtime) >>= fun u =>
            Load.retrigger env (enqueueTo env fuel) item.classid (s.install u item item.call)) = .error stop := hs'
        rw [hu] at hs'
        cases hs'
        refine hfailed _ rfl (Or.inr (Or.inr ⟨hfulfill, fun hi => ?_⟩))
        obtain ⟨u, hu'⟩ := (install_ok_iff item).2 hi
        rw [hu] at hu'
        cases hu'
      · have hs' : (orStop (item.install env s.runtime) >>= fun u =>
            Load.retrigger env (enqueueTo env fuel) item.classid (s.install u item item.call)) = .error stop := hs'
        rw [hu] at hs'
        obtain ⟨h₁, hgrown⟩ := h.install (by simpa using hsane) hfulfill hu
        have hcard' : Multiset.card (s.install u item item.call).waiting = Multiset.card s.waiting := rfl
        have := ih.retrigger (enqueueTo_spec env fuel) h₁ (by omega) hs'
        rwa [hgrown.everything, Multiset.singleton_add] at this
    · rw [hfulfill] at hs'
      cases hs'

end Failures

/-! ## Runs -/

section Runs

variable {env : Environment} {s s' : State} {stop : Stop} {items : List LoadItem}

/-- Nobody is exempt between two enqueued items. -/
abbrev nobody : LoadItem → ℕ → Prop := fun _ _ => False

lemma inv_initial (env : Environment) (classdefaults : ℕ) : CascadeInv env nobody (State.initial classdefaults) := by
  refine ⟨describes_initial _, Grounded.nil, ?_, ?_, rfl⟩
  · intro item k hk
    cases item <;> simp [State.WaitsAt, State.initial, KeyedQueue.mem_waiting, KeyedQueue.empty] at hk
  · intro item k hk
    cases item <;> simp [State.WaitsAt, State.initial, KeyedQueue.mem_waiting, KeyedQueue.empty] at hk

lemma everything_initial (classdefaults : ℕ) : (State.initial classdefaults).everything = 0 := rfl

lemma enqueue_spec (env : Environment) : Enqueues env (enqueue env) :=
  fun exempt item s s' => enqueueTo_spec env _ exempt item s s'

lemma enqueue_error {item : LoadItem} (h : CascadeInv env nobody s) (hs' : enqueue env item s = .error stop) :
    Failed env (item ::ₘ s.everything) stop :=
  enqueueTo_error env _ nobody item s stop h (Nat.lt_succ_self _) hs'

/-- **A run of enqueued items** keeps the invariant and loses no item. -/
theorem enqueueAll_spec (h : CascadeInv env nobody s) (hs' : enqueueAll env items s = .ok s') :
    CascadeInv env nobody s' ∧ Grown items s s' :=
  (enqueue_spec env).mapF h hs'

theorem enqueueAll_error (h : CascadeInv env nobody s) (hs' : enqueueAll env items s = .error stop) :
    Failed env (items + s.everything) stop := by
  obtain ⟨pre, item, post, t, rfl, ht, hitem⟩ := foldlM_eq_error hs'
  obtain ⟨ht, hgrown⟩ := enqueueAll_spec h ht
  refine (enqueue_error ht hitem).mono ?_
  rw [hgrown.everything]
  exact cons_prefix_le pre post item _

end Runs

end MulleObjcRuntime.Load
