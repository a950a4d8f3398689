import MulleObjcRuntime.Load.Waiters

/-!
# The order of the `+load` calls

* `LoadItem.key` — what two installed items never share, and `nodup_keys`;
* `Settled env s` — the invariant between two loadinfos, when the call queue has been worked off;
* `loadAll_spec` — a run of loadinfos keeps it and loses no item;
* `load_called_in_order` — each `+load` is called once, after those of everything its item waited for;
* `mixin_load_called_early` — what a mixin names in `+dependencies` is not waited for.
-/

namespace MulleObjcRuntime.Load

open Classes Lib Lib.Fallible Lib.Closure

/-! ## Every item once -/

/-- The class id, with the category id of a category. -/
def LoadItem.key : LoadItem → ℕ × Option ℕ
  | .loadclass info => (info.base.classid, none)
  | .loadmixin info => (info.base.classid, none)
  | .loadcategory info => (info.classid, some info.categoryid)

section Keys

variable {env : Environment} {log : List LoadItem} {item x : LoadItem}

lemma key_eq_none {c : ℕ} : item.key = (c, none) ↔ ∃ r, item.summary = some r ∧ r.1 = c := by
  cases item <;> simp [LoadItem.key, LoadItem.summary]

lemma key_eq_some {c k : ℕ} :
    item.key = (c, some k) ↔ ∃ info, item = .loadcategory info ∧ info.classid = c ∧ info.categoryid = k := by
  cases item <;> simp [LoadItem.key]

lemma Admitted.key_notMem (h : Admitted env log item) : item.key ∉ log.map LoadItem.key := by
  obtain ⟨-, u, hu, -, hinstallable⟩ := h
  intro hkey
  obtain ⟨x, hx, hxkey⟩ := List.mem_map.1 hkey
  have hclass : ∀ c, item.key = (c, none) → u.lookup c ≠ none := by
    intro c hc
    rw [hc, key_eq_none] at hxkey
    obtain ⟨r, hr, rfl⟩ := hxkey
    exact ((hu.classes r).2 ⟨x, hx, hr⟩).lookup_ne
  cases item with
  | loadclass info => exact hclass _ rfl hinstallable.2.2.2
  | loadmixin info => exact hclass _ rfl hinstallable.2
  | loadcategory info =>
    obtain ⟨info', rfl, hc, hk⟩ := key_eq_some.1 hxkey
    exact hinstallable.2.1 ((hu.categories _ _).2 ⟨info', hx, hc, hk⟩)

/-- **Installed items differ** in their class or category ids. -/
lemma nodup_keys (h : Grounded (Admitted env) log) : (log.map LoadItem.key).Nodup := by
  induction log using List.reverseRecOn with
  | nil => exact List.nodup_nil
  | append_singleton log x ih =>
    have hlog : Grounded (Admitted env) log := fun pre y post hy => h pre y (post ++ [x]) (by rw [hy]; simp)
    have hx : Admitted env log x := h log x [] rfl
    rw [List.map_append, List.nodup_append]
    refine ⟨ih hlog, List.nodup_singleton _, ?_⟩
    rintro _ ha _ hb rfl
    rw [List.map_singleton, List.mem_singleton] at hb
    exact hx.key_notMem (hb ▸ ha)

end Keys

/-! ## Runs of loadinfos -/

/-- The invariant between two loadinfos. -/
structure Settled (env : Environment) (s : State) : Prop where
  inv : CascadeInv env nobody s
  loads : s.loads = []

section Runs

variable {env : Environment} {s s' : State} {info : LoadInfo} {infos : List LoadInfo} {stop : Stop}

/-- All items of some loadinfos. -/
def allItems (infos : List LoadInfo) : List LoadItem := infos.flatMap LoadInfo.items

lemma settled_initial (env : Environment) (classdefaults : ℕ) : Settled env (State.initial classdefaults) :=
  ⟨inv_initial env classdefaults, rfl⟩

lemma Settled.reset (h : Settled env s) : CascadeInv env nobody { s with loads := [] } := by
  have : { s with loads := [] } = s := by rw [← h.loads]
  rw [this]
  exact h.inv

lemma loadinfoEnqueue_spec (h : Settled env s) (hs' : loadinfoEnqueue env info s = .ok s') :
    Settled env s' ∧ s'.everything = info.items + s.everything := by
  obtain ⟨t, ht, hs'⟩ := bind_eq_ok.1 hs'
  cases hs'
  obtain ⟨hinv, hgrown⟩ := enqueueAll_spec h.reset ht
  refine ⟨⟨⟨hinv.described, hinv.admitted, ?_, ?_, ?_⟩, rfl⟩, hgrown.everything⟩
  · intro item k hk
    exact hinv.stuck item k (by cases item <;> exact hk)
  · intro item k hk
    exact hinv.sane item k (by cases item <;> exact hk)
  · show t.executed ++ t.loads ++ [] = _
    rw [List.append_nil]
    exact hinv.calls

/-- **A run of loadinfos** settles and loses no item. -/
theorem loadAll_spec (h : Settled env s) (hs' : loadAll env infos s = .ok s') :
    Settled env s' ∧ s'.everything = allItems infos + s.everything := by
  refine foldlM_invariant (P := fun l t => Settled env t ∧ t.everything = allItems l + s.everything) hs'
    ⟨h, by simp [allItems]⟩ ?_
  rintro pre info t t' - ⟨ht, hevery⟩ hinfo
  obtain ⟨ht', hevery'⟩ := loadinfoEnqueue_spec ht hinfo
  refine ⟨ht', ?_⟩
  rw [hevery', hevery]
  unfold allItems
  rw [List.flatMap_append, ← Multiset.coe_add]
  simp only [List.flatMap_cons, List.flatMap_nil, List.append_nil]
  abel

end Runs

/-! ## The calls -/

/-- **Each `+load` is called once, in the order of installation**: the calls made are those of the installed items,
each of which is installed once, after the superclass, the mixins and everything its `+dependencies` name, and after
its class if it is a category.  Nothing is waited for by a mixin. -/
theorem load_called_in_order (env : Environment) (classdefaults : ℕ) (infos : List LoadInfo) (s : State)
    (h : loadAll env infos (State.initial classdefaults) = .ok s) :
    s.installed.Nodup ∧ s.loads = [] ∧ s.executed = s.installed.filterMap LoadItem.call ∧
      ∀ pre x post, s.installed = pre ++ x :: post →
        s.executed = pre.filterMap LoadItem.call ++ x.call.toList ++ post.filterMap LoadItem.call ∧
        ∀ d ∈ x.awaited env, Provided pre d := by
  obtain ⟨⟨hinv, hloads⟩, -⟩ := loadAll_spec (settled_initial env classdefaults) h
  have hcalls : s.executed = s.installed.filterMap LoadItem.call := by
    have := hinv.calls
    rwa [hloads, List.append_nil] at this
  refine ⟨(nodup_keys hinv.admitted).of_map, hloads, hcalls, fun pre x post hlog => ⟨?_, ?_⟩⟩
  · rw [hcalls, hlog, List.filterMap_append, List.filterMap_cons, List.append_assoc]
    cases hcall : x.call <;> rfl
  · exact (hinv.admitted pre x post hlog).ready

/-! ## A class and a mixin with `+dependencies` -/

/-- Class methods `+dependencies` and `+load`. -/
def dependentMethods : MethodList :=
  ⟨0, [⟨1, dependenciesMethodid, 0, 50⟩, ⟨2, loadMethodid, 0, 51⟩], by unfold BinarySearch.Sorted; decide⟩

/-- A class method `+load`. -/
def loadMethods : MethodList := .single 0 ⟨3, loadMethodid, 0, 52⟩

/-- The root class `B` with a `+load`. -/
def namedClass : LoadClass := ⟨⟨2, "B", some loadMethods, none⟩, 0, 0, "", 0, -1, []⟩

/-- A class that names `B` in `+dependencies`, and comes first. -/
def dependentClassInfos : List LoadInfo :=
  [⟨[⟨⟨1, "A", some dependentMethods, none⟩, 0, 0, "", 0, -1, []⟩], [], []⟩, ⟨[namedClass], [], []⟩]

/-- The class waits for `B`. -/
theorem load_called_in_order_sample :
    ∃ s, loadAll sampleEnvironment dependentClassInfos (State.initial 0) = .ok s ∧
      s.executed = [⟨2, loadMethodid, 52⟩, ⟨1, loadMethodid, 51⟩] ∧ s.installed.Nodup :=
  ⟨_, rfl, rfl, (load_called_in_order sampleEnvironment 0 dependentClassInfos _ rfl).1⟩

/-- A mixin that names `B` in `+dependencies`, and comes first. -/
def dependentMixinInfos : List LoadInfo :=
  [⟨[], [⟨⟨1, "A", some dependentMethods, none⟩⟩], []⟩, ⟨[namedClass], [], []⟩]

/-- The mixin does not wait for `B`: its `+load` is called before that of `B`. -/
theorem mixin_load_called_early :
    ∃ s, loadAll sampleEnvironment dependentMixinInfos (State.initial 0) = .ok s ∧
      s.executed = [⟨1, loadMethodid, 51⟩, ⟨2, loadMethodid, 52⟩] ∧
      ¬ ∀ pre x post, s.installed = pre ++ x :: post → ∀ d ∈ x.dependencies sampleEnvironment, Provided pre d := by
  refine ⟨_, rfl, rfl, fun h => ?_⟩
  obtain ⟨⟨x, hx, -⟩, -⟩ := h [] _ _ rfl ⟨2, 0⟩ (by decide)
  cases hx

end MulleObjcRuntime.Load
