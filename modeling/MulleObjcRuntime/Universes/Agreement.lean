import MulleObjcRuntime.Universes.Table

/-!
# Threads that ask for universes agree

* `Moves` — all that a thread can do, case by case;
* `GetUse.place` — where a thread is in the setup of the table, by the rules of `Lib.OnceGuard`;
* `Setup` — the table is there when it is used;
* `Ledger` — every universe is in the table or in the hands of a thread;
* `universes_agree_iff` — in every interleaving the table is set up once, whoever asks for the same universe gets the
  same one, and none goes astray unless a call fails, if and only if no compare and swap fails without a reason.
-/

namespace MulleObjcRuntime.Universes

open Bang Lib.Interleaving Lib.OnceGuard

variable {ι : Type} {platform : Platform} {t t' : Universetable} {u u' : GetUse}

/-! ## What a thread can do -/

/-- All that a thread can do. -/
inductive Moves (platform : Platform) : Universetable → GetUse → Universetable → GetUse → Prop
  | begins (t : Universetable) (call : GetCall) : Moves platform t .idle t (.getUniverse call)
  | versions {t : Universetable} {universeid univ : ℕ} (version : Version) (h : (universeid, univ) ∈ t.returned) :
    Moves platform t .idle { t with version := Function.update t.version univ version } .idle
  | stays (t : Universetable) (u : GetUse) : Moves platform t u t u
  | default (t : Universetable) {call : GetCall} (h : call.universeid = 0) :
    Moves platform t (.getUniverse call) (t.returns call.universeid defaultuniverse) .idle
  | asks (t : Universetable) {call : GetCall} (h : call.universeid ≠ 0) :
    Moves platform t (.getUniverse call) t (.readInitvalue call .lookup)
  | ready {t : Universetable} (call : GetCall) (ensuring : Ensuring) (h : t.mapinitvalue = 2) :
    Moves platform t (.readInitvalue call ensuring) t (ensuring.next call)
  | unready (t : Universetable) (call : GetCall) (ensuring : Ensuring) :
    Moves platform t (.readInitvalue call ensuring) t (.casInitvalue call ensuring)
  | enters {t : Universetable} (call : GetCall) (ensuring : Ensuring) (h : t.mapinitvalue = 0) :
    Moves platform t (.casInitvalue call ensuring) { t with mapinitvalue := 1 } (.initMap call ensuring)
  | intrudes {t : Universetable} (call : GetCall) (ensuring : Ensuring) (h : t.mapinitvalue = 0)
      (hweak : platform.weak) : Moves platform t (.casInitvalue call ensuring) t (.initMap call ensuring)
  | late (t : Universetable) (call : GetCall) (ensuring : Ensuring) :
    Moves platform t (.casInitvalue call ensuring) t (.waitInitvalue call ensuring)
  | inits (t : Universetable) (call : GetCall) (ensuring : Ensuring) :
    Moves platform t (.initMap call ensuring) t.init (.writeInitvalue call ensuring)
  | finishes (t : Universetable) (call : GetCall) (ensuring : Ensuring) :
    Moves platform t (.writeInitvalue call ensuring) { t with mapinitvalue := 2 } (ensuring.next call)
  | waited {t : Universetable} (call : GetCall) (ensuring : Ensuring) (h : t.mapinitvalue = 2) :
    Moves platform t (.waitInitvalue call ensuring) t (ensuring.next call)
  | misses {t : Universetable} {call : GetCall} (h : t.lookup (getUniverseHash platform call.universeid) = none) :
    Moves platform t (.lookup call) t (.alloc call)
  | finds {t : Universetable} {call : GetCall} {univ : ℕ}
      (h : t.lookup (getUniverseHash platform call.universeid) = some univ) :
    Moves platform t (.lookup call) (t.returns call.universeid univ) .idle
  | asserts {t : Universetable} {call : GetCall} {univ : ℕ}
      (h : t.lookup (getUniverseHash platform call.universeid) = some univ) (hndebug : platform.ndebug = false)
      (hversion : t.version univ = .isUninitialized) : Moves platform t (.lookup call) t (.failed none)
  | allocs (t : Universetable) {call : GetCall} (h : call.allocates platform.cfg) :
    Moves platform t (.alloc call) (t.alloc call.universeid) (.readInitvalue call (.register (t.allocated + 1)))
  | refuses (t : Universetable) {call : GetCall} (h : call.allocates platform.cfg = false) :
    Moves platform t (.alloc call) t (.failed none)
  | registers {t : Universetable} {call : GetCall} (univ : ℕ)
      (h : t.lookup (getUniverseHash platform call.universeid) = none) :
    Moves platform t (.register call univ)
      ((t.register (getUniverseHash platform call.universeid) univ).returns call.universeid univ) .idle
  | beaten {t : Universetable} {call : GetCall} (univ : ℕ) {actual : ℕ}
      (h : t.lookup (getUniverseHash platform call.universeid) = some actual) :
    Moves platform t (.register call univ) t (.done call univ actual)
  | fails {t : Universetable} (call : GetCall) {univ : ℕ} (actual : ℕ) (h : t.version univ ≠ .isDeinitializing) :
    Moves platform t (.done call univ actual) t (.failed (some univ))
  | unwinds {t : Universetable} (call : GetCall) {univ : ℕ} (actual : ℕ) (h : t.version univ = .isDeinitializing) :
    Moves platform t (.done call univ actual)
      ({ t with version := Function.update t.version univ .isDeallocating }.returns call.universeid actual) .idle

/-- **There is nothing else that a thread can do.** -/
theorem GetAct.moves (h : GetAct platform t u t' u') : Moves platform t u t' u' := by
  cases h with
  | begins call => exact .begins t call
  | versions universeid univ version h => exact .versions version h
  | goes spurious hspurious =>
    cases u with
    | idle => exact .stays t _
    | failed => exact .stays t _
    | getUniverse call =>
      by_cases hzero : call.universeid = 0
      · simp only [GetUse.step, hzero, if_true]
        simpa only [hzero] using Moves.default t hzero
      · simp only [GetUse.step, hzero, if_false]
        exact .asks t hzero
    | readInitvalue call ensuring =>
      by_cases htwo : t.mapinitvalue = 2
      · simp only [GetUse.step, htwo, if_true]
        exact .ready call ensuring htwo
      · simp only [GetUse.step, htwo, if_false]
        exact .unready t call ensuring
    | casInitvalue call ensuring =>
      by_cases hzero : t.mapinitvalue = 0
      · simp only [GetUse.step, hzero, if_true]
        cases spurious with
        | true => exact .intrudes call ensuring hzero (hspurious rfl)
        | false => exact .enters call ensuring hzero
      · simp only [GetUse.step, hzero, if_false]
        exact .late t call ensuring
    | initMap call ensuring => exact .inits t call ensuring
    | writeInitvalue call ensuring => exact .finishes t call ensuring
    | waitInitvalue call ensuring =>
      by_cases htwo : t.mapinitvalue = 2
      · simp only [GetUse.step, htwo, if_true]
        exact .waited call ensuring htwo
      · simp only [GetUse.step, htwo, if_false]
        exact .stays t _
    | lookup call =>
      cases hlookup : t.lookup (getUniverseHash platform call.universeid) with
      | none =>
        simp only [GetUse.step, hlookup]
        exact .misses hlookup
      | some univ =>
        simp only [GetUse.step, hlookup]
        split
        · rename_i hassert
          simp only [Bool.and_eq_true, Bool.not_eq_true', beq_iff_eq] at hassert
          exact .asserts hlookup hassert.1 hassert.2
        · exact .finds hlookup
    | alloc call =>
      cases hallocates : call.allocates platform.cfg with
      | true =>
        simp only [GetUse.step, hallocates, if_true]
        exact .allocs t hallocates
      | false =>
        simp only [GetUse.step, hallocates]
        exact .refuses t hallocates
    | register call univ =>
      cases hlookup : t.lookup (getUniverseHash platform call.universeid) with
      | none =>
        simp only [GetUse.step, hlookup]
        exact .registers univ hlookup
      | some actual =>
        simp only [GetUse.step, hlookup]
        exact .beaten univ hlookup
    | done call univ actual =>
      by_cases hversion : t.version univ = .isDeinitializing
      · simp only [GetUse.step, hversion, cas_self, if_true]
        exact .unwinds call actual hversion
      · simp only [GetUse.step, cas_ne hversion, hversion, if_false, Function.update_eq_self]
        exact .fails call actual hversion

/-! ## The setup of the table -/

/-- What the init value says. -/
def guardOf (mapinitvalue : ℕ) : Guard :=
  if mapinitvalue = 0 then .fresh else if mapinitvalue = 1 then .running else .done

/-- Where a thread is in the setup. -/
def GetUse.place : GetUse → Place
  | .initMap _ _ | .writeInitvalue _ _ => .inside
  | .lookup _ | .alloc _ | .register _ _ | .done _ _ _ => .past
  | _ => .outside

@[simp] lemma place_next (call : GetCall) (ensuring : Ensuring) : (ensuring.next call).place = .past := by
  cases ensuring <;> rfl

/-- The table is set up by one thread, and it is there when the init value says so. -/
structure Setup {ι : Type} (s : Threads ι Universetable GetUse) : Prop where
  once : Once (guardOf s.shared.mapinitvalue) fun i => (s.thread i).place
  fresh : s.shared.mapinitvalue = 0 → s.shared.map.isSome = false
  done : guardOf s.shared.mapinitvalue = .done → s.shared.map.isSome
  initMap : ∀ i call ensuring, s.thread i = .initMap call ensuring → s.shared.map.isSome = false
  writeInitvalue : ∀ i call ensuring, s.thread i = .writeInitvalue call ensuring → s.shared.map.isSome

variable [DecidableEq ι] {s : Threads ι Universetable GetUse} {i : ι}

lemma Moves.allowed (hweak : platform.weak = false) (h : Moves platform t u t' u') :
    Allowed (guardOf t.mapinitvalue) u.place (guardOf t'.mapinitvalue) u'.place := by
  cases h with
  | ready call ensuring htwo | waited call ensuring htwo =>
    rw [place_next, htwo]
    exact .pass
  | enters call ensuring hzero =>
    rw [hzero]
    exact .enter
  | intrudes call ensuring hzero htrue =>
    rw [hweak] at htrue
    cases htrue
  | finishes call ensuring =>
    rw [place_next]
    exact .finish _
  | finds | asserts | allocs | refuses | registers | fails | unwinds => exact .leave _
  | _ => exact .stay _ _

/-- A step that leaves the table, and is not about its setup. -/
lemma Setup.moved (h : Setup s) (honce : Once (guardOf t'.mapinitvalue) fun j => ((s.moved i t' u').thread j).place)
    (hinitvalue : t'.mapinitvalue = s.shared.mapinitvalue) (hmap : t'.map.isSome = s.shared.map.isSome)
    (hplace : u'.place ≠ .inside) : Setup (s.moved i t' u') := by
  have hinside : ∀ j u, (s.moved i t' u').thread j = u → u.place = .inside → s.thread j = u := by
    intro j u hj hu
    by_cases hji : j = i
    · subst hji
      rw [moved_self] at hj
      exact absurd (hj ▸ hu) hplace
    · rwa [moved_ne hji] at hj
  refine ⟨honce, ?_, ?_, fun j call ensuring hj => ?_, fun j call ensuring hj => ?_⟩
  · rw [moved_shared, hinitvalue, hmap]
    exact h.fresh
  · rw [moved_shared, hinitvalue, hmap]
    exact h.done
  · rw [moved_shared, hmap]
    exact h.initMap j call ensuring (hinside j _ hj rfl)
  · rw [moved_shared, hmap]
    exact h.writeInitvalue j call ensuring (hinside j _ hj rfl)

lemma mapinitvalue_of_running {mapinitvalue : ℕ} (h : guardOf mapinitvalue = .running) : mapinitvalue = 1 := by
  unfold guardOf at h
  split_ifs at h
  assumption

omit [DecidableEq ι] in
lemma Setup.alone (h : Setup s) (hi : (s.thread i).place = .inside) {j : ι} (hj : j ≠ i) :
    (s.thread j).place ≠ .inside :=
  fun hinside => hj (h.once.alone j i hinside hi)

omit [DecidableEq ι] in
lemma Setup.ready (h : Setup s) (hi : (s.thread i).place = .past) : s.shared.map.isSome :=
  h.done (h.once.done_of_past i hi)

/-- **The setup of the table, step by step.** -/
lemma Setup.step (h : Setup s) (hweak : platform.weak = false) (hmoves : Moves platform s.shared (s.thread i) t' u') :
    Setup (s.moved i t' u') := by
  have honce := h.once.moved (hmoves.allowed hweak) t'
  generalize hi : s.thread i = u at hmoves
  cases hmoves with
  | stays =>
    subst hi
    have hsame : s.moved i s.shared (s.thread i) = s := by
      rw [Threads.moved, Function.update_eq_self]
    rwa [hsame]
  | intrudes call ensuring hzero htrue =>
    rw [hweak] at htrue
    cases htrue
  | enters call ensuring hzero =>
    refine ⟨honce, fun hone => absurd hone one_ne_zero, fun hdone => absurd (show guardOf 1 = .done from hdone) (by decide),
      fun _ _ _ _ => h.fresh hzero, ?_⟩
    intro j call' ensuring' hj
    by_cases hji : j = i
    · subst hji
      rw [moved_self] at hj
      cases hj
    · rw [moved_ne hji] at hj
      exact h.writeInitvalue j _ _ hj
  | inits call ensuring =>
    have hinside : (s.thread i).place = .inside := by rw [hi, GetUse.place]
    refine ⟨honce, ?_, fun _ => rfl, ?_, fun _ _ _ _ => rfl⟩
    · intro hzero
      have hone := mapinitvalue_of_running (h.once.running_of_inside i hinside)
      rw [moved_shared] at hzero
      exact absurd (hone.symm.trans hzero) one_ne_zero
    · intro j call' ensuring' hj
      by_cases hji : j = i
      · subst hji
        rw [moved_self] at hj
        cases hj
      · rw [moved_ne hji] at hj
        exact absurd (by rw [hj, GetUse.place]) (h.alone hinside hji)
  | finishes call ensuring =>
    have hinside : (s.thread i).place = .inside := by rw [hi, GetUse.place]
    have hnobody : ∀ j, ((s.moved i { s.shared with mapinitvalue := 2 } (ensuring.next call)).thread j).place ≠
        .inside := by
      intro j
      by_cases hji : j = i
      · subst hji
        rw [moved_self, place_next]
        simp
      · rw [moved_ne hji]
        exact h.alone hinside hji
    refine ⟨honce, fun htwo => absurd htwo two_ne_zero, fun _ => h.writeInitvalue i _ _ hi, ?_, ?_⟩
    · intro j call' ensuring' hj
      exact absurd (by rw [hj, GetUse.place]) (hnobody j)
    · intro j call' ensuring' hj
      exact absurd (by rw [hj, GetUse.place]) (hnobody j)
  | registers univ hlookup => exact h.moved honce rfl (Option.isSome_map ..) (by simp [GetUse.place])
  | ready call ensuring | waited call ensuring => exact h.moved honce rfl rfl (by simp)
  | _ => exact h.moved honce rfl rfl (by simp [GetUse.place])

/-! ## Where the universes are -/

/-- The universe that is going to be registered. -/
def Ensuring.held : Ensuring → Option ℕ
  | .lookup => none
  | .register univ => some univ

/-- The universe that a thread has made, and that is not in the table. -/
def GetUse.held : GetUse → Option ℕ
  | .readInitvalue _ ensuring | .casInitvalue _ ensuring | .initMap _ ensuring | .writeInitvalue _ ensuring
  | .waitInitvalue _ ensuring => ensuring.held
  | .register _ univ | .done _ univ _ => some univ
  | .failed univ => univ
  | _ => none

/-- What a thread is asking for, when it is not the default universe. -/
def GetUse.call : GetUse → Option GetCall
  | .readInitvalue call _ | .casInitvalue call _ | .initMap call _ | .writeInitvalue call _ | .waitInitvalue call _
  | .lookup call | .alloc call | .register call _ | .done call _ _ => some call
  | _ => none

@[simp] lemma held_next (call : GetCall) (ensuring : Ensuring) : (ensuring.next call).held = ensuring.held := by
  cases ensuring <;> rfl

@[simp] lemma call_next (call : GetCall) (ensuring : Ensuring) : (ensuring.next call).call = some call := by
  cases ensuring <;> rfl

/-- What a thread relies on. -/
structure Fits (platform : Platform) (t : Universetable) (u : GetUse) : Prop where
  nonzero : ∀ call, u.call = some call → call.universeid ≠ 0
  range : ∀ univ, u.held = some univ → 1 ≤ univ ∧ univ ≤ t.allocated
  apart : ∀ univ hash, u.held = some univ → t.lookup hash ≠ some univ
  version : ∀ univ, u.held = some univ → t.version univ = .isUninitialized
  id : ∀ univ call, u.held = some univ → u.call = some call → t.universeid univ = call.universeid
  actual : ∀ call univ actual, u = .done call univ actual →
    t.lookup (getUniverseHash platform call.universeid) = some actual

lemma fits_idle : Fits platform t .idle where
  nonzero _ h := by cases h
  range _ h := by cases h
  apart _ _ h := by cases h
  version _ h := by cases h
  id _ _ h := by cases h
  actual _ _ _ h := by cases h

/-- **Every universe is in the table, under the hash of its id, or in the hands of one thread.** -/
structure Ledger {ι : Type} (platform : Platform) (s : Threads ι Universetable GetUse) : Prop where
  fits : ∀ i, Fits platform s.shared (s.thread i)
  alone : ∀ i j univ, (s.thread i).held = some univ → (s.thread j).held = some univ → i = j
  entries : ∀ hash univ, s.shared.lookup hash = some univ → 1 ≤ univ ∧ univ ≤ s.shared.allocated ∧
    s.shared.universeid univ ≠ 0 ∧ getUniverseHash platform (s.shared.universeid univ) = hash
  returned : ∀ r ∈ s.shared.returned, if r.1 = 0 then r.2 = defaultuniverse
    else s.shared.lookup (getUniverseHash platform r.1) = some r.2
  kept : ∀ univ, 1 ≤ univ → univ ≤ s.shared.allocated →
    (∃ hash, s.shared.lookup hash = some univ) ∨ ∃ i, (s.thread i).held = some univ

lemma Fits.mono (h : Fits platform t u) (hallocated : t.allocated ≤ t'.allocated)
    (hkept : ∀ univ, u.held = some univ → t'.version univ = t.version univ ∧ t'.universeid univ = t.universeid univ)
    (hlookup : ∀ hash univ, t.lookup hash = some univ → t'.lookup hash = some univ)
    (hnew : ∀ hash univ, u.held = some univ → t'.lookup hash = some univ → t.lookup hash = some univ) :
    Fits platform t' u where
  nonzero := h.nonzero
  range univ hheld := ⟨(h.range univ hheld).1, (h.range univ hheld).2.trans hallocated⟩
  apart univ hash hheld hfound := h.apart univ hash hheld (hnew hash univ hheld hfound)
  version univ hheld := by rw [(hkept univ hheld).1, h.version univ hheld]
  id univ call hheld hcall := by rw [(hkept univ hheld).2, h.id univ call hheld hcall]
  actual call univ actual hu := hlookup _ _ (h.actual call univ actual hu)

/-- A step that leaves the table and the universes alone. -/
lemma Ledger.moved (h : Ledger platform s) (hlookup : t'.lookup = s.shared.lookup)
    (hallocated : t'.allocated = s.shared.allocated) (huniverseid : t'.universeid = s.shared.universeid)
    (hversion : ∀ j univ, (s.thread j).held = some univ → t'.version univ = s.shared.version univ)
    (hreturned : ∀ r ∈ t'.returned, if r.1 = 0 then r.2 = defaultuniverse
      else s.shared.lookup (getUniverseHash platform r.1) = some r.2)
    (hheld : u'.held = (s.thread i).held) (hcall : ∀ call, u'.call = some call → call.universeid ≠ 0)
    (hid : ∀ call, u'.call = some call → u'.held = none ∨ (s.thread i).call = some call)
    (hactual : ∀ call univ actual, u' = .done call univ actual →
      s.shared.lookup (getUniverseHash platform call.universeid) = some actual) : Ledger platform (s.moved i t' u') := by
  have hheld' : ∀ j, ((s.moved i t' u').thread j).held = (s.thread j).held := by
    intro j
    by_cases hji : j = i
    · subst hji
      rw [moved_self, hheld]
    · rw [moved_ne hji]
  have hframe : ∀ j, Fits platform t' (s.thread j) := by
    intro j
    refine (h.fits j).mono (by rw [hallocated]) ?_ ?_ ?_
    · intro univ hj
      exact ⟨hversion j univ hj, by rw [huniverseid]⟩
    · intro hash univ hfound
      rwa [hlookup]
    · intro hash univ _ hfound
      rwa [← hlookup]
  refine ⟨?_, ?_, ?_, ?_, ?_⟩
  · refine (forall_moved fun _ u => Fits platform t' u).2 ⟨⟨hcall, ?_, ?_, ?_, ?_, ?_⟩, fun j _ => hframe j⟩
    · rw [hheld]
      exact (hframe i).range
    · rw [hheld]
      exact (hframe i).apart
    · rw [hheld]
      exact (hframe i).version
    · intro univ call hu hcall'
      rcases hid call hcall' with hnone | hsame
      · rw [hnone] at hu
        cases hu
      · exact (hframe i).id univ call (hheld ▸ hu) hsame
    · intro call univ actual hu
      rw [hlookup]
      exact hactual call univ actual hu
  · intro j k univ
    rw [hheld', hheld']
    exact h.alone j k univ
  · rw [moved_shared, hlookup, hallocated, huniverseid]
    exact h.entries
  · rw [moved_shared, hlookup]
    exact hreturned
  · simp only [moved_shared, hlookup, hallocated, hheld']
    exact h.kept

omit [DecidableEq ι] in
lemma Ledger.returned_ne (h : Ledger platform s) {r : ℕ × ℕ} (hr : r ∈ s.shared.returned) {j : ι} {univ : ℕ}
    (hheld : (s.thread j).held = some univ) : r.2 ≠ univ := by
  rintro rfl
  have hreturned := h.returned r hr
  split at hreturned
  · have := ((h.fits j).range _ hheld).1
    rw [hreturned, defaultuniverse] at this
    omega
  · exact (h.fits j).apart _ _ hheld hreturned

lemma Ledger.goes (h : Ledger platform s) (hlookup : t'.lookup = s.shared.lookup)
    (hallocated : t'.allocated = s.shared.allocated) (huniverseid : t'.universeid = s.shared.universeid)
    (hversion : t'.version = s.shared.version) (hreturned : t'.returned = s.shared.returned)
    (hheld : u'.held = (s.thread i).held) (hcall : u'.call = (s.thread i).call)
    (hactual : ∀ call univ actual, u' = .done call univ actual →
      s.shared.lookup (getUniverseHash platform call.universeid) = some actual) : Ledger platform (s.moved i t' u') := by
  refine h.moved hlookup hallocated huniverseid (fun _ _ _ => by rw [hversion]) ?_ hheld ?_ ?_ hactual
  · rw [hreturned]
    exact h.returned
  · rw [hcall]
    exact (h.fits i).nonzero
  · rw [hcall]
    exact fun _ => Or.inr

lemma Ledger.ends (h : Ledger platform s) (hlookup : t'.lookup = s.shared.lookup)
    (hallocated : t'.allocated = s.shared.allocated) (huniverseid : t'.universeid = s.shared.universeid)
    (hversion : ∀ j univ, (s.thread j).held = some univ → t'.version univ = s.shared.version univ)
    (hreturned : ∀ r ∈ t'.returned, r ∈ s.shared.returned ∨ if r.1 = 0 then r.2 = defaultuniverse
      else s.shared.lookup (getUniverseHash platform r.1) = some r.2)
    (hheld : u'.held = (s.thread i).held) (hcall : u'.call = none) : Ledger platform (s.moved i t' u') := by
  have hnone : ∀ {call}, u'.call ≠ some call := fun {call} => by simp [hcall]
  refine h.moved hlookup hallocated huniverseid hversion ?_ hheld (fun _ hu => absurd hu hnone)
    (fun _ hu => absurd hu hnone) ?_
  · intro r hr
    exact (hreturned r hr).elim (h.returned r) id
  · rintro call univ actual rfl
    cases hcall

/-- A thread makes a universe. -/
lemma Ledger.alloc (h : Ledger platform s) {call : GetCall} (hi : s.thread i = .alloc call) :
    Ledger platform (s.moved i (s.shared.alloc call.universeid)
      (.readInitvalue call (.register (s.shared.allocated + 1)))) := by
  have hnonzero := (h.fits i).nonzero call (by rw [hi]; rfl)
  have hold : ∀ univ, univ ≤ s.shared.allocated → univ ≠ s.shared.allocated + 1 := fun univ hle => by omega
  have hrange : ∀ hash univ, s.shared.lookup hash = some univ → univ ≤ s.shared.allocated := fun hash univ hfound =>
    (h.entries hash univ hfound).2.1
  refine ⟨?_, ?_, ?_, h.returned, ?_⟩
  · refine (forall_moved fun _ u => Fits platform _ u).2 ⟨⟨?_, ?_, ?_, ?_, ?_, ?_⟩, fun j _ => ?_⟩
    · rintro _ ⟨⟩
      exact hnonzero
    · rintro univ ⟨⟩
      exact ⟨by omega, le_rfl⟩
    · rintro univ hash ⟨⟩ hfound
      exact hold _ (hrange hash _ hfound) rfl
    · rintro univ ⟨⟩
      exact Function.update_self ..
    · rintro univ _ ⟨⟩ ⟨⟩
      exact Function.update_self ..
    · intro _ _ _ hu
      cases hu
    · refine (h.fits j).mono (Nat.le_succ _) ?_ (fun _ _ => id) (fun _ _ _ => id)
      intro univ hheld
      have hne := hold univ ((h.fits j).range univ hheld).2
      exact ⟨Function.update_of_ne hne .., Function.update_of_ne hne ..⟩
  · -- nobody else holds the new universe
    have hother : ∀ j, j ≠ i → (s.thread j).held ≠ some (s.shared.allocated + 1) := fun j _ hheld =>
      hold _ ((h.fits j).range _ hheld).2 rfl
    intro j k univ hj hk
    by_cases hji : j = i <;> by_cases hki : k = i
    · rw [hji, hki]
    · subst hji
      rw [moved_self] at hj
      rw [moved_ne hki] at hk
      cases hj
      exact absurd hk (hother k hki)
    · subst hki
      rw [moved_self] at hk
      rw [moved_ne hji] at hj
      cases hk
      exact absurd hj (hother j hji)
    · rw [moved_ne hji] at hj
      rw [moved_ne hki] at hk
      exact h.alone j k univ hj hk
  · intro hash univ hfound
    obtain ⟨hone, hle, hid, hhash⟩ := h.entries hash univ hfound
    have hsame : (s.shared.alloc call.universeid).universeid univ = s.shared.universeid univ :=
      Function.update_of_ne (hold univ hle) ..
    rw [moved_shared, hsame]
    exact ⟨hone, hle.trans (Nat.le_succ _), hid, hhash⟩
  · intro univ hone hle
    by_cases hnew : univ = s.shared.allocated + 1
    · subst hnew
      exact Or.inr ⟨i, by rw [moved_self]; rfl⟩
    · have hle : univ ≤ s.shared.allocated + 1 := hle
      rcases h.kept univ hone (by omega) with hfound | ⟨j, hheld⟩
      · exact Or.inl hfound
      · refine Or.inr ⟨j, ?_⟩
        rw [moved_ne, hheld]
        rintro rfl
        rw [hi] at hheld
        cases hheld

/-- A thread registers its universe. -/
lemma Ledger.register (h : Ledger platform s) {call : GetCall} {univ : ℕ} (hi : s.thread i = .register call univ)
    (hmap : s.shared.map.isSome) (hmiss : s.shared.lookup (getUniverseHash platform call.universeid) = none) :
    Ledger platform (s.moved i
      ((s.shared.register (getUniverseHash platform call.universeid) univ).returns call.universeid univ) .idle) := by
  have hfits := h.fits i
  rw [hi] at hfits
  set hash := getUniverseHash platform call.universeid
  set t' := (s.shared.register hash univ).returns call.universeid univ
  have hlookup : t'.lookup = Function.update s.shared.lookup hash (some univ) :=
    Universetable.register_lookup hmap hash univ
  have hother : ∀ other found, s.shared.lookup other = some found → t'.lookup other = some found := by
    intro other found hfound
    rw [hlookup, Function.update_of_ne, hfound]
    rintro rfl
    rw [hmiss] at hfound
    cases hfound
  have hheld : ∀ j found, ((s.moved i t' .idle).thread j).held = some found →
      j ≠ i ∧ (s.thread j).held = some found := by
    intro j found hj
    by_cases hji : j = i
    · subst hji
      rw [moved_self] at hj
      cases hj
    · rw [moved_ne hji] at hj
      exact ⟨hji, hj⟩
  refine ⟨(forall_moved fun _ u => Fits platform t' u).2 ⟨fits_idle, fun j hj => ?_⟩, ?_, ?_, ?_, ?_⟩
  · refine (h.fits j).mono le_rfl (fun _ _ => ⟨rfl, rfl⟩) hother ?_
    intro other found hfound hnew
    rw [hlookup, Function.update_apply] at hnew
    split at hnew
    · -- nobody else holds the universe that is registered
      cases hnew
      exact absurd (h.alone j i univ hfound (by rw [hi]; rfl)) hj
    · exact hnew
  · intro j k found hj hk
    exact h.alone j k found (hheld j found hj).2 (hheld k found hk).2
  · intro other found hfound
    rw [moved_shared, hlookup, Function.update_apply] at hfound
    split at hfound
    · rename_i hsame
      cases hfound
      have hid := hfits.id univ call rfl rfl
      refine ⟨(hfits.range univ rfl).1, (hfits.range univ rfl).2, ?_, ?_⟩
      · show s.shared.universeid univ ≠ 0
        rw [hid]
        exact hfits.nonzero call rfl
      · show getUniverseHash platform (s.shared.universeid univ) = other
        rw [hid, hsame]
    · exact h.entries other found hfound
  · intro r hr
    rcases List.mem_cons.1 hr with rfl | hr
    · rw [if_neg (hfits.nonzero call rfl)]
      show t'.lookup hash = some univ
      rw [hlookup, Function.update_self]
    · have hreturned := h.returned r hr
      split
      · rwa [if_pos ‹_›] at hreturned
      · rw [if_neg ‹_›] at hreturned
        exact hother _ _ hreturned
  · intro found hone hle
    rcases h.kept found hone hle with ⟨other, hfound⟩ | ⟨j, hj⟩
    · exact Or.inl ⟨other, hother other found hfound⟩
    · by_cases hji : j = i
      · subst hji
        rw [hi] at hj
        cases hj
        exact Or.inl ⟨hash, by rw [moved_shared, hlookup, Function.update_self]⟩
      · exact Or.inr ⟨j, by rwa [moved_ne hji]⟩

/-- **What becomes of the universes, step by step.** -/
lemma Ledger.step (h : Ledger platform s) (hsetup : Setup s) (hmoves : Moves platform s.shared (s.thread i) t' u') :
    Ledger platform (s.moved i t' u') := by
  have hfits := h.fits i
  generalize hi : s.thread i = u at hmoves hfits
  cases hmoves with
  | begins | asserts | refuses =>
    exact h.ends rfl rfl rfl (fun _ _ _ => rfl) (fun _ => Or.inl) (by rw [hi]; rfl) rfl
  | versions version hr =>
    refine h.ends rfl rfl rfl ?_ (fun _ => Or.inl) (by rw [hi]) rfl
    intro j univ hheld
    exact Function.update_of_ne (h.returned_ne hr hheld).symm ..
  | stays =>
    subst hi
    have hsame : s.moved i s.shared (s.thread i) = s := by
      rw [Threads.moved, Function.update_eq_self]
    rwa [hsame]
  | default hzero =>
    refine h.ends rfl rfl rfl (fun _ _ _ => rfl) ?_ (by rw [hi]; rfl) rfl
    intro r hr
    rcases List.mem_cons.1 hr with rfl | hr
    · exact Or.inr (by simp [hzero])
    · exact Or.inl hr
  | asks hnonzero =>
    refine h.moved rfl rfl rfl (fun _ _ _ => rfl) h.returned (by rw [hi]; rfl) ?_ (fun _ _ => Or.inl rfl) ?_
    · rintro _ ⟨⟩
      exact hnonzero
    · intro _ _ _ hu
      cases hu
  | ready call ensuring | finishes call ensuring | waited call ensuring =>
    refine h.goes rfl rfl rfl rfl rfl (by rw [hi, held_next]; rfl) (by rw [hi, call_next]; rfl) ?_
    intro _ _ _ hu
    cases ensuring <;> cases hu
  | unready | enters | intrudes | late | misses =>
    refine h.goes rfl rfl rfl rfl rfl (by rw [hi]; rfl) (by rw [hi]; rfl) ?_
    intro _ _ _ hu
    cases hu
  | inits call ensuring =>
    refine h.goes ?_ rfl rfl rfl rfl (by rw [hi]; rfl) (by rw [hi]; rfl) ?_
    · -- there was nothing in the table
      have hmap := hsetup.initMap i call ensuring hi
      rw [Option.isSome_eq_false_iff, Option.isNone_iff_eq_none] at hmap
      funext hash
      rw [Universetable.lookup, Universetable.lookup, hmap]
      rfl
    · intro _ _ _ hu
      cases hu
  | finds hfound =>
    refine h.ends rfl rfl rfl (fun _ _ _ => rfl) ?_ (by rw [hi]; rfl) rfl
    intro r hr
    rcases List.mem_cons.1 hr with rfl | hr
    · rw [if_neg (hfits.nonzero _ rfl)]
      exact Or.inr hfound
    · exact Or.inl hr
  | allocs => exact h.alloc hi
  | registers univ hmiss =>
    exact h.register hi (hsetup.ready (i := i) (by rw [hi]; rfl)) hmiss
  | beaten univ hfound =>
    refine h.goes rfl rfl rfl rfl rfl (by rw [hi]; rfl) (by rw [hi]; rfl) ?_
    rintro _ _ _ ⟨⟩
    exact hfound
  | fails call actual => exact h.ends rfl rfl rfl (fun _ _ _ => rfl) (fun _ => Or.inl) (by rw [hi]; rfl) rfl
  | unwinds call actual hversion =>
    rw [hfits.version _ rfl] at hversion
    cases hversion

/-! ## All threads -/

lemma UniversesReachable.inv (h : UniversesReachable platform s) (hweak : platform.weak = false) :
    Setup s ∧ Ledger platform s := by
  induction h with
  | start =>
    refine ⟨⟨once_start _, fun _ => rfl, ?_, ?_, ?_⟩, fun _ => fits_idle, ?_, ?_, ?_, ?_⟩
    · intro hdone
      cases hdone
    · intro _ _ _ hi
      cases hi
    · intro _ _ _ hi
      cases hi
    · intro _ _ _ hi
      cases hi
    · intro _ _ hfound
      cases hfound
    · intro _ hr
      cases hr
    · intro univ hone hle
      have hle : univ ≤ 0 := hle
      omega
  | step _ hact ih =>
    obtain ⟨i, t', u', hact, rfl⟩ := hact
    exact ⟨ih.1.step hweak hact.moves, ih.2.step ih.1 hact.moves⟩

/-- What two ids have in common when they are for the same universe: they are `0`, or they have the same hash. -/
def universeKey (platform : Platform) (universeid : ℕ) : Option ℕ :=
  if universeid = 0 then none else some (getUniverseHash platform universeid)

lemma getUniverseHash_eq (hilp32 : platform.ilp32 = false) {universeid : ℕ} (h : universeid ≠ 0) :
    getUniverseHash platform universeid = universeid := by
  simp [getUniverseHash, hilp32, h]

/-- **Threads that ask for universes agree** in a state: the table is set up once, and it is there when it is used.  Calls
have returned the same universe when they were for the same one, and the one with the id that was asked for unless
pointers are too small to tell ids apart.  A universe that could not be registered is returned by nobody, is in the hands of
one thread, and its `_mulle_objc_universe_done` fails. -/
structure UniversesAgree {ι : Type} (platform : Platform) (s : Threads ι Universetable GetUse) : Prop where
  once : ∀ i call ensuring, s.thread i = .initMap call ensuring → s.shared.map.isSome = false
  ready : ∀ i, (s.thread i).place = .past → s.shared.map.isSome
  same : ∀ r ∈ s.shared.returned, ∀ r' ∈ s.shared.returned,
    r.2 = r'.2 ↔ universeKey platform r.1 = universeKey platform r'.1
  id : platform.ilp32 = false → ∀ r ∈ s.shared.returned, r.2 ≠ defaultuniverse → s.shared.universeid r.2 = r.1
  lost : ∀ i univ, (s.thread i).held = some univ → s.shared.version univ = .isUninitialized ∧
    (∀ r ∈ s.shared.returned, r.2 ≠ univ) ∧ ∀ j ≠ i, (s.thread j).held ≠ some univ
  kept : ∀ univ, 1 ≤ univ → univ ≤ s.shared.allocated →
    (∃ hash, s.shared.lookup hash = some univ) ∨ ∃ i, (s.thread i).held = some univ

omit [DecidableEq ι] in
lemma Ledger.lookup_of_returned (h : Ledger platform s) {r : ℕ × ℕ} (hr : r ∈ s.shared.returned) :
    universeKey platform r.1 = none ∧ r.2 = defaultuniverse ∨
      ∃ hash, universeKey platform r.1 = some hash ∧ s.shared.lookup hash = some r.2 := by
  have hreturned := h.returned r hr
  unfold universeKey
  split
  · rw [if_pos ‹_›] at hreturned
    exact Or.inl ⟨rfl, hreturned⟩
  · rw [if_neg ‹_›] at hreturned
    exact Or.inr ⟨_, rfl, hreturned⟩

omit [DecidableEq ι] in
lemma Ledger.same (h : Ledger platform s) {r r' : ℕ × ℕ} (hr : r ∈ s.shared.returned) (hr' : r' ∈ s.shared.returned) :
    r.2 = r'.2 ↔ universeKey platform r.1 = universeKey platform r'.1 := by
  have hnever : ∀ hash, s.shared.lookup hash ≠ some defaultuniverse := fun hash hfound =>
    absurd (h.entries hash _ hfound).1 (by decide)
  rcases h.lookup_of_returned hr with ⟨hkey, hr⟩ | ⟨hash, hkey, hr⟩ <;>
    rcases h.lookup_of_returned hr' with ⟨hkey', hr'⟩ | ⟨hash', hkey', hr'⟩ <;> rw [hkey, hkey']
  · simp [hr, hr']
  · simp only [reduceCtorEq, iff_false, hr]
    intro hsame
    exact hnever hash' (hsame ▸ hr')
  · simp only [reduceCtorEq, iff_false, hr']
    intro hsame
    exact hnever hash (hsame ▸ hr)
  · rw [Option.some_inj]
    constructor
    · intro hsame
      rw [← (h.entries hash _ hr).2.2.2, ← (h.entries hash' _ hr').2.2.2, hsame]
    · rintro rfl
      rwa [hr, Option.some_inj] at hr'

lemma UniversesReachable.agree (h : UniversesReachable platform s) (hweak : platform.weak = false) :
    UniversesAgree platform s := by
  obtain ⟨hsetup, hledger⟩ := h.inv hweak
  refine ⟨hsetup.initMap, fun i => hsetup.ready, fun r hr r' hr' => hledger.same hr hr', ?_, ?_, hledger.kept⟩
  · intro hilp32 r hr hne
    have hreturned := hledger.returned r hr
    split at hreturned
    · exact absurd hreturned hne
    · obtain ⟨-, -, hid, hhash⟩ := hledger.entries _ _ hreturned
      rwa [getUniverseHash_eq hilp32 hid, getUniverseHash_eq hilp32 ‹_›] at hhash
  · intro i univ hheld
    exact ⟨(hledger.fits i).version univ hheld, fun r hr => hledger.returned_ne hr hheld, fun j hj hheld' =>
      hj (hledger.alone j i univ hheld' hheld)⟩

/-! ## Compare and swaps that fail for no reason -/

lemma UniversesReachable.goes (h : UniversesReachable platform s) (i : ι) (spurious : Bool)
    (hspurious : spurious → platform.weak) (hstep : (s.thread i).step platform spurious s.shared = (t', u')) :
    UniversesReachable platform (s.moved i t' u') := by
  have hact : GetAct platform s.shared (s.thread i) _ _ := .goes spurious hspurious
  rw [hstep] at hact
  exact h.step ⟨i, t', u', hact, rfl⟩

lemma UniversesReachable.sets (h : UniversesReachable platform s) {i : ι} (hi : s.thread i = .idle) {c : GetCall}
    (hcall : c.universeid < 2 ^ 32) (hnonzero : c.universeid ≠ 0) (hzero : s.shared.mapinitvalue = 0)
    (spurious : Bool) (hspurious : spurious → platform.weak) :
    ∃ s' : Threads ι Universetable GetUse, UniversesReachable platform s' ∧ s'.thread i = .initMap c .lookup ∧
      (∀ j ≠ i, s'.thread j = s.thread j) ∧ (spurious → s'.shared = s.shared) := by
  have hbegins : UniversesReachable platform (s.moved i s.shared (.getUniverse c)) :=
    h.step ⟨i, _, _, by rw [hi]; exact .begins c hcall, rfl⟩
  have hasks := hbegins.goes i false (by simp) (by rw [moved_self, GetUse.step, if_neg hnonzero])
  have hreads := hasks.goes i false (by simp)
    (by rw [moved_self, moved_shared, moved_shared, GetUse.step, hzero, if_neg (by decide)])
  have hcas := hreads.goes i spurious hspurious
    (by rw [moved_self, moved_shared, GetUse.step, if_pos hzero])
  refine ⟨_, hcas, moved_self i _ _, ?_, ?_⟩
  · intro j hj
    rw [moved_ne hj, moved_ne hj, moved_ne hj, moved_ne hj]
  · rintro rfl
    rfl

/-- **Threads that ask for universes agree in every interleaving, if and only if no compare and swap fails that finds what it
expects.**  `_mulle_objc_global_ensure_universe_table` takes it for a success, and two threads set up the table. -/
theorem universes_agree_iff [Nontrivial ι] :
    (∀ s : Threads ι Universetable GetUse, UniversesReachable platform s → UniversesAgree platform s) ↔
      platform.weak = false := by
  constructor
  · intro h
    by_contra hweak
    have hweak : platform.weak = true := by simpa using hweak
    obtain ⟨i, j, hij⟩ := exists_pair_ne ι
    have hstart : UniversesReachable platform (universesStart ι) := .start
    -- the compare and swap of `i` fails, and that of `j` does not
    obtain ⟨s, hs, hi, hothers, hshared⟩ :=
      hstart.sets (i := i) (c := ⟨1, none⟩) rfl (by decide) (by decide) rfl true fun _ => hweak
    obtain ⟨s', hs', hj, hothers', -⟩ :=
      hs.sets (i := j) (c := ⟨1, none⟩) (hothers j hij.symm) (by decide) (by decide) (by rw [hshared rfl]; rfl) false
        (by simp)
    have hset := hs'.goes j false (by simp) (by rw [hj, GetUse.step])
    have hmap := (h _ hset).once i ⟨1, none⟩ .lookup (by rw [moved_ne hij, hothers' i hij, hi])
    cases hmap
  · intro hweak s hs
    exact hs.agree hweak

/-- Two threads, on a platform whose compare and swaps fail with a reason only. -/
theorem universes_agree_iff_two :
    (∀ s : Threads Bool Universetable GetUse, UniversesReachable ⟨Registry.sampleConfig, false, true, false⟩ s →
      UniversesAgree ⟨Registry.sampleConfig, false, true, false⟩ s) ↔ false = false := universes_agree_iff

/-- Ids that are told apart by the top bit are for the same universe where pointers are small. -/
example : universeKey ⟨Registry.sampleConfig, true, true, false⟩ 0x80000001 =
    universeKey ⟨Registry.sampleConfig, true, true, false⟩ 1 := by decide

end MulleObjcRuntime.Universes
