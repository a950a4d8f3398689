import MulleObjcRuntime.Search.Silence

/-!
# Searches that return what they have come upon last

* `Word`, `word` — what the callback has to say about a method; without one every method is kept;
* `loopDelivers`, `mixinsDeliver`, `frameDelivers`, `delivers` — along the way of a search: it keeps a method that
  counts, and comes upon nothing else after it;
* `Delivered` — a search returns the method its result describes;
* `searchMethodInternal_delivers` — it does so exactly when it delivers.
-/

namespace MulleObjcRuntime.Search

open Classes

variable {P : Type}

/-! ## What the callback has to say -/

/-- What is to be done with a method that counts. -/
inductive Word
  | keep
  | pass
  | bar
  | giveUp
deriving DecidableEq

section Word

variable (search : SearchArguments P)

/-- The calls of the callback, when there is one. -/
def tell (report : Report P) (reports : List (Report P)) : List (Report P) :=
  match search.callback with
  | none => reports
  | some _ => report :: reports

/-- The answer to the last call: go on, go on without the superclass, stop here, or stop without a method. -/
def word (reports : List (Report P)) : Word :=
  match search.callback with
  | none => .keep
  | some f =>
    match f reports with
    | .ok => .pass
    | .done => .keep
    | .dontDescend => .bar
    | .cancel => .giveUp
    | .error _ => .giveUp

end Word

/-! ## Delivering -/

section Delivers

variable (search : SearchArguments P) (g : ClassGraph P)

/-- A relative search is past its original mode. -/
def Met (mode : InternalMode) : Prop := ¬ (mode = .previousMethod ∨ mode = .superMethod ∨ mode = .overriddenMethod)

/-- A method that is kept is returned at once, or at the end when it must not shadow another one. -/
def Stands (h : Hit P) (path : List (Visit P)) (mode : InternalMode) : Prop :=
  if h.method.isHiddenOverrideFatal then ∃ mode', silence search g mode path = .passed mode' ∧ Met mode' else Met mode

/-- The mode in which the loop over the method lists ends with a method that is kept, when `more` comes after it. -/
def endMode (h : Hit P) (mode : InternalMode) (more : List (Hit P)) : Option InternalMode :=
  if h.method.isHiddenOverrideFatal then quietly search mode more else some mode

/-- The loop over the method lists: `kept` is what is asked of a method that is kept, `next` of the rest when none is. -/
def loopDelivers (kept : Hit P → ℕ → InternalMode → List (Report P) → List (Hit P) → Prop)
    (next : ℕ → InternalMode → List (Report P) → Prop) : List (Hit P) → ℕ → InternalMode → List (Report P) → Prop
  | [], i, mode, reports => next i mode reports
  | h :: more, i, mode, reports =>
    if mode = .previousMethod ∧ isPreviousMethod search h.method = true then
      loopDelivers kept next more i .previousMethod2 reports
    else
      let reports := tell search ⟨h.cls, i, some h⟩ reports
      match word search reports with
      | .keep => kept h i mode reports more
      | .pass => loopDelivers kept next more i mode reports
      | .bar => loopDelivers kept next more (i ||| dontInheritSuperclass) mode reports
      | .giveUp => False

variable [DecidableEq P]

/-- The visits of some mixins. -/
def mixinPath (cls : ClassRef P) (i : ℕ) (mixins : List P) : List (Visit P) :=
  (mixins.filter (· ≠ cls.pair)).map fun proto =>
    ownVisit g (mixinRef cls proto) (i ||| g.inheritance (mixinRef cls proto))

/-- The loop over the mixins: the callback is asked a second time about a method that a mixin returns. -/
def mixinsDeliver (cls : ClassRef P) (i : ℕ) (path : List (Visit P))
    (next : InternalMode → List (Report P) → Prop) : List P → InternalMode → List (Report P) → Prop
  | [], mode, reports => next mode reports
  | proto :: rest, mode, reports =>
    if proto = cls.pair then mixinsDeliver cls i path next rest mode reports
    else
      let inheritance := i ||| g.inheritance (mixinRef cls proto)
      match entry search g mode (ownVisit g (mixinRef cls proto) inheritance) with
      | none => False
      | some (mode, hits) =>
        loopDelivers search
          (fun h _ mode reports more =>
            match endMode search h mode more with
            | none => False
            | some mode =>
              let reports := tell search ⟨cls, i, some h⟩ reports
              match word search reports with
              | .keep => Stands search g h (mixinPath g cls i rest ++ path) mode
              | .pass => mixinsDeliver cls i path next rest mode reports
              | .bar => mixinsDeliver cls i path next rest mode reports
              | .giveUp => False)
          (fun _ mode reports => mixinsDeliver cls i path next rest mode reports) hits inheritance mode reports

/-- The rest of a frame after its loop; `onward` is what is asked of the superclass, `K` of an end without a method. -/
def restDelivers (K : InternalMode → List (Report P) → Prop)
    (onward : ClassRef P → ℕ → InternalMode → List (Report P) → Prop) (cls : ClassRef P) (inheritance : ℕ)
    (mode : InternalMode) (reports : List (Report P)) : Prop :=
  let next := fun mode reports =>
    match g.superclass cls with
    | none => K mode reports
    | some supercls =>
      if has inheritance dontInheritSuperclass then K mode reports
      else onward supercls (searchInheritance g cls supercls inheritance) mode reports
  if has inheritance dontInheritProtocols ∨ (g.pair cls.pair).isMixin then next mode reports
  else
    mixinsDeliver search g cls (mixinFlags inheritance) (superVisits g cls inheritance) next
      (g.pair cls.pair).mixins.reverse mode reports

/-- A frame. -/
def frameDelivers (K : InternalMode → List (Report P) → Prop)
    (onward : ClassRef P → ℕ → InternalMode → List (Report P) → Prop) (cls : ClassRef P) (inheritance : ℕ)
    (mode : InternalMode) (reports : List (Report P)) : Prop :=
  match entry search g mode (ownVisit g cls inheritance) with
  | none => False
  | some (mode, hits) =>
    loopDelivers search
      (fun h i mode _ more =>
        match endMode search h mode more with
        | none => False
        | some mode => Stands search g h (mixinVisits g cls i ++ superVisits g cls i) mode)
      (restDelivers search g K onward cls) hits inheritance mode reports

/-- A search, with a bound on the number of superclasses. -/
def deliversTo (K : InternalMode → List (Report P) → Prop) :
    ℕ → ClassRef P → ℕ → InternalMode → List (Report P) → Prop
  | 0 => fun _ _ _ _ => False
  | n + 1 => frameDelivers search g K (deliversTo K n)

end Delivers

/-! ## What is delivered -/

section Delivered

variable {search : SearchArguments P} {g : ClassGraph P} {K : InternalMode → List (Report P) → Prop}
  {path : List (Visit P)} {st : SearchState P} {h : Hit P} {r : Outcome × SearchState P} {condition A B : Prop}

/-- The method that is returned is the one the result describes; `K` is asked of an end without a method. -/
def Delivered (K : InternalMode → List (Report P) → Prop) (r : Outcome × SearchState P) : Prop :=
  match r.1 with
  | .found m => Met r.2.mode ∧ ∃ h, r.2.result = some h ∧ h.method = m
  | .fail => K r.2.mode r.2.reports
  | _ => False

/-- `B` is enough for `A`, and needed for it under a condition. -/
structure Decides (condition A B : Prop) : Prop where
  enough : B → A
  needed : condition → A → B

lemma Decides.mono {condition' : Prop} (hd : Decides condition A B) (hc : condition' → condition) :
    Decides condition' A B := ⟨hd.enough, fun h => hd.needed (hc h)⟩

lemma Decides.trans {C : Prop} (hd : Decides condition A B) (hd' : Decides condition B C) : Decides condition A C :=
  ⟨fun h => hd.enough (hd'.enough h), fun hc h => hd'.needed hc (hd.needed hc h)⟩

lemma Decides.never (hA : ¬ A) : Decides condition A False := ⟨False.elim, fun _ => hA⟩

lemma not_delivered_null : ¬ Delivered K (.null, st) := id

/-- No fatal hidden override of one visit is in the lists of a later one. -/
def Once (path : List (Visit P)) : Prop :=
  path.Pairwise fun v w => ∀ h, Sighted [v] h → h.method.isHiddenOverrideFatal = true →
    ∀ h', Sighted [w] h' → h'.method ≠ h.method

/-- Without a callback nothing is come upon twice: a search ends with the second method. -/
def Apart (search : SearchArguments P) (path : List (Visit P)) : Prop := search.callback = none ∨ Once path

lemma Apart.later {v : Visit P} (hapart : Apart search (v :: path)) (hh : Sighted [v] h)
    (hf : h.method.isHiddenOverrideFatal = true) :
    search.callback = none ∨ ∀ h', Sighted path h' → h'.method ≠ h.method := by
  refine hapart.imp_right ?_
  rintro honce h' ⟨w, hw, hh'⟩
  exact (List.pairwise_cons.1 honce).1 w hw h hh hf h' ⟨w, List.mem_singleton_self w, hh'⟩

lemma Apart.sublist {q : List (Visit P)} (h : Apart search path) (hq : q.Sublist path) : Apart search q :=
  h.imp_right fun honce => List.Pairwise.sublist hq honce

/-- A method that is kept is delivered at once, or when the rest of the way is passed in silence. -/
lemma kept_decides (st : SearchState P) (hresult : st.result = some h)
    (hpending : h.method.isHiddenOverrideFatal = true → Silent search g (some h.method) st path r)
    (hreturned : h.method.isHiddenOverrideFatal = false → r = (.found h.method, st)) :
    Decides (h.method.isHiddenOverrideFatal = true →
        search.callback = none ∨ ∀ h', Sighted path h' → h'.method ≠ h.method)
      (Delivered K r) (Stands search g h path st.mode) := by
  unfold Stands
  cases hf : h.method.isHiddenOverrideFatal with
  | false =>
    rw [hreturned hf]
    exact ⟨fun hmet => ⟨hmet, h, hresult, rfl⟩, fun _ hdelivered => hdelivered.1⟩
  | true =>
    have hr := hpending hf
    simp only [if_true, forall_const]
    unfold Silent at hr
    constructor
    · rintro ⟨mode, hsilence, hmet⟩
      rw [hsilence] at hr
      simp only at hr
      rw [hr]
      exact ⟨hmet, h, hresult, rfl⟩
    · intro hapart hdelivered
      cases hsilence : silence search g st.mode path with
      | passed mode =>
        rw [hsilence] at hr
        simp only at hr
        rw [hr] at hdelivered
        exact ⟨mode, rfl, hdelivered.1⟩
      | ended =>
        rw [hsilence] at hr
        obtain ⟨o, st'⟩ := r
        obtain ⟨rfl, -⟩ := hr
        exact hdelivered.elim
      | touched =>
        rw [hsilence] at hr
        simp only at hr
        cases hr with
        | null => exact hdelivered.elim
        | fail hfound => cases hfound
        | @found st' h' m hfound hcb hs hresult' =>
          obtain rfl := hfound h.method rfl
          obtain ⟨-, h'', hresult'', hmethod⟩ := hdelivered
          obtain rfl : h' = h'' := Option.some.inj (hresult'.symm.trans hresult'')
          rcases hapart with hnone | hapart
          · exact absurd hnone (hcb (by simp))
          · exact absurd hmethod (hapart h' hs)

/-- A fatal hidden override stays pending when the mixins are merged with the superclass. -/
lemma mergeMethod_pending {p q : List (Visit P)} {m : Method}
    {k : Option Method → SearchState P → Outcome × SearchState P} (hm : Underway st.mode)
    (hf : m.isHiddenOverrideFatal = true) (hr : Silent search g (some m) st p r)
    (hk : ∀ found st, Underway st.mode → Silent search g found st q (k found st)) :
    Silent search g (some m) st (p ++ q) (mergeMethod none r k) := by
  have hp : p ⊆ p ++ q := List.subset_append_left p q
  have hq : q ⊆ p ++ q := List.subset_append_right p q
  have hmerge : ∀ st', mergeMethod none (.found m, st') k = k (some m) st' := fun st' => by simp [mergeMethod, hf]
  unfold Silent at hr
  cases hsilence : silence search g st.mode p with
  | passed mode =>
    simp only [hsilence] at hr
    rw [hr, Outcome.ofFound, hmerge]
    exact (hk (some m) { st with mode := mode } (silence_underway hm hsilence)).after hsilence
  | ended =>
    unfold Silent
    rw [silence_append]
    simp only [hsilence] at hr ⊢
    obtain ⟨o, st'⟩ := r
    obtain ⟨rfl, hr⟩ := hr
    exact ⟨rfl, hr⟩
  | touched =>
    unfold Silent
    rw [silence_append]
    simp only [hsilence] at hr ⊢
    cases hr with
    | null hwritten => exact .null (hwritten.imp_left (Exists.imp fun h hh => ⟨hh.1.mono hp, hh.2⟩))
    | fail hfound => cases hfound
    | @found st' h m' hfound hcb hs hresult hm' herror =>
      obtain rfl := hfound m rfl
      rw [hmerge]
      exact (hk (some m) st' hm').touched hm' hs hresult hp hq (fun _ h => h) (fun _ => hcb (by simp)) herror

end Delivered

/-! ## The loop over the method lists -/

section Loop

variable {search : SearchArguments P} {K : InternalMode → List (Report P) → Prop} {condition : Prop}
  {k : Option Method → ℕ → SearchState P → Outcome × SearchState P} {inheritance i : ℕ} {st : SearchState P}

/-- The frame from a method on that is kept. -/
def keptLoop (search : SearchArguments P) (k : Option Method → ℕ → SearchState P → Outcome × SearchState P)
    (h : Hit P) (more : List (Hit P)) (i : ℕ) (st : SearchState P) : Outcome × SearchState P :=
  if h.method.isHiddenOverrideFatal then (countHits search more (some h.method) i st).andThen k
  else (.found h.method, st)

lemma countHits_second {hits : List (Hit P)} (hquiet : quietly search st.mode hits = none) (m : Method) :
    ∃ st', countHits search hits (some m) i st = .ret .null st' := by
  induction hits generalizing st with
  | nil => cases hquiet
  | cons hit rest ih =>
    rw [quietly] at hquiet
    rw [countHits]
    by_cases hp : st.mode = .previousMethod ∧ isPreviousMethod search hit.method = true
    · rw [if_pos hp] at hquiet ⊢
      exact ih hquiet
    · rw [if_neg hp]
      exact ⟨_, rfl⟩

lemma keptLoop_eq (search : SearchArguments P)
    (k : Option Method → ℕ → SearchState P → Outcome × SearchState P) (i : ℕ) (st : SearchState P) (h : Hit P)
    (more : List (Hit P)) :
    match endMode search h st.mode more with
    | none => ∃ st', keptLoop search k h more i st = (.null, st')
    | some mode => keptLoop search k h more i st =
        if h.method.isHiddenOverrideFatal then k (some h.method) i { st with mode := mode }
        else (.found h.method, { st with mode := mode }) := by
  unfold endMode keptLoop
  cases hf : h.method.isHiddenOverrideFatal with
  | false => rfl
  | true =>
    simp only [if_true]
    cases hquiet : quietly search st.mode more with
    | none =>
      obtain ⟨st', hloop⟩ := countHits_second (i := i) hquiet h.method
      exact ⟨st', by rw [hloop]; rfl⟩
    | some mode =>
      simp only
      rw [countHits_quietly hquiet]
      rfl

lemma endMode_underway {h : Hit P} {more : List (Hit P)} {mode mode' : InternalMode} (hm : Underway mode)
    (hend : endMode search h mode more = some mode') : Underway mode' := by
  unfold endMode at hend
  split at hend
  · exact quietly_active hm hend
  · cases hend
    exact hm

/-- What becomes of a method that counts, by what the callback says to it. -/
lemma countMethod_word (search : SearchArguments P) (h : Hit P) (i : ℕ) (st : SearchState P) :
    match word search (tell search ⟨h.cls, i, some h⟩ st.reports) with
    | .keep => countMethod search h.cls none i h.list h.method st =
        keepMethod i h.method { st with result := some h, reports := tell search ⟨h.cls, i, some h⟩ st.reports }
    | .pass => countMethod search h.cls none i h.list h.method st =
        .next none i { st with result := some h, reports := tell search ⟨h.cls, i, some h⟩ st.reports }
    | .bar => countMethod search h.cls none i h.list h.method st =
        .next none (i ||| dontInheritSuperclass)
          { st with result := some h, reports := tell search ⟨h.cls, i, some h⟩ st.reports }
    | .giveUp => ∃ st', countMethod search h.cls none i h.list h.method st = .ret .null st' := by
  unfold countMethod word tell
  simp only [Option.isSome_none, Bool.false_eq_true, if_false]
  cases search.callback with
  | none => rfl
  | some f =>
    simp only
    cases f (⟨h.cls, i, some h⟩ :: st.reports) with
    | ok => rfl
    | done => rfl
    | dontDescend => rfl
    | cancel => exact ⟨_, rfl⟩
    | error errno => exact ⟨_, rfl⟩

/-- **The loop**, with the rest of the search as `C` takes it up. -/
lemma countHits_delivers (inheritance : ℕ) {C : Outcome × SearchState P → Outcome × SearchState P}
    {kept : Hit P → ℕ → InternalMode → List (Report P) → List (Hit P) → Prop}
    {next : ℕ → InternalMode → List (Report P) → Prop} {hits : List (Hit P)}
    (hnull : ∀ st, ¬ Delivered K (C (.null, st)))
    (hnext : ∀ i st, i = inheritance ∨ i = inheritance ||| dontInheritSuperclass → Underway st.mode →
      Decides condition (Delivered K (C (k none i st))) (next i st.mode st.reports))
    (hkept : ∀ h ∈ hits, ∀ i st more, i = inheritance ∨ i = inheritance ||| dontInheritSuperclass →
      Underway st.mode → st.result = some h →
      Decides condition (Delivered K (C (keptLoop search k h more i st))) (kept h i st.mode st.reports more))
    (hi : i = inheritance ∨ i = inheritance ||| dontInheritSuperclass) (hm : Underway st.mode) :
    Decides condition (Delivered K (C ((countHits search hits none i st).andThen k)))
      (loopDelivers search kept next hits i st.mode st.reports) := by
  induction hits generalizing i st with
  | nil => exact hnext i st hi hm
  | cons h more ih =>
    have ih : ∀ i st, i = inheritance ∨ i = inheritance ||| dontInheritSuperclass → Underway st.mode →
        Decides condition (Delivered K (C ((countHits search more none i st).andThen k)))
          (loopDelivers search kept next more i st.mode st.reports) :=
      fun i st hi hm => ih (fun h hh => hkept h (List.mem_cons_of_mem _ hh)) hi hm
    rw [loopDelivers, countHits]
    by_cases hp : st.mode = .previousMethod ∧ isPreviousMethod search h.method = true
    · rw [if_pos hp, if_pos hp]
      exact ih i { st with mode := .previousMethod2 } hi (Or.inl (Or.inl .previousMethod2))
    · rw [if_neg hp, if_neg hp]
      have hcount := countMethod_word search h i st
      simp only
      cases hword : word search (tell search ⟨h.cls, i, some h⟩ st.reports) with
      | keep =>
        rw [hword] at hcount
        simp only at hcount ⊢
        have hkeep := hkept h List.mem_cons_self i
          { st with result := some h, reports := tell search ⟨h.cls, i, some h⟩ st.reports } more hi hm rfl
        rw [hcount, keepMethod]
        unfold keptLoop at hkeep
        cases hf : h.method.isHiddenOverrideFatal with
        | true =>
          rw [hf] at hkeep
          exact hkeep
        | false =>
          rw [hf] at hkeep
          exact hkeep
      | pass =>
        rw [hword] at hcount
        simp only at hcount ⊢
        rw [hcount]
        exact ih i { st with result := some h, reports := _ } hi hm
      | bar =>
        rw [hword] at hcount
        simp only at hcount ⊢
        rw [hcount]
        refine ih _ { st with result := some h, reports := _ } ?_ hm
        rcases hi with rfl | rfl
        · exact Or.inr rfl
        · exact Or.inr (by rw [Nat.or_assoc, Nat.or_self])
      | giveUp =>
        rw [hword] at hcount
        obtain ⟨st', hcount⟩ := hcount
        rw [hcount]
        exact .never (hnull st')

end Loop

/-! ## The mixins -/

section Mixins

variable [DecidableEq P] {search : SearchArguments P} {g : ClassGraph P} {frame : Frame P} {cls : ClassRef P}
  {K : InternalMode → List (Report P) → Prop} {condition : Prop} {i : ℕ} {st : SearchState P}

omit [DecidableEq P] in
/-- What becomes of the method of a mixin, by what the callback says to it the second time. -/
lemma afterMixin_word (search : SearchArguments P) (cls : ClassRef P) (i : ℕ)
    (k : Option Method → SearchState P → Outcome × SearchState P) {h : Hit P} (hresult : st.result = some h) :
    match word search (tell search ⟨cls, i, some h⟩ st.reports) with
    | .keep => afterMixin search cls i none h.method st k =
        if h.method.isHiddenOverrideFatal then
          k (some h.method) { st with reports := tell search ⟨cls, i, some h⟩ st.reports }
        else (.found h.method, { st with reports := tell search ⟨cls, i, some h⟩ st.reports })
    | .pass => afterMixin search cls i none h.method st k =
        k none { st with reports := tell search ⟨cls, i, some h⟩ st.reports }
    | .bar => afterMixin search cls i none h.method st k =
        k none { st with reports := tell search ⟨cls, i, some h⟩ st.reports }
    | .giveUp => ∃ st', afterMixin search cls i none h.method st k = (.null, st') := by
  obtain ⟨mode, error, result, reports⟩ := st
  simp only at hresult
  subst hresult
  unfold afterMixin word tell
  simp only [Option.isSome_none, Bool.false_eq_true, if_false]
  cases search.callback with
  | none => rfl
  | some f =>
    simp only
    cases f (⟨cls, i, some h⟩ :: reports) with
    | ok => rfl
    | done => rfl
    | dontDescend => rfl
    | cancel => exact ⟨_, rfl⟩
    | error errno => exact ⟨_, rfl⟩

omit [DecidableEq P] in
/-- **After a mixin** whose method is kept, with `cont` for the other mixins and `k` for the superclass. -/
lemma afterMixin_delivers (st : SearchState P) {p q : List (Visit P)} {cont k : Option Method → SearchState P → Outcome × SearchState P}
    {again : InternalMode → List (Report P) → Prop} {h : Hit P}
    (hcont : ∀ found st, Underway st.mode → Silent search g found st p (cont found st))
    (hk : ∀ found st, Underway st.mode → Silent search g found st q (k found st))
    (hagain : ∀ st, Underway st.mode →
      Decides condition (Delivered K (mergeMethod none (cont none st) k)) (again st.mode st.reports))
    (hapart : condition → h.method.isHiddenOverrideFatal = true →
      search.callback = none ∨ ∀ h', Sighted (p ++ q) h' → h'.method ≠ h.method)
    (hm : Underway st.mode) (hresult : st.result = some h) :
    Decides condition (Delivered K (mergeMethod none (afterMixin search cls i none h.method st cont) k))
      (match word search (tell search ⟨cls, i, some h⟩ st.reports) with
      | .keep => Stands search g h (p ++ q) st.mode
      | .pass => again st.mode (tell search ⟨cls, i, some h⟩ st.reports)
      | .bar => again st.mode (tell search ⟨cls, i, some h⟩ st.reports)
      | .giveUp => False) := by
  have hword := afterMixin_word search cls i cont hresult
  cases hw : word search (tell search ⟨cls, i, some h⟩ st.reports) with
  | keep =>
    rw [hw] at hword
    simp only at hword ⊢
    rw [hword]
    have hkept : ∀ reports, Decides condition (Delivered K (mergeMethod none
        (if h.method.isHiddenOverrideFatal then cont (some h.method) { st with reports := reports }
          else (.found h.method, { st with reports := reports })) k)) (Stands search g h (p ++ q) st.mode) := by
      intro reports
      refine (kept_decides { st with reports := reports } hresult (fun hf => ?_) fun hf => ?_).mono hapart
      · rw [if_pos hf]
        exact mergeMethod_pending hm hf (hcont _ _ hm) hk
      · simp [mergeMethod, hf]
    exact hkept _
  | pass =>
    rw [hw] at hword
    simp only at hword ⊢
    rw [hword]
    exact hagain _ hm
  | bar =>
    rw [hw] at hword
    simp only at hword ⊢
    rw [hword]
    exact hagain _ hm
  | giveUp =>
    rw [hw] at hword
    obtain ⟨st', hword⟩ := hword
    rw [hword]
    exact .never not_delivered_null

/-- A mixin is searched by itself. -/
def OwnFrames (search : SearchArguments P) (g : ClassGraph P) (frame : Frame P) (cls : ClassRef P) (i : ℕ) : Prop :=
  ∀ proto st, Underway st.mode →
    match entry search g st.mode (ownVisit g (mixinRef cls proto) (i ||| g.inheritance (mixinRef cls proto))) with
    | none => ∃ st', frame (mixinRef cls proto) (i ||| g.inheritance (mixinRef cls proto)) st = (.null, st')
    | some (mode, hits) => frame (mixinRef cls proto) (i ||| g.inheritance (mixinRef cls proto)) st =
        (countHits search hits none (i ||| g.inheritance (mixinRef cls proto)) { st with mode := mode }).andThen
          fun found _ st => (.ofFound found, st)

/-- **The mixins**, merged with the superclass `k`, whose visits are `path`. -/
lemma searchMixins_delivers {path : List (Visit P)} {k : Option Method → SearchState P → Outcome × SearchState P}
    {next : InternalMode → List (Report P) → Prop} (hown : OwnFrames search g frame cls i)
    (hsilent : ∀ proto st, Underway st.mode →
      Silent search g none st [ownVisit g (mixinRef cls proto) (i ||| g.inheritance (mixinRef cls proto))]
        (frame (mixinRef cls proto) (i ||| g.inheritance (mixinRef cls proto)) st))
    (hk : ∀ found st, Underway st.mode → Silent search g found st path (k found st))
    (hnext : ∀ st, Underway st.mode → Decides condition (Delivered K (k none st)) (next st.mode st.reports))
    {mixins : List P} (hapart : condition → Apart search (mixinPath g cls i mixins ++ path)) (hm : Underway st.mode) :
    Decides condition (Delivered K (mergeMethod none (searchMixins g search frame cls i mixins none st) k))
      (mixinsDeliver search g cls i path next mixins st.mode st.reports) := by
  induction mixins generalizing st with
  | nil => exact hnext st hm
  | cons proto rest ih =>
    rw [searchMixins_merge, mixinsDeliver]
    by_cases hp : proto = cls.pair
    · rw [if_pos hp, if_pos hp]
      refine ih (fun hc => ?_) hm
      have := hapart hc
      unfold mixinPath at this
      rwa [List.filter_cons_of_neg (by simp [hp])] at this
    · rw [if_neg hp, if_neg hp]
      set visit := ownVisit g (mixinRef cls proto) (i ||| g.inheritance (mixinRef cls proto)) with hvisit
      have hpath : mixinPath g cls i (proto :: rest) = visit :: mixinPath g cls i rest := by
        unfold mixinPath
        rw [List.filter_cons_of_pos (by simpa using hp), List.map_cons]
      have ih : ∀ st, Underway st.mode →
          Decides condition (Delivered K (mergeMethod none (searchMixins g search frame cls i rest none st) k))
            (mixinsDeliver search g cls i path next rest st.mode st.reports) :=
        fun st hm => ih (fun hc => (hpath ▸ hapart hc).sublist (List.sublist_cons_self _ _)) hm
      have hframe := hown proto st hm
      simp only
      rw [← hvisit] at hframe ⊢
      cases hentry : entry search g st.mode visit with
      | none =>
        rw [hentry] at hframe
        obtain ⟨st', hframe⟩ := hframe
        rw [hframe]
        exact .never not_delivered_null
      | some e =>
        obtain ⟨mode, hits⟩ := e
        rw [hentry] at hframe
        simp only at hframe ⊢
        rw [hframe]
        have hmode := (entry_active hm hentry).1
        have hsighted := entry_sighted hentry
        refine countHits_delivers (i ||| g.inheritance (mixinRef cls proto))
          (C := fun r => mergeMethod none (mergeMixin search cls i none r fun found st =>
            searchMixins g search frame cls i rest found st) k)
          (fun _ => not_delivered_null) (fun _ st _ hm => ih st hm) ?_ (Or.inl rfl) hmode
        intro h hh j st more _ hm hresult
        have hloop := keptLoop_eq search (fun found _ st => (Outcome.ofFound found, st)) j st h more
        cases hend : endMode search h st.mode more with
        | none =>
          rw [hend] at hloop
          obtain ⟨st', hloop⟩ := hloop
          rw [hloop]
          exact .never not_delivered_null
        | some mode =>
          rw [hend] at hloop
          simp only [Outcome.ofFound, ite_self] at hloop ⊢
          rw [hloop]
          exact afterMixin_delivers { st with mode := mode }
            (fun found st hm => searchMixins_silent hsilent rest hm) hk ih
            (fun hc hf => (hpath ▸ hapart hc).later (hsighted h hh).2 hf) (endMode_underway hm hend) hresult

end Mixins

/-! ## The frames -/

section Frames

variable [DecidableEq P] {search : SearchArguments P} {g : ClassGraph P} {frame : Frame P} {cls : ClassRef P}
  {K : InternalMode → List (Report P) → Prop} {onward : ClassRef P → ℕ → InternalMode → List (Report P) → Prop}
  {condition : Prop} {inheritance : ℕ} {st : SearchState P}

/-- The frames a class object's frame goes on to deliver as they should. -/
structure NextDelivers (search : SearchArguments P) (g : ClassGraph P) (frame : Frame P)
    (K : InternalMode → List (Report P) → Prop) (onward : ClassRef P → ℕ → InternalMode → List (Report P) → Prop)
    (condition : Prop) (cls : ClassRef P) (inheritance : ℕ) : Prop where
  silent : NextSilent search g frame cls inheritance
  own : has inheritance dontInheritProtocols = false → OwnFrames search g frame cls (mixinFlags inheritance)
  super : ∀ supercls, g.superclass cls = some supercls → has inheritance dontInheritSuperclass = false →
    ∀ st, Underway st.mode →
      Decides condition (Delivered K (frame supercls (searchInheritance g cls supercls inheritance) st))
        (onward supercls (searchInheritance g cls supercls inheritance) st.mode st.reports)

lemma searchSuperclass_delivers (hnext : NextDelivers search g frame K onward condition cls inheritance)
    (hm : Underway st.mode) :
    Decides condition (Delivered K (searchSuperclass g frame cls none inheritance st))
      (match g.superclass cls with
      | none => K st.mode st.reports
      | some supercls =>
        if has inheritance dontInheritSuperclass then K st.mode st.reports
        else onward supercls (searchInheritance g cls supercls inheritance) st.mode st.reports) := by
  unfold searchSuperclass
  cases hs : g.superclass cls with
  | none => exact ⟨id, fun _ => id⟩
  | some supercls =>
    simp only
    cases hi : has inheritance dontInheritSuperclass with
    | true => exact ⟨id, fun _ => id⟩
    | false =>
      simp only [Bool.false_eq_true, if_false]
      rw [mergeMethod_none]
      exact hnext.super supercls hs hi st hm

lemma nextClass_delivers (hnext : NextDelivers search g frame K onward condition cls inheritance)
    (hapart : condition → Apart search (mixinVisits g cls inheritance ++ superVisits g cls inheritance))
    (hm : Underway st.mode) :
    Decides condition (Delivered K (nextClass g search frame cls none inheritance st))
      (restDelivers search g K onward cls inheritance st.mode st.reports) := by
  unfold restDelivers
  rcases nextClass_cases search g frame cls none inheritance st with ⟨hno, heq⟩ | ⟨hp, hmixin, heq⟩
  · rw [heq, if_pos hno]
    exact searchSuperclass_delivers hnext hm
  · have hpath : mixinPath g cls (mixinFlags inheritance) (g.pair cls.pair).mixins.reverse =
        mixinVisits g cls inheritance := (mixinVisits_eq hp hmixin).symm
    rw [heq, if_neg (by simp [hp, hmixin])]
    exact searchMixins_delivers (hnext.own hp) (hnext.silent.mixin hp)
      (fun found st hm => searchSuperclass_silent hnext.silent hm) (fun st hm => searchSuperclass_delivers hnext hm)
      (fun hc => hpath ▸ hapart hc) hm

/-- **One frame.** -/
lemma searchFrame_delivers (hnext : ∀ i, i = inheritance ∨ i = inheritance ||| dontInheritSuperclass →
      NextDelivers search g frame K onward condition cls i)
    (hapart : condition → Apart search (linearization g cls inheritance)) (hm : Underway st.mode) :
    Decides condition (Delivered K (searchFrame g search frame cls inheritance st))
      (frameDelivers search g K onward cls inheritance st.mode st.reports) := by
  have hframe := searchFrame_eq search g frame cls inheritance st hm
  rw [frameDelivers]
  rw [linearization_visits] at hapart
  cases hentry : entry search g st.mode (ownVisit g cls inheritance) with
  | none =>
    rw [hentry] at hframe
    obtain ⟨st', hframe, -⟩ := hframe
    rw [hframe]
    exact .never not_delivered_null
  | some e =>
    obtain ⟨mode, hits⟩ := e
    rw [hentry] at hframe
    simp only at hframe ⊢
    rw [hframe]
    have hapart : ∀ {i}, i = inheritance ∨ i = inheritance ||| dontInheritSuperclass → condition →
        Apart search (ownVisit g cls inheritance :: (mixinVisits g cls i ++ superVisits g cls i)) :=
      fun hi hc => (hapart hc).sublist ((restVisits_sublist hi).cons_cons _)
    refine countHits_delivers inheritance (C := id) (fun _ => not_delivered_null) (fun i st hi hm => ?_) ?_ (Or.inl rfl)
      (entry_active hm hentry).1
    · exact nextClass_delivers (hnext i hi) (fun hc => (hapart hi hc).sublist (List.sublist_cons_self _ _)) hm
    · intro h hh i st more hi hm hresult
      have hloop := keptLoop_eq search (nextClass g search frame cls) i st h more
      cases hend : endMode search h st.mode more with
      | none =>
        rw [hend] at hloop
        obtain ⟨st', hloop⟩ := hloop
        rw [hloop]
        exact .never not_delivered_null
      | some mode =>
        rw [hend] at hloop
        simp only at hloop ⊢
        rw [hloop]
        refine (kept_decides { st with mode := mode } hresult (fun hf => ?_) fun hf => ?_).mono ?_
        · simp only [hf, if_true]
          exact nextClass_silent (hnext i hi).silent (endMode_underway hm hend)
        · simp [hf]
        · exact fun hc hf => (hapart hi hc).later (entry_sighted hentry h hh).2 hf

end Frames

/-! ## The recursion -/

section Recursion

variable [DecidableEq P] {search : SearchArguments P} {g : ClassGraph P} {cls : ClassRef P}
  {K : InternalMode → List (Report P) → Prop} {inheritance fuel n : ℕ} {st : SearchState P}

/-- A search that may go on neither to mixins nor to a superclass is the loop of its class object. -/
lemma searchMethodInternal_own (hm : Underway st.mode) (hp : has inheritance dontInheritProtocols = true)
    (hs : has inheritance dontInheritSuperclass = true) :
    match entry search g st.mode (ownVisit g cls inheritance) with
    | none => ∃ st', searchMethodInternal search g (fuel + 1) cls inheritance st = (.null, st')
    | some (mode, hits) => searchMethodInternal search g (fuel + 1) cls inheritance st =
        (countHits search hits none inheritance { st with mode := mode }).andThen
          fun found _ st => (.ofFound found, st) := by
  have hframe := searchFrame_eq search g (searchMethodInternal search g fuel) cls inheritance st hm
  rw [searchMethodInternal]
  cases hentry : entry search g st.mode (ownVisit g cls inheritance) with
  | none =>
    rw [hentry] at hframe
    obtain ⟨st', hframe, -⟩ := hframe
    exact ⟨st', hframe⟩
  | some e =>
    obtain ⟨mode, hits⟩ := e
    rw [hentry] at hframe
    simp only at hframe ⊢
    rw [hframe]
    cases hloop : countHits search hits none inheritance { st with mode := mode } with
    | ret o st' => rfl
    | next found i st' =>
      have hi : i = inheritance ∨ i = inheritance ||| dontInheritSuperclass := by
        cases hits with
        | nil =>
          cases hloop
          exact Or.inl rfl
        | cons h more => exact (countHits_next ((entry_active hm hentry).2 (by simp)) hloop).2.1
      have hpi : has i dontInheritProtocols = true := by rcases hi with rfl | rfl <;> simp [has_or, hp]
      have hsi : has i dontInheritSuperclass = true := by rcases hi with rfl | rfl <;> simp [has_or, hs]
      have hlast : nextClass g search (searchMethodInternal search g fuel) cls found i st' = (.ofFound found, st') := by
        rw [nextClass, if_pos hpi, searchSuperclass]
        cases g.superclass cls with
        | none => rfl
        | some supercls => exact if_pos hsi
      exact hlast

/-- **The recursive search** delivers as it should. -/
theorem searchMethodInternal_delivers {condition : Prop} (hfuel : g.rank cls + 2 ≤ fuel) (hn : g.rank cls < n)
    (hapart : condition → Apart search (linearization g cls inheritance)) (hm : Underway st.mode) :
    Decides condition (Delivered K (searchMethodInternal search g fuel cls inheritance st))
      (deliversTo search g K n cls inheritance st.mode st.reports) := by
  induction n generalizing fuel cls inheritance st with
  | zero => omega
  | succ n ih =>
    obtain ⟨fuel, rfl⟩ : ∃ k, fuel = k + 2 := ⟨fuel - 2, by omega⟩
    refine searchFrame_delivers (fun i hi => ⟨?_, fun _ proto st hm => ?_, fun supercls hs hsuper st hm => ?_⟩) hapart hm
    · exact nextSilent_internal (by omega)
    · exact searchMethodInternal_own hm (has_mixinFlags_protocols i _) (has_mixinFlags_superclass i _)
    · have := ClassGraph.rank_superclass hs
      refine ih (by omega) (by omega) (fun hc => ?_) hm
      have hvisits : superVisits g cls i = linearization g supercls (searchInheritance g cls supercls i) := by
        rw [linearization_searchInheritance hs, superVisits, hs]
        simp [hsuper]
      refine (hapart hc).sublist ?_
      rw [linearization_visits g cls inheritance, ← hvisits]
      exact ((List.sublist_append_right _ _).trans (restVisits_sublist hi)).cons _

end Recursion

end MulleObjcRuntime.Search
