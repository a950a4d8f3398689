import Mathlib.Data.List.Basic
import Mathlib.Data.List.Induction
import Mathlib.Tactic.Common

/-!
# Chains that restart behind an anchor

A list of entries, each with a key, some of them hits.  From a hit the chain goes on to the first hit with another
key behind the *first* entry with its key, as long as the key is usable.

* `after key k E` — what follows the first entry with key `k`;
* `candidates` — the hits with another key in there;
* `chain` — the chain, from the first hit on;
* `chain_injective_iff` — no hit comes up twice, and the chain ends, exactly when no hit the chain gets to has a
  hit with another key between the first entry with its key and itself;
* `Direct.chain_eq`, `direct_of_chain_eq` — the chain comes upon all hits in their order, exactly when nothing up to an
  earlier hit has the key of a hit.
-/

namespace MulleObjcRuntime.Lib.AnchoredChain

variable {ε κ η : Type} [DecidableEq κ]

section Defs

variable (key : ε → κ) (hit : ε → Option η) (keyOf : η → κ) (usable : κ → Bool) (start : Bool)

/-- The entries behind the first one with key `k`. -/
def after (k : κ) : List ε → List ε
  | [] => []
  | e :: E => if key e = k then E else after k E

/-- The hits with another key behind the first entry with key `k`. -/
def candidates (k : κ) (E : List ε) : List η := ((after key k E).filter fun e => key e ≠ k).filterMap hit

/-- The chain: the first hit, then from each hit the first candidate of its key. -/
def chain (E : List ε) : ℕ → Option η
  | 0 => if start then (E.filterMap hit).head? else none
  | n + 1 => (chain E n).bind fun h =>
      if usable (keyOf h) then (candidates key hit (keyOf h) E).head? else none

/-- No hit the chain gets to lies behind a hit with another key and the first entry with its own key.  The chain
gets past the hits in `pre` when their keys are usable. -/
def Progressing (E : List ε) : Prop :=
  ∀ pre e post, E = pre ++ e :: post → (hit e).isSome = true →
    (∀ x ∈ pre, (hit x).isSome = true → usable (key x) = true) → usable (key e) = true →
      ∀ x ∈ after key (key e) pre, (hit x).isSome = true → key x = key e

end Defs

section After

variable {key : ε → κ} {hit : ε → Option η} {k : κ}

lemma mem_of_mem_after {e : ε} {E : List ε} (h : e ∈ after key k E) : e ∈ E := by
  induction E with
  | nil => exact h
  | cons x E ih =>
    rw [after] at h
    split at h
    · exact List.mem_cons_of_mem x h
    · exact List.mem_cons_of_mem x (ih h)

lemma after_append_cons {e : ε} (he : key e = k) (pre post : List ε) :
    ∃ mid, after key k (pre ++ e :: post) = after key k pre ++ mid ∧ (mid = e :: post ∨ mid = post) := by
  induction pre with
  | nil => exact ⟨post, by simp [after, he], Or.inr rfl⟩
  | cons x pre ih =>
    by_cases hx : key x = k
    · exact ⟨e :: post, by simp [after, hx], Or.inl rfl⟩
    · simpa [after, hx] using ih

lemma candidates_append_cons {e : ε} (he : key e = k) (pre post : List ε) :
    candidates key hit k (pre ++ e :: post) =
      candidates key hit k pre ++ (post.filter fun e => key e ≠ k).filterMap hit := by
  obtain ⟨mid, hmid, h⟩ := after_append_cons he pre post
  unfold candidates
  rw [hmid, List.filter_append, List.filterMap_append]
  rcases h with rfl | rfl
  · rw [List.filter_cons_of_neg (by simpa using he)]
  · rfl

lemma subset_after {e : ε} (he : key e = k) (pre mid : List ε) {x : ε} (hx : x ∈ mid) :
    x ∈ after key k (pre ++ e :: mid) := by
  obtain ⟨l, hl, h⟩ := after_append_cons he pre mid
  rw [hl]
  rcases h with rfl | rfl
  · exact List.mem_append_right _ (List.mem_cons_of_mem _ hx)
  · exact List.mem_append_right _ hx

lemma after_subset (k : κ) (E : List ε) {x : ε} (hx : x ∈ after key k E) : x ∈ E := by
  induction E with
  | nil => cases hx
  | cons e E ih =>
    unfold after at hx
    split at hx
    · exact List.mem_cons_of_mem _ hx
    · exact List.mem_cons_of_mem _ (ih hx)

lemma mem_candidates {E : List ε} {h : η} (hh : h ∈ candidates key hit k E) :
    ∃ x ∈ after key k E, key x ≠ k ∧ hit x = some h := by
  obtain ⟨x, hx, hxh⟩ := List.mem_filterMap.1 hh
  obtain ⟨hx1, hx2⟩ := List.mem_filter.1 hx
  exact ⟨x, hx1, by simpa using hx2, hxh⟩

lemma candidates_eq_nil {E : List ε} (h : ∀ x ∈ after key k E, (hit x).isSome = true → key x = k) :
    candidates key hit k E = [] := by
  rw [List.eq_nil_iff_forall_not_mem]
  intro a ha
  obtain ⟨x, hx, hk, hxa⟩ := mem_candidates ha
  exact hk (h x hx (by simp [hxa]))

lemma exists_of_head_filterMap {E : List ε} {h : η} (hh : (E.filterMap hit).head? = some h) :
    ∃ pre e post, E = pre ++ e :: post ∧ hit e = some h ∧ ∀ x ∈ pre, hit x = none := by
  induction E with
  | nil => cases hh
  | cons e E ih =>
    cases he : hit e with
    | some a =>
      rw [List.filterMap_cons_some he] at hh
      cases hh
      exact ⟨[], e, E, rfl, he, by simp⟩
    | none =>
      rw [List.filterMap_cons_none he] at hh
      obtain ⟨pre, e', post, rfl, he', hpre⟩ := ih hh
      exact ⟨e :: pre, e', post, rfl, he', by simpa [he] using hpre⟩

lemma exists_of_head_filter {E : List ε} {h : η}
    (hh : ((E.filter fun e => key e ≠ k).filterMap hit).head? = some h) :
    ∃ pre e post, E = pre ++ e :: post ∧ hit e = some h ∧ key e ≠ k ∧
      ∀ x ∈ pre, (hit x).isSome = true → key x = k := by
  rw [List.filterMap_filter] at hh
  obtain ⟨pre, e, post, hE, he, hpre⟩ := exists_of_head_filterMap hh
  have hk : key e ≠ k := fun hk => by simp [hk] at he
  refine ⟨pre, e, post, hE, by simpa [hk] using he, hk, fun x hx hsome => ?_⟩
  by_contra hxk
  have := hpre x hx
  simp only [ne_eq, hxk, not_false_eq_true, decide_true, if_true] at this
  rw [this] at hsome
  cases hsome

end After

/-! ## The chain -/

section Chain

variable {key : ε → κ} {hit : ε → Option η} {keyOf : η → κ} {usable : κ → Bool} {start : Bool} {E : List ε}

lemma chain_succ {n : ℕ} {h : η} (hn : chain key hit keyOf usable start E n = some h) :
    chain key hit keyOf usable start E (n + 1) =
      if usable (keyOf h) then (candidates key hit (keyOf h) E).head? else none := by
  rw [chain, hn]
  rfl

lemma chain_isSome_of_le {m n : ℕ} (hmn : m ≤ n)
    (hn : (chain key hit keyOf usable start E n).isSome = true) :
    (chain key hit keyOf usable start E m).isSome = true := by
  induction n with
  | zero =>
    obtain rfl : m = 0 := by omega
    exact hn
  | succ n ih =>
    rcases Nat.lt_or_eq_of_le hmn with h | rfl
    · refine ih (by omega) ?_
      rw [chain] at hn
      cases hc : chain key hit keyOf usable start E n with
      | none => simp [hc] at hn
      | some a => rfl
    · exact hn

/-- The chain stands at `e` after `n` steps, and has got past usable hits only. -/
structure At (key : ε → κ) (hit : ε → Option η) (keyOf : η → κ) (usable : κ → Bool) (start : Bool) (E : List ε)
    (n : ℕ) (pre : List ε) (e : ε) (post : List ε) : Prop where
  split : E = pre ++ e :: post
  here : ∃ h, hit e = some h ∧ chain key hit keyOf usable start E n = some h
  passed : ∀ x ∈ pre, (hit x).isSome = true → usable (key x) = true
  le : n ≤ pre.length

lemma at_zero {h : η} (h0 : chain key hit keyOf usable start E 0 = some h) :
    ∃ pre e post, At key hit keyOf usable start E 0 pre e post := by
  have hchain := h0
  unfold chain at h0
  split at h0
  · obtain ⟨pre, e, post, hE, he, hpre⟩ := exists_of_head_filterMap h0
    exact ⟨pre, e, post, hE, ⟨h, he, hchain⟩, fun x hx hs => by simp [hpre x hx] at hs, Nat.zero_le _⟩
  · cases h0

variable (hkey : ∀ e h, hit e = some h → keyOf h = key e)

include hkey

/-- One step of a progressing chain leads to a later entry with another key. -/
lemma at_succ (hp : Progressing key hit usable E) {n : ℕ} {pre : List ε} {e : ε} {post : List ε}
    (hat : At key hit keyOf usable start E n pre e post)
    (hsome : (chain key hit keyOf usable start E (n + 1)).isSome = true) :
    ∃ mid e' post', post = mid ++ e' :: post' ∧ key e' ≠ key e ∧
      At key hit keyOf usable start E (n + 1) (pre ++ e :: mid) e' post' := by
  obtain ⟨hE, ⟨h, he, hn⟩, hpassed, hle⟩ := hat
  obtain ⟨h', hn'⟩ := Option.isSome_iff_exists.1 hsome
  have hstep := hn'
  rw [chain_succ hn, hkey e h he] at hstep
  by_cases hu : usable (key e) = true
  · rw [if_pos hu] at hstep
    have hback := hp pre e post hE (by simp [he]) hpassed hu
    rw [hE, candidates_append_cons rfl, candidates_eq_nil hback, List.nil_append] at hstep
    obtain ⟨mid, e', post', rfl, he', hk, hmid⟩ := exists_of_head_filter hstep
    refine ⟨mid, e', post', rfl, hk, by simp [hE], ⟨h', he', hn'⟩, fun x hx hs => ?_, ?_⟩
    · rcases List.mem_append.1 hx with hx | hx
      · exact hpassed x hx hs
      · rcases List.mem_cons.1 hx with rfl | hx
        · exact hu
        · rw [hmid x hx hs]
          exact hu
    · rw [List.length_append, List.length_cons]
      omega
  · rw [if_neg hu] at hstep
    cases hstep

/-- Several steps of a progressing chain. -/
lemma at_add (hp : Progressing key hit usable E) {n : ℕ} {pre : List ε} {e : ε} {post : List ε}
    (hat : At key hit keyOf usable start E n pre e post) (m : ℕ)
    (hsome : (chain key hit keyOf usable start E (n + m + 1)).isSome = true) :
    ∃ mid e' post', post = mid ++ e' :: post' ∧
      At key hit keyOf usable start E (n + m + 1) (pre ++ e :: mid) e' post' ∧
      (key e' ≠ key e ∨ ∃ x ∈ mid, (hit x).isSome = true ∧ key x ≠ key e) := by
  induction m with
  | zero =>
    obtain ⟨mid, e', post', h1, h2, h3⟩ := at_succ hkey hp hat hsome
    exact ⟨mid, e', post', h1, h3, Or.inl h2⟩
  | succ m ih =>
    obtain ⟨mid, e', post', rfl, hat', hx⟩ := ih (chain_isSome_of_le (by omega) hsome)
    obtain ⟨mid', e'', post'', rfl, -, hat''⟩ := at_succ hkey hp hat' hsome
    refine ⟨mid ++ e' :: mid', e'', post'', by simp, ?_, Or.inr ?_⟩
    · rw [← Nat.add_assoc]
      simpa using hat''
    · rcases hx with hk | ⟨x, hx, hs, hk⟩
      · obtain ⟨h, he', -⟩ := hat'.here
        exact ⟨e', by simp, by simp [he'], hk⟩
      · exact ⟨x, by simp [hx], hs, hk⟩

lemma exists_at (start : Bool) (hp : Progressing key hit usable E) (n : ℕ)
    (hsome : (chain key hit keyOf usable start E n).isSome = true) :
    ∃ pre e post, At key hit keyOf usable start E n pre e post := by
  cases n with
  | zero =>
    obtain ⟨h, hh⟩ := Option.isSome_iff_exists.1 hsome
    exact at_zero hh
  | succ n =>
    obtain ⟨h, hh⟩ := Option.isSome_iff_exists.1 (chain_isSome_of_le (Nat.zero_le _) hsome)
    obtain ⟨pre, e, post, hat⟩ := at_zero hh
    obtain ⟨mid, e', post', -, hat', -⟩ := at_add hkey hp hat n (by simpa using hsome)
    rw [Nat.zero_add] at hat'
    exact ⟨_, _, _, hat'⟩

lemma chain_length_eq_none (hp : Progressing key hit usable E) :
    chain key hit keyOf usable start E E.length = none := by
  by_contra hne
  obtain ⟨pre, e, post, hat⟩ := exists_at hkey start hp E.length (Option.isSome_iff_ne_none.2 hne)
  have := hat.le
  rw [hat.split, List.length_append, List.length_cons] at this
  omega

/-- A progressing chain comes upon no hit twice. -/
lemma chain_ne_of_lt (hp : Progressing key hit usable E) {i j : ℕ} (hij : i < j) {h : η}
    (hi : chain key hit keyOf usable start E i = some h) : chain key hit keyOf usable start E j ≠ some h := by
  intro hj
  obtain ⟨m, rfl⟩ : ∃ m, j = i + m + 1 := ⟨j - i - 1, by omega⟩
  obtain ⟨pre, e, post, hat⟩ := exists_at hkey start hp i (Option.isSome_iff_exists.2 ⟨h, hi⟩)
  obtain ⟨mid, e', post', -, hat', hx⟩ := at_add hkey hp hat m (Option.isSome_iff_exists.2 ⟨h, hj⟩)
  obtain ⟨h1, he, hi'⟩ := hat.here
  obtain ⟨h2, he', hj'⟩ := hat'.here
  have hk : key e' = key e := by
    rw [hi] at hi'
    rw [hj] at hj'
    cases hi'
    cases hj'
    rw [← hkey e h he, ← hkey e' h he']
  rcases hx with hne | ⟨x, hx, hs, hne⟩
  · exact hne hk
  · -- `x` lies between the first entry with the key of `e` and `e'`
    have hu : usable (key e') = true := by
      rw [hk]
      exact hat'.passed e (by simp) (by simp [he])
    have := hp _ e' post' hat'.split (by simp [he']) hat'.passed hu x
      (subset_after hk.symm pre mid hx) hs
    exact hne (this.trans hk)

/-- What the chain has come upon when it is past the entries in `pre`: it stands at the last of them that has
another key than the one before, and has been at every key among them. -/
def Visited (key : ε → κ) (hit : ε → Option η) (keyOf : η → κ) (usable : κ → Bool) (start : Bool) (E : List ε)
    (pre : List ε) : Prop :=
  (∀ x ∈ pre, hit x = none) ∨
  ∃ n h p e q, pre = p ++ e :: q ∧ hit e = some h ∧ chain key hit keyOf usable start E n = some h ∧
    (∀ x ∈ q, (hit x).isSome = true → key x = key e) ∧
    ∀ x ∈ pre, (hit x).isSome = true →
      ∃ m ≤ n, ∃ h', chain key hit keyOf usable start E m = some h' ∧ keyOf h' = key x

lemma visited_cons (hstart : start = true) {pre post : List ε} {x : ε} (hE : E = pre ++ x :: post)
    (husable : ∀ y ∈ pre, (hit y).isSome = true → usable (key y) = true)
    (hback : ∀ p e q, pre = p ++ e :: q → (hit e).isSome = true →
      ∀ y ∈ after key (key e) p, (hit y).isSome = true → key y = key e)
    (hv : Visited key hit keyOf usable start E pre) : Visited key hit keyOf usable start E (pre ++ [x]) := by
  rcases hx : hit x with _ | hx'
  · -- an entry that is no hit changes nothing
    rcases hv with hnone | ⟨n, h, p, e, q, rfl, he, hn, hq, hall⟩
    · left
      intro y hy
      rcases List.mem_append.1 hy with hy | hy
      · exact hnone y hy
      · rw [List.mem_singleton.1 hy, hx]
    · right
      refine ⟨n, h, p, e, q ++ [x], by simp, he, hn, fun y hy hs => ?_, fun y hy hs => ?_⟩
      · rcases List.mem_append.1 hy with hy | hy
        · exact hq y hy hs
        · rw [List.mem_singleton.1 hy, hx] at hs
          cases hs
      · rcases List.mem_append.1 hy with hy | hy
        · exact hall y hy hs
        · rw [List.mem_singleton.1 hy, hx] at hs
          cases hs
  · right
    rcases hv with hnone | ⟨n, h, p, e, q, rfl, he, hn, hq, hall⟩
    · -- the first hit is where the chain starts
      have h0 : chain key hit keyOf usable start E 0 = some hx' := by
        rw [chain, if_pos hstart, hE, List.filterMap_append, List.filterMap_eq_nil_iff.2 hnone,
          List.nil_append, List.filterMap_cons_some hx]
        rfl
      refine ⟨0, hx', pre, x, [], rfl, hx, h0, by simp, fun y hy hs => ?_⟩
      rcases List.mem_append.1 hy with hy | hy
      · rw [hnone y hy] at hs
        cases hs
      · rw [List.mem_singleton.1 hy]
        exact ⟨0, Nat.le_refl _, hx', h0, hkey x hx' hx⟩
    · by_cases hk : key x = key e
      · refine ⟨n, h, p, e, q ++ [x], by simp, he, hn, fun y hy hs => ?_, fun y hy hs => ?_⟩
        · rcases List.mem_append.1 hy with hy | hy
          · exact hq y hy hs
          · rw [List.mem_singleton.1 hy, hk]
        · rcases List.mem_append.1 hy with hy | hy
          · exact hall y hy hs
          · rw [List.mem_singleton.1 hy, hk]
            exact ⟨n, Nat.le_refl _, h, hn, hkey e h he⟩
      · -- the chain goes on to `x`: nothing else with another key lies ahead of it
        have hu : usable (key e) = true := husable e (by simp) (by simp [he])
        have hq' : (q.filter fun y => key y ≠ key e).filterMap hit = [] := by
          rw [List.filterMap_eq_nil_iff]
          intro y hy
          obtain ⟨hy1, hy2⟩ := List.mem_filter.1 hy
          rcases hh : hit y with _ | a
          · rfl
          · exact absurd (hq y hy1 (by simp [hh])) (by simpa using hy2)
        have hn' : chain key hit keyOf usable start E (n + 1) = some hx' := by
          rw [chain_succ hn, hkey e h he, if_pos hu, hE, List.append_assoc, List.cons_append,
            candidates_append_cons rfl, candidates_eq_nil (hback p e q rfl (by simp [he])), List.nil_append,
            List.filter_append, List.filterMap_append, hq', List.nil_append,
            List.filter_cons_of_pos (by simpa using hk), List.filterMap_cons_some hx]
          rfl
        refine ⟨n + 1, hx', p ++ e :: q, x, [], rfl, hx, hn', by simp, fun y hy hs => ?_⟩
        rcases List.mem_append.1 hy with hy | hy
        · obtain ⟨m, hm, h'⟩ := hall y hy hs
          exact ⟨m, by omega, h'⟩
        · rw [List.mem_singleton.1 hy]
          exact ⟨n + 1, Nat.le_refl _, hx', hn', hkey x hx' hx⟩

lemma visited_of_progress (hstart : start = true) (pre : List ε) :
    ∀ post, E = pre ++ post → (∀ y ∈ pre, (hit y).isSome = true → usable (key y) = true) →
      (∀ p e q, pre = p ++ e :: q → (hit e).isSome = true →
        ∀ y ∈ after key (key e) p, (hit y).isSome = true → key y = key e) →
      Visited key hit keyOf usable start E pre := by
  induction pre using List.reverseRecOn with
  | nil => exact fun post _ _ _ => Or.inl (by simp)
  | append_singleton pre x ih =>
    intro post hE husable hback
    have hE' : E = pre ++ x :: post := by rw [hE, List.append_assoc]; rfl
    have husable' : ∀ y ∈ pre, (hit y).isSome = true → usable (key y) = true :=
      fun y hy => husable y (List.mem_append_left _ hy)
    have hback' : ∀ p e q, pre = p ++ e :: q → (hit e).isSome = true →
        ∀ y ∈ after key (key e) p, (hit y).isSome = true → key y = key e :=
      fun p e q hpre => hback p e (q ++ [x]) (by rw [hpre]; simp)
    exact visited_cons hkey hstart hE' husable' hback' (ih _ hE' husable' hback')

/-- A chain without repetition progresses. -/
lemma progressing_of_injective (hstart : start = true)
    (hinj : ∀ i j h, chain key hit keyOf usable start E i = some h →
      chain key hit keyOf usable start E j = some h → i = j) : Progressing key hit usable E := by
  intro pre
  -- the first place where the chain would lead back is behind places where it does not
  induction hlen : pre.length using Nat.strongRecOn generalizing pre with
  | _ len ih =>
    intro e post hE he husable hu x hx hs
    by_contra hne
    have hback : ∀ p e' q, pre = p ++ e' :: q → (hit e').isSome = true →
        ∀ y ∈ after key (key e') p, (hit y).isSome = true → key y = key e' := by
      intro p e' q hpre he'
      refine ih p.length ?_ p rfl e' (q ++ e :: post) ?_ he' ?_ ?_
      · rw [← hlen, hpre, List.length_append, List.length_cons]
        omega
      · rw [hE, hpre, List.append_assoc, List.cons_append]
      · exact fun y hy => husable y (by rw [hpre]; exact List.mem_append_left _ hy)
      · exact husable e' (by rw [hpre]; simp) he'
    have hvisited := visited_cons hkey hstart hE husable hback
      (visited_of_progress hkey hstart pre (e :: post) hE husable hback)
    rcases hvisited with hnone | ⟨n, h, p, e0, q, hsplit, he0, hn, hq, hall⟩
    · rw [hnone e (by simp)] at he
      cases he
    · -- the chain stands at the key of `e`
      have hk : key e = key e0 := by
        rcases List.eq_nil_or_concat q with rfl | ⟨q', y, rfl⟩
        · have := List.append_inj_right' hsplit rfl
          rw [(List.cons_eq_cons.1 this).1]
        · have : pre ++ [e] = (p ++ e0 :: q') ++ [y] := by rw [hsplit]; simp
          have hy : e = y := (List.cons_eq_cons.1 (List.append_inj_right' this rfl)).1
          exact hq e (by rw [hy]; simp) he
      have hcand : candidates key hit (key e) pre ≠ [] := by
        obtain ⟨a, ha⟩ := Option.isSome_iff_exists.1 hs
        refine List.ne_nil_of_mem (List.mem_filterMap.2 ⟨x, List.mem_filter.2 ⟨hx, ?_⟩, ha⟩)
        simpa using hne
      obtain ⟨h1, rest, hcons⟩ := List.exists_cons_of_ne_nil hcand
      have hn' : chain key hit keyOf usable start E (n + 1) = some h1 := by
        rw [chain_succ hn, hkey e0 h he0, ← hk, if_pos hu, hE, candidates_append_cons rfl, hcons]
        rfl
      -- and goes back to a key it has been at
      obtain ⟨x1, hx1, -, hx1h⟩ := mem_candidates (hcons ▸ List.mem_cons_self : h1 ∈ candidates key hit _ pre)
      obtain ⟨m, hm, h', hm', hkm⟩ := hall x1 (List.mem_append_left _ (after_subset _ _ hx1)) (by simp [hx1h])
      have heq : chain key hit keyOf usable start E (m + 1) = chain key hit keyOf usable start E (n + 2) := by
        rw [chain_succ hm', chain_succ hn', hkm, hkey x1 h1 hx1h]
      have hsome := chain_isSome_of_le (show m + 1 ≤ n + 1 by omega) (Option.isSome_iff_exists.2 ⟨h1, hn'⟩)
      obtain ⟨h2, hh2⟩ := Option.isSome_iff_exists.1 hsome
      have := hinj (m + 1) (n + 2) h2 hh2 (heq ▸ hh2)
      omega

/-- **No hit comes up twice and the chain ends, exactly when the chain progresses** or does not start. -/
theorem chain_injective_iff (usable : κ → Bool) (start : Bool) (E : List ε) :
    ((∀ i j h, chain key hit keyOf usable start E i = some h →
        chain key hit keyOf usable start E j = some h → i = j) ∧
      ∃ n, chain key hit keyOf usable start E n = none) ↔
    (start = true → Progressing key hit usable E) := by
  constructor
  · exact fun h hstart => progressing_of_injective hkey hstart h.1
  · intro h
    rcases hs : start with _ | _
    · have h0 : chain key hit keyOf usable false E 0 = none := rfl
      refine ⟨fun i j a hi _ => ?_, 0, h0⟩
      have := chain_isSome_of_le (Nat.zero_le i) (Option.isSome_iff_exists.2 ⟨a, hi⟩)
      rw [h0] at this
      cases this
    · have hp := h hs
      refine ⟨fun i j a hi hj => ?_, _, chain_length_eq_none hkey hp⟩
      rcases Nat.lt_trichotomy i j with hij | hij | hij
      · exact absurd hj (chain_ne_of_lt hkey hp hij hi)
      · exact hij
      · exact absurd hi (chain_ne_of_lt hkey hp hij hj)

end Chain

/-! ## Chains that come upon every hit -/

section Direct

variable {key : ε → κ} {hit : ε → Option η} {keyOf : η → κ} {usable : κ → Bool} {start : Bool} {E : List ε}

/-- Up to and including any hit before it, no entry has the key of a hit. -/
def Direct (key : ε → κ) (hit : ε → Option η) (E : List ε) : Prop :=
  ∀ pre e post, E = pre ++ e :: post → (hit e).isSome = true →
    ∀ a x b, pre = a ++ x :: b → (hit x).isSome = true → ∀ y ∈ a ++ [x], key y ≠ key e

lemma exists_before_of_mem_after {k : κ} {x : ε} (h : x ∈ after key k E) :
    ∃ a b, E = a ++ x :: b ∧ ∃ y ∈ a, key y = k := by
  induction E with
  | nil => cases h
  | cons e E ih =>
    unfold after at h
    split at h
    · next he =>
      obtain ⟨a, b, rfl⟩ := List.append_of_mem h
      exact ⟨e :: a, b, rfl, e, List.mem_cons_self, he⟩
    · obtain ⟨a, b, rfl, y, hy, hk⟩ := ih h
      exact ⟨e :: a, b, rfl, y, List.mem_cons_of_mem _ hy, hk⟩

lemma Direct.candidates_eq (h : Direct key hit E) {pre post : List ε} {e : ε} (hE : E = pre ++ e :: post)
    (he : (hit e).isSome = true) : candidates key hit (key e) E = post.filterMap hit := by
  have hpre : candidates key hit (key e) pre = [] := by
    apply candidates_eq_nil
    intro x hx hs
    obtain ⟨a, b, hsplit, y, hy, hk⟩ := exists_before_of_mem_after hx
    exact absurd hk (h pre e post hE he a x b hsplit hs y (List.mem_append_left _ hy))
  rw [hE, candidates_append_cons rfl, hpre, List.nil_append, List.filterMap_filter]
  refine List.filterMap_congr fun x hx => ?_
  cases hs : hit x with
  | none => simp
  | some a =>
    obtain ⟨p, q, rfl⟩ := List.append_of_mem hx
    have hne := h (pre ++ e :: p) x q (by rw [hE, List.append_assoc]; rfl) (by rw [hs]; rfl) pre e p rfl he e (by simp)
    simp [Ne.symm hne]

/-- Where a chain that is direct stands after some steps. -/
lemma exists_of_getElem_filterMap {n : ℕ} {a : η} (h : (E.filterMap hit)[n]? = some a) :
    ∃ pre e post, E = pre ++ e :: post ∧ hit e = some a ∧ (pre.filterMap hit).length = n := by
  induction E generalizing n with
  | nil => cases h
  | cons e E ih =>
    cases he : hit e with
    | none =>
      rw [List.filterMap_cons_none he] at h
      obtain ⟨pre, e', post, rfl, he', hlen⟩ := ih h
      exact ⟨e :: pre, e', post, rfl, he', by rw [List.filterMap_cons_none he, hlen]⟩
    | some b =>
      rw [List.filterMap_cons_some he] at h
      cases n with
      | zero =>
        obtain rfl : b = a := by simpa using h
        exact ⟨[], e, E, rfl, he, rfl⟩
      | succ n =>
        obtain ⟨pre, e', post, rfl, he', hlen⟩ := ih (by simpa using h)
        exact ⟨e :: pre, e', post, rfl, he', by rw [List.filterMap_cons_some he, List.length_cons, hlen]⟩

omit [DecidableEq κ] in
lemma direct_map {α : Type} (f : α → ε) (l : List α) :
    Direct key hit (l.map f) ↔ Direct (fun x => key (f x)) (fun x => hit (f x)) l := by
  constructor
  · rintro h pre e post rfl he a x b rfl hx y hy
    refine h _ (f e) (post.map f) (List.map_append ..) he (a.map f) (f x) (b.map f) (List.map_append ..) hx (f y) ?_
    rw [← List.map_singleton, ← List.map_append]
    exact List.mem_map_of_mem hy
  · rintro h pre e post hE he a x b rfl hx y hy
    obtain ⟨pre', rest, rfl, hpre, hrest⟩ := List.map_eq_append_iff.1 hE
    obtain ⟨e', post', rfl, rfl, rfl⟩ := List.map_eq_cons_iff.1 hrest
    obtain ⟨a', rest', rfl, rfl, hrest'⟩ := List.map_eq_append_iff.1 hpre
    obtain ⟨x', b', rfl, rfl, rfl⟩ := List.map_eq_cons_iff.1 hrest'
    rw [← List.map_singleton, ← List.map_append] at hy
    obtain ⟨y', hy', rfl⟩ := List.mem_map.1 hy
    exact h _ e' post' rfl he a' x' b' rfl hx y' hy'

variable (hkey : ∀ e h, hit e = some h → keyOf h = key e)

include hkey

lemma mem_candidates_of_lt {i j : ℕ} {a b : η} (hij : i < j) (hi : (E.filterMap hit)[i]? = some a)
    (hj : (E.filterMap hit)[j]? = some b) (hne : keyOf b ≠ keyOf a) : b ∈ candidates key hit (keyOf a) E := by
  obtain ⟨pre, e, post, rfl, he, hlen⟩ := exists_of_getElem_filterMap hi
  have hpost : b ∈ post.filterMap hit := by
    rw [List.filterMap_append, List.filterMap_cons_some he, List.getElem?_append_right (by omega),
      show j - (pre.filterMap hit).length = (j - i - 1) + 1 by omega, List.getElem?_cons_succ] at hj
    exact List.mem_of_getElem? hj
  obtain ⟨x, hx, hxb⟩ := List.mem_filterMap.1 hpost
  rw [candidates_append_cons (hkey e a he).symm]
  refine List.mem_append_right _ (List.mem_filterMap.2 ⟨x, List.mem_filter.2 ⟨hx, ?_⟩, hxb⟩)
  rw [← hkey x b hxb]
  simpa using hne

/-- **A direct chain comes upon all hits, in their order**, when it starts and can go on from each but the last. -/
theorem Direct.chain_eq (h : Direct key hit E) (hstart : E.filterMap hit ≠ [] → start = true)
    (husable : ∀ pre e post, E = pre ++ e :: post → (hit e).isSome = true → post.filterMap hit ≠ [] →
      usable (key e) = true) (n : ℕ) :
    chain key hit keyOf usable start E n = (E.filterMap hit)[n]? := by
  induction n with
  | zero =>
    rw [chain]
    split
    · rw [List.head?_eq_getElem?]
    · next hno =>
      have hnil : E.filterMap hit = [] := by
        by_contra hne
        exact hno (hstart hne)
      rw [hnil]
      rfl
  | succ n ih =>
    rw [chain, ih]
    cases hn : (E.filterMap hit)[n]? with
    | none =>
      rw [List.getElem?_eq_none_iff] at hn
      rw [Option.bind_none, List.getElem?_eq_none (by omega)]
    | some a =>
      obtain ⟨pre, e, post, hE, he, hlen⟩ := exists_of_getElem_filterMap hn
      have hsome : (hit e).isSome = true := by rw [he]; rfl
      have hrest : (E.filterMap hit)[n + 1]? = (post.filterMap hit).head? := by
        rw [hE, List.filterMap_append, List.filterMap_cons_some he, List.getElem?_append_right (by omega), hlen,
          List.head?_eq_getElem?]
        simp
      rw [Option.bind_some, hkey e a he, hrest]
      by_cases hpost : post.filterMap hit = []
      · rw [h.candidates_eq hE hsome, hpost]
        simp
      · rw [if_pos (husable pre e post hE hsome hpost), h.candidates_eq hE hsome]

omit hkey in
/-- A chain that is a list, and ends with it, has no key twice. -/
theorem nodup_keys_of_chain_eq {L : List η} (h : ∀ n, chain key hit keyOf usable start E n = L[n]?) :
    (L.map keyOf).Nodup := by
  rw [List.nodup_iff_pairwise_ne, List.pairwise_iff_getElem]
  intro i j hi hj hij heq
  rw [List.getElem_map, List.getElem_map] at heq
  rw [List.length_map] at hi hj
  -- from `i` and from `j` the chain goes on alike
  have hsame : ∀ k, chain key hit keyOf usable start E (i + k + 1) = chain key hit keyOf usable start E (j + k + 1) := by
    intro k
    induction k with
    | zero =>
      have hi' : chain key hit keyOf usable start E i = some L[i] := by
        rw [h, List.getElem?_eq_getElem hi]
      have hj' : chain key hit keyOf usable start E j = some L[j] := by
        rw [h, List.getElem?_eq_getElem hj]
      rw [Nat.add_zero, Nat.add_zero, chain_succ hi', chain_succ hj', heq]
    | succ k ih =>
      have hi' : chain key hit keyOf usable start E (i + (k + 1) + 1) = _ := rfl
      rw [chain, show i + (k + 1) = i + k + 1 by omega, ih, show j + (k + 1) + 1 = j + k + 1 + 1 by omega]
      rfl
  have hlast := hsame (L.length - j - 1)
  rw [h, h, List.getElem?_eq_none (i := j + _ + 1) (by omega), List.getElem?_eq_getElem (by omega)] at hlast
  cases hlast

omit hkey in
lemma mem_of_chain {n : ℕ} {a : η} (h : chain key hit keyOf usable start E n = some a) : a ∈ E.filterMap hit := by
  cases n with
  | zero =>
    rw [chain] at h
    split at h
    · exact List.mem_of_head? h
    · cases h
  | succ n =>
    rw [chain] at h
    obtain ⟨b, -, hb⟩ := Option.bind_eq_some_iff.1 h
    split at hb
    · obtain ⟨x, hx, -, hxa⟩ := mem_candidates (List.mem_of_head? hb)
      exact List.mem_filterMap.2 ⟨x, after_subset _ _ hx, hxa⟩
    · cases hb

omit hkey in
lemma after_append_of_mem {k : κ} {a : List ε} {y : ε} (hy : y ∈ a) (hk : key y = k) (l : List ε) :
    after key k (a ++ l) = after key k a ++ l := by
  induction a with
  | nil => cases hy
  | cons x a ih =>
    by_cases hx : key x = k
    · simp [after, hx]
    · have hya : y ∈ a := (List.mem_cons.1 hy).resolve_left fun h => hx (h ▸ hk)
      simp [after, hx, ih hya]

/-- **A chain that comes upon all hits and ends is direct**, if only a bad hit keeps it from going on and none but the last
one is bad. -/
theorem direct_of_chain_eq (Bad : η → Prop)
    (h : ∀ n, chain key hit keyOf usable start E n = (E.filterMap hit)[n]?)
    (hbad : ∀ k a, (∃ e ∈ E, key e = k) → usable k = false → (candidates key hit k E).head? = some a → Bad a)
    (hgood : ∀ n a, (E.filterMap hit)[n]? = some a → n + 1 < (E.filterMap hit).length → ¬ Bad a) :
    Direct key hit E := by
  have hnodup := nodup_keys_of_chain_eq h
  have hinj : ∀ (i j : ℕ) (a b : η), (E.filterMap hit)[i]? = some a → (E.filterMap hit)[j]? = some b → keyOf a = keyOf b → i = j := by
    intro i j a b hi hj hab
    have hi' : ((E.filterMap hit).map keyOf)[i]? = some (keyOf a) := by rw [List.getElem?_map, hi]; rfl
    have hj' : ((E.filterMap hit).map keyOf)[j]? = some (keyOf a) := by rw [List.getElem?_map, hj, hab]; rfl
    obtain ⟨hlt, -⟩ := List.getElem?_eq_some_iff.1 hi'
    exact (List.getElem?_inj hlt hnodup).1 (hi'.trans hj'.symm)
  rintro pre e post rfl he a x b rfl hx y hy hk
  obtain ⟨he', hhe⟩ := Option.isSome_iff_exists.1 he
  obtain ⟨hx', hhx⟩ := Option.isSome_iff_exists.1 hx
  have hE : ((a ++ x :: b) ++ e :: post).filterMap hit =
      (a.filterMap hit ++ hx' :: b.filterMap hit) ++ he' :: post.filterMap hit := by
    rw [List.filterMap_append, List.filterMap_append, List.filterMap_cons_some hhx, List.filterMap_cons_some hhe]
  have hatx : (((a ++ x :: b) ++ e :: post).filterMap hit)[(a.filterMap hit).length]? = some hx' := by
    rw [hE]
    simp
  have hate : (((a ++ x :: b) ++ e :: post).filterMap hit)[(a.filterMap hit ++ hx' :: b.filterMap hit).length]? =
      some he' := by
    rw [hE]
    simp
  have hne : key x ≠ key e := by
    intro hxe
    have := hinj _ _ _ _ hatx hate (by rw [hkey x hx' hhx, hkey e he' hhe, hxe])
    simp at this
  -- the first entry with the key of `e` is before `x`, so the next candidate has been there already
  have hya : y ∈ a := by
    rcases List.mem_append.1 hy with hy | hy
    · exact hy
    · exact absurd hk (by rwa [List.mem_singleton.1 hy])
  have hcand : candidates key hit (key e) ((a ++ x :: b) ++ e :: post) =
      candidates key hit (key e) a ++ hx' ::
        ((b ++ e :: post).filter fun z => key z ≠ key e).filterMap hit := by
    rw [List.append_assoc, candidates, after_append_of_mem hya hk, List.filter_append, List.filterMap_append,
      List.cons_append, List.filter_cons_of_pos (by simpa using hne), List.filterMap_cons_some hhx]
    rfl
  obtain ⟨w, hhead, hw⟩ : ∃ w, (candidates key hit (key e) ((a ++ x :: b) ++ e :: post)).head? = some w ∧
      w ∈ a.filterMap hit ++ [hx'] := by
    rw [hcand]
    cases hc : candidates key hit (key e) a with
    | nil => exact ⟨hx', rfl, by simp⟩
    | cons w rest =>
      obtain ⟨z, hz, -, hzw⟩ := mem_candidates (hc ▸ List.mem_cons_self : w ∈ candidates key hit (key e) a)
      exact ⟨w, rfl, List.mem_append_left _ (List.mem_filterMap.2 ⟨z, after_subset _ _ hz, hzw⟩)⟩
  obtain ⟨i, hi, hiw⟩ := List.getElem_of_mem hw
  have hatw : (((a ++ x :: b) ++ e :: post).filterMap hit)[i]? = some w := by
    have hsplit : (a.filterMap hit ++ hx' :: b.filterMap hit) ++ he' :: post.filterMap hit =
        (a.filterMap hit ++ [hx']) ++ (b.filterMap hit ++ he' :: post.filterMap hit) := by simp
    rw [hE, hsplit, List.getElem?_append_left hi, List.getElem?_eq_getElem hi, hiw]
  rw [List.length_append, List.length_singleton] at hi
  have hnext := h ((a.filterMap hit ++ hx' :: b.filterMap hit).length + 1)
  rw [chain_succ ((h _).trans hate), hkey e he' hhe] at hnext
  by_cases hu : usable (key e) = true
  · rw [if_pos hu, hhead] at hnext
    have := hinj _ _ _ _ hatw hnext.symm rfl
    simp at this
    omega
  · refine hgood i w hatw ?_ (hbad (key e) w ⟨e, by simp, rfl⟩ (by simpa using hu) hhead)
    rw [hE]
    simp
    omega

end Direct

end MulleObjcRuntime.Lib.AnchoredChain
