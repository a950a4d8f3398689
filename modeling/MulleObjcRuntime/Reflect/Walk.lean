import MulleObjcRuntime.Members.Walks

/-!
# The walk over a universe

A callback gets the universe, its classes in pairs, and what they have.  It returns a command, which may stop the walk.

* `Visit` — what the callback gets;
* `classWalkMethods` — the walk over the methods of a class;
* `classWalk`, `infraclassWalk`, `classpairWalk`, `universeWalk` — the walk over the universe, from the inside out;
* `Block`, `runBlocks` — one thing after the other, each with its members, which cannot stop the walk;
* `universeWalk_eq` — that is what the walk over the universe is.
-/

namespace MulleObjcRuntime.Reflect

open Classes Hashmap Lib.Walking Members Properties

/-- What a callback gets.  A method comes with the class object and the list that it is in, a property or an ivar with its
class; the parent of an infraclass is the universe, and that of a metaclass is its infraclass. -/
inductive Visit (P : Type)
  | world
  | classpair (pair : P)
  | cls (cls : ClassRef P)
  | method (method : Method) (list : MethodList) (cls : ClassRef P)
  | property (property : Property) (infra : P)
  | ivar (ivar : Ivar) (infra : P)
deriving DecidableEq

/-- A `mulle_objc_walkcallback_t` -/
abbrev Callback (P σ : Type) := σ → Visit P → σ × Walkcommand

/-- A `mulle_objc_method_walkcallback_t` -/
abbrev MethodCallback (P σ : Type) := σ → Method → MethodList → ClassRef P → σ × Walkcommand

variable {P σ : Type} [DecidableEq P]

/-! ## The methods of a class -/

section Methods

variable (g : ClassGraph P) (f : MethodCallback P σ)

/-- `_mulle_objc_methodlist_walk` -/
def methodlistWalk (cls : ClassRef P) (s : σ) (list : MethodList) : σ × Walkcommand :=
  walk .ok (fun s method => f s method list cls) s list.methods

/-- The loop over the enumerated lists.  Under `DONT_INHERIT_CLASS` the `n`-th one ends it. -/
def walkOwnMethods (cls : ClassRef P) (inheritance n : ℕ) : ℕ → List MethodList → σ → σ × Walkcommand
  | _, [], s => (s, .ok)
  | i, list :: lists, s =>
    if has inheritance dontInheritClass ∧ i + 1 = n then (s, .ok)
    else andThen .ok (methodlistWalk f cls s list) (walkOwnMethods cls inheritance n (i + 1) lists)

/-- The loop of `_mulle_objc_class_protocol_walk_methods`, in the order in which mixins are added, with the walk over the
methods of a mixin. -/
def protocolWalkMethods (walkMixin : ClassRef P → ℕ → σ → Option (Walked σ)) (cls : ClassRef P) (inheritance : ℕ) :
    List P → σ → Option (Walked σ)
  | [], s => some ⟨s, .ok, false⟩
  | proto :: mixins, s =>
    if proto = cls.pair then protocolWalkMethods walkMixin cls inheritance mixins s
    else
      let walkCls : ClassRef P := ⟨proto, cls.isMeta⟩
      (walkMixin walkCls (inheritance ||| g.inheritance walkCls) s).bind fun walked =>
        if walked.rval = .ok then protocolWalkMethods walkMixin cls inheritance mixins walked.state else some walked

/-- `_mulle_objc_class_walk_methods`.  `frames` bounds the nesting of the calls. -/
def classWalkMethods : ℕ → ClassRef P → ℕ → σ → Option (Walked σ)
  | 0, _, _, _ => none
  | frames + 1, cls, inheritance, s =>
    let lists := enumerated inheritance (g.methodlists cls)
    let r := walkOwnMethods f cls inheritance lists.length 0 lists s
    if r.2 ≠ .ok then some (.ends true r)
    else
      let tmp := dontInheritSuperclass |||
        if has inheritance dontInheritProtocolCategories then dontInheritCategories else 0
      (if has inheritance dontInheritProtocols then some (.ends true r)
        else protocolWalkMethods g (classWalkMethods frames) cls tmp (g.pair cls.pair).mixins r.1).bind fun walked =>
        if walked.rval ≠ .ok then some walked
        else if has inheritance dontInheritSuperclass then some walked
        else
          match g.superclass cls with
          | none => some walked
          | some superclass => classWalkMethods frames superclass inheritance walked.state

end Methods

/-! ## The universe -/

/-- A `bouncy_info`, as far as it changes. -/
structure BouncyInfo (σ : Type) where
  userinfo : σ
  rval : Walkcommand

/-- `bouncy_method`, `bouncy_property` and `bouncy_ivar`: what the callback returns is kept, and what they return tells
if it is a stopper. -/
def bouncy (callback : Callback P σ) (info : BouncyInfo σ) (visit : Visit P) : BouncyInfo σ × Walkcommand :=
  let r := callback info.userinfo visit
  (⟨r.1, r.2⟩, if r.2.isStopper then .dontDescend else .ok)

section Universe

variable (g : ClassGraph P) (m : ClassMembers P) (callback : Callback P σ) (frames : ℕ)

/-- `mulle_objc_class_walk`, which is `mulle_objc_metaclass_walk` for a metaclass.  What is in `rval` is not read. -/
def classWalk (cls : ClassRef P) (s : σ) : Option (σ × Walkcommand) :=
  let r := callback s (.cls cls)
  if r.2 ≠ .ok then some r
  else
    (classWalkMethods g (fun info method list cls => bouncy callback info (.method method list cls)) frames cls
      (dontInheritProtocols ||| dontInheritSuperclass) ⟨r.1, .ok⟩).map fun walked =>
        (walked.state.userinfo, walked.rval)

/-- `mulle_objc_infraclass_walk` -/
def infraclassWalk (infra : P) (s : σ) : Option (σ × Walkcommand) :=
  (classWalk g callback frames ⟨infra, false⟩ s).bind fun r =>
    if r.2 ≠ .ok then some r
    else
      let inheritance := g.inheritance ⟨infra, false⟩
      (walkProperties g m inheritance (fun info p c => bouncy callback info (.property p c)) frames infra
        ⟨r.1, .ok⟩).bind fun walked =>
          if walked.rval ≠ .ok then some (walked.state.userinfo, walked.rval)
          else
            (walkIvars g m inheritance (fun info p c => bouncy callback info (.ivar p c)) frames infra
              walked.state).map fun walked => (walked.state.userinfo, walked.rval)

/-- `mulle_objc_classpair_walk` -/
def classpairWalk (pair : P) (s : σ) : Option (σ × Walkcommand) :=
  let r := callback s (.classpair pair)
  if r.2.isStopper then some r
  else
    (infraclassWalk g m callback frames pair r.1).bind fun r =>
      if r.2.isStopper then some r else classWalk g callback frames ⟨pair, true⟩ r.1

/-- The loop over the class table. -/
def walkClasstable : List P → σ × Walkcommand → Option (σ × Walkcommand)
  | [], r => some r
  | c :: classtable, r =>
    (classpairWalk g m callback frames c r.1).bind fun r =>
      if r.2.isStopper then some r else walkClasstable classtable r

/-- `mulle_objc_universe_walk`, of a universe and with a callback, in the order of the class table. -/
def universeWalk (classtable : List P) (s : σ) : Option (σ × Walkcommand) :=
  let r := callback s .world
  if r.2.isStopper then some r else walkClasstable g m callback frames classtable r

end Universe

/-! ## One thing after the other -/

/-- Something with members. -/
structure Block (α : Type) where
  head : α
  members : List α

/-- The callback for a member: a stopper ends the members, and no more. -/
def bounce {α : Type} (f : σ → α → σ × Walkcommand) (s : σ) (a : α) : σ × Walkcommand :=
  ((f s a).1, if (f s a).2.isStopper then .dontDescend else .ok)

/-- A thing, and after `ok` its members. -/
def runBlock {α : Type} (f : σ → α → σ × Walkcommand) (s : σ) (b : Block α) : σ × Walkcommand :=
  andThen .ok (f s b.head) fun s => walk .ok (bounce f) s b.members

/-- One block after the other, until a stopper. -/
def runBlocks {α : Type} (f : σ → α → σ × Walkcommand) : σ × Walkcommand → List (Block α) → σ × Walkcommand
  | r, [] => r
  | r, b :: blocks =>
    let r := runBlock f r.1 b
    if r.2.isStopper then r else runBlocks f r blocks

section Plan

variable (g : ClassGraph P) (m : ClassMembers P)

/-- The methods of a class object, those of the category that was added last coming first. -/
def methodVisits (cls : ClassRef P) : List (Visit P) :=
  (g.methodlists cls).reverse.flatMap fun list => list.methods.map fun method => .method method list cls

/-- The properties that a class has and inherits. -/
def propertyVisits (infra : P) : List (Visit P) :=
  let inheritance := g.inheritance ⟨infra, false⟩
  (handedOut g (m.properties inheritance) inheritance infra).map fun p => .property p.1 p.2

/-- The ivars that a class has and inherits. -/
def ivarVisits (infra : P) : List (Visit P) :=
  let inheritance := g.inheritance ⟨infra, false⟩
  (handedOut g (m.ivars inheritance) inheritance infra).map fun p => .ivar p.1 p.2

/-- The blocks of a class pair: the pair, the infraclass with its members, and the metaclass with its methods. -/
def pairBlocks (c : P) : List (Block (Visit P)) :=
  [⟨.classpair c, []⟩, ⟨.cls ⟨c, false⟩, methodVisits g ⟨c, false⟩ ++ (propertyVisits g m c ++ ivarVisits g m c)⟩,
    ⟨.cls ⟨c, true⟩, methodVisits g ⟨c, true⟩⟩]

/-- All of the universe. -/
def universeBlocks (classtable : List P) : List (Block (Visit P)) := ⟨.world, []⟩ :: classtable.flatMap (pairBlocks g m)

end Plan

/-! ## Blocks -/

section Blocks

variable {α : Type} {f : σ → α → σ × Walkcommand}

lemma walk_bounce_isStopper (s : σ) (members : List α) : (walk .ok (bounce f) s members).2.isStopper = false := by
  induction members generalizing s with
  | nil => rfl
  | cons a members ih =>
    rw [walk_cons, andThen]
    split
    · exact ih _
    · unfold bounce
      split
      · rfl
      · rfl

lemma runBlock_nil (s : σ) (head : α) : runBlock f s ⟨head, []⟩ = f s head := andThen_return (f s head)

lemma runBlocks_append {r : σ × Walkcommand} (hr : r.2.isStopper = false) (bs cs : List (Block α)) :
    runBlocks f r (bs ++ cs) =
      if (runBlocks f r bs).2.isStopper then runBlocks f r bs else runBlocks f (runBlocks f r bs) cs := by
  induction bs generalizing r with
  | nil => simp [runBlocks, hr]
  | cons b bs ih =>
    rw [List.cons_append, runBlocks, runBlocks]
    by_cases hstop : (runBlock f r.1 b).2.isStopper = true
    · simp only [hstop, if_true]
    · simp only [hstop, ih (by simpa using hstop)]
      rfl

/-- A stopper in the end is what the callback returned for the head of a block, and nothing was done after that. -/
lemma runBlocks_stopped {r : σ × Walkcommand} (hr : r.2.isStopper = false) (blocks : List (Block α))
    (h : (runBlocks f r blocks).2.isStopper = true) :
    ∃ before b after, blocks = before ++ b :: after ∧ (runBlocks f r before).2.isStopper = false ∧
      runBlocks f r blocks = f (runBlocks f r before).1 b.head := by
  induction blocks generalizing r with
  | nil => simp [runBlocks, hr] at h
  | cons b blocks ih =>
    rw [runBlocks] at h ⊢
    by_cases hstop : (runBlock f r.1 b).2.isStopper = true
    · refine ⟨[], b, blocks, rfl, hr, ?_⟩
      have hne : (f r.1 b.head).2 ≠ .ok := by
        intro hok
        rw [runBlock, andThen, if_pos hok, walk_bounce_isStopper] at hstop
        exact absurd hstop (by simp)
      simp only [hstop, if_true]
      exact andThen_of_ne hne _
    · simp only [hstop] at h ⊢
      obtain ⟨before, b', after, rfl, hno, heq⟩ := ih (by simpa using hstop) h
      refine ⟨b :: before, b', after, rfl, ?_, ?_⟩
      · simpa [runBlocks, hstop] using hno
      · simpa [runBlocks, hstop] using heq

/-- All that there is in the blocks -/
def Block.elements (b : Block α) : List α := b.head :: b.members

lemma runBlocks_of_ok (h : ∀ s a, (f s a).2 = .ok) (s : σ) (blocks : List (Block α)) :
    runBlocks f (s, .ok) blocks = ((blocks.flatMap Block.elements).foldl (fun s a => (f s a).1) s, .ok) := by
  have hbounce : ∀ s a, (bounce f s a).2 = .ok := fun s a => by simp [bounce, h, Walkcommand.isStopper]
  induction blocks generalizing s with
  | nil => rfl
  | cons b blocks ih =>
    have hblock : runBlock f s b = (b.elements.foldl (fun s a => (f s a).1) s, .ok) := by
      rw [runBlock, andThen, if_pos (h s b.head), walk_of_ok hbounce]
      rfl
    rw [runBlocks, hblock, List.flatMap_cons, List.foldl_append, ← ih]
    rfl

end Blocks

variable {g : ClassGraph P} {m : ClassMembers P} {callback : Callback P σ} {frames : ℕ}

/-! ## The members of a class -/

omit [DecidableEq P] in
lemma walkOwnMethods_eq {f : MethodCallback P σ} {cls : ClassRef P} {inheritance n i : ℕ}
    (h : has inheritance dontInheritClass = false) (lists : List MethodList) (s : σ) :
    walkOwnMethods f cls inheritance n i lists s = walk .ok (methodlistWalk f cls) s lists := by
  induction lists generalizing i s with
  | nil => rfl
  | cons list lists ih =>
    rw [walkOwnMethods, if_neg (by simp [h]), walk_cons]
    exact congrArg (andThen .ok _) (funext fun s => ih s)

lemma classWalkMethods_eq (f : MethodCallback P σ) (cls : ClassRef P) (hframes : 0 < frames) (s : σ) :
    classWalkMethods g f frames cls (dontInheritProtocols ||| dontInheritSuperclass) s =
      some (.ends true (walk .ok (methodlistWalk f cls) s (g.methodlists cls).reverse)) := by
  obtain ⟨frames, rfl⟩ := Nat.exists_eq_succ_of_ne_zero hframes.ne'
  have hclass : has (dontInheritProtocols ||| dontInheritSuperclass) dontInheritClass = false := by decide
  have hcategories : has (dontInheritProtocols ||| dontInheritSuperclass) dontInheritCategories = false := by decide
  have hprotocols : has (dontInheritProtocols ||| dontInheritSuperclass) dontInheritProtocols = true := by decide
  have hsuperclass : has (dontInheritProtocols ||| dontInheritSuperclass) dontInheritSuperclass = true := by decide
  have henumerated : enumerated (dontInheritProtocols ||| dontInheritSuperclass) (g.methodlists cls) =
      (g.methodlists cls).reverse := by
    rw [enumerated, hcategories]
    rfl
  rw [classWalkMethods, henumerated, walkOwnMethods_eq hclass]
  split
  · rfl
  · rename_i hok
    simp only [Option.bind_some, ite_self]

omit [DecidableEq P] in
lemma bouncy_walk (callback : Callback P σ) (info : BouncyInfo σ) (visits : List (Visit P)) :
    ((walk .ok (bouncy callback) info visits).1.userinfo, (walk .ok (bouncy callback) info visits).2) =
      walk .ok (bounce callback) info.userinfo visits :=
  walk_simulates BouncyInfo.userinfo (fun _ _ => rfl) info visits

lemma classWalk_eq (cls : ClassRef P) (hframes : 0 < frames) (s : σ) :
    classWalk g callback frames cls s = some
      (andThen .ok (callback s (.cls cls)) fun s => walk .ok (bounce callback) s (methodVisits g cls)) := by
  by_cases hok : (callback s (.cls cls)).2 = .ok
  · have hwalk := bouncy_walk callback ⟨(callback s (.cls cls)).1, .ok⟩ (methodVisits g cls)
    rw [andThen, if_pos hok, ← hwalk, methodVisits, walk_flatMap]
    simp only [classWalk, hok, classWalkMethods_eq _ _ hframes, walk_map]
    rfl
  · rw [andThen_of_ne hok, classWalk, if_pos hok]

omit [DecidableEq P] in
lemma bouncyProperties_eq (infra : P) (hframes : g.depth infra < frames) (info : BouncyInfo σ) :
    walkProperties g m (g.inheritance ⟨infra, false⟩) (fun info p c => bouncy callback info (.property p c)) frames infra
      info = some (.ends false (walk .ok (bouncy callback) info (propertyVisits g m infra))) := by
  rw [walkProperties_eq _ hframes, propertyVisits, walk_map]

omit [DecidableEq P] in
lemma bouncyIvars_eq (infra : P) (hframes : g.depth infra < frames) (info : BouncyInfo σ) :
    walkIvars g m (g.inheritance ⟨infra, false⟩) (fun info p c => bouncy callback info (.ivar p c)) frames infra info =
      some (.ends true (walk .ok (bouncy callback) info (ivarVisits g m infra))) := by
  rw [walkIvars_eq _ hframes, ivarVisits, walk_map]

/-- An infraclass with its methods, and the properties and ivars that it has and inherits -/
lemma infraclassWalk_eq (infra : P) (hframes : g.depth infra < frames) (s : σ) :
    infraclassWalk g m callback frames infra s = some (andThen .ok (callback s (.cls ⟨infra, false⟩)) fun s =>
      walk .ok (bounce callback) s (methodVisits g ⟨infra, false⟩ ++ (propertyVisits g m infra ++ ivarVisits g m infra))) := by
  rw [infraclassWalk, classWalk_eq _ (by omega), Option.bind_some]
  simp only [walk_append, ← andThen_assoc]
  generalize andThen .ok (callback s (.cls ⟨infra, false⟩)) _ = r
  obtain ⟨s, cmd⟩ := r
  by_cases hok : cmd = .ok
  · subst hok
    have hproperties := bouncy_walk callback ⟨s, .ok⟩ (propertyVisits g m infra)
    simp only [ne_eq, not_true, if_false, bouncyProperties_eq infra hframes, Option.bind_some, andThen_ok,
      ← hproperties]
    generalize walk .ok (bouncy callback) ⟨s, .ok⟩ (propertyVisits g m infra) = r
    by_cases hok : r.2 = .ok
    · have hivars := bouncy_walk callback r.1 (ivarVisits g m infra)
      simp only [Walked.ends, hok, not_true, if_false, bouncyIvars_eq infra hframes, Option.map_some, andThen_ok, hivars]
    · have hne : (r.1.userinfo, r.2).2 ≠ Walkcommand.ok := hok
      rw [if_pos (by simpa [Walked.ends] using hok), andThen_of_ne hne]
      rfl
  · have hne : (s, cmd).2 ≠ Walkcommand.ok := hok
    rw [if_pos hok, andThen_of_ne hne, andThen_of_ne hne]

/-! ## The universe -/

lemma classpairWalk_eq (c : P) (hframes : g.depth c < frames) (r : σ × Walkcommand) :
    classpairWalk g m callback frames c r.1 = some (runBlocks callback r (pairBlocks g m c)) := by
  rw [classpairWalk, infraclassWalk_eq c hframes, Option.bind_some, classWalk_eq _ (by omega)]
  simp only [pairBlocks, runBlocks, runBlock_nil, apply_ite some, ite_self]
  rfl

lemma walkClasstable_eq (classtable : List P) (hframes : ∀ c ∈ classtable, g.depth c < frames)
    {r : σ × Walkcommand} (hr : r.2.isStopper = false) :
    walkClasstable g m callback frames classtable r =
      some (runBlocks callback r (classtable.flatMap (pairBlocks g m))) := by
  induction classtable generalizing r with
  | nil => rfl
  | cons c classtable ih =>
    rw [walkClasstable, classpairWalk_eq c (hframes c (by simp)), Option.bind_some, List.flatMap_cons,
      runBlocks_append hr]
    by_cases hstop : (runBlocks callback r (pairBlocks g m c)).2.isStopper = true
    · rw [if_pos hstop, if_pos hstop]
    · rw [if_neg hstop, if_neg hstop]
      exact ih (fun c hc => hframes c (by simp [hc])) (by simpa using hstop)

lemma universeWalk_blocks (classtable : List P) (hframes : ∀ c ∈ classtable, g.depth c < frames) (s : σ) :
    universeWalk g m callback frames classtable s = some (runBlocks callback (s, .ok) (universeBlocks g m classtable)) := by
  rw [universeWalk, universeBlocks, runBlocks, runBlock_nil]
  by_cases hstop : (callback s .world).2.isStopper = true
  · simp only [hstop, if_true]
  · simp only [hstop]
    exact walkClasstable_eq classtable hframes (by simpa using hstop)

/-- **The walk over a universe is one loop** over the universe, the class pairs and their class objects, each with its
members.  Only for these the callback can stop it: a stopper for a method, a property or an ivar ends the members of the
class, but is not passed on.  A callback that always returns `ok` gets everything. -/
theorem universeWalk_eq (g : ClassGraph P) (m : ClassMembers P) (callback : Callback P σ) (classtable : List P)
    (hframes : ∀ c ∈ classtable, g.depth c < frames) (s : σ) :
    ∃ r, universeWalk g m callback frames classtable s = some r ∧
      r = runBlocks callback (s, .ok) (universeBlocks g m classtable) ∧
      (r.2.isStopper = true → ∃ before b after, universeBlocks g m classtable = before ++ b :: after ∧
        r = callback (runBlocks callback (s, .ok) before).1 b.head) ∧
      ((∀ s v, (callback s v).2 = .ok) → r = (((universeBlocks g m classtable).flatMap Block.elements).foldl
        (fun s v => (callback s v).1) s, .ok)) := by
  refine ⟨_, universeWalk_blocks classtable hframes s, rfl, fun hstop => ?_, fun hok => runBlocks_of_ok hok s _⟩
  obtain ⟨before, b, after, hblocks, -, hresult⟩ := runBlocks_stopped rfl _ hstop
  exact ⟨before, b, after, hblocks, hresult⟩

/-- A class with two methods and a method of its metaclass, and a subclass. -/
def twoClasses : ClassGraph ℕ :=
  .ofList [ClassGraph.pairOf 1 none [] false ⟨0, [.single 0 ⟨100, 1, 0, 4096⟩, .single 3 ⟨200, 2, 0, 8192⟩]⟩
      ⟨0, [.single 0 ⟨300, 3, 0, 12288⟩]⟩,
    ClassGraph.pairOf 2 (some 0) [] false ⟨0, []⟩ ⟨0, []⟩]

/-- The class has an ivar. -/
def twoClassesMembers : ClassMembers ℕ :=
  ⟨fun c => if c = 0 then [⟨[⟨7, ['x'], ['i'], 8⟩]⟩] else [], fun _ => [], fun _ => [], fun _ => []⟩

/-- The callback keeps a list of what it got, and wants to stop at a method. -/
def stopsAtMethod : Callback ℕ (List (Visit ℕ)) := fun seen visit =>
  (seen ++ [visit], match visit with
    | .method _ _ _ => .done
    | _ => .ok)

theorem universeWalk_eq_twoClasses :
    ∃ r, universeWalk twoClasses twoClassesMembers stopsAtMethod 2 [0, 1] [] = some r ∧
      r = runBlocks stopsAtMethod ([], .ok) (universeBlocks twoClasses twoClassesMembers [0, 1]) ∧
      (r.2.isStopper = true → ∃ before b after,
        universeBlocks twoClasses twoClassesMembers [0, 1] = before ++ b :: after ∧
          r = stopsAtMethod (runBlocks stopsAtMethod ([], .ok) before).1 b.head) ∧
      ((∀ s v, (stopsAtMethod s v).2 = .ok) →
        r = (((universeBlocks twoClasses twoClassesMembers [0, 1]).flatMap Block.elements).foldl
          (fun s v => (stopsAtMethod s v).1) [], .ok)) :=
  universeWalk_eq twoClasses twoClassesMembers stopsAtMethod [0, 1] (by decide) []

/-- The walk goes on after a method, but what else the class has is left out.  The subclass still gets to see the ivar. -/
example : universeWalk twoClasses twoClassesMembers stopsAtMethod 2 [0, 1] [] =
    some ([.world, .classpair 0, .cls ⟨0, false⟩, .method ⟨200, 2, 0, 8192⟩ (.single 3 ⟨200, 2, 0, 8192⟩) ⟨0, false⟩,
      .cls ⟨0, true⟩, .method ⟨300, 3, 0, 12288⟩ (.single 0 ⟨300, 3, 0, 12288⟩) ⟨0, true⟩,
      .classpair 1, .cls ⟨1, false⟩, .ivar ⟨7, ['x'], ['i'], 8⟩ 0, .cls ⟨1, true⟩], .ok) := by
  decide +kernel

end MulleObjcRuntime.Reflect
