import MulleObjcRuntime.Properties.Accessors

/-!
# Dynamic properties and the descriptors of their accessors

* `Accessible` — every accessor has a descriptor whose name has its id, and the universe knows the property;
* `Named`, `ToldApart` — descriptors that are there or made have the right names, and ids are not used twice;
* `exists_descriptor_of_named` — rightly named accessors get descriptors;
* `Settled`, `named_of_exists_descriptor` — where ids are not used twice, no others are;
* `accessible_iff` — both ways.
-/

namespace MulleObjcRuntime.Properties

open Descriptors Lib.Runs Registry

/-- Each accessor of the property has a descriptor whose name has its id, and the property id is known for it. -/
def Accessible (env : Environment) (s : State) (p : Property) : Prop :=
  ∀ a ∈ p.accessors, (∃ d, s.tables.descriptortable a = some d ∧ env.methodidFromString d.name = a) ∧
    s.propertyidtable a = some p.propertyid

/-- The descriptor of the accessor has a name with its id.  If there is none, what is made for it is for its id and has
such a name. -/
def Accessor.Named (env : Environment) (D : ℕ → Option Descriptor) (x : Accessor) : Prop :=
  (∀ d, D x.id = some d → env.methodidFromString d.name = x.id) ∧
    (D x.id = none → x.methodid = x.id ∧ env.methodidFromString x.name = x.id)

/-- All accessors of dynamic properties are rightly named. -/
def Named (env : Environment) (D : ℕ → Option Descriptor) (properties : List Property) : Prop :=
  ∀ p ∈ properties, p.isDynamic = true → ∀ x ∈ p.made, x.Named env D

/-- No two properties have the same id, and none has a getter that it has for something else, too. -/
structure ToldApart (properties : List Property) : Prop where
  propertyids : (properties.map (·.propertyid)).Nodup
  getters : ∀ p ∈ properties, p.getter ∉ [p.setter, p.adder, p.remover]

section

variable {env : Environment} {s s' t : State} {p q : Property} {properties : List Property} {x : Accessor}
  {D : ℕ → Option Descriptor} {a : ℕ} {name : List Char}

/-- For a setter, an adder and a remover their own id is registered. -/
lemma made_cases (hx : x ∈ p.made) :
    x = ⟨p.getter, p.propertyid, p.name⟩ ∨ x.methodid = x.id ∧ x.id ∈ [p.setter, p.adder, p.remover] := by
  have hsetter {methodid : ℕ} {start : List Char} (hx : x ∈ p.setterMade methodid start) :
      x.methodid = x.id ∧ x.id = methodid := by
    unfold Property.setterMade at hx
    split at hx
    · cases hx
    · cases List.mem_singleton.mp hx
      exact ⟨rfl, rfl⟩
  unfold Property.made at hx
  rcases List.mem_cons.mp hx with hx | hx
  · exact Or.inl hx
  · right
    rcases List.mem_append.mp hx with hx | hx
    · obtain ⟨hmethodid, hid⟩ := hsetter hx
      exact ⟨hmethodid, by simp [hid]⟩
    · rcases List.mem_append.mp hx with hx | hx
      · obtain ⟨hmethodid, hid⟩ := hsetter hx
        exact ⟨hmethodid, by simp [hid]⟩
      · obtain ⟨hmethodid, hid⟩ := hsetter hx
        exact ⟨hmethodid, by simp [hid]⟩

lemma getter_mem_made : (⟨p.getter, p.propertyid, p.name⟩ : Accessor) ∈ p.made := List.mem_cons_self

lemma id_mem_accessors (hx : x ∈ p.made) : x.id ∈ p.accessors := by
  rw [← map_made]
  exact List.mem_map_of_mem hx

lemma mem_asks :
    (a, name) ∈ p.asks D ↔ p.isDynamic = true ∧ ∃ x ∈ p.made, D x.id = none ∧ a = x.methodid ∧ name = x.name := by
  unfold Property.asks askedFor
  by_cases hdynamic : p.isDynamic
  · simp [hdynamic]
  · simp [hdynamic]

/-! ## What a list of properties does -/

lemma run_keep (hrun : run (addProperty env) s properties = some s') :
    (∀ a d, s.tables.descriptortable a = some d → s'.tables.descriptortable a = some d) ∧
      ∀ a i, s.propertyidtable a = some i → s'.propertyidtable a = some i := by
  induction properties generalizing s with
  | nil =>
    cases hrun
    exact ⟨fun a d hd => hd, fun a i hi => hi⟩
  | cons p properties ih =>
    obtain ⟨t, ht, hrest⟩ := run_cons_eq_some.mp hrun
    obtain ⟨htables, hids⟩ := ih hrest
    exact ⟨fun a d hd => htables a d ((addProperty_asks ht).keep a d hd),
      fun a i hi => hids a i ((addProperty_propertyid ht).2 a i hi)⟩

/-- **The property ids are known in the end.** -/
lemma run_propertyid (hrun : run (addProperty env) s properties = some s') :
    ∀ p ∈ properties, ∀ a ∈ p.accessors, s'.propertyidtable a = some p.propertyid := by
  induction properties generalizing s with
  | nil => exact fun p hp => absurd hp List.not_mem_nil
  | cons p properties ih =>
    obtain ⟨t, ht, hrest⟩ := run_cons_eq_some.mp hrun
    refine List.forall_mem_cons.mpr ⟨fun a ha => ?_, ih hrest⟩
    exact (run_keep hrest).2 a _ ((addProperty_propertyid ht).1 a ha)

lemma addProperties_run {last : ℕ} (h : addProperties env last s properties = some (none, s')) :
    run (addProperty env) s properties = some s' := by
  induction properties generalizing last s with
  | nil =>
    cases h
    rfl
  | cons p properties ih =>
    rw [addProperties] at h
    split at h
    · cases h
    · split at h
      · cases h
      · obtain ⟨t, ht, hrest⟩ := Option.bind_eq_some_iff.mp h
        exact run_cons_eq_some.mpr ⟨t, ht, ih hrest⟩

lemma addPropertylist_run {list : Propertylist} (h : addPropertylist env s list = some (none, s')) :
    ∃ t, run (addProperty env) s list.properties = some t ∧ t.tables = s'.tables ∧
      t.propertyidtable = s'.propertyidtable := by
  obtain ⟨⟨error, t⟩, hadd, hresult⟩ := Option.map_eq_some_iff.mp h
  cases error with
  | none =>
    cases hresult
    exact ⟨t, addProperties_run hadd, rfl, rfl⟩
  | some e => cases hresult

/-! ## Rightly named accessors -/

lemma none_of_kept (hkept : ∀ a d, D a = some d → s.tables.descriptortable a = some d)
    (hnone : s.tables.descriptortable a = none) : D a = none := by
  by_contra hne
  obtain ⟨d, hd⟩ := Option.ne_none_iff_exists'.mp hne
  exact absurd (hnone.symm.trans (hkept a d hd)) (Option.some_ne_none d).symm

/-- **What is new has the right name.** -/
lemma named_step (hstep : addProperty env s p = some t)
    (hkept : ∀ a d, D a = some d → s.tables.descriptortable a = some d)
    (hnew : ∀ a d, s.tables.descriptortable a = some d → D a = some d ∨ env.methodidFromString d.name = a)
    (hnamed : p.isDynamic = true → ∀ x ∈ p.made, x.Named env D) :
    ∀ a d, t.tables.descriptortable a = some d → D a = some d ∨ env.methodidFromString d.name = a := by
  intro a d hd
  rcases (addProperty_asks hstep).only a d hd with hd | hmem
  · exact hnew a d hd
  · obtain ⟨hdynamic, x, hx, hnone, rfl, hname⟩ := mem_asks.mp hmem
    obtain ⟨hmethodid, hid⟩ := (hnamed hdynamic x hx).2 (none_of_kept hkept hnone)
    rw [hname, hmethodid]
    exact Or.inr hid

/-- **Rightly named accessors have descriptors in the end.**  By induction on the properties: what was there at the start
stays, and what is new has the right name. -/
theorem exists_descriptor_of_named (hrun : run (addProperty env) s properties = some s')
    (hkept : ∀ a d, D a = some d → s.tables.descriptortable a = some d)
    (hnew : ∀ a d, s.tables.descriptortable a = some d → D a = some d ∨ env.methodidFromString d.name = a)
    (hnamed : Named env D properties) :
    ∀ p ∈ properties, p.isDynamic = true → ∀ x ∈ p.made,
      ∃ d, s'.tables.descriptortable x.id = some d ∧ env.methodidFromString d.name = x.id := by
  induction properties generalizing s with
  | nil => exact fun p hp => absurd hp List.not_mem_nil
  | cons p properties ih =>
    obtain ⟨hhead, htail⟩ := List.forall_mem_cons.mp hnamed
    obtain ⟨t, ht, hrest⟩ := run_cons_eq_some.mp hrun
    have hasks := addProperty_asks ht
    have hnew' := named_step ht hkept hnew hhead
    refine List.forall_mem_cons.mpr ⟨fun hdynamic x hx => ?_,
      ih hrest (fun a d hd => hasks.keep a d (hkept a d hd)) hnew' htail⟩
    obtain ⟨d, hd⟩ : ∃ d, t.tables.descriptortable x.id = some d := by
      cases hsome : s.tables.descriptortable x.id with
      | some d => exact ⟨d, hasks.keep x.id d hsome⟩
      | none =>
        have hnone : D x.id = none := none_of_kept hkept hsome
        obtain ⟨d, hd, -⟩ := hasks.named _ (mem_asks.mpr ⟨hdynamic, x, hx, hsome, rfl, rfl⟩)
        rw [((hhead hdynamic x hx).2 hnone).1] at hd
        exact ⟨d, hd⟩
    refine ⟨d, (run_keep hrest).1 x.id d hd, ?_⟩
    exact (hnew' x.id d hd).elim ((hhead hdynamic x hx).1 d) id

/-! ## No others -/

/-- A getter without a descriptor is called like its property. -/
def Settled (s : State) (p : Property) : Prop :=
  p.isDynamic = true → s.tables.descriptortable p.getter = none → p.getter = p.propertyid

lemma Settled.mem_accessors (h : Settled s p) (hasked : (a, name) ∈ p.asks s.tables.descriptortable) :
    a ∈ p.accessors := by
  obtain ⟨hdynamic, x, hx, hnone, rfl, -⟩ := mem_asks.mp hasked
  rcases made_cases hx with rfl | ⟨hmethodid, -⟩
  · have hgetter : p.getter = p.propertyid := h hdynamic hnone
    show p.propertyid ∈ p.accessors
    rw [← hgetter]
    exact List.mem_cons_self
  · rw [hmethodid]
    exact id_mem_accessors hx

lemma mem_accessors_of_new (hrun : run (addProperty env) s properties = some s')
    (hsettled : EachStep (addProperty env) Settled s properties) (hnone : s.tables.descriptortable a = none)
    {d : Descriptor} (hsome : s'.tables.descriptortable a = some d) : ∃ q ∈ properties, a ∈ q.accessors := by
  induction properties generalizing s with
  | nil =>
    cases hrun
    exact absurd (hnone.symm.trans hsome) (Option.some_ne_none d).symm
  | cons q properties ih =>
    obtain ⟨t, ht, hrest⟩ := run_cons_eq_some.mp hrun
    cases htable : t.tables.descriptortable a with
    | none =>
      obtain ⟨q', hq', ha⟩ := ih hrest (hsettled.2 t ht) htable
      exact ⟨q', List.mem_cons_of_mem q hq', ha⟩
    | some e =>
      rcases (addProperty_asks ht).only a e htable with he | hasked
      · exact absurd (hnone.symm.trans he) (Option.some_ne_none e).symm
      · exact ⟨q, List.mem_cons_self, Settled.mem_accessors hsettled.1 hasked⟩

lemma ToldApart.tail (h : ToldApart (p :: properties)) : ToldApart properties :=
  ⟨(List.nodup_cons.mp h.propertyids).2, fun q hq => h.getters q (List.mem_cons_of_mem p hq)⟩

lemma ToldApart.not_mem_accessors (h : ToldApart (p :: properties)) (hrun : run (addProperty env) s (p :: properties) = some s')
    (ha : a ∈ p.accessors) (hq : q ∈ properties) : a ∉ q.accessors := by
  intro ha'
  have hp := run_propertyid hrun p List.mem_cons_self a ha
  have hq' := run_propertyid hrun q (List.mem_cons_of_mem p hq) a ha'
  have hid : q.propertyid = p.propertyid := Option.some.inj (hq'.symm.trans hp)
  apply (List.nodup_cons.mp h.propertyids).1
  show p.propertyid ∈ _
  rw [← hid]
  exact List.mem_map_of_mem hq

/-- **A getter that has a descriptor in the end was settled.**  By induction on the properties: nothing that comes later
registers a getter that is not settled. -/
lemma settled_of_getters (hrun : run (addProperty env) s properties = some s') (htold : ToldApart properties)
    (hgetters : ∀ p ∈ properties, p.isDynamic = true → ∃ d, s'.tables.descriptortable p.getter = some d) :
    EachStep (addProperty env) Settled s properties := by
  induction properties generalizing s with
  | nil => trivial
  | cons p properties ih =>
    obtain ⟨t, ht, hrest⟩ := run_cons_eq_some.mp hrun
    obtain ⟨hhead, htail⟩ := List.forall_mem_cons.mp hgetters
    have hsettled := ih hrest htold.tail htail
    refine ⟨fun hdynamic hnone => ?_, fun t' ht' => ?_⟩
    · by_contra hne
      obtain ⟨d, hd⟩ := hhead hdynamic
      have hnone' : t.tables.descriptortable p.getter = none := by
        by_contra hsome
        obtain ⟨e, he⟩ := Option.ne_none_iff_exists'.mp hsome
        rcases (addProperty_asks ht).only p.getter e he with he | hasked
        · exact absurd (hnone.symm.trans he) (Option.some_ne_none e).symm
        · obtain ⟨-, x, hx, -, hid, -⟩ := mem_asks.mp hasked
          rcases made_cases hx with rfl | ⟨hmethodid, hmem⟩
          · exact hne hid
          · rw [← hmethodid, ← hid] at hmem
            exact htold.getters p List.mem_cons_self hmem
      obtain ⟨q, hq, hmem⟩ := mem_accessors_of_new hrest hsettled hnone' hd
      exact htold.not_mem_accessors hrun List.mem_cons_self hq hmem
    · cases ht.symm.trans ht'
      exact hsettled

/-- **Where ids are told apart, accessors with descriptors in the end are rightly named.** -/
theorem named_of_exists_descriptor (hrun : run (addProperty env) s properties = some s') (htold : ToldApart properties)
    (hsettled : EachStep (addProperty env) Settled s properties)
    (hdescriptor : ∀ p ∈ properties, p.isDynamic = true → ∀ x ∈ p.made,
      ∃ d, s'.tables.descriptortable x.id = some d ∧ env.methodidFromString d.name = x.id) :
    Named env s.tables.descriptortable properties := by
  induction properties generalizing s with
  | nil => exact fun p hp => absurd hp List.not_mem_nil
  | cons p properties ih =>
    obtain ⟨t, ht, hrest⟩ := run_cons_eq_some.mp hrun
    obtain ⟨hhead, htail⟩ := List.forall_mem_cons.mp hdescriptor
    have hasks := addProperty_asks ht
    refine List.forall_mem_cons.mpr ⟨fun hdynamic x hx => ?_, fun q hq hdynamic x hx => ?_⟩
    · obtain ⟨d, hd, hname⟩ := hhead hdynamic x hx
      refine ⟨fun e he => ?_, fun hnone => ?_⟩
      · have hkept := (run_keep hrun).1 x.id e he
        cases hd.symm.trans hkept
        exact hname
      · have hmethodid : x.methodid = x.id := by
          rcases made_cases hx with rfl | ⟨hmethodid, -⟩
          · exact (hsettled.1 hdynamic hnone).symm
          · exact hmethodid
        obtain ⟨e, he, hename⟩ := hasks.named _ (mem_asks.mpr ⟨hdynamic, x, hx, hnone, rfl, rfl⟩)
        have hkept := (run_keep hrest).1 _ e he
        rw [hmethodid] at hkept
        cases hd.symm.trans hkept
        have hename : d.name = x.name := hename
        rw [hename] at hname
        exact ⟨hmethodid, hname⟩
    · obtain ⟨hthere, hmade⟩ := ih hrest htold.tail (hsettled.2 t ht) htail q hq hdynamic x hx
      refine ⟨fun d hd => hthere d (hasks.keep x.id d hd), fun hnone => ?_⟩
      cases htable : t.tables.descriptortable x.id with
      | none => exact hmade htable
      | some e =>
        rcases hasks.only x.id e htable with he | hasked
        · exact absurd (hnone.symm.trans he) (Option.some_ne_none e).symm
        · have hmem : x.id ∈ p.accessors := Settled.mem_accessors hsettled.1 hasked
          exact absurd (id_mem_accessors hx) (htold.not_mem_accessors hrun hmem hq)

/-! ## Both ways -/

/-- **Rightly named accessors are accessible when a list was added, and where its ids are told apart, all accessors have to
be rightly named.** -/
theorem accessible_iff {list : Propertylist} (hadd : addPropertylist env s list = some (none, s')) :
    (Named env s.tables.descriptortable list.properties →
        ∀ p ∈ list.properties, p.isDynamic = true → Accessible env s' p) ∧
      (ToldApart list.properties → (∀ p ∈ list.properties, p.isDynamic = true → Accessible env s' p) →
        Named env s.tables.descriptortable list.properties) := by
  obtain ⟨t, hrun, htables, hids⟩ := addPropertylist_run hadd
  constructor
  · intro hnamed p hp hdynamic a ha
    rw [← map_made] at ha
    obtain ⟨x, hx, rfl⟩ := List.mem_map.mp ha
    rw [← htables, ← hids]
    refine ⟨?_, run_propertyid hrun p hp x.id (id_mem_accessors hx)⟩
    exact exists_descriptor_of_named hrun (fun a d hd => hd) (fun a d hd => Or.inl hd) hnamed p hp hdynamic x hx
  · intro htold haccessible
    have hdescriptor : ∀ p ∈ list.properties, p.isDynamic = true → ∀ x ∈ p.made,
        ∃ d, t.tables.descriptortable x.id = some d ∧ env.methodidFromString d.name = x.id := by
      intro p hp hdynamic x hx
      rw [htables]
      exact (haccessible p hp hdynamic x.id (id_mem_accessors hx)).1
    apply named_of_exists_descriptor hrun htold _ hdescriptor
    apply settled_of_getters hrun htold
    intro p hp hdynamic
    obtain ⟨d, hd, -⟩ := hdescriptor p hp hdynamic _ getter_mem_made
    exact ⟨d, hd⟩

end

/-! ## A property with two accessors, and one with a getter of another name -/

/-- A universe that warns about nothing, on a machine with pointers of eight bytes, with assertions -/
def sampleEnvironment : Environment where
  config := sampleConfig
  warn := ⟨.none, false, false, false, false⟩
  layout := Signature.commonLayout
  align := Lib.Alignment.roundUp
  sizeofPointer := 8
  uninitialized := 0

/-- No properties and no descriptors -/
def State.new : State := ⟨Tables.new, fun _ => none, false, []⟩

/-- `@property( dynamic) int name` -/
def dynamicName : Property where
  propertyid := 0xd39bde68
  ivarid := 0
  name := ['n', 'a', 'm', 'e']
  signature := ['i']
  getter := 0xd39bde68
  setter := 0x16ccd165
  adder := 0
  remover := 0
  bits := 0x400

theorem accessible_name :
    ∃ s', addPropertylist sampleEnvironment State.new ⟨[dynamicName]⟩ = some (none, s') ∧
      Accessible sampleEnvironment s' dynamicName := by
  have hreturned : (addPropertylist sampleEnvironment State.new ⟨[dynamicName]⟩).map Prod.fst = some none := by
    decide +kernel
  obtain ⟨⟨error, s'⟩, hadd, rfl⟩ := Option.map_eq_some_iff.mp hreturned
  have hmade : ∀ x ∈ dynamicName.made, x.methodid = x.id ∧ sampleEnvironment.methodidFromString x.name = x.id := by
    decide +kernel
  refine ⟨s', hadd, (accessible_iff hadd).1 ?_ dynamicName List.mem_cons_self (by decide)⟩
  intro p hp _ x hx
  rw [List.mem_singleton.mp hp] at hx
  exact ⟨fun d hd => absurd hd.symm (Option.some_ne_none d), fun _ => hmade x hx⟩

/-- `@property( dynamic, readonly, getter=title) int name` -/
def dynamicTitle : Property := { dynamicName with getter := 0x865b5099, setter := 0 }

/-- The descriptor of the getter is registered under the id of the property. -/
theorem not_accessible_title :
    ∃ s', addPropertylist sampleEnvironment State.new ⟨[dynamicTitle]⟩ = some (none, s') ∧
      s'.tables.descriptortable dynamicTitle.getter = none ∧ ¬ Accessible sampleEnvironment s' dynamicTitle := by
  have hreturned : (addPropertylist sampleEnvironment State.new ⟨[dynamicTitle]⟩).map
      (fun r => (r.1, (r.2.tables.descriptortable dynamicTitle.getter).isNone)) = some (none, true) := by
    decide +kernel
  obtain ⟨⟨error, s'⟩, hadd, hresult⟩ := Option.map_eq_some_iff.mp hreturned
  obtain ⟨rfl, hnone⟩ := Prod.mk.inj hresult
  have hnone : s'.tables.descriptortable dynamicTitle.getter = none := Option.isNone_iff_eq_none.mp hnone
  refine ⟨s', hadd, hnone, fun haccessible => ?_⟩
  obtain ⟨⟨d, hd, -⟩, -⟩ := haccessible dynamicTitle.getter List.mem_cons_self
  exact absurd (hnone.symm.trans hd) (Option.some_ne_none d).symm

end MulleObjcRuntime.Properties
