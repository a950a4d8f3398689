import MulleObjcRuntime.Descriptors.Order
import MulleObjcRuntime.Properties.Defs
import MulleObjcRuntime.Registry.Defs
import MulleObjcRuntime.Signature.Size

/-!
# The accessors of the properties that are added to a class

* `Environment`, `State` — what the runtime is compiled for, and what adding a property list reads and writes;
* `registerDescriptorsForProperty` — the descriptors that a dynamic property gets for its accessors;
* `addPropertylist` — `_mulle_objc_infraclass_add_propertylist`;
* `Asks`, `addProperty_asks` — what one property adds to the descriptors;
* `addProperty_propertyid` — what one property adds to the property ids of methods.
-/

namespace MulleObjcRuntime.Properties

open Descriptors Registry Signature

/-- What the runtime is compiled for, what its universe warns about, and what is in a variable that nothing was written
to. -/
structure Environment where
  config : Config
  warn : Warn
  layout : Layout
  align : ℕ → ℕ → ℕ
  sizeofPointer : ℕ
  uninitialized : ℕ

/-- The tables of the universe for descriptors and for property ids, and what is written to the class. -/
structure State where
  tables : Tables
  propertyidtable : ℕ → Option ℕ
  hasClearableProperty : Bool
  propertylists : List Propertylist

/-- `mulle_objc_methodid_from_string` -/
def Environment.methodidFromString (env : Environment) (s : List Char) : ℕ := (uniqueidFromString env.config s).toNat

/-- `mulle_objc_uniqueid_is_sane` -/
def uniqueidIsSane (uniqueid : ℕ) : Bool := uniqueid ≠ noUniqueid.toNat && uniqueid ≠ invalidUniqueid.toNat

/-! ## Bits of a property -/

/-- `_mulle_objc_property_is_clearable` -/
def Property.isClearable (p : Property) : Bool := p.bits &&& (0x10000 ||| 0x20000 ||| 0x200000) ≠ 0

/-- `_mulle_objc_property_dynamic` is set. -/
def Property.isDynamic (p : Property) : Bool := p.bits &&& 0x400 ≠ 0

/-! ## Descriptors -/

/-- What `printf` makes of an `int` for `%d` -/
def decimal (n : BitVec 32) : List Char :=
  if n.msb then '-' :: Nat.toDigits 10 (-n).toNat else Nat.toDigits 10 n.toNat

/-- The name of an accessor: a prefix, the name of the property with a big first letter and a colon -/
def accessorName (start name : List Char) : List Char :=
  let capitalized := match name with
    | [] => []
    | c :: name => (if 'a' ≤ c ∧ c ≤ 'z' then Char.ofNat (c.toNat - 'a'.toNat + 'A'.toNat) else c) :: name
  start ++ capitalized ++ [':']

/-- The methods with families of their own, `_mulle_objc_methodfamily_getter` and so on -/
def methodfamilyGetter : ℕ := 32

def methodfamilySetter : ℕ := 33

def methodfamilyAdder : ℕ := 34

def methodfamilyRemover : ℕ := 35

/-- The bits of a descriptor of the family -/
def familyBits (family : ℕ) : ℕ := family <<< 16

/-- The accessors of a property that have no descriptors, the `bits` of the source -/
structure Missing where
  getter : Bool
  setter : Bool
  adder : Bool
  remover : Bool
deriving DecidableEq, Repr

section Descriptors

variable (env : Environment) (p : Property)

/-- The `@encode` part of the signature of a property -/
def Property.type : List Char := p.signature.takeWhile (· ≠ ',')

/-- The descriptor of a getter -/
def getterDescriptor : Descriptor where
  methodid := p.propertyid
  name := p.name
  signature := p.type ++ decimal (.ofNat 32 (env.sizeofPointer + env.sizeofPointer)) ++ ['@', '0', ':'] ++
    decimal (.ofNat 32 env.sizeofPointer)
  bits := familyBits methodfamilyGetter

/-- `_mulle_objc_universe_set_setter_name_signature`.  It asserts that the name has the method id. -/
def setSetterNameSignature (accessor : Descriptor) (start name signature type : List Char) : Option Descriptor :=
  let size := (supplySizeAndAlignment env.layout env.align signature).elim env.uninitialized fun r => r.1
  if ¬ env.warn.ndebug ∧ env.methodidFromString (accessorName start name) ≠ accessor.methodid then none
  else
    some { accessor with
      name := accessorName start name
      signature := ['v'] ++ decimal (.ofNat 32 (size + env.sizeofPointer + env.sizeofPointer)) ++ ['@', '0', ':'] ++
        decimal (.ofNat 32 env.sizeofPointer) ++ type ++ decimal (.ofNat 32 (env.sizeofPointer + env.sizeofPointer)) }

/-- A getter is registered, if its signature goes into the buffer. -/
def registerGetter (u : Tables) : Option Tables :=
  if 512 < p.type.length + 40 + 3 + 1 then none else register env.warn u (getterDescriptor env p)

/-- A setter, an adder or a remover is registered. -/
def registerSetter (methodid family : ℕ) (start : List Char) (u : Tables) : Option Tables :=
  (setSetterNameSignature env ⟨methodid, [], [], familyBits family⟩ start p.name p.signature p.type).bind
    (register env.warn u)

/-- What is done if it has to be done -/
def doIf (bit : Bool) (f : Tables → Option Tables) (u : Tables) : Option Tables := if bit then f u else some u

/-- `"set"` -/
def setPrefix : List Char := ['s', 'e', 't']

/-- `"addTo"` -/
def addToPrefix : List Char := ['a', 'd', 'd', 'T', 'o']

/-- `"removeFrom"` -/
def removeFromPrefix : List Char := ['r', 'e', 'm', 'o', 'v', 'e', 'F', 'r', 'o', 'm']

/-- `_mulle_objc_universe_register_descriptors_for_property` -/
def registerDescriptorsForProperty (bits : Missing) (u : Tables) : Option Tables :=
  (doIf bits.getter (registerGetter env p) u).bind fun u =>
  (doIf bits.setter (registerSetter env p p.setter methodfamilySetter setPrefix) u).bind fun u =>
  (doIf bits.adder (registerSetter env p p.adder methodfamilyAdder addToPrefix) u).bind fun u =>
  doIf bits.remover (registerSetter env p p.remover methodfamilyRemover removeFromPrefix) u

/-- The accessors without descriptors.  A property may do without a setter, an adder and a remover. -/
def Property.missing (u : Tables) : Missing where
  getter := (u.descriptortable p.getter).isNone
  setter := p.setter ≠ 0 && (u.descriptortable p.setter).isNone
  adder := p.adder ≠ 0 && (u.descriptortable p.adder).isNone
  remover := p.remover ≠ 0 && (u.descriptortable p.remover).isNone

end Descriptors

/-! ## Adding properties -/

/-- `mulle_objc_universe_register_propertyid_for_methodid_nofail` -/
def registerPropertyidForMethodid (propertyid methodid : ℕ) (table : ℕ → Option ℕ) : Option (ℕ → Option ℕ) :=
  if uniqueidIsSane propertyid && uniqueidIsSane methodid then
    match table methodid with
    | none => some (Function.update table methodid (some propertyid))
    | some dup => if dup = propertyid then some table else none
  else none

/-- The method ids of the accessors that a property has -/
def Property.accessors (p : Property) : List ℕ := p.getter :: [p.setter, p.adder, p.remover].filter (· ≠ 0)

/-- The property id is registered for each accessor. -/
def registerPropertyid (p : Property) (table : ℕ → Option ℕ) : Option (ℕ → Option ℕ) :=
  p.accessors.foldlM (fun table methodid => registerPropertyidForMethodid p.propertyid methodid table) table

/-- One property in the loop of `_mulle_objc_infraclass_add_propertylist`, behind the test of the order -/
def addProperty (env : Environment) (s : State) (p : Property) : Option State := do
  let u ← doIf p.isDynamic (fun u => registerDescriptorsForProperty env p (p.missing u) u) s.tables
  let table ← registerPropertyid p s.propertyidtable
  return ⟨u, table, s.hasClearableProperty || p.isClearable, s.propertylists⟩

/-- The loop of `_mulle_objc_infraclass_add_propertylist`, with what it returns: `none` at the end of the list, and an
error if the properties are not sorted. -/
def addProperties (env : Environment) : ℕ → State → List Property → Option (Option Errno × State)
  | _, s, [] => some (none, s)
  | last, s, p :: properties =>
    if ¬ env.warn.ndebug ∧ uniqueidIsSane p.propertyid = false then none
    else if p.propertyid < last then some (some .edom, s)
    else (addProperty env s p).bind fun s => addProperties env p.propertyid s properties

/-- `_mulle_objc_infraclass_add_propertylist`.  It returns an error or none; there is no result where the program
stops. -/
def addPropertylist (env : Environment) (s : State) (list : Propertylist) : Option (Option Errno × State) :=
  (addProperties env 0 s list.properties).map fun r =>
    if r.1 = none then (none, { r.2 with propertylists := r.2.propertylists ++ [list] }) else r

/-! ## What one property asks for -/

/-- What is registered for an accessor that has no descriptor: not always its own id -/
structure Accessor where
  id : ℕ
  methodid : ℕ
  name : List Char
deriving DecidableEq, Repr

/-- A setter, an adder or a remover, if there is one -/
def Property.setterMade (p : Property) (methodid : ℕ) (start : List Char) : List Accessor :=
  if methodid = 0 then [] else [⟨methodid, methodid, accessorName start p.name⟩]

/-- The accessors of a property, with what is registered for them -/
def Property.made (p : Property) : List Accessor :=
  ⟨p.getter, p.propertyid, p.name⟩ ::
    (p.setterMade p.setter setPrefix ++ (p.setterMade p.adder addToPrefix ++ p.setterMade p.remover removeFromPrefix))

/-- The method id and the name that are asked for if the accessor has no descriptor -/
def askedFor (D : ℕ → Option Descriptor) (x : Accessor) : List (ℕ × List Char) :=
  if (D x.id).isNone then [(x.methodid, x.name)] else []

/-- What a property asks for -/
def Property.asks (p : Property) (D : ℕ → Option Descriptor) : List (ℕ × List Char) :=
  if p.isDynamic then p.made.flatMap (askedFor D) else []

/-- What was there is there, what was asked for is there under the name asked for, and nothing else is there. -/
structure Asks (D D' : ℕ → Option Descriptor) (asked : List (ℕ × List Char)) : Prop where
  keep : ∀ a d, D a = some d → D' a = some d
  named : ∀ x ∈ asked, ∃ d, D' x.1 = some d ∧ d.name = x.2
  only : ∀ a d, D' a = some d → D a = some d ∨ (a, d.name) ∈ asked

namespace Asks

variable {D D' D'' : ℕ → Option Descriptor} {asked asked' : List (ℕ × List Char)}

protected lemma refl (D : ℕ → Option Descriptor) : Asks D D [] :=
  ⟨fun _ _ h => h, fun _ hx => absurd hx List.not_mem_nil, fun _ _ h => Or.inl h⟩

protected lemma trans (h : Asks D D' asked) (h' : Asks D' D'' asked') : Asks D D'' (asked ++ asked') where
  keep a d hd := h'.keep a d (h.keep a d hd)
  named x hx := by
    rcases List.mem_append.mp hx with hx | hx
    · obtain ⟨d, hd, hname⟩ := h.named x hx
      exact ⟨d, h'.keep _ d hd, hname⟩
    · exact h'.named x hx
  only a d hd := by
    rcases h'.only a d hd with hd | hmem
    · exact (h.only a d hd).imp_right fun hmem => List.mem_append_left _ hmem
    · exact Or.inr (List.mem_append_right _ hmem)

end Asks

section Register

variable {env : Environment} {p : Property} {w : Warn} {u u' : Tables} {d : Descriptor}

/-- A descriptor is new, or there is one of the same name. -/
lemma register_cases (h : register w u d = some u') :
    (u.descriptortable d.methodid = none ∧
        u'.descriptortable = Function.update u.descriptortable d.methodid (some d)) ∨
      ∃ dup, u.descriptortable d.methodid = some dup ∧ dup.name = d.name ∧ u'.descriptortable = u.descriptortable := by
  obtain ⟨⟨d', u''⟩, hregister, rfl⟩ := Option.map_eq_some_iff.mp h
  clear h
  unfold registerDescriptor at hregister
  cases hdup : u.descriptortable d.methodid with
  | none =>
    simp only [hdup] at hregister
    cases hregister
    exact Or.inl ⟨rfl, rfl⟩
  | some dup =>
    simp only [hdup] at hregister
    by_cases hname : dup.name = d.name
    · refine Or.inr ⟨dup, rfl, hname, ?_⟩
      rw [if_pos hname] at hregister
      cases hcomparison : signatureComparison w dup.signature d.signature with
      | none =>
        simp only [hcomparison] at hregister
        cases hregister
      | some comparison =>
        simp only [hcomparison] at hregister
        split at hregister
        · split at hregister
          · cases hregister
          · cases hregister
            rfl
        · cases hregister
          rfl
    · rw [if_neg hname] at hregister
      cases hregister

lemma register_asks (h : register w u d = some u') : Asks u.descriptortable u'.descriptortable [(d.methodid, d.name)] := by
  obtain ⟨hnone, htable⟩ | ⟨dup, hdup, hname, htable⟩ := register_cases h
  · rw [htable]
    refine ⟨fun a e he => ?_, fun x hx => ?_, fun a e he => ?_⟩
    · rw [Function.update_of_ne]
      · exact he
      · rintro rfl
        exact absurd (hnone.symm.trans he) (Option.some_ne_none e).symm
    · rw [List.mem_singleton.mp hx]
      exact ⟨d, Function.update_self _ _ _, rfl⟩
    · by_cases ha : a = d.methodid
      · subst ha
        rw [Function.update_self] at he
        cases he
        exact Or.inr List.mem_cons_self
      · rw [Function.update_of_ne ha] at he
        exact Or.inl he
  · rw [htable]
    refine ⟨fun a e he => he, fun x hx => ?_, fun a e he => Or.inl he⟩
    rw [List.mem_singleton.mp hx]
    exact ⟨dup, hdup, hname⟩

lemma doIf_asks {bit : Bool} {f : Tables → Option Tables} {asked : List (ℕ × List Char)} (h : doIf bit f u = some u')
    (hf : f u = some u' → Asks u.descriptortable u'.descriptortable asked) :
    Asks u.descriptortable u'.descriptortable (if bit then asked else []) := by
  cases bit
  · cases h
    exact Asks.refl _
  · exact hf h

lemma registerGetter_asks (h : registerGetter env p u = some u') :
    Asks u.descriptortable u'.descriptortable [(p.propertyid, p.name)] := by
  unfold registerGetter at h
  split at h
  · cases h
  · exact register_asks h

lemma registerSetter_asks {methodid family : ℕ} {start : List Char}
    (h : registerSetter env p methodid family start u = some u') :
    Asks u.descriptortable u'.descriptortable [(methodid, accessorName start p.name)] := by
  obtain ⟨d, hd, h⟩ := Option.bind_eq_some_iff.mp h
  unfold setSetterNameSignature at hd
  split at hd
  · cases hd
  · cases hd
    exact register_asks h

lemma doIf_setter_asks {D : ℕ → Option Descriptor} {methodid family : ℕ} {start : List Char}
    (h : doIf (methodid ≠ 0 && (D methodid).isNone) (registerSetter env p methodid family start) u = some u') :
    Asks u.descriptortable u'.descriptortable ((p.setterMade methodid start).flatMap (askedFor D)) := by
  have hasks := doIf_asks h registerSetter_asks
  unfold Property.setterMade
  by_cases hzero : methodid = 0
  · rw [if_pos hzero]
    simpa [hzero] using hasks
  · rw [if_neg hzero, List.flatMap_singleton]
    simpa [hzero, askedFor] using hasks

/-- **What is asked for by a dynamic property.** -/
lemma registerDescriptorsForProperty_asks {u₀ : Tables}
    (h : registerDescriptorsForProperty env p (p.missing u₀) u = some u') :
    Asks u.descriptortable u'.descriptortable (p.made.flatMap (askedFor u₀.descriptortable)) := by
  obtain ⟨u₁, hgetter, h⟩ := Option.bind_eq_some_iff.mp h
  obtain ⟨u₂, hsetter, h⟩ := Option.bind_eq_some_iff.mp h
  obtain ⟨u₃, hadder, hremover⟩ := Option.bind_eq_some_iff.mp h
  rw [Property.made, List.flatMap_cons, List.flatMap_append, List.flatMap_append]
  have hgetter : Asks u.descriptortable u₁.descriptortable
      (askedFor u₀.descriptortable ⟨p.getter, p.propertyid, p.name⟩) := doIf_asks hgetter registerGetter_asks
  exact hgetter.trans ((doIf_setter_asks hsetter).trans ((doIf_setter_asks hadder).trans (doIf_setter_asks hremover)))

end Register

section Add

variable {env : Environment} {s t : State} {p : Property} {table table' : ℕ → Option ℕ} {propertyid methodid : ℕ}

lemma addProperty_eq_some (h : addProperty env s p = some t) :
    doIf p.isDynamic (fun u => registerDescriptorsForProperty env p (p.missing u) u) s.tables = some t.tables ∧
      registerPropertyid p s.propertyidtable = some t.propertyidtable := by
  unfold addProperty at h
  obtain ⟨u, hu, h⟩ := Option.bind_eq_some_iff.mp h
  obtain ⟨table, htable, h⟩ := Option.bind_eq_some_iff.mp h
  cases h
  exact ⟨hu, htable⟩

/-- **What one property adds to the descriptors.** -/
theorem addProperty_asks (h : addProperty env s p = some t) :
    Asks s.tables.descriptortable t.tables.descriptortable (p.asks s.tables.descriptortable) :=
  doIf_asks (addProperty_eq_some h).1 registerDescriptorsForProperty_asks

lemma registerPropertyidForMethodid_spec (h : registerPropertyidForMethodid propertyid methodid table = some table') :
    table' methodid = some propertyid ∧ ∀ a i, table a = some i → table' a = some i := by
  unfold registerPropertyidForMethodid at h
  split at h
  · cases hdup : table methodid with
    | none =>
      simp only [hdup, Option.some.injEq] at h
      subst h
      refine ⟨Function.update_self _ _ _, fun a i hi => ?_⟩
      rw [Function.update_of_ne]
      · exact hi
      · rintro rfl
        exact absurd (hdup.symm.trans hi) (Option.some_ne_none i).symm
    | some dup =>
      simp only [hdup, Option.ite_none_right_eq_some, Option.some.injEq] at h
      obtain ⟨rfl, rfl⟩ := h
      exact ⟨hdup, fun a i hi => hi⟩
  · cases h

/-- **What one property adds to the property ids of methods.** -/
theorem addProperty_propertyid (h : addProperty env s p = some t) :
    (∀ a ∈ p.accessors, t.propertyidtable a = some p.propertyid) ∧
      ∀ a i, s.propertyidtable a = some i → t.propertyidtable a = some i := by
  have hregister := (addProperty_eq_some h).2
  unfold registerPropertyid at hregister
  generalize p.accessors = accessors at hregister ⊢
  generalize s.propertyidtable = table at hregister ⊢
  induction accessors generalizing table with
  | nil =>
    cases hregister
    exact ⟨fun a ha => absurd ha List.not_mem_nil, fun a i hi => hi⟩
  | cons methodid accessors ih =>
    rw [List.foldlM_cons] at hregister
    obtain ⟨table', hhead, hrest⟩ := Option.bind_eq_some_iff.mp hregister
    obtain ⟨hself, hkept⟩ := registerPropertyidForMethodid_spec hhead
    obtain ⟨hall, hkept'⟩ := ih table' hrest
    exact ⟨List.forall_mem_cons.mpr ⟨hkept' _ _ hself, hall⟩, fun a i hi => hkept' a i (hkept a i hi)⟩

end Add

lemma map_made (p : Property) : p.made.map (·.id) = p.accessors := by
  unfold Property.made Property.accessors Property.setterMade
  by_cases hsetter : p.setter = 0 <;> by_cases hadder : p.adder = 0 <;> by_cases hremover : p.remover = 0 <;>
    simp [hsetter, hadder, hremover]

end MulleObjcRuntime.Properties
