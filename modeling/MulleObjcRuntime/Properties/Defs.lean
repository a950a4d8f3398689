import Mathlib.Data.Nat.Notation

/-!
# Properties

* `Property` — what the compiler emits for a property;
* `Property.hasAccessor` — the test of a method id against the getter, setter, adder and remover;
* `Propertylist` — the properties of a class or of one of its categories.
-/

namespace MulleObjcRuntime.Properties

/-- A `_mulle_objc_property`.  A missing accessor is `0`. -/
structure Property where
  propertyid : ℕ
  ivarid : ℕ
  name : List Char
  signature : List Char
  getter : ℕ
  setter : ℕ
  adder : ℕ
  remover : ℕ
  bits : ℕ
deriving DecidableEq, Repr

/-- The method id is that of an accessor. -/
def Property.hasAccessor (p : Property) (methodid : ℕ) : Bool :=
  p.getter == methodid || p.setter == methodid || p.adder == methodid || p.remover == methodid

/-- A `_mulle_objc_propertylist`. -/
structure Propertylist where
  properties : List Property
deriving DecidableEq, Repr

end MulleObjcRuntime.Properties
