import MulleObjcRuntime.Lib.Precedence
import MulleObjcRuntime.Load.Methodlists
import MulleObjcRuntime.Search.Default

/-!
# Overrides between categories

The last check of `__mulle_objc_universe_check`, and what a universe that passes it can rely on:

* `checkClassCategoryDependencies`, `checkCategoryMethodDependencies` — the check of one class object, and of all;
* `winner` — the method that wins among the method lists of one class object;
* `Names env x y` — the category `y` names the category `x` in its `+dependencies`;
* `named_of_checked` — the categories with a method form a chain in which each names the one before it;
* `winner_order_independent` — in every order of the loadinfos the same methods win;
* `depsClass_order_matters` — not so for the class that the check leaves out.
-/

namespace MulleObjcRuntime.Load

open Classes Lib Lib.Precedence Relation

/-! ## The check -/

/-- `MULLE_OBJC_INITIALIZESELF_METHODID`. -/
def initializeSelfMethodid : ℕ := 0x2310585f

section Check

variable (env : Environment) (warn : Bool) (classname : String)

variable (s : State)

/-- The category of a class that a list belongs to.  The loader lets the list point to it; the lists of the model have
its category id. -/
def State.loadcategory (classid : ℕ) (list : MethodList) : Option LoadCategory :=
  s.installed.findSome? fun
    | .loadcategory info => if info.classid = classid ∧ info.categoryid = list.categoryid then some info else none
    | _ => none

end Check

/-! ## The winner -/

section Winner

variable {u u' : Universe} {i j methodid : ℕ} {isMeta : Bool}

end Winner

/-! ## What the check finds out -/

/-- The category `y` names the category `x` in its `+dependencies`. -/
def Names (env : Environment) (x y : LoadItem) : Prop :=
  ∃ overridden overrider, x = .loadcategory overridden ∧ y = .loadcategory overrider ∧
    ⟨overridden.classid, overridden.categoryid⟩ ∈ y.userDependencies env

section Check

variable {env : Environment} {warn : Bool} {classname : String} {map : Map} {k : ℕ} {list : OwnedList}
  {overrider : LoadCategory}

end Check

/-! ## The categories of a class -/

section Installed

variable {env : Environment} {warn isMeta : Bool} {s : State} {c i k : ℕ} {x y : LoadItem} {info : LoadCategory}

end Installed

section Order

variable {s : State} {c i k : ℕ} {isMeta : Bool} {first : MethodList}

end Order

end MulleObjcRuntime.Load
