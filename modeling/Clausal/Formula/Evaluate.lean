import Clausal.Formula.Fold
import Clausal.Model

namespace Clausal.Formula

/-- The truth value of a formula. All subformulas are evaluated, from left to right, also when the
value is settled earlier, so the leftmost name without a value is the one reported. -/
def evaluate (f : Formula) (model : Model) : Except Fault Bool :=
  f.fold model.value Connective.apply

/-- The truth value of a formula, found with one evaluation of each distinct subformula. -/
def evaluateShared (f : Formula) (model : Model) : Except Fault Bool :=
  f.foldShared model.value Connective.apply

end Clausal.Formula
