namespace Clausal

/-- The ways to join formulas. Conjunction and disjunction take any number of them, also none. -/
inductive Connective where
  | neg
  | conj
  | disj
  | imp
  | iff
deriving DecidableEq, Repr

namespace Connective

/-- The sign written between the joined formulas, or before the one that is negated. -/
def sign : Connective → String
  | neg => "-"
  | conj => "&"
  | disj => "|"
  | imp => "->"
  | iff => "<->"

/-- The noun for a formula that the connective heads. -/
def title : Connective → String
  | neg => "Negation"
  | conj => "Conjunction"
  | disj => "Disjunction"
  | imp => "Implication"
  | iff => "Equivalence"

/-- The truth value of the joined formula, from those of its parts in order.
A list of the wrong length for a connective of fixed arity counts as false. -/
def apply : Connective → List Bool → Bool
  | neg, [b] => !b
  | conj, bs => bs.all id
  | disj, bs => bs.any id
  | imp, [l, r] => !l || r
  | iff, [l, r] => l == r
  | _, _ => false

end Connective

end Clausal
