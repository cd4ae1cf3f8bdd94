import Clausal.Formula.Basic

namespace Clausal

/-- Relations between two formulas. -/
inductive Relation where
  | xor
  | nand
  | nor
  | implies
  | impliedBy
  | iff
  | both
  | either
deriving DecidableEq, Repr

namespace Relation

/-- The formula that asserts a relation: a connective of its own, or the negation of one. -/
def formula : Relation → Formula → Formula → Formula
  | xor, f, g => .neg (.iff f g)
  | nand, f, g => .neg (.conj [f, g])
  | nor, f, g => .neg (.disj [f, g])
  | implies, f, g => .imp f g
  | impliedBy, f, g => .imp g f
  | iff, f, g => .iff f g
  | both, f, g => .conj [f, g]
  | either, f, g => .disj [f, g]

/-- The connective that joins the two formulas. -/
def connective : Relation → Connective
  | xor => .iff
  | nand => .conj
  | nor => .disj
  | implies => .imp
  | impliedBy => .imp
  | iff => .iff
  | both => .conj
  | either => .disj

/-- The truth value of the relation between two truth values. -/
def holds : Relation → Bool → Bool → Bool
  | xor, a, b => a != b
  | nand, a, b => !(a && b)
  | nor, a, b => !(a || b)
  | implies, a, b => !a || b
  | impliedBy, a, b => !b || a
  | iff, a, b => a == b
  | both, a, b => a && b
  | either, a, b => a || b

end Relation

end Clausal
