import Clausal.Formula.Basic
import Clausal.Store.Copy

namespace Clausal

/-- The place of a list in a memory. -/
structure ListId where
  index : Nat
deriving DecidableEq, Repr

/-- What a session can hold: a formula or a literal, the place of a clause, a theory or a list, or
data that are not a list. -/
inductive Value where
  | formula (f : Formula)
  | literal (l : Literal)
  | clause (c : ClauseId)
  | theory (t : TheoryId)
  | list (l : ListId)
  | datum (d : Datum)
deriving Inhabited

namespace Value

/-- Whether a value never changes, so that it can be looked up in a set. -/
def isKey : Value → Bool
  | formula _ => true
  | literal _ => true
  | clause _ => false
  | theory _ => false
  | list _ => false
  | datum d => d.isKey

/-- Whether a value is the only copy of itself, as a formula and data without parts are. -/
def isOwnCopy : Value → Bool
  | formula _ => true
  | datum d => d.isKey
  | _ => false

/-- Whether something can be added to a value. -/
def canGrow : Value → Bool
  | clause _ => true
  | theory _ => true
  | list _ => true
  | _ => false

/-- The formula that a value is; other values have no parts of that kind. -/
def asFormula : Value → Except Fault Formula
  | formula f => .ok f
  | _ => .error .missingPart

end Value

end Clausal
