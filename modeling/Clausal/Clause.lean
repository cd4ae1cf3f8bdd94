import Clausal.Literal
import Clausal.Text.Names

namespace Clausal

/-- A disjunction of literals, in the order in which they were added. -/
structure Clause where
  literals : List Literal := []
deriving DecidableEq, Repr

namespace Clause

instance : Inhabited Clause := ⟨⟨[]⟩⟩

/-- Exactly one literal. -/
def isUnit (c : Clause) : Bool :=
  c.literals.length == 1

/-- The names in a clause, in the order of their code points. -/
def names (c : Clause) : List String :=
  Text.sortedNames (c.literals.map Literal.name)

/-- The same literals, each as often in the one as in the other, in any order. -/
def same (c d : Clause) : Bool :=
  c.literals.all (fun l => c.literals.count l == d.literals.count l) &&
    d.literals.all (fun l => c.literals.count l == d.literals.count l)

/-- The literals joined by bars, in parentheses. -/
def text (c : Clause) : String :=
  "(" ++ " | ".intercalate (c.literals.map Literal.text) ++ ")"

/-- The expression that builds a clause. -/
def code (c : Clause) : String :=
  "Clause([" ++ ", ".intercalate (c.literals.map Literal.code) ++ "])"

/-- Whether one of the literals is true: they are evaluated in order up to the first that is. -/
def evaluateAny (model : Model) : List Literal → Except Fault Bool
  | [] => .ok false
  | l :: ls => do
    if ← l.evaluate model then return true
    evaluateAny model ls

/-- The truth value of a clause. Literals after the first true one are not looked at. -/
def evaluate (c : Clause) (model : Model) : Except Fault Bool :=
  evaluateAny model c.literals

/-- The clause with one more literal at its end. -/
def add (c : Clause) (l : Literal) : Clause :=
  ⟨c.literals ++ [l]⟩

/-- The first literal and the clause without it. -/
def uncons : Clause → Except Fault (Literal × Clause)
  | ⟨[]⟩ => .error .emptyClause
  | ⟨l :: ls⟩ => .ok (l, ⟨ls⟩)

end Clause

end Clausal
