import Clausal.Clause

namespace Clausal

/-- A conjunction of clauses, in order. -/
structure Theory where
  clauses : List Clause := []
deriving DecidableEq, Repr

namespace Theory

instance : Inhabited Theory := ⟨⟨[]⟩⟩

/-- The names in a theory, in the order of their code points. -/
def names (t : Theory) : List String :=
  Text.sortedNames (t.clauses.flatMap fun c => c.literals.map Literal.name)

/-- Equal clauses at the same positions. -/
def sameAll : List Clause → List Clause → Bool
  | [], [] => true
  | c :: cs, d :: ds => c.same d && sameAll cs ds
  | _, _ => false

/-- The same clauses position by position, each up to the order of its literals. -/
def same (t u : Theory) : Bool :=
  sameAll t.clauses u.clauses

/-- The clauses joined by ampersands; the empty theory is true. -/
def text (t : Theory) : String :=
  if t.clauses.isEmpty then "true" else " & ".intercalate (t.clauses.map Clause.text)

/-- The expression that builds a theory. -/
def code (t : Theory) : String :=
  "Cnf([" ++ ", ".intercalate (t.clauses.map Clause.code) ++ "])"

/-- Whether all clauses are true: they are evaluated in order up to the first that is not. -/
def evaluateAll (model : Model) : List Clause → Except Fault Bool
  | [] => .ok true
  | c :: cs => do
    if ← c.evaluate model then evaluateAll model cs else return false

/-- The truth value of a theory. Clauses after the first false one are not looked at. -/
def evaluate (t : Theory) (model : Model) : Except Fault Bool :=
  evaluateAll model t.clauses

/-- The theory with one more clause at its end. -/
def add (t : Theory) (c : Clause) : Theory :=
  ⟨t.clauses ++ [c]⟩

/-- The clauses of the first theory followed by those of the second. -/
def append (t u : Theory) : Theory :=
  ⟨t.clauses ++ u.clauses⟩

/-- The first clause and the theory without it. -/
def uncons : Theory → Except Fault (Clause × Theory)
  | ⟨[]⟩ => .error .emptyTheory
  | ⟨c :: cs⟩ => .ok (c, ⟨cs⟩)

end Theory

end Clausal
