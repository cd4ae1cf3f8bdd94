import Clausal.Model
import Clausal.Text.Quoted

namespace Clausal

/-- A name, asserted or denied. -/
structure Literal where
  name : String
  negated : Bool := false
deriving DecidableEq, Hashable, Repr

namespace Literal

/-- The literal that asserts a name. -/
def pos (name : String) : Literal := ⟨name, false⟩

/-- The literal that denies a name. -/
def neg (name : String) : Literal := ⟨name, true⟩

/-- The literal of the same name with the opposite sign. -/
def opposite (l : Literal) : Literal := ⟨l.name, !l.negated⟩

/-- The name, with a minus sign in front where it is denied. -/
def text (l : Literal) : String :=
  if l.negated then "-" ++ l.name else l.name

/-- The expression that builds a literal. -/
def code (l : Literal) : String :=
  "Literal(" ++ Text.quoted l.name ++ (if l.negated then ", negated=True)" else ")")

/-- The truth value of a literal. -/
def evaluate (l : Literal) (model : Model) : Except Fault Bool := do
  let b ← model.value l.name
  return b != l.negated

@[simp]
theorem opposite_opposite (l : Literal) : l.opposite.opposite = l := by
  cases l
  simp [opposite]

end Literal

end Clausal
