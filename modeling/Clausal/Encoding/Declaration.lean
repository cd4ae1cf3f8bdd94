import Clausal.Theory

namespace Clausal

/-- The clause that declares a name: its assertion alone. -/
def Clause.declaring (name : String) : Clause :=
  ⟨[.pos name]⟩

/-- The name that a clause declares. It must be a single literal that asserts it. -/
def Clause.declared (c : Clause) : Except Fault String := do
  if !c.isUnit then throw (.notUnit c.text)
  let (l, _) ← c.uncons
  if l.negated then throw (.negatedDeclaration l.name)
  return l.name

/-- The name that the first clause of a theory declares, and the theory without that clause. -/
def Theory.takeDeclared (t : Theory) : Except Fault (String × Theory) := do
  let (c, rest) ← t.uncons
  let name ← c.declared
  return (name, rest)

@[simp]
theorem Clause.declared_declaring (name : String) :
    (Clause.declaring name).declared = .ok name := rfl

end Clausal
