import Clausal.Fault
import Clausal.Table

namespace Clausal

/-- A model gives truth values to finitely many names. -/
abbrev Model := Table String Bool

namespace Model

/-- The value of a name, or the fault that names it. -/
def value (model : Model) (name : String) : Except Fault Bool :=
  match model.get? name with
  | some b => .ok b
  | none => .error (.unassigned name)

/-- Every model of the given names, counting up in binary: the last name changes fastest, and false
comes before true. A name that is listed twice is set twice. -/
def enumerate (names : List String) : List Model :=
  names.foldl
    (fun models name =>
      models.flatMap fun model => [model.insert name false, model.insert name true])
    [⟨[]⟩]

end Model

end Clausal
