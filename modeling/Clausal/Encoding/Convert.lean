import Clausal.Formula.Subformulas
import Clausal.NameSource
import Clausal.Encoding.Declaration
import Clausal.Encoding.Defining

namespace Clausal

namespace Encoding

/-- How far a conversion has come: the source of its names, and the defining clauses so far. -/
structure Progress where
  source : NameSource
  definitions : Array Clause := #[]

/-- The name declared by a subformula's theory, stripped off it. -/
def declaredBy (result : Theory × Progress) : Except Fault (String × Progress) := do
  let (name, _) ← result.1.takeDeclared
  return (name, result.2)

/-- Names a node, converts its subformulas in order, and defines the node's name by theirs. What
the node returns is the declaration of its name. -/
def join (ambient : String) (c : Connective)
    (visitSubs : Progress → Except Fault (List String × Progress)) (progress : Progress) :
    Except Fault (Theory × Progress) := do
  let (name, source) := progress.source.draw ambient
  let (parts, progress) ← visitSubs { progress with source }
  let clauses ← c.defining name parts
  return (⟨[.declaring name]⟩, { progress with definitions := progress.definitions ++ clauses })

mutual

/-- The declaration of the name of a formula: a variable's own, or a new one. The clauses that
define new names are added to those so far, those of a node after those of its subformulas. -/
def visit (ambient : String) : Formula → Progress → Except Fault (Theory × Progress)
  | .var name, progress => return (⟨[.declaring name]⟩, progress)
  | .neg sub, progress =>
    join ambient .neg (fun progress => do
      let (part, progress) ← visit ambient sub progress >>= declaredBy
      return ([part], progress)) progress
  | .conj subs, progress => join ambient .conj (visitAll ambient subs) progress
  | .disj subs, progress => join ambient .disj (visitAll ambient subs) progress
  | .imp left right, progress =>
    join ambient .imp (fun progress => do
      let (l, progress) ← visit ambient left progress >>= declaredBy
      let (r, progress) ← visit ambient right progress >>= declaredBy
      return ([l, r], progress)) progress
  | .iff left right, progress =>
    join ambient .iff (fun progress => do
      let (l, progress) ← visit ambient left progress >>= declaredBy
      let (r, progress) ← visit ambient right progress >>= declaredBy
      return ([l, r], progress)) progress

/-- The names declared by formulas that are converted one after the other. -/
def visitAll (ambient : String) : List Formula → Progress → Except Fault (List String × Progress)
  | [], progress => return ([], progress)
  | f :: fs, progress => do
    let (part, progress) ← visit ambient f progress >>= declaredBy
    let (parts, progress) ← visitAll ambient fs progress
    return (part :: parts, progress)

end

end Encoding

/-- A formula in clausal form: the theory, whose first clause declares the name of the formula, and
the source of names before and after. -/
structure Conversion where
  theory : Theory
  before : NameSource
  after : NameSource
deriving DecidableEq, Repr

namespace Conversion

/-- The number of names drawn. -/
def drawn (conversion : Conversion) : Nat :=
  conversion.after.count - conversion.before.count

/-- What the log says about a conversion. -/
def report (conversion : Conversion) : String :=
  "Converted formula to " ++ toString conversion.theory.clauses.length ++ " clauses with " ++
    toString conversion.drawn ++ " auxiliary variables"

end Conversion

namespace Formula

/-- The variables of a formula that look like names the source may issue, in the order of their
code points. -/
def clashes (f : Formula) (source : NameSource) (ambient : String) : List String :=
  f.names.filter (source.recognises ambient)

/-- Brings a formula into clausal form with new names from the source. If asked to check, it refuses
a formula with variables that look like such names before any name is drawn. -/
def convert (f : Formula) (source : NameSource) (ambient : String) (check : Bool) :
    Except Fault Conversion := do
  if check && !(f.clashes source ambient).isEmpty then
    throw (.clashes (f.clashes source ambient) (source.code ambient))
  let (declaration, progress) ← Encoding.visit ambient f { source }
  return {
    theory := declaration.append ⟨progress.definitions.toList⟩
    before := source
    after := progress.source }

end Formula

end Clausal
