import Clausal.Session.Output
import Clausal.Session.Memory

namespace Clausal

/-- What can be asked of one value. -/
inductive Aspect where
  | text
  | code
  | truth
  | length
  | items
  | hashable
  | names
  | subs
  | subformulas
  | nodes
  | size
  | height
  | plain
  | unit
  | left
  | right
  | sub
  | name
  | variable
  | negated
  | connective
deriving DecidableEq, Repr

/-- What a request answers, and the value that may be kept under a name. -/
abbrev Result := Output × Option Value

namespace Value

/-- The left and the right side of a node with two sides. -/
def sides : Value → Except Fault (Formula × Formula)
  | formula (.imp l r) => .ok (l, r)
  | formula (.iff l r) => .ok (l, r)
  | _ => .error .missingPart

/-- What a value has to say about one of its aspects. A subformula can be kept. -/
def inspect (memory : Memory) (v : Value) : Aspect → Except Fault Result
  | .text => return (.text (v.text memory), none)
  | .code => return (.text (v.code memory), none)
  | .truth => return (.flag (v.truthy memory), none)
  | .length => do
    let vs ← v.items memory
    return (.number vs.length, none)
  | .items => do
    let vs ← v.items memory
    return (.texts (vs.map (code memory)), none)
  | .hashable => if v.isKey then return (.text "hashable", none) else throw .unsupported
  | .names => do
    let names ← v.names memory
    return (.texts names, none)
  | .subs => do
    let f ← v.asFormula
    return (.texts (f.subs.map Formula.code), none)
  | .subformulas => do
    let f ← v.asFormula
    return (.texts (f.subformulas.map Formula.code), none)
  | .nodes => do
    let f ← v.asFormula
    return (.number f.subformulas.length, none)
  | .size => do
    let f ← v.asFormula
    return (.number f.size, none)
  | .height => do
    let f ← v.asFormula
    return (.number f.height, none)
  | .plain => do
    let f ← v.asFormula
    return (.text f.text, none)
  | .unit =>
    match v with
    | clause c => return (.flag (memory.store.clause c).isUnit, none)
    | _ => throw .missingPart
  | .left => do
    let (l, _) ← v.sides
    return (.text l.code, some (formula l))
  | .right => do
    let (_, r) ← v.sides
    return (.text r.code, some (formula r))
  | .sub =>
    match v with
    | formula (.neg f) => return (.text f.code, some (formula f))
    | _ => throw .missingPart
  | .name =>
    match v with
    | formula (.var name) => return (.text name, none)
    | _ => throw .missingPart
  | .variable =>
    match v with
    | literal l => return (.text l.name, none)
    | _ => throw .missingPart
  | .negated =>
    match v with
    | literal l => return (.flag l.negated, none)
    | _ => throw .missingPart
  | .connective => do
    let f ← v.asFormula
    match f.connective? with
    | some c => return (.text c.sign, none)
    | none => throw .missingPart

end Value

end Clausal
