import Clausal.Formula.Relation
import Clausal.Session.Memory

namespace Clausal

/-- The kinds of values that are made of any number of parts. -/
inductive Gathering where
  | conj
  | disj
  | clause
  | theory
deriving DecidableEq, Repr

/-- Expressions for values. -/
inductive Expr where
  /-- The value kept under a name. -/
  | kept (name : String)
  /-- A value that is there from the start. -/
  | given (v : Value)
  | var (name : Datum)
  | literal (name : String) (negated : Datum)
  | neg (sub : Expr)
  /-- The parts are given one by one. -/
  | gather (kind : Gathering) (parts : List Expr)
  /-- The parts are those of another value. -/
  | gatherFrom (kind : Gathering) (whole : Expr)
  | imp (parts : List Expr)
  | iff (parts : List Expr)
  /-- The negation of a formula, or the literal of opposite sign. -/
  | opposite (sub : Expr)
  /-- A number of negations, one around the other. -/
  | nested (count : Nat) (sub : Expr)
  /-- The connective applied to a formula and itself, a number of times over. -/
  | doubled (c : Connective) (count : Nat) (sub : Expr)
  /-- A connective written between two formulas. -/
  | between (c : Connective) (left right : Expr)
  | relation (r : Relation) (left right : Expr)
  /-- A kind of formula that has no formulas of its own. -/
  | generic (parts : List Expr)

/-- Work that may put new clauses and theories into a memory. -/
abbrev Build := StateT Memory (Except Fault)

namespace Build

/-- The values as formulas; the first that is none is the fault of the node that was to hold it. -/
def formulas (owner : String) : List Value → Build (List Formula)
  | [] => return []
  | .formula f :: vs => do
    let fs ← formulas owner vs
    return f :: fs
  | v :: _ => do
    throw (.notFormula owner (v.code (← get)))

/-- A node of the given connective, from the right number of formulas. -/
def node (c : Connective) (vs : List Value) : Build Value := do
  let fs ← formulas c.title vs
  match Formula.node? c fs with
  | some f => return .formula f
  | none => throw .unsupported

/-- The values as literals. -/
def literals : List Value → Build (List Literal)
  | [] => return []
  | .literal l :: vs => do
    let ls ← literals vs
    return l :: ls
  | v :: _ => do
    throw (.notLiteral (v.code (← get)))

/-- The values as places of clauses. -/
def clauses : List Value → Build (List ClauseId)
  | [] => return []
  | .clause c :: vs => do
    let cs ← clauses vs
    return c :: cs
  | v :: _ => do
    throw (.notClause (v.code (← get)))

/-- A value made of the given parts. Clauses and theories are put into new places; a theory shares
the clauses it is made of. -/
def gather (kind : Gathering) (vs : List Value) : Build Value :=
  match kind with
  | .conj => node .conj vs
  | .disj => node .disj vs
  | .clause => do
    let ls ← literals vs
    let memory ← get
    let (c, store) := memory.store.newClause ⟨ls⟩
    set { memory with store }
    return .clause c
  | .theory => do
    let cs ← clauses vs
    let memory ← get
    let (t, store) := memory.store.newTheory cs
    set { memory with store }
    return .theory t

/-- A connective of two places takes two parts, no more and no fewer. -/
def pair (c : Connective) (vs : List Value) : Build Value :=
  if vs.length = 2 then node c vs else throw .unsupported

/-- A variable, from data that must be text that is not empty. -/
def named (name : Datum) : Build Value :=
  match name with
  | .text s => if s = "" then throw .emptyName else return .formula (.var s)
  | name => throw (.nameNotText name.code)

/-- The negation of a formula, or the literal of opposite sign. -/
def opposite : Value → Build Value
  | .formula f => return .formula (.neg f)
  | .literal l => return .literal l.opposite
  | _ => throw .unsupported

/-- Applies a step a number of times. -/
def times (step : Value → Build Value) : Nat → Value → Build Value
  | 0, v => return v
  | count + 1, v => do times step count (← step v)

/-- A connective between two values that must both be formulas. -/
def between (c : Connective) : Value → Value → Build Value
  | .formula f, .formula g => node c [.formula f, .formula g]
  | _, _ => throw .unsupported

/-- Data that an operation may have put together. -/
def data : Option Datum → Build Value
  | some d => return .datum d
  | none => throw .unsupported

/-- The formula that asserts a relation. Of two values that are no formulas, the one that comes
first in it is to blame. The conjunction and the disjunction of data are data. -/
def relation (r : Relation) (v w : Value) : Build Value :=
  match r, v, w with
  | r, .formula f, .formula g => return .formula (r.formula f g)
  | .both, .datum d, .datum e => data (d.meet? e)
  | .either, .datum d, .datum e => data (d.join? e)
  | .both, _, _ => throw .unsupported
  | .either, _, _ => throw .unsupported
  | .impliedBy, v, w => node .imp [w, v]
  | r, v, w => node r.connective [v, w]

end Build

namespace Expr

mutual

/-- The value of an expression. Parts are evaluated from left to right before they are put
together, and the first fault ends the evaluation. -/
def eval (values : Table String Value) : Expr → Build Value
  | kept name =>
    match values.get? name with
    | some v => return v
    | none => throw .missingPart
  | given v => return v
  | var name => Build.named name
  | literal name negated => return .literal ⟨name, negated.truthy⟩
  | neg sub => do
    let v ← eval values sub
    Build.node .neg [v]
  | gather kind parts => do
    let vs ← evalAll values parts
    Build.gather kind vs
  | gatherFrom kind whole => do
    let v ← eval values whole
    let vs ← v.items (← get)
    Build.gather kind vs
  | imp parts => do
    let vs ← evalAll values parts
    Build.pair .imp vs
  | iff parts => do
    let vs ← evalAll values parts
    Build.pair .iff vs
  | opposite sub => do
    let v ← eval values sub
    Build.opposite v
  | nested count sub => do
    let v ← eval values sub
    Build.times (fun v => Build.node .neg [v]) count v
  | doubled c count sub => do
    let v ← eval values sub
    Build.times (fun v => Build.node c [v, v]) count v
  | between c left right => do
    let v ← eval values left
    let w ← eval values right
    Build.between c v w
  | relation r left right => do
    let v ← eval values left
    let w ← eval values right
    Build.relation r v w
  | generic parts => do
    let _ ← evalAll values parts
    throw .unsupported

/-- The values of expressions, from left to right. -/
def evalAll (values : Table String Value) : List Expr → Build (List Value)
  | [] => return []
  | e :: es => do
    let v ← eval values e
    let vs ← evalAll values es
    return v :: vs

end

end Expr

end Clausal
