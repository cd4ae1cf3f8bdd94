import Clausal.Session.Aspect
import Clausal.Session.Copy
import Clausal.Session.Workspace

namespace Clausal

/-- What can be asked of a workspace. -/
inductive Request where
  | build (value : Expr)
  | describe (of : Expr)
  | inspect (of : Expr) (aspect : Aspect)
  | opposite (of : Expr)
  | evaluate (of : Expr) (models : List Model)
  | tabulate (of : Expr)
  | enumerate (names : List String)
  /-- Conversion into clausal form, as a function of any value or as an operation of formulas. -/
  | convert (of : Expr) (source : Option String) (ofAny : Bool)
  | compare (left right : Expr)
  | distinct (values : List Expr)
  | append (target value : Expr)
  | merge (target source : Expr)
  | pop (of : Expr)
  | contains (of value : Expr)
  | index (of : Expr) (position : Int)
  | takeDeclared (of : Expr)
  | define (node : Expr) (name : String) (parts : List String)
  | newSource (name : String) (fixed : Option String)
  | draw (source : Option String) (count : Nat)
  | showSource (source : Option String)
  | restart (source : Option String)
  | recognise (source : Option String) (names : List String)
  | newScope (name : String) (values : List (String × Datum))
  /-- An attempt to set or remove a part of a value. -/
  | change (of : Expr)
  /-- A value read back from its written form. -/
  | rebuild (of : Expr)
  | copy (of : Expr) (deep : Bool)

/-- For each value the position of the first that equals it. -/
def firstEqual (memory : Memory) (vs : List Value) : List Nat :=
  vs.map fun v => vs.findIdx (v.same memory)

/-- The element at a position of a list; a negative position counts from the end. -/
def elementAt? {α : Type} (as : List α) (position : Int) : Option α :=
  if 0 ≤ position then as[position.toNat]?
  else if position.natAbs ≤ as.length then as[as.length - position.natAbs]?
  else none

namespace Request

/-- The value of an expression that is to be looked up among others. Only values that never change
can be. -/
def evalKey (e : Expr) : Work Value := do
  let v ← Work.eval e
  if v.isKey then return v else throw .unsupported

/-- Converts a formula with names from a source and puts the theory into the store. -/
def runConvert (ambient : String) (check : Bool) (v : Value) (name : Option String) (ofAny : Bool) :
    Work Result := do
  match v with
  | .formula f =>
    let id ← Work.sourceId name
    let conversion ← Work.lift (f.convert ((← get).source id) ambient check)
    modify fun w => w.setSource id conversion.after
    let (t, store) := (← Work.store).addTheory conversion.theory
    Work.setStore store
    return (.conversion (conversion.theory.clauses.map Clause.text) conversion.theory.names
      ["DEBUG: " ++ conversion.report], some (.theory t))
  | v =>
    let memory ← Work.memory
    throw (if ofAny then .notConvertible (v.code memory) else .missingPart)

/-- Adds a literal to a clause, a clause to a theory, or any value to a list. -/
def runAppend (target value : Value) : Work Result := do
  let memory ← Work.memory
  match target, value with
  | .clause c, .literal l => Work.setStore (memory.store.addLiteral c l)
  | .clause _, v => throw (.notLiteral (v.code memory))
  | .theory t, .clause c => Work.setStore (memory.store.addClause t c)
  | .theory _, v => throw (.notClause (v.code memory))
  | .list l, v => Work.setMemory (memory.addItem l v)
  | _, _ => throw .missingPart
  return (.text (target.code (← Work.memory)), none)

/-- Moves the clauses of one theory into another. -/
def runMerge (target source : Value) : Work Result := do
  match target, source with
  | .theory t, .theory u =>
    let store ← Work.lift ((← Work.store).merge t u)
    Work.setStore store
    return (.texts [(store.theory t).code, (store.theory u).code], none)
  | _, _ => throw .missingPart

/-- Takes the first literal out of a clause, or the first clause out of a theory. -/
def runPop (v : Value) : Work Result := do
  match v with
  | .clause c =>
    let (l, store) ← Work.lift ((← Work.store).takeLiteral c)
    Work.setStore store
    return (.texts [l.code, (store.clause c).code], some (.literal l))
  | .theory t =>
    let (c, store) ← Work.lift ((← Work.store).takeClause t)
    Work.setStore store
    return (.texts [(store.clause c).code, (store.theory t).code], some (.clause c))
  | _ => throw .missingPart

/-- Takes the declaration off a theory. A clause that is treated as one gives up its first literal,
and there the matter ends. -/
def runTakeDeclared (v : Value) : Work Result := do
  match v with
  | .theory t =>
    let (result, store) := (← Work.store).takeDeclared t
    Work.setStore store
    let name ← Work.lift result
    return (.texts [name, (store.theory t).code], none)
  | .clause c =>
    let (_, store) ← Work.lift ((← Work.store).takeLiteral c)
    Work.setStore store
    throw .missingPart
  | _ => throw .missingPart

/-- Answers with a copy of a value, whether it equals the value, and something more about it. -/
def answerCopy (v : Value) (copied : Value × Memory) (more : Bool) : Work Result := do
  let (made, memory) := copied
  Work.setMemory memory
  return (.datum (.list [.text (made.code memory), .bool (made.same memory v), .bool more]),
    some made)

/-- Does what is requested, in a thread with the given stem and check. -/
def run (ambient : String) (check : Bool) : Request → Work Result
  | build value => do
    let v ← Work.eval value
    return (.text (v.code (← Work.memory)), some v)
  | describe of => do
    let v ← Work.eval of
    let f ← Work.lift v.asFormula
    return (.description (.of f), none)
  | inspect of aspect => do
    let v ← Work.eval of
    Work.lift (v.inspect (← Work.memory) aspect)
  | opposite of => do
    let v ← Work.eval (.opposite of)
    return (.text (v.code (← Work.memory)), some v)
  | evaluate of models => do
    let v ← Work.eval of
    let memory ← Work.memory
    return (.verdicts (models.map (v.evaluate memory)), none)
  | tabulate of => do
    let v ← Work.eval of
    let memory ← Work.memory
    let names ← Work.lift (v.names memory)
    let bits ← Work.lift ((Model.enumerate names).mapM (v.evaluate memory))
    return (.table names bits, none)
  | enumerate names => return (.models (Model.enumerate names), none)
  | convert of source ofAny => do
    let v ← Work.eval of
    runConvert ambient check v source ofAny
  | compare left right => do
    let v ← Work.eval left
    let w ← Work.eval right
    let memory ← Work.memory
    let flags := [v.same memory w, w.same memory v, !v.same memory w]
    let flags := match v with
      | .formula _ => flags ++ [v.same memory w]
      | _ => flags
    return (.datum (.list (flags.map .bool)), none)
  | distinct values => do
    let vs ← values.mapM evalKey
    return (.datum (.list ((firstEqual (← Work.memory) vs).map fun i => .int (Int.ofNat i))), none)
  | append target value => do
    let v ← Work.eval target
    if !v.canGrow then throw .missingPart
    let w ← Work.eval value
    runAppend v w
  | merge target source => do
    let v ← Work.eval target
    let w ← Work.eval source
    runMerge v w
  | pop of => do
    let v ← Work.eval of
    runPop v
  | contains of value => do
    let w ← Work.eval value
    let v ← Work.eval of
    let found ← Work.lift (v.contains (← Work.memory) w)
    return (.flag found, none)
  | index of position => do
    let v ← Work.eval of
    let memory ← Work.memory
    match v with
    | .theory _ | .list _ | .datum (.text _) =>
      match elementAt? (← Work.lift (v.items memory)) position with
      | some item => return (.text (item.code memory), some item)
      | none => throw .outOfRange
    | _ => throw .unsupported
  | takeDeclared of => do
    let v ← Work.eval of
    runTakeDeclared v
  | define node name parts => do
    let v ← Work.eval node
    match v with
    | .formula f =>
      match f.connective? with
      | some c =>
        let clauses ← Work.lift (c.defining name parts)
        return (.texts (clauses.map Clause.text), none)
      | none => throw .unsupported
    | _ => throw .unsupported
  | newSource name fixed => do
    modify fun w => w.newSource name fixed
    return (.text (NameSource.code { fixed } ambient), none)
  | draw source count => do
    let id ← Work.sourceId source
    let (names, after) := NameSource.drawMany ambient count ((← get).source id)
    modify fun w => w.setSource id after
    return (.texts names, none)
  | showSource source => do
    let id ← Work.sourceId source
    let source := (← get).source id
    return (.datum (.list [.text (source.code ambient), .text (source.stem ambient),
      .int source.count]), none)
  | restart source => do
    let id ← Work.sourceId source
    let source := ((← get).source id).restart
    modify fun w => w.setSource id source
    return (.text (source.code ambient), none)
  | recognise source names => do
    let id ← Work.sourceId source
    let source := (← get).source id
    return (.datum (.list (names.map fun name => .bool (source.recognises ambient name))), none)
  | newScope name values => do
    let w ← Work.lift ((← get).newScope name values)
    set w
    return (.datum .null, none)
  | change of => do
    let v ← Work.eval of
    match v with
    | .formula f => throw (.immutable f.title)
    | .literal _ => throw (.immutable "Literal")
    | _ => throw .missingPart
  | rebuild of => do
    let v ← Work.eval of
    answerCopy v ((← Work.memory).copy v) true
  | copy of deep => do
    let v ← Work.eval of
    let memory ← Work.memory
    answerCopy v (if deep then memory.copy v else memory.shallowCopy v) v.isOwnCopy

end Request

end Clausal
