import Clausal.Encoding.Convert
import Clausal.Session.Expr
import Clausal.Settings.Basic

namespace Clausal

/-- The place of a source of names in a workspace. -/
structure SourceId where
  index : Nat
deriving DecidableEq, Repr

/-- All that a session holds apart from settings: the values kept under names, the sources of names,
the scopes that were set up, and the memory. The first source is the one for conversions that bring
none of their own. -/
structure Workspace where
  values : Table String Value := ⟨[]⟩
  sources : Array NameSource := #[{}]
  sourceNames : Table String SourceId := ⟨[("default", ⟨0⟩)]⟩
  scopes : Array (List (String × Datum)) := #[]
  scopeNames : Table String ScopeId := ⟨[]⟩
  memory : Memory := {}

/-- Work on a workspace. What was done before a fault stays done. -/
abbrev Work := ExceptT Fault (StateM Workspace)

namespace Workspace

/-- The source at a place. -/
def source (w : Workspace) (id : SourceId) : NameSource :=
  w.sources.getD id.index {}

/-- Replaces the source at a place. -/
def setSource (w : Workspace) (id : SourceId) (source : NameSource) : Workspace :=
  { w with sources := w.sources.setIfInBounds id.index source }

/-- Keeps a value under a name. -/
def keep (w : Workspace) (name : String) (v : Value) : Workspace :=
  { w with values := w.values.insert name v }

/-- Sets up a new source under a name. -/
def newSource (w : Workspace) (name : String) (fixed : Option String) : Workspace :=
  { w with
    sources := w.sources.push { fixed }
    sourceNames := w.sourceNames.insert name ⟨w.sources.size⟩ }

/-- Sets up a new scope under a name. Of several values for one setting the last counts. The names
are not looked up yet, but the settings themselves cannot be given a value. -/
def newScope (w : Workspace) (name : String) (values : List (String × Datum)) :
    Except Fault Workspace :=
  if values.any fun entry => entry.1 == Settings.ownName then .error .unsupported
  else .ok { w with
    scopes := w.scopes.push (Table.ofList values).entries
    scopeNames := w.scopeNames.insert name ⟨w.scopes.size⟩ }

/-- The scope of a name, with the values it puts in force. -/
def scopeNamed (w : Workspace) (name : String) : Except Fault (ScopeId × List (String × Datum)) :=
  match w.scopeNames.get? name with
  | some id => .ok (id, w.scopes.getD id.index [])
  | none => .error .missingPart

end Workspace

namespace Work

/-- The result of a step that may fail, with nothing changed. -/
def lift {α : Type} (result : Except Fault α) : Work α :=
  match result with
  | .ok a => return a
  | .error fault => throw fault

/-- The value of an expression, with the memory as its evaluation leaves it. -/
def eval (e : Expr) : Work Value := do
  let w ← get
  let (v, memory) ← lift ((e.eval w.values).run w.memory)
  set { w with memory }
  return v

/-- The memory as it is now. -/
def memory : Work Memory :=
  return (← get).memory

/-- Replaces the memory. -/
def setMemory (memory : Memory) : Work Unit :=
  modify fun w => { w with memory }

/-- The clauses and theories as they are now. -/
def store : Work Store :=
  return (← get).memory.store

/-- Replaces the clauses and theories. -/
def setStore (store : Store) : Work Unit :=
  modify fun w => { w with memory := { w.memory with store } }

/-- The place of a source of a given name; the first source where no name is given. -/
def sourceId (name : Option String) : Work SourceId := do
  match name with
  | none => return ⟨0⟩
  | some name =>
    match (← get).sourceNames.get? name with
    | some id => return id
    | none => throw .missingPart

end Work

end Clausal
