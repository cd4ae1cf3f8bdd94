import Clausal.Session.Memory

namespace Clausal

/-- A memory into which values are copied, and the places of the copies made so far. -/
structure Copying where
  memory : Memory
  clauses : Table ClauseId ClauseId := ⟨[]⟩
  theories : Table TheoryId TheoryId := ⟨[]⟩
  lists : Table ListId ListId := ⟨[]⟩

namespace Copying

/-- The copy of a clause. -/
def clause (c : ClauseId) : StateM Copying ClauseId := do
  let state ← get
  let (copy, clauses, store) := state.memory.store.copyOnce state.clauses c
  set { state with clauses, memory := { state.memory with store } }
  return copy

/-- The copy of a theory, which holds the copies of its clauses. -/
def theory (t : TheoryId) : StateM Copying TheoryId := do
  let state ← get
  match state.theories.get? t with
  | some copy => return copy
  | none =>
    let (copy, clauses, store) := state.memory.store.copyTheory state.clauses t
    set { state with
      clauses
      theories := state.theories.insert t copy
      memory := { state.memory with store } }
    return copy

/-- Sets up the copy of a list, with nothing in it yet. -/
def startList (l : ListId) : StateM Copying ListId := do
  let state ← get
  let (copy, memory) := state.memory.newList []
  set { state with lists := state.lists.insert l copy, memory }
  return copy

/-- The copy of a value. The copy of a list is there before those of its items are made, so that one
that holds itself has a copy that holds itself. No more lists than `depth` are copied one inside the
other. -/
def value (depth : Nat) (v : Value) : StateM Copying Value := do
  match v with
  | .clause c => return .clause (← clause c)
  | .theory t => return .theory (← theory t)
  | .list l =>
    match (← get).lists.get? l with
    | some copy => return .list copy
    | none =>
      match depth with
      | 0 => return .list l
      | depth + 1 =>
        let copy ← startList l
        let vs ← ((← get).memory.listed l).mapM fun v => value depth v
        modify fun state => { state with memory := state.memory.setList copy vs }
        return .list copy
  | v => return v

end Copying

namespace Memory

/-- A copy of a value that shares no clause, theory or list with it. What occurs in it several times
occurs in the copy as often, as one copy. Inside as many lists as there are, every list was met
before. -/
def copy (memory : Memory) (v : Value) : Value × Memory :=
  let (copy, state) := (Copying.value memory.lists.size v).run { memory }
  (copy, state.memory)

/-- A copy of a list that holds the same values. Clauses and theories are not copied this way, and
all other values are their own copies. -/
def shallowCopy (memory : Memory) (v : Value) : Value × Memory :=
  match v with
  | .list l =>
    let (copy, memory) := memory.newList (memory.listed l)
    (.list copy, memory)
  | v => (v, memory)

end Memory

end Clausal
