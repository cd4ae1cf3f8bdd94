import Clausal.Encoding.Declaration

namespace Clausal

/-- The place of a clause in a store. -/
structure ClauseId where
  index : Nat
deriving DecidableEq, Repr

/-- The place of a theory in a store. -/
structure TheoryId where
  index : Nat
deriving DecidableEq, Repr

/-- Clauses and theories that change over time. A theory lists places of clauses, so that a change
of a clause shows in every theory that holds it. -/
structure Store where
  clauses : Array Clause := #[]
  theories : Array (List ClauseId) := #[]
deriving Repr

namespace Store

/-- The clause at a place; an unused place counts as the empty clause. -/
def clause (store : Store) (c : ClauseId) : Clause :=
  store.clauses[c.index]?.getD ⟨[]⟩

/-- The places of the clauses that a theory holds, in order. -/
def held (store : Store) (t : TheoryId) : List ClauseId :=
  store.theories[t.index]?.getD []

/-- A theory with the clauses it holds now. -/
def theory (store : Store) (t : TheoryId) : Theory :=
  ⟨(store.held t).map store.clause⟩

/-- Puts a clause into an unused place. -/
def newClause (store : Store) (clause : Clause) : ClauseId × Store :=
  (⟨store.clauses.size⟩, { store with clauses := store.clauses.push clause })

/-- Puts a theory that holds the given clauses into an unused place. -/
def newTheory (store : Store) (cs : List ClauseId) : TheoryId × Store :=
  (⟨store.theories.size⟩, { store with theories := store.theories.push cs })

/-- Replaces the clause at a place. -/
def setClause (store : Store) (c : ClauseId) (clause : Clause) : Store :=
  { store with clauses := store.clauses.setIfInBounds c.index clause }

/-- Replaces the clauses that a theory holds. -/
def setHeld (store : Store) (t : TheoryId) (cs : List ClauseId) : Store :=
  { store with theories := store.theories.setIfInBounds t.index cs }

theorem clause_setClause (store : Store) (c d : ClauseId) (clause : Clause)
    (used : c.index < store.clauses.size) :
    (store.setClause c clause).clause d = if d = c then clause else store.clause d := by
  obtain ⟨i⟩ := c
  obtain ⟨j⟩ := d
  simp only [Store.clause, setClause, Array.getElem?_setIfInBounds, ClauseId.mk.injEq] at used ⊢
  by_cases same : i = j
  · subst same
    simp [used]
  · simp [same, Ne.symm same]

@[simp]
theorem held_setClause (store : Store) (c : ClauseId) (t : TheoryId) (clause : Clause) :
    (store.setClause c clause).held t = store.held t := rfl

theorem held_setHeld (store : Store) (t u : TheoryId) (cs : List ClauseId)
    (used : t.index < store.theories.size) :
    (store.setHeld t cs).held u = if u = t then cs else store.held u := by
  obtain ⟨i⟩ := t
  obtain ⟨j⟩ := u
  simp only [held, setHeld, Array.getElem?_setIfInBounds, TheoryId.mk.injEq] at used ⊢
  by_cases same : i = j
  · subst same
    simp [used]
  · simp [same, Ne.symm same]

@[simp]
theorem clause_setHeld (store : Store) (c : ClauseId) (t : TheoryId) (cs : List ClauseId) :
    (store.setHeld t cs).clause c = store.clause c := rfl

@[simp]
theorem clause_newClause (store : Store) (clause : Clause) :
    (store.newClause clause).2.clause (store.newClause clause).1 = clause := by
  simp [newClause, Store.clause]

theorem clause_newClause_of_used (store : Store) (clause : Clause) (c : ClauseId)
    (used : c.index < store.clauses.size) :
    (store.newClause clause).2.clause c = store.clause c := by
  simp [newClause, Store.clause, Array.getElem?_push, Nat.ne_of_lt used]

@[simp]
theorem held_newClause (store : Store) (clause : Clause) (t : TheoryId) :
    (store.newClause clause).2.held t = store.held t := rfl

@[simp]
theorem held_newTheory (store : Store) (cs : List ClauseId) :
    (store.newTheory cs).2.held (store.newTheory cs).1 = cs := by
  simp [newTheory, held]

theorem held_newTheory_of_used (store : Store) (cs : List ClauseId) (t : TheoryId)
    (used : t.index < store.theories.size) :
    (store.newTheory cs).2.held t = store.held t := by
  simp [newTheory, held, Array.getElem?_push, Nat.ne_of_lt used]

@[simp]
theorem clause_newTheory (store : Store) (cs : List ClauseId) (c : ClauseId) :
    (store.newTheory cs).2.clause c = store.clause c := rfl

/-- Adds a literal at the end of a clause. -/
def addLiteral (store : Store) (c : ClauseId) (l : Literal) : Store :=
  store.setClause c ((store.clause c).add l)

/-- Adds a clause at the end of a theory. Other theories that hold it go on sharing it. -/
def addClause (store : Store) (t : TheoryId) (c : ClauseId) : Store :=
  store.setHeld t (store.held t ++ [c])

/-- Moves all clauses of the second theory to the end of the first. -/
def merge (store : Store) (t u : TheoryId) : Except Fault Store :=
  if t = u then .error .selfMerge
  else .ok ((store.setHeld t (store.held t ++ store.held u)).setHeld u [])

/-- Takes the first literal out of a clause. -/
def takeLiteral (store : Store) (c : ClauseId) : Except Fault (Literal × Store) := do
  let (l, rest) ← (store.clause c).uncons
  return (l, store.setClause c rest)

/-- Takes the first clause out of a theory. -/
def takeClause (store : Store) (t : TheoryId) : Except Fault (ClauseId × Store) :=
  match store.held t with
  | [] => .error .emptyTheory
  | c :: cs => .ok (c, store.setHeld t cs)

/-- Takes the first clause out of a theory and the literal out of that clause, and reads the name
that the literal declares. What was taken before a fault was found stays taken. -/
def takeDeclared (store : Store) (t : TheoryId) : Except Fault String × Store :=
  match store.takeClause t with
  | .error fault => (.error fault, store)
  | .ok (c, store) =>
    if (store.clause c).isUnit then
      match store.takeLiteral c with
      | .error fault => (.error fault, store)
      | .ok (l, store) =>
        (if l.negated then .error (.negatedDeclaration l.name) else .ok l.name, store)
    else (.error (.notUnit (store.clause c).text), store)

/-- Puts clauses into unused places, in order. -/
def newClauses : List Clause → Store → List ClauseId × Store
  | [], store => ([], store)
  | clause :: clauses, store =>
    let (c, store) := store.newClause clause
    let (cs, store) := newClauses clauses store
    (c :: cs, store)

/-- Puts a theory and each of its clauses into unused places. -/
def addTheory (store : Store) (t : Theory) : TheoryId × Store :=
  let (cs, store) := newClauses t.clauses store
  store.newTheory cs

end Store

end Clausal
