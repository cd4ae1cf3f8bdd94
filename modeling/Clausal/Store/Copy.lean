import Clausal.Store.Basic

namespace Clausal.Store

/-- Puts a clause with the same literals into an unused place. -/
def copyClause (store : Store) (c : ClauseId) : ClauseId × Store :=
  store.newClause (store.clause c)

/-- The copy of a clause: the one that was made before, or else a new one. -/
def copyOnce (store : Store) (copies : Table ClauseId ClauseId) (c : ClauseId) :
    ClauseId × Table ClauseId ClauseId × Store :=
  match copies.get? c with
  | some copy => (copy, copies, store)
  | none =>
    let (copy, store) := store.copyClause c
    (copy, copies.insert c copy, store)

/-- Copies clauses in order. One that was copied before is not copied again: its first copy stands
for it. -/
def copyClauses : List ClauseId → Table ClauseId ClauseId → Store →
    List ClauseId × Table ClauseId ClauseId × Store
  | [], copies, store => ([], copies, store)
  | c :: cs, copies, store =>
    let (copy, copies, store) := store.copyOnce copies c
    let (rest, copies, store) := copyClauses cs copies store
    (copy :: rest, copies, store)

/-- Copies a theory and its clauses. Positions that share a clause share its copy. With no copies
made before, the new theory shares nothing with what was there. -/
def copyTheory (store : Store) (copies : Table ClauseId ClauseId) (t : TheoryId) :
    TheoryId × Table ClauseId ClauseId × Store :=
  let (cs, copies, store) := copyClauses (store.held t) copies store
  let (copy, store) := store.newTheory cs
  (copy, copies, store)

end Clausal.Store
