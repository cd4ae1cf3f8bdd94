import Clausal.Proofs.Encoding.Objects
import Clausal.Proofs.Store.Ownership

namespace Clausal.Encoding

open Formula Store

/-- A conversion is under way in a store where no clause has got into two theories. Its pool is in
use. -/
structure Tidy (pool : TheoryId) (b : Building) : Prop where
  owned : b.store.Owned
  pool_lt : pool.index < b.store.theories.size

/-- Work on a conversion that leaves the store in order wherever it succeeds. -/
def Keeps {α : Type} (pool : TheoryId) (work : Building → Except Fault (α × Building)) : Prop :=
  ∀ b, Tidy pool b → ∀ a after, work b = .ok (a, after) → Tidy pool after

variable {pool : TheoryId}

theorem Tidy.declare {b : Building} (tidy : Tidy pool b) (name : String) :
    Tidy pool { b with store := (b.store.declare name).2 } := by
  have new := made_addTheory b.store ⟨[.declaring name]⟩
  exact ⟨tidy.owned.create new (only_addTheory _ _),
    Nat.lt_of_lt_of_le tidy.pool_lt new.extended.theories_size⟩

theorem Tidy.addClauses {b : Building} (tidy : Tidy pool b) (clauses : List Clause) :
    Tidy pool { b with store := b.store.addClauses pool clauses } :=
  ⟨tidy.owned.addClauses tidy.pool_lt clauses,
    Nat.lt_of_lt_of_le tidy.pool_lt (addClauses_grown tidy.pool_lt clauses).theories_size⟩

theorem keeps_strip (t : TheoryId) : Keeps pool (strip t) := by
  intro b tidy part after done
  -- a theory that is not in use has no declaration that could be taken off
  have used : t.index < b.store.theories.size := by
    refine Nat.lt_of_not_le fun unused => ?_
    rw [strip, takeDeclared, takeClause, held_of_unused unused] at done
    cases done
  have owned := tidy.owned.takeDeclared used
  have size := (takeDeclared_change (r := b.store.loose) b.store used).theories_size
  rw [strip] at done
  split at done
  · cases done
  · rename_i taken
    cases done
    rw [taken] at owned size
    exact ⟨owned, Nat.lt_of_lt_of_le tidy.pool_lt size⟩

theorem keeps_stripEach_cons {visit : Visit} {visits : List Visit} (first : Keeps pool visit)
    (rest : Keeps pool (stripEach visits)) : Keeps pool (stripEach (visit :: visits)) := by
  intro b tidy parts after done
  obtain ⟨⟨t, visited⟩, visit, done⟩ := ok_of_bind done
  obtain ⟨⟨part, stripped⟩, strip, done⟩ := ok_of_bind done
  obtain ⟨⟨parts, last⟩, others, done⟩ := ok_of_bind done
  cases done
  exact rest _ (keeps_strip t _ (first b tidy t visited visit) part stripped strip) parts _ others

theorem keeps_visitNode {ambient : String} {c : Connective} {visits : List Visit}
    (children : Keeps pool (stripEach visits)) : Keeps pool (visitNode ambient pool c visits) := by
  intro b tidy t after done
  obtain ⟨⟨parts, stripped⟩, visited, done⟩ := ok_of_bind done
  obtain ⟨clauses, -, done⟩ := ok_of_bind done
  cases done
  have below := children { b with source := (b.source.draw ambient).2 } ⟨tidy.owned, tidy.pool_lt⟩
    parts stripped visited
  exact (below.addClauses clauses).declare _

theorem fold_keeps (ambient : String) (pool : TheoryId) :
    (∀ f : Formula, ∃ visit,
      f.fold visitLeaf (visitNode ambient pool) = .ok visit ∧ Keeps pool visit) ∧
    ∀ fs : List Formula, ∃ visits,
      foldAll visitLeaf (visitNode ambient pool) fs = .ok visits ∧ Keeps pool (stripEach visits) := by
  refine forest_induction ?var ?node ?nil ?cons
  case var =>
    intro name
    refine ⟨_, by rw [fold]; rfl, fun b tidy t after done => ?_⟩
    cases done
    exact tidy.declare name
  case node =>
    intro c f root ih
    obtain ⟨visits, folded, children⟩ := ih
    exact ⟨visitNode ambient pool c visits, by rw [fold_node _ _ root, folded]; rfl,
      keeps_visitNode children⟩
  case nil =>
    refine ⟨[], rfl, fun b tidy parts after done => ?_⟩
    cases done
    exact tidy
  case cons =>
    intro f fs ihf ihs
    obtain ⟨visit, folded, first⟩ := ihf
    obtain ⟨visits, foldedAll, rest⟩ := ihs
    exact ⟨visit :: visits, by rw [foldAll, folded, foldedAll]; rfl, keeps_stripEach_cons first rest⟩

/-- A conversion shares no clause between two theories, although it makes and gives up a theory for
each subformula. -/
theorem convertIn_owned {store : Store} {f : Formula} {source : NameSource} {ambient : String}
    {check : Bool} {t : TheoryId} {b : Building}
    (done : convertIn store f source ambient check = .ok (t, b)) (owned : store.Owned) :
    b.store.Owned := by
  have pool := made_addTheory store ⟨[]⟩
  have start : Tidy ⟨store.theories.size⟩ ⟨source, (store.newTheory []).2⟩ :=
    ⟨owned.create pool (only_addTheory store ⟨[]⟩), pool.inUse.theory_lt⟩
  obtain ⟨visit, folded, keeps⟩ := (fold_keeps ambient ⟨store.theories.size⟩).1 f
  obtain ⟨_, same, spec⟩ := (visit_spec ambient ⟨store.theories.size⟩).1 f
  cases folded.symm.trans same
  -- that the store is in order does not tell that what a visit answers with is in use
  obtain ⟨middle, -, visited⟩ := spec ⟨source, (store.newTheory []).2⟩ start.pool_lt
  have tidy := keeps _ start _ _ visited
  rw [convertIn] at done
  split at done
  · cases done
  · obtain ⟨_, folded', done⟩ := ok_of_bind done
    cases folded.symm.trans folded'
    obtain ⟨_, visited', done⟩ := ok_of_bind done
    cases visited.symm.trans visited'
    obtain ⟨after, merged, done⟩ := ok_of_bind done
    cases done
    rw [merge] at merged
    split at merged
    · cases merged
    · rename_i apart
      cases merged
      have declared (name : String) := (made_addTheory middle ⟨[.declaring name]⟩).inUse.theory_lt
      exact tidy.owned.move apart (declared _) tidy.pool_lt

end Clausal.Encoding
