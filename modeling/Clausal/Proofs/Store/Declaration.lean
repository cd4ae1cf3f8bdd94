import Clausal.Proofs.Store.Change
import Clausal.Proofs.Theory.Truth

namespace Clausal

theorem Clause.isUnit_iff (c : Clause) : c.isUnit = true ↔ ∃ l, c.literals = [l] := by
  rw [isUnit, beq_iff_eq, List.length_eq_one_iff]

namespace Store

variable {store : Store} {t : TheoryId} {c : ClauseId} {cs : List ClauseId}

theorem used_of_held (held : store.held t = c :: cs) : t.index < store.theories.size := by
  refine Nat.lt_of_not_le fun unused => ?_
  rw [held_of_unused unused] at held
  cases held

theorem used_of_literal {l : Literal} (member : l ∈ (store.clause c).literals) :
    c.index < store.clauses.size := by
  refine Nat.lt_of_not_le fun unused => ?_
  rw [Store.clause, Array.getElem?_eq_none unused] at member
  exact absurd member List.not_mem_nil

theorem takeDeclared_empty (empty : store.held t = []) :
    store.takeDeclared t = (.error .emptyTheory, store) := by
  rw [Store.takeDeclared, takeClause, empty]

/-- The clause is put aside before it turns out to declare nothing. -/
theorem takeDeclared_not_unit (held : store.held t = c :: cs) (other : (store.clause c).isUnit = false) :
    store.takeDeclared t = (.error (.notUnit (store.clause c).text), store.setHeld t cs) := by
  rw [Store.takeDeclared, takeClause, held]
  simp only [clause_setHeld, other, Bool.false_eq_true, if_false]

/-- The literal is taken out before its sign is looked at. -/
theorem takeDeclared_unit (held : store.held t = c :: cs) {l : Literal}
    (single : (store.clause c).literals = [l]) :
    store.takeDeclared t =
      (if l.negated then .error (.negatedDeclaration l.name) else .ok l.name,
        (store.setHeld t cs).setClause c ⟨[]⟩) := by
  have whole : store.clause c = ⟨[l]⟩ := congrArg Clause.mk single
  have taken : (store.setHeld t cs).takeLiteral c = .ok (l, (store.setHeld t cs).setClause c ⟨[]⟩) := by
    rw [takeLiteral, clause_setHeld, whole]
    rfl
  have unit : (⟨[l]⟩ : Clause).isUnit = true := rfl
  rw [Store.takeDeclared, takeClause, held]
  simp only [clause_setHeld, whole, unit, if_true, taken]

/-- A theory loses its first clause, which loses its literal if it has just one. -/
theorem takeDeclared_post (held : store.held t = c :: cs) :
    let after := (store.takeDeclared t).2
    after.held t = cs ∧ (∀ u, u ≠ t → after.held u = store.held u) ∧
      after.clause c = (if (store.clause c).isUnit then ⟨[]⟩ else store.clause c) ∧
      (∀ d, d ≠ c → after.clause d = store.clause d) ∧
      after.clauses.size = store.clauses.size ∧ after.theories.size = store.theories.size := by
  intro after
  have used := used_of_held held
  have own : (store.setHeld t cs).held t = cs := by rw [held_setHeld store t t cs used, if_pos rfl]
  cases unit : (store.clause c).isUnit with
  | false =>
    have result : after = store.setHeld t cs := congrArg Prod.snd (takeDeclared_not_unit held unit)
    rw [result]
    exact ⟨own, fun u apart => store.held_setHeld_of_ne apart cs, rfl, fun _ _ => rfl, rfl,
      size_setHeld store t cs⟩
  | true =>
    obtain ⟨l, single⟩ := (Clause.isUnit_iff _).mp unit
    have result : after = (store.setHeld t cs).setClause c ⟨[]⟩ :=
      congrArg Prod.snd (takeDeclared_unit held single)
    have inUse : c.index < (store.setHeld t cs).clauses.size :=
      used_of_literal (l := l) (single ▸ List.mem_singleton_self l)
    rw [result]
    refine ⟨own, fun u apart => store.held_setHeld_of_ne apart cs, ?_, fun d apart => ?_,
      size_setClause _ c _, size_setHeld store t cs⟩
    · rw [clause_setClause _ c c _ inUse, if_pos rfl, if_pos rfl]
    · exact clause_setClause_of_ne _ apart _

theorem takeDeclared_eq_ok_iff (store : Store) (t : TheoryId) (name : String) :
    (store.takeDeclared t).1 = .ok name ↔
      ∃ c cs, store.held t = c :: cs ∧ (store.clause c).literals = [.pos name] := by
  constructor
  · intro done
    cases held : store.held t with
    | nil =>
      rw [takeDeclared_empty held] at done
      cases done
    | cons c cs =>
      cases unit : (store.clause c).isUnit with
      | false =>
        rw [takeDeclared_not_unit held unit] at done
        cases done
      | true =>
        obtain ⟨⟨other, negated⟩, single⟩ := (Clause.isUnit_iff _).mp unit
        rw [takeDeclared_unit held single] at done
        cases negated with
        | true => cases done
        | false =>
          cases done
          exact ⟨c, cs, rfl, single⟩
  · rintro ⟨c, cs, held, single⟩
    rw [takeDeclared_unit held single]
    rfl

/-- Whatever stands in the way, there is no declaration to take. -/
theorem kind_of_takeDeclared_error {fault : Fault} (failed : (store.takeDeclared t).1 = .error fault) :
    fault.kind = .protocol := by
  cases held : store.held t with
  | nil =>
    rw [takeDeclared_empty held] at failed
    cases failed
    rfl
  | cons c cs =>
    cases unit : (store.clause c).isUnit with
    | false =>
      rw [takeDeclared_not_unit held unit] at failed
      cases failed
      rfl
    | true =>
      obtain ⟨⟨name, negated⟩, single⟩ := (Clause.isUnit_iff _).mp unit
      rw [takeDeclared_unit held single] at failed
      cases negated with
      | false => cases failed
      | true =>
        cases failed
        rfl

theorem theory_takeDeclared (held : store.held t = c :: cs) (once : c ∉ cs) :
    (store.takeDeclared t).2.theory t = ⟨cs.map store.clause⟩ := by
  obtain ⟨own, -, -, others, -, -⟩ := takeDeclared_post held
  rw [Store.theory, own]
  refine congrArg Theory.mk (List.map_congr_left fun d member => ?_)
  exact others d fun same => once (same ▸ member)

/-- A theory says what its declaration and the rest of it say. -/
theorem truth_takeDeclared (v : String → Bool) (held : store.held t = c :: cs) {name : String}
    (single : (store.clause c).literals = [.pos name]) (once : c ∉ cs) :
    (store.theory t).truth v = (v name && ((store.takeDeclared t).2.theory t).truth v) := by
  have first : (store.clause c).truth v = v name := by
    rw [Clause.truth, single, List.any_cons, List.any_nil, Bool.or_false, Literal.truth_pos]
  rw [theory_takeDeclared held once, Store.theory, held, Theory.truth, Theory.truth, List.map_cons,
    List.all_cons, first]

theorem names_takeDeclared (held : store.held t = c :: cs) {name : String}
    (single : (store.clause c).literals = [.pos name]) (once : c ∉ cs) (x : String) :
    x ∈ (store.theory t).names ↔ x = name ∨ x ∈ ((store.takeDeclared t).2.theory t).names := by
  have first : (∃ l ∈ (store.clause c).literals, l.name = x) ↔ x = name := by
    simp only [single, List.mem_singleton, exists_eq_left]
    exact eq_comm
  have whole : (store.theory t).clauses = store.clause c :: cs.map store.clause := by
    rw [Store.theory, held, List.map_cons]
  rw [theory_takeDeclared held once, Theory.mem_names_iff, Theory.mem_names_iff, whole]
  simp only [List.mem_cons, exists_eq_or_imp, first]

end Store

end Clausal
