import Clausal.Proofs.Model
import Clausal.Theory

namespace Clausal

def Literal.truth (v : String → Bool) (l : Literal) : Bool :=
  v l.name != l.negated

def Clause.truth (v : String → Bool) (c : Clause) : Bool :=
  c.literals.any (Literal.truth v)

def Theory.truth (v : String → Bool) (t : Theory) : Bool :=
  t.clauses.all (Clause.truth v)

@[simp]
theorem Literal.truth_pos (v : String → Bool) (name : String) : (Literal.pos name).truth v = v name := by
  simp [Literal.truth, Literal.pos]

@[simp]
theorem Literal.truth_neg (v : String → Bool) (name : String) : (Literal.neg name).truth v = !v name := by
  simp [Literal.truth, Literal.neg]

theorem Clause.mem_names_iff (c : Clause) (name : String) :
    name ∈ c.names ↔ ∃ l ∈ c.literals, l.name = name := by
  rw [Clause.names, Text.mem_sortedNames, List.mem_map]

theorem Theory.mem_names_iff (t : Theory) (name : String) :
    name ∈ t.names ↔ ∃ c ∈ t.clauses, ∃ l ∈ c.literals, l.name = name := by
  rw [Theory.names, Text.mem_sortedNames, List.mem_flatMap]
  simp only [List.mem_map]

theorem Literal.evaluate_eq_ok {model : Model} {l : Literal} (covered : l.name ∈ model.keys) :
    l.evaluate model = .ok (l.truth model.total) := by
  rw [Literal.evaluate, Model.value_of_mem covered]
  rfl

theorem Clause.evaluate_eq_ok {model : Model} {c : Clause}
    (covered : ∀ l ∈ c.literals, l.name ∈ model.keys) :
    c.evaluate model = .ok (c.truth model.total) := by
  obtain ⟨literals⟩ := c
  rw [Clause.evaluate, Clause.truth]
  induction literals with
  | nil => rfl
  | cons l ls ih =>
    have rest := ih fun m member => covered m (.tail _ member)
    rw [Clause.evaluateAny, Literal.evaluate_eq_ok (covered l List.mem_cons_self), List.any_cons]
    cases value : l.truth model.total with
    | true => rfl
    | false => simpa [bind, Except.bind] using rest

/-- In a model of all its names a theory has a truth value, and evaluation finds it. -/
theorem Theory.evaluate_eq_ok {model : Model} {t : Theory} (covered : ∀ name ∈ t.names, name ∈ model.keys) :
    t.evaluate model = .ok (t.truth model.total) := by
  have each : ∀ c ∈ t.clauses, ∀ l ∈ c.literals, l.name ∈ model.keys := by
    intro c atClause l atLiteral
    exact covered l.name ((t.mem_names_iff l.name).mpr ⟨c, atClause, l, atLiteral, rfl⟩)
  obtain ⟨clauses⟩ := t
  rw [Theory.evaluate, Theory.truth]
  clear covered
  induction clauses with
  | nil => rfl
  | cons c cs ih =>
    have rest := ih fun d member => each d (.tail _ member)
    rw [Theory.evaluateAll, Clause.evaluate_eq_ok (each c List.mem_cons_self), List.all_cons]
    cases value : c.truth model.total with
    | true => simpa [bind, Except.bind] using rest
    | false => rfl

end Clausal
