import Clausal.Formula.Relation
import Clausal.Proofs.Encoding.Correctness
import Clausal.Proofs.Formula.Outcome

namespace Clausal

open Formula (leaves truth)

namespace Relation

/-- The operands in the order in which the formula that asserts the relation has them. -/
def ordered {α : Type} (r : Relation) (a b : α) : List α :=
  match r with
  | impliedBy => [b, a]
  | xor | nand | nor | implies | iff | both | either => [a, b]

theorem mem_ordered_iff {α : Type} (r : Relation) (a b c : α) : c ∈ r.ordered a b ↔ c = a ∨ c = b := by
  cases r <;> simp [ordered, or_comm]

variable (r : Relation) (f g : Formula)

/-- A relation is asserted by a connective of its own, or by the negation of one. -/
theorem exists_node : ∃ node : Formula, node.connective? = some r.connective ∧
    node.subs = r.ordered f g ∧ (r.formula f g = node ∨ r.formula f g = .neg node) := by
  cases r
  case xor | nand | nor => refine ⟨_, ?_, ?_, Or.inr rfl⟩ <;> rfl
  case implies | impliedBy | iff | both | either => refine ⟨_, ?_, ?_, Or.inl rfl⟩ <;> rfl

theorem leaves_formula : (r.formula f g).leaves = (r.ordered f g).flatMap leaves := by
  obtain ⟨node, root, operands, same | same⟩ := r.exists_node f g
  · rw [same, Formula.leaves_node root, operands]
  · have negated : (Formula.neg node).connective? = some .neg := rfl
    rw [same, Formula.leaves_node negated, Formula.subs, List.flatMap_singleton, Formula.leaves_node root,
      operands]

theorem truth_formula (v : String → Bool) :
    (r.formula f g).truth v = r.holds (f.truth v) (g.truth v) := by
  cases r <;> simp [formula, truth, Formula.truthAll, Connective.apply, holds, bne]

theorem mem_leaves_formula_iff (name : String) :
    name ∈ (r.formula f g).leaves ↔ name ∈ f.leaves ∨ name ∈ g.leaves := by
  rw [leaves_formula, List.mem_flatMap]
  simp only [mem_ordered_iff, or_and_right, exists_or, exists_eq_left]

theorem mem_names_formula_iff (name : String) :
    name ∈ (r.formula f g).names ↔ name ∈ f.names ∨ name ∈ g.names := by
  rw [Formula.mem_names_iff, mem_leaves_formula_iff, Formula.mem_names_iff, Formula.mem_names_iff]

/-- The operands are looked at one after the other, whatever the first of them comes to. -/
theorem evaluate_formula (m : Model) : (r.formula f g).evaluateShared m =
    m.answer ((r.ordered f g).flatMap leaves) (r.holds (f.truth m.total) (g.truth m.total)) := by
  rw [Formula.evaluateShared_eq_evaluate, Formula.evaluate_eq_answer, leaves_formula, truth_formula]

section

variable {r : Relation} {f g : Formula} {m : Model}

theorem evaluate_formula_of_covered (covered : ∀ name, name ∈ f.names ∨ name ∈ g.names → name ∈ m.keys) :
    f.evaluateShared m = .ok (f.truth m.total) ∧ g.evaluateShared m = .ok (g.truth m.total) ∧
      (r.formula f g).evaluateShared m = .ok (r.holds (f.truth m.total) (g.truth m.total)) := by
  simp only [Formula.mem_names_iff] at covered
  refine ⟨Formula.evaluateShared_eq_ok fun name leaf => covered name (Or.inl leaf),
    Formula.evaluateShared_eq_ok fun name leaf => covered name (Or.inr leaf), ?_⟩
  rw [← truth_formula]
  exact Formula.evaluateShared_eq_ok fun name leaf => covered name ((r.mem_leaves_formula_iff f g name).mp leaf)

/-- The fault names the first leaf without a value. -/
theorem evaluate_formula_of_missing {name : String} (mentioned : name ∈ f.names ∨ name ∈ g.names)
    (missing : name ∉ m.keys) : ∃ before first after, (r.ordered f g).flatMap leaves = before ++ first :: after ∧
      (∀ other ∈ before, other ∈ m.keys) ∧ first ∉ m.keys ∧
      (r.formula f g).evaluateShared m = .error (.unassigned first) := by
  rw [← mem_names_formula_iff r, Formula.mem_names_iff, leaves_formula] at mentioned
  have outcome := r.evaluate_formula f g m
  cases done : (r.formula f g).evaluateShared m with
  | ok b =>
    rw [outcome, Model.answer_eq_ok_iff] at done
    exact absurd (done.1 name mentioned) missing
  | error fault =>
    have failed := done
    rw [outcome, Model.answer_eq_error_iff] at failed
    obtain ⟨before, first, after, parts, covered, unknown, rfl⟩ := failed
    exact ⟨before, first, after, parts, covered, unknown, rfl⟩

section

variable {source : NameSource} {ambient : String}
  (fresh : ∀ name ∈ ((r.formula f g).conversion source ambient).drawnNames ambient,
    name ∉ f.names ∧ name ∉ g.names)
  (given : m.Assigns (f.names ++ g.names))

include fresh in
theorem vocabulary_formula : Formula.Vocabulary (source.stem ambient) source.count [r.formula f g]
    (r.formula f g).names ((r.formula f g).conversion source ambient).theory.names := by
  refine Formula.vocabulary_conversion (r.formula f g) source ambient fun n above below used => ?_
  have drawn := (Formula.mem_drawn_conversion (r.formula f g) source ambient _).mpr ⟨n, above, below, rfl⟩
  obtain ⟨apart, apart'⟩ := fresh _ drawn
  exact ((r.mem_names_formula_iff f g _).mp used).elim apart apart'

include fresh given in
theorem extends_iff_holds :
    ((∃ M : Model, M.Extends m ∧ ((r.formula f g).conversion source ambient).theory.evaluate M = .ok true) ↔
      r.holds (f.truth m.total) (g.truth m.total) = true) ∧
    ((∃ M : Model, M.Assigns ((r.formula f g).conversion source ambient).theory.names ∧ M.Extends m ∧
        ((r.formula f g).conversion source ambient).theory.evaluate M = .ok true) ↔
      r.holds (f.truth m.total) (g.truth m.total) = true) := by
  have vocabulary := vocabulary_formula fresh
  have whole := Formula.truth_conversion (r.formula f g) source ambient
  have exactly : m.Assigns (r.formula f g).names :=
    ⟨given.nodup, fun name => by rw [given.mem_keys, List.mem_append, mem_names_formula_iff]⟩
  have satisfied := vocabulary.all_satisfied_iff_extension whole exactly
  rw [List.forall_mem_singleton, vocabulary.evaluate_formula exactly List.mem_cons_self, truth_formula,
    Except.ok.injEq] at satisfied
  refine ⟨⟨fun extended => ?_, fun holds => ?_⟩, satisfied.symm⟩
  · obtain ⟨M, extension, value⟩ := extended
    rw [← truth_formula]
    exact vocabulary.truth_of_extension whole exactly extension value _ List.mem_cons_self
  · obtain ⟨M, _, extension, value⟩ := satisfied.mp holds
    exact ⟨M, extension, value⟩

end

end

/-- The formula that asserts a relation has the variables of its operands, and where they all have
values it is true exactly if the relation holds between the truth values of the operands. Where a variable
has none, the fault names the first of them, from the first operand of the formula on to the second. After
conversion a model of just the variables extends to one of the theory exactly if the relation holds, be the
operands apart, the same, or one a part of the other. -/
theorem formula_asserts (r : Relation) (f g : Formula) :
    (∀ name, name ∈ (r.formula f g).names ↔ name ∈ f.names ∨ name ∈ g.names) ∧
    (∀ m : Model, (∀ name, name ∈ f.names ∨ name ∈ g.names → name ∈ m.keys) →
      ∃ a b, f.evaluateShared m = .ok a ∧ g.evaluateShared m = .ok b ∧
        (r.formula f g).evaluateShared m = .ok (r.holds a b)) ∧
    (∀ m : Model, (∃ name, (name ∈ f.names ∨ name ∈ g.names) ∧ name ∉ m.keys) →
      ∃ before first after, (r.ordered f g).flatMap leaves = before ++ first :: after ∧
        (∀ other ∈ before, other ∈ m.keys) ∧ first ∉ m.keys ∧
        (r.formula f g).evaluateShared m = .error (.unassigned first) ∧
        (Fault.unassigned first).kind = .value) ∧
    ∀ source ambient check, (check = true → (r.formula f g).clashes source ambient = []) →
      ∃ conversion, (r.formula f g).convert source ambient check = .ok conversion ∧
        ((∀ name ∈ conversion.drawnNames ambient, name ∉ f.names ∧ name ∉ g.names) →
          ∀ m : Model, m.Assigns (f.names ++ g.names) →
            ∃ a b, f.evaluateShared m = .ok a ∧ g.evaluateShared m = .ok b ∧
              ((∃ M : Model, M.Extends m ∧ conversion.theory.evaluate M = .ok true) ↔ r.holds a b = true) ∧
              ((∃ M : Model, M.Assigns conversion.theory.names ∧ M.Extends m ∧
                conversion.theory.evaluate M = .ok true) ↔ r.holds a b = true)) := by
  refine ⟨r.mem_names_formula_iff f g, fun m covered => ⟨_, _, evaluate_formula_of_covered covered⟩,
    fun m missing => ?_,
    fun source ambient check accepted => ⟨_, Formula.convert_eq_ok accepted, fun fresh m given => ?_⟩⟩
  · obtain ⟨name, mentioned, unknown⟩ := missing
    obtain ⟨before, first, after, parts, covered, missing, failed⟩ :=
      evaluate_formula_of_missing (r := r) mentioned unknown
    exact ⟨before, first, after, parts, covered, missing, failed, rfl⟩
  · have covered : ∀ name, name ∈ f.names ∨ name ∈ g.names → name ∈ m.keys := fun name mentioned =>
      (given.mem_keys name).mpr (List.mem_append.mpr mentioned)
    obtain ⟨left, right, _⟩ := evaluate_formula_of_covered (r := r) covered
    exact ⟨_, _, left, right, extends_iff_holds fresh given⟩

/-- The first operand is a part of the second, which the formula looks at first. -/
theorem formula_asserts_of_part :
    let f := Formula.neg (.var "p")
    let g := Formula.conj [.var "q", f]
    let m : Model := ⟨[("q", true), ("p", true)]⟩
    (impliedBy.formula f g).clashes {} "_x" = [] ∧ m.Assigns (f.names ++ g.names) ∧
      (impliedBy.formula f g).evaluateShared ⟨[]⟩ = .error (.unassigned "q") ∧
      ∃ conversion, (impliedBy.formula f g).convert {} "_x" true = .ok conversion ∧
        conversion.drawnNames "_x" = ["_x1", "_x2", "_x3", "_x4"] ∧
        ∃ M : Model, M.Extends m ∧ conversion.theory.evaluate M = .ok true := by
  intro f g m
  have names (name : String) : name ∈ f.names ∨ name ∈ g.names ↔ name = "p" ∨ name = "q" := by
    have leaves : f.leaves = ["p"] := rfl
    have leaves' : g.leaves = ["q", "p"] := rfl
    rw [Formula.mem_names_iff, Formula.mem_names_iff, leaves, leaves']
    simp only [List.mem_cons, List.not_mem_nil, or_false]
    grind
  obtain ⟨mentioned, -, faults, conversions⟩ := formula_asserts impliedBy f g
  have accepted : (impliedBy.formula f g).clashes {} "_x" = [] := by
    refine List.filter_eq_nil_iff.mpr fun name member => ?_
    rcases (names name).mp ((mentioned name).mp member) with rfl | rfl <;> decide +kernel
  have given : m.Assigns (f.names ++ g.names) := by
    refine ⟨by decide, fun name => ?_⟩
    rw [List.mem_append, names]
    simp [m, Table.keys, or_comm]
  have fault : (impliedBy.formula f g).evaluateShared ⟨[]⟩ = .error (.unassigned "q") := by
    obtain ⟨before, first, after, parts, covered, -, failed, -⟩ :=
      faults ⟨[]⟩ ⟨"q", (names "q").mpr (Or.inr rfl), List.not_mem_nil⟩
    cases before with
    | nil =>
      obtain ⟨rfl, _⟩ := List.cons.inj parts
      exact failed
    | cons other _ => exact absurd (covered other List.mem_cons_self) List.not_mem_nil
  obtain ⟨conversion, done, extensions⟩ := conversions {} "_x" true fun _ => accepted
  have drawn : conversion.drawnNames "_x" = ["_x1", "_x2", "_x3", "_x4"] := by
    rw [Formula.eq_conversion _ _ _ done]
    decide +kernel
  have fresh : ∀ name ∈ conversion.drawnNames "_x", name ∉ f.names ∧ name ∉ g.names := by
    rw [drawn]
    intro name member
    rw [← not_or, names]
    revert name
    decide
  obtain ⟨a, b, left, right, extended, -⟩ := extensions fresh m given
  have left' : f.evaluateShared m = .ok false := by
    rw [Formula.evaluateShared_eq_evaluate]
    rfl
  have right' : g.evaluateShared m = .ok false := by
    rw [Formula.evaluateShared_eq_evaluate]
    rfl
  rw [left', Except.ok.injEq] at left
  rw [right', Except.ok.injEq] at right
  subst left right
  exact ⟨accepted, given, fault, conversion, done, drawn, extended.mpr rfl⟩

end Relation

end Clausal
