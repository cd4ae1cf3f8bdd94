import Clausal.Proofs.Theory.Truth

namespace Clausal

section

variable {α : Type}

/-- Finds values in order up to the first that settles the whole. If none does, the whole has the
opposite value. -/
def settle (decisive : Bool) (value : α → Except Fault Bool) : List α → Except Fault Bool
  | [] => .ok !decisive
  | a :: as => do
    if (← value a) = decisive then return decisive
    settle decisive value as

variable {decisive : Bool} {value : α → Except Fault Bool}

theorem settle_of_passed {a : α} {as : List α} (passed : value a = .ok !decisive) :
    settle decisive value (a :: as) = settle decisive value as := by
  rw [settle, passed]
  cases decisive <;> rfl

theorem settle_of_settled {a : α} {as : List α} (settled : value a ≠ .ok !decisive) :
    settle decisive value (a :: as) = value a := by
  rw [settle]
  cases outcome : value a with
  | error fault => rfl
  | ok b =>
    have own : b = decisive := by
      rw [outcome, Ne, Except.ok.injEq, Bool.eq_not, Decidable.not_not] at settled
      exact settled
    subst own
    exact if_pos rfl

/-- All outcomes but one are that of the first member which is not passed over. -/
theorem settle_eq_iff {as : List α} {outcome : Except Fault Bool} (settled : outcome ≠ .ok !decisive) :
    settle decisive value as = outcome ↔ ∃ before a after, as = before ++ a :: after ∧
      (∀ b ∈ before, value b = .ok !decisive) ∧ value a = outcome := by
  induction as with
  | nil =>
    refine iff_of_false settled.symm fun parts => ?_
    obtain ⟨before, a, after, whole, _⟩ := parts
    exact List.append_ne_nil_of_right_ne_nil before (List.cons_ne_nil a after) whole.symm
  | cons a as ih =>
    by_cases passed : value a = .ok !decisive
    · rw [settle_of_passed passed, ih]
      constructor
      · rintro ⟨before, b, after, rfl, each, last⟩
        exact ⟨a :: before, b, after, rfl, List.forall_mem_cons.mpr ⟨passed, each⟩, last⟩
      · rintro ⟨before, b, after, whole, each, last⟩
        cases before with
        | nil =>
          obtain ⟨rfl, _⟩ := List.cons.inj whole
          exact absurd (last.symm.trans passed) settled
        | cons first before =>
          obtain ⟨_, rest⟩ := List.cons.inj whole
          exact ⟨before, b, after, rest, fun c member => each c (.tail _ member), last⟩
    · rw [settle_of_settled passed]
      constructor
      · intro own
        exact ⟨[], a, as, rfl, fun b member => absurd member List.not_mem_nil, own⟩
      · rintro ⟨before, b, after, whole, each, last⟩
        cases before with
        | nil =>
          obtain ⟨rfl, _⟩ := List.cons.inj whole
          exact last
        | cons first before =>
          obtain ⟨rfl, _⟩ := List.cons.inj whole
          exact absurd (each a List.mem_cons_self) passed

theorem settle_eq_passed_iff {as : List α} :
    settle decisive value as = .ok !decisive ↔ ∀ a ∈ as, value a = .ok !decisive := by
  induction as with
  | nil => exact iff_of_true rfl fun a member => absurd member List.not_mem_nil
  | cons a as ih =>
    rw [List.forall_mem_cons]
    by_cases passed : value a = .ok !decisive
    · rw [settle_of_passed passed, ih, and_iff_right passed]
    · rw [settle_of_settled passed]
      exact iff_of_false passed fun each => passed each.1

/-- What more values leave as it was, once it was found, the whole leaves as well. -/
theorem settle_stable {other : α → Except Fault Bool} {as : List α}
    (stable : ∀ a ∈ as, ∀ b, value a = .ok b → other a = .ok b) {b : Bool}
    (done : settle decisive value as = .ok b) : settle decisive other as = .ok b := by
  induction as with
  | nil => exact done
  | cons a as ih =>
    have first := stable a List.mem_cons_self
    by_cases passed : value a = .ok !decisive
    · rw [settle_of_passed passed] at done
      rw [settle_of_passed (first _ passed)]
      exact ih (fun c member => stable c (.tail _ member)) done
    · rw [settle_of_settled passed] at done
      have same := first b done
      rw [settle_of_settled (same ▸ done ▸ passed), same]

end

namespace Literal

/-- The model gives the name of the literal the value with which the literal is `b`. -/
def HasValue (model : Model) (l : Literal) (b : Bool) : Prop :=
  model.get? l.name = some (b != l.negated)

theorem evaluate_eq_ok_iff (model : Model) (l : Literal) (b : Bool) :
    l.evaluate model = .ok b ↔ l.HasValue model b := by
  rw [evaluate, Model.value, HasValue]
  cases model.get? l.name with
  | none =>
    constructor
    · intro done
      cases done
    · intro found
      cases found
  | some v =>
    have negations : (v != l.negated) = b ↔ v = (b != l.negated) := by
      cases v <;> cases l.negated <;> cases b <;> decide
    rw [Option.some.injEq, ← negations]
    exact ⟨fun done => Except.ok.inj done, congrArg Except.ok⟩

theorem evaluate_eq_error_iff (model : Model) (l : Literal) (fault : Fault) :
    l.evaluate model = .error fault ↔ l.name ∉ model.keys ∧ fault = .unassigned l.name := by
  rw [Table.mem_keys_iff, not_exists, ← Option.eq_none_iff_forall_ne_some, evaluate, Model.value]
  cases model.get? l.name with
  | none => exact ⟨fun failed => ⟨rfl, (Except.error.inj failed).symm⟩, fun both => both.2 ▸ rfl⟩
  | some v =>
    constructor
    · intro failed
      cases failed
    · rintro ⟨missing, _⟩
      cases missing

theorem evaluate_stable {model larger : Model} (extended : larger.Extends model) {l : Literal} {b : Bool}
    (done : l.evaluate model = .ok b) : l.evaluate larger = .ok b := by
  rw [evaluate_eq_ok_iff] at done ⊢
  exact extended l.name _ done

end Literal

namespace Clause

/-- Evaluation of a clause comes to a literal if all literals before it are false. -/
def Consults (model : Model) (c : Clause) (l : Literal) : Prop :=
  ∃ before after, c.literals = before ++ l :: after ∧ ∀ k ∈ before, k.HasValue model false

variable {model : Model} {c : Clause}

theorem Consults.mem {l : Literal} (consulted : c.Consults model l) : l ∈ c.literals := by
  obtain ⟨before, after, whole, _⟩ := consulted
  rw [whole]
  exact List.mem_append_right before List.mem_cons_self

theorem evaluate_eq_settle (model : Model) (c : Clause) :
    c.evaluate model = settle true (fun l => l.evaluate model) c.literals := by
  rw [evaluate]
  induction c.literals with
  | nil => rfl
  | cons l ls ih =>
    rw [evaluateAny, settle, ih]

theorem evaluate_eq_iff {outcome : Except Fault Bool} (settled : outcome ≠ .ok false) :
    c.evaluate model = outcome ↔ ∃ l, c.Consults model l ∧ l.evaluate model = outcome := by
  rw [evaluate_eq_settle, settle_eq_iff settled]
  simp only [Consults, Bool.not_true, Literal.evaluate_eq_ok_iff]
  constructor
  · rintro ⟨before, l, after, whole, each, last⟩
    exact ⟨l, ⟨before, after, whole, each⟩, last⟩
  · rintro ⟨l, ⟨before, after, whole, each⟩, last⟩
    exact ⟨before, l, after, whole, each, last⟩

theorem evaluate_eq_true_iff :
    c.evaluate model = .ok true ↔ ∃ l, c.Consults model l ∧ l.HasValue model true := by
  have settled : (Except.ok true : Except Fault Bool) ≠ .ok false := nofun
  rw [evaluate_eq_iff settled]
  simp only [Literal.evaluate_eq_ok_iff]

theorem evaluate_eq_error_iff (fault : Fault) : c.evaluate model = .error fault ↔
    ∃ l, c.Consults model l ∧ l.name ∉ model.keys ∧ fault = .unassigned l.name := by
  have settled : (Except.error fault : Except Fault Bool) ≠ .ok false := nofun
  rw [evaluate_eq_iff settled]
  simp only [Literal.evaluate_eq_error_iff]

theorem evaluate_stable {larger : Model} (extended : larger.Extends model) {b : Bool}
    (done : c.evaluate model = .ok b) : c.evaluate larger = .ok b := by
  rw [evaluate_eq_settle] at done ⊢
  exact settle_stable (fun l _ b => Literal.evaluate_stable extended) done

/-- In a model of all its names a clause has the value true exactly if one of its literals has. -/
theorem evaluate_covered (covered : ∀ name ∈ c.names, name ∈ model.keys) :
    ∃ b, c.evaluate model = .ok b ∧ (b = true ↔ ∃ l ∈ c.literals, l.HasValue model true) := by
  have each : ∀ l ∈ c.literals, l.name ∈ model.keys := fun l member =>
    covered l.name ((c.mem_names_iff l.name).mpr ⟨l, member, rfl⟩)
  refine ⟨_, evaluate_eq_ok each, ?_⟩
  rw [truth, List.any_eq_true]
  refine exists_congr fun l => and_congr_right fun member => ?_
  rw [← Literal.evaluate_eq_ok_iff, Literal.evaluate_eq_ok (each l member), Except.ok.injEq]

end Clause

namespace Theory

/-- Evaluation of a theory comes to a literal if it does so in its clause and all clauses before that one
are true. -/
def Consults (model : Model) (t : Theory) (l : Literal) : Prop :=
  ∃ before c after, t.clauses = before ++ c :: after ∧
    (∀ d ∈ before, ∃ k, d.Consults model k ∧ k.HasValue model true) ∧ c.Consults model l

variable {model : Model} {t : Theory}

theorem Consults.mem_names {l : Literal} (consulted : t.Consults model l) : l.name ∈ t.names := by
  obtain ⟨before, c, after, whole, _, inside⟩ := consulted
  refine (t.mem_names_iff l.name).mpr ⟨c, ?_, l, inside.mem, rfl⟩
  rw [whole]
  exact List.mem_append_right before List.mem_cons_self

theorem evaluate_eq_settle (model : Model) (t : Theory) :
    t.evaluate model = settle false (fun c => c.evaluate model) t.clauses := by
  rw [evaluate]
  induction t.clauses with
  | nil => rfl
  | cons c cs ih =>
    rw [evaluateAll, settle, ih]
    rcases c.evaluate model with fault | b
    · rfl
    · cases b <;> rfl

theorem evaluate_eq_error_iff (fault : Fault) : t.evaluate model = .error fault ↔
    ∃ l, t.Consults model l ∧ l.name ∉ model.keys ∧ fault = .unassigned l.name := by
  have settled : (Except.error fault : Except Fault Bool) ≠ .ok !false := nofun
  rw [evaluate_eq_settle, settle_eq_iff settled]
  simp only [Consults, Bool.not_false, Clause.evaluate_eq_true_iff, Clause.evaluate_eq_error_iff]
  constructor
  · rintro ⟨before, c, after, whole, each, l, consulted, missing⟩
    exact ⟨l, ⟨before, c, after, whole, each, consulted⟩, missing⟩
  · rintro ⟨l, ⟨before, c, after, whole, each, consulted⟩, missing⟩
    exact ⟨before, c, after, whole, each, l, consulted, missing⟩

theorem evaluate_stable {larger : Model} (extended : larger.Extends model) {b : Bool}
    (done : t.evaluate model = .ok b) : t.evaluate larger = .ok b := by
  rw [evaluate_eq_settle] at done ⊢
  exact settle_stable (fun c _ b => Clause.evaluate_stable extended) done

theorem evaluate_eq_true_iff :
    t.evaluate model = .ok true ↔ ∀ c ∈ t.clauses, c.evaluate model = .ok true := by
  rw [evaluate_eq_settle, ← Bool.not_false, settle_eq_passed_iff]

/-- A theory that is found true stays true whatever values the other names are given. -/
theorem truth_of_evaluate (done : t.evaluate model = .ok true) : t.truth model.total = true := by
  rw [evaluate_eq_true_iff] at done
  refine List.all_eq_true.mpr fun c member => ?_
  obtain ⟨l, consulted, value⟩ := Clause.evaluate_eq_true_iff.mp (done c member)
  refine List.any_eq_true.mpr ⟨l, consulted.mem, ?_⟩
  rw [Literal.truth, Model.total, value, Option.getD_some]
  cases l.negated <;> rfl

/-- In a model of all its names a theory has the value true exactly if each clause has a true literal. -/
theorem evaluate_covered (covered : ∀ name ∈ t.names, name ∈ model.keys) :
    ∃ b, t.evaluate model = .ok b ∧
      (b = true ↔ ∀ c ∈ t.clauses, ∃ l ∈ c.literals, l.HasValue model true) := by
  have value := evaluate_eq_ok covered
  have holds : t.truth model.total = true ↔ t.evaluate model = .ok true := by
    rw [value, Except.ok.injEq]
  refine ⟨_, value, ?_⟩
  rw [holds, evaluate_eq_true_iff]
  refine forall₂_congr fun c member => ?_
  have own : ∀ name ∈ c.names, name ∈ model.keys := by
    intro name inside
    obtain ⟨l, atLiteral, rfl⟩ := (c.mem_names_iff name).mp inside
    exact covered l.name ((t.mem_names_iff l.name).mpr ⟨c, member, l, atLiteral, rfl⟩)
  obtain ⟨b, result, satisfied⟩ := Clause.evaluate_covered own
  rw [result, Except.ok.injEq, satisfied]

end Theory

/-- Evaluation under a model that need not cover all names. A value once found stays the same in every
model with more values. A fault arises exactly if evaluation comes to a literal without a value, which in
a clause is after false literals only, and in a theory after true clauses only; the fault names it. In a
model of all names there is none, a clause is true if one of its literals is, and a theory if each of its
clauses has a true literal. -/
theorem evaluate_partial (model : Model) :
    (∀ c : Clause,
      (∀ b, c.evaluate model = .ok b → ∀ larger : Model, larger.Extends model → c.evaluate larger = .ok b) ∧
      (∀ fault, c.evaluate model = .error fault ↔
        ∃ l, c.Consults model l ∧ l.name ∉ model.keys ∧ fault = .unassigned l.name) ∧
      (∀ fault, c.evaluate model = .error fault →
        fault.kind = .value ∧ ∃ name ∈ c.names, name ∉ model.keys ∧ fault = .unassigned name) ∧
      ((∀ name ∈ c.names, name ∈ model.keys) →
        ∃ b, c.evaluate model = .ok b ∧ (b = true ↔ ∃ l ∈ c.literals, l.HasValue model true))) ∧
    ∀ t : Theory,
      (∀ b, t.evaluate model = .ok b → ∀ larger : Model, larger.Extends model → t.evaluate larger = .ok b) ∧
      (∀ fault, t.evaluate model = .error fault ↔
        ∃ l, t.Consults model l ∧ l.name ∉ model.keys ∧ fault = .unassigned l.name) ∧
      (∀ fault, t.evaluate model = .error fault →
        fault.kind = .value ∧ ∃ name ∈ t.names, name ∉ model.keys ∧ fault = .unassigned name) ∧
      ((∀ name ∈ t.names, name ∈ model.keys) →
        ∃ b, t.evaluate model = .ok b ∧
          (b = true ↔ ∀ c ∈ t.clauses, ∃ l ∈ c.literals, l.HasValue model true)) := by
  constructor
  · intro c
    refine ⟨fun b done larger extended => Clause.evaluate_stable extended done,
      Clause.evaluate_eq_error_iff, fun fault failed => ?_, Clause.evaluate_covered⟩
    obtain ⟨l, consulted, missing, rfl⟩ := (Clause.evaluate_eq_error_iff fault).mp failed
    exact ⟨rfl, l.name, (c.mem_names_iff l.name).mpr ⟨l, consulted.mem, rfl⟩, missing, rfl⟩
  · intro t
    refine ⟨fun b done larger extended => Theory.evaluate_stable extended done,
      Theory.evaluate_eq_error_iff, fun fault failed => ?_, Theory.evaluate_covered⟩
    obtain ⟨l, consulted, missing, rfl⟩ := (Theory.evaluate_eq_error_iff fault).mp failed
    exact ⟨rfl, l.name, consulted.mem_names, missing, rfl⟩

end Clausal
