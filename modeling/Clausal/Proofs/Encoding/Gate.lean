import Clausal.Encoding.Defining
import Clausal.Proofs.Formula.Preorder
import Clausal.Proofs.Theory.Truth

namespace Clausal

/-- The numbers of parts that a connective can join. -/
def Connective.Joins : Connective → Nat → Prop
  | neg, n => n = 1
  | conj, _ => True
  | disj, _ => True
  | imp, n => n = 2
  | iff, n => n = 2

instance (c : Connective) (n : Nat) : Decidable (c.Joins n) :=
  match c with
  | .neg => inferInstanceAs (Decidable (n = 1))
  | .conj | .disj => inferInstanceAs (Decidable True)
  | .imp | .iff => inferInstanceAs (Decidable (n = 2))

theorem Formula.connective_joins {c : Connective} {f : Formula} (root : f.connective? = some c) :
    c.Joins f.subs.length := by
  cases f <;> cases root <;> simp [Connective.Joins, subs]

theorem Formula.node?_of_joins {c : Connective} {fs : List Formula} (joins : c.Joins fs.length) :
    ∃ f, node? c fs = some f := by
  match c, fs, joins with
  | .neg, [f], _ => exact ⟨_, rfl⟩
  | .conj, fs, _ => exact ⟨_, rfl⟩
  | .disj, fs, _ => exact ⟨_, rfl⟩
  | .imp, [f, g], _ => exact ⟨_, rfl⟩
  | .iff, [f, g], _ => exact ⟨_, rfl⟩

/-- A name, and the connective and the names by which it is defined. -/
structure Gate where
  connective : Connective
  name : String
  parts : List String

namespace Gate

def Fits (g : Gate) : Prop :=
  g.connective.Joins g.parts.length

def Holds (v : String → Bool) (g : Gate) : Prop :=
  v g.name = g.connective.apply (g.parts.map v)

def clauses (g : Gate) : List Clause :=
  match g.connective.defining g.name g.parts with
  | .ok clauses => clauses
  | .error _ => []

theorem defining_eq_ok {g : Gate} (fits : g.Fits) :
    g.connective.defining g.name g.parts = .ok g.clauses := by
  obtain ⟨c, name, parts⟩ := g
  match c, parts, fits with
  | .neg, [b], _ => rfl
  | .conj, parts, _ => rfl
  | .disj, parts, _ => rfl
  | .imp, [l, r], _ => rfl
  | .iff, [l, r], _ => rfl

theorem all_truth_conj (v : String → Bool) (name : String) (parts : List String) :
    (clauses ⟨.conj, name, parts⟩).all (Clause.truth v) = true ↔ v name = parts.all v := by
  have split : (clauses ⟨.conj, name, parts⟩).all (Clause.truth v) =
      ((parts.all fun b => !v name || v b) && (v name || !parts.all v)) := by
    simp [clauses, Connective.defining, Clause.truth, Function.comp_def, List.not_all_eq_any_not]
  rw [split]
  cases v name <;> simp only [Bool.not_true, Bool.not_false, Bool.true_or, Bool.false_or] <;>
    cases parts.all v <;> simp

theorem all_truth_disj (v : String → Bool) (name : String) (parts : List String) :
    (clauses ⟨.disj, name, parts⟩).all (Clause.truth v) = true ↔ v name = parts.any v := by
  have split : (clauses ⟨.disj, name, parts⟩).all (Clause.truth v) =
      ((parts.all fun b => v name || !v b) && (!v name || parts.any v)) := by
    simp [clauses, Connective.defining, Clause.truth, Function.comp_def]
  rw [split]
  cases v name <;> simp only [Bool.not_true, Bool.not_false, Bool.true_or, Bool.false_or,
    ← List.not_any_eq_all_not] <;> cases parts.any v <;> simp

/-- The clauses of a gate say that it holds, also where its names repeat. -/
theorem all_truth_clauses_iff {g : Gate} (fits : g.Fits) (v : String → Bool) :
    g.clauses.all (Clause.truth v) = true ↔ g.Holds v := by
  obtain ⟨c, name, parts⟩ := g
  match c, parts, fits with
  | .neg, [b], _ =>
    cases atName : v name <;> cases atPart : v b <;>
      simp [clauses, Connective.defining, Clause.truth, Holds, Connective.apply, atName, atPart]
  | .conj, parts, _ =>
    have applied : (parts.map v).all id = parts.all v := by rw [List.all_map]; rfl
    rw [all_truth_conj, Holds, Connective.apply, applied]
  | .disj, parts, _ =>
    have applied : (parts.map v).any id = parts.any v := by rw [List.any_map]; rfl
    rw [all_truth_disj, Holds, Connective.apply, applied]
  | .imp, [l, r], _ =>
    cases atName : v name <;> cases atLeft : v l <;> cases atRight : v r <;>
      simp [clauses, Connective.defining, Clause.truth, Holds, Connective.apply, atName, atLeft, atRight]
  | .iff, [l, r], _ =>
    cases atName : v name <;> cases atLeft : v l <;> cases atRight : v r <;>
      simp [clauses, Connective.defining, Clause.truth, Holds, Connective.apply, atName, atLeft, atRight]

/-- One short clause for each part and a long one for all of them mention the name that they have
in common and the parts. -/
theorem mem_names_short_long {a b : Literal} {p q : String → Literal} (common : b.name = a.name)
    (short : ∀ part, (p part).name = part) (long : ∀ part, (q part).name = part)
    (parts : List String) (name : String) :
    (∃ c ∈ parts.map (fun part => (⟨[a, p part]⟩ : Clause)) ++ [⟨b :: parts.map q⟩],
      ∃ l ∈ c.literals, l.name = name) ↔ name = a.name ∨ name ∈ parts := by
  constructor
  · intro mentioned
    obtain ⟨c, atClause, l, atLiteral, rfl⟩ := mentioned
    rcases List.mem_append.mp atClause with atShort | atLong
    · obtain ⟨part, atPart, rfl⟩ := List.mem_map.mp atShort
      rcases List.mem_cons.mp atLiteral with rfl | rest
      · exact Or.inl rfl
      · rw [List.mem_singleton.mp rest, short]
        exact Or.inr atPart
    · rw [List.mem_singleton.mp atLong] at atLiteral
      rcases List.mem_cons.mp atLiteral with rfl | rest
      · exact Or.inl common
      · obtain ⟨part, atPart, rfl⟩ := List.mem_map.mp rest
        rw [long]
        exact Or.inr atPart
  · have last : (⟨b :: parts.map q⟩ : Clause) ∈
        parts.map (fun part => (⟨[a, p part]⟩ : Clause)) ++ [⟨b :: parts.map q⟩] :=
      List.mem_append_right _ (List.mem_singleton_self _)
    rintro (rfl | atPart)
    · exact ⟨_, last, b, List.mem_cons_self, common⟩
    · exact ⟨_, last, q name, .tail _ (List.mem_map_of_mem atPart), long name⟩

theorem mem_names_clauses_iff {g : Gate} (fits : g.Fits) (name : String) :
    (∃ c ∈ g.clauses, ∃ l ∈ c.literals, l.name = name) ↔ name = g.name ∨ name ∈ g.parts := by
  obtain ⟨c, own, parts⟩ := g
  match c, parts, fits with
  | .conj, parts, _ =>
    exact mem_names_short_long (a := .neg own) (b := .pos own) rfl (fun _ => rfl) (fun _ => rfl)
      parts name
  | .disj, parts, _ =>
    exact mem_names_short_long (a := .pos own) (b := .neg own) rfl (fun _ => rfl) (fun _ => rfl)
      parts name
  | .neg, [b], _ => simp [clauses, Connective.defining, Literal.pos, Literal.neg, eq_comm]
  | .imp, [l, r], _ =>
    simp only [clauses, Connective.defining, Literal.pos, Literal.neg, List.mem_cons, List.not_mem_nil,
      or_false, exists_eq_or_imp, exists_eq_left]
    grind
  | .iff, [l, r], _ => simp [clauses, Connective.defining, Literal.pos, Literal.neg, eq_comm]

theorem evaluate_clause {g : Gate} (fits : g.Fits) {m : Model}
    (covered : ∀ name, name = g.name ∨ name ∈ g.parts → name ∈ m.keys) {c : Clause}
    (member : c ∈ g.clauses) : c.evaluate m = .ok (c.truth m.total) :=
  Clause.evaluate_eq_ok fun l atLiteral =>
    covered l.name ((mem_names_clauses_iff fits l.name).mp ⟨c, member, l, atLiteral, rfl⟩)

end Gate

/-- The clauses that define a name for a node mention the name and its parts and nothing else. In a
model of these names they all have values, and all are true exactly if the name has the value that the
connective of the node makes of those of the parts. Names may repeat, and the name defined may be one of
its own parts. -/
theorem Connective.defining_means_apply {c : Connective} {f : Formula} (root : f.connective? = some c)
    (name : String) {parts : List String} (each : parts.length = f.subs.length) :
    ∃ clauses, c.defining name parts = .ok clauses ∧
      (∀ other, other ∈ (⟨clauses⟩ : Theory).names ↔ other = name ∨ other ∈ parts) ∧
      ∀ m : Model, (∀ other, other = name ∨ other ∈ parts → other ∈ m.keys) →
        ∃ own values, m.get? name = some own ∧ parts.map m.get? = values.map some ∧
          (∀ d ∈ clauses, ∃ b, d.evaluate m = .ok b) ∧
          ((∀ d ∈ clauses, d.evaluate m = .ok true) ↔ own = c.apply values) ∧
          (⟨clauses⟩ : Theory).evaluate m = .ok (own == c.apply values) := by
  let g : Gate := ⟨c, name, parts⟩
  have fits : g.Fits := by
    rw [Gate.Fits, each]
    exact Formula.connective_joins root
  have names : ∀ other, other ∈ (⟨g.clauses⟩ : Theory).names ↔ other = name ∨ other ∈ parts := fun other =>
    (Theory.mem_names_iff _ other).trans (Gate.mem_names_clauses_iff fits other)
  refine ⟨g.clauses, Gate.defining_eq_ok fits, names, fun m covered => ?_⟩
  have value : ∀ d ∈ g.clauses, d.evaluate m = .ok (d.truth m.total) := fun d =>
    Gate.evaluate_clause fits covered
  have holds := Gate.all_truth_clauses_iff fits m.total
  refine ⟨m.total name, parts.map m.total, Model.get?_of_mem (covered name (Or.inl rfl)), ?_,
    fun d member => ⟨_, value d member⟩, ?_, ?_⟩
  · rw [List.map_map]
    exact List.map_congr_left fun part member => Model.get?_of_mem (covered part (Or.inr member))
  · rw [List.all_eq_true] at holds
    refine Iff.trans (forall₂_congr fun d member => ?_) holds
    rw [value d member, Except.ok.injEq]
  · rw [Theory.evaluate_eq_ok fun other member => covered other ((names other).mp member),
      Except.ok.injEq, Bool.eq_iff_iff, beq_iff_eq]
    exact holds

/-- A conjunction of three parts, of which one repeats and one is the name itself. -/
theorem Connective.defining_means_apply_of_own_part :
    let f := Formula.conj [.var "p", .neg (.var "q"), .var "q"]
    f.connective? = some .conj ∧ ["x", "p", "p"].length = f.subs.length ∧
      ∃ clauses, Connective.conj.defining "x" ["x", "p", "p"] = .ok clauses ∧
        (⟨clauses⟩ : Theory).evaluate ⟨[("p", true), ("x", true)]⟩ = .ok true ∧
        (⟨clauses⟩ : Theory).evaluate ⟨[("p", false), ("x", true)]⟩ = .ok false := by
  intro f
  have root : f.connective? = some .conj := rfl
  have each : ["x", "p", "p"].length = f.subs.length := rfl
  obtain ⟨clauses, done, -, satisfied⟩ := defining_means_apply root "x" each
  have value (b : Bool) : (⟨clauses⟩ : Theory).evaluate ⟨[("p", b), ("x", true)]⟩ = .ok b := by
    obtain ⟨own, values, atName, atParts, -, -, whole⟩ :=
      satisfied ⟨[("p", b), ("x", true)]⟩ (by simp [Table.keys])
    have known : [true, b, b].map some = values.map some := atParts
    have values_eq := (List.map_inj_right fun _ _ => Option.some.inj).mp known
    have own_eq : true = own := Option.some.inj atName
    rw [whole, ← own_eq, ← values_eq]
    cases b <;> rfl
  exact ⟨root, each, clauses, done, value true, value false⟩

end Clausal
