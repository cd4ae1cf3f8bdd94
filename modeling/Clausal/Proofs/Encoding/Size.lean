import Clausal.Proofs.Encoding.Correctness
import Clausal.Proofs.Session.Conversion
import Mathlib.Algebra.Ring.Nat

namespace Clausal

open NameSource (numbered)

namespace Formula

/-- The number of clauses that define the name of a node. -/
def ownClauses : Formula → Nat
  | var _ => 0
  | neg _ => 2
  | conj subs => subs.length + 1
  | disj subs => subs.length + 1
  | imp _ _ => 3
  | iff _ _ => 4

/-- The number of literals in the clauses that define the name of a node. -/
def ownLiterals : Formula → Nat
  | var _ => 0
  | neg _ => 4
  | conj subs => 3 * subs.length + 1
  | disj subs => 3 * subs.length + 1
  | imp _ _ => 7
  | iff _ _ => 12

theorem length_gate_clauses {c : Connective} {f : Formula} (root : f.connective? = some c)
    (name : String) {parts : List String} (each : parts.length = f.subs.length) :
    (Gate.clauses ⟨c, name, parts⟩).length = f.ownClauses := by
  cases f <;> cases root
  case neg => match parts, each with | [b], _ => rfl
  case imp => match parts, each with | [l, r], _ => rfl
  case iff => match parts, each with | [l, r], _ => rfl
  all_goals simpa [Gate.clauses, Connective.defining, ownClauses, subs] using each

/-- The short clauses have two literals for each part, and the long one has one for each and one more. -/
theorem length_short_long (a b : Literal) (p q : String → Literal) (parts : List String) :
    ((parts.map (fun part => (⟨[a, p part]⟩ : Clause)) ++ [(⟨b :: parts.map q⟩ : Clause)]).flatMap
      Clause.literals).length = 3 * parts.length + 1 := by
  have short : ((parts.map fun part => (⟨[a, p part]⟩ : Clause)).flatMap Clause.literals).length =
      2 * parts.length := by
    induction parts with
    | nil => rfl
    | cons part parts ih =>
      rw [List.map_cons, List.flatMap_cons, List.length_append, ih]
      change 2 + 2 * parts.length = 2 * (parts.length + 1)
      omega
  rw [List.flatMap_append, List.length_append, short, List.flatMap_singleton, List.length_cons,
    List.length_map]
  omega

theorem length_gate_literals {c : Connective} {f : Formula} (root : f.connective? = some c)
    (name : String) {parts : List String} (each : parts.length = f.subs.length) :
    ((Gate.clauses ⟨c, name, parts⟩).flatMap Clause.literals).length = f.ownLiterals := by
  cases f <;> cases root
  case neg => match parts, each with | [b], _ => rfl
  case imp => match parts, each with | [l, r], _ => rfl
  case iff => match parts, each with | [l, r], _ => rfl
  case conj subs =>
    change parts.length = subs.length at each
    rw [ownLiterals, ← each]
    exact length_short_long (.neg name) (.pos name) .pos .neg parts
  case disj subs =>
    change parts.length = subs.length at each
    rw [ownLiterals, ← each]
    exact length_short_long (.pos name) (.neg name) .neg .pos parts

/-- What is counted gate by gate comes to the sum over the composite occurrences. -/
theorem sum_gates (stem : String) (count : Gate → Nat) {own : Formula → Nat}
    (each : ∀ (c : Connective) (f : Formula), f.connective? = some c → ∀ name parts,
      parts.length = f.subs.length → count ⟨c, name, parts⟩ = own f) :
    (∀ (f : Formula) (k : Nat), ((f.gates stem k).map count).sum = (f.composites.map own).sum) ∧
      ∀ (fs : List Formula) (k : Nat),
        ((gatesAll stem fs k).map count).sum = ((fs.flatMap composites).map own).sum := by
  refine forest_induction ?var ?node ?nil ?cons
  case var => exact fun name k => rfl
  case node =>
    intro c f root ih k
    have last := each c f root (numbered stem (k + 1)) (labels stem f.subs (k + 1))
      (length_labels stem f.subs (k + 1))
    rw [gates_node root, composites_node root, List.map_append, List.sum_append, ih, List.map_cons,
      List.map_cons, List.sum_cons, List.sum_cons, last, Nat.add_comm]
    rfl
  case nil => exact fun k => rfl
  case cons =>
    intro f fs ihf ihs k
    rw [gatesAll, List.map_append, List.sum_append, ihf, ihs, List.flatMap_cons, List.map_append,
      List.sum_append]

section

variable (f : Formula) (source : NameSource) (ambient : String)

theorem length_conversion : (f.conversion source ambient).theory.clauses.length =
    1 + (f.composites.map ownClauses).sum := by
  have gates := (sum_gates (source.stem ambient) (fun g => g.clauses.length)
    fun _ _ root name _ => length_gate_clauses root name).1 f source.count
  rw [conversion, List.length_cons, List.length_flatMap, gates, Nat.add_comm]

theorem literals_conversion : ((f.conversion source ambient).theory.clauses.flatMap Clause.literals).length =
    1 + (f.composites.map ownLiterals).sum := by
  have gates := (sum_gates (source.stem ambient)
    (fun g => (g.clauses.flatMap Clause.literals).length)
    fun _ _ root name _ => length_gate_literals root name).1 f source.count
  rw [conversion, List.flatMap_cons, List.length_append, List.flatMap_assoc, List.length_flatMap, gates]
  rfl

end

/-- The walk yields a composite subformula once, however often it occurs. -/
theorem length_walk_composites (f : Formula) :
    let walked := f.subformulas.filter fun g => g.connective?.isSome
    walked.length ≤ f.composites.length ∧ (walked.length = f.composites.length ↔ f.composites.Nodup) := by
  intro walked
  have distinct : walked.Nodup := (nodup_subformulas f).filter _
  refine length_le_of_nodup distinct fun g => ?_
  rw [composites, List.mem_filter, List.mem_filter, mem_subformulas_iff]

/-- The size and the vocabulary of a theory in clausal form, to the last clause, literal and name. A
name is drawn for each composite occurrence, also where it repeats another one. A session that converts
the formula logs both numbers, and its source has drawn as many names. -/
theorem convert_size {f : Formula} {source : NameSource} {ambient : String} {check : Bool}
    {conversion : Conversion} (done : f.convert source ambient check = .ok conversion) :
    conversion.theory.clauses.length = 1 + (f.composites.map ownClauses).sum ∧
    (conversion.theory.clauses.flatMap Clause.literals).length = 1 + (f.composites.map ownLiterals).sum ∧
    conversion.after = { source with count := source.count + f.composites.length } ∧
    conversion.drawnNames ambient = (source.drawMany ambient f.composites.length).1 ∧
    (conversion.drawnNames ambient).length = f.composites.length ∧
    (conversion.drawnNames ambient).Nodup ∧
    (∀ name, name ∈ conversion.theory.names ↔ name ∈ f.names ∨ name ∈ conversion.drawnNames ambient) ∧
    conversion.report = "Converted formula to " ++ toString (1 + (f.composites.map ownClauses).sum) ++
      " clauses with " ++ toString f.composites.length ++ " auxiliary variables" ∧
    (∀ session thread gen id, Session.ConvertsWith session thread gen id source ambient check →
      ∀ keep ofAny,
        let after := session.request thread keep (.convert (.given (.formula f)) gen ofAny)
        after.1 = .output (.conversion (conversion.theory.clauses.map Clause.text)
            conversion.theory.names ["DEBUG: " ++ conversion.report]) ∧
          after.2.workspace.source id = { source with count := source.count + f.composites.length }) ∧
    let walked := f.subformulas.filter fun g => g.connective?.isSome
    walked.length ≤ f.composites.length ∧
      (walked.length = f.composites.length ↔ f.composites.Nodup) := by
  obtain rfl := eq_conversion f source ambient done
  have drawn : (f.conversion source ambient).drawnNames ambient =
      (source.drawMany ambient f.composites.length).1 := by
    rw [Conversion.drawnNames, drawn_conversion]
    rfl
  refine ⟨length_conversion f source ambient, literals_conversion f source ambient, rfl, drawn, ?_, ?_,
    fun name => ?_, ?_, fun session thread gen id given keep ofAny => ?_, length_walk_composites f⟩
  · rw [drawn, NameSource.length_drawMany]
  · rw [drawn]
    exact NameSource.nodup_drawMany ambient _ source
  · rw [mem_names_conversion, drawn, NameSource.mem_drawMany_iff]
  · unfold Conversion.report
    rw [length_conversion, drawn_conversion]
  · obtain ⟨reply, t, converted⟩ := Session.request_convert given done keep ofAny
    exact ⟨reply, converted.drawn⟩

/-- A repeated child and a child without children: four occurrences, of which the walk yields three. -/
theorem convert_size_of_repetition :
    let f := conj [neg (var "p"), neg (var "p"), disj []]
    let session : Session := { workspace := { sources := #[{ count := 4 }] } }
    ∃ conversion, f.convert { count := 4 } "_x" false = .ok conversion ∧
      conversion.theory.clauses.length = 10 ∧
      (conversion.theory.clauses.flatMap Clause.literals).length = 20 ∧
      conversion.after.count = 8 ∧ conversion.drawnNames "_x" = ["_x5", "_x6", "_x7", "_x8"] ∧
      conversion.report = "Converted formula to 10 clauses with 4 auxiliary variables" ∧
      (session.request ⟨0⟩ none (.convert (.given (.formula f)) none true)).2.workspace.source ⟨0⟩ =
        { count := 8 } ∧
      (f.subformulas.filter fun g => g.connective?.isSome).length < 4 := by
  intro f session
  have given : session.ConvertsWith ⟨0⟩ none ⟨0⟩ { count := 4 } "_x" false :=
    ⟨rfl, Nat.zero_lt_one, rfl, rfl, rfl⟩
  have done : f.convert { count := 4 } "_x" false = .ok (f.conversion { count := 4 } "_x") :=
    convert_eq_ok nofun
  have composites : f.composites = [f, neg (var "p"), neg (var "p"), disj []] := rfl
  obtain ⟨clauses, literals, after, drawn, -, -, -, report, requests, walked, equal⟩ := convert_size done
  obtain ⟨-, source⟩ := requests session ⟨0⟩ none ⟨0⟩ given none true
  rw [composites] at clauses literals after drawn report source walked equal
  refine ⟨_, done, clauses, literals, ?_, drawn.trans ?_, report.trans ?_, source,
    Nat.lt_of_le_of_ne walked fun same => ?_⟩
  · rw [after]
    rfl
  · decide +kernel
  · decide +kernel
  · have once := equal.mp same
    simp at once

end Formula

end Clausal
