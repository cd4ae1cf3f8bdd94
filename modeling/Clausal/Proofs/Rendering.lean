import Clausal.Formula.Render
import Clausal.Proofs.Formula.Preorder
import Clausal.Proofs.Text.Quoted
import Clausal.Session.Memory
import Mathlib.Data.List.Forall2

namespace Clausal

open Text

/-- A text that begins with another letter than a bracket does not begin with the bracket. -/
theorem ne_of_take {text letters : List Char} {letter bracket : Char}
    (begins : text.take 2 = letter :: letters) (other : letter ≠ bracket) (rest : List Char) :
    text ≠ bracket :: rest := by
  rintro rfl
  exact other (List.head_eq_of_cons_eq begins).symm

namespace Connective

/-- What is written before the subformulas of a node. -/
def opening (c : Connective) : List Char :=
  match c with
  | conj | disj => (c.title ++ "([").toList
  | neg | imp | iff => (c.title ++ "(").toList

/-- What is written after the subformulas of a node. -/
def closing : Connective → List Char
  | conj | disj => "])".toList
  | neg | imp | iff => ")".toList

/-- The first two letters of what is written for a node. -/
def heading : Connective → List Char
  | neg => ['N', 'e']
  | conj => ['C', 'o']
  | disj => ['D', 'i']
  | imp => ['I', 'm']
  | iff => ['E', 'q']

theorem take_opening (c : Connective) (rest : List Char) : (c.opening ++ rest).take 2 = c.heading := by
  cases c <;> rfl

theorem closing_eq (c : Connective) : ∃ stop cs, c.closing = stop :: cs ∧ (stop = ')' ∨ stop = ']') := by
  cases c with
  | conj | disj => exact ⟨']', [')'], rfl, .inr rfl⟩
  | neg | imp | iff => exact ⟨')', [], rfl, .inl rfl⟩

end Connective

namespace Formula

theorem code_var (name : String) :
    (var name).code.toList = "Variable(".toList ++ ((quoted name).toList ++ ")".toList) := by
  rw [code, String.toList_append, String.toList_append, List.append_assoc]

/-- All nodes are written alike: their subformulas in order between two brackets. -/
theorem code_node {c : Connective} {f : Formula} (root : f.connective? = some c) :
    f.code.toList =
      c.opening ++ (", ".toList.intercalate (f.subs.map fun g => g.code.toList) ++ c.closing) := by
  have one (x : List Char) : ", ".toList.intercalate [x] = x := by
    rw [intercalate_cons, List.flatMap_nil, List.append_nil]
  have two (x y : List Char) : ", ".toList.intercalate [x, y] = x ++ (", ".toList ++ y) := by
    rw [intercalate_cons, List.flatMap_singleton]
  cases f <;> cases root <;>
    simp only [code, codeAll_eq_map, Connective.opening, Connective.closing, subs, one, two,
      List.map_cons, List.map_nil, List.map_map, String.toList_append, String.toList_intercalate,
      List.append_assoc, Function.comp_def]

/-- The first two letters of what is written for a formula. -/
def heading (f : Formula) : List Char :=
  match f.connective? with
  | none => ['V', 'a']
  | some c => c.heading

theorem take_code (f : Formula) (rest : List Char) : (f.code.toList ++ rest).take 2 = f.heading := by
  cases root : f.connective? with
  | none =>
    obtain ⟨name, rfl⟩ := (connective?_eq_none_iff f).mp root
    rw [code_var]
    rfl
  | some c => rw [code_node root, List.append_assoc, c.take_opening, heading, root]

theorem connective?_of_heading {f g : Formula} (same : f.heading = g.heading) :
    f.connective? = g.connective? := by
  rw [heading, heading] at same
  generalize f.connective? = root at same ⊢
  generalize g.connective? = root' at same ⊢
  rcases root with _ | c <;> rcases root' with _ | d
  · rfl
  · cases d <;> simp [Connective.heading] at same
  · cases c <;> simp [Connective.heading] at same
  · cases c <;> cases d <;> simp [Connective.heading] at same ⊢

theorem heading_ne (f : Formula) {letters : List Char}
    (other : letters ∈ [['L', 'i'], ['C', 'l'], ['C', 'n']]) : f.heading ≠ letters := by
  rw [heading]
  generalize f.connective? = root
  rintro rfl
  rcases root with _ | c
  · simp at other
  · cases c <;> simp [Connective.heading] at other

theorem code_ne_bracket (f : Formula) {bracket : Char} (closes : bracket = ')' ∨ bracket = ']')
    (rest rest' : List Char) : f.code.toList ++ rest ≠ bracket :: rest' := by
  have begins := f.take_code rest
  rw [heading] at begins
  split at begins
  · exact ne_of_take begins (by rcases closes with rfl | rfl <;> decide) rest'
  · rename_i c _
    cases c <;> exact ne_of_take begins (by rcases closes with rfl | rfl <;> decide) rest'

theorem code_delimits (f : Formula) : Delimits (fun f : Formula => f.code.toList) f := by
  induction f using node_induction with
  | var name =>
    intro g rest rest' same
    have roots : (var name).connective? = g.connective? :=
      connective?_of_heading (by rw [← (var name).take_code rest, same, g.take_code])
    obtain ⟨other, rfl⟩ := (connective?_eq_none_iff g).mp roots.symm
    simp only [code_var, List.append_assoc, List.append_cancel_left_eq] at same
    obtain ⟨rfl, last⟩ := quoted_delimits name other _ _ same
    rw [List.append_cancel_left_eq] at last
    exact ⟨rfl, last⟩
  | node c f root ih =>
    intro g rest rest' same
    have roots : f.connective? = g.connective? :=
      connective?_of_heading (by rw [← f.take_code rest, same, g.take_code])
    have root' : g.connective? = some c := roots ▸ root
    obtain ⟨bracket, cs, closing, closes⟩ := c.closing_eq
    simp only [code_node root, code_node root', closing, List.append_assoc, List.cons_append,
      List.append_cancel_left_eq] at same
    have marked : ',' ≠ bracket := by rcases closes with rfl | rfl <;> decide
    obtain ⟨subs, last⟩ := intercalate_delimits marked (code_ne_bracket · closes) ih same
    have built := (node?_eq_some_iff c f.subs f).mpr ⟨root, rfl⟩
    have built' := (node?_eq_some_iff c g.subs g).mpr ⟨root', rfl⟩
    rw [subs, built'] at built
    exact ⟨(Option.some.inj built).symm, List.append_cancel_left last⟩

end Formula

namespace Literal

/-- What is written after the name of a literal. -/
def closing (negated : Bool) : List Char :=
  if negated then ", negated=True)".toList else ")".toList

theorem closing_inj {m n : Bool} {rest rest' : List Char} (same : closing m ++ rest = closing n ++ rest') :
    m = n ∧ rest = rest' := by
  cases m <;> cases n
  · exact ⟨rfl, List.append_cancel_left same⟩
  · cases List.head_eq_of_cons_eq same
  · cases List.head_eq_of_cons_eq same
  · exact ⟨rfl, List.append_cancel_left same⟩

theorem code_eq (l : Literal) :
    l.code.toList = "Literal(".toList ++ ((quoted l.name).toList ++ closing l.negated) := by
  rw [code, String.toList_append, String.toList_append, List.append_assoc, closing]
  cases l.negated <;> rfl

theorem take_code (l : Literal) (rest : List Char) : (l.code.toList ++ rest).take 2 = ['L', 'i'] := by
  rw [code_eq]
  rfl

theorem code_delimits (l : Literal) : Delimits (fun l : Literal => l.code.toList) l := by
  intro m rest rest' same
  simp only [code_eq, List.append_assoc, List.append_cancel_left_eq] at same
  obtain ⟨names, after⟩ := quoted_delimits l.name m.name _ _ same
  obtain ⟨signs, last⟩ := closing_inj after
  cases l
  cases m
  cases names
  cases signs
  exact ⟨rfl, last⟩

end Literal

namespace Clause

theorem code_eq (c : Clause) :
    c.code.toList = "Clause([".toList ++
      (", ".toList.intercalate (c.literals.map fun l => l.code.toList) ++ "])".toList) := by
  rw [code, String.toList_append, String.toList_append, String.toList_intercalate, List.map_map,
    List.append_assoc]
  rfl

theorem take_code (c : Clause) (rest : List Char) : (c.code.toList ++ rest).take 2 = ['C', 'l'] := by
  rw [code_eq]
  rfl

theorem code_delimits (c : Clause) : Delimits (fun c : Clause => c.code.toList) c := by
  intro d rest rest' same
  simp only [code_eq, List.append_assoc, List.append_cancel_left_eq] at same
  have apart (l : Literal) (rest rest' : List Char) : l.code.toList ++ rest ≠ ']' :: rest' :=
    ne_of_take (l.take_code rest) (by decide) rest'
  have marked : ',' ≠ ']' := by decide
  obtain ⟨literals, last⟩ := intercalate_delimits marked apart (fun l _ => l.code_delimits) same
  exact ⟨congrArg Clause.mk literals, List.tail_eq_of_cons_eq last⟩

end Clause

namespace Theory

theorem code_eq (t : Theory) :
    t.code.toList = "Cnf([".toList ++
      (", ".toList.intercalate (t.clauses.map fun c => c.code.toList) ++ "])".toList) := by
  rw [code, String.toList_append, String.toList_append, String.toList_intercalate, List.map_map,
    List.append_assoc]
  rfl

theorem take_code (t : Theory) (rest : List Char) : (t.code.toList ++ rest).take 2 = ['C', 'n'] := by
  rw [code_eq]
  rfl

theorem code_delimits (t : Theory) : Delimits (fun t : Theory => t.code.toList) t := by
  intro u rest rest' same
  simp only [code_eq, List.append_assoc, List.append_cancel_left_eq] at same
  have apart (c : Clause) (rest rest' : List Char) : c.code.toList ++ rest ≠ ']' :: rest' :=
    ne_of_take (c.take_code rest) (by decide) rest'
  have marked : ',' ≠ ']' := by decide
  obtain ⟨clauses, last⟩ := intercalate_delimits marked apart (fun c _ => c.code_delimits) same
  exact ⟨congrArg Theory.mk clauses, List.tail_eq_of_cons_eq last⟩

end Theory

namespace Value

/-- A formula, a literal, a clause or a theory. -/
def Logical : Value → Prop
  | formula _ | literal _ | clause _ | theory _ => True
  | list _ | datum _ => False

/-- Values of the same kind with the same structure, each as it is in a memory of its own. -/
inductive Alike (memory other : Memory) : Value → Value → Prop
  | formula {f g : Formula} : (f == g) = true → Alike memory other (.formula f) (.formula g)
  | literal {l m : Literal} : (l == m) = true → Alike memory other (.literal l) (.literal m)
  | clause {c d : ClauseId} :
      (memory.store.clause c).literals = (other.store.clause d).literals →
      Alike memory other (.clause c) (.clause d)
  | theory {t u : TheoryId} :
      List.Forall₂ (fun c d => c.literals = d.literals)
        (memory.store.theory t).clauses (other.store.theory u).clauses →
      Alike memory other (.theory t) (.theory u)

/-- The first two letters of what is written for a value that is not data. -/
def heading : Value → List Char
  | formula f => f.heading
  | literal _ => ['L', 'i']
  | clause _ => ['C', 'l']
  | theory _ => ['C', 'n']
  | list _ | datum _ => []

@[simp]
theorem code_formula (memory : Memory) (f : Formula) : (formula f).code memory = f.code := by
  rw [code, codeWithin]

@[simp]
theorem code_literal (memory : Memory) (l : Literal) : (literal l).code memory = l.code := by
  rw [code, codeWithin]

@[simp]
theorem code_clause (memory : Memory) (c : ClauseId) :
    (clause c).code memory = (memory.store.clause c).code := by
  rw [code, codeWithin]

@[simp]
theorem code_theory (memory : Memory) (t : TheoryId) :
    (theory t).code memory = (memory.store.theory t).code := by
  rw [code, codeWithin]

theorem take_code {v : Value} (logical : v.Logical) (memory : Memory) :
    (v.code memory).toList.take 2 = v.heading := by
  rw [← List.append_nil (v.code memory).toList]
  cases v with
  | formula f => exact code_formula memory f ▸ f.take_code []
  | literal l => exact code_literal memory l ▸ l.take_code []
  | clause c => exact code_clause memory c ▸ (memory.store.clause c).take_code []
  | theory t => exact code_theory memory t ▸ (memory.store.theory t).take_code []
  | list _ | datum _ => exact absurd logical id

/-- Values of one kind. -/
def Akin : Value → Value → Prop
  | formula _, formula _ | literal _, literal _ | clause _, clause _ | theory _, theory _ => True
  | _, _ => False

theorem akin_of_heading {v w : Value} (first : v.Logical) (second : w.Logical)
    (same : v.heading = w.heading) : Akin v w := by
  match v, w, first, second with
  | formula _, formula _, _, _ | literal _, literal _, _, _ => trivial
  | clause _, clause _, _, _ | theory _, theory _, _, _ => trivial
  | formula f, literal _, _, _ | formula f, clause _, _, _ | formula f, theory _, _, _ =>
    exact absurd same (f.heading_ne (by simp [heading]))
  | literal _, formula g, _, _ | clause _, formula g, _, _ | theory _, formula g, _, _ =>
    exact absurd same.symm (g.heading_ne (by simp [heading]))
  | literal _, clause _, _, _ | literal _, theory _, _, _ => simp [heading] at same
  | clause _, literal _, _, _ | clause _, theory _, _, _ => simp [heading] at same
  | theory _, literal _, _, _ | theory _, clause _, _, _ => simp [heading] at same

theorem alike_of_code {v w : Value} (first : v.Logical) (second : w.Logical) {memory other : Memory}
    (same : v.code memory = w.code other) : Alike memory other v w := by
  have headings : v.heading = w.heading := by
    rw [← take_code first memory, same, take_code second other]
  match v, w, akin_of_heading first second headings with
  | formula f, formula g, _ =>
    rw [code_formula, code_formula] at same
    exact .formula (beq_iff_eq.mpr (f.code_delimits.inj (congrArg String.toList same)))
  | literal l, literal m, _ =>
    rw [code_literal, code_literal] at same
    exact .literal (beq_iff_eq.mpr (l.code_delimits.inj (congrArg String.toList same)))
  | clause c, clause d, _ =>
    rw [code_clause, code_clause] at same
    have clauses := (memory.store.clause c).code_delimits.inj (congrArg String.toList same)
    exact .clause (congrArg Clause.literals clauses)
  | theory t, theory u, _ =>
    rw [code_theory, code_theory] at same
    have theories := (memory.store.theory t).code_delimits.inj (congrArg String.toList same)
    exact .theory (theories ▸ List.forall₂_same.mpr fun _ _ => rfl)

theorem code_of_alike {v w : Value} {memory other : Memory} (alike : Alike memory other v w) :
    v.code memory = w.code other := by
  cases alike with
  | formula equal => rw [code_formula, code_formula, beq_iff_eq.mp equal]
  | literal equal => rw [code_literal, code_literal, beq_iff_eq.mp equal]
  | @clause c d literals =>
    have clauses : memory.store.clause c = other.store.clause d := congrArg Clause.mk literals
    rw [code_clause, code_clause, clauses]
  | @theory t u each =>
    have each' := each.imp fun c d literals => (congrArg Clause.mk literals : c = d)
    rw [List.forall₂_eq_eq_eq] at each'
    have theories : memory.store.theory t = other.store.theory u := congrArg Theory.mk each'
    rw [code_theory, code_theory, theories]

/-- Values are written the same exactly if they are of the same kind and have the same structure. -/
theorem code_eq_iff_alike {v w : Value} (first : v.Logical) (second : w.Logical) (memory other : Memory) :
    v.code memory = w.code other ↔ Alike memory other v w :=
  ⟨alike_of_code first second, code_of_alike⟩

/-- Two clauses that count as equal are written in the order of their literals, so they are told apart. The
names hold quotes, a backslash, a line break and what looks like the end of a literal. -/
theorem code_eq_iff_alike_of_quotes :
    let l : Literal := .pos "it's \x27"
    let m : Literal := .neg "'), Literal(\x22\n\\"
    let memory : Memory := { store := ⟨#[⟨[l, m]⟩, ⟨[m, l]⟩], #[[⟨0⟩]]⟩ }
    let other : Memory := { store := ⟨#[⟨[m, l]⟩, ⟨[l, m]⟩], #[[⟨1⟩]]⟩ }
    (Value.theory ⟨0⟩).code memory = (Value.theory ⟨0⟩).code other ∧
      (memory.store.clause ⟨0⟩).same (memory.store.clause ⟨1⟩) = true ∧
      (Value.clause ⟨0⟩).code memory ≠ (Value.clause ⟨1⟩).code memory := by
  intro l m memory other
  have theory : (Value.theory ⟨0⟩).Logical := trivial
  have clause (c : ClauseId) : (Value.clause c).Logical := trivial
  refine ⟨(code_eq_iff_alike theory theory memory other).mpr (.theory (.cons rfl .nil)), by decide, ?_⟩
  intro same
  have alike := (code_eq_iff_alike (clause ⟨0⟩) (clause ⟨1⟩) memory memory).mp same
  cases alike with
  | clause literals => exact absurd literals (by decide)

end Value

end Clausal
