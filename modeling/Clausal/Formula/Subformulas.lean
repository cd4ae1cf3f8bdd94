import Clausal.Formula.Measure
import Clausal.Text.Names
import Std.Data.HashSet

namespace Clausal.Formula

/-- Puts those of the formulas that were not seen before on top of the stack, one after the other,
and counts them as seen. -/
def push (seen : Std.HashSet Formula) (stack : List Formula) :
    List Formula → Std.HashSet Formula × List Formula
  | [] => (seen, stack)
  | f :: fs =>
    if seen.contains f then push seen stack fs else push (seen.insert f) (f :: stack) fs

theorem occurrencesAll_push_le (seen : Std.HashSet Formula) (stack fs : List Formula) :
    occurrencesAll (push seen stack fs).2 ≤ occurrencesAll stack + occurrencesAll fs := by
  induction fs generalizing seen stack with
  | nil => simp [push, occurrencesAll]
  | cons f fs ih =>
    simp only [push]
    split
    · have rest := ih seen stack
      simp only [occurrencesAll]
      omega
    · have rest := ih (seen.insert f) (f :: stack)
      simp only [occurrencesAll] at rest ⊢
      omega

/-- Takes the formula on top of the stack, pushes its children that were not seen before, and goes
on until the stack is empty. -/
def subformulasFrom (seen : Std.HashSet Formula) : List Formula → List Formula
  | [] => []
  | f :: stack =>
    let next := push seen stack f.subs
    f :: subformulasFrom next.1 next.2
termination_by stack => occurrencesAll stack
decreasing_by
  have smaller := occurrencesAll_push_le seen stack f.subs
  simp only [occurrencesAll, occurrences_eq f]
  omega

/-- All distinct subformulas, the formula itself first, depth first with later children before
earlier ones. -/
def subformulas (f : Formula) : List Formula :=
  subformulasFrom {f} [f]

/-- The number of edges between distinct subformulas, each counted at its upper end. -/
def size (f : Formula) : Nat :=
  (f.subformulas.flatMap subs).length

/-- The name of a variable. -/
def name? : Formula → Option String
  | var name => some name
  | _ => none

/-- The names of the variables of a formula, in the order of their code points. -/
def names (f : Formula) : List String :=
  Text.sortedNames (f.subformulas.filterMap name?)

end Clausal.Formula
