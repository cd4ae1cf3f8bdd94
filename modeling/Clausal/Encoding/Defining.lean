import Clausal.Connective
import Clausal.Theory

namespace Clausal

/-- Clauses that make a name equivalent to a connective applied to other names. -/
def Connective.defining (c : Connective) (name : String) (parts : List String) :
    Except Fault (List Clause) :=
  match c, parts with
  | .neg, [b] =>
    .ok [⟨[.neg name, .neg b]⟩, ⟨[.pos name, .pos b]⟩]
  | .conj, parts =>
    .ok (parts.map (fun b => ⟨[.neg name, .pos b]⟩) ++ [⟨.pos name :: parts.map .neg⟩])
  | .disj, parts =>
    .ok (parts.map (fun b => ⟨[.pos name, .neg b]⟩) ++ [⟨.neg name :: parts.map .pos⟩])
  | .imp, [l, r] =>
    .ok [⟨[.neg name, .neg l, .pos r]⟩, ⟨[.pos l, .pos name]⟩, ⟨[.neg r, .pos name]⟩]
  | .iff, [l, r] =>
    .ok [⟨[.neg name, .neg l, .pos r]⟩, ⟨[.neg name, .pos l, .neg r]⟩,
      ⟨[.pos name, .neg l, .neg r]⟩, ⟨[.pos name, .pos l, .pos r]⟩]
  | _, _ => .error .arity

end Clausal
