import Clausal.Formula.Basic
import Clausal.Text.Quoted

namespace Clausal.Formula

mutual

/-- A formula in the usual signs: a negation sign in front, any other connective between its
subformulas, and parentheses around the whole. -/
def text : Formula → String
  | var name => name
  | neg sub => Connective.neg.sign ++ sub.text
  | conj subs => "(" ++ Connective.conj.sign.intercalate (textAll subs) ++ ")"
  | disj subs => "(" ++ Connective.disj.sign.intercalate (textAll subs) ++ ")"
  | imp left right => "(" ++ left.text ++ Connective.imp.sign ++ right.text ++ ")"
  | iff left right => "(" ++ left.text ++ Connective.iff.sign ++ right.text ++ ")"

def textAll : List Formula → List String
  | [] => []
  | f :: fs => f.text :: textAll fs

end

mutual

/-- The expression that builds a formula, with names as quoted literals. -/
def code : Formula → String
  | var name => "Variable(" ++ Text.quoted name ++ ")"
  | neg sub => Connective.neg.title ++ "(" ++ sub.code ++ ")"
  | conj subs => Connective.conj.title ++ "([" ++ ", ".intercalate (codeAll subs) ++ "])"
  | disj subs => Connective.disj.title ++ "([" ++ ", ".intercalate (codeAll subs) ++ "])"
  | imp left right => Connective.imp.title ++ "(" ++ left.code ++ ", " ++ right.code ++ ")"
  | iff left right => Connective.iff.title ++ "(" ++ left.code ++ ", " ++ right.code ++ ")"

def codeAll : List Formula → List String
  | [] => []
  | f :: fs => f.code :: codeAll fs

end

theorem codeAll_eq_map (fs : List Formula) : codeAll fs = fs.map code := by
  induction fs with
  | nil => rfl
  | cons f fs ih => simp [codeAll, ih]

/-- The noun for a formula of this kind. -/
def title (f : Formula) : String :=
  match f.connective? with
  | none => "Variable"
  | some c => c.title

end Clausal.Formula
