import Clausal.Formula.Render
import Clausal.Formula.Subformulas
import Clausal.Model

namespace Clausal

/-- A formula described in full. -/
structure Description where
  text : String
  code : String
  names : List String
  subs : List String
  size : Nat
  height : Nat
  subformulas : List String

/-- What a request answers. -/
inductive Output where
  | datum (d : Datum)
  | description (d : Description)
  | verdicts (results : List (Except Fault Bool))
  | table (names : List String) (bits : List Bool)
  | models (models : List Model)
  | conversion (clauses names log : List String)

namespace Description

/-- The description of a formula. -/
def of (f : Formula) : Description where
  text := f.text
  code := f.code
  names := f.names
  subs := f.subs.map Formula.code
  size := f.size
  height := f.height
  subformulas := f.subformulas.map Formula.text

end Description

namespace Output

/-- A text as an answer. -/
def text (s : String) : Output := datum (.text s)

/-- A list of texts as an answer. -/
def texts (ss : List String) : Output := datum (.list (ss.map .text))

/-- A number as an answer. -/
def number (n : Nat) : Output := datum (.int n)

/-- A truth value as an answer. -/
def flag (b : Bool) : Output := datum (.bool b)

end Output

end Clausal
