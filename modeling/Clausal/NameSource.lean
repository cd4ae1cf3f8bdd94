import Clausal.Text.Quoted

namespace Clausal

/-- A source of names. They are numbered from one and start with a stem, which is the source's own
or else the one in force where the name is drawn. -/
structure NameSource where
  fixed : Option String := none
  count : Nat := 0
deriving DecidableEq, Repr

namespace NameSource

/-- The stem of the names that the source issues while the given one is in force. -/
def stem (source : NameSource) (ambient : String) : String :=
  source.fixed.getD ambient

/-- The next name, and the source after it was drawn. -/
def draw (source : NameSource) (ambient : String) : String × NameSource :=
  (source.stem ambient ++ toString (source.count + 1), { source with count := source.count + 1 })

/-- The source set back to its first name. -/
def restart (source : NameSource) : NameSource :=
  { source with count := 0 }

/-- A decimal numeral without leading noughts, of a number from one on. -/
def isNumeral : List Char → Bool
  | [] => false
  | c :: cs => c != '0' && (c :: cs).all fun d => '0' ≤ d && d ≤ '9'

/-- What is left of a text after its beginning. -/
def rest? : List Char → List Char → Option (List Char)
  | [], cs => some cs
  | _ :: _, [] => none
  | d :: ds, c :: cs => if c = d then rest? ds cs else none

/-- Whether a name is one that the source may issue under the given stem. -/
def recognises (source : NameSource) (ambient name : String) : Bool :=
  match rest? (source.stem ambient).toList name.toList with
  | some cs => isNumeral cs
  | none => false

/-- The expression that shows a source, with the stem in force. -/
def code (source : NameSource) (ambient : String) : String :=
  "NameGenerator(" ++ Text.quoted (source.stem ambient) ++ ", issued=" ++
    toString source.count ++ ")"

/-- Draws a number of names, one after the other. -/
def drawMany (ambient : String) : Nat → NameSource → List String × NameSource
  | 0, source => ([], source)
  | count + 1, source =>
    let (name, source) := source.draw ambient
    let (names, source) := drawMany ambient count source
    (name :: names, source)

end NameSource

end Clausal
