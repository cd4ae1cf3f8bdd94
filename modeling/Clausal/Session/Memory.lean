import Clausal.Formula.Evaluate
import Clausal.Formula.Render
import Clausal.Formula.Subformulas
import Clausal.Session.Value

namespace Clausal

/-- All that changes while a session runs: clauses and theories, and lists of values of any kind. A
list may hold itself, at any depth. -/
structure Memory where
  store : Store := {}
  lists : Array (List Value) := #[]

namespace Memory

/-- The values in a list, in order. -/
def listed (memory : Memory) (l : ListId) : List Value :=
  memory.lists[l.index]?.getD []

/-- Puts a list of values into an unused place. -/
def newList (memory : Memory) (vs : List Value) : ListId × Memory :=
  (⟨memory.lists.size⟩, { memory with lists := memory.lists.push vs })

/-- Replaces the values in a list. -/
def setList (memory : Memory) (l : ListId) (vs : List Value) : Memory :=
  { memory with lists := memory.lists.setIfInBounds l.index vs }

/-- Adds a value at the end of a list. -/
def addItem (memory : Memory) (l : ListId) (v : Value) : Memory :=
  memory.setList l (memory.listed l ++ [v])

mutual

/-- Makes a value of data. Every list gets a place of its own, apart from those in a record, which
never change. -/
def add : Datum → Memory → Value × Memory
  | .list ds, memory =>
    let (vs, memory) := addAll ds memory
    let (l, memory) := memory.newList vs
    (.list l, memory)
  | d, memory => (.datum d, memory)

/-- Makes values of data, in order. -/
def addAll : List Datum → Memory → List Value × Memory
  | [], memory => ([], memory)
  | d :: ds, memory =>
    let (v, memory) := add d memory
    let (vs, memory) := addAll ds memory
    (v :: vs, memory)

end

end Memory

namespace Value

/-- The expression that builds a value as it is now, as it is written inside some lists. A list
inside itself is only hinted at. No more lists than `depth` are opened one inside the other. -/
def codeWithin (memory : Memory) (depth : Nat) (outer : List ListId) (v : Value) : String :=
  match v with
  | formula f => f.code
  | literal l => l.code
  | clause c => (memory.store.clause c).code
  | theory t => (memory.store.theory t).code
  | datum d => d.code
  | list l =>
    match depth with
    | 0 => "[...]"
    | depth + 1 =>
      if l ∈ outer then "[...]"
      else
        let parts := (memory.listed l).map fun v => codeWithin memory depth (l :: outer) v
        "[" ++ ", ".intercalate parts ++ "]"

/-- The expression that builds a value as it is now. When as many lists are open as there are, every
list is inside itself. -/
def code (memory : Memory) (v : Value) : String :=
  codeWithin memory memory.lists.size [] v

/-- The usual notation for a value as it is now. -/
def text (memory : Memory) : Value → String
  | formula f => f.text
  | literal l => l.text
  | clause c => (memory.store.clause c).text
  | theory t => (memory.store.theory t).text
  | datum (.text s) => s
  | v => v.code memory

/-- The values that one is made of, in order: the children of a node, the literals of a clause, the
clauses of a theory, the values in a list, the characters of a text, the names in a record. -/
def items (memory : Memory) : Value → Except Fault (List Value)
  | formula (.var _) => .error .unsupported
  | formula f => .ok (f.subs.map formula)
  | clause c => .ok ((memory.store.clause c).literals.map literal)
  | theory t => .ok ((memory.store.held t).map clause)
  | list l => .ok (memory.listed l)
  | datum (.text s) => .ok (s.toList.map fun c => datum (.text (String.singleton c)))
  | datum (.record fields) => .ok (fields.map fun field => datum (.text field.1))
  | _ => .error .unsupported

/-- Equality of values, where no more pairs of lists than `depth` are looked into one inside the
other. -/
def sameWithin (memory : Memory) (depth : Nat) (v w : Value) : Bool :=
  match v, w with
  | formula f, formula g => f == g
  | literal l, literal m => l == m
  | clause c, clause d => (memory.store.clause c).same (memory.store.clause d)
  | theory t, theory u => (memory.store.theory t).same (memory.store.theory u)
  | datum d, datum e => d.same e
  | list l, list m =>
    l == m ||
      match depth with
      | 0 => false
      | depth + 1 =>
        let vs := memory.listed l
        let ws := memory.listed m
        vs.length == ws.length && (vs.zip ws).all fun pair => sameWithin memory depth pair.1 pair.2
  | _, _ => false

/-- Equality of values as they are now. Values of different kinds differ. A list equals itself, and
two lists are compared item by item. A comparison that comes back to the pair of lists it set out
from has no end and finds no equality; any other meets each pair at most once on its way down. -/
def same (memory : Memory) (v w : Value) : Bool :=
  sameWithin memory (memory.lists.size * memory.lists.size) v w

/-- Whether a value is found in another. A text holds every text that stands in it, a record holds
its names, which only values that never change can be, and every other whole holds the values that
it is made of. -/
def contains (memory : Memory) (whole part : Value) : Except Fault Bool :=
  match whole with
  | datum (.text s) =>
    match part with
    | datum (.text t) => .ok (s.contains t)
    | _ => .error .unsupported
  | datum (.record fields) =>
    if part.isKey then .ok (fields.any fun field => part.same memory (datum (.text field.1)))
    else .error .unsupported
  | whole => do
    let items ← whole.items memory
    return items.any (part.same memory)

/-- Whether a value counts as true. Of the values that are not data only the empty list does not. -/
def truthy (memory : Memory) : Value → Bool
  | list l => !(memory.listed l).isEmpty
  | datum d => d.truthy
  | _ => true

/-- The truth value of a formula, a literal, a clause or a theory in a model. Other values have
none. -/
def evaluate (memory : Memory) (v : Value) (model : Model) : Except Fault Bool :=
  match v with
  | formula f => f.evaluateShared model
  | literal l => l.evaluate model
  | clause c => (memory.store.clause c).evaluate model
  | theory t => (memory.store.theory t).evaluate model
  | _ => .error .missingPart

/-- The names in a formula, a clause or a theory. -/
def names (memory : Memory) : Value → Except Fault (List String)
  | formula f => .ok f.names
  | clause c => .ok (memory.store.clause c).names
  | theory t => .ok (memory.store.theory t).names
  | _ => .error .missingPart

end Value

end Clausal
