import Clausal.Table
import Clausal.Text.Quoted

namespace Clausal

/-- Data that are neither formulas nor clauses: what a caller may hand in where a formula, a
literal, a name or the value of a setting is expected. -/
inductive Datum where
  | null
  | bool (b : Bool)
  | int (n : Int)
  | decimal (mantissa : Int) (places : Nat)
  | text (s : String)
  | list (items : List Datum)
  | record (fields : List (String × Datum))
deriving Inhabited

namespace Datum

/-- The digits of a decimal number from the first to the last that is not nought, and how many of them
stand before the point. A negative count is that of the noughts between the point and the first digit. -/
def significant (mantissa places : Nat) : List Char × Int :=
  if mantissa = 0 then (['0'], 1)
  else
    let digits := (toString mantissa).toList
    ((digits.reverse.dropWhile (· = '0')).reverse, (digits.length : Int) - places)

/-- Digits with a point among them, and at least one on either side of it. -/
def positional (digits : List Char) (before : Int) : List Char :=
  let whole := (digits.take before.toNat).rightpad before.toNat '0'
  let fraction := List.replicate (-before).toNat '0' ++ digits.drop before.toNat
  whole.leftpad 1 '0' ++ '.' :: fraction.leftpad 1 '0'

/-- Digits with the point behind the first of them, and the power of ten that brings it to its place,
with its sign and at least two digits. -/
def scientific (digits : List Char) (before : Int) : List Char :=
  let power := before - 1
  let fraction := digits.drop 1
  digits.take 1 ++ (if fraction.isEmpty then [] else '.' :: fraction) ++
    'e' :: (if power < 0 then '-' else '+') :: (toString power.natAbs).toList.leftpad 2 '0'

/-- A decimal number, in which the given count of digits stands after the point. It is written in
place from a ten-thousandth up to sixteen digits before the point, and else with a power of ten. -/
def decimalText (mantissa : Int) (places : Nat) : String :=
  let (digits, before) := significant mantissa.natAbs places
  (if mantissa < 0 then "-" else "") ++ String.ofList
    (if -4 < before ∧ before ≤ 16 then positional digits before else scientific digits before)

mutual

/-- The literal that denotes a datum. -/
def code : Datum → String
  | null => "None"
  | bool b => if b then "True" else "False"
  | int n => toString n
  | decimal mantissa places => decimalText mantissa places
  | text s => Text.quoted s
  | list items => "[" ++ ", ".intercalate (codeAll items) ++ "]"
  | record fields => "\x7b" ++ ", ".intercalate (codeFields fields) ++ "\x7d"

def codeAll : List Datum → List String
  | [] => []
  | d :: ds => d.code :: codeAll ds

def codeFields : List (String × Datum) → List String
  | [] => []
  | (name, d) :: fields => (Text.quoted name ++ ": " ++ d.code) :: codeFields fields

end

/-- The number that a datum stands for, as a fraction with a power of ten below; the truth values
count as one and nought. -/
def number? : Datum → Option (Int × Nat)
  | bool b => some (if b then 1 else 0, 0)
  | int n => some (n, 0)
  | decimal mantissa places => some (mantissa, places)
  | _ => none

/-- Whether two data are the same number, of whatever form. -/
def sameNumber (d e : Datum) : Bool :=
  match d.number?, e.number? with
  | some (m, i), some (n, j) => m * Int.pow 10 j == n * Int.pow 10 i
  | _, _ => false

mutual

/-- Equality of data: numbers by value, text by its characters, lists item by item, records by what
they say under each name. -/
def same : Datum → Datum → Bool
  | null, null => true
  | text s, text t => s == t
  | list items, list others => sameAll items others
  | record fields, record others => fields.length == others.length && sameFields fields others
  | d, e => sameNumber d e

def sameAll : List Datum → List Datum → Bool
  | [], [] => true
  | d :: ds, e :: es => same d e && sameAll ds es
  | _, _ => false

def sameFields : List (String × Datum) → List (String × Datum) → Bool
  | [], _ => true
  | (name, d) :: fields, others =>
    match others.find? fun other => other.1 == name with
    | some (_, e) => same d e && sameFields fields others
    | none => false

end

/-- Whether a datum counts as true: nothing, noughts and empty things do not. -/
def truthy : Datum → Bool
  | null => false
  | bool b => b
  | int n => n != 0
  | decimal mantissa _ => mantissa != 0
  | text s => s != ""
  | list items => !items.isEmpty
  | record fields => !fields.isEmpty

/-- Whether a datum can be looked up in a set; lists and records cannot. -/
def isKey : Datum → Bool
  | list _ => false
  | record _ => false
  | _ => true

/-- The whole number that a datum stands for. -/
def whole? : Datum → Option Int
  | bool b => some (if b then 1 else 0)
  | int n => some n
  | _ => none

/-- The bits that two numbers have in common. A negative number has all bits but those of its
complement. -/
def commonBits : Int → Int → Int
  | .ofNat m, .ofNat n => .ofNat (m &&& n)
  | .ofNat m, .negSucc n => .ofNat (m ^^^ (m &&& n))
  | .negSucc m, .ofNat n => .ofNat (n ^^^ (m &&& n))
  | .negSucc m, .negSucc n => .negSucc (m ||| n)

/-- What two data have in common: truth values by conjunction, whole numbers bit by bit. -/
def meet? : Datum → Datum → Option Datum
  | bool a, bool b => some (bool (a && b))
  | d, e => do return int (commonBits (← d.whole?) (← e.whole?))

/-- Two data put together: truth values by disjunction, whole numbers bit by bit, and records with
the fields of both, where those of the second count. -/
def join? : Datum → Datum → Option Datum
  | bool a, bool b => some (bool (a || b))
  | record a, record b => some (record (Table.ofList (a ++ b)).entries)
  | d, e => do return int (~~~commonBits (~~~(← d.whole?)) (~~~(← e.whole?)))

end Datum

end Clausal
