import Clausal.Text.Printable

namespace Clausal.Text

/-- The usual quote. -/
def apostrophe : Char := '\x27'

/-- The quote for text that holds the usual one. -/
def quotationMark : Char := '\x22'

/-- The first character of every escape. -/
def backslash : Char := '\x5c'

/-- Text stands between apostrophes, unless it holds one and no quotation mark. -/
def quoteFor (cs : List Char) : Char :=
  if apostrophe ∈ cs ∧ quotationMark ∉ cs then quotationMark else apostrophe

/-- The lower-case hexadecimal digits of a number, the given count of them, most significant
first. -/
def hexDigits : Nat → Nat → List Char
  | 0, _ => []
  | width + 1, n => hexDigits width (n / 16) ++ [Nat.digitChar (n % 16)]

/-- The escape of a character that is named by its number: two, four or eight digits, as few of
these as hold it. -/
def escapeCode (n : Nat) : List Char :=
  if n < 0x100 then backslash :: 'x' :: hexDigits 2 n
  else if n < 0x10000 then backslash :: 'u' :: hexDigits 4 n
  else backslash :: 'U' :: hexDigits 8 n

/-- One character as it stands between the given quotes. -/
def escape (quote c : Char) : List Char :=
  if c = backslash ∨ c = quote then [backslash, c]
  else if c = '\n' then [backslash, 'n']
  else if c = '\r' then [backslash, 'r']
  else if c = '\t' then [backslash, 't']
  else if isPrintable c then [c]
  else escapeCode c.toNat

/-- Text in quotes, with an escape for the quote, the backslash and whatever cannot be printed. -/
def quoteChars (cs : List Char) : List Char :=
  let quote := quoteFor cs
  quote :: cs.flatMap (escape quote) ++ [quote]

/-- A string as a quoted literal. -/
def quoted (s : String) : String :=
  String.ofList (quoteChars s.toList)

@[simp]
theorem toList_quoted (s : String) : (quoted s).toList = quoteChars s.toList := by
  simp [quoted]

end Clausal.Text
