import Clausal.Text.Quoted
import Mathlib.Algebra.Group.Nat.Defs

namespace Clausal.Text

/-- A value is written so that its form ends by itself: of a text that begins with it, what was written
and what follows can be told. -/
def Delimits {α : Type} (write : α → List Char) (a : α) : Prop :=
  ∀ b rest rest', write a ++ rest = write b ++ rest' → a = b ∧ rest = rest'

section

variable {α : Type} {write : α → List Char}

theorem Delimits.inj {a b : α} (delimits : Delimits write a) (same : write a = write b) : a = b :=
  (delimits b [] [] (congrArg (· ++ []) same)).1

/-- Forms one after the other are told apart up to a character that none of them begins with. -/
theorem flatMap_delimits {stop : Char} (apart : ∀ a rest rest', write a ++ rest ≠ stop :: rest')
    {as bs : List α} (each : ∀ a ∈ as, Delimits write a) {rest rest' : List Char}
    (same : as.flatMap write ++ stop :: rest = bs.flatMap write ++ stop :: rest') :
    as = bs ∧ rest = rest' := by
  induction as generalizing bs with
  | nil =>
    cases bs with
    | nil => exact ⟨rfl, List.tail_eq_of_cons_eq same⟩
    | cons b bs =>
      rw [List.flatMap_cons, List.append_assoc] at same
      exact absurd same.symm (apart b _ _)
  | cons a as ih =>
    cases bs with
    | nil =>
      rw [List.flatMap_cons, List.append_assoc] at same
      exact absurd same (apart a _ _)
    | cons b bs =>
      rw [List.flatMap_cons, List.flatMap_cons, List.append_assoc, List.append_assoc] at same
      obtain ⟨rfl, later⟩ := each a List.mem_cons_self b _ _ same
      obtain ⟨rfl, last⟩ := ih (fun c member => each c (.tail a member)) later
      exact ⟨rfl, last⟩

theorem intercalate_cons (separator first : List Char) (items : List (List Char)) :
    separator.intercalate (first :: items) = first ++ items.flatMap (separator ++ ·) := by
  induction items generalizing first with
  | nil => simp [List.intercalate]
  | cons second items ih =>
    rw [List.intercalate_cons_cons, ih, List.flatMap_cons, List.append_assoc, List.append_assoc]

/-- Forms with a separator between them are told apart up to a character with which neither the
separator nor one of them begins. -/
theorem intercalate_delimits {stop mark : Char} {separator : List Char} (other : mark ≠ stop)
    (apart : ∀ a rest rest', write a ++ rest ≠ stop :: rest') {as bs : List α}
    (each : ∀ a ∈ as, Delimits write a) {rest rest' : List Char}
    (same : (mark :: separator).intercalate (as.map write) ++ stop :: rest =
      (mark :: separator).intercalate (bs.map write) ++ stop :: rest') :
    as = bs ∧ rest = rest' := by
  let next (a : α) : List Char := mark :: separator ++ write a
  have nextApart : ∀ a rest rest', next a ++ rest ≠ stop :: rest' := fun a rest rest' same =>
    other (List.head_eq_of_cons_eq same)
  have nextDelimits : ∀ a, Delimits write a → Delimits next a := by
    intro a delimits b rest rest' same
    simp only [next, List.append_assoc, List.append_cancel_left_eq] at same
    exact delimits b rest rest' same
  have parts (c : α) (cs : List α) : (mark :: separator).intercalate ((c :: cs).map write) =
      write c ++ cs.flatMap next := by
    rw [List.map_cons, intercalate_cons, List.flatMap_map]
  cases as with
  | nil =>
    cases bs with
    | nil => exact ⟨rfl, List.tail_eq_of_cons_eq same⟩
    | cons b bs =>
      rw [parts, List.append_assoc] at same
      exact absurd same.symm (apart b _ _)
  | cons a as =>
    cases bs with
    | nil =>
      rw [parts, List.append_assoc] at same
      exact absurd same (apart a _ _)
    | cons b bs =>
      rw [parts, parts, List.append_assoc, List.append_assoc] at same
      obtain ⟨rfl, later⟩ := each a List.mem_cons_self b _ _ same
      have rest : ∀ c ∈ as, Delimits next c := fun c member => nextDelimits c (each c (.tail a member))
      obtain ⟨rfl, last⟩ := flatMap_delimits nextApart rest later
      exact ⟨rfl, last⟩

end

/-- The value of a hexadecimal digit in lower case. -/
def digitValue (c : Char) : Nat :=
  if c.isDigit then c.toNat - '0'.toNat else c.toNat - 'a'.toNat + 10

/-- The number written by hexadecimal digits. -/
def hexValue (cs : List Char) : Nat :=
  cs.foldl (fun n c => 16 * n + digitValue c) 0

theorem digitValue_digitChar (n : Nat) (small : n < 16) : digitValue (Nat.digitChar n) = n := by
  have all : ∀ k : Fin 16, digitValue (Nat.digitChar k) = k := by decide
  exact all ⟨n, small⟩

theorem length_hexDigits (width n : Nat) : (hexDigits width n).length = width := by
  induction width generalizing n with
  | zero => rfl
  | succ width ih => rw [hexDigits, List.length_append, ih, List.length_singleton]

theorem hexValue_hexDigits {width n : Nat} (fits : n < 16 ^ width) : hexValue (hexDigits width n) = n := by
  induction width generalizing n with
  | zero =>
    rw [Nat.pow_zero, Nat.lt_one_iff] at fits
    exact fits.symm
  | succ width ih =>
    have upper : n / 16 < 16 ^ width := Nat.div_lt_of_lt_mul (Nat.pow_succ' ▸ fits)
    have first := ih upper
    rw [hexValue] at first
    rw [hexDigits, hexValue, List.foldl_append, first, List.foldl_cons, List.foldl_nil,
      digitValue_digitChar _ (Nat.mod_lt n (by decide)), Nat.div_add_mod]

/-- Reads the character that the given count of hexadecimal digits stand for. -/
def readCode (width : Nat) (cs : List Char) : Option (Char × List Char) :=
  some (Char.ofNat (hexValue (cs.take width)), cs.drop width)

/-- Reads what follows the backslash of an escape. -/
def readEscaped : List Char → Option (Char × List Char)
  | [] => none
  | c :: cs =>
    if c = 'n' then some ('\n', cs)
    else if c = 'r' then some ('\r', cs)
    else if c = 't' then some ('\t', cs)
    else if c = 'x' then readCode 2 cs
    else if c = 'u' then readCode 4 cs
    else if c = 'U' then readCode 8 cs
    else some (c, cs)

/-- Reads one character of quoted text. -/
def readChar : List Char → Option (Char × List Char)
  | [] => none
  | c :: cs => if c = backslash then readEscaped cs else some (c, cs)

theorem readCode_hexDigits {width : Nat} {c : Char} (fits : c.toNat < 16 ^ width) (rest : List Char) :
    readCode width (hexDigits width c.toNat ++ rest) = some (c, rest) := by
  rw [readCode, List.take_left' (length_hexDigits width _), List.drop_left' (length_hexDigits width _),
    hexValue_hexDigits fits, Char.ofNat_toNat]

theorem readChar_escapeCode (c : Char) (rest : List Char) :
    readChar (escapeCode c.toNat ++ rest) = some (c, rest) := by
  rw [escapeCode]
  split
  · rename_i short
    exact readCode_hexDigits short rest
  · split
    · rename_i medium
      exact readCode_hexDigits medium rest
    · exact readCode_hexDigits c.val.toNat_lt rest

theorem quoteFor_eq (cs : List Char) : quoteFor cs = apostrophe ∨ quoteFor cs = quotationMark := by
  rw [quoteFor]
  split
  · exact .inr rfl
  · exact .inl rfl

/-- What stands for a character between quotes can be read back. -/
theorem readChar_escape {quote : Char} (mark : quote = apostrophe ∨ quote = quotationMark) (c : Char)
    (rest : List Char) : readChar (escape quote c ++ rest) = some (c, rest) := by
  rw [escape]
  split
  · rename_i special
    have known : c = backslash ∨ c = apostrophe ∨ c = quotationMark := by
      rcases special with same | same
      · exact .inl same
      · exact .inr (same ▸ mark)
    rcases known with rfl | rfl | rfl <;> rfl
  rename_i plain
  split
  · rename_i same
    exact same ▸ rfl
  split
  · rename_i same
    exact same ▸ rfl
  split
  · rename_i same
    exact same ▸ rfl
  split
  · exact if_neg fun same => plain (.inl same)
  · exact readChar_escapeCode c rest

theorem escape_delimits {quote : Char} (mark : quote = apostrophe ∨ quote = quotationMark) (c : Char) :
    Delimits (escape quote) c := by
  intro d rest rest' same
  have read := congrArg readChar same
  rw [readChar_escape mark, readChar_escape mark, Option.some.injEq, Prod.mk.injEq] at read
  exact read

theorem escape_cases (quote c : Char) :
    (∃ cs, escape quote c = backslash :: cs) ∨ escape quote c = [c] ∧ c ≠ quote := by
  rw [escape]
  split
  · exact .inl ⟨_, rfl⟩
  rename_i plain
  split
  · exact .inl ⟨_, rfl⟩
  split
  · exact .inl ⟨_, rfl⟩
  split
  · exact .inl ⟨_, rfl⟩
  split
  · exact .inr ⟨rfl, fun same => plain (.inr same)⟩
  · rw [escapeCode]
    split
    · exact .inl ⟨_, rfl⟩
    · split <;> exact .inl ⟨_, rfl⟩

/-- No character between the quotes begins with the quote. -/
theorem escape_ne_quote {quote : Char} (mark : quote = apostrophe ∨ quote = quotationMark) (c : Char)
    (rest rest' : List Char) : escape quote c ++ rest ≠ quote :: rest' := by
  have other : backslash ≠ quote := by rcases mark with rfl | rfl <;> decide
  intro same
  rcases escape_cases quote c with ⟨cs, escaped⟩ | ⟨own, apart⟩
  · rw [escaped] at same
    exact other (List.head_eq_of_cons_eq same)
  · rw [own] at same
    exact apart (List.head_eq_of_cons_eq same)

/-- Quoted text ends where its second quote stands that is not part of an escape. -/
theorem quoteChars_delimits (cs : List Char) : Delimits quoteChars cs := by
  intro ds rest rest' same
  simp only [quoteChars, List.cons_append, List.append_assoc, List.cons.injEq, List.nil_append] at same
  obtain ⟨quotes, inner⟩ := same
  rw [← quotes] at inner
  have mark := quoteFor_eq cs
  exact flatMap_delimits (escape_ne_quote mark) (fun c _ => escape_delimits mark c) inner

theorem quoted_delimits (s : String) : Delimits (fun s : String => (quoted s).toList) s := by
  intro t rest rest' same
  simp only [toList_quoted] at same
  obtain ⟨chars, same⟩ := quoteChars_delimits s.toList t.toList rest rest' same
  exact ⟨String.toList_inj.mp chars, same⟩

end Clausal.Text
