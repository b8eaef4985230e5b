import SimplyTyped.Text.Blank

/-!
# SimplyTyped.Text.WholeNumber — whole numbers in decimal digits of any script

A whole number is written with an optional sign and decimal digits, which single underscores may part; blanks may stand
around it.  The digits of a script are ten code points in a row, so a script is told by its zero.
-/

namespace SimplyTyped.Text

/-- The zeros of the scripts of Unicode 14 beyond ASCII. -/
def scriptZeros : List Nat :=
  [0x660, 0x6F0, 0x7C0, 0x966, 0x9E6, 0xA66, 0xAE6, 0xB66, 0xBE6, 0xC66, 0xCE6, 0xD66, 0xDE6, 0xE50, 0xED0,
    0xF20, 0x1040, 0x1090, 0x17E0, 0x1810, 0x1946, 0x19D0, 0x1A80, 0x1A90, 0x1B50, 0x1BB0, 0x1C40, 0x1C50,
    0xA620, 0xA8D0, 0xA900, 0xA9D0, 0xA9F0, 0xAA50, 0xABF0, 0xFF10, 0x104A0, 0x10D30, 0x11066, 0x110F0,
    0x11136, 0x111D0, 0x112F0, 0x11450, 0x114D0, 0x11650, 0x116C0, 0x11730, 0x118E0, 0x11950, 0x11C50,
    0x11D50, 0x11DA0, 0x16A60, 0x16AC0, 0x16B50, 0x1D7CE, 0x1D7D8, 0x1D7E2, 0x1D7EC, 0x1D7F6, 0x1E140,
    0x1E2F0, 0x1E950, 0x1FBF0]

/-- The value of a decimal digit of any script. -/
def digitValue? (c : Char) : Option Nat :=
  let n := c.toNat
  if 48 ≤ n ∧ n ≤ 57 then some (n - 48)
  else (scriptZeros.find? fun z => z ≤ n && n < z + 10).map fun z => n - z

/-- The blanks that may stand around a number: the information separators are none. -/
def isNumberBlank (c : Char) : Bool := isBlank c && !(0x1C ≤ c.toNat && c.toNat ≤ 0x1F)

/-- The value of digits that go on after `value`; an underscore stands between two digits. -/
def digitsFrom? (value : Nat) : List Char → Option Nat
  | [] => some value
  | '_' :: c :: rest =>
    match digitValue? c with
    | some d => digitsFrom? (10 * value + d) rest
    | none => none
  | c :: rest =>
    match digitValue? c with
    | some d => digitsFrom? (10 * value + d) rest
    | none => none

/-- The value of at least one digit. -/
def unsigned? : List Char → Option Nat
  | [] => none
  | c :: rest =>
    match digitValue? c with
    | some d => digitsFrom? d rest
    | none => none

/-- The whole number that a text writes. -/
def wholeNumber? (text : String) : Option Int :=
  let text := ((text.toList.dropWhile isNumberBlank).reverse.dropWhile isNumberBlank).reverse
  match text with
  | '-' :: rest => (unsigned? rest).map fun n => -(n : Int)
  | '+' :: rest => (unsigned? rest).map fun n => (n : Int)
  | rest => (unsigned? rest).map fun n => (n : Int)

/-- Whether a text is a minus sign with digits, which a point may part; a line feed may follow. -/
def looksNegative (text : String) : Bool :=
  match text.toList with
  | '-' :: rest =>
    let rest := if rest.getLast? = some '\n' then rest.dropLast else rest
    let isDigit (c : Char) : Bool := (digitValue? c).isSome
    match rest.dropWhile isDigit with
    | [] => !rest.isEmpty
    | '.' :: fraction => !fraction.isEmpty && fraction.all isDigit
    | _ => false
  | _ => false

end SimplyTyped.Text
