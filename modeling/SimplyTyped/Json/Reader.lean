import SimplyTyped.Json
import SimplyTyped.Text.Hex

/-!
# SimplyTyped.Json.Reader — JSON values from text, or the place of the first fault

A scanner takes characters off the front and returns a value with the characters that are left, so a place in the text
is told by how many characters are left there.  Besides the standard's grammar, `NaN` and the two infinities are read,
and of two fields with one key the later value counts, in the place of the earlier.
-/

namespace SimplyTyped.Json

/-- What is wrong with a text. -/
inductive Problem where
  | valueExpected
  | extraData
  | commaExpected
  | colonExpected
  | keyExpected
  | unterminatedString
  | controlCharacter
  | badEscape
  | badUnicodeEscape
  | byteOrderMark
  deriving DecidableEq

/-- The wording of a problem. -/
def Problem.message : Problem → String
  | valueExpected => "Expecting value"
  | extraData => "Extra data"
  | commaExpected => "Expecting ',' delimiter"
  | colonExpected => "Expecting ':' delimiter"
  | keyExpected => "Expecting property name enclosed in double quotes"
  | unterminatedString => "Unterminated string starting at"
  | controlCharacter => "Invalid control character at"
  | badEscape => "Invalid \\escape"
  | badUnicodeEscape => "Invalid \\uXXXX escape"
  | byteOrderMark => "Unexpected UTF-8 BOM (decode using utf-8-sig)"

/-- A problem and the number of characters left where it is. -/
structure Trouble where
  problem : Problem
  left : Nat

/-- A problem and its offset in the text. -/
structure SyntaxFault where
  problem : Problem
  position : Nat
  deriving DecidableEq

def isSpace (c : Char) : Bool := c = ' ' || c = '\t' || c = '\n' || c = '\r'

def skipSpace (text : List Char) : List Char := text.dropWhile isSpace

def isDigit (c : Char) : Bool := '0' ≤ c && c ≤ '9'

/-- The value of a run of decimal digits. -/
def decimalValue (digits : List Char) : Nat := digits.foldl (fun n c => 10 * n + (c.toNat - 48)) 0

/-! ## Strings -/

/-- The value of four hexadecimal digits. -/
def fourHex? (a b c d : Char) : Option Nat :=
  match Text.hexValue? a, Text.hexValue? b, Text.hexValue? c, Text.hexValue? d with
  | some x, some y, some z, some w => some (((x * 16 + y) * 16 + z) * 16 + w)
  | _, _, _, _ => none

/-- The letters that stand for one character after a backslash. -/
def simpleEscape? : Char → Option Char
  | '\x22' => some '\x22'
  | '\x5c' => some '\x5c'
  | '/' => some '/'
  | 'b' => some '\x08'
  | 'f' => some '\x0c'
  | 'n' => some '\n'
  | 'r' => some '\r'
  | 't' => some '\t'
  | _ => none

/-- Whether a code unit is the first half of a surrogate pair. -/
def isHighSurrogate (unit : Nat) : Bool := 0xD800 ≤ unit && unit ≤ 0xDBFF

/-- Whether a code unit is the second half of a surrogate pair. -/
def isLowSurrogate (unit : Nat) : Bool := 0xDC00 ≤ unit && unit ≤ 0xDFFF

/-- A piece of a string: a character as it stands, or an escaped code unit. -/
inductive Piece where
  | char (c : Char)
  | unit (n : Nat)

/-- The character of a code unit; half a pair on its own becomes the replacement character. -/
def unitChar (unit : Nat) : Char :=
  if isHighSurrogate unit || isLowSurrogate unit then Char.ofNat 0xFFFD else Char.ofNat unit

/-- The character of a surrogate pair. -/
def pairChar (high low : Nat) : Char := Char.ofNat (0x10000 + (high - 0xD800) * 0x400 + (low - 0xDC00))

/-- The characters of pieces; two escaped halves of a pair in a row are one character. -/
def joinPieces : List Piece → List Char
  | [] => []
  | .char c :: rest => c :: joinPieces rest
  | .unit high :: .unit low :: rest =>
    if isHighSurrogate high && isLowSurrogate low then pairChar high low :: joinPieces rest
    else unitChar high :: joinPieces (.unit low :: rest)
  | .unit n :: rest => unitChar n :: joinPieces rest

/-- A piece before others. -/
def before (piece : Piece) : Except Trouble (List Piece × List Char) → Except Trouble (List Piece × List Char)
  | .ok (pieces, left) => .ok (piece :: pieces, left)
  | .error t => .error t

/-- The pieces of a string, from after its opening quote.  An escape by code unit takes four digits, and it is refused
when the text ends behind them.  A missing closing quote is placed at the end of the text. -/
def scanPieces : List Char → Except Trouble (List Piece × List Char)
  | [] => .error ⟨.unterminatedString, 0⟩
  | c :: rest =>
    if c = '\x22' then .ok ([], rest)
    else if c = '\x5c' then
      match rest with
      | [] => .error ⟨.unterminatedString, 0⟩
      | e :: digits =>
        if e = 'u' then
          match digits with
          | x :: y :: z :: w :: left =>
            match fourHex? x y z w with
            | some n => if left.isEmpty then .error ⟨.badUnicodeEscape, 5⟩ else before (.unit n) (scanPieces left)
            | none => .error ⟨.badUnicodeEscape, digits.length + 1⟩
          | _ => .error ⟨.badUnicodeEscape, digits.length + 1⟩
        else
          match simpleEscape? e with
          | some x => before (.char x) (scanPieces digits)
          | none => .error ⟨.badEscape, rest.length + 1⟩
    else if c.toNat < 32 then .error ⟨.controlCharacter, rest.length + 1⟩
    else before (.char c) (scanPieces rest)

/-- A string, from after its opening quote, which is where a missing closing quote is reported. -/
def scanText (text : List Char) : Except Trouble (String × List Char) :=
  match scanPieces text with
  | .ok (pieces, left) => .ok (String.ofList (joinPieces pieces), left)
  | .error t => .error (if t.problem = .unterminatedString then ⟨t.problem, text.length + 1⟩ else t)

/-! ## Numbers -/

/-- The whole part: a lone zero, or digits that do not begin with one. -/
def wholePart? : List Char → Option (List Char × List Char)
  | '0' :: rest => some (['0'], rest)
  | text =>
    let digits := text.takeWhile isDigit
    if digits.isEmpty then none else some (digits, text.dropWhile isDigit)

/-- The digits after a point, none when there is no point with a digit behind it. -/
def fractionPart : List Char → List Char × List Char
  | '.' :: rest =>
    let digits := rest.takeWhile isDigit
    if digits.isEmpty then ([], '.' :: rest) else (digits, rest.dropWhile isDigit)
  | text => ([], text)

/-- The digits of an exponent with its sign. -/
def signedDigits? : List Char → Option (Int × List Char)
  | '-' :: rest =>
    let digits := rest.takeWhile isDigit
    if digits.isEmpty then none else some (-(decimalValue digits : Int), rest.dropWhile isDigit)
  | '+' :: rest =>
    let digits := rest.takeWhile isDigit
    if digits.isEmpty then none else some (decimalValue digits, rest.dropWhile isDigit)
  | rest =>
    let digits := rest.takeWhile isDigit
    if digits.isEmpty then none else some (decimalValue digits, rest.dropWhile isDigit)

/-- The exponent, absent when no digits follow its letter. -/
def exponentPart : List Char → Option Int × List Char
  | c :: rest =>
    if c = 'e' ∨ c = 'E' then
      match signedDigits? rest with
      | some (e, left) => (some e, left)
      | none => (none, c :: rest)
    else (none, c :: rest)
  | [] => (none, [])

/-- An unsigned number at the front: whole unless it has a fraction or an exponent. -/
def scanNumber? (negative : Bool) (text : List Char) : Option (Json × List Char) :=
  match wholePart? text with
  | none => none
  | some (whole, rest) =>
    let (fraction, rest) := fractionPart rest
    let (exponent, rest) := exponentPart rest
    if fraction.isEmpty && exponent.isNone then
      let n : Int := decimalValue whole
      some (int (if negative then -n else n), rest)
    else
      let e : Int := exponent.getD 0 - fraction.length
      some (float (Binary64.ofDecimal negative (decimalValue (whole ++ fraction)) e), rest)

/-! ## Values -/

/-- The words that are values. -/
def wordValues : List (List Char × Json) :=
  [("null".toList, null), ("true".toList, bool true), ("false".toList, bool false),
   ("NaN".toList, float .nan), ("Infinity".toList, float (.infinite false)),
   ("-Infinity".toList, float (.infinite true))]

/-- The word value at the front. -/
def wordValue? (text : List Char) : List (List Char × Json) → Option (Json × List Char)
  | [] => none
  | (word, v) :: rest =>
    if word.isPrefixOf text then some (v, text.drop word.length) else wordValue? text rest

/-- A word or a number at the front. -/
def scanAtom (text : List Char) : Except Trouble (Json × List Char) :=
  match wordValue? text wordValues with
  | some r => .ok r
  | none =>
    let number := match text with
      | '-' :: rest => scanNumber? true rest
      | _ => scanNumber? false text
    match number with
    | some r => .ok r
    | none => .error ⟨.valueExpected, text.length⟩

mutual

/-- A value at the front. -/
def scanValue : (fuel : Nat) → List Char → Except Trouble (Json × List Char)
  | 0, text => .error ⟨.valueExpected, text.length⟩
  | fuel + 1, text =>
    match text with
    | '\x22' :: rest => do
      let (s, left) ← scanText rest
      return (string s, left)
    | '[' :: rest =>
      match skipSpace rest with
      | ']' :: left => .ok (array [], left)
      | rest => do
        let (items, left) ← scanItems fuel rest
        return (array items, left)
    | '\x7b' :: rest =>
      match skipSpace rest with
      | '\x7d' :: left => .ok (object [], left)
      | rest => do
        let (fields, left) ← scanFields fuel [] rest
        return (object fields, left)
    | text => scanAtom text

/-- At least one item, up to the closing bracket. -/
def scanItems : (fuel : Nat) → List Char → Except Trouble (List Json × List Char)
  | 0, text => .error ⟨.valueExpected, text.length⟩
  | fuel + 1, text => do
    let (v, rest) ← scanValue fuel text
    match skipSpace rest with
    | ']' :: left => return ([v], left)
    | ',' :: rest => do
      let (items, left) ← scanItems fuel (skipSpace rest)
      return (v :: items, left)
    | rest => .error ⟨.commaExpected, rest.length⟩

/-- At least one field, up to the closing brace, put after the fields `before`. -/
def scanFields : (fuel : Nat) → (before : List (String × Json)) → List Char →
    Except Trouble (List (String × Json) × List Char)
  | 0, _, text => .error ⟨.keyExpected, text.length⟩
  | fuel + 1, before, text =>
    match text with
    | '\x22' :: rest => do
      let (key, rest) ← scanText rest
      match skipSpace rest with
      | ':' :: rest => do
        let (v, rest) ← scanValue fuel (skipSpace rest)
        let fields := put key v before
        match skipSpace rest with
        | '\x7d' :: left => return (fields, left)
        | ',' :: rest => scanFields fuel fields (skipSpace rest)
        | rest => .error ⟨.commaExpected, rest.length⟩
      | rest => .error ⟨.colonExpected, rest.length⟩
    | text => .error ⟨.keyExpected, text.length⟩

end

/-- The one value that a list of characters holds.  Each nested scan takes a character, so the length is fuel enough. -/
def readChars (text : List Char) : Except SyntaxFault Json :=
  let place (t : Trouble) : SyntaxFault := ⟨t.problem, text.length - t.left⟩
  match text with
  | '\uFEFF' :: _ => .error ⟨.byteOrderMark, 0⟩
  | _ =>
    match scanValue (2 * text.length + 2) (skipSpace text) with
    | .error t => .error (place t)
    | .ok (v, rest) =>
      match skipSpace rest with
      | [] => .ok v
      | rest => .error (place ⟨.extraData, rest.length⟩)

/-- The one value that a text holds. -/
def read (text : String) : Except SyntaxFault Json := readChars text.toList

end SimplyTyped.Json
