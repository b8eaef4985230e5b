import SimplyTyped.Text.WholeNumber

/-!
# SimplyTyped.Notice.Format — how a text is set in a template

A format tells the width of a text, where in it the text stands, the character that fills the rest, and how many
characters of the text are kept.  What else a format can say is for numbers, and refused for a text.
-/

namespace SimplyTyped.Template

/-- What is wrong with a format. -/
inductive FormatFault where
  | tooManyDigits
  | bothSeparators
  | separatorForbidden (separator code : Char)
  | missingPrecision
  | malformed (format : List Char)
  | unknownCode (code : Char)
  | spaceForbidden
  | signForbidden
  | zeroForbidden
  | alternateForbidden
  | afterSignForbidden
  deriving DecidableEq

/-- The greatest number in a template. -/
def greatestNumber : Nat := 9223372036854775807

/-- The number that digits go on to write after `value`, and what follows them. -/
def numberFrom (value : Nat) : List Char → Except FormatFault (Nat × List Char)
  | [] => .ok (value, [])
  | c :: rest =>
    match Text.digitValue? c with
    | none => .ok (value, c :: rest)
    | some d =>
      if greatestNumber < 10 * value + d then .error .tooManyDigits else numberFrom (10 * value + d) rest

/-- The number at the front of a text, if there is one, and what follows. -/
def frontNumber (text : List Char) : Except FormatFault (Option Nat × List Char) :=
  match text with
  | [] => .ok (none, [])
  | c :: _ =>
    if (Text.digitValue? c).isNone then .ok (none, text)
    else do
      let (n, rest) ← numberFrom 0 text
      return (some n, rest)

/-- The character at the front of a text, if it is wanted there, and what follows. -/
def frontChar (wanted : Char → Bool) : List Char → Option Char × List Char
  | [] => (none, [])
  | c :: rest => if wanted c then (some c, rest) else (none, c :: rest)

/-- Where a text stands in its width. -/
inductive Alignment where
  | left
  | right
  | center
  /-- Behind the sign of a number. -/
  | afterSign
  deriving DecidableEq

/-- The alignment that a character stands for. -/
def Alignment.ofChar? : Char → Option Alignment
  | '<' => some left
  | '>' => some right
  | '^' => some center
  | '=' => some afterSign
  | _ => none

/-- The filling character and the alignment at the front of a format, and what follows. -/
def frontAlignment : List Char → (Option Char × Option Alignment) × List Char
  | [] => ((none, none), [])
  | [c] =>
    match Alignment.ofChar? c with
    | some alignment => ((none, some alignment), [])
    | none => ((none, none), [c])
  | c :: d :: rest =>
    match Alignment.ofChar? d, Alignment.ofChar? c with
    | some alignment, _ => ((some c, some alignment), rest)
    | none, some alignment => ((none, some alignment), d :: rest)
    | none, none => ((none, none), c :: d :: rest)

/-- How a text is set. -/
structure Format where
  fill : Char
  alignment : Alignment
  sign : Option Char
  /-- Whether a negative zero is to lose its sign. -/
  plainZero : Bool
  alternate : Bool
  width : Option Nat
  precision : Option Nat
  /-- The letter for the kind of value. -/
  code : Char
  deriving DecidableEq

namespace Format

/-- The letter for texts. -/
def textCode : Char := 's'

/-- Whether the digits of numbers with a code can be parted by a separator. -/
def separable (separator code : Char) : Bool :=
  "deEfFgG%".toList.contains code || (separator = '_' && "boxX".toList.contains code)

/-- The separator at the front of a format, and what follows; it cannot be both of them. -/
def frontSeparator (format : List Char) : Except FormatFault (Option Char × List Char) :=
  let (comma, rest) := frontChar (· = ',') format
  let (underscore, rest) := frontChar (· = '_') rest
  if underscore.isSome && (comma.isSome || rest.head? = some ',') then .error .bothSeparators
  else .ok (underscore.orElse fun _ => comma, rest)

/-- The precision at the front of a format, and what follows. -/
def frontPrecision (format : List Char) : Except FormatFault (Option Nat × List Char) :=
  match format with
  | '.' :: rest => do
    let (precision, rest) ← frontNumber rest
    if precision.isNone then throw .missingPrecision
    return (precision, rest)
  | _ => .ok (none, format)

/-- The code that is all that is left of a format. -/
def lastCode (format : List Char) : List Char → Except FormatFault Char
  | [] => .ok textCode
  | [c] => .ok c
  | _ => .error (.malformed format)

/-- Reads a format. -/
def read (format : List Char) : Except FormatFault Format := do
  let ((fill, alignment), rest) := frontAlignment format
  let (sign, rest) := frontChar (fun c => c = ' ' || c = '+' || c = '-') rest
  let (plainZero, rest) := frontChar (· = 'z') rest
  let (alternate, rest) := frontChar (· = '#') rest
  let (zero, rest) := frontChar (fun c => fill.isNone && c = '0') rest
  let (width, rest) ← frontNumber rest
  let (separator, rest) ← frontSeparator rest
  let (precision, rest) ← frontPrecision rest
  let code ← lastCode format rest
  match separator with
  | some separator => if !separable separator code then throw (.separatorForbidden separator code)
  | none => pure ()
  return { fill := fill.getD (zero.getD ' '), alignment := alignment.getD .left, sign, plainZero := plainZero.isSome,
           alternate := alternate.isSome, width, precision, code }

/-- What a format asks for that a text cannot have. -/
def refusal? (f : Format) : Option FormatFault :=
  if f.code ≠ textCode then some (.unknownCode f.code)
  else if f.sign = some ' ' then some .spaceForbidden
  else if f.sign.isSome then some .signForbidden
  else if f.plainZero then some .zeroForbidden
  else if f.alternate then some .alternateForbidden
  else if f.alignment = .afterSign then some .afterSignForbidden
  else none

/-- How much of the filling stands before a text. -/
def before (alignment : Alignment) (filling : Nat) : Nat :=
  match alignment with
  | .right => filling
  | .center => filling / 2
  | _ => 0

/-- A text cut to the precision and filled up to the width. -/
def set (f : Format) (text : List Char) : List Char :=
  let kept := text.take (f.precision.getD text.length)
  let filling := f.width.getD 0 - kept.length
  List.replicate (before f.alignment filling) f.fill ++ kept
    ++ List.replicate (filling - before f.alignment filling) f.fill

/-- A text set in a format, which leaves it alone when it is empty. -/
def apply (format text : List Char) : Except FormatFault (List Char) :=
  if format.isEmpty then .ok text
  else do
    let f ← read format
    match f.refusal? with
    | some fault => throw fault
    | none => return f.set text

end Format

/-- A character as it is named in the wording of a fault: itself, or its code point when that is not above the space
and below the bound. -/
def named (bound : Nat) (c : Char) : String :=
  if 32 < c.toNat && c.toNat < bound then String.singleton c
  else "\\x" ++ String.ofList (Nat.toDigits 16 c.toNat)

/-- The wording of a fault. -/
def FormatFault.message : FormatFault → String
  | tooManyDigits => "Too many decimal digits in format string"
  | bothSeparators => "Cannot specify both ',' and '_'."
  | separatorForbidden separator code =>
    "Cannot specify '" ++ String.singleton separator ++ "' with '" ++ named 128 code ++ "'."
  | missingPrecision => "Format specifier missing precision"
  | malformed format => "Invalid format specifier '" ++ String.ofList format ++ "' for object of type 'str'"
  | unknownCode code => "Unknown format code '" ++ named 128 code ++ "' for object of type 'str'"
  | spaceForbidden => "Space not allowed in string format specifier"
  | signForbidden => "Sign not allowed in string format specifier"
  | zeroForbidden => "Negative zero coercion (z) not allowed in string format specifier"
  | alternateForbidden => "Alternate form (#) not allowed in string format specifier"
  | afterSignForbidden => "'=' alignment not allowed in string format specifier"

end SimplyTyped.Template
