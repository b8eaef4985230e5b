import SimplyTyped.Notice.Format
import SimplyTyped.Text.Quoted

/-!
# SimplyTyped.Notice.Template — texts with places for excerpts

A place stands between braces.  It says which excerpt is meant, by its number or, when that is left out, by its turn;
the two kinds do not mix.  After that a place may pick out single characters, ask for the excerpt in quotes, and tell
the format, which may have places of its own.  A brace that is text is written twice.

A template is read into pieces by an automaton and filled from left to right, so the first fault in the text is the
one that counts, be it in the reading or in the filling.
-/

namespace SimplyTyped.Template

/-- What is wrong with a template or the excerpts for it. -/
inductive Fault where
  | loneOpeningBrace
  | loneClosingBrace
  | unclosedPlace
  | braceInPlace
  | noConversion
  | conversionTooLong
  | unclosedFormat
  | numberedThenNext
  | nextThenNumbered
  | nestedTooDeep
  | noExcerpt (index : Nat)
  | namedPlace (name : String)
  | noAttribute (name : String)
  | noCharacter
  | notAnIndex
  | emptySelector
  | unclosedSelector
  | strayAfterSelector
  | unknownConversion (conversion : Char)
  | format (fault : FormatFault)
  deriving DecidableEq

def openingBrace : Char := '\x7b'

def closingBrace : Char := '\x7d'

/-! ## Reading -/

/-- A place as it is written. -/
structure Place where
  /-- The excerpt and the characters in it. -/
  target : List Char
  /-- The letter for the form of the excerpt. -/
  conversion : Option Char
  format : List Char
  deriving DecidableEq

/-- A piece of a template. -/
inductive Piece where
  | char (c : Char)
  | place (p : Place)
  | fault (f : Fault)
  deriving DecidableEq

/-- Where in a template a character stands.  The characters of an unfinished part are kept the last one first. -/
inductive Where where
  | wording
  /-- After an opening brace. -/
  | opened
  /-- After a closing brace. -/
  | closed
  | target (before : List Char)
  /-- Between square brackets in a target. -/
  | selector (before : List Char)
  /-- Before the letter of a conversion. -/
  | conversion (target : List Char)
  /-- After the letter of a conversion. -/
  | converted (target : List Char) (conversion : Char)
  /-- In a format with some places open in it. -/
  | format (target : List Char) (conversion : Option Char) (before : List Char) (depth : Nat)

/-- The place that is complete, after which there is wording again. -/
def complete (target : List Char) (conversion : Option Char) (format : List Char) :
    Except Fault (Option Piece × Where) :=
  .ok (some (.place ⟨target.reverse, conversion, format.reverse⟩), .wording)

/-- What a character does in a target outside square brackets. -/
def targetStep (before : List Char) (c : Char) : Except Fault (Option Piece × Where) :=
  if c = openingBrace then .error .braceInPlace
  else if c = closingBrace then complete before none []
  else
    .ok (none,
      match c with
      | '[' => .selector (c :: before)
      | '!' => .conversion before
      | ':' => .format before none [] 0
      | _ => .target (c :: before))

/-- What a character does: the piece that it completes, and where the next one stands. -/
def Where.step : Where → Char → Except Fault (Option Piece × Where)
  | wording, c =>
    if c = openingBrace then .ok (none, opened)
    else if c = closingBrace then .ok (none, closed)
    else .ok (some (.char c), wording)
  | opened, c => if c = openingBrace then .ok (some (.char c), wording) else targetStep [] c
  | closed, c => if c = closingBrace then .ok (some (.char c), wording) else .error .loneClosingBrace
  | target before, c => targetStep before c
  | selector before, c => .ok (none, if c = ']' then target (c :: before) else selector (c :: before))
  | conversion name, c => .ok (none, converted name c)
  | converted name k, c =>
    if c = closingBrace then complete name (some k) []
    else if c = ':' then .ok (none, format name (some k) [] 0)
    else .error .conversionTooLong
  | format name k before depth, c =>
    if c = openingBrace then .ok (none, format name k (c :: before) (depth + 1))
    else if c = closingBrace then
      match depth with
      | 0 => complete name k before
      | depth + 1 => .ok (none, format name k (c :: before) depth)
    else .ok (none, format name k (c :: before) depth)

/-- What is wrong with a template that ends somewhere. -/
def Where.ending : Where → Option Fault
  | wording => none
  | opened => some .loneOpeningBrace
  | closed => some .loneClosingBrace
  | target _ => some .unclosedPlace
  | selector _ => some .unclosedPlace
  | conversion _ => some .noConversion
  | converted _ _ => some .unclosedFormat
  | format _ _ _ _ => some .unclosedFormat

/-- The pieces of the rest of a template, the last one being the fault in it if there is one. -/
def piecesFrom (w : Where) : List Char → List Piece
  | [] => w.ending.toList.map .fault
  | c :: rest =>
    match w.step c with
    | .error fault => [.fault fault]
    | .ok (piece, w) => piece.toList ++ piecesFrom w rest

/-! ## Filling -/

/-- How the places of a template have been told so far. -/
inductive Numbering where
  | undecided
  /-- By their order, with this one next. -/
  | byOrder (next : Nat)
  | byNumber

/-- A result about a format as one about a template. -/
def ofFormat {α : Type} (result : Except FormatFault α) : Except Fault α := result.mapError .format

/-- The number that a name is, when it is nothing else. -/
def number? (name : List Char) : Except Fault (Option Nat) := do
  let (n, rest) ← ofFormat (frontNumber name)
  return if rest.isEmpty then n else none

/-- The number of the excerpt with a name, and how the next place is told. -/
def excerptIndex (numbering : Numbering) (name : List Char) : Except Fault (Nat × Numbering) := do
  match name, ← number? name, numbering with
  | [], _, .undecided => return (0, .byOrder 1)
  | [], _, .byOrder next => return (next, .byOrder (next + 1))
  | [], _, .byNumber => throw .numberedThenNext
  | _ :: _, some _, .byOrder _ => throw .nextThenNumbered
  | _ :: _, some n, _ => return (n, .byNumber)
  | _ :: _, none, _ => throw (.namedPlace (String.ofList name))

/-- Whether a character begins a selector. -/
def beginsSelector (c : Char) : Bool := c = '.' || c = '['

/-- The character of a text with an index that is written out. -/
def characterAt (text index : List Char) : Except Fault Char := do
  match ← number? index with
  | none => throw (if index.isEmpty then .emptySelector else .notAnIndex)
  | some i =>
    match text[i]? with
    | some c => return c
    | none => throw .noCharacter

/-- The part of a text that selectors pick out.  A text has characters, but nothing that goes by a name. -/
def select (text : List Char) (selectors : List Char) : Except Fault (List Char) :=
  match selectors with
  | [] => .ok text
  | '.' :: rest =>
    let name := rest.takeWhile fun c => !beginsSelector c
    .error (if name.isEmpty then .emptySelector else .noAttribute (String.ofList name))
  | '[' :: rest =>
    match _h : rest.dropWhile (· ≠ ']') with
    | [] => .error .unclosedSelector
    | _ :: after => do
      let c ← characterAt text (rest.takeWhile (· ≠ ']'))
      select [c] after
  | _ :: _ => .error .strayAfterSelector
termination_by selectors.length
decreasing_by
  have shorter := (List.dropWhile_sublist (fun c => decide (c ≠ ']')) (l := rest)).length_le
  rw [_h] at shorter
  simp at shorter ⊢
  omega

/-- The excerpt that a place is about, and how the next place is told. -/
def targeted (excerpts : List String) (numbering : Numbering) (target : List Char) :
    Except Fault (List Char × Numbering) := do
  let (i, numbering) ← excerptIndex numbering (target.takeWhile fun c => !beginsSelector c)
  match excerpts[i]? with
  | none => throw (.noExcerpt i)
  | some excerpt =>
    let text ← select excerpt.toList (target.dropWhile fun c => !beginsSelector c)
    return (text, numbering)

/-- A text in the form that a conversion asks for. -/
def converted (conversion : Option Char) (text : List Char) : Except Fault (List Char) :=
  match conversion with
  | none => .ok text
  | some 's' => .ok text
  | some 'r' => .ok (Text.quotedChars text)
  | some 'a' => .ok (Text.quotedAscii text)
  | some c => .error (.unknownConversion c)

/-- The text of a place, and how the next place is told; `fillFormat` fills a format with places of its own. -/
def Place.fill (fillFormat : Numbering → List Char → Except Fault (List Char × Numbering)) (excerpts : List String)
    (numbering : Numbering) (p : Place) : Except Fault (List Char × Numbering) := do
  let (text, numbering) ← targeted excerpts numbering p.target
  let text ← converted p.conversion text
  let (format, numbering) ←
    if p.format.contains openingBrace then fillFormat numbering p.format else .ok (p.format, numbering)
  let text ← ofFormat (Format.apply format text)
  return (text, numbering)

/-- Fills pieces in order, up to the first fault. -/
def fillPieces (fillFormat : Numbering → List Char → Except Fault (List Char × Numbering)) (excerpts : List String) :
    Numbering → List Piece → Except Fault (List Char × Numbering)
  | numbering, [] => .ok ([], numbering)
  | _, .fault f :: _ => .error f
  | numbering, .char c :: rest => do
    let (text, numbering) ← fillPieces fillFormat excerpts numbering rest
    return (c :: text, numbering)
  | numbering, .place p :: rest => do
    let (shown, numbering) ← p.fill fillFormat excerpts numbering
    let (text, numbering) ← fillPieces fillFormat excerpts numbering rest
    return (shown ++ text, numbering)

/-- Fills a template in which places may be nested in each other up to a depth. -/
def fillWithin (excerpts : List String) : Nat → Numbering → List Char → Except Fault (List Char × Numbering)
  | 0, _, _ => .error .nestedTooDeep
  | depth + 1, numbering, template =>
    fillPieces (fillWithin excerpts depth) excerpts numbering (piecesFrom .wording template)

/-- A template with excerpts in its places; a format may have places, but theirs may not. -/
def fill (template : String) (excerpts : List String) : Except Fault String := do
  let (text, _) ← fillWithin excerpts 2 .undecided template.toList
  return String.ofList text

theorem piecesFrom_of_no_braces {text : List Char} (ho : openingBrace ∉ text) (hc : closingBrace ∉ text) :
    piecesFrom .wording text = text.map .char := by
  induction text with
  | nil => rfl
  | cons c rest ih =>
    rw [List.mem_cons, not_or] at ho hc
    rw [piecesFrom, Where.step, if_neg fun h => ho.1 h.symm, if_neg fun h => hc.1 h.symm]
    simp only [Option.toList_some, List.map_cons, ih ho.2 hc.2]
    rfl

theorem fillPieces_char (fillFormat : Numbering → List Char → Except Fault (List Char × Numbering))
    (excerpts : List String) (numbering : Numbering) (text : List Char) :
    fillPieces fillFormat excerpts numbering (text.map .char) = .ok (text, numbering) := by
  induction text with
  | nil => rfl
  | cons c rest ih =>
    rw [List.map_cons, fillPieces, ih]
    rfl

/-- The plainest place takes the next excerpt as it is. -/
theorem fill_plain_place (fillFormat : Numbering → List Char → Except Fault (List Char × Numbering))
    (excerpt : String) (excerpts : List String) :
    Place.fill fillFormat (excerpt :: excerpts) .undecided ⟨[], none, []⟩ = .ok (excerpt.toList, .byOrder 1) := by
  have hs : select excerpt.toList [] = .ok excerpt.toList := by rw [select]
  have ht : targeted (excerpt :: excerpts) .undecided [] = .ok (excerpt.toList, .byOrder 1) := by
    show (select excerpt.toList [] >>= fun text => pure (text, Numbering.byOrder 1)) = _
    rw [hs]
    rfl
  rw [Place.fill, ht]
  rfl

/-- A template that begins with a place in quotes puts the excerpt there, whatever text that is. -/
theorem fill_quoting {rest : String} (ho : openingBrace ∉ rest.toList) (hc : closingBrace ∉ rest.toList)
    (excerpt : String) : fill ("'\x7b\x7d'" ++ rest) [excerpt] = .ok ("'" ++ excerpt ++ ("'" ++ rest)) := by
  have hp : piecesFrom .wording ("'\x7b\x7d'" ++ rest).toList =
      .char '\'' :: .place ⟨[], none, []⟩ :: .char '\'' :: rest.toList.map .char := by
    rw [String.toList_append, ← piecesFrom_of_no_braces ho hc]
    rfl
  have hr : fillPieces (fillWithin [excerpt] 1) [excerpt] (.byOrder 1) (.char '\'' :: rest.toList.map .char) =
      .ok ('\'' :: rest.toList, .byOrder 1) := by
    rw [fillPieces, fillPieces_char]
    rfl
  rw [fill, fillWithin, hp, fillPieces, fillPieces, fill_plain_place]
  simp only [bind, Except.bind, hr]
  simp [pure, Except.pure, String.ext_iff]

/-- The wording of a fault. -/
def Fault.message : Fault → String
  | loneOpeningBrace => "Single '\x7b' encountered in format string"
  | loneClosingBrace => "Single '\x7d' encountered in format string"
  | unclosedPlace => "expected '\x7d' before end of string"
  | braceInPlace => "unexpected '\x7b' in field name"
  | noConversion => "end of string while looking for conversion specifier"
  | conversionTooLong => "expected ':' after conversion specifier"
  | unclosedFormat => "unmatched '\x7b' in format spec"
  | numberedThenNext => "cannot switch from manual field specification to automatic field numbering"
  | nextThenNumbered => "cannot switch from automatic field numbering to manual field specification"
  | nestedTooDeep => "Max string recursion exceeded"
  | noExcerpt index => "Replacement index " ++ index.repr ++ " out of range for positional args tuple"
  | namedPlace name => Text.quoted name
  | noAttribute name => "'str' object has no attribute '" ++ name ++ "'"
  | noCharacter => "string index out of range"
  | notAnIndex => "string indices must be integers, not 'str'"
  | emptySelector => "Empty attribute in format string"
  | unclosedSelector => "Missing ']' in format string"
  | strayAfterSelector => "Only '.' or '[' may follow ']' in format field specifier"
  | unknownConversion c => "Unknown conversion specifier " ++ named 127 c
  | format fault => fault.message

end SimplyTyped.Template
