import SimplyTyped.Text.Utf8

/-!
# SimplyTyped.Text.Lines — the lines of a file

A line feed, a carriage return, or the two together end a line; text after the last of them is a line as well, unless
it is empty.
-/

namespace SimplyTyped.Text

/-- A character at the front of the first line. -/
def consLine (c : Char) : List (List Char) → List (List Char)
  | [] => [[c]]
  | line :: rest => (c :: line) :: rest

/-- The lines of a text without what ends them. -/
def lines : List Char → List (List Char)
  | [] => []
  | '\r' :: '\n' :: rest => [] :: lines rest
  | c :: rest => if c = '\n' ∨ c = '\r' then [] :: lines rest else consLine c (lines rest)

/-- The lines that are over whatever may still follow; a carriage return at the end leaves its line open. -/
def closedLines (text : List Char) : List (List Char) :=
  let settled := if text.getLast? = some '\r' then text.dropLast else text
  (lines (settled ++ [' '])).dropLast

end SimplyTyped.Text

namespace SimplyTyped

/-- The lines that can be read from a file, and the fault that ends them early. -/
structure Source where
  lines : List String
  fault : Option Utf8.Fault

/-- The lines of a file.  A fault inside hides all lines; when only the last character is cut short, the lines that are
over before it can be read, and the fault counts from there. -/
def Source.ofBytes (bytes : List UInt8) : Source :=
  let decoded := Utf8.decode bytes
  match decoded.ending with
  | .complete => ⟨(Text.lines decoded.chars).map String.ofList, none⟩
  | .cutShort f => ⟨(Text.closedLines decoded.chars).map String.ofList, some f⟩
  | .fault f => ⟨[], some f⟩

end SimplyTyped
