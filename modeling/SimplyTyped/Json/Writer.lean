import SimplyTyped.Json
import SimplyTyped.Number.Plain
import SimplyTyped.Text.Hex

/-!
# SimplyTyped.Json.Writer — JSON values as one line of text

Items and fields are parted by a comma and a space, a key from its value by a colon and a space.  In strings only the
double quote, the backslash and the characters below the space are escaped.
-/

namespace SimplyTyped.Json

/-- One character inside a string. -/
def stringChar (c : Char) : List Char :=
  if c = '\x22' then ['\x5c', '\x22']
  else if c = '\x5c' then ['\x5c', '\x5c']
  else if c = '\n' then ['\x5c', 'n']
  else if c = '\r' then ['\x5c', 'r']
  else if c = '\t' then ['\x5c', 't']
  else if c = '\x0c' then ['\x5c', 'f']
  else if c = '\x08' then ['\x5c', 'b']
  else if c.toNat < 32 then '\x5c' :: 'u' :: Text.hexDigits 4 c.toNat
  else [c]

/-- A string with its delimiters. -/
def writeString (s : String) : String := "\"" ++ String.ofList (s.toList.flatMap stringChar) ++ "\""

mutual

/-- The text of a value. -/
def write : Json → String
  | null => "null"
  | bool b => if b then "true" else "false"
  | int n => n.repr
  | float x => x.text
  | string s => writeString s
  | array [] => "[]"
  | array (v :: rest) => "[" ++ v.write ++ writeItems rest ++ "]"
  | object [] => "\x7b\x7d"
  | object ((k, v) :: rest) => "\x7b" ++ writeString k ++ ": " ++ v.write ++ writeFields rest ++ "\x7d"

/-- The items after the first one. -/
def writeItems : List Json → String
  | [] => ""
  | v :: rest => ", " ++ v.write ++ writeItems rest

/-- The fields after the first one. -/
def writeFields : List (String × Json) → String
  | [] => ""
  | (k, v) :: rest => ", " ++ writeString k ++ ": " ++ v.write ++ writeFields rest

end

end SimplyTyped.Json
