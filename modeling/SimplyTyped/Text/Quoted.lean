import SimplyTyped.Text.Hex
import SimplyTyped.Text.Printable

/-!
# SimplyTyped.Text.Quoted — text in quotes on one line

Quoted text stands between two equal delimiters.  The delimiter in use, the backslash and every character that is not
printable are escaped, so the quoted form holds no line break and no other delimiter.
-/

namespace SimplyTyped.Text

def singleQuote : Char := '\x27'

def doubleQuote : Char := '\x22'

def backslash : Char := '\x5c'

/-- Single quotes delimit, unless the text has single quotes and no double ones. -/
def delimiterFor (text : List Char) : Char :=
  if singleQuote ∈ text ∧ doubleQuote ∉ text then doubleQuote else singleQuote

/-- A character by the hexadecimal digits of its code point, two, four or eight of them. -/
def hexEscape (c : Char) : List Char :=
  if c.toNat < 0x100 then backslash :: 'x' :: hexDigits 2 c.toNat
  else if c.toNat < 0x10000 then backslash :: 'u' :: hexDigits 4 c.toNat
  else backslash :: 'U' :: hexDigits 8 c.toNat

/-- One character of quoted text: line breaks and tabs by their letters, others that are not printable by their code
point. -/
def quotedChar (delimiter c : Char) : List Char :=
  if c = delimiter ∨ c = backslash then [backslash, c]
  else if c = '\n' then [backslash, 'n']
  else if c = '\r' then [backslash, 'r']
  else if c = '\t' then [backslash, 't']
  else if isPrintable c then [c]
  else hexEscape c

/-- The quoted form of a list of characters. -/
def quotedChars (text : List Char) : List Char :=
  let delimiter := delimiterFor text
  delimiter :: (text.flatMap (quotedChar delimiter) ++ [delimiter])

/-- The quoted form of a text. -/
def quoted (text : String) : String := String.ofList (quotedChars text.toList)

/-- A character that is no ASCII character by its code point. -/
def asciiChar (c : Char) : List Char := if c.toNat < 0x80 then [c] else hexEscape c

/-- The quoted form of a list of characters in ASCII characters. -/
def quotedAscii (text : List Char) : List Char := (quotedChars text).flatMap asciiChar

end SimplyTyped.Text
