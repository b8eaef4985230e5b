/-!
# SimplyTyped.Text.Slice — cutting text at positions that may lie outside it

A negative position counts from the end of the text, and a position beyond either end stands for that end.
-/

namespace SimplyTyped.Text

/-- The offset that a position stands for in a text of `length` characters. -/
def offset (length : Nat) (position : Int) : Nat :=
  let n := if position < 0 then (length + position).toNat else position.toNat
  if n ≤ length then n else length

/-- The part from `start` up to `stop`, empty when they cross. -/
def slice (text : List Char) (start stop : Int) : List Char :=
  let i := offset text.length start
  (text.drop i).take (offset text.length stop - i)

/-- The part before a position. -/
def upTo (text : List Char) (stop : Int) : List Char := text.take (offset text.length stop)

/-- The part from a position on. -/
def fromOn (text : List Char) (start : Int) : List Char := text.drop (offset text.length start)

/-- A character `count` times, none when `count` is negative. -/
def repeated (c : Char) (count : Int) : List Char := List.replicate count.toNat c

/-- The first offset at which `needle` occurs in `text`. -/
def find? (needle : List Char) : List Char → Option Nat
  | [] => if needle.isEmpty then some 0 else none
  | c :: text => if needle.isPrefixOf (c :: text) then some 0 else (find? needle text).map (· + 1)

end SimplyTyped.Text
