import SimplyTyped.Text.Hex

/-!
# SimplyTyped.Text.Utf8 — bytes as characters, or the first bytes that are none

The decoder takes one byte at a time.  It refuses a byte as soon as no character can go on with it, so overlong forms,
surrogates and numbers beyond the last code point fail at their second byte.  Bytes may also end inside a character;
the first two bytes of a surrogate at the very end count as such an end, although they cannot be completed.
-/

namespace SimplyTyped.Utf8

/-- Why bytes are no character. -/
inductive Reason where
  | badStart
  | badContinuation
  | unexpectedEnd
  deriving DecidableEq

/-- The bytes of a character that came to nothing, and the offset of the first of them. -/
structure Fault where
  reason : Reason
  position : Nat
  bytes : List UInt8
  deriving DecidableEq

/-- The wording of a reason. -/
def Reason.message : Reason → String
  | badStart => "invalid start byte"
  | badContinuation => "invalid continuation byte"
  | unexpectedEnd => "unexpected end of data"

/-- The wording of a fault: a single byte is shown, more of them are told by their offsets. -/
def Fault.message (f : Fault) : String :=
  "'utf-8' codec can't decode " ++
    (match f.bytes with
      | [b] => "byte 0x" ++ String.ofList (Text.hexDigits 2 b.toNat) ++ " in position " ++ f.position.repr
      | bytes => "bytes in position " ++ f.position.repr ++ "-" ++ (f.position + bytes.length - 1).repr)
    ++ ": " ++ f.reason.message

/-- A character of which some bytes are missing. -/
structure Pending where
  /-- The bytes so far, the last one first. -/
  bytes : List UInt8
  /-- The number of bytes still to come. -/
  missing : Nat
  /-- The least next byte. -/
  low : UInt8
  /-- The greatest next byte. -/
  high : UInt8
  /-- The bits so far. -/
  code : Nat

/-- The character that a byte above the ASCII range begins. -/
def lead? (b : UInt8) : Option Pending :=
  if 0xC2 ≤ b ∧ b ≤ 0xDF then some ⟨[b], 1, 0x80, 0xBF, b.toNat - 0xC0⟩
  else if 0xE0 ≤ b ∧ b ≤ 0xEF then
    some ⟨[b], 2, if b = 0xE0 then 0xA0 else 0x80, if b = 0xED then 0x9F else 0xBF, b.toNat - 0xE0⟩
  else if 0xF0 ≤ b ∧ b ≤ 0xF4 then
    some ⟨[b], 3, if b = 0xF0 then 0x90 else 0x80, if b = 0xF4 then 0x8F else 0xBF, b.toNat - 0xF0⟩
  else none

/-- The character with one more byte. -/
def Pending.extend (p : Pending) (b : UInt8) : Pending :=
  ⟨b :: p.bytes, p.missing - 1, 0x80, 0xBF, p.code * 64 + (b.toNat - 0x80)⟩

/-- How the bytes end. -/
inductive Ending where
  | complete
  /-- Inside a character; the fault counts from its first byte. -/
  | cutShort (f : Fault)
  | fault (f : Fault)
  deriving DecidableEq

/-- The characters before the end or the first fault. -/
structure Decoded where
  chars : List Char
  ending : Ending

/-- A character before others. -/
def Decoded.cons (c : Char) (d : Decoded) : Decoded := { d with chars := c :: d.chars }

/-- The ending at a byte that does not go on with a character. -/
def Pending.ending (position : Nat) (p : Pending) (b : UInt8) (isLast : Bool) : Ending :=
  if isLast && p.bytes == [0xED] && 0xA0 ≤ b && b ≤ 0xBF then .cutShort ⟨.badContinuation, 0, p.bytes⟩
  else .fault ⟨.badContinuation, position - p.bytes.length, p.bytes.reverse⟩

/-- Decodes the bytes from an offset on, inside a character that may have begun. -/
def decodeFrom (position : Nat) (pending : Option Pending) : List UInt8 → Decoded
  | [] =>
    match pending with
    | none => ⟨[], .complete⟩
    | some p => ⟨[], .cutShort ⟨.unexpectedEnd, 0, p.bytes.reverse⟩⟩
  | b :: rest =>
    match pending with
    | none =>
      if b < 0x80 then (decodeFrom (position + 1) none rest).cons (Char.ofNat b.toNat)
      else
        match lead? b with
        | some p => decodeFrom (position + 1) (some p) rest
        | none => ⟨[], .fault ⟨.badStart, position, [b]⟩⟩
    | some p =>
      if p.low ≤ b ∧ b ≤ p.high then
        let p' := p.extend b
        if p'.missing = 0 then (decodeFrom (position + 1) none rest).cons (Char.ofNat p'.code)
        else decodeFrom (position + 1) (some p') rest
      else ⟨[], p.ending position b rest.isEmpty⟩

/-- Decodes bytes from the start of a character. -/
def decode (bytes : List UInt8) : Decoded := decodeFrom 0 none bytes

end SimplyTyped.Utf8
