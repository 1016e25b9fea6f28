import Lilac.Text.Basic
import Lilac.Text.Digit

/-!
# UTF-8

Bytes are decoded one at a time. Between two bytes the decoder stands between characters or waits
for a continuation byte in a certain range, so that overlong forms, surrogates and code points
beyond the last one are refused at the first byte that rules them out. A fault covers the bytes of
the sequence up to that point.
-/

namespace Lilac

namespace Utf8

/-- Why a byte sequence is not valid. -/
inductive Reason where
  /-- No character starts with this byte. -/
  | start
  /-- The next byte does not continue the sequence. -/
  | continuation
  /-- The text ends inside the sequence. -/
  | truncated
  deriving DecidableEq, Repr

/-- The words for a reason. -/
def Reason.message : Reason → String
  | .start => "invalid start byte"
  | .continuation => "invalid continuation byte"
  | .truncated => "unexpected end of data"

/-- The first sequence of bytes that is not valid. -/
structure Fault where
  /-- The position of its first byte. -/
  position : Nat
  /-- Its first byte. -/
  byte : UInt8
  /-- Its length. -/
  length : Nat
  reason : Reason
  deriving DecidableEq, Repr

private def hexByte (b : UInt8) : String :=
  String.ofList [Nat.digitChar (b.toNat / 16), Nat.digitChar (b.toNat % 16)]

/-- The words for a fault. -/
def Fault.message (f : Fault) : String :=
  let bytes :=
    if f.length = 1 then "byte 0x" ++ hexByte f.byte ++ " in position " ++ natString f.position
    else
      "bytes in position " ++ natString f.position ++ "-" ++ natString (f.position + f.length - 1)
  "'utf-8' codec can't decode " ++ bytes ++ ": " ++ f.reason.message

/-- A character whose last bytes are still to come. -/
structure Partial where
  /-- The first byte. -/
  byte : UInt8
  /-- The number of bytes seen. -/
  seen : Nat
  /-- The number of bytes to come. -/
  wanted : Nat
  /-- The least and the greatest byte that may come next. -/
  low : UInt8
  high : UInt8
  /-- The bits of the code point so far. -/
  bits : Nat
  deriving DecidableEq, Repr

/-- What the first byte of a longer sequence promises. -/
def lead? (b : UInt8) : Option Partial :=
  if 0xc2 ≤ b && b ≤ 0xdf then some ⟨b, 1, 1, 0x80, 0xbf, b.toNat - 0xc0⟩
  else if b = 0xe0 then some ⟨b, 1, 2, 0xa0, 0xbf, 0⟩
  else if b = 0xed then some ⟨b, 1, 2, 0x80, 0x9f, 0xd⟩
  else if 0xe1 ≤ b && b ≤ 0xef then some ⟨b, 1, 2, 0x80, 0xbf, b.toNat - 0xe0⟩
  else if b = 0xf0 then some ⟨b, 1, 3, 0x90, 0xbf, 0⟩
  else if 0xf1 ≤ b && b ≤ 0xf3 then some ⟨b, 1, 3, 0x80, 0xbf, b.toNat - 0xf0⟩
  else if b = 0xf4 then some ⟨b, 1, 3, 0x80, 0x8f, 4⟩
  else none

/-- Decodes bytes from a position on, given the character that is still incomplete there. -/
def decodeFrom (position : Nat) : Option Partial → List UInt8 → Except Fault Text
  | none, [] => .ok []
  | some p, [] => .error ⟨position - p.seen, p.byte, p.seen, .truncated⟩
  | none, b :: rest =>
    if b < 0x80 then (decodeFrom (position + 1) none rest).map (Char.ofNat b.toNat :: ·)
    else
      match lead? b with
      | some p => decodeFrom (position + 1) (some p) rest
      | none => .error ⟨position, b, 1, .start⟩
  | some p, b :: rest =>
    if p.low ≤ b && b ≤ p.high then
      let bits := 64 * p.bits + (b.toNat - 0x80)
      if p.wanted = 1 then (decodeFrom (position + 1) none rest).map (Char.ofNat bits :: ·)
      else
        decodeFrom (position + 1) (some ⟨p.byte, p.seen + 1, p.wanted - 1, 0x80, 0xbf, bits⟩) rest
    else .error ⟨position - p.seen, p.byte, p.seen, .continuation⟩

/-- Decodes a whole text. -/
def decode (bytes : List UInt8) : Except Fault Text := decodeFrom 0 none bytes

end Utf8

namespace Text

/-- The number of bytes that a text takes in UTF-8. -/
def byteLength (t : Text) : Nat := t.foldl (fun n c ↦ n + c.utf8Size) 0

/-- The text with every line ending, of whatever kind, as a single line feed. -/
def unifyNewlines : Text → Text
  | [] => []
  | '\r' :: '\n' :: t => '\n' :: unifyNewlines t
  | '\r' :: t => '\n' :: unifyNewlines t
  | c :: t => c :: unifyNewlines t

end Text

end Lilac
