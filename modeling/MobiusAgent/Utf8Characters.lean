import Mathlib.Data.List.Basic

/-!
# Characters in UTF-8

The width of a character by its first byte, and the bytes that a decoder
reports together where no character is encoded.
-/

namespace MobiusAgent.Utf8Characters

/-- Whether a byte continues a character. -/
def isContinuation (byte : UInt8) : Bool := 0x80 ≤ byte && byte ≤ 0xBF

/-- The bytes of a character that starts with this one; zero if none does. -/
def charWidth (first : UInt8) : Nat :=
  if first ≤ 0x7F then 1
  else if 0xC2 ≤ first && first ≤ 0xDF then 2
  else if 0xE0 ≤ first && first ≤ 0xEF then 3
  else if 0xF0 ≤ first && first ≤ 0xF4 then 4
  else 0

/-- Whether the second byte of a character may be this one. -/
def mayFollow (first second : UInt8) : Bool :=
  if first == 0xE0 then 0xA0 ≤ second && second ≤ 0xBF
  else if first == 0xED then 0x80 ≤ second && second ≤ 0x9F
  else if first == 0xF0 then 0x90 ≤ second && second ≤ 0xBF
  else if first == 0xF4 then 0x80 ≤ second && second ≤ 0x8F
  else isContinuation second

/-- The bytes replaced together where no character is decoded: the longest start of one. -/
def brokenLength : List UInt8 → Nat
  | first :: second :: third :: _ =>
    if charWidth first < 3 || !mayFollow first second then 1
    else if charWidth first == 4 && isContinuation third then 3
    else 2
  | [first, second] => if charWidth first < 3 || !mayFollow first second then 1 else 2
  | _ => 1

/-- The character at the front of some bytes. -/
def decodeChar? (bytes : List UInt8) : Option Char := bytes.toByteArray.utf8DecodeChar? 0

end MobiusAgent.Utf8Characters
