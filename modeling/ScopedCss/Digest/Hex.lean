/-
Bytes in hexadecimal: written in lowercase, read in either case with white space between bytes.
-/
import ScopedCss.Text.Quoted

namespace ScopedCss.Hex

/-- Two digits a byte. -/
def encode (bytes : List UInt8) : Text :=
  bytes.flatMap fun b => [Text.hexDigit (b.toNat / 16), Text.hexDigit b.toNat]

def digitValue? (c : Char) : Option Nat :=
  if c.isDigit then some (c.toNat - 0x30)
  else if 'a' ≤ c && c ≤ 'f' then some (c.toNat - 0x61 + 10)
  else if 'A' ≤ c && c ≤ 'F' then some (c.toNat - 0x41 + 10)
  else none

/-- The white space of ASCII. -/
def isSpace (c : Char) : Bool := c = ' ' || ('\x09' ≤ c && c ≤ '\x0d')

/-- Reads pairs of digits; white space may stand before and after each pair. -/
def decode? : Text → Option (List UInt8)
  | [] => some []
  | [c] => if isSpace c then some [] else none
  | c :: d :: t =>
    if isSpace c then decode? (d :: t)
    else do
      let high ← digitValue? c
      let low ← digitValue? d
      let bytes ← decode? t
      return (16 * high + low).toUInt8 :: bytes

end ScopedCss.Hex
