import DmaStream.Memory.Bytes

namespace DmaStream.Bytes

/-- The digit for a number below 16. -/
def hexDigit (n : Nat) : Char :=
  if n < 10 then Char.ofNat ('0'.toNat + n) else Char.ofNat ('a'.toNat + (n - 10))

/-- The digits of some bytes, the higher half of each byte first. -/
def toHex (b : ByteArray) : String :=
  b.foldl (fun text x => (text.push (hexDigit (x.toNat / 16))).push (hexDigit (x.toNat % 16))) ""

/-- The number that a digit stands for. -/
def hexValue (c : Char) : Option Nat :=
  if '0' ≤ c ∧ c ≤ '9' then some (c.toNat - '0'.toNat)
  else if 'a' ≤ c ∧ c ≤ 'f' then some (c.toNat - 'a'.toNat + 10)
  else none

/-- The bytes that digits stand for, after those already read. -/
def ofHexDigits (read : ByteArray) : List Char → Option ByteArray
  | [] => some read
  | [_] => none
  | hi :: lo :: rest =>
    match hexValue hi, hexValue lo with
    | some h, some l => ofHexDigits (read.push (UInt8.ofNat (16 * h + l))) rest
    | _, _ => none

/-- Reads what `toHex` writes. -/
def ofHex? (text : String) : Option ByteArray :=
  ofHexDigits ByteArray.empty text.toList

end DmaStream.Bytes
