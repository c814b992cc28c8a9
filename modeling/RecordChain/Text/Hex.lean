/-!
# Bytes as hexadecimal text

Two lower-case digits for each byte, the high half first. `decode?` reads such text back and
refuses an odd number of digits and every character that is no digit; it takes capitals too.
-/

namespace RecordChain.Hex

/-- The digits in order of their value. -/
def digits : List Char :=
  ['0', '1', '2', '3', '4', '5', '6', '7', '8', '9', 'a', 'b', 'c', 'd', 'e', 'f']

/-- The digit for a value below sixteen. -/
def digit (value : Nat) : Char := digits.getD value '0'

/-- The value of a digit, if the character is one. -/
def value? (c : Char) : Option Nat :=
  if '0' ≤ c ∧ c ≤ '9' then some (c.toNat - '0'.toNat)
  else if 'a' ≤ c ∧ c ≤ 'f' then some (c.toNat - 'a'.toNat + 10)
  else if 'A' ≤ c ∧ c ≤ 'F' then some (c.toNat - 'A'.toNat + 10)
  else none

/-- The two digits of each byte, in order. -/
def encode (bytes : List UInt8) : String :=
  String.ofList (bytes.flatMap fun b => [digit (b.toNat / 16), digit (b.toNat % 16)])

/-- Reads pairs of digits; `acc` holds the bytes read so far, the last one first. -/
def decodeFrom : List UInt8 → List Char → Option (List UInt8)
  | acc, [] => some acc.reverse
  | _, [_] => none
  | acc, high :: low :: rest =>
    match value? high, value? low with
    | some h, some l => decodeFrom (UInt8.ofNat (16 * h + l) :: acc) rest
    | _, _ => none

/-- The bytes that a text of digit pairs stands for. -/
def decode? (text : String) : Option (List UInt8) :=
  decodeFrom [] text.toList

end RecordChain.Hex
