/-!
# Bytes as Base64 text

The standard alphabet, without padding: three bytes give four characters, and the one or two
bytes left over at the end give two or three.
-/

namespace RecordChain.Base64

/-- The sixty-four characters in order of their value. -/
def alphabet : List Char :=
  "ABCDEFGHIJKLMNOPQRSTUVWXYZabcdefghijklmnopqrstuvwxyz0123456789+/".toList

/-- The character for the lowest six bits of a number. -/
def char (value : Nat) : Char := alphabet.getD (value % 64) 'A'

/-- The characters for the bytes, three bytes at a time. -/
def chars : List UInt8 → List Char
  | [] => []
  | [a] =>
    let n := a.toNat * 16
    [char (n / 64), char n]
  | [a, b] =>
    let n := (a.toNat * 256 + b.toNat) * 4
    [char (n / 4096), char (n / 64), char n]
  | a :: b :: c :: rest =>
    let n := (a.toNat * 256 + b.toNat) * 256 + c.toNat
    char (n / 262144) :: char (n / 4096) :: char (n / 64) :: char n :: chars rest

/-- The text for the bytes. -/
def encode (bytes : List UInt8) : String := String.ofList (chars bytes)

end RecordChain.Base64
