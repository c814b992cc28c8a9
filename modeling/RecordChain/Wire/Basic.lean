import RecordChain.Text.Utf8

/-!
# The wire format

Values travel as bytes, and their bytes are what is hashed. A number is written with its lowest byte
first; a text or a list starts with its length as a number of four bytes; a value of several fields
is written field by field; a choice starts with one byte that says which variant it is. Nothing is
padded and nothing is optional, so a byte string is the form of at most one value.

`Wire.decode` takes a whole byte string: bytes that are missing and bytes that are left over are both
errors.
-/

namespace RecordChain

/-- Why a byte string is not the form of a value. -/
inductive WireError
  /-- The input ends inside the value. -/
  | unexpectedEnd
  /-- The input goes on after the value. -/
  | leftoverBytes
  /-- A choice starts with a number that no variant has. -/
  | unknownVariant (index : UInt8)
  /-- The bytes of a text are not UTF-8. -/
  | badText (fault : Utf8.Fault)
deriving DecidableEq

/-- The error in words. -/
def WireError.message : WireError → String
  | unexpectedEnd => "Unexpected length of input"
  | leftoverBytes => "Not all bytes read"
  | unknownVariant index => s!"Unexpected variant index: {index.toNat}"
  | badText fault => fault.message

/-- Takes a value off the front of the input. -/
abbrev Reader (α : Type) := StateT (List UInt8) (Except WireError) α

namespace Reader

/-- The next `count` bytes. -/
def take (count : Nat) : Reader (List UInt8) := fun input =>
  let taken := input.take count
  if taken.length = count then .ok (taken, input.drop count) else .error .unexpectedEnd

/-- As many values as asked for. -/
def replicate {α : Type} (reader : Reader α) : Nat → Reader (List α)
  | 0 => pure []
  | n + 1 => do
    let first ← reader
    let rest ← replicate reader n
    pure (first :: rest)

end Reader

/-- The lowest `width` bytes of a number, the lowest first. -/
def littleEndian : Nat → Nat → List UInt8
  | 0, _ => []
  | width + 1, n => UInt8.ofNat n :: littleEndian width (n / 256)

/-- The number that bytes spell, the lowest first. -/
def ofLittleEndian : List UInt8 → Nat
  | [] => 0
  | byte :: rest => byte.toNat + 256 * ofLittleEndian rest

/-- Types with a wire form. -/
class Wire (α : Type) where
  /-- The bytes of a value. -/
  write : α → List UInt8
  /-- Takes a value off the front of the input. -/
  read : Reader α

namespace Wire

/-- The bytes of a value. -/
def encode {α : Type} [Wire α] (value : α) : List UInt8 := write value

/-- The value that a whole byte string stands for. -/
def decode {α : Type} [Wire α] (bytes : List UInt8) : Except WireError α :=
  match (read : Reader α) bytes with
  | .error e => .error e
  | .ok (value, []) => .ok value
  | .ok (_, _ :: _) => .error .leftoverBytes

/-! ## Numbers -/

/-- A number of `width` bytes. -/
def readNumber (width : Nat) : Reader Nat := do
  let bytes ← Reader.take width
  pure (ofLittleEndian bytes)

instance : Wire UInt8 where
  write n := [n]
  read := do pure (UInt8.ofNat (← readNumber 1))

instance : Wire UInt16 where
  write n := littleEndian 2 n.toNat
  read := do pure (UInt16.ofNat (← readNumber 2))

instance : Wire UInt32 where
  write n := littleEndian 4 n.toNat
  read := do pure (UInt32.ofNat (← readNumber 4))

instance : Wire UInt64 where
  write n := littleEndian 8 n.toNat
  read := do pure (UInt64.ofNat (← readNumber 8))

/-! ## Bytes, texts and lists -/

instance {n : Nat} : Wire (Vector UInt8 n) where
  write v := v.toList
  read := fun input =>
    let taken := input.take n
    if h : taken.length = n then .ok (⟨taken.toArray, by simpa using h⟩, input.drop n)
    else .error .unexpectedEnd

instance : Wire String where
  write s :=
    let bytes := s.toUTF8.data.toList
    write (UInt32.ofNat bytes.length) ++ bytes
  read := do
    let count : UInt32 ← read
    let bytes ← Reader.take count.toNat
    match String.fromUTF8? ⟨bytes.toArray⟩ with
    | some s => pure s
    | none => throw (.badText (Utf8.firstFault bytes))

instance {α : Type} [Wire α] : Wire (List α) where
  write xs := write (UInt32.ofNat xs.length) ++ xs.flatMap write
  read := do
    let count : UInt32 ← read
    Reader.replicate read count.toNat

/-- Reads the number of a variant and finds what it stands for. -/
def readVariant {α : Type} (variants : List α) : Reader α := do
  let index : UInt8 ← read
  match variants[index.toNat]? with
  | some variant => pure variant
  | none => throw (.unknownVariant index)

end Wire

end RecordChain
