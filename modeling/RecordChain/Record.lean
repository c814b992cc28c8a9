/-!
# Records

A file is a sequence of records of one fixed size. Shorter content is padded with zeros, so a
record does not tell how long its content was: `used` counts up to the last byte that is not zero.
-/

namespace RecordChain

/-- The number of bytes in a record. -/
def recordSize : Nat := 512

/-- One record of a file. -/
structure Record where
  bytes : Vector UInt8 recordSize
deriving DecidableEq

namespace Record

/-- The record of zeros only. -/
def empty : Record := ⟨Vector.replicate recordSize 0⟩

instance : Inhabited Record := ⟨empty⟩

/-- The record that starts with the given bytes and goes on with zeros. Bytes past the size of a
record are left out. -/
def ofBytes (bytes : List UInt8) : Record :=
  let bytes := bytes.toArray
  ⟨Vector.ofFn fun i => bytes.getD i 0⟩

/-- The bytes up to the last one that is not zero. -/
def content (record : Record) : List UInt8 :=
  (record.bytes.toList.reverse.dropWhile (· = 0)).reverse

/-- The number of bytes up to the last one that is not zero. -/
def used (record : Record) : Nat := record.content.length

/-- A diagnostic text that shows the size of the content and not the content. -/
def describe (record : Record) : String := s!"RecordData({record.used} bytes used)"

end Record

end RecordChain
