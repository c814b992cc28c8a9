import RecordChain.Text.Hex

/-!
# Block hashes

A block is named by sixteen bytes. Hashes are ordered byte by byte, which is the order of the
big-endian numbers they spell, and the work behind a hash is measured by the zero bits it starts
with.
-/

namespace RecordChain

/-- The name of a block: the first sixteen bytes of the digest of its wire form. -/
structure BlockHash where
  bytes : Vector UInt8 16
deriving DecidableEq

namespace BlockHash

/-- The hash of zeros only, which stands before the first block of a chain. -/
def zero : BlockHash := ⟨Vector.replicate 16 0⟩

instance : Inhabited BlockHash := ⟨zero⟩

/-- The hash made of the first sixteen bytes of a list; bytes that are not there count as zero. -/
def ofBytes (bytes : List UInt8) : BlockHash :=
  let bytes := bytes.toArray
  ⟨Vector.ofFn fun i => bytes.getD i 0⟩

instance : Ord BlockHash := ⟨fun a b => compare a.bytes b.bytes⟩

theorem compare_eq (a b : BlockHash) : compare a b = compare a.bytes b.bytes := rfl

instance : Std.TransOrd BlockHash where
  eq_swap {a b} := show compare a.bytes b.bytes = (compare b.bytes a.bytes).swap from
    Std.OrientedCmp.eq_swap
  isLE_trans {a b c} hab hbc :=
    have hab : (compare a.bytes b.bytes).isLE := hab
    have hbc : (compare b.bytes c.bytes).isLE := hbc
    show (compare a.bytes c.bytes).isLE from Std.TransCmp.isLE_trans hab hbc

instance : Std.LawfulEqOrd BlockHash where
  compare_self {a} := show compare a.bytes a.bytes = .eq from Std.ReflCmp.compare_self
  eq_of_compare {a b} h := by
    have h : compare a.bytes b.bytes = .eq := h
    have bytes_eq : a.bytes = b.bytes := Std.LawfulEqCmp.eq_of_compare h
    cases a
    cases b
    simpa using bytes_eq

/-- Thirty-two hexadecimal digits. -/
def toHex (hash : BlockHash) : String := Hex.encode hash.bytes.toList

end BlockHash

/-- The zero bits a byte starts with, eight for the byte zero. -/
def byteZeroBits (byte : UInt8) : UInt32 :=
  if byte = 0 then 8 else UInt32.ofNat (7 - byte.toNat.log2)

/-- The zero bits that a run of bytes starts with, each byte read from its highest bit. The counter
has 32 bits and starts again from zero when it is full. -/
def leadingZeroBits : List UInt8 → UInt32
  | [] => 0
  | byte :: rest => if byte = 0 then 8 + leadingZeroBits rest else byteZeroBits byte

/-- The zero bits a hash starts with. -/
def BlockHash.zeroBits (hash : BlockHash) : Nat := (leadingZeroBits hash.bytes.toList).toNat

end RecordChain
