/-!
# SHA-256

The hash takes its input byte by byte: a `Hasher` holds the chaining state after the full blocks
seen so far and the bytes of the block that is not full yet. So feeding a message in pieces is the
same as feeding it at once (`update_append`), and a hasher that has consumed the unchanging head of
many messages can be kept and continued for each of them.
-/

namespace RecordChain.Sha256

/-- The eight words that are carried from block to block. -/
structure State where
  a : UInt32
  b : UInt32
  c : UInt32
  d : UInt32
  e : UInt32
  f : UInt32
  g : UInt32
  h : UInt32
deriving DecidableEq

/-- The state before the first block. -/
def State.initial : State where
  a := 0x6a09e667
  b := 0xbb67ae85
  c := 0x3c6ef372
  d := 0xa54ff53a
  e := 0x510e527f
  f := 0x9b05688c
  g := 0x1f83d9ab
  h := 0x5be0cd19

/-- The constant added in each of the sixty-four rounds. -/
def roundConstants : Array UInt32 := #[
    0x428a2f98, 0x71374491, 0xb5c0fbcf, 0xe9b5dba5, 0x3956c25b, 0x59f111f1, 0x923f82a4, 0xab1c5ed5,
    0xd807aa98, 0x12835b01, 0x243185be, 0x550c7dc3, 0x72be5d74, 0x80deb1fe, 0x9bdc06a7, 0xc19bf174,
    0xe49b69c1, 0xefbe4786, 0x0fc19dc6, 0x240ca1cc, 0x2de92c6f, 0x4a7484aa, 0x5cb0a9dc, 0x76f988da,
    0x983e5152, 0xa831c66d, 0xb00327c8, 0xbf597fc7, 0xc6e00bf3, 0xd5a79147, 0x06ca6351, 0x14292967,
    0x27b70a85, 0x2e1b2138, 0x4d2c6dfc, 0x53380d13, 0x650a7354, 0x766a0abb, 0x81c2c92e, 0x92722c85,
    0xa2bfe8a1, 0xa81a664b, 0xc24b8b70, 0xc76c51a3, 0xd192e819, 0xd6990624, 0xf40e3585, 0x106aa070,
    0x19a4c116, 0x1e376c08, 0x2748774c, 0x34b0bcb5, 0x391c0cb3, 0x4ed8aa4a, 0x5b9cca4f, 0x682e6ff3,
    0x748f82ee, 0x78a5636f, 0x84c87814, 0x8cc70208, 0x90befffa, 0xa4506ceb, 0xbef9a3f7, 0xc67178f2]

/-- Rotates a word to the right. -/
@[inline]
def rotateRight (x : UInt32) (n : UInt32) : UInt32 := (x >>> n) ||| (x <<< (32 - n))

/-- One round, with the sum of its constant and its message word. -/
@[inline]
def State.round (s : State) (k : UInt32) : State :=
  let mix := rotateRight s.e 6 ^^^ rotateRight s.e 11 ^^^ rotateRight s.e 25
  let choice := (s.e &&& s.f) ^^^ (~~~s.e &&& s.g)
  let first := s.h + mix + choice + k
  let spread := rotateRight s.a 2 ^^^ rotateRight s.a 13 ^^^ rotateRight s.a 22
  let majority := (s.a &&& s.b) ^^^ (s.a &&& s.c) ^^^ (s.b &&& s.c)
  ⟨first + (spread + majority), s.a, s.b, s.c, s.d + first, s.e, s.f, s.g⟩

/-- The big-endian word at byte offset `i` of a block. -/
@[inline]
def wordAt (block : ByteArray) (i : Nat) : UInt32 :=
  let byte (k : Nat) : UInt32 := (block.get! (i + k)).toUInt32
  (byte 0 <<< 24) ||| (byte 1 <<< 16) ||| (byte 2 <<< 8) ||| byte 3

/-- The last `n` of a block's sixteen words, pushed behind the ones before them. -/
def loadWords (block : ByteArray) : Nat → Array UInt32 → Array UInt32
  | 0, words => words
  | n + 1, words => loadWords block n (words.push (wordAt block (4 * (15 - n))))

/-- Extends the message schedule by `n` words, each mixed from four earlier ones. -/
def extendWords : Nat → Array UInt32 → Array UInt32
  | 0, words => words
  | n + 1, words =>
    let size := words.size
    let x := words.getD (size - 15) 0
    let y := words.getD (size - 2) 0
    let small := rotateRight x 7 ^^^ rotateRight x 18 ^^^ (x >>> 3)
    let large := rotateRight y 17 ^^^ rotateRight y 19 ^^^ (y >>> 10)
    extendWords n
      (words.push (words.getD (size - 16) 0 + small + words.getD (size - 7) 0 + large))

/-- The sixty-four words that the rounds of one block consume. -/
def schedule (block : ByteArray) : Array UInt32 :=
  extendWords 48 (loadWords block 16 (Array.emptyWithCapacity 64))

/-- The last `n` of the sixty-four rounds. -/
def rounds (words : Array UInt32) : Nat → State → State
  | 0, s => s
  | n + 1, s =>
    rounds words n (s.round (roundConstants.getD (63 - n) 0 + words.getD (63 - n) 0))

/-- The state after one more block of sixty-four bytes. -/
def State.absorb (s : State) (block : ByteArray) : State :=
  let t := rounds (schedule block) 64 s
  ⟨s.a + t.a, s.b + t.b, s.c + t.c, s.d + t.d, s.e + t.e, s.f + t.f, s.g + t.g, s.h + t.h⟩

/-- A hash computation under way. -/
structure Hasher where
  /-- The state after every full block. -/
  state : State
  /-- The bytes after the last full block, fewer than sixty-four. -/
  pending : ByteArray
  /-- The number of bytes fed so far. -/
  length : Nat

/-- A hasher that has consumed nothing. -/
def Hasher.initial : Hasher := ⟨.initial, ByteArray.empty, 0⟩

/-- Feeds one byte. -/
def Hasher.feed (hasher : Hasher) (byte : UInt8) : Hasher :=
  match hasher with
  | ⟨state, pending, length⟩ =>
    let pending := pending.push byte
    if pending.size = 64 then ⟨state.absorb pending, ByteArray.empty, length + 1⟩
    else ⟨state, pending, length + 1⟩

/-- Feeds a run of bytes, in order. -/
def Hasher.update (hasher : Hasher) (bytes : List UInt8) : Hasher :=
  bytes.foldl Hasher.feed hasher

/-- Feeding two runs after another is feeding the two as one. -/
theorem Hasher.update_append (hasher : Hasher) (first second : List UInt8) :
    hasher.update (first ++ second) = (hasher.update first).update second :=
  List.foldl_append

@[simp]
theorem Hasher.update_nil (hasher : Hasher) : hasher.update [] = hasher := rfl

/-- The eight bytes of a number below `2 ^ 64`, the highest first. -/
def bigEndian64 (n : UInt64) : List UInt8 :=
  [(n >>> 56).toUInt8, (n >>> 48).toUInt8, (n >>> 40).toUInt8, (n >>> 32).toUInt8,
    (n >>> 24).toUInt8, (n >>> 16).toUInt8, (n >>> 8).toUInt8, n.toUInt8]

/-- What follows a message of the given length in bytes: a one bit, zeros up to eight bytes before
the end of a block, and the length in bits. -/
def padding (length : Nat) : List UInt8 :=
  0x80 :: (List.replicate ((119 - length % 64) % 64) 0 ++ bigEndian64 (UInt64.ofNat (8 * length)))

/-- The words of a state in order. -/
def State.words (s : State) : List UInt32 := [s.a, s.b, s.c, s.d, s.e, s.f, s.g, s.h]

/-- The four bytes of a word, the highest first. -/
def wordBytes (w : UInt32) : List UInt8 :=
  [(w >>> 24).toUInt8, (w >>> 16).toUInt8, (w >>> 8).toUInt8, w.toUInt8]

/-- The digest of everything fed so far: thirty-two bytes. -/
def Hasher.finish (hasher : Hasher) : List UInt8 :=
  (hasher.update (padding hasher.length)).state.words.flatMap wordBytes

/-- The digest of a message. -/
def digest (message : List UInt8) : List UInt8 := (Hasher.initial.update message).finish

end RecordChain.Sha256
