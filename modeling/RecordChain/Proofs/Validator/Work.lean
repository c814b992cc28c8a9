import Mathlib.Algebra.GroupWithZero.Nat
import Mathlib.Data.Nat.Size
import RecordChain.Block.Hash

/-!
# Work as a number

A difficulty asks for zero bits at the start of a hash. What it bounds is the number that the bytes
of the hash spell, the first byte being the highest, and each further zero bit halves the bound. If the
count were off by one at the end of a byte, the work would be halved or doubled unnoticed.

* **`bigEndian`**: the number that bytes spell.
* **`idleBits`**, **`toNat_leadingZeroBits`**: the bits that the number leaves unused are those that
  are counted, up to a multiple of what the counter holds.
* **`Measured`**, **`measured_iff`**: counting zero bits compares the number with powers of two
  exactly if fewer than 2 ^ 29 bytes of zeros stand at the start. `not_measured_zeros` is a full counter.
* **`Block.meets_iff`**: what a difficulty asks of a block. Its hash has sixteen bytes, so there the
  counter never fills up.
-/

namespace RecordChain

/-- The number that bytes spell, from the highest byte to the lowest. -/
def bigEndian : List UInt8 → Nat
  | [] => 0
  | byte :: rest => byte.toNat * 2 ^ (8 * rest.length) + bigEndian rest

/-- No number needs more bits than its bytes have. -/
theorem bigEndian_lt (bytes : List UInt8) : bigEndian bytes < 2 ^ (8 * bytes.length) := by
  induction bytes with
  | nil => exact Nat.one_pos
  | cons byte rest ih =>
    have hbyte := byte.toNat_lt
    rw [bigEndian, List.length_cons]
    calc byte.toNat * 2 ^ (8 * rest.length) + bigEndian rest
        < byte.toNat * 2 ^ (8 * rest.length) + 2 ^ (8 * rest.length) := Nat.add_lt_add_left ih _
      _ = (byte.toNat + 1) * 2 ^ (8 * rest.length) := (Nat.succ_mul _ _).symm
      _ ≤ 2 ^ 8 * 2 ^ (8 * rest.length) := Nat.mul_le_mul_right _ hbyte
      _ = 2 ^ (8 * (rest.length + 1)) := by rw [← Nat.pow_add]; congr 1; omega

theorem bigEndian_eq_zero_iff (bytes : List UInt8) :
    bigEndian bytes = 0 ↔ ∀ byte ∈ bytes, byte = 0 := by
  induction bytes with
  | nil => simp [bigEndian]
  | cons byte rest ih =>
    have hpow : 2 ^ (8 * rest.length) ≠ 0 := Nat.ne_of_gt (Nat.two_pow_pos _)
    rw [bigEndian, Nat.add_eq_zero_iff, ih, List.forall_mem_cons, Nat.mul_eq_zero, or_iff_left hpow,
      ← UInt8.toNat_inj, UInt8.toNat_zero]

/-! ## Binary digits -/

/-- A number below a power of two does not change the digits above it. -/
theorem size_mul_two_pow_add {high low width : Nat} (hhigh : 0 < high) (hlow : low < 2 ^ width) :
    (high * 2 ^ width + low).size = high.size + width := by
  apply Nat.le_antisymm
  · rw [Nat.size_le, Nat.pow_add]
    calc high * 2 ^ width + low
        < (high + 1) * 2 ^ width := by rw [Nat.succ_mul]; exact Nat.add_lt_add_left hlow _
      _ ≤ 2 ^ high.size * 2 ^ width := Nat.mul_le_mul_right _ high.lt_size_self
  · obtain ⟨digits, hdigits⟩ := Nat.exists_eq_add_one.mpr (Nat.size_pos.mpr hhigh)
    have hle : 2 ^ digits ≤ high := Nat.lt_size.mp (by omega)
    have hlt : digits + width < (high * 2 ^ width + low).size := by
      rw [Nat.lt_size, Nat.pow_add]
      exact Nat.le_add_right_of_le (Nat.mul_le_mul_right _ hle)
    omega

theorem toNat_byte_ne_zero {byte : UInt8} (h : byte ≠ 0) : byte.toNat ≠ 0 :=
  fun hzero => h (UInt8.toNat_inj.mp hzero)

/-- The zero bits of a byte and the digits of its number are its eight bits. -/
theorem byteZeroBits_add_size {byte : UInt8} (h : byte ≠ 0) :
    (byteZeroBits byte).toNat + byte.toNat.size = 8 := by
  have hne := toNat_byte_ne_zero h
  have hsize : byte.toNat.size = byte.toNat.log2 + 1 := by
    apply Nat.le_antisymm
    · exact Nat.size_le.mpr Nat.lt_log2_self
    · exact Nat.lt_size.mpr (Nat.log2_self_le hne)
  have hlog : byte.toNat.log2 < 8 := (Nat.log2_lt hne).mpr byte.toNat_lt
  rw [byteZeroBits, if_neg h, UInt32.toNat_ofNat', hsize]
  omega

/-! ## The counter -/

/-- The bits above the highest digit of the number that bytes spell. -/
def idleBits (bytes : List UInt8) : Nat := 8 * bytes.length - (bigEndian bytes).size

/-- The bits above the highest digit and the digits fill the bytes. -/
theorem idleBits_add_size (bytes : List UInt8) :
    idleBits bytes + (bigEndian bytes).size = 8 * bytes.length :=
  Nat.sub_add_cancel (Nat.size_le.mpr (bigEndian_lt bytes))

theorem idleBits_le (bytes : List UInt8) : idleBits bytes ≤ 8 * bytes.length := Nat.sub_le _ _

/-- A byte of zeros in front adds eight bits. -/
theorem idleBits_zero_cons (rest : List UInt8) : idleBits (0 :: rest) = 8 + idleBits rest := by
  have hfill := idleBits_add_size rest
  rw [idleBits, bigEndian, UInt8.toNat_zero, Nat.zero_mul, Nat.zero_add, List.length_cons]
  omega

/-- In front of any other byte there are only the zero bits of that byte. -/
theorem idleBits_cons {byte : UInt8} (h : byte ≠ 0) (rest : List UInt8) :
    idleBits (byte :: rest) = (byteZeroBits byte).toNat := by
  have hpos := Nat.pos_of_ne_zero (toNat_byte_ne_zero h)
  have hfill := byteZeroBits_add_size h
  rw [idleBits, bigEndian, size_mul_two_pow_add hpos (bigEndian_lt rest), List.length_cons]
  omega

/-- **The counter shows the bits above the highest digit**, up to a multiple of what it holds. -/
theorem toNat_leadingZeroBits (bytes : List UInt8) :
    (leadingZeroBits bytes).toNat = idleBits bytes % 2 ^ 32 := by
  induction bytes with
  | nil => rfl
  | cons byte rest ih =>
    rw [leadingZeroBits]
    split
    · next hzero =>
      rw [hzero, idleBits_zero_cons, UInt32.toNat_add, ih, Nat.add_mod_mod]
      rfl
    · next hbyte =>
      rw [idleBits_cons hbyte, Nat.mod_eq_of_lt (UInt32.toNat_lt _)]

/-- Each byte of zeros at the start makes for eight of the bits, and the next byte for fewer. -/
theorem length_takeWhile_zero (bytes : List UInt8) :
    (bytes.takeWhile (· = 0)).length = idleBits bytes / 8 := by
  induction bytes with
  | nil => rfl
  | cons byte rest ih =>
    by_cases hbyte : byte = 0
    · rw [hbyte, idleBits_zero_cons, List.takeWhile_cons_of_pos (by simp), List.length_cons, ih]
      omega
    · have hfill := byteZeroBits_add_size hbyte
      have hdigits := Nat.size_pos.mpr (Nat.pos_of_ne_zero (toNat_byte_ne_zero hbyte))
      rw [idleBits_cons hbyte, List.takeWhile_cons_of_neg (by simpa using hbyte), List.length_nil]
      omega

/-- The counter fills up with 2 ^ 29 bytes of zeros, and not before. -/
theorem idleBits_lt_iff (bytes : List UInt8) :
    idleBits bytes < 2 ^ 32 ↔ (bytes.takeWhile (· = 0)).length < 2 ^ 29 := by
  rw [length_takeWhile_zero]
  omega

/-! ## Zero bits and powers of two -/

/-- The zero bits that are counted measure bytes as a number. -/
structure Measured (bytes : List UInt8) : Prop where
  /-- Bytes start with so many zero bits if what they spell lies below the power of two that the
  remaining bits reach. -/
  le_iff : ∀ difficulty ≤ 8 * bytes.length, difficulty ≤ (leadingZeroBits bytes).toNat
    ↔ bigEndian bytes < 2 ^ (8 * bytes.length - difficulty)
  /-- There are no more zero bits than bits. -/
  le : (leadingZeroBits bytes).toNat ≤ 8 * bytes.length
  /-- All bits are zero bits only in bytes of zeros. -/
  eq_iff : (leadingZeroBits bytes).toNat = 8 * bytes.length ↔ ∀ byte ∈ bytes, byte = 0

theorem idleBits_eq_iff (bytes : List UInt8) :
    idleBits bytes = 8 * bytes.length ↔ ∀ byte ∈ bytes, byte = 0 := by
  have hfill := idleBits_add_size bytes
  rw [← bigEndian_eq_zero_iff, ← Nat.size_eq_zero]
  omega

theorem le_idleBits_iff {bytes : List UInt8} {difficulty : Nat}
    (h : difficulty ≤ 8 * bytes.length) :
    difficulty ≤ idleBits bytes ↔ bigEndian bytes < 2 ^ (8 * bytes.length - difficulty) := by
  have hfill := idleBits_add_size bytes
  rw [← Nat.size_le]
  omega

/-- As long as the counter is not full it shows what it counts. -/
theorem Measured.of_lt {bytes : List UInt8} (h : idleBits bytes < 2 ^ 32) : Measured bytes := by
  have hcount : (leadingZeroBits bytes).toNat = idleBits bytes :=
    (toNat_leadingZeroBits bytes).trans (Nat.mod_eq_of_lt h)
  constructor
  · exact fun difficulty hle => hcount ▸ le_idleBits_iff hle
  · exact hcount ▸ idleBits_le bytes
  · exact hcount ▸ idleBits_eq_iff bytes

/-- A counter that shows the bits above the highest digit has not been full. -/
theorem Measured.lt {bytes : List UInt8} (h : Measured bytes) : idleBits bytes < 2 ^ 32 := by
  -- The bits above the highest digit are themselves a difficulty that the bytes have to reach.
  have hreached := (h.le_iff _ (idleBits_le bytes)).mpr
    ((le_idleBits_iff (idleBits_le bytes)).mp (Nat.le_refl _))
  exact Nat.lt_of_le_of_lt hreached (UInt32.toNat_lt _)

/-- **Leading zero bits measure bytes as a number, unless the counter fills up.** That they do so
depends on the bytes of zeros at the start alone, and not on the length. -/
theorem measured_iff (bytes : List UInt8) :
    Measured bytes ↔ (bytes.takeWhile (· = 0)).length < 2 ^ 29 := by
  rw [← idleBits_lt_iff]
  exact ⟨Measured.lt, Measured.of_lt⟩

theorem takeWhile_zeros (count : Nat) :
    (List.replicate count (0 : UInt8)).takeWhile (· = 0) = List.replicate count 0 := by
  rw [List.takeWhile_replicate, if_pos (by simp)]

/-- With 2 ^ 29 bytes of zeros the counter no longer shows the zero bits that there are. -/
theorem not_measured_zeros : ¬ Measured (List.replicate (2 ^ 29) 0) := by
  intro h
  have hlt := (idleBits_lt_iff _).mp h.lt
  rw [takeWhile_zeros, List.length_replicate] at hlt
  exact Nat.lt_irrefl _ hlt

/-- Sixteen has five digits. In two bytes eleven zero bits stand before them, past the end of the
first byte. -/
example : bigEndian [0x00, 0x10] = 16 ∧ leadingZeroBits [0x00, 0x10] = 11 := by decide

/-- A block shows the work of a difficulty if its hash as a number lies below a bound that each zero
bit halves. Nothing is enough for more bits than a hash has. -/
theorem Block.meets_iff (block : Block) (difficulty : Nat) :
    block.meets difficulty
      ↔ difficulty ≤ 128 ∧ bigEndian block.hash.bytes.toList < 2 ^ (128 - difficulty) := by
  have hlength : block.hash.bytes.toList.length = 16 := Vector.length_toList
  have hidle := idleBits_le block.hash.bytes.toList
  have hmeasured : Measured block.hash.bytes.toList := .of_lt (by omega)
  have hle := hmeasured.le
  have hmeasure := hmeasured.le_iff difficulty
  rw [hlength] at hmeasure hle
  rw [meets, decide_eq_true_iff, BlockHash.zeroBits]
  constructor
  · intro h
    have hbits := Nat.le_trans h hle
    exact ⟨hbits, (hmeasure hbits).mp h⟩
  · rintro ⟨hbits, hlt⟩
    exact (hmeasure hbits).mpr hlt

end RecordChain
