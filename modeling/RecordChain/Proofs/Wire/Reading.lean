import Mathlib.Algebra.GroupWithZero.Nat
import RecordChain.Wire.Basic

/-!
# Readers take exactly what is written

A reader and the bytes of a value are written apart from each other. That they fit together is one
equivalence: a reader takes a value off an input if and only if the input starts with the bytes of that
value. From left to right it says that nothing malformed is accepted, and from right to left that
everything well-formed is, whatever follows it.

* **`Reader.Takes`**: the equivalence, for one reader and one way to write.
* **`Reader.bind_eq_ok_iff`**: readers one after the other. With it, what a reader of several fields
  takes is read off what its parts take.
* **`Wire.decode_eq_ok_iff`**: whole byte strings.
* **`Wire.eq_of_append_eq`**: no form is the beginning of another.
-/

namespace RecordChain

namespace Reader

variable {α β : Type}

/-- A reader takes off the front of an input the values that fit, and these where their form stands. -/
def Takes (reader : Reader α) (form : α → List UInt8) (fits : α → Prop) : Prop :=
  ∀ input value rest,
    reader input = .ok (value, rest) ↔ fits value ∧ input = form value ++ rest

/-- Two readers in a row succeed if the second succeeds on what the first has left. -/
theorem bind_eq_ok_iff {first : Reader α} {next : α → Reader β} {input : List UInt8}
    {result : β × List UInt8} :
    (first >>= next) input = .ok result
      ↔ ∃ value rest, first input = .ok (value, rest) ∧ next value rest = .ok result := by
  change (first input >>= fun taken => next taken.1 taken.2) = .ok result ↔ _
  cases first input with
  | error e => simp [bind, Except.bind]
  | ok taken =>
    constructor
    · exact fun h => ⟨taken.1, taken.2, rfl, h⟩
    · rintro ⟨value, rest, htaken, h⟩
      cases htaken
      exact h

theorem pure_eq_ok_iff {value : α} {input : List UInt8} {result : α × List UInt8} :
    (pure value : Reader α) input = .ok result ↔ (value, input) = result := by
  change Except.ok (value, input) = .ok result ↔ _
  simp

/-- If the first of two readers succeeds, the second decides. -/
theorem bind_of_ok {first : Reader α} {next : α → Reader β} {input rest : List UInt8} {value : α}
    (h : first input = .ok (value, rest)) : (first >>= next) input = next value rest := by
  change (first input >>= fun taken => next taken.1 taken.2) = _
  rw [h]
  rfl

/-- If the first of two readers fails, both do. -/
theorem bind_of_error {first : Reader α} {next : α → Reader β} {input : List UInt8} {e : WireError}
    (h : first input = .error e) : (first >>= next) input = .error e := by
  change (first input >>= fun taken => next taken.1 taken.2) = .error e
  rw [h]
  rfl

/-- To take so many bytes is to read any byte string of that length. -/
theorem takes_take (count : Nat) : (take count).Takes id (·.length = count) := by
  intro input bytes rest
  unfold take
  dsimp only [id]
  constructor
  · intro h
    split at h
    · next hlength =>
      cases h
      exact ⟨hlength, (List.take_append_drop count input).symm⟩
    · cases h
  · rintro ⟨rfl, rfl⟩
    rw [List.take_left', List.drop_left', if_pos rfl] <;> rfl

/-- As many values as asked for are taken from their forms, one after the other. -/
theorem takes_replicate {reader : Reader α} {form : α → List UInt8} {fits : α → Prop}
    (h : reader.Takes form fits) (count : Nat) :
    (replicate reader count).Takes (·.flatMap form)
      fun values => values.length = count ∧ ∀ value ∈ values, fits value := by
  induction count with
  | zero =>
    intro input values rest
    rw [replicate, pure_eq_ok_iff, Prod.mk.injEq]
    constructor
    · rintro ⟨rfl, rfl⟩
      exact ⟨⟨rfl, by simp⟩, rfl⟩
    · rintro ⟨⟨hlength, -⟩, rfl⟩
      rw [List.eq_nil_of_length_eq_zero hlength]
      exact ⟨rfl, rfl⟩
  | succ count ih =>
    intro input values rest
    simp only [replicate, bind_eq_ok_iff, pure_eq_ok_iff, Prod.mk.injEq, h _ _ _, ih _ _ _]
    constructor
    · rintro ⟨first, middle, ⟨hfirst, rfl⟩, others, last, ⟨⟨rfl, hothers⟩, rfl⟩, rfl, rfl⟩
      refine ⟨⟨rfl, ?_⟩, by simp⟩
      intro value hvalue
      rcases List.mem_cons.mp hvalue with rfl | hmem
      · exact hfirst
      · exact hothers value hmem
    · rintro ⟨⟨hlength, hfits⟩, rfl⟩
      obtain ⟨first, others, rfl⟩ := List.exists_cons_of_length_eq_add_one hlength
      refine ⟨first, others.flatMap form ++ rest, ⟨hfits first List.mem_cons_self, by simp⟩, others,
        rest, ⟨⟨Nat.succ.inj hlength, ?_⟩, rfl⟩, rfl, rfl⟩
      exact fun value hvalue => hfits value (List.mem_cons_of_mem _ hvalue)

end Reader

/-! ## Numbers -/

/-- A number takes as many bytes as were asked for. -/
@[simp] theorem length_littleEndian (width n : Nat) : (littleEndian width n).length = width := by
  induction width generalizing n with
  | zero => rfl
  | succ width ih => rw [littleEndian, List.length_cons, ih]

/-- Only the lowest bytes of a number are written. -/
theorem ofLittleEndian_littleEndian (width n : Nat) :
    ofLittleEndian (littleEndian width n) = n % 256 ^ width := by
  induction width generalizing n with
  | zero => rw [littleEndian, ofLittleEndian, Nat.pow_zero, Nat.mod_one]
  | succ width ih =>
    have hpow : 256 ^ (width + 1) = 256 * 256 ^ width := Nat.pow_succ'
    rw [littleEndian, ofLittleEndian, ih, UInt8.toNat_ofNat', hpow]
    exact Nat.mod_mul.symm

/-- Bytes hold no more than as many digits to the base of 256 do. -/
theorem ofLittleEndian_lt (bytes : List UInt8) : ofLittleEndian bytes < 256 ^ bytes.length := by
  induction bytes with
  | nil => exact Nat.one_pos
  | cons byte rest ih =>
    have hbyte := byte.toNat_lt
    rw [ofLittleEndian, List.length_cons, Nat.pow_succ']
    omega

/-- Writing the number of some bytes gives the bytes back. -/
theorem littleEndian_ofLittleEndian (bytes : List UInt8) :
    littleEndian bytes.length (ofLittleEndian bytes) = bytes := by
  induction bytes with
  | nil => rfl
  | cons byte rest ih =>
    have hbyte := byte.toNat_lt
    have hlow : UInt8.ofNat (byte.toNat + 256 * ofLittleEndian rest) = byte := by
      rw [← UInt8.toNat_inj, UInt8.toNat_ofNat']
      omega
    have hhigh : (byte.toNat + 256 * ofLittleEndian rest) / 256 = ofLittleEndian rest := by omega
    rw [ofLittleEndian, List.length_cons, littleEndian, hlow, hhigh, ih]

namespace Wire

open Reader

/-- Reading a number takes what writing it puts there. -/
theorem takes_readNumber (width : Nat) :
    (readNumber width).Takes (littleEndian width) (· < 256 ^ width) := by
  intro input n rest
  simp only [readNumber, bind_eq_ok_iff, pure_eq_ok_iff, Prod.mk.injEq, takes_take _ _ _ _, id]
  constructor
  · rintro ⟨bytes, _, ⟨rfl, rfl⟩, rfl, rfl⟩
    exact ⟨ofLittleEndian_lt bytes, by rw [littleEndian_ofLittleEndian]⟩
  · rintro ⟨hlt, rfl⟩
    refine ⟨littleEndian width n, rest, ⟨length_littleEndian width n, rfl⟩, ?_, rfl⟩
    rw [ofLittleEndian_littleEndian, Nat.mod_eq_of_lt hlt]

/-- The reader of a type takes what is written of it. -/
abbrev Exact (α : Type) [Wire α] (fits : α → Prop) : Prop :=
  (read : Reader α).Takes write fits

/-- A type whose values are numbers of some width is exact if its numbers are read back. -/
theorem takes_number {α : Type} (width : Nat) (toNat : α → Nat) (ofNat : Nat → α)
    (hlt : ∀ value, toNat value < 256 ^ width) (hleft : ∀ value, ofNat (toNat value) = value)
    (hright : ∀ n, n < 256 ^ width → toNat (ofNat n) = n) :
    Takes (do pure (ofNat (← readNumber width))) (fun value => littleEndian width (toNat value))
      fun _ => True := by
  intro input value rest
  simp only [bind_eq_ok_iff, pure_eq_ok_iff, Prod.mk.injEq, takes_readNumber _ _ _ _, true_and]
  constructor
  · rintro ⟨n, _, ⟨hn, rfl⟩, rfl, rfl⟩
    rw [hright n hn]
  · rintro rfl
    exact ⟨toNat value, rest, ⟨hlt value, rfl⟩, hleft value, rfl⟩

theorem exact_uInt8 : Exact UInt8 fun _ => True := by
  have h := takes_number 1 UInt8.toNat UInt8.ofNat UInt8.toNat_lt (fun _ => UInt8.ofNat_toNat)
    fun n hn => UInt8.toNat_ofNat_of_lt' hn
  have hform : (fun value : UInt8 => littleEndian 1 value.toNat) = fun value => [value] := by
    funext value
    simp [littleEndian]
  rwa [hform] at h

/-- Numbers of 16 bits are read as they were written, and only what was written is read. -/
theorem exact_uInt16 : Exact UInt16 fun _ => True :=
  takes_number 2 UInt16.toNat UInt16.ofNat UInt16.toNat_lt (fun _ => UInt16.ofNat_toNat)
    fun _ hn => UInt16.toNat_ofNat_of_lt' hn

theorem exact_uInt32 : Exact UInt32 fun _ => True :=
  takes_number 4 UInt32.toNat UInt32.ofNat UInt32.toNat_lt (fun _ => UInt32.ofNat_toNat)
    fun _ hn => UInt32.toNat_ofNat_of_lt' hn

theorem exact_uInt64 : Exact UInt64 fun _ => True :=
  takes_number 8 UInt64.toNat UInt64.ofNat UInt64.toNat_lt (fun _ => UInt64.ofNat_toNat)
    fun _ hn => UInt64.toNat_ofNat_of_lt' hn

/-! ## Bytes, texts and lists -/

/-- A byte string of fixed length is read as it was written. -/
theorem exact_vector (n : Nat) : Exact (Vector UInt8 n) fun _ => True := by
  intro input value rest
  change (if h : (input.take n).length = n then _ else _) = _ ↔ True ∧ input = value.toList ++ rest
  rw [true_and]
  constructor
  · intro h
    split at h
    · cases h
      simp
    · cases h
  · rintro rfl
    have htake : (value.toList ++ rest).take n = value.toList := by simp
    have hdrop : (value.toList ++ rest).drop n = rest := by simp
    rw [dif_pos (by rw [htake, Vector.length_toList]), hdrop]
    congr 2
    exact Vector.toList_inj.mp htake

/-- The bytes of a text. -/
def textBytes (s : String) : List UInt8 := s.toUTF8.data.toList

/-- A length that a number of four bytes can tell. -/
def Short (length : Nat) : Prop := length < UInt32.size

/-- The bytes of a text are those that are read as this text. -/
theorem fromUTF8?_eq_some_iff {bytes : List UInt8} {s : String} :
    String.fromUTF8? ⟨bytes.toArray⟩ = some s ↔ textBytes s = bytes := by
  unfold String.fromUTF8?
  constructor
  · intro h
    split at h
    · cases h
      rfl
    · cases h
  · rintro rfl
    exact dif_pos s.isValidUTF8

/-- A text is its length, then so many bytes, which have to be UTF-8. -/
theorem read_string : read = (do
    let count : UInt32 ← read
    let bytes ← Reader.take count.toNat
    match String.fromUTF8? ⟨bytes.toArray⟩ with
      | some s => pure s
      | none => throw (.badText (Utf8.firstFault bytes)) : Reader String) :=
  rfl

/-- A text fits if its length can be told. -/
theorem exact_string : Exact String fun s => Short (textBytes s).length := by
  intro input s rest
  change _ ↔ _ ∧ input = write (UInt32.ofNat (textBytes s).length) ++ textBytes s ++ rest
  rw [read_string]
  simp only [bind_eq_ok_iff, exact_uInt32 _ _ _, takes_take _ _ _ _, true_and, id]
  constructor
  · rintro ⟨count, _, rfl, bytes, last, ⟨hlength, rfl⟩, h⟩
    cases htext : String.fromUTF8? ⟨bytes.toArray⟩ with
    | none =>
      rw [htext] at h
      cases h
    | some found =>
      rw [htext, pure_eq_ok_iff] at h
      cases h
      obtain rfl := fromUTF8?_eq_some_iff.mp htext
      rw [hlength, UInt32.ofNat_toNat, List.append_assoc]
      exact ⟨count.toNat_lt, rfl⟩
  · rintro ⟨hshort, rfl⟩
    refine ⟨_, _, List.append_assoc .., textBytes s, rest, ⟨?_, rfl⟩, ?_⟩
    · exact (UInt32.toNat_ofNat_of_lt' hshort).symm
    · rw [fromUTF8?_eq_some_iff.mpr rfl]
      rfl

/-- Bytes that are not those of a text stop the reader, whatever follows them. -/
theorem read_badText {bytes : List UInt8} (hshort : Short bytes.length)
    (hbad : ∀ s, textBytes s ≠ bytes) (rest : List UInt8) :
    (read : Reader String) (write (UInt32.ofNat bytes.length) ++ (bytes ++ rest))
      = .error (.badText (Utf8.firstFault bytes)) := by
  have hcount : (read : Reader UInt32) (write (UInt32.ofNat bytes.length) ++ (bytes ++ rest))
      = .ok (UInt32.ofNat bytes.length, bytes ++ rest) := (exact_uInt32 _ _ _).mpr ⟨trivial, rfl⟩
  have htake : Reader.take (UInt32.ofNat bytes.length).toNat (bytes ++ rest) = .ok (bytes, rest) :=
    (takes_take _ _ _ _).mpr ⟨(UInt32.toNat_ofNat_of_lt' hshort).symm, rfl⟩
  have htext : String.fromUTF8? ⟨bytes.toArray⟩ = none := by
    cases h : String.fromUTF8? ⟨bytes.toArray⟩ with
    | none => rfl
    | some s => exact absurd (fromUTF8?_eq_some_iff.mp h) (hbad s)
  refine (bind_of_ok hcount).trans ((bind_of_ok htake).trans ?_)
  rw [htext]
  rfl

/-- A list fits if its length can be told and all its values fit. -/
theorem Exact.list {α : Type} [Wire α] {fits : α → Prop} (h : Exact α fits) :
    Exact (List α) fun values => Short values.length ∧ ∀ value ∈ values, fits value := by
  intro input values rest
  change (do
    let count : UInt32 ← read
    Reader.replicate read count.toNat : Reader (List α)) input = _
    ↔ _ ∧ input = write (UInt32.ofNat values.length) ++ values.flatMap write ++ rest
  simp only [bind_eq_ok_iff, exact_uInt32 _ _ _, takes_replicate h _ _ _ _, true_and]
  constructor
  · rintro ⟨count, _, rfl, ⟨hlength, hfits⟩, rfl⟩
    rw [hlength, UInt32.ofNat_toNat, List.append_assoc]
    exact ⟨⟨count.toNat_lt, hfits⟩, rfl⟩
  · rintro ⟨⟨hshort, hfits⟩, rfl⟩
    refine ⟨_, _, List.append_assoc .., ⟨?_, hfits⟩, rfl⟩
    exact (UInt32.toNat_ofNat_of_lt' hshort).symm

/-! ## Variants -/

/-- A variant is read from its index. -/
theorem readVariant_eq_ok_iff {α : Type} {variants : List α} {input rest : List UInt8} {value : α} :
    readVariant variants input = .ok (value, rest)
      ↔ ∃ index : UInt8, variants[index.toNat]? = some value ∧ input = index :: rest := by
  simp only [readVariant, bind_eq_ok_iff, exact_uInt8 _ _ _, true_and]
  constructor
  · rintro ⟨index, _, rfl, h⟩
    cases hvariant : variants[index.toNat]? with
    | none =>
      rw [hvariant] at h
      cases h
    | some found =>
      rw [hvariant, pure_eq_ok_iff] at h
      cases h
      exact ⟨index, hvariant, rfl⟩
  · rintro ⟨index, hvariant, rfl⟩
    refine ⟨index, rest, rfl, ?_⟩
    rw [hvariant]
    rfl

/-- A choice is taken from its number if the list of variants gives every choice its place. -/
theorem takes_readVariant {α : Type} (variants : List α) (index : α → UInt8)
    (hplace : ∀ value, variants[(index value).toNat]? = some value) (hnodup : variants.Nodup) :
    (readVariant variants).Takes (fun value => [index value]) fun _ => True := by
  intro input value rest
  rw [readVariant_eq_ok_iff, true_and]
  constructor
  · rintro ⟨found, hfound, rfl⟩
    have hlt := (List.getElem?_eq_some_iff.mp hfound).1
    have hsame := (List.getElem?_inj hlt hnodup).mp (hfound.trans (hplace value).symm)
    rw [UInt8.toNat_inj.mp hsame]
    rfl
  · rintro rfl
    exact ⟨index value, hplace value, rfl⟩

/-- A number that no variant has stops the reader. -/
theorem readVariant_unknown {α : Type} {variants : List α} {index : UInt8}
    (h : variants.length ≤ index.toNat) (rest : List UInt8) :
    readVariant variants (index :: rest) = .error (.unknownVariant index) := by
  have hread : (read : Reader UInt8) (index :: rest) = .ok (index, rest) :=
    (exact_uInt8 _ _ _).mpr ⟨trivial, rfl⟩
  rw [readVariant, bind_of_ok hread, List.getElem?_eq_none h]
  rfl

/-! ## Whole byte strings -/

section Whole

variable {α : Type} [Wire α] {fits : α → Prop} {value other : α} {bytes : List UInt8}

/-- To decode is to read all of the bytes. -/
theorem decode_eq_ok_iff_read : decode bytes = .ok value ↔ read bytes = .ok (value, []) := by
  unfold decode
  split
  · next h => simp [h]
  · next h => simp [h]
  · next h => simp [h]

/-- Where reading fails decoding fails, for the same reason. -/
theorem decode_of_read_error {e : WireError} (h : (read : Reader α) bytes = .error e) :
    (decode bytes : Except WireError α) = .error e := by
  rw [decode, h]

/-- **A byte string is accepted if and only if it is the form of a value that fits.** -/
theorem Exact.decode_eq_ok_iff (h : Exact α fits) :
    decode bytes = .ok value ↔ fits value ∧ encode value = bytes := by
  rw [decode_eq_ok_iff_read, h, List.append_nil]
  exact and_congr_right' eq_comm

/-- No form is the beginning of another: what follows a value does not matter. -/
theorem Exact.eq_of_append_eq (h : Exact α fits) (hvalue : fits value) (hother : fits other)
    {rest rest' : List UInt8} (heq : encode value ++ rest = encode other ++ rest') :
    value = other ∧ rest = rest' := by
  have hread := (h (encode value ++ rest) value rest).mpr ⟨hvalue, rfl⟩
  have hread' := (h (encode value ++ rest) other rest').mpr ⟨hother, heq⟩
  cases hread.symm.trans hread'
  exact ⟨rfl, rfl⟩

end Whole

end Wire

end RecordChain
