import RecordChain.Block.Hash
import RecordChain.Proofs.Wire.Reading

/-!
# The wire form of blocks

Blocks, operations and messages have one form each, and every byte string that is accepted is the form
of what it is accepted for. A block is hashed over this very form, although it is fed to the hasher
field by field.

* **`exact_block`**, **`exact_operation`**, **`exact_message`**: the readers take what is written.
* **`Faithful`**: what follows for whole byte strings, malformed ones among them.
* **`Block.pieces`**: what a hasher is fed for a block.
* **`wireFormat`**: the forms are faithful, and they are what is hashed.
-/

namespace RecordChain

open Reader Wire

/-! ## What fits -/

/-- An operation fits if its texts do. -/
def Operation.Fits (op : Operation) : Prop :=
  Short (textBytes op.creator).length ∧ Short (textBytes op.file).length

/-- A block fits if its texts, its list and all operations in it do. -/
def Block.Fits (block : Block) : Prop :=
  Short (textBytes block.miner).length ∧ Short block.operations.length
    ∧ ∀ op ∈ block.operations, op.Fits

/-- A message fits if what it carries does. -/
def Message.Fits : Message → Prop
  | .block carried => carried.Fits
  | .job carried => carried.Fits

/-! ## Readers -/

namespace Wire

/-- An operation is its kind, its creator and its file, and an append its number and its record
too. -/
theorem write_operation (op : Operation) :
    write op = write op.kind ++ (write op.creator ++ (write op.file ++
      match op with
      | .append _ _ number data => write number ++ write data
      | .create .. | .delete .. => [])) := by
  cases op with
  | create creator file =>
    change write OperationKind.create ++ write creator ++ write file = _
    rw [List.append_assoc, List.append_nil]
    rfl
  | append creator file number data =>
    change write OperationKind.append ++ write creator ++ write file ++ write number ++ write data = _
    simp only [List.append_assoc]
    rfl
  | delete creator file =>
    change write OperationKind.delete ++ write creator ++ write file = _
    rw [List.append_assoc, List.append_nil]
    rfl

/-- A block is written field by field. -/
theorem write_block (block : Block) :
    write block = write block.kind ++ (write block.previous ++ (write block.miner
      ++ (write block.operations ++ write block.nonce))) := by
  change write block.kind ++ write block.previous ++ write block.miner ++ write block.operations
    ++ write block.nonce = _
  simp only [List.append_assoc]

theorem exact_blockHash : Exact BlockHash fun _ => True := by
  intro input hash rest
  change (do pure ⟨← read⟩ : Reader BlockHash) input = _ ↔ _ ∧ input = write hash.bytes ++ rest
  simp only [bind_eq_ok_iff, pure_eq_ok_iff, Prod.mk.injEq, exact_vector _ _ _ _, true_and]
  constructor
  · rintro ⟨bytes, _, rfl, rfl, rfl⟩
    rfl
  · rintro rfl
    exact ⟨hash.bytes, rest, rfl, rfl, rfl⟩

theorem exact_record : Exact Record fun _ => True := by
  intro input record rest
  change (do pure ⟨← read⟩ : Reader Record) input = _ ↔ _ ∧ input = write record.bytes ++ rest
  simp only [bind_eq_ok_iff, pure_eq_ok_iff, Prod.mk.injEq, exact_vector _ _ _ _, true_and]
  constructor
  · rintro ⟨bytes, _, rfl, rfl, rfl⟩
    rfl
  · rintro rfl
    exact ⟨record.bytes, rest, rfl, rfl, rfl⟩

/-- A kind of operation is read from its index, and no other index is read. -/
theorem exact_operationKind : Exact OperationKind fun _ => True :=
  takes_readVariant _ OperationKind.index (by rintro (_ | _ | _) <;> rfl) (by decide)

/-- A kind of block is read from its index, and no other index is read. -/
theorem exact_blockKind : Exact BlockKind fun _ => True :=
  takes_readVariant _ BlockKind.index (by rintro (_ | _ | _) <;> rfl) (by decide)

/-- What else is read of an operation is decided by its kind. -/
theorem read_operation : read = (do
    let kind : OperationKind ← read
    let creator : Account ← read
    let file : FileName ← read
    match kind with
    | .create => pure (.create creator file)
    | .append =>
      let number : RecordNumber ← read
      let data : Record ← read
      pure (.append creator file number data)
    | .delete => pure (.delete creator file) : Reader Operation) :=
  rfl

/-- An operation whose texts fit is read as it was written, and only what was written is read. -/
theorem exact_operation : Exact Operation Operation.Fits := by
  intro input op rest
  rw [read_operation, write_operation]
  simp only [bind_eq_ok_iff, exact_operationKind _ _ _, exact_string _ _ _, true_and,
    List.append_assoc]
  constructor
  · rintro ⟨kind, _, rfl, creator, _, ⟨hcreator, rfl⟩, file, last, ⟨hfile, rfl⟩, h⟩
    cases kind with
    | create =>
      cases pure_eq_ok_iff.mp h
      exact ⟨⟨hcreator, hfile⟩, rfl⟩
    | append =>
      simp only [bind_eq_ok_iff, pure_eq_ok_iff, exact_uInt16 _ _ _, exact_record _ _ _, true_and,
        Prod.mk.injEq] at h
      obtain ⟨number, _, rfl, data, _, rfl, rfl, rfl⟩ := h
      exact ⟨⟨hcreator, hfile⟩, by rw [List.append_assoc]; rfl⟩
    | delete =>
      cases pure_eq_ok_iff.mp h
      exact ⟨⟨hcreator, hfile⟩, rfl⟩
  · rintro ⟨⟨hcreator, hfile⟩, rfl⟩
    refine ⟨op.kind, _, rfl, op.creator, _, ⟨hcreator, rfl⟩, op.file, _, ⟨hfile, rfl⟩, ?_⟩
    cases op with
    | create creator file => rfl
    | append creator file number data =>
      simp only [Operation.kind, bind_eq_ok_iff, pure_eq_ok_iff, exact_uInt16 _ _ _,
        exact_record _ _ _, true_and, Prod.mk.injEq]
      exact ⟨number, _, List.append_assoc .., data, rest, rfl, rfl, rfl⟩
    | delete creator file => rfl

/-- A block that fits is read as it was written, and only what was written is read. -/
theorem exact_block : Exact Block Block.Fits := by
  intro input block rest
  change (do
    let kind : BlockKind ← read
    let previous : BlockHash ← read
    let miner : Account ← read
    let operations : List Operation ← read
    let nonce : UInt64 ← read
    pure { kind, previous, miner, operations, nonce } : Reader Block) input = _ ↔ _
  rw [write_block]
  simp only [bind_eq_ok_iff, pure_eq_ok_iff, Prod.mk.injEq, exact_blockKind _ _ _,
    exact_blockHash _ _ _, exact_string _ _ _, exact_operation.list _ _ _, exact_uInt64 _ _ _,
    true_and, List.append_assoc]
  constructor
  · rintro ⟨kind, _, rfl, previous, _, rfl, miner, _, ⟨hminer, rfl⟩, operations, _, ⟨hops, rfl⟩,
      nonce, _, rfl, rfl, rfl⟩
    exact ⟨⟨hminer, hops⟩, rfl⟩
  · rintro ⟨⟨hminer, hops⟩, rfl⟩
    exact ⟨block.kind, _, rfl, block.previous, _, rfl, block.miner, _, ⟨hminer, rfl⟩,
      block.operations, _, ⟨hops, rfl⟩, block.nonce, rest, rfl, rfl, rfl⟩

/-- A message that fits is read as it was written, and only what was written is read. -/
theorem exact_message : Exact Message Message.Fits := by
  intro input message rest
  change (do
    let isBlock ← readVariant [true, false]
    if isBlock then pure (.block (← read)) else pure (.job (← read)) : Reader Message) input = _
      ↔ _
  have hvariant := takes_readVariant [true, false]
    (fun isBlock => if isBlock then 0 else 1) (by decide) (by decide)
  simp only [bind_eq_ok_iff, hvariant _ _ _, true_and]
  constructor
  · rintro ⟨isBlock, _, rfl, h⟩
    cases isBlock with
    | true =>
      simp only [if_true, bind_eq_ok_iff, pure_eq_ok_iff, Prod.mk.injEq, exact_block _ _ _] at h
      obtain ⟨block, _, ⟨hfits, rfl⟩, rfl, rfl⟩ := h
      exact ⟨hfits, rfl⟩
    | false =>
      simp only [Bool.false_eq_true, if_false, bind_eq_ok_iff, pure_eq_ok_iff, Prod.mk.injEq,
        exact_operation _ _ _] at h
      obtain ⟨operation, _, ⟨hfits, rfl⟩, rfl, rfl⟩ := h
      exact ⟨hfits, rfl⟩
  · rintro ⟨hfits, rfl⟩
    cases message with
    | block block =>
      refine ⟨true, _, rfl, ?_⟩
      simp only [if_true, bind_eq_ok_iff, pure_eq_ok_iff, Prod.mk.injEq, exact_block _ _ _]
      exact ⟨block, rest, ⟨hfits, rfl⟩, rfl, rfl⟩
    | job operation =>
      refine ⟨false, _, rfl, ?_⟩
      simp only [Bool.false_eq_true, if_false, bind_eq_ok_iff, pure_eq_ok_iff, Prod.mk.injEq,
        exact_operation _ _ _]
      exact ⟨operation, rest, ⟨hfits, rfl⟩, rfl, rfl⟩

/-! ## Whole byte strings -/

/-- A type of values that fit and byte strings that are accepted, which stand for each other. The first
byte of a string is one of so many variants. -/
structure Faithful (α : Type) [Wire α] (fits : α → Prop) (variants : Nat) : Prop where
  decode_encode : ∀ value, fits value → decode (encode value) = .ok value
  encode_decode : ∀ bytes value, decode bytes = .ok value → fits value ∧ encode value = bytes
  encode_inj : ∀ value other, fits value → fits other → encode value = encode other →
    value = other
  truncated : ∀ value bytes missing, fits value → missing ≠ [] →
    bytes ++ missing = encode value → ∃ e, (decode bytes : Except WireError α) = .error e
  leftover : ∀ value extra, fits value → extra ≠ [] →
    (decode (encode value ++ extra) : Except WireError α) = .error .leftoverBytes
  unknown : ∀ index rest, variants ≤ index.toNat →
    (decode (index :: rest) : Except WireError α) = .error (.unknownVariant index)

/-- What is read exactly, and fails on unknown variants, is faithful. -/
theorem Exact.faithful {α : Type} [Wire α] {fits : α → Prop} {variants : Nat} (h : Exact α fits)
    (hunknown : ∀ index rest, variants ≤ index.toNat →
      (read : Reader α) (index :: rest) = .error (.unknownVariant index)) :
    Faithful α fits variants := by
  constructor
  case decode_encode =>
    intro value hvalue
    exact h.decode_eq_ok_iff.mpr ⟨hvalue, rfl⟩
  case encode_decode =>
    intro bytes value hdecode
    exact h.decode_eq_ok_iff.mp hdecode
  case encode_inj =>
    intro value other hvalue hother heq
    have hsame : encode value ++ [] = encode other ++ [] := by rw [heq]
    exact (h.eq_of_append_eq hvalue hother hsame).1
  case truncated =>
    intro value bytes missing hvalue hmissing heq
    cases hdecode : (decode bytes : Except WireError α) with
    | error e => exact ⟨e, rfl⟩
    | ok other =>
      -- The form of one value would be the beginning of the form of another.
      obtain ⟨hother, rfl⟩ := h.decode_eq_ok_iff.mp hdecode
      rw [← List.append_nil (encode value)] at heq
      exact absurd (h.eq_of_append_eq hother hvalue heq).2 hmissing
  case leftover =>
    intro value extra hvalue hextra
    have hread := (h (encode value ++ extra) value extra).mpr ⟨hvalue, rfl⟩
    obtain ⟨byte, rest, rfl⟩ := List.exists_cons_of_ne_nil hextra
    rw [decode, hread]
  case unknown =>
    intro index rest hindex
    exact decode_of_read_error (hunknown index rest hindex)

end Wire

/-! ## What is hashed -/

/-- What a hasher is fed for a block before the nonce. -/
def Block.headerPieces (block : Block) : List (List UInt8) :=
  [write block.kind, write block.previous, write block.miner, write block.operations]

/-- What a hasher is fed for a block. -/
def Block.pieces (block : Block) : List (List UInt8) := block.headerPieces ++ [write block.nonce]

/-- A hasher that has been fed some pieces. -/
def Sha256.Hasher.ofPieces (pieces : List (List UInt8)) : Sha256.Hasher :=
  pieces.foldl Sha256.Hasher.update .initial

/-- The pieces of a block are its form, cut up. -/
theorem Block.flatten_pieces (block : Block) : block.pieces.flatten = encode block := by
  rw [encode, write_block]
  simp [pieces, headerPieces]

/-- The header of a block is hashed piece by piece. -/
theorem Block.headerHasher_eq (block : Block) :
    block.headerHasher = .ofPieces block.headerPieces := by
  simp only [headerHasher, Sha256.Hasher.ofPieces, headerPieces, List.foldl_cons, List.foldl_nil]

theorem Block.hash_eq_pieces (block : Block) :
    block.hash = .ofBytes (Sha256.Hasher.ofPieces block.pieces).finish := by
  rw [hash, hashWith, headerHasher_eq, pieces, Sha256.Hasher.ofPieces, Sha256.Hasher.ofPieces,
    List.foldl_append, List.foldl_cons, List.foldl_nil]

/-- The hash of a block tells no more of it than its form. -/
theorem Block.hash_eq_of_encode_eq {block other : Block} (h : encode block = encode other) :
    block.hash = other.hash := by
  rw [hash_eq_digest, hash_eq_digest, h]

/-- What the wire form of blocks is good for. -/
structure WireFormat : Prop where
  block : Faithful Block Block.Fits 3
  operation : Faithful Operation Operation.Fits 3
  message : Faithful Message Message.Fits 2
  /-- Wherever a text is read, its bytes must be those of a text. -/
  text : ∀ bytes rest, Short bytes.length → (∀ s, textBytes s ≠ bytes) →
    (read : Reader String) (write (UInt32.ofNat bytes.length) ++ (bytes ++ rest))
      = .error (.badText (Utf8.firstFault bytes))
  /-- The hasher is fed the pieces of the block one after the other, the nonce last. -/
  fed : ∀ block : Block, block.headerHasher = .ofPieces block.headerPieces
    ∧ block.hash = .ofBytes (Sha256.Hasher.ofPieces block.pieces).finish
  /-- All that it is fed is the form of the block. -/
  hashed : ∀ block : Block, block.pieces.flatten = encode block
  /-- Who receives a block finds the hash that it was sent with. -/
  received : ∀ sent received : Block, decode (encode sent) = .ok received →
    received.hash = sent.hash

/-- **Values and accepted byte strings stand for each other**, and the bytes that stand for a block are
the ones that are hashed. -/
theorem wireFormat : WireFormat where
  block := exact_block.faithful fun index rest hindex =>
    have hall : BlockKind.all.length ≤ index.toNat := hindex
    bind_of_error (readVariant_unknown hall rest)
  operation := exact_operation.faithful fun index rest hindex =>
    have hall : OperationKind.all.length ≤ index.toNat := hindex
    bind_of_error (readVariant_unknown hall rest)
  message := exact_message.faithful fun index rest hindex =>
    have hall : [true, false].length ≤ index.toNat := hindex
    bind_of_error (readVariant_unknown hall rest)
  text := fun _ rest hshort hbad => read_badText hshort hbad rest
  fed := fun block => ⟨block.headerHasher_eq, block.hash_eq_pieces⟩
  hashed := Block.flatten_pieces
  received := fun _ _ hdecode =>
    Block.hash_eq_of_encode_eq (exact_block.decode_eq_ok_iff.mp hdecode).2

end RecordChain
