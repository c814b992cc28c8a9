import RecordChain.Block
import RecordChain.Wire.Basic

/-!
# Wire forms of blocks, operations and messages

The fields of a block are written in the order kind, previous hash, miner, operations, nonce. The
nonce comes last, so blocks that differ in the nonce alone have forms that differ in the last eight
bytes alone.
-/

namespace RecordChain

instance : Wire BlockHash where
  write hash := Wire.write hash.bytes
  read := do pure ⟨← Wire.read⟩

instance : Wire Record where
  write record := Wire.write record.bytes
  read := do pure ⟨← Wire.read⟩

/-- The number of a kind of operation on the wire. -/
def OperationKind.index : OperationKind → UInt8
  | .create => 0
  | .append => 1
  | .delete => 2

instance : Wire OperationKind where
  write kind := [kind.index]
  read := Wire.readVariant OperationKind.all

instance : Wire Operation where
  write
    | .create creator file => Wire.write OperationKind.create ++ Wire.write creator ++ Wire.write file
    | .append creator file number data =>
      Wire.write OperationKind.append ++ Wire.write creator ++ Wire.write file ++ Wire.write number
        ++ Wire.write data
    | .delete creator file => Wire.write OperationKind.delete ++ Wire.write creator ++ Wire.write file
  read := do
    let kind : OperationKind ← Wire.read
    let creator : Account ← Wire.read
    let file : FileName ← Wire.read
    match kind with
    | .create => pure (.create creator file)
    | .append =>
      let number : RecordNumber ← Wire.read
      let data : Record ← Wire.read
      pure (.append creator file number data)
    | .delete => pure (.delete creator file)

/-- The number of a kind of block on the wire. -/
def BlockKind.index : BlockKind → UInt8
  | .genesis => 0
  | .noOp => 1
  | .regular => 2

instance : Wire BlockKind where
  write kind := [kind.index]
  read := Wire.readVariant BlockKind.all

instance : Wire Block where
  write block :=
    Wire.write block.kind ++ Wire.write block.previous ++ Wire.write block.miner
      ++ Wire.write block.operations ++ Wire.write block.nonce
  read := do
    let kind : BlockKind ← Wire.read
    let previous : BlockHash ← Wire.read
    let miner : Account ← Wire.read
    let operations : List Operation ← Wire.read
    let nonce : UInt64 ← Wire.read
    pure { kind, previous, miner, operations, nonce }

instance : Wire Message where
  write
    | .block block => 0 :: Wire.write block
    | .job operation => 1 :: Wire.write operation
  read := do
    let isBlock ← Wire.readVariant [true, false]
    if isBlock then pure (.block (← Wire.read)) else pure (.job (← Wire.read))

end RecordChain
