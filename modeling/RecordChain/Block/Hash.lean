import RecordChain.Sha256
import RecordChain.Wire.Block

/-!
# Hashes of blocks

The hash of a block is cut from the digest of its wire form. The nonce is the last field of that
form, so the other fields can be fed to a hasher once and the hasher be continued with each
candidate for the nonce.
-/

namespace RecordChain.Block

/-- A hasher that has consumed every field of the block but the nonce. -/
def headerHasher (block : Block) : Sha256.Hasher :=
  (((Sha256.Hasher.initial.update (Wire.write block.kind)).update (Wire.write block.previous)).update
    (Wire.write block.miner)).update (Wire.write block.operations)

/-- The hash that a header gives with a nonce. -/
def hashWith (header : Sha256.Hasher) (nonce : UInt64) : BlockHash :=
  .ofBytes (header.update (Wire.write nonce)).finish

/-- The name of the block. -/
def hash (block : Block) : BlockHash := hashWith block.headerHasher block.nonce

/-- The hash is cut from the digest of the whole wire form. -/
theorem hash_eq_digest (block : Block) :
    block.hash = .ofBytes (Sha256.digest (Wire.encode block)) := by
  simp only [hash, hashWith, headerHasher, ← Sha256.Hasher.update_append]
  rfl

/-- Whether the hash starts with at least so many zero bits. -/
def meets (block : Block) (difficulty : Nat) : Bool := difficulty ≤ block.hash.zeroBits

end RecordChain.Block
