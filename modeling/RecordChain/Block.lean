import RecordChain.Hash
import RecordChain.Operation

/-!
# Blocks

A block names the block before it by hash, the account that mined it, and the operations it
applies. Its nonce is the one field free to vary: mining looks for a nonce under which the block's
hash starts with enough zero bits.
-/

namespace RecordChain

/-- The class of a block, which decides how much work it must show and what it earns. -/
inductive BlockKind
  /-- The first block of a chain. It earns nothing. -/
  | genesis
  /-- A block without operations, mined for its reward alone. -/
  | noOp
  /-- A block that carries operations. -/
  | regular
deriving DecidableEq

namespace BlockKind

/-- Every kind, in the order of its number on the wire. -/
def all : List BlockKind := [.genesis, .noOp, .regular]

/-- The name of the kind in logs. -/
def name : BlockKind → String
  | .genesis => "Genesis"
  | .noOp => "NoOp"
  | .regular => "Regular"

end BlockKind

/-- A unit of the chain. -/
structure Block where
  kind : BlockKind
  /-- The hash of the block that this one extends. -/
  previous : BlockHash
  /-- The account that is paid for the block. -/
  miner : Account
  /-- The operations, applied in this order. -/
  operations : List Operation
  nonce : UInt64
deriving DecidableEq

namespace Block

/-- A first block: nothing comes before it. -/
def genesis (miner : Account) (nonce : UInt64) : Block :=
  ⟨.genesis, .zero, miner, [], nonce⟩

/-- A block without operations on top of another one. -/
def noOp (previous : BlockHash) (miner : Account) (nonce : UInt64) : Block :=
  ⟨.noOp, previous, miner, [], nonce⟩

/-- A block that carries operations on top of another one. -/
def regular (previous : BlockHash) (miner : Account) (operations : List Operation)
    (nonce : UInt64) : Block :=
  ⟨.regular, previous, miner, operations, nonce⟩

end Block

/-- What nodes send to each other. -/
inductive Message
  /-- A block that the sender has taken into its tree. -/
  | block (block : Block)
  /-- An operation that the sender wants mined. -/
  | job (operation : Operation)
deriving DecidableEq

end RecordChain
