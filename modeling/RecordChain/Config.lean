import RecordChain.Operation

/-!
# Configuration

What the operator of a node chooses, and the parts of it that single rules look at.
-/

namespace RecordChain

/-- Amounts of coin. -/
abbrev Balance := UInt64

/-- What blocks earn their miners, and what operations cost their creators. Deletions are free. -/
structure Economics where
  opReward : Balance
  noOpReward : Balance
  createFee : Balance
  appendFee : Balance
deriving DecidableEq

/-- How many zero bits a block's hash must start with: blocks that carry operations have a
difficulty of their own. -/
structure Difficulty where
  op : Nat
  noOp : Nat
deriving DecidableEq

/-- How many blocks must follow the block that carries a creation, or an append, before readers see
it. -/
structure Confirmations where
  create : Nat
  append : Nat
deriving DecidableEq

/-- What the miner of a node needs to know. -/
structure MinerConfig where
  miner : Account
  difficulty : Difficulty
  opsPerBlock : Nat
deriving DecidableEq

/-- All that the operator of a node chooses. -/
structure Config where
  /-- The account that mined blocks are paid to, which also pays for the files written here. -/
  miner : Account
  opDifficulty : Nat
  noOpDifficulty : Nat
  opReward : Balance
  noOpReward : Balance
  createFee : Balance
  appendFee : Balance
  confirmsPerCreate : Nat
  confirmsPerAppend : Nat
  /-- One more than the most operations that a block mined here carries. -/
  opsPerBlock : Nat
  /-- The most ancestors asked of peers while a single block is added. -/
  maxFetchDepth : Nat := 1024
  /-- The time between two looks at the chain while a write waits, in milliseconds. -/
  pollInterval : Nat := 100
  logEvents : Bool := false
deriving DecidableEq

namespace Config

def economics (config : Config) : Economics :=
  ⟨config.opReward, config.noOpReward, config.createFee, config.appendFee⟩

def difficulty (config : Config) : Difficulty := ⟨config.opDifficulty, config.noOpDifficulty⟩

def confirmations (config : Config) : Confirmations :=
  ⟨config.confirmsPerCreate, config.confirmsPerAppend⟩

def minerConfig (config : Config) : MinerConfig :=
  ⟨config.miner, config.difficulty, config.opsPerBlock⟩

end Config

end RecordChain
