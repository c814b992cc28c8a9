import Std.Data.ExtTreeMap
import RecordChain.Block.Hash
import RecordChain.Ledger.Error

/-!
# The ledger

The ledger is what a chain means: the balances and the files after its blocks. It is never stored or
sent; every use computes it by replaying blocks from the first one on.

A block first pays its miner and then applies its operations in order, each on what those before it
left. An operation is first checked against the files, then paid for, and only then takes effect, so
one that fails changes nothing. A block that fails part of the way leaves the effects of what came
before the failure; `Outcome` keeps both the ledger and the failure.

A ledger without economics tracks no money: nothing is paid and no operation is too dear.
-/

namespace RecordChain

/-- A file, with the height of the block that wrote each part of it. -/
structure File where
  /-- The account that created the file. -/
  creator : Account
  createdAt : Nat
  /-- The records in order, each with the height of the block that appended it. -/
  records : Array (Nat × Record)
deriving DecidableEq

/-- Balances and files after some blocks of a chain, confirmed or not. -/
structure Ledger where
  /-- Rewards and fees, if money is tracked. -/
  economics : Option Economics
  /-- The balance of every account that was ever paid. All others have nothing. -/
  accounts : Std.ExtTreeMap Account Balance
  files : Std.ExtTreeMap FileName File

namespace Ledger

/-- The ledger before the first block. -/
def empty (economics : Option Economics) : Ledger := ⟨economics, ∅, ∅⟩

/-- What applying something leaves: the ledger, and why it went no further, if it did not. -/
structure Outcome where
  ledger : Ledger
  failure : Option LedgerError

/-- The ledger of an outcome without failure. -/
def Outcome.toExcept (outcome : Outcome) : Except LedgerError Ledger :=
  match outcome.failure with
  | none => .ok outcome.ledger
  | some e => .error e

/-! ## Money -/

/-- The balance of an account, which is nothing if it was never paid. -/
def balance (ledger : Ledger) (account : Account) : Balance := ledger.accounts[account]?.getD 0

/-- The sum of two amounts, held at the greatest amount there is. -/
def addCapped (a b : Balance) : Balance :=
  if a.toNat + b.toNat < UInt64.size then a + b else UInt64.ofNat (UInt64.size - 1)

/-- What a block of some kind earns its miner; nothing, not even an account, for a first block. -/
def reward? (economics : Option Economics) (kind : BlockKind) : Option Balance :=
  match economics, kind with
  | none, _ | _, .genesis => none
  | some e, .noOp => some e.noOpReward
  | some e, .regular => some e.opReward

/-- Pays the miner of a block. An account that is paid nothing is opened all the same. -/
def credit (ledger : Ledger) (miner : Account) (kind : BlockKind) : Ledger :=
  match reward? ledger.economics kind with
  | none => ledger
  | some reward =>
    let paid := addCapped (ledger.balance miner) reward
    { ledger with accounts := ledger.accounts.insert miner paid }

/-- What an operation costs its creator. -/
def fee (economics : Option Economics) (op : Operation) : Balance :=
  match economics, op with
  | none, _ | some _, .delete .. => 0
  | some e, .create .. => e.createFee
  | some e, .append .. => e.appendFee

/-- Takes the fee of an operation from its creator. -/
def charge (ledger : Ledger) (op : Operation) : Outcome :=
  let fee := fee ledger.economics op
  if fee = 0 then ⟨ledger, none⟩
  else
    let balance := ledger.balance op.creator
    if balance < fee then ⟨ledger, some (.notEnoughMoney op.creator balance fee)⟩
    else ⟨{ ledger with accounts := ledger.accounts.insert op.creator (balance - fee) }, none⟩

/-! ## Files -/

/-- Why the files do not admit an operation, if they do not. -/
def refusal? (ledger : Ledger) : Operation → Option LedgerError
  | .create _ file => if file ∈ ledger.files then some (.fileAlreadyExists file) else none
  | .append _ file number _ =>
    match ledger.files[file]? with
    | none => some (.fileDoesNotExist file)
    | some entry =>
      let expected := entry.records.size
      if maxRecords ≤ expected then some (.maxLengthReached file)
      else if number.toNat ≠ expected then
        some (.wrongRecordNumber file (UInt16.ofNat expected) number)
      else none
  | .delete _ file => if file ∈ ledger.files then none else some (.fileDoesNotExist file)

/-- The effect of an operation on the files. -/
def perform (ledger : Ledger) (op : Operation) (height : Nat) : Ledger :=
  match op with
  | .create creator file => { ledger with files := ledger.files.insert file ⟨creator, height, #[]⟩ }
  | .append _ file _ data =>
    { ledger with
      files := ledger.files.modify file fun entry =>
        { entry with records := entry.records.push (height, data) } }
  | .delete _ file => { ledger with files := ledger.files.erase file }

/-! ## Operations, blocks and chains -/

/-- Applies an operation carried by a block at some height. -/
def applyOp (ledger : Ledger) (op : Operation) (height : Nat) : Outcome :=
  match ledger.refusal? op with
  | some e => ⟨ledger, some e⟩
  | none =>
    match ledger.charge op with
    | ⟨ledger, some e⟩ => ⟨ledger, some e⟩
    | ⟨ledger, none⟩ => ⟨ledger.perform op height, none⟩

/-- Applies operations in order, up to the first that fails. -/
def applyOps (ledger : Ledger) (height : Nat) : List Operation → Outcome
  | [] => ⟨ledger, none⟩
  | op :: rest =>
    match ledger.applyOp op height with
    | ⟨ledger, none⟩ => applyOps ledger height rest
    | ⟨ledger, some e⟩ => ⟨ledger, some e⟩

/-- Applies a block at some height: pays its miner, then applies its operations. -/
def applyBlock (ledger : Ledger) (block : Block) (height : Nat) : Outcome :=
  match block.kind with
  | .genesis =>
    if height ≠ 0 then ⟨ledger, some (.unexpectedGenesis block.hash height)⟩
    else if block.operations ≠ [] then ⟨ledger, some (.unexpectedOperations block.hash)⟩
    else ⟨ledger, none⟩
  | .noOp =>
    if block.operations ≠ [] then ⟨ledger, some (.unexpectedOperations block.hash)⟩
    else ⟨ledger.credit block.miner .noOp, none⟩
  | .regular => (ledger.credit block.miner .regular).applyOps height block.operations

/-- Applies blocks one on top of the other, the first of them at the given height. -/
def applyChain (ledger : Ledger) (height : Nat) : List Block → Except LedgerError Ledger
  | [] => .ok ledger
  | block :: rest =>
    match ledger.applyBlock block height with
    | ⟨ledger, none⟩ => applyChain ledger (height + 1) rest
    | ⟨_, some e⟩ => .error e

/-- The ledger after a chain of blocks, the first of which is at height zero. -/
def replay (economics : Option Economics) (path : List Block) : Except LedgerError Ledger :=
  (empty economics).applyChain 0 path

end Ledger

end RecordChain
