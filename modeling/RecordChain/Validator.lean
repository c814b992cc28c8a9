import RecordChain.ForkTree
import RecordChain.Ledger.Basic

/-!
# Which blocks may join the tree

A block is checked in five steps, and the first that fails names the error: it is not in the tree
yet, its hash shows enough work, a first block is the only one, its parent is in the tree, and it
applies to the ledger after its parent.

The validator keeps the ledger after the block it last accepted on top of another one. Blocks mostly
arrive in the order of their chain, so this is mostly the ledger that the next check needs; if not,
the ledger is replayed. What is kept is given up on a failed check and never changes an answer.
-/

namespace RecordChain

/-- Why a block may not join the tree. -/
inductive ValidationError
  /-- The block is in the tree already. -/
  | duplicateBlock (block : BlockHash)
  /-- The hash starts with too few zero bits. -/
  | invalidProofOfWork (block : BlockHash) (difficulty : Nat)
  /-- There is a first block already. -/
  | duplicateGenesis (block : BlockHash)
  /-- The block it extends is not in the tree. -/
  | missingParent (block parent : BlockHash)
  /-- The block contradicts the ledger after its parent. -/
  | badState (reason : LedgerError)
deriving DecidableEq

/-- The error in diagnostics. -/
def ValidationError.describe : ValidationError → String
  | duplicateBlock block => "DuplicateBlock \x7b block: " ++ block.toHex ++ " \x7d"
  | invalidProofOfWork block difficulty =>
    "InvalidProofOfWork \x7b block: " ++ block.toHex ++ ", difficulty: " ++ toString difficulty
      ++ " \x7d"
  | duplicateGenesis block => "DuplicateGenesis \x7b block: " ++ block.toHex ++ " \x7d"
  | missingParent block parent =>
    "MissingParent \x7b block: " ++ block.toHex ++ ", parent: " ++ parent.toHex ++ " \x7d"
  | badState reason => "StateError(" ++ reason.describe ++ ")"

/-- Checks blocks against a tree. -/
structure Validator where
  economics : Economics
  difficulty : Difficulty
  /-- A node of the tree and the ledger after it. -/
  cache : Option (Nat × Ledger)

/-- What checking a block leaves: the validator, the tree, and the new node or the error. -/
structure Verdict where
  validator : Validator
  tree : ForkTree
  result : Except ValidationError Nat

/-- The zero bits that the hash of a block of some kind must start with. -/
def Difficulty.required (difficulty : Difficulty) : BlockKind → Nat
  | .regular => difficulty.op
  | .noOp | .genesis => difficulty.noOp

namespace Validator

/-- A validator that keeps no ledger yet. -/
def new (economics : Economics) (difficulty : Difficulty) : Validator :=
  ⟨economics, difficulty, none⟩

/-- The ledger after a node, replayed from its root. -/
def replay (economics : Economics) (tree : ForkTree) (id : Nat) : Except LedgerError Ledger :=
  Ledger.replay (some economics) (tree.blocks (tree.pathTo id))

/-- The ledger after a node. -/
def ledgerAt (validator : Validator) (tree : ForkTree) (id : Nat) : Except LedgerError Ledger :=
  match validator.cache with
  | some (cached, ledger) => if cached = id then .ok ledger else replay validator.economics tree id
  | none => replay validator.economics tree id

/-- Whether some root of the tree is a first block. -/
def hasGenesis (tree : ForkTree) : Bool :=
  (tree.blocks tree.roots).any (·.kind = .genesis)

/-- Applies a block to a ledger, or says why not. -/
def extend (ledger : Ledger) (block : Block) (height : Nat) : Except LedgerError Ledger :=
  (ledger.applyBlock block height).toExcept

/-- Checks a block and inserts it into the tree if it passes. -/
def validateAndInsert (validator : Validator) (tree : ForkTree) (block : Block) : Verdict :=
  let hash := block.hash
  let difficulty := validator.difficulty.required block.kind
  if tree.contains hash then ⟨validator, tree, .error (.duplicateBlock hash)⟩
  else if hash.zeroBits < difficulty then
    ⟨validator, tree, .error (.invalidProofOfWork hash difficulty)⟩
  else if block.kind = .genesis then
    if hasGenesis tree then ⟨validator, tree, .error (.duplicateGenesis hash)⟩
    else match extend (.empty (some validator.economics)) block 0 with
      | .error e => ⟨validator, tree, .error (.badState e)⟩
      | .ok _ =>
        let (tree, id) := tree.insertRoot block
        ⟨validator, tree, .ok id⟩
  else match tree.find block.previous with
    | [] => ⟨validator, tree, .error (.missingParent hash block.previous)⟩
    | parent :: _ =>
      let height := tree.heightAt parent + 1
      let before := validator.ledgerAt tree parent
      -- The ledger is used up here, so it is kept again only if the block passes.
      let validator := { validator with cache := none }
      match before with
      | .error e => ⟨validator, tree, .error (.badState e)⟩
      | .ok ledger =>
        match extend ledger block height with
        | .error e => ⟨validator, tree, .error (.badState e)⟩
        | .ok ledger =>
          let (tree, id) := tree.insertChild block parent
          ⟨{ validator with cache := some (id, ledger) }, tree, .ok id⟩

end Validator

end RecordChain
