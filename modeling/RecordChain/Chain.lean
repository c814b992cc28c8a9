import RecordChain.Effect
import RecordChain.Ledger.View

/-!
# The chain

The tree of a replica together with its validator. Every block joins through `Chain.insert`, which
checks it, reports it, and, if it is the new head, stops all who asked to be stopped when the head
moves. All else reads: the head and its height, blocks by hash, the longest chain, and what the
longest chain says about balances and files.
-/

namespace RecordChain

/-- A fork tree, the validator that guards it, and the tokens to stop when the head moves. -/
structure Chain where
  tree : ForkTree
  validator : Validator
  /-- Tokens registered since the current head became the head, in that order. -/
  watchers : List Token

/-- Where a block was inserted. -/
structure Inserted where
  hash : BlockHash
  height : Nat
deriving DecidableEq

/-- The head at some moment. -/
structure Head where
  node : Nat
  hash : BlockHash
  height : Nat
deriving DecidableEq

namespace Chain

/-- The chain without blocks. -/
def new (economics : Economics) (difficulty : Difficulty) : Chain :=
  ⟨.empty, .new economics difficulty, []⟩

/-! ## Insertion -/

/-- What trying to insert a block leaves. -/
structure Insertion where
  chain : Chain
  result : Except ValidationError Inserted
  effects : List Effect

/-- Checks a block and inserts it if it passes. A new head stops and forgets the watchers. -/
def insert (chain : Chain) (block : Block) : Insertion :=
  match chain with
  | ⟨tree, validator, watchers⟩ =>
    match validator.validateAndInsert tree block with
    | ⟨validator, tree, .error e⟩ => ⟨⟨tree, validator, watchers⟩, .error e, []⟩
    | ⟨validator, tree, .ok id⟩ =>
      let inserted : Inserted := ⟨block.hash, tree.heightAt id⟩
      let report := Effect.publish (.insertBlock inserted.hash inserted.height)
      if tree.head = some id then
        ⟨⟨tree, validator, []⟩, .ok inserted,
          watchers.map .stop ++ [report, .publish (.updateHead inserted.hash inserted.height)]⟩
      else ⟨⟨tree, validator, watchers⟩, .ok inserted, [report]⟩

/-- Asks for a token to be stopped when the head moves away from a node, or from none in an empty
tree. Refuses if it has moved already. -/
def stopOnHeadChange (chain : Chain) (head : Option Nat) (token : Token) : Chain × Bool :=
  if chain.tree.head = head then ({ chain with watchers := chain.watchers ++ [token] }, true)
  else (chain, false)

/-! ## Queries -/

/-- The head with its hash and height. -/
def head? (chain : Chain) : Option Head :=
  chain.tree.head.bind fun id => (chain.tree.node? id).map fun node => ⟨id, node.hash, node.height⟩

/-- The node of a hash that was inserted first. -/
def lookup? (chain : Chain) (hash : BlockHash) : Option Nat := (chain.tree.find hash).head?

/-- The head that a block was when it was the head, found by its hash. -/
def formerHead? (chain : Chain) (hash : BlockHash) : Option Head :=
  (chain.lookup? hash).map fun node => ⟨node, hash, chain.tree.heightAt node⟩

def block? (chain : Chain) (hash : BlockHash) : Option Block :=
  (chain.lookup? hash).bind chain.tree.block?

def height? (chain : Chain) (hash : BlockHash) : Option Nat :=
  (chain.lookup? hash).map chain.tree.heightAt

def contains (chain : Chain) (hash : BlockHash) : Bool := chain.tree.contains hash

def headHeight? (chain : Chain) : Option Nat := chain.tree.maxHeight

/-- The blocks that extend no other, in the order of their insertion. -/
def roots (chain : Chain) : List Block := chain.tree.blocks chain.tree.roots

/-- The blocks of the longest chain, from its root to its head. -/
def longest (chain : Chain) : List Block := chain.tree.blocks chain.tree.longestChain

/-- Whether each block but the first extends the one before it. -/
def isLinked : List Block → Bool
  | first :: second :: rest => second.previous = first.hash && isLinked (second :: rest)
  | _ => true

/-- The number of blocks on all forks. -/
def size (chain : Chain) : Nat := chain.tree.size

/-- The ledger after a node. -/
def ledgerAt (chain : Chain) (node : Nat) : Except LedgerError Ledger :=
  chain.validator.ledgerAt chain.tree node

/-- The balances at the head of the longest chain. -/
def balances (chain : Chain) : Except LedgerError Balances :=
  balancesAfter chain.validator.economics chain.longest

/-- The confirmed files at the head of the longest chain. -/
def files (chain : Chain) (confirmations : Confirmations) : Except LedgerError FileViews :=
  filesAfter confirmations chain.longest

end Chain

/-! ## States at any node -/

namespace ForkTree

/-- The balances after a node, or none at all in an empty tree. -/
def balancesAt (tree : ForkTree) (economics : Economics) (node : Option Nat) :
    Except LedgerError Balances :=
  match node with
  | none => .ok ∅
  | some id => balancesAfter economics (tree.blocks (tree.pathTo id))

/-- The confirmed files after a node, or none at all in an empty tree. -/
def filesAt (tree : ForkTree) (confirmations : Confirmations) (node : Option Nat) :
    Except LedgerError FileViews :=
  match node with
  | none => .ok ∅
  | some id => filesAfter confirmations (tree.blocks (tree.pathTo id))

end ForkTree

end RecordChain
