import Std.Data.ExtTreeMap
import RecordChain.Block.Hash
import RecordChain.Ledger.Error

/-!
# The fork tree

Every block that a replica has accepted, on every fork. Nodes are numbered in the order of their
insertion, so a parent has a smaller number than its children, and walks towards the root and walks
away from it both come to an end.

* `head` is the end of the longest chain: the first node inserted at the greatest height.
* `child` leads from a node to the next one on the longest chain that last went through it. When the
  head changes, the links of all its ancestors are set anew, so that walking forward from the root
  follows the new longest chain.
* `index` finds nodes by the hash of their block. The tree itself admits several nodes of one hash.
-/

namespace RecordChain

namespace ForkTree

/-- A block and its place in the tree. -/
structure Node where
  /-- The hash of the block. -/
  hash : BlockHash
  block : Block
  /-- The distance from the root. -/
  height : Nat
  /-- The node this one extends, unless it is a root. -/
  parent : Option Nat
  /-- The next node of the longest chain that last went through this one. -/
  child : Option Nat
deriving DecidableEq

end ForkTree

/-- All accepted blocks, linked to the blocks they extend. -/
structure ForkTree where
  nodes : Array ForkTree.Node
  /-- The nodes of each hash, in the order of their insertion. -/
  index : Std.ExtTreeMap BlockHash (List Nat)
  /-- The nodes without parent, in the order of their insertion. -/
  roots : List Nat
  /-- The end of the longest chain. -/
  head : Option Nat

namespace ForkTree

/-- The tree without nodes. -/
def empty : ForkTree := ⟨#[], ∅, [], none⟩

/-! ## Queries -/

def size (tree : ForkTree) : Nat := tree.nodes.size

def isEmpty (tree : ForkTree) : Bool := tree.nodes.isEmpty

def node? (tree : ForkTree) (id : Nat) : Option Node := tree.nodes[id]?

def block? (tree : ForkTree) (id : Nat) : Option Block := (tree.node? id).map (·.block)

def parent? (tree : ForkTree) (id : Nat) : Option Nat := (tree.node? id).bind (·.parent)

def child? (tree : ForkTree) (id : Nat) : Option Nat := (tree.node? id).bind (·.child)

/-- The height of a node; zero for a number that no node has. -/
def heightAt (tree : ForkTree) (id : Nat) : Nat := (tree.node? id).elim 0 (·.height)

/-- The nodes whose block has the hash, in the order of their insertion. -/
def find (tree : ForkTree) (hash : BlockHash) : List Nat := tree.index[hash]?.getD []

def contains (tree : ForkTree) (hash : BlockHash) : Bool := !(tree.find hash).isEmpty

/-- The height of the head. -/
def maxHeight (tree : ForkTree) : Option Nat := tree.head.map tree.heightAt

/-- The way from a node to its root, both included. Parents come before their children, so the
numbers along it go down. -/
def ancestors (tree : ForkTree) (id : Nat) : List Nat :=
  match tree.parent? id with
  | some parent => if parent < id then id :: tree.ancestors parent else [id]
  | none => [id]
termination_by id

/-- The way from the root of a node to the node, both included. -/
def pathTo (tree : ForkTree) (id : Nat) : List Nat := (tree.ancestors id).reverse

/-- The blocks of some nodes. -/
def blocks (tree : ForkTree) (path : List Nat) : List Block := path.filterMap tree.block?

/-- The way along child links from a node on. Children come after their parents, so the numbers
along it go up. -/
def descend (tree : ForkTree) (id : Nat) : List Nat :=
  match tree.child? id with
  | some child => if id < child ∧ child < tree.size then id :: tree.descend child else [id]
  | none => [id]
termination_by tree.size - id
decreasing_by omega

/-- The longest chain from its root to the head, found along child links. -/
def longestChain (tree : ForkTree) : List Nat :=
  match tree.head with
  | none => []
  | some head =>
    let root := (tree.ancestors head).getLastD head
    -- A link that an older head has left behind must not lead past the head.
    (tree.descend root).take (tree.heightAt head + 1)

/-! ## Insertion -/

/-- Adds a node to the arena and to the index. -/
def push (tree : ForkTree) (block : Block) (height : Nat) (parent : Option Nat) :
    ForkTree × Nat :=
  let id := tree.size
  let hash := block.hash
  ({ tree with
      nodes := tree.nodes.push ⟨hash, block, height, parent, none⟩
      index := tree.index.alter hash fun ids => some (ids.getD [] ++ [id]) },
    id)

/-- Adds a block that extends no other. It is the head only if the tree was empty. -/
def insertRoot (tree : ForkTree) (block : Block) : ForkTree × Nat :=
  let (tree, id) := tree.push block 0 none
  ({ tree with roots := tree.roots ++ [id], head := tree.head <|> some id }, id)

/-- Points the child links of all ancestors of a node along the way to it. -/
def relink (nodes : Array Node) (id : Nat) : Array Node :=
  match nodes[id]?.bind (·.parent) with
  | some parent =>
    if parent < id then
      relink (nodes.modify parent fun node => { node with child := some id }) parent
    else nodes
  | none => nodes
termination_by id

/-- Makes a node the end of the longest chain. -/
def setHead (tree : ForkTree) (id : Nat) : ForkTree :=
  { tree with nodes := relink tree.nodes id, head := some id }

/-- Adds a block on top of a node. It becomes the head if it is higher than the head, so of several
blocks at the greatest height the first one inserted stays. -/
def insertChild (tree : ForkTree) (block : Block) (parent : Nat) : ForkTree × Nat :=
  let height := tree.heightAt parent + 1
  let top := tree.maxHeight
  let (tree, id) := tree.push block height (some parent)
  if top.all (· < height) then (tree.setHead id, id) else (tree, id)

end ForkTree

end RecordChain
