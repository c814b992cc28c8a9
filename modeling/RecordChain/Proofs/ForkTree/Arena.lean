import Mathlib.Data.List.Chain
import RecordChain.Proofs.ForkTree.Built

/-!
# The parts of a tree fit together

One insertion writes to the arena, to the index, perhaps to the list of roots, and to the links of
other nodes. Each part can be told from the insertions alone, so that no two of them can contradict
each other, whatever the shape of the forest and however many blocks are equal.

* **`Insertions`**: insertions one after the other, as they were called. Any blocks may be inserted,
  in any order and under any number of roots; only parents must be there.
* **`Laid`**: the parts of a tree, told from the insertions that built it.
* **`Kept`**: what later insertions leave of a tree. They touch no node but for its child link.
* **`laid_insertions`**: both hold for whatever is inserted.
-/

namespace RecordChain.ForkTree

/-! ## Insertions one after the other -/

/-- Calls that insert blocks and so take one tree to another. A parent is a node that is there. That
a tree is `Built` says that there are such calls, and this says which. -/
inductive Insertions (start : ForkTree) : ForkTree → Type
  | nil : Insertions start start
  | root {tree : ForkTree} (earlier : Insertions start tree) (block : Block) :
    Insertions start (tree.insertRoot block).1
  | child {tree : ForkTree} (earlier : Insertions start tree) (block : Block) (parent : Nat)
    (known : parent < tree.size) : Insertions start (tree.insertChild block parent).1

namespace Insertions

variable {start tree : ForkTree}

/-- The blocks in the order of the calls, each with the parent it was given. -/
def entries {start tree : ForkTree} : Insertions start tree → List (Block × Option Nat)
  | nil => []
  | root earlier block => earlier.entries ++ [(block, none)]
  | child earlier block parent _ => earlier.entries ++ [(block, some parent)]

/-- A tree that insertions have made was built. -/
theorem built (calls : Insertions .empty tree) : tree.Built := by
  induction calls with
  | nil => exact .empty
  | root earlier block ih => exact ih.insertRoot block
  | child earlier block parent known ih => exact ih.insertChild block known

/-- Insertions make a tree grow. Induction on the calls. -/
theorem growsTo (calls : Insertions start tree) : start.GrowsTo tree := by
  induction calls with
  | nil => exact .refl start
  | @root tree earlier block ih => exact ih.trans (adds_insertRoot tree block).growsTo
  | @child tree earlier block parent known ih =>
    exact ih.trans (adds_insertChild tree block parent).growsTo

/-- The arena holds what the calls were given. -/
theorem map_fixed (calls : Insertions .empty tree) :
    tree.fixed.map (fun node => (node.block, node.parent)) = calls.entries := by
  induction calls with
  | nil => rfl
  | @root tree earlier block ih =>
    rw [(adds_insertRoot tree block).fixed_eq, List.map_append, ih]
    rfl
  | @child tree earlier block parent known ih =>
    rw [(adds_insertChild tree block parent).fixed_eq, List.map_append, ih]
    rfl

end Insertions

/-! ## The way to a node -/

theorem getLast?_pathTo (tree : ForkTree) (id : Nat) : (tree.pathTo id).getLast? = some id := by
  rw [← dropLast_pathTo, List.getLast?_concat]

namespace WellFormed

variable {tree : ForkTree} (hwf : tree.WellFormed)

include hwf

/-- A path starts at the root of its node. -/
theorem head?_pathTo (id : Nat) : (tree.pathTo id).head? = some (tree.rootOf id) := by
  induction id using hwf.induction with
  | root id hparent =>
    rw [pathTo_of_root hparent, rootOf_of_root hparent]
    rfl
  | child id parent hparent hlt ih =>
    rw [pathTo_of_child hparent hlt, rootOf_of_child hparent hlt, List.head?_append, ih]
    rfl

/-- On a path each node is the parent of the next one. -/
theorem isChain_pathTo (id : Nat) :
    (tree.pathTo id).IsChain fun parent child => tree.parent? child = some parent := by
  induction id using hwf.induction with
  | root id hparent =>
    rw [pathTo_of_root hparent]
    exact .singleton id
  | child id parent hparent hlt ih =>
    rw [pathTo_of_child hparent hlt, List.isChain_append]
    refine ⟨ih, .singleton id, fun last hlast next hnext => ?_⟩
    obtain rfl : parent = last := Option.some.inj ((tree.getLast?_pathTo parent).symm.trans hlast)
    obtain rfl : id = next := Option.some.inj hnext
    exact hparent

theorem rootOf_mem_roots {id : Nat} (hid : id < tree.size) : tree.rootOf id ∈ tree.roots := by
  rw [hwf.roots_eq]
  induction id using hwf.induction with
  | root id hparent =>
    rw [rootOf_of_root hparent]
    exact List.mem_filter.mpr ⟨List.mem_range.mpr hid, decide_eq_true hparent⟩
  | child id parent hparent hlt ih =>
    rw [rootOf_of_child hparent hlt]
    exact ih (Nat.lt_trans hlt hid)

/-- The index tells the hashes of blocks, since nodes bear the hash of their block. -/
theorem find_eq_filter (hash : BlockHash) : tree.find hash
    = (List.range tree.size).filter fun id => (tree.block? id).map (·.hash) = some hash := by
  rw [hwf.find_eq]
  refine List.filter_congr fun id hid => ?_
  obtain ⟨block, hblock⟩ := block?_isSome (List.mem_range.mp hid)
  rw [hwf.hash_of_block? hblock, hblock, Option.map_some]

end WellFormed

/-! ## The whole -/

/-- The parts of a tree, told from the blocks that were inserted and the parents they were given. -/
structure Laid (tree : ForkTree) (entries : List (Block × Option Nat)) : Prop where
  nodes_eq : tree.nodes.toList.map (fun node => (node.block, node.parent)) = entries
  hash_eq : ∀ node ∈ tree.nodes.toList, node.hash = node.block.hash
  parent_lt : ∀ id parent, tree.parent? id = some parent → parent < id
  /-- Whoever follows parent links from a node comes to an end, and there is a root. -/
  walk : ∀ id, Walk tree.parent? id (tree.ancestors id)
  height_eq : ∀ id, tree.heightAt id = (tree.pathTo id).length - 1
  height_child : ∀ id parent, tree.parent? id = some parent →
    tree.heightAt id = tree.heightAt parent + 1
  path_head : ∀ id, id < tree.size → ∃ root ∈ tree.roots, (tree.pathTo id).head? = some root
  path_last : ∀ id, (tree.pathTo id).getLast? = some id
  path_linked : ∀ id,
    (tree.pathTo id).IsChain fun parent child => tree.parent? child = some parent
  roots_eq : tree.roots = (List.range tree.size).filter fun id => tree.parent? id = none
  find_eq : ∀ hash, tree.find hash
    = (List.range tree.size).filter fun id => (tree.block? id).map (·.hash) = some hash

/-- What a tree keeps while it grows into another. -/
structure Kept (tree later : ForkTree) : Prop where
  size_le : tree.size ≤ later.size
  /-- The block of a node, its hash, its height and its parent. -/
  node_eq : ∀ id, id < tree.size →
    (later.node? id).map Node.fixed = (tree.node? id).map Node.fixed
  path_eq : ∀ id, id < tree.size → later.pathTo id = tree.pathTo id

/-- The arena of a tree is as the insertions have laid it. Induction on the calls. -/
theorem Insertions.laid {tree : ForkTree} (calls : Insertions .empty tree) :
    tree.Laid calls.entries := by
  have hwf := calls.built.wellFormed
  constructor
  case nodes_eq =>
    rw [← calls.map_fixed, fixed, List.map_map]
    rfl
  case hash_eq =>
    intro node hnode
    exact hwf.hash_eq node.fixed (List.mem_map_of_mem hnode)
  case parent_lt => exact hwf.parent_lt
  case walk => exact hwf.walk_ancestors
  case height_eq =>
    intro id
    rw [hwf.length_pathTo, Nat.add_sub_cancel]
  case height_child => exact hwf.height_child
  case path_head => exact fun id hid => ⟨_, hwf.rootOf_mem_roots hid, hwf.head?_pathTo id⟩
  case path_last => exact tree.getLast?_pathTo
  case path_linked => exact hwf.isChain_pathTo
  case roots_eq => exact hwf.roots_eq
  case find_eq => exact hwf.find_eq_filter

theorem GrowsTo.kept {tree later : ForkTree} (h : tree.GrowsTo later) : tree.Kept later where
  size_le := h.size_le
  node_eq id hid := by
    rw [← ForkTree.getElem?_fixed, ← ForkTree.getElem?_fixed, h.getElem?_fixed hid]
  path_eq _ hid := h.pathTo hid

/-- **The arena, the index, the roots and the links of a tree fit together**, and they do so for
good: whatever is inserted later, a node keeps its block, its height, its parent and the way to it. -/
theorem laid_insertions {tree later : ForkTree} (calls : Insertions .empty tree)
    (more : Insertions tree later) : tree.Laid calls.entries ∧ tree.Kept later :=
  ⟨calls.laid, more.growsTo.kept⟩

end RecordChain.ForkTree
