import Mathlib.Data.List.Basic
import RecordChain.ForkTree

/-!
# How a fork tree grows

Insertions add one node at the end of the arena and change nothing about the nodes before it but
their child links. So everything that is said about a node without its child link is said for good.

* **`Node.fixed`**, **`fixed`**: the nodes without their child links.
* **`GrowsTo`**: the fixed nodes of one tree are the first ones of another. Whatever is found by
  walking towards the root is the same in both trees (`GrowsTo.pathTo`, `GrowsTo.chainTo`).
* **`Adds`**: all that the insertion of a node does, with one lemma for each way to insert
  (`adds_insertRoot`, `adds_insertChild`). Relinking drops out here, as it sets child links only
  (`fixed_relink`), so no invariant has to look at it again.
-/

namespace RecordChain.ForkTree

/-! ## What stays -/

/-- A node without its child link, the only part of it that later insertions change. -/
def Node.fixed (node : Node) : Node := { node with child := none }

/-- The nodes without their child links, in the order of their insertion. -/
def fixed (tree : ForkTree) : List Node := tree.nodes.toList.map Node.fixed

/-- All blocks of the tree, in the order of their insertion. -/
def allBlocks (tree : ForkTree) : List Block := tree.fixed.map (·.block)

/-- The hashes of all nodes, in the order of their insertion. -/
def hashes (tree : ForkTree) : List BlockHash := tree.fixed.map (·.hash)

/-- The blocks from the root of a node to the node. -/
def chainTo (tree : ForkTree) (id : Nat) : List Block := tree.blocks (tree.pathTo id)

@[simp] theorem length_fixed (tree : ForkTree) : tree.fixed.length = tree.size := by
  simp [fixed, size]

@[simp] theorem length_hashes (tree : ForkTree) : tree.hashes.length = tree.size := by
  simp [hashes]

@[simp] theorem fixed_empty : empty.fixed = [] := rfl

theorem getElem?_fixed (tree : ForkTree) (id : Nat) :
    tree.fixed[id]? = (tree.node? id).map Node.fixed := by
  simp [fixed, node?]

/-- The block of a node is a matter of its fixed part. -/
theorem block?_eq (tree : ForkTree) (id : Nat) :
    tree.block? id = tree.fixed[id]?.map (·.block) := by
  rw [block?, getElem?_fixed, Option.map_map]
  rfl

theorem parent?_eq (tree : ForkTree) (id : Nat) :
    tree.parent? id = tree.fixed[id]?.bind (·.parent) := by
  rw [parent?, getElem?_fixed, Option.bind_map]
  rfl

/-- A height is a matter of the fixed part, and 0 where there is no node. -/
theorem heightAt_eq (tree : ForkTree) (id : Nat) :
    tree.heightAt id = tree.fixed[id]?.elim 0 (·.height) := by
  rw [heightAt, getElem?_fixed, Option.elim_map]
  rfl

/-- Every node of the arena has a block. -/
theorem block?_isSome {tree : ForkTree} {id : Nat} (h : id < tree.size) :
    ∃ block, tree.block? id = some block := by
  rw [← length_fixed] at h
  rw [block?_eq, List.getElem?_eq_getElem h]
  exact ⟨_, rfl⟩

theorem lt_size_of_block? {tree : ForkTree} {id : Nat} {block : Block}
    (h : tree.block? id = some block) : id < tree.size := by
  rw [block?_eq] at h
  obtain ⟨node, hnode, -⟩ := Option.map_eq_some_iff.mp h
  rw [← length_fixed]
  exact (List.getElem?_eq_some_iff.mp hnode).1

/-- All blocks of a tree are the blocks of its nodes. -/
theorem mem_allBlocks_iff {tree : ForkTree} {block : Block} :
    block ∈ tree.allBlocks ↔ ∃ id, tree.block? id = some block := by
  rw [allBlocks, List.mem_iff_getElem?]
  simp only [block?_eq, List.getElem?_map]

/-- The blocks on the way to a node are blocks of the tree. -/
theorem mem_allBlocks_of_mem_chainTo {tree : ForkTree} {id : Nat} {block : Block}
    (h : block ∈ tree.chainTo id) : block ∈ tree.allBlocks := by
  obtain ⟨other, -, hblock⟩ := List.mem_filterMap.mp h
  exact mem_allBlocks_iff.mpr ⟨other, hblock⟩

/-! ## Walking towards the root -/

/-- The walk up ends at a node without parent. -/
theorem ancestors_of_root {tree : ForkTree} {id : Nat} (h : tree.parent? id = none) :
    tree.ancestors id = [id] := by
  rw [ancestors, h]

/-- From a child the walk goes to its parent. The parent came earlier, which is why the walk
ends. -/
theorem ancestors_of_child {tree : ForkTree} {id parent : Nat}
    (h : tree.parent? id = some parent) (hlt : parent < id) :
    tree.ancestors id = id :: tree.ancestors parent := by
  rw [ancestors, h]
  exact if_pos hlt

/-- The path to a root is the root. -/
theorem pathTo_of_root {tree : ForkTree} {id : Nat} (h : tree.parent? id = none) :
    tree.pathTo id = [id] := by
  rw [pathTo, ancestors_of_root h]
  rfl

/-- The path to a child is the path to its parent and then the child. -/
theorem pathTo_of_child {tree : ForkTree} {id parent : Nat}
    (h : tree.parent? id = some parent) (hlt : parent < id) :
    tree.pathTo id = tree.pathTo parent ++ [id] := by
  rw [pathTo, ancestors_of_child h hlt, List.reverse_cons]
  rfl

/-- The chain that ends in a root is its block. -/
theorem chainTo_of_root {tree : ForkTree} {id : Nat} {block : Block}
    (hblock : tree.block? id = some block) (h : tree.parent? id = none) :
    tree.chainTo id = [block] := by
  rw [chainTo, pathTo_of_root h]
  simp [blocks, hblock]

/-- The chain that ends in a child is the chain to its parent and then the block of the child. -/
theorem chainTo_of_child {tree : ForkTree} {id parent : Nat} {block : Block}
    (hblock : tree.block? id = some block) (h : tree.parent? id = some parent)
    (hlt : parent < id) : tree.chainTo id = tree.chainTo parent ++ [block] := by
  rw [chainTo, pathTo_of_child h hlt]
  simp [blocks, chainTo, hblock]

/-- The numbers go down on the way to the root. -/
theorem le_of_mem_ancestors {tree : ForkTree} {id other : Nat}
    (h : other ∈ tree.ancestors id) : other ≤ id := by
  fun_induction ancestors tree id with
  | case1 id parent _ hlt ih =>
    rcases List.mem_cons.mp h with rfl | hmem
    · exact Nat.le_refl _
    · exact Nat.le_trans (ih hmem) (Nat.le_of_lt hlt)
  | case2 | case3 => exact Nat.le_of_eq (List.mem_singleton.mp h)

/-- No node is on the way twice. -/
theorem pairwise_pathTo (tree : ForkTree) (id : Nat) : (tree.pathTo id).Pairwise (· < ·) := by
  rw [pathTo, List.pairwise_reverse]
  fun_induction ancestors tree id with
  | case1 id parent _ hlt ih =>
    refine List.pairwise_cons.mpr ⟨fun other hother => ?_, ih⟩
    exact Nat.lt_of_le_of_lt (le_of_mem_ancestors hother) hlt
  | case2 | case3 => exact List.pairwise_singleton _ _

/-- A path does not leave the arena. -/
theorem lt_size_of_mem_pathTo {tree : ForkTree} {id other : Nat} (hid : id < tree.size)
    (h : other ∈ tree.pathTo id) : other < tree.size :=
  Nat.lt_of_le_of_lt (le_of_mem_ancestors (List.mem_reverse.mp h)) hid

/-! ## One tree grown out of another -/

/-- The nodes of one tree are the first nodes of another, child links aside. -/
def GrowsTo (before after : ForkTree) : Prop := before.fixed <+: after.fixed

namespace GrowsTo

variable {before after later : ForkTree}

theorem refl (tree : ForkTree) : tree.GrowsTo tree := List.prefix_refl _

/-- What has grown out of a tree grown out of another has grown out of that. -/
theorem trans (h : before.GrowsTo after) (h' : after.GrowsTo later) : before.GrowsTo later :=
  List.IsPrefix.trans h h'

/-- A tree does not shrink. -/
theorem size_le (h : before.GrowsTo after) : before.size ≤ after.size := by
  rw [← length_fixed, ← length_fixed]
  exact h.length_le

theorem getElem?_fixed (h : before.GrowsTo after) {id : Nat} (hid : id < before.size) :
    after.fixed[id]? = before.fixed[id]? := by
  obtain ⟨added, hadded⟩ := h
  rw [← hadded]
  exact List.getElem?_append_left (by simpa using hid)

theorem block? (h : before.GrowsTo after) {id : Nat} (hid : id < before.size) :
    after.block? id = before.block? id := by
  rw [block?_eq, block?_eq, h.getElem?_fixed hid]

theorem parent? (h : before.GrowsTo after) {id : Nat} (hid : id < before.size) :
    after.parent? id = before.parent? id := by
  rw [parent?_eq, parent?_eq, h.getElem?_fixed hid]

theorem heightAt (h : before.GrowsTo after) {id : Nat} (hid : id < before.size) :
    after.heightAt id = before.heightAt id := by
  rw [heightAt_eq, heightAt_eq, h.getElem?_fixed hid]

/-- The way to the root does not change: it passes through smaller numbers only, and these are old
nodes as well. -/
theorem ancestors (h : before.GrowsTo after) {id : Nat} (hid : id < before.size) :
    after.ancestors id = before.ancestors id := by
  induction id using Nat.strongRecOn with
  | _ id ih =>
    have hparent := h.parent? hid
    rw [ForkTree.ancestors, ForkTree.ancestors, hparent]
    cases before.parent? id with
    | none => rfl
    | some parent =>
      dsimp only
      split
      · next hlt => rw [ih parent hlt (Nat.lt_trans hlt hid)]
      · rfl

/-- The path to a node stays, as it only depends on the parents above. -/
theorem pathTo (h : before.GrowsTo after) {id : Nat} (hid : id < before.size) :
    after.pathTo id = before.pathTo id := by
  rw [ForkTree.pathTo, ForkTree.pathTo, h.ancestors hid]

/-- The chain to a node stays. -/
theorem chainTo (h : before.GrowsTo after) {id : Nat} (hid : id < before.size) :
    after.chainTo id = before.chainTo id := by
  rw [ForkTree.chainTo, ForkTree.chainTo, h.pathTo hid]
  refine List.filterMap_congr fun other hother => ?_
  exact h.block? (lt_size_of_mem_pathTo hid hother)

end GrowsTo

/-! ## The node that an insertion adds -/

/-- Which child leads to the head is no part of what is fixed. -/
theorem fixed_modify_child (nodes : Array Node) (id : Nat) (child : Option Nat) :
    (nodes.modify id fun node => { node with child }).toList.map Node.fixed
      = nodes.toList.map Node.fixed := by
  -- Entry by entry: only one is touched, and in it only what `fixed` forgets.
  refine List.ext_getElem? fun i => ?_
  simp only [List.getElem?_map, Array.getElem?_toList, Array.getElem?_modify]
  split
  · rw [Option.map_map]
    rfl
  · rfl

/-- Relinking the way to a new head changes nothing that is fixed. Induction along the parents. -/
theorem fixed_relink (nodes : Array Node) (id : Nat) :
    (relink nodes id).toList.map Node.fixed = nodes.toList.map Node.fixed := by
  fun_induction relink nodes id with
  | case1 nodes id parent _ _ ih => rw [ih, fixed_modify_child]
  | case2 | case3 => rfl

/-- A pushed node comes last and has no child. -/
theorem fixed_push (tree : ForkTree) (block : Block) (height : Nat) (parent : Option Nat) :
    (tree.push block height parent).1.fixed
      = tree.fixed ++ [⟨block.hash, block, height, parent, none⟩] := by
  simp [push, fixed, Node.fixed]

/-- A pushed node is found by its hash, behind those that had this hash before. -/
theorem find_push (tree : ForkTree) (block : Block) (height : Nat) (parent : Option Nat)
    (hash : BlockHash) :
    (tree.push block height parent).1.find hash
      = tree.find hash ++ if block.hash = hash then [tree.size] else [] := by
  unfold push find
  dsimp only
  rw [Std.ExtTreeMap.getElem?_alter]
  by_cases h : block.hash = hash
  · rw [if_pos (Std.LawfulEqCmp.compare_eq_iff_eq.mpr h), if_pos h, h]
    rfl
  · rw [if_neg (fun hcmp => h (Std.LawfulEqCmp.compare_eq_iff_eq.mp hcmp)), if_neg h,
      List.append_nil]

/-- All that the insertion of one node does to a tree, child links aside. -/
structure Adds (before after : ForkTree) (node : Node) : Prop where
  fixed_eq : after.fixed = before.fixed ++ [node]
  find_eq : ∀ hash, after.find hash
    = before.find hash ++ if node.hash = hash then [before.size] else []
  roots_eq : after.roots = before.roots ++ if node.parent = none then [before.size] else []
  head_eq : after.head
    = if before.maxHeight.all (· < node.height) then some before.size else before.head

/-- A new root is added without a parent, at height 0. -/
theorem adds_insertRoot (tree : ForkTree) (block : Block) :
    tree.Adds (tree.insertRoot block).1 ⟨block.hash, block, 0, none, none⟩ where
  fixed_eq := fixed_push tree block 0 none
  find_eq := find_push tree block 0 none
  roots_eq := rfl
  head_eq := by
    -- No height is below zero, so only an empty tree takes the root for its head.
    rw [maxHeight]
    change (tree.head <|> some tree.size) = _
    cases tree.head <;> simp

/-- A new child is added above its parent. -/
theorem adds_insertChild (tree : ForkTree) (block : Block) (parent : Nat) :
    tree.Adds (tree.insertChild block parent).1
      ⟨block.hash, block, tree.heightAt parent + 1, some parent, none⟩ := by
  unfold insertChild
  dsimp only
  split
  · next htop =>
    refine ⟨?_, find_push tree block (tree.heightAt parent + 1) (some parent),
      (List.append_nil _).symm, (if_pos htop).symm⟩
    rw [← fixed_push]
    exact fixed_relink _ _
  · next htop =>
    exact ⟨fixed_push _ _ _ _, find_push _ _ _ _, (List.append_nil _).symm, (if_neg htop).symm⟩

/-- The node of a new root is the next one of the arena. -/
@[simp] theorem insertRoot_snd (tree : ForkTree) (block : Block) :
    (tree.insertRoot block).2 = tree.size := rfl

/-- The node of a new child is the next one too. -/
@[simp] theorem insertChild_snd (tree : ForkTree) (block : Block) (parent : Nat) :
    (tree.insertChild block parent).2 = tree.size := by
  unfold insertChild
  dsimp only
  split <;> rfl

namespace Adds

variable {before after : ForkTree} {node : Node}

/-- A tree with one node more has grown. -/
theorem growsTo (h : before.Adds after node) : before.GrowsTo after := by
  rw [GrowsTo, h.fixed_eq]
  exact List.prefix_append _ _

theorem size_eq (h : before.Adds after node) : after.size = before.size + 1 := by
  rw [← length_fixed, h.fixed_eq, List.length_append, length_fixed]
  rfl

theorem allBlocks_eq (h : before.Adds after node) :
    after.allBlocks = before.allBlocks ++ [node.block] := by
  rw [allBlocks, h.fixed_eq, List.map_append]
  rfl

theorem hashes_eq (h : before.Adds after node) :
    after.hashes = before.hashes ++ [node.hash] := by
  rw [hashes, h.fixed_eq, List.map_append]
  rfl

/-- The new node stands behind the others. -/
theorem getElem?_new (h : before.Adds after node) : after.fixed[before.size]? = some node := by
  rw [h.fixed_eq, ← length_fixed]
  exact List.getElem?_concat_length

theorem block?_new (h : before.Adds after node) :
    after.block? before.size = some node.block := by
  rw [block?_eq, h.getElem?_new]
  rfl

theorem parent?_new (h : before.Adds after node) : after.parent? before.size = node.parent := by
  rw [parent?_eq, h.getElem?_new]
  rfl

theorem heightAt_new (h : before.Adds after node) :
    after.heightAt before.size = node.height := by
  rw [heightAt_eq, h.getElem?_new]
  rfl

/-- A node is one of the nodes before or the new one. -/
theorem lt_size_cases (h : before.Adds after node) {id : Nat} (hid : id < after.size) :
    id < before.size ∨ id = before.size :=
  Nat.lt_succ_iff_lt_or_eq.mp (Nat.lt_of_lt_of_eq hid h.size_eq)

/-- The blocks of the new tree: those of the old one under their numbers, and the new one. -/
theorem block?_cases (h : before.Adds after node) {id : Nat} {block : Block}
    (hblock : after.block? id = some block) :
    id < before.size ∧ before.block? id = some block ∨ id = before.size ∧ block = node.block := by
  rcases h.lt_size_cases (lt_size_of_block? hblock) with hold | rfl
  · exact Or.inl ⟨hold, h.growsTo.block? hold ▸ hblock⟩
  · rw [h.block?_new] at hblock
    exact Or.inr ⟨rfl, (Option.some.inj hblock).symm⟩

/-- The chain to a new root is its block. -/
theorem chainTo_new_root (h : before.Adds after node) (hparent : node.parent = none) :
    after.chainTo before.size = [node.block] :=
  chainTo_of_root h.block?_new (h.parent?_new.trans hparent)

/-- The chain to a new child is the chain to its parent and then the new block. -/
theorem chainTo_new_child (h : before.Adds after node) {parent : Nat}
    (hparent : node.parent = some parent) (hlt : parent < before.size) :
    after.chainTo before.size = before.chainTo parent ++ [node.block] := by
  rw [chainTo_of_child h.block?_new (h.parent?_new.trans hparent) hlt, h.growsTo.chainTo hlt]

end Adds

end RecordChain.ForkTree
