import RecordChain.Proofs.ForkTree.Growth

/-!
# Well-formed fork trees

What is true of every tree that insertions have built, whatever blocks they were given.

* **`Linked`**: nodes bear the hash of their block, and parents come before their children and are
  one lower.
* **`Indexed`**: the index and the list of roots hold exactly the nodes they should.
* **`Headed`**: the head is the first node at the greatest height.
* **`WellFormed.of_adds`**: the one step. Both ways to insert are instances of it.
* **`WellFormed.length_chainTo`**: the height of a node is its place in the chain that leads to it,
  so a ledger that goes on from a node counts heights like one that starts at the root.
-/

namespace RecordChain.ForkTree

/-- Nodes bear the hash of their block and lie one above their parent. -/
structure Linked (tree : ForkTree) : Prop where
  hash_eq : ∀ node ∈ tree.fixed, node.hash = node.block.hash
  parent_lt : ∀ id parent, tree.parent? id = some parent → parent < id
  height_root : ∀ id, tree.parent? id = none → tree.heightAt id = 0
  height_child : ∀ id parent, tree.parent? id = some parent →
    tree.heightAt id = tree.heightAt parent + 1

/-- The index and the list of roots hold the nodes they should, in the order of insertion. -/
structure Indexed (tree : ForkTree) : Prop where
  find_eq : ∀ hash, tree.find hash
    = (List.range tree.size).filter fun id => tree.hashes[id]? = some hash
  roots_eq : tree.roots = (List.range tree.size).filter fun id => tree.parent? id = none

/-- The head is the first node at the greatest height. -/
structure Headed (tree : ForkTree) : Prop where
  size_of_headless : tree.head = none → tree.size = 0
  head_lt : ∀ head, tree.head = some head → head < tree.size
  le_head : ∀ head, tree.head = some head →
    ∀ id, id < tree.size → tree.heightAt id ≤ tree.heightAt head
  lt_head : ∀ head, tree.head = some head →
    ∀ id, id < head → tree.heightAt id < tree.heightAt head

/-- What every tree built by insertions satisfies. -/
structure WellFormed (tree : ForkTree) : Prop extends
  Linked tree, Indexed tree, Headed tree

/-- A height above that of the head is above that of every node. -/
theorem Headed.lt_of_lt_maxHeight {tree : ForkTree} (hheaded : tree.Headed) {height id : Nat}
    (htop : tree.maxHeight.all (· < height)) (hid : id < tree.size) :
    tree.heightAt id < height := by
  cases hhead : tree.head with
  | none =>
    have := hheaded.size_of_headless hhead
    omega
  | some head =>
    rw [maxHeight, hhead] at htop
    have hlt : tree.heightAt head < height := by simpa using htop
    exact Nat.lt_of_le_of_lt (hheaded.le_head head hhead id hid) hlt

/-! ## Insertions keep a tree well-formed -/

section Adds

variable {before after : ForkTree} {node : Node}

/-- The numbers of the new tree are those of the old one and one more; no node has a greater one. -/
theorem Adds.id_cases (hadds : before.Adds after node) (id : Nat) :
    id < before.size ∨ id = before.size
      ∨ after.parent? id = none ∧ after.heightAt id = 0 := by
  rcases Nat.lt_trichotomy id before.size with hid | hid | hid
  · exact Or.inl hid
  · exact Or.inr (Or.inl hid)
  · have hsize := hadds.size_eq
    have hnone : after.fixed[id]? = none :=
      List.getElem?_eq_none (by rw [length_fixed]; omega)
    rw [parent?_eq, heightAt_eq, hnone]
    exact Or.inr (Or.inr ⟨rfl, rfl⟩)

/-- A filter over the numbers of the new tree gives what it gave for the old one, and the new number
if it passes. -/
theorem Adds.filter_range (hadds : before.Adds after node) (old new : Nat → Bool)
    (hold : ∀ id, id < before.size → new id = old id) :
    (List.range after.size).filter new
      = (List.range before.size).filter old ++ if new before.size then [before.size] else [] := by
  rw [hadds.size_eq, List.range_succ, List.filter_append, List.filter_singleton,
    Bool.cond_eq_ite]
  congr 1
  exact List.filter_congr fun id hid => hold id (List.mem_range.mp hid)

/-- A node that is a root, or lies one above a node of the tree, keeps the tree linked. -/
theorem Linked.of_adds (hadds : before.Adds after node) (hlinked : before.Linked)
    (hhash : node.hash = node.block.hash) (hroot : node.parent = none → node.height = 0)
    (hchild : ∀ parent, node.parent = some parent →
      parent < before.size ∧ node.height = before.heightAt parent + 1) :
    after.Linked := by
  have hgrows := hadds.growsTo
  constructor
  case hash_eq =>
    intro other hother
    rw [hadds.fixed_eq, List.mem_append, List.mem_singleton] at hother
    rcases hother with hold | rfl
    · exact hlinked.hash_eq other hold
    · exact hhash
  case parent_lt =>
    intro id parent hparent
    rcases hadds.id_cases id with hid | rfl | ⟨hnone, -⟩
    · exact hlinked.parent_lt id parent (hgrows.parent? hid ▸ hparent)
    · exact (hchild parent (hadds.parent?_new ▸ hparent)).1
    · rw [hnone] at hparent
      cases hparent
  case height_root =>
    intro id hparent
    rcases hadds.id_cases id with hid | rfl | ⟨-, hzero⟩
    · rw [hgrows.heightAt hid]
      exact hlinked.height_root id (hgrows.parent? hid ▸ hparent)
    · rw [hadds.heightAt_new]
      exact hroot (hadds.parent?_new ▸ hparent)
    · exact hzero
  case height_child =>
    intro id parent hparent
    rcases hadds.id_cases id with hid | rfl | ⟨hnone, -⟩
    · have hold : before.parent? id = some parent := hgrows.parent? hid ▸ hparent
      have hlt := Nat.lt_trans (hlinked.parent_lt id parent hold) hid
      rw [hgrows.heightAt hid, hgrows.heightAt hlt]
      exact hlinked.height_child id parent hold
    · obtain ⟨hlt, hheight⟩ := hchild parent (hadds.parent?_new ▸ hparent)
      rw [hadds.heightAt_new, hgrows.heightAt hlt, hheight]
    · rw [hnone] at hparent
      cases hparent

/-- A new node is found by its hash, as all others are. -/
theorem Indexed.of_adds (hadds : before.Adds after node) (hindexed : before.Indexed) :
    after.Indexed := by
  constructor
  case find_eq =>
    intro hash
    have hold : ∀ id, id < before.size → after.hashes[id]? = before.hashes[id]? := by
      intro id hid
      rw [hadds.hashes_eq]
      exact List.getElem?_append_left (by simpa using hid)
    have hnew : after.hashes[before.size]? = some node.hash := by
      rw [hadds.hashes_eq, ← length_hashes]
      exact List.getElem?_concat_length
    rw [hadds.filter_range (fun id => before.hashes[id]? = some hash) _
      fun id hid => by rw [hold id hid], hadds.find_eq, hindexed.find_eq, hnew]
    simp only [Option.some.injEq, decide_eq_true_eq]
  case roots_eq =>
    rw [hadds.filter_range (fun id => before.parent? id = none) _
      fun id hid => by rw [hadds.growsTo.parent? hid], hadds.roots_eq, hindexed.roots_eq,
      hadds.parent?_new]
    simp only [decide_eq_true_eq]

/-- Only a node above the old head takes its place, so the head stays the first at its height. -/
theorem Headed.of_adds (hadds : before.Adds after node) (hheaded : before.Headed) :
    after.Headed := by
  have hgrows := hadds.growsTo
  have hsize := hadds.size_eq
  by_cases htop : before.maxHeight.all (· < node.height)
  · -- The new node is above all others and becomes the head.
    have hhead : after.head = some before.size := by rw [hadds.head_eq, if_pos htop]
    have hlower : ∀ id, id < before.size → after.heightAt id < node.height := by
      intro id hid
      rw [hgrows.heightAt hid]
      exact hheaded.lt_of_lt_maxHeight htop hid
    constructor
    case size_of_headless => simp [hhead]
    case head_lt =>
      intro head hsome
      cases hhead.symm.trans hsome
      omega
    case le_head =>
      intro head hsome id hid
      cases hhead.symm.trans hsome
      rw [hadds.heightAt_new]
      rcases hadds.lt_size_cases hid with hold | rfl
      · exact Nat.le_of_lt (hlower id hold)
      · exact Nat.le_of_eq hadds.heightAt_new
    case lt_head =>
      intro head hsome id hid
      cases hhead.symm.trans hsome
      rw [hadds.heightAt_new]
      exact hlower id hid
  · -- The head stays, and the new node is not above it.
    have hhead : after.head = before.head := by rw [hadds.head_eq, if_neg htop]
    constructor
    case size_of_headless =>
      intro hnone
      rw [maxHeight, ← hhead, hnone] at htop
      exact absurd rfl htop
    case head_lt =>
      intro head hsome
      have := hheaded.head_lt head (hhead ▸ hsome)
      omega
    case le_head =>
      intro head hsome id hid
      rw [hhead] at hsome
      rw [hgrows.heightAt (hheaded.head_lt head hsome)]
      rcases hadds.lt_size_cases hid with hold | rfl
      · rw [hgrows.heightAt hold]
        exact hheaded.le_head head hsome id hold
      · rw [hadds.heightAt_new]
        rw [maxHeight, hsome] at htop
        simpa using htop
    case lt_head =>
      intro head hsome id hid
      rw [hhead] at hsome
      have hlt := hheaded.head_lt head hsome
      rw [hgrows.heightAt hlt, hgrows.heightAt (Nat.lt_trans hid hlt)]
      exact hheaded.lt_head head hsome id hid

end Adds

namespace WellFormed

theorem empty : ForkTree.empty.WellFormed where
  hash_eq := by intro node hnode; cases hnode
  parent_lt := by intro id parent h; cases h
  height_root := by intro id _; rfl
  height_child := by intro id parent h; cases h
  find_eq := by intro hash; simp [find, ForkTree.empty, size]
  roots_eq := rfl
  size_of_headless := by intro _; rfl
  head_lt := by intro head h; cases h
  le_head := by intro head h; cases h
  lt_head := by intro head h; cases h

/-- A new root keeps a tree well-formed. -/
theorem insertRoot {tree : ForkTree} (hwf : tree.WellFormed) (block : Block) :
    (tree.insertRoot block).1.WellFormed :=
  have hadds := adds_insertRoot tree block
  ⟨.of_adds hadds hwf.toLinked rfl (fun _ => rfl) (fun _ hparent => by cases hparent),
    .of_adds hadds hwf.toIndexed, .of_adds hadds hwf.toHeaded⟩

/-- A new child keeps a tree well-formed. -/
theorem insertChild {tree : ForkTree} (hwf : tree.WellFormed) (block : Block) {parent : Nat}
    (hparent : parent < tree.size) : (tree.insertChild block parent).1.WellFormed :=
  have hadds := adds_insertChild tree block parent
  ⟨.of_adds hadds hwf.toLinked rfl (fun hnone => by cases hnone)
      (fun _ hsome => by cases hsome; exact ⟨hparent, rfl⟩),
    .of_adds hadds hwf.toIndexed, .of_adds hadds hwf.toHeaded⟩

/-! ## What follows -/

variable {tree : ForkTree} (hwf : tree.WellFormed)

include hwf

/-- What holds of roots, and of children if it holds of their parents, holds of all nodes. -/
theorem induction {motive : Nat → Prop} (id : Nat)
    (root : ∀ id, tree.parent? id = none → motive id)
    (child : ∀ id parent, tree.parent? id = some parent → parent < id → motive parent → motive id) :
    motive id := by
  induction id using Nat.strongRecOn with
  | _ id ih =>
    cases hparent : tree.parent? id with
    | none => exact root id hparent
    | some parent =>
      have hlt := hwf.parent_lt id parent hparent
      exact child id parent hparent hlt (ih parent hlt)

/-- The chain to a node has one block more than the node has height. -/
theorem length_chainTo {id : Nat} (hid : id < tree.size) :
    (tree.chainTo id).length = tree.heightAt id + 1 := by
  obtain ⟨block, hblock⟩ := block?_isSome hid
  induction id using hwf.induction generalizing block with
  | root id hparent =>
    rw [chainTo_of_root hblock hparent, hwf.height_root id hparent]
    rfl
  | child id parent hparent hlt ih =>
    have hlt' := Nat.lt_trans hlt hid
    obtain ⟨first, hfirst⟩ := block?_isSome hlt'
    rw [chainTo_of_child hblock hparent hlt, hwf.height_child id parent hparent,
      List.length_append, ih hlt' first hfirst]
    rfl

/-- The chain to a node has the block of the node. -/
theorem mem_chainTo {id : Nat} {block : Block} (hblock : tree.block? id = some block) :
    block ∈ tree.chainTo id := by
  cases hparent : tree.parent? id with
  | none =>
    rw [chainTo_of_root hblock hparent]
    exact List.mem_singleton_self _
  | some parent =>
    rw [chainTo_of_child hblock hparent (hwf.parent_lt id parent hparent)]
    exact List.mem_append_right _ (List.mem_singleton_self _)

/-- The hashes of the arena are those of its blocks. -/
theorem hashes_eq : tree.hashes = tree.allBlocks.map (·.hash) := by
  rw [hashes, allBlocks, List.map_map]
  exact List.map_congr_left fun node hnode => hwf.hash_eq node hnode

theorem hash_mem_of_mem {block : Block} (h : block ∈ tree.allBlocks) :
    block.hash ∈ tree.hashes := by
  rw [hwf.hashes_eq]
  exact List.mem_map_of_mem h

/-- The hash of a block stands where the block does. -/
theorem hash_of_block? {id : Nat} {block : Block} (hblock : tree.block? id = some block) :
    tree.hashes[id]? = some block.hash := by
  rw [block?_eq] at hblock
  obtain ⟨node, hnode, rfl⟩ := Option.map_eq_some_iff.mp hblock
  rw [hashes, List.getElem?_map, hnode, Option.map_some,
    hwf.hash_eq node (List.mem_of_getElem? hnode)]

theorem hash_mem_of_block? {id : Nat} {block : Block} (hblock : tree.block? id = some block) :
    block.hash ∈ tree.hashes :=
  List.mem_of_getElem? (hwf.hash_of_block? hblock)

/-- A tree with a node has a head, and the head is as high as the node at least. -/
theorem exists_maxHeight {id : Nat} (hid : id < tree.size) :
    ∃ height, tree.maxHeight = some height ∧ tree.heightAt id ≤ height := by
  cases hhead : tree.head with
  | none => exact absurd hid (by rw [hwf.size_of_headless hhead]; exact Nat.not_lt_zero id)
  | some head =>
    refine ⟨tree.heightAt head, ?_, hwf.le_head head hhead id hid⟩
    rw [maxHeight, hhead, Option.map_some]

/-- A new node above all others is one above the head, as it lies on top of one of them. -/
theorem height_of_lt_maxHeight {after : ForkTree} {node : Node} (hafter : after.Linked)
    (hadds : tree.Adds after node) (htop : tree.maxHeight.all (· < node.height)) :
    node.height = tree.maxHeight.elim 0 (· + 1) := by
  have hnew := hadds.parent?_new
  cases hparent : node.parent with
  | none =>
    have hzero : node.height = 0 := by
      rw [← hadds.heightAt_new]
      exact hafter.height_root tree.size (hnew.trans hparent)
    rw [hzero] at htop ⊢
    cases hmax : tree.maxHeight with
    | none => rfl
    | some top => simp [hmax] at htop
  | some parent =>
    have hlt := hafter.parent_lt tree.size parent (hnew.trans hparent)
    have hheight := hafter.height_child tree.size parent (hnew.trans hparent)
    rw [hadds.heightAt_new, hadds.growsTo.heightAt hlt] at hheight
    obtain ⟨top, hmax, hle⟩ := hwf.exists_maxHeight hlt
    rw [hmax] at htop ⊢
    have hhigher : top < node.height := by simpa using htop
    simp only [Option.elim_some]
    omega

/-- Every hash of the arena is that of a block in the same place. -/
theorem block?_of_hash {id : Nat} {hash : BlockHash} (hhash : tree.hashes[id]? = some hash) :
    ∃ block, tree.block? id = some block ∧ block.hash = hash := by
  have hid : id < tree.size := by
    rw [← length_hashes]
    exact (List.getElem?_eq_some_iff.mp hhash).1
  obtain ⟨block, hblock⟩ := block?_isSome hid
  rw [hwf.hash_of_block? hblock] at hhash
  exact ⟨block, hblock, Option.some.inj hhash⟩

/-- A block is contained if its hash is in the arena. -/
theorem contains_iff (hash : BlockHash) : tree.contains hash ↔ hash ∈ tree.hashes := by
  rw [contains, hwf.find_eq, Bool.not_eq_true', List.isEmpty_eq_false_iff, ne_eq,
    List.filter_eq_nil_iff, List.mem_iff_getElem?]
  simp only [List.mem_range, decide_eq_true_eq, not_forall, Classical.not_not]
  constructor
  · rintro ⟨id, -, hid⟩
    exact ⟨id, hid⟩
  · rintro ⟨id, hid⟩
    have hlt := (List.getElem?_eq_some_iff.mp hid).1
    exact ⟨id, by simpa using hlt, hid⟩

end WellFormed

end RecordChain.ForkTree
