import RecordChain.Proofs.ForkTree.WellFormed

/-!
# The longest chain, forwards and backwards

Child links are set along the way to each new head and stay as they are on the way to older ones. So
links of many former heads are mixed, and it has to be shown that those on the way to the current head
lead along it.

* **`Threaded`**: a child link leads to a child, and on the way to the head to the next node of it.
* **`child_relink`**, **`child_relink_of_mem`**: what a new head does to the links.
* **`longestChain_eq`**: walking forwards from the root gives the way to the head, nothing less and
  nothing more.
-/

namespace RecordChain.ForkTree

/-- Child links lead to children, and those on the way to the head lead along it. -/
structure Threaded (tree : ForkTree) : Prop where
  parent?_child : ∀ id child, tree.child? id = some child → tree.parent? child = some id
  child?_parent : ∀ head, tree.head = some head → ∀ id ∈ tree.ancestors head,
    ∀ parent, tree.parent? id = some parent → tree.child? parent = some id

/-! ## What insertions do to child links -/

/-- A pushed node takes no child link away. -/
theorem child?_push (tree : ForkTree) (block : Block) (height : Nat) (parent : Option Nat)
    (id : Nat) : (tree.push block height parent).1.child? id = tree.child? id := by
  unfold child? node? push
  dsimp only
  rw [Array.getElem?_push]
  split
  · next heq =>
    subst heq
    rw [Array.getElem?_eq_none (Nat.le_refl _)]
    rfl
  · rfl

/-- A child is added first, and then it may become the head. -/
theorem insertChild_fst (tree : ForkTree) (block : Block) (parent : Nat) :
    (tree.insertChild block parent).1
      = let pushed := (tree.push block (tree.heightAt parent + 1) (some parent)).1
        if tree.maxHeight.all (· < tree.heightAt parent + 1) then pushed.setHead tree.size
        else pushed := by
  unfold insertChild
  dsimp only
  split <;> rfl

theorem size_push (tree : ForkTree) (block : Block) (height : Nat) (parent : Option Nat) :
    (tree.push block height parent).1.size = tree.size + 1 := by
  rw [← length_fixed, fixed_push, List.length_append, length_fixed]
  rfl

/-- Becoming the head changes child links only. -/
theorem fixed_setHead (tree : ForkTree) (id : Nat) : (tree.setHead id).fixed = tree.fixed :=
  fixed_relink tree.nodes id

/-- To move the head is to grow, as nothing that is fixed changes. -/
theorem growsTo_setHead (tree : ForkTree) (id : Nat) : tree.GrowsTo (tree.setHead id) :=
  ⟨[], by rw [fixed_setHead, List.append_nil]⟩

section Relink

variable {nodes : Array Node} {id : Nat}

/-- Writing a child link changes nobody's parent. -/
theorem parent_setLink (nodes : Array Node) (parent id other : Nat) :
    (nodes.modify parent fun node => { node with child := some id })[other]?.bind (·.parent)
      = nodes[other]?.bind (·.parent) := by
  rw [Array.getElem?_modify]
  split
  · rw [Option.bind_map]
    rfl
  · rfl

/-- Relinking goes towards the root and leaves the node itself and all later ones alone. -/
theorem getElem?_relink {other : Nat} (h : id ≤ other) :
    (relink nodes id)[other]? = nodes[other]? := by
  fun_induction relink nodes id with
  | case1 nodes id parent hparent hlt ih =>
    have hne : parent ≠ other := by omega
    rw [ih (by omega), Array.getElem?_modify, if_neg hne]
  | case2 | case3 => rfl

/-- A link after relinking leads from a parent to its child, or it is an old one. -/
theorem child_relink {other child : Nat}
    (h : (relink nodes id)[other]?.bind (·.child) = some child) :
    nodes[child]?.bind (·.parent) = some other ∨ nodes[other]?.bind (·.child) = some child := by
  fun_induction relink nodes id with
  | case1 nodes id parent hparent hlt ih =>
    rcases ih h with hnew | hold
    · rw [parent_setLink] at hnew
      exact Or.inl hnew
    · rw [Array.getElem?_modify] at hold
      split at hold
      · next heq =>
        subst heq
        cases hnode : nodes[parent]? with
        | none =>
          rw [hnode] at hold
          cases hold
        | some node =>
          rw [hnode] at hold
          obtain rfl : id = child := by simpa using hold
          exact Or.inl hparent
      · exact Or.inr hold
  | case2 | case3 => exact Or.inr h

/-- After relinking, the links on the way to the node lead along it. -/
theorem child_relink_of_mem {tree : ForkTree} (hnodes : ∀ other,
      nodes[other]?.bind (·.parent) = tree.parent? other)
    (hlt : ∀ id parent, tree.parent? id = some parent → parent < id) (hid : id < nodes.size)
    {other parent : Nat} (hother : other ∈ tree.ancestors id)
    (hparent : tree.parent? other = some parent) :
    (relink nodes id)[parent]?.bind (·.child) = some other := by
  fun_induction ancestors tree id generalizing nodes with
  | case1 id next hnext hless ih =>
    have hstep : relink nodes id
        = relink (nodes.modify next fun node => { node with child := some id }) next := by
      rw [relink, hnodes, hnext]
      exact if_pos hless
    rw [hstep]
    rcases List.mem_cons.mp hother with rfl | hmem
    · obtain rfl : next = parent := Option.some.inj (hnext.symm.trans hparent)
      -- The link just set is not touched any more.
      rw [getElem?_relink (Nat.le_refl _), Array.getElem?_modify, if_pos rfl,
        Array.getElem?_eq_getElem (Nat.lt_trans hless hid)]
      rfl
    · refine ih ?_ ?_ hmem
      · intro other
        rw [parent_setLink, hnodes]
      · rw [Array.size_modify]
        exact Nat.lt_trans hless hid
  | case2 id next hnext hless => exact absurd (hlt id next hnext) hless
  | case3 id hnone =>
    rw [List.mem_singleton.mp hother, hnone] at hparent
    cases hparent

end Relink

theorem lt_size_of_parent? {tree : ForkTree} {id parent : Nat}
    (h : tree.parent? id = some parent) : id < tree.size := by
  rw [parent?_eq] at h
  obtain ⟨node, hnode, -⟩ := Option.bind_eq_some_iff.mp h
  rw [← length_fixed]
  exact (List.getElem?_eq_some_iff.mp hnode).1

/-! ## Trees stay threaded -/

namespace Threaded

variable {before after : ForkTree}

theorem empty : ForkTree.empty.Threaded where
  parent?_child := by intro id child h; cases h
  child?_parent := by intro head h; cases h

/-- A link stays right while the tree grows. -/
theorem parent?_of_growsTo (h : before.Threaded) (hgrows : before.GrowsTo after) {id child : Nat}
    (hchild : before.child? id = some child) : after.parent? child = some id := by
  have hparent := h.parent?_child id child hchild
  rw [hgrows.parent? (lt_size_of_parent? hparent), hparent]

/-- A node that does not become the head leaves all links alone. -/
theorem of_head_eq (h : before.Threaded) (hwf : before.WellFormed) (hgrows : before.GrowsTo after)
    (hchild : ∀ id, after.child? id = before.child? id) (hhead : after.head = before.head) :
    after.Threaded := by
  constructor
  case parent?_child =>
    intro id child hlink
    rw [hchild] at hlink
    exact h.parent?_of_growsTo hgrows hlink
  case child?_parent =>
    intro head hsome id hid parent hparent
    rw [hhead] at hsome
    have hlt := hwf.head_lt head hsome
    rw [hgrows.ancestors hlt] at hid
    have hle := le_of_mem_ancestors hid
    rw [hgrows.parent? (Nat.lt_of_le_of_lt hle hlt)] at hparent
    rw [hchild]
    exact h.child?_parent head hsome id hid parent hparent

/-- A new head threads the way to it, whatever the links on it were. -/
theorem setHead {tree : ForkTree} {id : Nat}
    (hlt : ∀ id parent, tree.parent? id = some parent → parent < id)
    (hlinks : ∀ id child, tree.child? id = some child → tree.parent? child = some id)
    (hid : id < tree.size) : (tree.setHead id).Threaded := by
  have hparents : ∀ other, (tree.setHead id).parent? other = tree.parent? other := by
    intro other
    rw [parent?_eq, parent?_eq, fixed_setHead]
  constructor
  case parent?_child =>
    intro other child hlink
    rw [hparents]
    rcases child_relink hlink with hnew | hold
    · exact hnew
    · exact hlinks other child hold
  case child?_parent =>
    intro head hsome other hother parent hparent
    obtain rfl : id = head := Option.some.inj hsome
    rw [(tree.growsTo_setHead id).ancestors hid] at hother
    rw [hparents] at hparent
    exact child_relink_of_mem (fun _ => rfl) hlt hid hother hparent

/-- A new root keeps the links right. -/
theorem insertRoot (h : before.Threaded) (hwf : before.WellFormed) (block : Block) :
    (before.insertRoot block).1.Threaded := by
  have hadds := adds_insertRoot before block
  have hchild : ∀ id, (before.insertRoot block).1.child? id = before.child? id :=
    child?_push before block 0 none
  cases hhead : before.head with
  | some head =>
    refine h.of_head_eq hwf hadds.growsTo hchild ?_
    change (before.head <|> some before.size) = before.head
    rw [hhead]
    rfl
  | none =>
    -- The way to a root has no links.
    refine ⟨fun id child hlink => ?_, fun head hsome id hid parent hparent => ?_⟩
    · rw [hchild] at hlink
      exact h.parent?_of_growsTo hadds.growsTo hlink
    · have hnew : head = before.size := by
        change (before.head <|> some before.size) = some head at hsome
        rw [hhead] at hsome
        exact (Option.some.inj hsome).symm
      have hroot : (before.insertRoot block).1.parent? before.size = none := hadds.parent?_new
      rw [hnew, ancestors_of_root hroot, List.mem_singleton] at hid
      rw [hid, hroot] at hparent
      cases hparent

/-- A new child keeps the links right, whether it becomes the head or not. -/
theorem insertChild (h : before.Threaded) (hwf : before.WellFormed) (block : Block) {parent : Nat}
    (hparent : parent < before.size) : (before.insertChild block parent).1.Threaded := by
  let pushed := (before.push block (before.heightAt parent + 1) (some parent)).1
  have hchild : ∀ id, pushed.child? id = before.child? id :=
    child?_push before block (before.heightAt parent + 1) (some parent)
  have hfixed : pushed.fixed = before.fixed ++ [_] :=
    fixed_push before block (before.heightAt parent + 1) (some parent)
  have hgrows : before.GrowsTo pushed := by
    rw [GrowsTo, hfixed]
    exact List.prefix_append _ _
  rw [insertChild_fst]
  split
  · refine setHead ?_ ?_ ?_
    · -- Both trees have the same nodes, and the later one is known to be well-formed.
      intro id other hother
      refine (hwf.insertChild block hparent).parent_lt id other ?_
      rwa [parent?_eq, (adds_insertChild before block parent).fixed_eq, ← hfixed, ← parent?_eq]
    · intro id child hlink
      rw [hchild] at hlink
      exact h.parent?_of_growsTo hgrows hlink
    · rw [size_push]
      exact Nat.lt_succ_self _
  · exact h.of_head_eq hwf hgrows hchild rfl

end Threaded

/-! ## Walking forwards -/

/-- The path to a node has one node for each height up to its own. -/
theorem WellFormed.length_pathTo {tree : ForkTree} (hwf : tree.WellFormed) (id : Nat) :
    (tree.pathTo id).length = tree.heightAt id + 1 := by
  induction id using hwf.induction with
  | root id hparent =>
    rw [pathTo_of_root hparent, hwf.height_root id hparent]
    rfl
  | child id parent hparent hlt ih =>
    rw [pathTo_of_child hparent hlt, hwf.height_child id parent hparent, List.length_append, ih]
    rfl

/-- The walk up starts at the node itself. -/
theorem exists_ancestors_eq (tree : ForkTree) (id : Nat) :
    ∃ rest, tree.ancestors id = id :: rest := by
  unfold ancestors
  split
  · split
    · exact ⟨_, rfl⟩
    · exact ⟨[], rfl⟩
  · exact ⟨[], rfl⟩

theorem dropLast_pathTo (tree : ForkTree) (id : Nat) :
    (tree.pathTo id).dropLast ++ [id] = tree.pathTo id := by
  obtain ⟨rest, hrest⟩ := tree.exists_ancestors_eq id
  rw [pathTo, hrest, List.reverse_cons, List.dropLast_concat]

/-- The chain to a node ends in its block. -/
theorem exists_chainTo_eq {tree : ForkTree} {id : Nat} {block : Block}
    (hblock : tree.block? id = some block) : ∃ path, tree.chainTo id = path ++ [block] := by
  refine ⟨tree.blocks (tree.pathTo id).dropLast, ?_⟩
  rw [chainTo, ← dropLast_pathTo]
  simp [blocks, hblock]

/-- The first node on the way to a node. -/
def rootOf (tree : ForkTree) (id : Nat) : Nat := (tree.ancestors id).getLastD id

theorem rootOf_of_root {tree : ForkTree} {id : Nat} (h : tree.parent? id = none) :
    tree.rootOf id = id := by
  rw [rootOf, ancestors_of_root h]
  rfl

theorem rootOf_of_child {tree : ForkTree} {id parent : Nat} (h : tree.parent? id = some parent)
    (hlt : parent < id) : tree.rootOf id = tree.rootOf parent := by
  obtain ⟨rest, hrest⟩ := tree.exists_ancestors_eq parent
  rw [rootOf, rootOf, ancestors_of_child h hlt, hrest, List.getLastD_cons, List.getLastD_cons,
    List.getLastD_cons]

/-- The walk down goes from a node to its child and on from there. -/
theorem descend_of_child {tree : ForkTree} {id child : Nat} (h : tree.child? id = some child)
    (hlt : id < child) (hsize : child < tree.size) :
    tree.descend id = id :: tree.descend child := by
  rw [descend, h]
  exact if_pos ⟨hlt, hsize⟩

/-- If the links on the way to a node lead along it, so does the walk from its root, until it is
there. -/
theorem WellFormed.descend_rootOf {tree : ForkTree} (hwf : tree.WellFormed) (id : Nat)
    (hlinks : ∀ other ∈ tree.ancestors id, ∀ parent, tree.parent? other = some parent →
      tree.child? parent = some other) :
    tree.descend (tree.rootOf id) = (tree.pathTo id).dropLast ++ tree.descend id := by
  induction id using hwf.induction with
  | root id hparent =>
    rw [rootOf_of_root hparent, pathTo_of_root hparent]
    rfl
  | child id parent hparent hlt ih =>
    have hways := ancestors_of_child hparent hlt
    have hlink : tree.child? parent = some id :=
      hlinks id (by rw [hways]; exact List.mem_cons_self) parent hparent
    have hbelow := ih fun other hother =>
      hlinks other (by rw [hways]; exact List.mem_cons_of_mem _ hother)
    have hstep := descend_of_child hlink hlt (lt_size_of_parent? hparent)
    rw [rootOf_of_child hparent hlt, hbelow, hstep, pathTo_of_child hparent hlt,
      List.dropLast_concat, List.append_cons, dropLast_pathTo]

/-- The links end at the head. -/
theorem Threaded.child?_head {tree : ForkTree} (h : tree.Threaded) (hwf : tree.WellFormed)
    {head : Nat} (hhead : tree.head = some head) : tree.child? head = none := by
  cases hchild : tree.child? head with
  | none => rfl
  | some child =>
    -- A child would be above the head.
    have hparent := h.parent?_child head child hchild
    have hheight := hwf.height_child child head hparent
    have hle := hwf.le_head head hhead child (lt_size_of_parent? hparent)
    omega

/-- **The longest chain is the way to the head**: walking forwards along child links gives what
walking backwards along parent links gives, and there is nothing to be cut off. -/
theorem longestChain_eq {tree : ForkTree} (hwf : tree.WellFormed) (h : tree.Threaded) {head : Nat}
    (hhead : tree.head = some head) :
    tree.longestChain = tree.pathTo head ∧ tree.descend (tree.rootOf head) = tree.pathTo head := by
  have hend : tree.descend head = [head] := by rw [descend, h.child?_head hwf hhead]
  have hway : tree.descend (tree.rootOf head) = tree.pathTo head := by
    rw [hwf.descend_rootOf head (h.child?_parent head hhead), hend, dropLast_pathTo]
  refine ⟨?_, hway⟩
  unfold longestChain
  rw [hhead]
  change (tree.descend (tree.rootOf head)).take (tree.heightAt head + 1) = tree.pathTo head
  rw [hway, ← hwf.length_pathTo head, List.take_length]

end RecordChain.ForkTree
