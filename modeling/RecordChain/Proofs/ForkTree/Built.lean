import RecordChain.Proofs.ForkTree.Longest

/-!
# Trees that insertions build

A tree may be given any blocks, with any number of roots. Only the number of a parent must be that of
a node. Whatever is built so has a head at the greatest height, and its links lead there.

* **`Built`**: the trees that any sequence of insertions builds. They are well-formed and threaded.
* **`Walk`**: following links until there is none. Unlike the walks of the tree it looks at nothing but
  the links, so what is shown of it does not rest on how those come to an end.
* **`leadsTo_head`**: the head is the first node at the greatest height. From there one walks back to
  its root, and from the root forwards to it, over the same nodes.
-/

namespace RecordChain.ForkTree

/-- The trees that insertions build: roots, and children of nodes that are there. -/
inductive Built : ForkTree → Prop
  | empty : Built .empty
  | insertRoot {tree : ForkTree} (earlier : Built tree) (block : Block) :
    Built (tree.insertRoot block).1
  | insertChild {tree : ForkTree} (earlier : Built tree) (block : Block) {parent : Nat}
    (known : parent < tree.size) : Built (tree.insertChild block parent).1

theorem Built.wellFormed {tree : ForkTree} (h : tree.Built) : tree.WellFormed := by
  induction h with
  | empty => exact .empty
  | insertRoot earlier block ih => exact ih.insertRoot block
  | insertChild earlier block known ih => exact ih.insertChild block known

theorem Built.threaded {tree : ForkTree} (h : tree.Built) : tree.Threaded := by
  induction h with
  | empty => exact .empty
  | insertRoot earlier block ih => exact ih.insertRoot earlier.wellFormed block
  | insertChild earlier block known ih => exact ih.insertChild earlier.wellFormed block known

/-! ## Walks along links -/

/-- The nodes that one comes by from a node on, following links until there is none. -/
inductive Walk (link : Nat → Option Nat) : Nat → List Nat → Prop
  | stop {id : Nat} (last : link id = none) : Walk link id [id]
  | step {id next : Nat} {path : List Nat} (linked : link id = some next)
    (onward : Walk link next path) : Walk link id (id :: path)

namespace WellFormed

variable {tree : ForkTree} (hwf : tree.WellFormed)

include hwf

theorem walk_ancestors (id : Nat) : Walk tree.parent? id (tree.ancestors id) := by
  induction id using hwf.induction with
  | root id hparent =>
    rw [ancestors_of_root hparent]
    exact .stop hparent
  | child id parent hparent hlt ih =>
    rw [ancestors_of_child hparent hlt]
    exact .step hparent ih

/-- If the links on the way to a node lead along it, the walk from its root comes by there and goes
on as from the node. -/
theorem walk_rootOf {id : Nat} (hlinks : ∀ other ∈ tree.ancestors id, ∀ parent,
    tree.parent? other = some parent → tree.child? parent = some other) {path : List Nat}
    (h : Walk tree.child? id path) :
    Walk tree.child? (tree.rootOf id) ((tree.pathTo id).dropLast ++ path) := by
  induction id using hwf.induction generalizing path with
  | root id hparent =>
    rw [rootOf_of_root hparent, pathTo_of_root hparent]
    exact h
  | child id parent hparent hlt ih =>
    have hways := ancestors_of_child hparent hlt
    have hlink : tree.child? parent = some id :=
      hlinks id (by rw [hways]; exact List.mem_cons_self) parent hparent
    have hbelow := ih (fun other hother =>
      hlinks other (by rw [hways]; exact List.mem_cons_of_mem _ hother)) (.step hlink h)
    rw [rootOf_of_child hparent hlt, pathTo_of_child hparent hlt, List.dropLast_concat]
    rwa [List.append_cons, dropLast_pathTo] at hbelow

end WellFormed

/-! ## The head -/

/-- What makes a node the end of the longest chain. -/
structure LeadsTo (tree : ForkTree) (head : Nat) : Prop where
  lt_size : head < tree.size
  /-- No node is higher. -/
  le_head : ∀ id, id < tree.size → tree.heightAt id ≤ tree.heightAt head
  /-- The nodes inserted before are all lower. -/
  lt_head : ∀ id, id < head → tree.heightAt id < tree.heightAt head
  /-- Parent links lead to the root over the nodes of the chain. -/
  backwards : Walk tree.parent? head tree.longestChain.reverse
  /-- Child links lead from the root over the nodes of the chain, and not past the head. -/
  forwards : Walk tree.child? (tree.rootOf head) tree.longestChain
  longestChain_eq : tree.longestChain = tree.pathTo head
  /-- There is nothing to be cut off at the end. -/
  uncut : tree.descend (tree.rootOf head) = tree.longestChain

/-- **The longest chain is the longest**, and it is the same forwards and backwards. A tree has a head
if it has a node, and the head is the first node at the greatest height of all. -/
theorem leadsTo_head {tree : ForkTree} (h : tree.Built) :
    (tree.head = none ↔ tree.isEmpty) ∧ ∀ head, tree.head = some head → tree.LeadsTo head := by
  have hwf := h.wellFormed
  have hempty : tree.isEmpty ↔ tree.size = 0 := Array.isEmpty_iff_size_eq_zero
  constructor
  · rw [hempty]
    constructor
    · exact hwf.size_of_headless
    · intro hsize
      by_contra hhead
      obtain ⟨head, hsome⟩ := Option.ne_none_iff_exists'.mp hhead
      have := hwf.head_lt head hsome
      omega
  · intro head hhead
    obtain ⟨hlongest, hdescend⟩ := longestChain_eq hwf h.threaded hhead
    have hforwards := hwf.walk_rootOf (h.threaded.child?_parent head hhead)
      (.stop (h.threaded.child?_head hwf hhead))
    rw [dropLast_pathTo] at hforwards
    constructor
    case lt_size => exact hwf.head_lt head hhead
    case le_head => exact hwf.le_head head hhead
    case lt_head => exact hwf.lt_head head hhead
    case backwards =>
      rw [hlongest, pathTo, List.reverse_reverse]
      exact hwf.walk_ancestors head
    case forwards =>
      rw [hlongest]
      exact hforwards
    case longestChain_eq => exact hlongest
    case uncut => rw [hdescend, hlongest]

/-- Two roots. The head goes from the tree of the first to that of the second and back again, and
meets another node of its height each time. -/
def grove : ForkTree :=
  let tree := (empty.insertRoot (.genesis "ann" 0)).1
  let tree := (tree.insertChild (.noOp .zero "ann" 1) 0).1
  let tree := (tree.insertRoot (.genesis "bob" 2)).1
  let tree := (tree.insertChild (.noOp .zero "bob" 3) 2).1
  let tree := (tree.insertChild (.noOp .zero "bob" 4) 3).1
  let tree := (tree.insertChild (.noOp .zero "ann" 5) 1).1
  (tree.insertChild (.noOp .zero "ann" 6) 5).1

theorem leadsTo_head_grove : grove.Built ∧ grove.head = some 6 ∧ grove.LeadsTo 6 := by
  have hbuilt : grove.Built :=
    .insertChild (.insertChild (.insertChild (.insertChild (.insertRoot (.insertChild
      (.insertRoot .empty _) _ (by decide +kernel)) _) _ (by decide +kernel)) _
      (by decide +kernel)) _ (by decide +kernel)) _ (by decide +kernel)
  have hhead : grove.head = some 6 := by decide +kernel
  exact ⟨hbuilt, hhead, (leadsTo_head hbuilt).2 6 hhead⟩

end RecordChain.ForkTree
