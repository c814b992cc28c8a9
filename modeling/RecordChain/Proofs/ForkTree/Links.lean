import RecordChain.Proofs.ForkTree.Arena

/-!
# What every child link means

A new head sets the links on the way to it and no others. So a link on a fork that was given up
stays as it was when the head was last on that side, and is set anew when the head comes back. Whatever
happened in between, the link of a node leads towards the latest head that lay below the node.

* **`Insertions.heads`**: the history of heads.
* **`LiesBelow`**: one node lies strictly below another.
* **`LinkTells`**: what the link of a node says about the heads there have been. An insertion keeps
  it, whether the head after it lies below the node (`LinkTells.of_below`) or not
  (`LinkTells.of_not_below`).
* **`linkTells_insertions`**: the meaning of all links after any insertions.
-/

namespace RecordChain.ForkTree

/-- The heads after each of the insertions, the latest first. A head that stays is listed again. -/
def Insertions.heads {start tree : ForkTree} : Insertions start tree → List Nat
  | nil => []
  | @root _ tree earlier block => (tree.insertRoot block).1.head.toList ++ earlier.heads
  | @child _ tree earlier block parent _ =>
    (tree.insertChild block parent).1.head.toList ++ earlier.heads

/-- The way to the first node goes on from the second, so that the first lies strictly below it. -/
def LiesBelow (tree : ForkTree) (below id : Nat) : Prop := id ∈ tree.pathTo below ∧ id ≠ below

/-- What the child link of a node tells about the heads there have been, the latest first. -/
structure LinkTells (tree : ForkTree) (heads : List Nat) (id : Nat) : Prop where
  /-- There is no link as long as no head was below. -/
  none_iff : tree.child? id = none ↔ ∀ head ∈ heads, ¬ tree.LiesBelow head id
  /-- The link leads to the child by which the way to the latest head below passes. -/
  some_iff : ∀ later head earlier, heads = later ++ head :: earlier → tree.LiesBelow head id →
    (∀ other ∈ later, ¬ tree.LiesBelow other id) →
      ∀ child, tree.child? id = some child
        ↔ tree.parent? child = some id ∧ child ∈ tree.pathTo head

/-! ## Links that an insertion leaves alone -/

/-- Relinking touches the ancestors of the node only. -/
theorem getElem?_relink_of_not_above {tree : ForkTree} {nodes : Array Node} {id other : Nat}
    (hnodes : ∀ other, nodes[other]?.bind (·.parent) = tree.parent? other)
    (h : other ∈ tree.ancestors id → other = id) : (relink nodes id)[other]? = nodes[other]? := by
  fun_induction relink nodes id with
  | case1 nodes id parent hparent hlt ih =>
    have hway := ancestors_of_child ((hnodes id).symm.trans hparent) hlt
    -- The other node is not on the way from the parent either, as numbers go down along it.
    have hoff : other ∉ tree.ancestors parent := by
      intro hmem
      obtain rfl := h (by rw [hway]; exact List.mem_cons_of_mem _ hmem)
      exact absurd hlt (Nat.not_lt.mpr (le_of_mem_ancestors hmem))
    have hne : parent ≠ other := by
      rintro rfl
      obtain ⟨rest, hrest⟩ := tree.exists_ancestors_eq parent
      exact hoff (by rw [hrest]; exact List.mem_cons_self)
    rw [ih (fun node => (parent_setLink nodes parent id node).trans (hnodes node))
      (fun hmem => absurd hmem hoff), Array.getElem?_modify, if_neg hne]
  | case2 | case3 => rfl

/-- A new head keeps the links of all nodes that it does not lie below. -/
theorem child?_setHead {tree : ForkTree} {head id : Nat} (hhead : head < tree.size)
    (h : ¬ (tree.setHead head).LiesBelow head id) :
    (tree.setHead head).child? id = tree.child? id := by
  rw [LiesBelow, (tree.growsTo_setHead head).pathTo hhead] at h
  have hoff : id ∈ tree.ancestors head → id = head := fun hmem =>
    Decidable.not_not.mp fun hne => h ⟨List.mem_reverse.mpr hmem, hne⟩
  exact congrArg (Option.bind · (·.child)) (getElem?_relink_of_not_above (fun _ => rfl) hoff)

theorem child?_insertRoot (tree : ForkTree) (block : Block) (id : Nat) :
    (tree.insertRoot block).1.child? id = tree.child? id :=
  child?_push tree block 0 none id

theorem child?_insertChild {tree : ForkTree} {block : Block} {parent id : Nat}
    (h : ∀ head, (tree.insertChild block parent).1.head = some head →
      ¬ (tree.insertChild block parent).1.LiesBelow head id) :
    (tree.insertChild block parent).1.child? id = tree.child? id := by
  have hpushed := child?_push tree block (tree.heightAt parent + 1) (some parent) id
  rw [insertChild_fst] at h ⊢
  dsimp only at h ⊢
  split
  · next htop =>
    rw [if_pos htop] at h
    rw [← hpushed]
    exact child?_setHead (by rw [size_push]; exact Nat.lt_succ_self _) (h tree.size rfl)
  · exact hpushed

/-! ## Nodes below others -/

theorem GrowsTo.liesBelow_iff {before after : ForkTree} (h : before.GrowsTo after) {below id : Nat}
    (hbelow : below < before.size) : after.LiesBelow below id ↔ before.LiesBelow below id := by
  rw [LiesBelow, LiesBelow, h.pathTo hbelow]

/-- The way to a node below passes by a child. -/
theorem WellFormed.exists_child {tree : ForkTree} (hwf : tree.WellFormed) {below id : Nat}
    (h : tree.LiesBelow below id) :
    ∃ child, tree.parent? child = some id ∧ child ∈ tree.pathTo below := by
  obtain ⟨hmem, hne⟩ := h
  induction below using hwf.induction with
  | root below hparent =>
    rw [pathTo_of_root hparent, List.mem_singleton] at hmem
    exact absurd hmem hne
  | child below parent hparent hlt ih =>
    rw [pathTo_of_child hparent hlt] at hmem ⊢
    rcases List.mem_append.mp hmem with habove | hlast
    · by_cases heq : id = parent
      · exact ⟨below, heq ▸ hparent, List.mem_append_right _ (List.mem_singleton_self _)⟩
      · obtain ⟨child, hchild, hpasses⟩ := ih habove heq
        exact ⟨child, hchild, List.mem_append_left _ hpasses⟩
    · exact absurd (List.mem_singleton.mp hlast) hne

/-- The links above the head lead along the way to it. -/
theorem Threaded.child?_eq_some_iff {tree : ForkTree} (h : tree.Threaded) (hwf : tree.WellFormed)
    {head id child : Nat} (hhead : tree.head = some head) (hbelow : tree.LiesBelow head id) :
    tree.child? id = some child ↔ tree.parent? child = some id ∧ child ∈ tree.pathTo head := by
  have hlinks : ∀ next, tree.parent? next = some id → next ∈ tree.pathTo head →
      tree.child? id = some next := fun next hparent hpasses =>
    h.child?_parent head hhead next (List.mem_reverse.mp hpasses) id hparent
  obtain ⟨next, hparent, hpasses⟩ := hwf.exists_child hbelow
  constructor
  · intro hchild
    obtain rfl := Option.some.inj ((hlinks next hparent hpasses).symm.trans hchild)
    exact ⟨hparent, hpasses⟩
  · rintro ⟨hparent, hpasses⟩
    exact hlinks child hparent hpasses

/-! ## One insertion -/

namespace LinkTells

variable {before after : ForkTree} {heads : List Nat} {head id : Nat}

/-- The way to the head is threaded, whatever its links told before. -/
theorem of_below (hwf : after.WellFormed) (hthreaded : after.Threaded)
    (hhead : after.head = some head) (hbelow : after.LiesBelow head id) (heads : List Nat) :
    after.LinkTells (head :: heads) id := by
  constructor
  case none_iff =>
    obtain ⟨next, hnext⟩ := hwf.exists_child hbelow
    have hlink := (hthreaded.child?_eq_some_iff hwf hhead hbelow).mpr hnext
    constructor
    · intro hnone
      cases hnone.symm.trans hlink
    · intro hall
      exact absurd hbelow (hall head List.mem_cons_self)
  case some_iff =>
    intro later other earlier heq hother hlater child
    cases later with
    | nil =>
      obtain rfl : head = other := (List.cons.inj heq).1
      exact hthreaded.child?_eq_some_iff hwf hhead hother
    | cons first later =>
      obtain rfl : head = first := (List.cons.inj heq).1
      exact absurd hbelow (hlater head List.mem_cons_self)

/-- A head that does not lie below a node has no say in what its link tells. -/
theorem of_not_below (h : before.LinkTells heads id) (hheads : ∀ head ∈ heads, head < before.size)
    (hgrows : before.GrowsTo after) (hchild : after.child? id = before.child? id)
    (hbelow : ¬ after.LiesBelow head id) : after.LinkTells (head :: heads) id := by
  constructor
  case none_iff =>
    rw [hchild, h.none_iff, List.forall_mem_cons]
    constructor
    · intro hall
      refine ⟨hbelow, fun other hother => ?_⟩
      rw [hgrows.liesBelow_iff (hheads other hother)]
      exact hall other hother
    · rintro ⟨-, hall⟩ other hother
      rw [← hgrows.liesBelow_iff (hheads other hother)]
      exact hall other hother
  case some_iff =>
    intro later other earlier heq hother hlater child
    cases later with
    | nil =>
      obtain rfl : head = other := (List.cons.inj heq).1
      exact absurd hother hbelow
    | cons first later =>
      obtain rfl : heads = later ++ other :: earlier := (List.cons.inj heq).2
      have hlt := hheads other (List.mem_append_right _ List.mem_cons_self)
      have hold := h.some_iff later other earlier rfl ((hgrows.liesBelow_iff hlt).mp hother)
        (fun last hlast => ?_) child
      · rw [hchild, hold, hgrows.pathTo hlt]
        -- A node on the way to an old head is an old node.
        refine and_congr_left fun hpasses => ?_
        rw [hgrows.parent? (lt_size_of_mem_pathTo hlt hpasses)]
      · rw [← hgrows.liesBelow_iff (hheads last (List.mem_append_left _ hlast))]
        exact hlater last (List.mem_cons_of_mem _ hlast)

theorem empty (id : Nat) : ForkTree.empty.LinkTells [] id where
  none_iff := by simp [child?, node?, ForkTree.empty]
  some_iff := by
    intro later head earlier heq
    simp at heq

end LinkTells

/-! ## All insertions -/

/-- There is a head after an insertion. -/
theorem Adds.exists_head {before after : ForkTree} {node : Node} (h : before.Adds after node)
    (hwf : after.WellFormed) : ∃ head, after.head = some head ∧ head < after.size := by
  cases hhead : after.head with
  | none =>
    have hsize := hwf.size_of_headless hhead
    rw [h.size_eq] at hsize
    cases hsize
  | some head => exact ⟨head, rfl, hwf.head_lt head hhead⟩

/-- One insertion, which leaves the links alone that its head does not lie below. -/
theorem Built.linkTells_of_adds {before after : ForkTree} {node : Node} {heads : List Nat}
    (h : after.Built) (hadds : before.Adds after node)
    (hchild : ∀ id, (∀ head, after.head = some head → ¬ after.LiesBelow head id) →
      after.child? id = before.child? id)
    (hheads : ∀ head ∈ heads, head < before.size) (htells : ∀ id, before.LinkTells heads id) :
    (∀ head ∈ after.head.toList ++ heads, head < after.size)
      ∧ ∀ id, after.LinkTells (after.head.toList ++ heads) id := by
  obtain ⟨head, hhead, hlt⟩ := hadds.exists_head h.wellFormed
  rw [hhead, Option.toList_some, List.singleton_append]
  constructor
  · refine List.forall_mem_cons.mpr ⟨hlt, fun other hother => ?_⟩
    exact Nat.lt_of_lt_of_le (hheads other hother) hadds.growsTo.size_le
  · intro id
    by_cases hbelow : after.LiesBelow head id
    · exact .of_below h.wellFormed h.threaded hhead hbelow heads
    · refine .of_not_below (htells id) hheads hadds.growsTo (hchild id ?_) hbelow
      intro other hother
      obtain rfl := Option.some.inj (hhead.symm.trans hother)
      exact hbelow

/-- **Every child link leads towards the latest head below**, on the longest chain as on forks that
were given up. A node below which no head has been has no link. -/
theorem linkTells_insertions {tree : ForkTree} (calls : Insertions .empty tree) (id : Nat) :
    tree.LinkTells calls.heads id := by
  have hall : (∀ head ∈ calls.heads, head < tree.size) ∧ ∀ id, tree.LinkTells calls.heads id := by
    induction calls with
    | nil => exact ⟨fun _ hmem => absurd hmem List.not_mem_nil, LinkTells.empty⟩
    | @root tree earlier block ih =>
      exact (earlier.root block).built.linkTells_of_adds (adds_insertRoot tree block)
        (fun id _ => child?_insertRoot tree block id) ih.1 ih.2
    | @child tree earlier block parent known ih =>
      exact (earlier.child block parent known).built.linkTells_of_adds
        (adds_insertChild tree block parent) (fun _ => child?_insertChild) ih.1 ih.2
  exact hall.2 id

/-- The head has gone back to the first root, and the link of the second one leads to where the head
was last below it. -/
example : grove.head = some 6 ∧ grove.child? 2 = some 3 := by decide +kernel

end RecordChain.ForkTree
