import RecordChain.Proofs.Chain.Insertion

/-!
# Valid trees agree on what they share

Two replicas build their trees in different orders and with different forks. As long as no two
different blocks share a hash, a block that both have lies on the same chain in both, so whatever is
computed from its chain is the same.

* **`ValidTree.find_eq_singleton`**: within one tree the hash of a block leads to its node alone.
* **`Agree`**: a hash stands for the same block in both trees.
* **`ValidTree.chainTo_eq`**: a shared block has the same chain below it.
* **`ValidTree.lacksParent_of_judge`**: a block of one tree can always join the other, as soon as its
  parent is there.
-/

namespace RecordChain

open ForkTree Validator

/-- No two different blocks share a hash. -/
def Collisionless (blocks : List Block) : Prop :=
  ∀ first ∈ blocks, ∀ second ∈ blocks, first.hash = second.hash → first = second

instance (blocks : List Block) : Decidable (Collisionless blocks) := by
  unfold Collisionless
  infer_instance

/-- A hash stands for the same block in both trees. -/
def ForkTree.Agree (tree other : ForkTree) : Prop :=
  ∀ block ∈ tree.allBlocks, ∀ second ∈ other.allBlocks, block.hash = second.hash → block = second

theorem ForkTree.Agree.eq_of_hash {tree other : ForkTree} (hagree : tree.Agree other)
    {id id' : Nat} {block second : Block} (hblock : tree.block? id = some block)
    (hsecond : other.block? id' = some second) (hhash : block.hash = second.hash) :
    block = second :=
  hagree block (mem_allBlocks_iff.mpr ⟨id, hblock⟩) second (mem_allBlocks_iff.mpr ⟨id', hsecond⟩)
    hhash

namespace ValidTree

variable {economics : Economics} {difficulty : Difficulty} {tree other : ForkTree}
  {id : Nat} {block : Block}

section One

variable (h : ValidTree economics difficulty tree)

include h

theorem parent?_of_genesis (hblock : tree.block? id = some block) (hkind : block.kind = .genesis) :
    tree.parent? id = none := by
  cases hparent : tree.parent? id with
  | none => rfl
  | some parent =>
    rcases (h.child id parent block hblock hparent).1 with ⟨hnoOp, -⟩ | hregular
    · cases hkind.symm.trans hnoOp
    · cases hkind.symm.trans hregular

/-- Every block but the first ones lies on top of the block it names. -/
theorem exists_parent (hblock : tree.block? id = some block) (hkind : block.kind ≠ .genesis) :
    ∃ parent below, tree.parent? id = some parent ∧ parent < id
      ∧ tree.block? parent = some below ∧ block.previous = below.hash := by
  cases hparent : tree.parent? id with
  | none => exact absurd (h.root id block hblock hparent).1 hkind
  | some parent =>
    obtain ⟨-, -, below, hbelow, hprevious⟩ := h.child id parent block hblock hparent
    exact ⟨parent, below, rfl, h.parent_lt id parent hparent, hbelow, hprevious⟩

theorem nodup_chainTo (id : Nat) : (tree.chainTo id).Nodup := by
  refine List.Pairwise.filterMap _ ?_ (tree.pairwise_pathTo id)
  intro first second hlt block hblock other hother heq
  refine Nat.ne_of_lt hlt (h.hash_inj first second block other hblock hother ?_)
  rw [heq]

/-- A block whose hash is taken is refused, so no two blocks of a tree share one. -/
theorem collisionless : Collisionless tree.allBlocks := by
  intro first hfirst second hsecond hhash
  obtain ⟨id, hid⟩ := mem_allBlocks_iff.mp hfirst
  obtain ⟨id', hid'⟩ := mem_allBlocks_iff.mp hsecond
  have hsame := h.hash_inj id id' first second hid hid' hhash
  rw [hsame] at hid
  exact Option.some.inj (hid.symm.trans hid')

/-- Trees with the same blocks agree. -/
theorem agree_of_mem_iff
    (hsame : ∀ block, block ∈ tree.allBlocks ↔ block ∈ other.allBlocks) : tree.Agree other :=
  fun first hfirst second hsecond =>
    h.collisionless first hfirst second ((hsame second).mpr hsecond)

/-- The hash of a block leads to its node and to no other. -/
theorem find_eq_singleton (hblock : tree.block? id = some block) :
    tree.find block.hash = [id] := by
  have hmem : ∀ other, other ∈ tree.find block.hash ↔ other ∈ [id] := by
    intro other
    rw [h.find_eq, List.mem_filter, List.mem_range, decide_eq_true_eq, List.mem_singleton]
    constructor
    · rintro ⟨-, hhash⟩
      obtain ⟨second, hsecond, heq⟩ := h.block?_of_hash hhash
      exact h.hash_inj other id second block hsecond hblock heq
    · rintro rfl
      exact ⟨lt_size_of_block? hblock, h.hash_of_block? hblock⟩
  have hnodup : (tree.find block.hash).Nodup := by
    rw [h.find_eq]
    exact List.nodup_range.filter _
  exact List.perm_singleton.mp
    ((List.perm_ext_iff_of_nodup hnodup (List.pairwise_singleton _ id)).mpr hmem)

end One

section Two

variable (h : ValidTree economics difficulty tree) (h' : ValidTree economics difficulty other)
  (hagree : tree.Agree other)

include h h' hagree

/-- **A shared block has the same chain in both trees.** -/
theorem chainTo_eq {id' : Nat} (hblock : tree.block? id = some block)
    (hblock' : other.block? id' = some block) : other.chainTo id' = tree.chainTo id := by
  induction id using h.induction generalizing id' block with
  | root id hparent =>
    have hkind := (h.root id block hblock hparent).1
    rw [chainTo_of_root hblock hparent,
      chainTo_of_root hblock' (h'.parent?_of_genesis hblock' hkind)]
  | child id parent hparent hlt ih =>
    have hkind : block.kind ≠ .genesis := by
      intro hkind
      cases (h.parent?_of_genesis hblock hkind).symm.trans hparent
    obtain ⟨-, -, below, hbelow, hprevious⟩ := h.child id parent block hblock hparent
    obtain ⟨parent', below', hparent', hlt', hbelow', hprevious'⟩ :=
      h'.exists_parent hblock' hkind
    have hsame := hagree.eq_of_hash hbelow hbelow' (hprevious.symm.trans hprevious')
    rw [chainTo_of_child hblock hparent hlt, chainTo_of_child hblock' hparent' hlt',
      ih hbelow (hsame ▸ hbelow')]

/-- **A block of one tree lacks nothing in the other but its parent**, provided that the first block
of the other is known to the one. -/
theorem lacksParent_of_judge (hfirst : ∀ first ∈ other.allBlocks, first.kind = .genesis →
    first ∈ tree.allBlocks) (hblock : tree.block? id = some block)
    (hfresh : block.hash ∉ other.hashes) {e : ValidationError}
    (hjudge : judge economics difficulty other block = .error e) : e.lacksParent = true := by
  have hid := lt_size_of_block? hblock
  obtain ⟨after, hreplays⟩ := h.replays id hid
  cases judged_of_judge hjudge with
  | duplicate hash => exact absurd hash hfresh
  | idle fresh work => exact absurd (h.work id block hblock) (Nat.not_le.mpr work)
  | secondRoot presentable kind rooted =>
    -- The first block of the other tree would be this one.
    obtain ⟨node, hnode, hparent, hkind⟩ := rooted
    have hmem : node.block ∈ other.allBlocks := List.mem_map_of_mem hnode
    obtain ⟨root, hroot⟩ := mem_allBlocks_iff.mp (hfirst node.block hmem hkind)
    have hsame := h.root_unique id root hid (lt_size_of_block? hroot)
      (h.parent?_of_genesis hblock kind) (h.parent?_of_genesis hroot hkind)
    rw [hsame] at hblock
    cases hblock.symm.trans hroot
    obtain ⟨id', hid'⟩ := mem_allBlocks_iff.mp hmem
    exact absurd (h'.hash_mem_of_block? hid') hfresh
  | badRoot e presentable kind rooted replay =>
    -- Its chain is the block alone in both trees, and it was replayed in the one.
    rw [chainTo_of_root hblock (h.parent?_of_genesis hblock kind)] at hreplays
    cases replay.symm.trans hreplays
  | orphan => rfl
  | badChild parent' e presentable kind found replay =>
    -- The parent is the same block on both sides, so the whole chain is the one replayed before.
    obtain ⟨parent, below, hparent, hlt, hbelow, hprevious⟩ := h.exists_parent hblock kind
    obtain ⟨below', hbelow', hhash'⟩ := h'.block?_of_hash (hash_of_first? found)
    have hsame := hagree.eq_of_hash hbelow hbelow' (hprevious.symm.trans hhash'.symm)
    rw [h.chainTo_eq h' hagree hbelow (hsame ▸ hbelow'),
      ← chainTo_of_child hblock hparent hlt, hreplays] at replay
    cases replay

end Two

end ValidTree

namespace Chain

variable {economics : Economics} {difficulty : Difficulty} {chain : Chain} {block : Block}

theorem Sound.mem_roots_iff (h : chain.Sound economics difficulty) :
    block ∈ chain.roots
      ↔ ∃ id, chain.tree.block? id = some block ∧ chain.tree.parent? id = none := by
  rw [roots, blocks, h.valid.roots_eq, List.mem_filterMap]
  constructor
  · rintro ⟨id, hid, hblock⟩
    exact ⟨id, hblock, by simpa using (List.mem_filter.mp hid).2⟩
  · rintro ⟨id, hblock, hparent⟩
    refine ⟨id, List.mem_filter.mpr ⟨?_, by simpa using hparent⟩, hblock⟩
    exact List.mem_range.mpr (lt_size_of_block? hblock)

/-- A sound chain finds every block that it has by its hash. -/
theorem Sound.lookup?_hash (h : chain.Sound economics difficulty) {id : Nat}
    (hblock : chain.tree.block? id = some block) : chain.lookup? block.hash = some id := by
  rw [lookup?, h.valid.find_eq_singleton hblock]
  rfl

/-- What it finds by the hash of a shared block is that block. -/
theorem Sound.block?_of_lookup? (h : chain.Sound economics difficulty) {tree : ForkTree}
    (hagree : tree.Agree chain.tree) {id node : Nat} (hblock : tree.block? id = some block)
    (hlookup : chain.lookup? block.hash = some node) : chain.tree.block? node = some block := by
  rw [lookup?, h.valid.head?_find] at hlookup
  obtain ⟨found, hfound, hhash⟩ := h.valid.block?_of_hash (hash_of_first? hlookup)
  rw [hagree.eq_of_hash hblock hfound hhash.symm]
  exact hfound

end Chain

end RecordChain
