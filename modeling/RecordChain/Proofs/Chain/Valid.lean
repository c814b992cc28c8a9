import RecordChain.Chain
import RecordChain.Proofs.Validator.Cache

/-!
# Every chain of the tree is valid

Insertions through the validator build trees in which every block is valid where it stands, on every
fork and not only on the longest chain.

* **`ValidTree`**: hashes are unique, every block shows its work, there is one first block at most,
  every other block extends its parent by hash and height, and every chain from the root can be
  replayed.
* **`ValidTree.of_adds`**: the one step. A new node that has its place in the tree leaves it valid,
  and a judgement gives nodes their place (`ValidTree.settle`).
* **`Chain.ofBlocks`**: the chain that any sequence of insertions builds. Its tree is valid
  (`validTree_ofBlocks`).
-/

namespace RecordChain

open ForkTree Validator

/-- A tree of valid blocks. -/
structure ValidTree (economics : Economics) (difficulty : Difficulty) (tree : ForkTree) : Prop
    extends WellFormed tree where
  hash_inj : ∀ id other block second, tree.block? id = some block →
    tree.block? other = some second → block.hash = second.hash → id = other
  work : ∀ id block, tree.block? id = some block →
    difficulty.required block.kind ≤ block.hash.zeroBits
  root_unique : ∀ id other, id < tree.size → other < tree.size →
    tree.parent? id = none → tree.parent? other = none → id = other
  root : ∀ id block, tree.block? id = some block → tree.parent? id = none →
    block.kind = .genesis ∧ block.operations = []
  /-- A block that is no root has no place in the tree but on top of the block it names. -/
  child : ∀ id parent block, tree.block? id = some block → tree.parent? id = some parent →
    (block.kind = .noOp ∧ block.operations = [] ∨ block.kind = .regular)
      ∧ tree.heightAt id = tree.heightAt parent + 1
      ∧ ∃ below, tree.block? parent = some below ∧ block.previous = below.hash
  replays : ∀ id, id < tree.size →
    ∃ ledger, Ledger.replay (some economics) (tree.chainTo id) = .ok ledger

/-! ## What a replay says about its last block -/

/-- On a chain that replays, the last block applies to the ledger before it. -/
theorem Ledger.applyBlock_of_replay_concat {economics : Option Economics} {path : List Block}
    {block : Block} {ledger : Ledger} (h : replay economics (path ++ [block]) = .ok ledger) :
    ∃ before, (applyBlock before block path.length).toExcept = .ok ledger := by
  rw [replay_concat] at h
  cases hpath : replay economics path with
  | error e =>
    rw [hpath] at h
    cases h
  | ok before =>
    rw [hpath] at h
    exact ⟨before, h⟩

/-- A first block that applies has no operations. -/
theorem Ledger.operations_of_genesis {before after : Ledger} {block : Block} {height : Nat}
    (hkind : block.kind = .genesis)
    (h : (applyBlock before block height).toExcept = .ok after) : block.operations = [] := by
  by_contra hops
  rw [applyBlock, hkind] at h
  dsimp only at h
  rw [if_pos hops] at h
  split at h <;> cases h

/-- Of the other blocks that apply, only regular ones carry operations. -/
theorem Ledger.operations_of_not_genesis {before after : Ledger} {block : Block} {height : Nat}
    (hkind : block.kind ≠ .genesis)
    (h : (applyBlock before block height).toExcept = .ok after) :
    block.kind = .noOp ∧ block.operations = [] ∨ block.kind = .regular := by
  cases hcase : block.kind with
  | genesis => exact absurd hcase hkind
  | regular => exact Or.inr rfl
  | noOp =>
    refine Or.inl ⟨rfl, ?_⟩
    by_contra hops
    rw [applyBlock, hcase] at h
    dsimp only at h
    rw [if_pos hops] at h
    cases h

/-! ## One insertion -/

namespace ValidTree

variable {economics : Economics} {difficulty : Difficulty} {tree : ForkTree} {block : Block}

theorem empty (economics : Economics) (difficulty : Difficulty) :
    ValidTree economics difficulty .empty where
  toWellFormed := .empty
  hash_inj := by intro id other block second h; cases h
  work := by intro id block h; cases h
  root_unique := by intro id other h; cases h
  root := by intro id block h; cases h
  child := by intro id parent block h; cases h
  replays := by intro id h; cases h

/-- A valid tree without a first block has no roots. -/
theorem parent?_ne_none_of_not_rooted (h : ValidTree economics difficulty tree)
    (hrooted : ¬ tree.Rooted) {id : Nat} (hid : id < tree.size) : tree.parent? id ≠ none := by
  intro hparent
  obtain ⟨block, hblock⟩ := block?_isSome hid
  have hkind := (h.root id block hblock hparent).1
  rw [block?_eq] at hblock
  obtain ⟨node, hnode, rfl⟩ := Option.map_eq_some_iff.mp hblock
  rw [parent?_eq, hnode] at hparent
  exact hrooted ⟨node, List.mem_of_getElem? hnode, hparent, hkind⟩

/-- A new node that is presentable, has its place in the tree and a chain that can be replayed
leaves the tree valid. -/
theorem of_adds {after : ForkTree} {height : Nat} {parent? : Option Nat}
    (hadds : tree.Adds after ⟨block.hash, block, height, parent?, none⟩)
    (h : ValidTree economics difficulty tree) (hwf : after.WellFormed)
    (hpresentable : Presentable difficulty tree block)
    (hroot : parent? = none → (∀ id, id < tree.size → tree.parent? id ≠ none)
      ∧ block.kind = .genesis ∧ block.operations = [])
    (hchild : ∀ parent, parent? = some parent → parent < tree.size
      ∧ (block.kind = .noOp ∧ block.operations = [] ∨ block.kind = .regular)
      ∧ tree.hashes[parent]? = some block.previous)
    (hreplay : ∃ ledger,
      Ledger.replay (some economics) (after.chainTo tree.size) = .ok ledger) :
    ValidTree economics difficulty after := by
  have hgrows := hadds.growsTo
  have hnew : after.parent? tree.size = parent? := hadds.parent?_new
  refine ⟨hwf, ?hash_inj, ?work, ?root_unique, ?root, ?child, ?replays⟩
  case hash_inj =>
    intro id other first second hfirst hsecond hhash
    rcases hadds.block?_cases hfirst with ⟨hid, hold⟩ | ⟨rfl, rfl⟩ <;>
      rcases hadds.block?_cases hsecond with ⟨hother, hold'⟩ | ⟨rfl, rfl⟩
    · exact h.hash_inj id other first second hold hold' hhash
    -- The new block does not share its hash with an old one, since it was no duplicate.
    · have hmem := h.hash_mem_of_block? hold
      rw [hhash] at hmem
      exact absurd hmem hpresentable.fresh
    · have hmem := h.hash_mem_of_block? hold'
      rw [← hhash] at hmem
      exact absurd hmem hpresentable.fresh
    · rfl
  case work =>
    intro id other hother
    rcases hadds.block?_cases hother with ⟨-, hold⟩ | ⟨-, rfl⟩
    · exact h.work id other hold
    · exact hpresentable.work
  case root_unique =>
    intro id other hid hother hnone hnone'
    rcases hadds.lt_size_cases hid with hid | rfl <;>
      rcases hadds.lt_size_cases hother with hother | rfl
    · exact h.root_unique id other hid hother (hgrows.parent? hid ▸ hnone)
        (hgrows.parent? hother ▸ hnone')
    · exact absurd (hgrows.parent? hid ▸ hnone) ((hroot (hnew ▸ hnone')).1 id hid)
    · exact absurd (hgrows.parent? hother ▸ hnone') ((hroot (hnew ▸ hnone)).1 other hother)
    · rfl
  case root =>
    intro id other hother hnone
    rcases hadds.block?_cases hother with ⟨hid, hold⟩ | ⟨rfl, rfl⟩
    · exact h.root id other hold (hgrows.parent? hid ▸ hnone)
    · exact (hroot (hnew ▸ hnone)).2
  case child =>
    intro id parent other hother hparent
    refine ⟨?_, hwf.height_child id parent hparent, ?_⟩ <;>
      rcases hadds.block?_cases hother with ⟨hid, hold⟩ | ⟨rfl, rfl⟩
    · exact (h.child id parent other hold (hgrows.parent? hid ▸ hparent)).1
    · exact (hchild parent (hnew ▸ hparent)).2.1
    · have hparent' : tree.parent? id = some parent := hgrows.parent? hid ▸ hparent
      have hlt := Nat.lt_trans (h.parent_lt id parent hparent') hid
      rw [hgrows.block? hlt]
      exact (h.child id parent other hold hparent').2.2
    · obtain ⟨hlt, -, hhash⟩ := hchild parent (hnew ▸ hparent)
      obtain ⟨below, hbelow, heq⟩ := h.block?_of_hash hhash
      exact ⟨below, hgrows.block? hlt ▸ hbelow, heq.symm⟩
  case replays =>
    intro id hid
    rcases hadds.lt_size_cases hid with hold | rfl
    · rw [hgrows.chainTo hold]
      exact h.replays id hold
    · exact hreplay

/-- Whatever a block is judged to be, what the judgement makes of a valid tree is valid. -/
theorem settle (h : ValidTree economics difficulty tree) (block : Block) :
    ValidTree economics difficulty
      (Validator.settle tree block (judge economics difficulty tree block)).1 := by
  have hwf := wellFormed_settle economics difficulty h.toWellFormed block
  generalize hjudge : judge economics difficulty tree block = judgement at hwf ⊢
  cases judged_of_judge hjudge with
  | root ledger presentable kind rooted replay =>
    -- The height of a root is the number of blocks below it, of which there are none.
    have hadds := adds_settle tree block none
    have halone : Ledger.replay (some economics) ([] ++ [block]) = .ok ledger := replay
    obtain ⟨before, happly⟩ := Ledger.applyBlock_of_replay_concat halone
    refine of_adds hadds h hwf presentable (fun _ => ⟨?_, kind, ?_⟩) ?_ ?_
    · exact fun id hid => h.parent?_ne_none_of_not_rooted rooted hid
    · exact Ledger.operations_of_genesis kind happly
    · intro parent hparent
      cases hparent
    · rw [hadds.chainTo_new_root rfl]
      exact ⟨ledger, replay⟩
  | child parent ledger presentable kind found replay =>
    have hadds := adds_settle tree block (some parent)
    have hparent := lt_size_of_first? found
    obtain ⟨before, happly⟩ := Ledger.applyBlock_of_replay_concat replay
    refine of_adds hadds h hwf presentable ?_ ?_ ?_
    · intro hnone
      cases hnone
    · intro found' hfound
      cases hfound
      exact ⟨hparent, Ledger.operations_of_not_genesis kind happly, hash_of_first? found⟩
    · rw [hadds.chainTo_new_child rfl hparent]
      exact ⟨ledger, replay⟩
  | _ => exact h

end ValidTree

/-! ## Chains -/

namespace Chain

/-- The chain that inserting some blocks one after the other builds. Those that fail a check leave
no trace in its tree. -/
def ofBlocks (economics : Economics) (difficulty : Difficulty) (blocks : List Block) : Chain :=
  blocks.foldl (fun chain block => (chain.insert block).chain) (.new economics difficulty)

theorem ofBlocks_concat (economics : Economics) (difficulty : Difficulty) (blocks : List Block)
    (block : Block) : ofBlocks economics difficulty (blocks ++ [block])
      = ((ofBlocks economics difficulty blocks).insert block).chain :=
  List.foldl_concat ..

/-- A chain whose validator guards a tree of valid blocks. -/
structure Sound (economics : Economics) (difficulty : Difficulty) (chain : Chain) : Prop where
  guards : Guards economics difficulty chain.validator chain.tree
  valid : ValidTree economics difficulty chain.tree

/-- The tree after an insertion is the validator's. -/
theorem insert_tree (chain : Chain) (block : Block) :
    (chain.insert block).chain.tree
      = (chain.validator.validateAndInsert chain.tree block).tree := by
  unfold insert
  split
  split
  · next hverdict => rw [hverdict]
  · next hverdict =>
    rw [hverdict]
    split <;> rfl

theorem insert_validator (chain : Chain) (block : Block) :
    (chain.insert block).chain.validator
      = (chain.validator.validateAndInsert chain.tree block).validator := by
  unfold insert
  split
  split
  · next hverdict => rw [hverdict]
  · next hverdict =>
    rw [hverdict]
    split <;> rfl

/-- To watch the head changes neither tree nor validator. -/
theorem stopOnHeadChange_tree (chain : Chain) (head : Option Nat) (token : Token) :
    (chain.stopOnHeadChange head token).1.tree = chain.tree
      ∧ (chain.stopOnHeadChange head token).1.validator = chain.validator := by
  rw [stopOnHeadChange]
  split <;> exact ⟨rfl, rfl⟩

variable {economics : Economics} {difficulty : Difficulty} {chain : Chain}

/-- An insertion keeps a chain sound. -/
theorem Sound.insert (h : Sound economics difficulty chain) (block : Block) :
    Sound economics difficulty (chain.insert block).chain := by
  constructor
  · rw [insert_tree, insert_validator]
    exact h.guards.validateAndInsert block
  · have hvalid := h.valid.settle block
    rw [h.guards.settle_eq block] at hvalid
    rw [insert_tree]
    exact hvalid

theorem sound_new (economics : Economics) (difficulty : Difficulty) :
    Sound economics difficulty (.new economics difficulty) :=
  ⟨guards_new economics difficulty, .empty economics difficulty⟩

/-- What every insertion into a sound chain keeps is true of the chain that insertions build. -/
theorem ofBlocks_induction {motive : Chain → Prop} (new : motive (.new economics difficulty))
    (insert : ∀ chain block, Sound economics difficulty chain → motive chain →
      motive (chain.insert block).chain) (blocks : List Block) :
    motive (ofBlocks economics difficulty blocks) := by
  have hfold : ∀ chain, Sound economics difficulty chain → motive chain →
      motive (blocks.foldl (fun chain block => (chain.insert block).chain) chain) := by
    induction blocks with
    | nil => exact fun _ _ h => h
    | cons block rest ih =>
      exact fun chain hsound h => ih _ (hsound.insert block) (insert chain block hsound h)
  exact hfold _ (sound_new economics difficulty) new

/-- A chain of any blocks is sound. Induction on the blocks. -/
theorem sound_ofBlocks (economics : Economics) (difficulty : Difficulty) (blocks : List Block) :
    Sound economics difficulty (ofBlocks economics difficulty blocks) :=
  ofBlocks_induction (sound_new economics difficulty) (fun _ block h _ => h.insert block) blocks

/-- A chain that insertions have built. Who waits for its head to move does not matter. -/
def Built (economics : Economics) (difficulty : Difficulty) (chain : Chain) : Prop :=
  ∃ blocks, chain.tree = (ofBlocks economics difficulty blocks).tree
    ∧ chain.validator = (ofBlocks economics difficulty blocks).validator

/-- Inserting blocks one by one builds a chain. -/
theorem built_ofBlocks (economics : Economics) (difficulty : Difficulty) (blocks : List Block) :
    Built economics difficulty (ofBlocks economics difficulty blocks) :=
  ⟨blocks, rfl, rfl⟩

theorem Built.insert (h : Built economics difficulty chain) (block : Block) :
    Built economics difficulty (chain.insert block).chain := by
  obtain ⟨blocks, htree, hvalidator⟩ := h
  refine ⟨blocks ++ [block], ?_, ?_⟩
  · rw [ofBlocks_concat, insert_tree, insert_tree, htree, hvalidator]
  · rw [ofBlocks_concat, insert_validator, insert_validator, htree, hvalidator]

theorem Built.sound (h : Built economics difficulty chain) : Sound economics difficulty chain := by
  obtain ⟨blocks, htree, hvalidator⟩ := h
  obtain ⟨hguards, hvalid⟩ := sound_ofBlocks economics difficulty blocks
  exact ⟨htree ▸ hvalidator ▸ hguards, htree ▸ hvalid⟩

end Chain

/-- **The tree of a chain holds valid blocks only.** Whatever blocks are inserted in whatever order,
every block of the tree is valid where it stands, on all forks. -/
theorem validTree_ofBlocks (economics : Economics) (difficulty : Difficulty)
    (blocks : List Block) :
    ValidTree economics difficulty (Chain.ofBlocks economics difficulty blocks).tree :=
  (Chain.sound_ofBlocks economics difficulty blocks).valid

end RecordChain
