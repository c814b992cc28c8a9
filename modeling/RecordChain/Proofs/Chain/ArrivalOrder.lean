import RecordChain.Proofs.Chain.Agreement
import RecordChain.Proofs.Chain.HeadViews

/-!
# The order of arrival does not matter

Two validators with the same rules get blocks in different orders, among them some that they refuse.
Their trees number the nodes differently, they keep other ledgers, and they have had other heads. If
both have accepted the same blocks in the end, nothing of that is left to be seen: a block names the
one it lies on by its hash, so the blocks alone determine every chain.

* **`Run`**: the checks of blocks that arrive one after the other, and what was accepted.
* **`Run.Sound`**: what every arrival keeps. The nodes of the tree hold the accepted blocks.
* **`SameNode`**: a node of one run and a node of the other that hold the same block with the same
  past.
* **`Run.equivalent_ofArrivals`**: runs that accept the same blocks end alike.
-/

namespace RecordChain

open ForkTree Validator

/-! ## Runs -/

/-- A validator with its tree, and the blocks it has accepted in the order of their arrival. -/
structure Run where
  validator : Validator
  tree : ForkTree
  accepted : List Block

namespace Run

/-- Before any block has arrived. -/
def new (economics : Economics) (difficulty : Difficulty) : Run :=
  ⟨.new economics difficulty, .empty, []⟩

/-- One more block is checked, and accepted if it got a node. -/
def arrive (run : Run) (block : Block) : Run :=
  let verdict := run.validator.validateAndInsert run.tree block
  { validator := verdict.validator
    tree := verdict.tree
    accepted := match verdict.result with
      | .ok _ => run.accepted ++ [block]
      | .error _ => run.accepted }

/-- The run in which some blocks arrive one after the other. -/
def ofArrivals (economics : Economics) (difficulty : Difficulty) (arrivals : List Block) : Run :=
  arrivals.foldl arrive (new economics difficulty)

/-- What every arrival keeps. -/
structure Sound (economics : Economics) (difficulty : Difficulty) (run : Run) : Prop where
  guards : Guards economics difficulty run.validator run.tree
  valid : ValidTree economics difficulty run.tree
  threaded : run.tree.Threaded
  allBlocks_eq : run.tree.allBlocks = run.accepted

variable {economics : Economics} {difficulty : Difficulty} {run : Run}

theorem sound_new (economics : Economics) (difficulty : Difficulty) :
    (new economics difficulty).Sound economics difficulty :=
  ⟨guards_new economics difficulty, .empty economics difficulty, .empty, rfl⟩

/-- One more arrival keeps a run sound. -/
theorem Sound.arrive (h : run.Sound economics difficulty) (block : Block) :
    (run.arrive block).Sound economics difficulty := by
  have hvalid := h.valid.settle block
  have hthreaded :=
    Chain.threaded_settle economics difficulty h.valid.toWellFormed h.threaded block
  have hsettle := h.guards.settle_eq block
  refine ⟨h.guards.validateAndInsert block, ?_, ?_, ?_⟩
  · rw [hsettle] at hvalid
    exact hvalid
  · rw [hsettle] at hthreaded
    exact hthreaded
  · -- The answer tells whether the tree has got a new node, and that it holds the block.
    unfold Run.arrive
    cases hjudge : judge economics difficulty run.tree block with
    | error e =>
      rw [hjudge] at hsettle
      obtain ⟨htree, hresult⟩ := Prod.mk.inj hsettle
      dsimp only
      rw [← htree, ← hresult]
      exact h.allBlocks_eq
    | ok parent? =>
      rw [hjudge] at hsettle
      have htree := congrArg Prod.fst hsettle
      have hresult := (settle_ok_snd run.tree block parent?).symm.trans (congrArg Prod.snd hsettle)
      dsimp only at htree hresult ⊢
      rw [← htree, ← hresult, (adds_settle run.tree block parent?).allBlocks_eq, h.allBlocks_eq]

theorem sound_ofArrivals (economics : Economics) (difficulty : Difficulty)
    (arrivals : List Block) :
    (ofArrivals economics difficulty arrivals).Sound economics difficulty := by
  have hfold : ∀ run : Run, run.Sound economics difficulty →
      (arrivals.foldl Run.arrive run).Sound economics difficulty := by
    induction arrivals with
    | nil => exact fun _ h => h
    | cons block rest ih => exact fun run h => ih _ (h.arrive block)
  exact hfold _ (sound_new economics difficulty)

end Run

/-! ## Two runs -/

/-- A node of one run and a node of another that hold the same block with the same past. -/
structure SameNode (run other : Run) (id id' : Nat) : Prop where
  block?_eq : other.tree.block? id' = run.tree.block? id
  heightAt_eq : other.tree.heightAt id' = run.tree.heightAt id
  /-- The blocks on the way from the root. -/
  chainTo_eq : other.tree.chainTo id' = run.tree.chainTo id
  ledgerAt_eq : other.validator.ledgerAt other.tree id' = run.validator.ledgerAt run.tree id
  balancesAt_eq : ∀ economics,
    other.tree.balancesAt economics (some id') = run.tree.balancesAt economics (some id)
  filesAt_eq : ∀ confirmations,
    other.tree.filesAt confirmations (some id') = run.tree.filesAt confirmations (some id)

theorem SameNode.symm {run other : Run} {id id' : Nat} (h : SameNode run other id id') :
    SameNode other run id' id :=
  ⟨h.block?_eq.symm, h.heightAt_eq.symm, h.chainTo_eq.symm, h.ledgerAt_eq.symm,
    fun economics => (h.balancesAt_eq economics).symm,
    fun confirmations => (h.filesAt_eq confirmations).symm⟩

/-- A block at the greatest height. -/
def ForkTree.AtTop (tree : ForkTree) (block : Block) : Prop :=
  ∃ id, tree.block? id = some block ∧ tree.maxHeight = some (tree.heightAt id)

/-- No two blocks share the greatest height. -/
def ForkTree.OneTop (tree : ForkTree) : Prop :=
  ∀ first second, tree.AtTop first → tree.AtTop second → first = second

namespace Run

/-- Two runs that cannot be told apart, but for the numbers of nodes and for which of several
highest blocks came first. -/
structure Equivalent (run other : Run) : Prop where
  /-- Either run finds an accepted block by its hash, with the same past. -/
  sameNode : ∀ block ∈ run.accepted, ∃ id id',
    run.tree.find block.hash = [id] ∧ other.tree.find block.hash = [id']
      ∧ run.tree.block? id = some block ∧ SameNode run other id id'
  maxHeight_eq : other.tree.maxHeight = run.tree.maxHeight
  /-- Where the highest block is the only one of its height, it is the head of both. -/
  head_eq : run.tree.OneTop →
    other.tree.head.bind other.tree.block? = run.tree.head.bind run.tree.block?
  longestChain_eq : run.tree.OneTop →
    other.tree.blocks other.tree.longestChain = run.tree.blocks run.tree.longestChain

namespace Sound

variable {economics : Economics} {difficulty : Difficulty} {run other : Run}
  (h : run.Sound economics difficulty) (h' : other.Sound economics difficulty)
  (hsame : ∀ block, block ∈ run.accepted ↔ block ∈ other.accepted)

include h h' hsame

/-- Everything that is said about a node is computed from its chain, and the chain is the same. -/
theorem sameNode {id id' : Nat} {block : Block} (hblock : run.tree.block? id = some block)
    (hblock' : other.tree.block? id' = some block) : SameNode run other id id' := by
  have hchain : other.tree.chainTo id' = run.tree.chainTo id := by
    refine h.valid.chainTo_eq h'.valid (h.valid.agree_of_mem_iff ?_) hblock hblock'
    rwa [h.allBlocks_eq, h'.allBlocks_eq]
  constructor
  case block?_eq => rw [hblock, hblock']
  case heightAt_eq =>
    have hlength := h.valid.length_chainTo (lt_size_of_block? hblock)
    have hlength' := h'.valid.length_chainTo (lt_size_of_block? hblock')
    rw [hchain] at hlength'
    omega
  case chainTo_eq => exact hchain
  case ledgerAt_eq => rw [h.guards.ledgerAt_eq, h'.guards.ledgerAt_eq, hchain]
  case balancesAt_eq =>
    intro economics
    exact congrArg (balancesAfter economics) hchain
  case filesAt_eq =>
    intro confirmations
    exact congrArg (filesAfter confirmations) hchain

/-- Every node of one run has its like in the other. -/
theorem exists_sameNode {id : Nat} (hid : id < run.tree.size) :
    ∃ id', id' < other.tree.size ∧ SameNode run other id id' := by
  obtain ⟨block, hblock⟩ := block?_isSome hid
  have hmem : block ∈ other.tree.allBlocks := by
    rw [h'.allBlocks_eq, ← hsame, ← h.allBlocks_eq]
    exact mem_allBlocks_iff.mpr ⟨id, hblock⟩
  obtain ⟨id', hblock'⟩ := mem_allBlocks_iff.mp hmem
  exact ⟨id', lt_size_of_block? hblock', h.sameNode h' hsame hblock hblock'⟩

/-- The other run reaches the height of this one's head. -/
theorem exists_head {head : Nat} (hhead : run.tree.head = some head) :
    ∃ head', other.tree.head = some head'
      ∧ run.tree.heightAt head ≤ other.tree.heightAt head' := by
  obtain ⟨id', hid', hnode⟩ := h.exists_sameNode h' hsame (h.valid.head_lt head hhead)
  cases hhead' : other.tree.head with
  | none => exact absurd hid' (by rw [h'.valid.size_of_headless hhead']; exact Nat.not_lt_zero id')
  | some head' =>
    refine ⟨head', rfl, ?_⟩
    rw [← hnode.heightAt_eq]
    exact h'.valid.le_head head' hhead' id' hid'

/-- If one run has no head, neither has the other. -/
theorem head_eq_none (hhead : run.tree.head = none) : other.tree.head = none := by
  by_contra hsome
  obtain ⟨head', hhead'⟩ := Option.ne_none_iff_exists'.mp hsome
  obtain ⟨head, hback, -⟩ := h'.exists_head h (fun block => (hsame block).symm) hhead'
  cases hhead.symm.trans hback

/-- The block at the head of the other run is as high in this run as the head, if it is not the head
itself. -/
theorem exists_head_sameNode {head : Nat} (hhead : run.tree.head = some head) :
    ∃ head' id, other.tree.head = some head' ∧ SameNode run other id head'
      ∧ run.tree.heightAt id = run.tree.heightAt head := by
  obtain ⟨head', hhead', hle⟩ := h.exists_head h' hsame hhead
  obtain ⟨id, hid, hnode⟩ := h'.exists_sameNode h (fun block => (hsame block).symm)
    (h'.valid.head_lt head' hhead')
  have hheight := hnode.heightAt_eq
  have hle' := h.valid.le_head head hhead id hid
  exact ⟨head', id, hhead', hnode.symm, by omega⟩

/-- Both trees are of the same height. -/
theorem maxHeight_eq : other.tree.maxHeight = run.tree.maxHeight := by
  rw [maxHeight, maxHeight]
  cases hhead : run.tree.head with
  | none => rw [h.head_eq_none h' hsame hhead, Option.map_none, Option.map_none]
  | some head =>
    obtain ⟨head', id, hhead', hnode, hid⟩ := h.exists_head_sameNode h' hsame hhead
    rw [hhead', Option.map_some, Option.map_some, hnode.heightAt_eq, hid]

/-- If there is one highest block only, it is at the head of both runs. -/
theorem sameNode_head (htop : run.tree.OneTop) {head : Nat} (hhead : run.tree.head = some head) :
    ∃ head', other.tree.head = some head' ∧ SameNode run other head head' := by
  obtain ⟨head', id, hhead', hnode, hid⟩ := h.exists_head_sameNode h' hsame hhead
  obtain ⟨block, hblock⟩ := block?_isSome (h.valid.head_lt head hhead)
  obtain ⟨block', hblock'⟩ := block?_isSome (h'.valid.head_lt head' hhead')
  have hsecond : run.tree.block? id = some block' := hnode.block?_eq.symm.trans hblock'
  have hmax : run.tree.maxHeight = some (run.tree.heightAt head) := by
    rw [maxHeight, hhead, Option.map_some]
  have heq := htop block block' ⟨head, hblock, hmax⟩ ⟨id, hsecond, by rw [hid, hmax]⟩
  exact ⟨head', hhead', h.sameNode h' hsame hblock (heq ▸ hblock')⟩

end Sound

/-- **The order of arrival does not matter.** Two runs with the same rules that accept the same
blocks end alike, whatever the order and whatever else was refused in between. That different
accepted blocks have different hashes need not be asked for: of two that share one, the second is
refused. -/
theorem equivalent_ofArrivals (economics : Economics) (difficulty : Difficulty)
    (arrivals arrivals' : List Block)
    (hsame : ∀ block, block ∈ (ofArrivals economics difficulty arrivals).accepted
      ↔ block ∈ (ofArrivals economics difficulty arrivals').accepted) :
    (ofArrivals economics difficulty arrivals).Equivalent
      (ofArrivals economics difficulty arrivals') := by
  have h := sound_ofArrivals economics difficulty arrivals
  have h' := sound_ofArrivals economics difficulty arrivals'
  generalize ofArrivals economics difficulty arrivals = run at *
  generalize ofArrivals economics difficulty arrivals' = other at *
  constructor
  case sameNode =>
    intro block hblock
    rw [← h.allBlocks_eq] at hblock
    obtain ⟨id, hid⟩ := mem_allBlocks_iff.mp hblock
    obtain ⟨id', -, hnode⟩ := h.exists_sameNode h' hsame (lt_size_of_block? hid)
    have hid' := hnode.block?_eq.trans hid
    exact ⟨id, id', h.valid.find_eq_singleton hid, h'.valid.find_eq_singleton hid', hid, hnode⟩
  case maxHeight_eq => exact h.maxHeight_eq h' hsame
  case head_eq =>
    intro htop
    cases hhead : run.tree.head with
    | none =>
      rw [h.head_eq_none h' hsame hhead]
      rfl
    | some head =>
      obtain ⟨head', hhead', hnode⟩ := h.sameNode_head h' hsame htop hhead
      rw [hhead']
      exact hnode.block?_eq
  case longestChain_eq =>
    intro htop
    cases hhead : run.tree.head with
    | none =>
      rw [longestChain, longestChain, hhead, h.head_eq_none h' hsame hhead]
      rfl
    | some head =>
      obtain ⟨head', hhead', hnode⟩ := h.sameNode_head h' hsame htop hhead
      rw [(ForkTree.longestChain_eq h.valid.toWellFormed h.threaded hhead).1,
        (ForkTree.longestChain_eq h'.valid.toWellFormed h'.threaded hhead').1]
      exact hnode.chainTo_eq

/-- The forks of `twoForks` the other way round. The top comes once too early and is refused for want
of its parent, and one block comes twice. -/
def lateForks : List Block :=
  let root := Block.genesis "miner" 0
  let left := Block.regular root.hash "ann" [.create "ann" "notes"] 0
  let right := Block.noOp root.hash "bob" 0
  let top := Block.regular right.hash "bob" [.create "bob" "notes"] 0
  [top, root, right, top, right, left]

/-- The forks come to the same whichever of them arrives first, a block too early or twice included. -/
theorem equivalent_ofArrivals_twoForks :
    (∀ block, block ∈ (ofArrivals ⟨9, 1, 2, 1⟩ ⟨0, 0⟩ twoForks).accepted
        ↔ block ∈ (ofArrivals ⟨9, 1, 2, 1⟩ ⟨0, 0⟩ lateForks).accepted)
      ∧ (ofArrivals ⟨9, 1, 2, 1⟩ ⟨0, 0⟩ twoForks).tree.OneTop
      ∧ (ofArrivals ⟨9, 1, 2, 1⟩ ⟨0, 0⟩ twoForks).tree.size = 4
      ∧ (ofArrivals ⟨9, 1, 2, 1⟩ ⟨0, 0⟩ twoForks).Equivalent
          (ofArrivals ⟨9, 1, 2, 1⟩ ⟨0, 0⟩ lateForks) := by
  obtain ⟨hperm, hsize, htop⟩ : (ofArrivals ⟨9, 1, 2, 1⟩ ⟨0, 0⟩ twoForks).accepted.Perm
        (ofArrivals ⟨9, 1, 2, 1⟩ ⟨0, 0⟩ lateForks).accepted
      ∧ (ofArrivals ⟨9, 1, 2, 1⟩ ⟨0, 0⟩ twoForks).tree.size = 4
      ∧ ∀ id < 4, (ofArrivals ⟨9, 1, 2, 1⟩ ⟨0, 0⟩ twoForks).tree.maxHeight
        = some ((ofArrivals ⟨9, 1, 2, 1⟩ ⟨0, 0⟩ twoForks).tree.heightAt id) → id = 3 := by
    decide +kernel
  refine ⟨fun block => hperm.mem_iff, ?_, hsize,
    equivalent_ofArrivals ⟨9, 1, 2, 1⟩ ⟨0, 0⟩ twoForks lateForks fun block => hperm.mem_iff⟩
  rintro first second ⟨id, hid, hmax⟩ ⟨id', hid', hmax'⟩
  have hlt := hsize ▸ lt_size_of_block? hid
  have hlt' := hsize ▸ lt_size_of_block? hid'
  rw [htop id hlt hmax] at hid
  rw [htop id' hlt' hmax'] at hid'
  exact Option.some.inj (hid.symm.trans hid')

end Run

end RecordChain
