import RecordChain.Proofs.Chain.Valid
import RecordChain.Proofs.ForkTree.Longest
import RecordChain.Proofs.Ledger.Confirmation

/-!
# All views of the head agree

The state at the head can be had in several ways: from the ledger that the validator keeps or
replays, from the longest chain found along child links, or from the way to the head found along
parent links, and files even without money. Readers may use any of them.

* **`Chain.threaded_ofBlocks`**: child links thread the tree of every chain that insertions build, so
  the longest chain is the one that ends in the head (`Chain.longest_eq`).
* **`Chain.Sound.of_head?`**, **`Chain.Sound.exists_ledgerAt`**: what a head says about its node, and
  that there is a ledger after it.
* **`headSeen_ofBlocks`**: in a chain that is not empty every view of the head succeeds, and all show
  the ledger at the head.
-/

namespace RecordChain

open ForkTree Validator

/-! ## The head -/

namespace Chain

variable {economics : Economics} {difficulty : Difficulty} {chain : Chain}

theorem threaded_settle (economics : Economics) (difficulty : Difficulty) {tree : ForkTree}
    (hwf : tree.WellFormed) (h : tree.Threaded) (block : Block) :
    (settle tree block (judge economics difficulty tree block)).1.Threaded := by
  generalize hjudge : judge economics difficulty tree block = judgement
  cases judged_of_judge hjudge with
  | root => exact h.insertRoot hwf block
  | child parent ledger presentable kind found =>
    exact h.insertChild hwf block (lt_size_of_first? found)
  | _ => exact h

theorem threaded_ofBlocks (economics : Economics) (difficulty : Difficulty)
    (blocks : List Block) : (ofBlocks economics difficulty blocks).tree.Threaded := by
  refine ofBlocks_induction (motive := fun chain => chain.tree.Threaded) .empty ?_ blocks
  intro chain block hsound hthreaded
  have hsettle := threaded_settle economics difficulty hsound.valid.toWellFormed hthreaded block
  rw [hsound.guards.settle_eq block] at hsettle
  rw [insert_tree]
  exact hsettle

theorem Built.threaded (h : chain.Built economics difficulty) : chain.tree.Threaded := by
  obtain ⟨blocks, htree, -⟩ := h
  exact htree ▸ threaded_ofBlocks economics difficulty blocks

/-- The longest chain is the one that ends in the head. -/
theorem longest_eq (hwf : chain.tree.WellFormed) (h : chain.tree.Threaded) {head : Nat}
    (hhead : chain.tree.head = some head) : chain.longest = chain.tree.chainTo head := by
  rw [longest, (longestChain_eq hwf h hhead).1, chainTo]

/-- What an insertion does to the head: a node above all others takes its place. -/
theorem head?_of_adds {after : Chain} {node : Node} (hheaded : chain.tree.Headed)
    (hadds : chain.tree.Adds after.tree node) :
    after.head? = if chain.tree.maxHeight.all (· < node.height) then
      some ⟨chain.size, node.hash, node.height⟩ else chain.head? := by
  -- Child links do not matter to the head, and the rest of the other nodes stays as it was.
  have hfixed : ∀ chain : Chain, chain.head? = chain.tree.head.bind fun id =>
      chain.tree.fixed[id]?.map fun node => ⟨id, node.hash, node.height⟩ := by
    intro chain
    simp only [getElem?_fixed, Option.map_map]
    rfl
  rw [hfixed after, hadds.head_eq]
  split
  · rw [Option.bind_some, size, hadds.getElem?_new, Option.map_some]
  · rw [hfixed chain]
    cases hhead : chain.tree.head with
    | none => rfl
    | some head =>
      rw [Option.bind_some, Option.bind_some,
        hadds.growsTo.getElem?_fixed (hheaded.head_lt head hhead)]

namespace Sound

variable (h : chain.Sound economics difficulty)

include h

/-- The head bears the hash and the height of its node. -/
theorem head?_eq {head : Nat} {block : Block} (hhead : chain.tree.head = some head)
    (hblock : chain.tree.block? head = some block) :
    chain.head? = some ⟨head, block.hash, chain.tree.heightAt head⟩ := by
  obtain ⟨node, hnode, rfl⟩ := Option.map_eq_some_iff.mp hblock
  have hfixed : chain.tree.fixed[head]? = some node.fixed := by
    rw [getElem?_fixed, hnode]
    rfl
  have hhash : node.hash = node.block.hash :=
    h.valid.hash_eq node.fixed (List.mem_of_getElem? hfixed)
  rw [head?, hhead, Option.bind_some, hnode, Option.map_some, heightAt, hnode, ← hhash]
  rfl

/-- What a head says about its node. -/
theorem of_head? {head : Head} (hhead : chain.head? = some head) :
    chain.tree.head = some head.node ∧ head.height = chain.tree.heightAt head.node
      ∧ ∃ block, chain.tree.block? head.node = some block ∧ head.hash = block.hash := by
  obtain ⟨id, hid, -⟩ := Option.bind_eq_some_iff.mp hhead
  obtain ⟨block, hblock⟩ := block?_isSome (h.valid.head_lt id hid)
  rw [h.head?_eq hid hblock] at hhead
  obtain rfl := Option.some.inj hhead
  exact ⟨hid, rfl, block, hblock, rfl⟩

theorem exists_head (hsize : 0 < chain.size) :
    ∃ head block, chain.tree.head = some head ∧ chain.tree.block? head = some block := by
  cases hhead : chain.tree.head with
  | none =>
    have hempty : chain.size = 0 := h.valid.size_of_headless hhead
    omega
  | some head =>
    obtain ⟨block, hblock⟩ := block?_isSome (h.valid.head_lt head hhead)
    exact ⟨head, block, rfl, hblock⟩

/-- The ledger after a node of a sound chain is that of its chain, and there always is one. -/
theorem exists_ledgerAt {id : Nat} (hid : id < chain.tree.size) :
    ∃ ledger, Ledger.replay (some economics) (chain.tree.chainTo id) = .ok ledger
      ∧ chain.ledgerAt id = .ok ledger := by
  obtain ⟨ledger, hreplay⟩ := h.valid.replays id hid
  exact ⟨ledger, hreplay, by rw [ledgerAt, h.guards.ledgerAt_eq, hreplay]⟩

end Sound
end Chain

/-! ## All views -/

/-- What there is to be seen at the head of a chain, in whatever way. -/
structure HeadSeen (economics : Economics) (confirmations : Confirmations) (chain : Chain)
    (head : Head) (ledger : Ledger) (views : FileViews) : Prop where
  head_eq : chain.head? = some head
  ledger_eq : chain.ledgerAt head.node = .ok ledger
  balances_eq : chain.balances = .ok ledger.accounts
  balancesAt_eq : chain.tree.balancesAt economics (some head.node) = .ok ledger.accounts
  files_eq : chain.files confirmations = .ok views
  filesAt_eq : chain.tree.filesAt confirmations (some head.node) = .ok views
  /-- The files seen are those of the ledger as far as they are confirmed. -/
  views_iff : ∀ (name : FileName) (view : FileView), views[name]? = some view
    ↔ ∃ file : File, ledger.files[name]? = some file
        ∧ file.Shows confirmations head.height view
  /-- With nothing to wait for, the files are seen as they are. -/
  whole : confirmations = ⟨0, 0⟩ → ∀ name : FileName,
    views[name]? = ledger.files[name]?.map File.whole

/-- **All views of the head agree, and none fails**, whatever blocks were inserted in whatever order
and whatever forks they made. -/
theorem headSeen_ofBlocks (economics : Economics) (difficulty : Difficulty) (blocks : List Block)
    (confirmations : Confirmations)
    (hsize : 0 < (Chain.ofBlocks economics difficulty blocks).size) :
    ∃ head ledger views, HeadSeen economics confirmations
      (Chain.ofBlocks economics difficulty blocks) head ledger views := by
  have hsound := Chain.sound_ofBlocks economics difficulty blocks
  have hthreaded := Chain.threaded_ofBlocks economics difficulty blocks
  generalize Chain.ofBlocks economics difficulty blocks = chain at *
  obtain ⟨head, block, hhead, hblock⟩ := hsound.exists_head hsize
  have hlt := lt_size_of_block? hblock
  obtain ⟨ledger, hreplay, hledger⟩ := hsound.exists_ledgerAt hlt
  have hlongest := Chain.longest_eq hsound.valid.toWellFormed hthreaded hhead
  have hlength := hsound.valid.length_chainTo hlt
  -- Both kinds of states depend on the chain alone, and all ways give the same chain.
  have hbalances : balancesAfter economics (chain.tree.chainTo head) = .ok ledger.accounts := by
    rw [balancesAfter, hreplay]
  have hfiles : filesAfter confirmations (chain.tree.chainTo head)
      = .ok (ledger.unpriced.views confirmations (chain.tree.heightAt head)) := by
    rw [filesAfter_eq (Ledger.replay_unpriced hreplay), hlength, Nat.add_sub_cancel]
  refine ⟨_, ledger, _, hsound.head?_eq hhead hblock, hledger, ?_, hbalances, ?_, hfiles, ?_, ?_⟩
  · rw [Chain.balances, hsound.guards.economics_eq, hlongest, hbalances]
  · rw [Chain.files, hlongest, hfiles]
  · intro name view
    rw [getElem?_views, Option.bind_eq_some_iff]
    simp only [File.view?_eq_some_iff]
    rfl
  · rintro rfl name
    rw [getElem?_views]
    change ledger.files[name]?.bind _ = _
    cases ledger.files[name]? with
    | none => rfl
    | some file => exact file.view?_unconfirmed _

/-- Two forks that create the same file, the second of which takes over the head. -/
def twoForks : List Block :=
  let root := Block.genesis "miner" 0
  let left := Block.regular root.hash "ann" [.create "ann" "notes"] 0
  let right := Block.noOp root.hash "bob" 0
  let top := Block.regular right.hash "bob" [.create "bob" "notes"] 0
  [root, left, right, top]

theorem headSeen_twoForks :
    0 < (Chain.ofBlocks ⟨9, 1, 2, 1⟩ ⟨0, 0⟩ twoForks).size
      ∧ ∃ head ledger views, HeadSeen ⟨9, 1, 2, 1⟩ ⟨0, 1⟩
          (Chain.ofBlocks ⟨9, 1, 2, 1⟩ ⟨0, 0⟩ twoForks) head ledger views := by
  have hsize : 0 < (Chain.ofBlocks ⟨9, 1, 2, 1⟩ ⟨0, 0⟩ twoForks).size := by decide +kernel
  exact ⟨hsize, headSeen_ofBlocks ⟨9, 1, 2, 1⟩ ⟨0, 0⟩ twoForks ⟨0, 1⟩ hsize⟩

end RecordChain
