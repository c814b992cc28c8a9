import RecordChain.Worker.Job
import RecordChain.Proofs.Adoption.Stepping
import RecordChain.Proofs.Chain.Agreement
import RecordChain.Proofs.Mining.Sifting

/-!
# What is selected can be mined

Operations are selected in a trial run that goes on after failures, and blocks are checked in a run
that stops at the first one. What the trial run has passed by leaves no trace in its ledger, so a
block of what it has chosen applies, and ends in the ledger in which the trial run ended.

* **`Selection.applyOps_pass`**: the chosen operations apply one after another.
* **`Chain.Tops`**: a block that applies on top of a node. It can be inserted there
  (`Chain.Sound.insert_of_tops`), and takes the head over if the node is the head
  (`Chain.Sound.takenOver_of_tops`).
* **`mined_select`**: a block found for what was selected is accepted, sent to the peers and the new
  head, if nothing was inserted in between.
-/

namespace RecordChain

open ForkTree Validator

/-! ## The trial run -/

/-- **The chosen operations apply one after another**, although others were tried in between. -/
theorem Selection.applyOps_pass (height room : Nat) (ledger : Ledger) (postponed : List FileName)
    (jobs : List Operation) :
    ledger.applyOps height (pass height room ledger postponed jobs).chosen
      = ⟨(pass height room ledger postponed jobs).ledger, none⟩ := by
  fun_induction pass height room ledger postponed jobs with
  | case1 | case2 => rfl
  | case3 room ledger postponed op rest next hop later ih =>
    exact Ledger.applyOps_cons_eq_ok_iff.mpr ⟨next, hop, ih⟩
  -- Postponed or dropped, an operation that fails leaves the ledger that it found.
  | case4 room ledger postponed op rest next e hop hpostpone ih =>
    obtain rfl := Ledger.applyOp_failed hop
    exact ih
  | case5 room ledger postponed op rest next e hop hpostpone later ih =>
    obtain rfl := Ledger.applyOp_failed hop
    exact ih

/-- A block of what was chosen applies, and leaves what the trial run has left. -/
theorem MinerConfig.applyBlock_select (config : MinerConfig) (ledger : Ledger) (headHeight : Nat)
    (jobs : List Operation) (previous : BlockHash) (nonce : UInt64) :
    ledger.applyBlock
        (.regular previous config.miner (config.select ledger headHeight jobs).chosen nonce)
        (headHeight + 1)
      = ⟨(config.select ledger headHeight jobs).ledger, none⟩ :=
  Ledger.applyBlock_eq_ok_iff.mpr ⟨trivial, Selection.applyOps_pass ..⟩

/-! ## Blocks on top of the head -/

namespace Chain

/-- A block that applies on top of a node, with the ledger after it. -/
structure Tops (economics : Economics) (difficulty : Difficulty) (tree : ForkTree) (id : Nat)
    (block : Block) (ledger : Ledger) : Prop where
  presentable : Presentable difficulty tree block
  kind : block.kind ≠ .genesis
  previous : ∃ below, tree.block? id = some below ∧ block.previous = below.hash
  applies : ∃ before, Ledger.replay (some economics) (tree.chainTo id) = .ok before
    ∧ before.applyBlock block (tree.heightAt id + 1) = ⟨ledger, none⟩

/-- A chain whose head a block has taken over from the one below it. -/
structure TakenOver (before after : Chain) (head : Head) (block : Block) (ledger : Ledger) :
    Prop where
  head_eq : after.head? = some ⟨before.size, block.hash, head.height + 1⟩
  block_eq : after.tree.block? before.size = some block
  parent_eq : after.tree.parent? before.size = some head.node
  ledger_eq : after.ledgerAt before.size = .ok ledger

namespace Sound

variable {economics : Economics} {difficulty : Difficulty} {chain : Chain} {id : Nat}
  {block : Block} {ledger : Ledger} (h : chain.Sound economics difficulty)

include h

theorem replay_of_tops (htops : Tops economics difficulty chain.tree id block ledger) :
    Ledger.replay (some economics) (chain.tree.chainTo id ++ [block]) = .ok ledger := by
  obtain ⟨below, hbelow, -⟩ := htops.previous
  obtain ⟨before, hreplay, happly⟩ := htops.applies
  have hlength := h.valid.length_chainTo (lt_size_of_block? hbelow)
  rw [Ledger.replay_concat, hreplay, hlength]
  change (before.applyBlock block (chain.tree.heightAt id + 1)).toExcept = .ok ledger
  rw [happly]
  rfl

/-- A block that tops a node is judged to join there. -/
theorem judge_of_tops (htops : Tops economics difficulty chain.tree id block ledger) :
    judge economics difficulty chain.tree block = .ok (some id) := by
  obtain ⟨below, hbelow, hprevious⟩ := htops.previous
  -- No other node has the hash of the one below.
  have hfirst : chain.tree.first? block.previous = some id := by
    rw [hprevious, ← h.valid.head?_find]
    exact h.lookup?_hash hbelow
  rw [judge, if_neg htops.presentable.fresh, if_neg (Nat.not_lt.mpr htops.presentable.work),
    if_neg htops.kind, hfirst]
  dsimp only
  rw [h.replay_of_tops htops]

/-- A block that applies on top of a node is inserted there. -/
theorem insert_of_tops (htops : Tops economics difficulty chain.tree id block ledger) :
    (∃ place, (chain.insert block).result = .ok place)
      ∧ chain.tree.Adds (chain.insert block).chain.tree
          ⟨block.hash, block, chain.tree.heightAt id + 1, some id, none⟩
      ∧ (chain.insert block).chain.ledgerAt chain.size = .ok ledger := by
  obtain ⟨below, hbelow, -⟩ := htops.previous
  obtain ⟨hresult, hadds⟩ := h.insert_of_ok (h.judge_of_tops htops)
  refine ⟨⟨_, hresult⟩, hadds, ?_⟩
  have hchain := hadds.chainTo_new_child rfl (lt_size_of_block? hbelow)
  rw [ledgerAt, (h.insert block).guards.ledgerAt_eq, size, hchain, h.replay_of_tops htops]

/-- **A block that applies on top of the head takes its place.** -/
theorem takenOver_of_tops {head : Head} (hhead : chain.head? = some head)
    (htops : Tops economics difficulty chain.tree head.node block ledger) :
    chain.TakenOver (chain.insert block).chain head block ledger := by
  obtain ⟨hnode, hheight, -⟩ := h.of_head? hhead
  obtain ⟨-, hadds, hledger⟩ := h.insert_of_tops htops
  refine ⟨?_, hadds.block?_new, hadds.parent?_new, hledger⟩
  rw [head?_of_adds h.valid.toHeaded hadds, hheight, maxHeight, hnode]
  exact if_pos (by simp)

end Sound

/-- The longest chain goes on with a block that takes the head over. -/
theorem Built.longest_insert {economics : Economics} {difficulty : Difficulty} {chain : Chain}
    {block : Block} {ledger : Ledger} {head : Head} (h : chain.Built economics difficulty)
    (hhead : chain.head? = some head)
    (htops : Tops economics difficulty chain.tree head.node block ledger) :
    (chain.insert block).chain.longest = chain.longest ++ [block] := by
  have hsound := h.sound
  have hinsert := h.insert block
  obtain ⟨hnode, -, below, hbelow, -⟩ := hsound.of_head? hhead
  obtain ⟨-, hadds, -⟩ := hsound.insert_of_tops htops
  have hnew := (hinsert.sound.of_head? (hsound.takenOver_of_tops hhead htops).head_eq).1
  rw [longest_eq hinsert.sound.valid.toWellFormed hinsert.threaded hnew,
    longest_eq hsound.valid.toWellFormed h.threaded hnode]
  exact hadds.chainTo_new_child rfl (lt_size_of_block? hbelow)

/-- The same for a block that was checked to apply. -/
theorem Built.longest_insert_of_applies {economics : Economics} {difficulty : Difficulty}
    {chain : Chain} {block : Block} {head : Head} (h : chain.Built economics difficulty)
    (hhead : chain.head? = some head) (hfresh : chain.contains block.hash = false)
    (hwork : difficulty.required block.kind ≤ block.hash.zeroBits) (hkind : block.kind ≠ .genesis)
    (hprevious : block.previous = head.hash)
    (happlies : (chain.ledgerAt head.node).toOption.map
      (fun ledger => (ledger.applyBlock block (head.height + 1)).failure) = some none) :
    (chain.insert block).chain.longest = chain.longest ++ [block] := by
  have hsound := h.sound
  obtain ⟨-, hheight, below, hbelow, hhash⟩ := hsound.of_head? hhead
  obtain ⟨before, hreplay, hledger⟩ := hsound.exists_ledgerAt (lt_size_of_block? hbelow)
  rw [hledger] at happlies
  have hfailure : (before.applyBlock block (head.height + 1)).failure = none :=
    Option.some.inj happlies
  have hmissing : block.hash ∉ chain.tree.hashes := by
    intro hmem
    cases hfresh.symm.trans ((hsound.valid.contains_iff _).mpr hmem)
  have htops : Tops economics difficulty chain.tree head.node block
      (before.applyBlock block (head.height + 1)).ledger := by
    refine ⟨⟨hmissing, hwork⟩, hkind, ⟨below, hbelow, hprevious.trans hhash⟩, before, hreplay, ?_⟩
    rw [← hheight, ← hfailure]
  exact h.longest_insert hhead htops

end Chain

/-! ## Handing a mined block in -/

namespace Replica

/-- What comes of a block mined on top of the head when it is handed in and accepted. -/
structure Mined (replica : Replica) (peers : Peers) (head : Head) (block : Block) (ledger : Ledger) :
    Prop where
  accepted : (replica.submitMined peers block (some head)).2 = true
  taken : replica.chain.TakenOver (replica.submitMined peers block (some head)).1.chain head block
    ledger
  /-- The peers are asked nothing and sent the block once. -/
  sent : ∃ effects : List Effect,
    (replica.submitMined peers block (some head)).1.trace = replica.trace ++ effects
      ∧ Adoption.Traffic effects [] [.block block]

variable {replica : Replica} {peers : Peers} {block : Block} {head : Head}

/-- A block that can be inserted at once is added without asking anybody. -/
theorem addBlock_of_ok {place : Inserted}
    (hresult : (replica.chain.insert block).result = .ok place) :
    replica.addBlock peers block
      = ({ replica with chain := (replica.chain.insert block).chain }.perform
          ((replica.chain.insert block).effects ++ [Effect.broadcast (.block block)]),
        .ok place) := by
  rw [addBlock, Adoption.adopt_of_ok hresult]

/-- A mined block that can be inserted is handed in, and is broadcast once. -/
theorem submitMined_of_ok (peers : Peers) {place : Inserted}
    (hhead : replica.chain.tree.head = some head.node)
    (hresult : (replica.chain.insert block).result = .ok place) :
    ∃ (after : Replica) (effects : List Effect),
      replica.submitMined peers block (some head) = (after, true)
        ∧ after.chain = (replica.chain.insert block).chain
        ∧ after.trace = replica.trace ++ effects ∧ Adoption.Traffic effects [] [.block block] := by
  let report := Effect.publish (.mineBlock block.hash block.kind block.operations.length)
  have hannounce : replica.announce block (some head) = (replica.perform [report], true) :=
    if_pos hhead
  have hadd : (replica.perform [report]).addBlock peers block = _ := addBlock_of_ok hresult
  have hsubmit : replica.submitMined peers block (some head)
      = ((replica.perform [report]).addBlock peers block).1.conclude block.hash
          ((replica.perform [report]).addBlock peers block).2 := by
    rw [submitMined, hannounce]
  rw [hadd] at hsubmit
  refine ⟨_, report :: ((replica.chain.insert block).effects ++ [.broadcast (.block block)]),
    hsubmit, rfl, ?_, ?_⟩
  · change replica.trace ++ [report]
      ++ ((replica.chain.insert block).effects ++ [Effect.broadcast (.block block)]) = _
    simp
  · exact (Adoption.traffic_publish _).append
      ((Adoption.traffic_insert replica.chain block).append (Adoption.traffic_broadcast _))

/-- A block that tops the head is mined with all that this means. -/
theorem mined_of_tops {economics : Economics} {difficulty : Difficulty} {ledger : Ledger}
    (hsound : replica.chain.Sound economics difficulty) (peers : Peers)
    (hhead : replica.chain.head? = some head)
    (htops : Chain.Tops economics difficulty replica.chain.tree head.node block ledger) :
    replica.Mined peers head block ledger := by
  obtain ⟨⟨place, hresult⟩, -⟩ := hsound.insert_of_tops htops
  obtain ⟨after, effects, hsubmit, hafter, htrace, htraffic⟩ :=
    submitMined_of_ok peers (hsound.of_head? hhead).1 hresult
  constructor
  case accepted => rw [hsubmit]
  case taken =>
    rw [hsubmit, hafter]
    exact hsound.takenOver_of_tops hhead htops
  case sent =>
    rw [hsubmit]
    exact ⟨effects, htrace, htraffic⟩

/-- Dropping operations from the queue does not touch the chain. -/
theorem chain_select (replica : Replica) (ledger : Ledger) (headHeight : Nat) :
    (replica.select ledger headHeight).1.chain = replica.chain := by
  rw [select_fst]

end Replica

/-- A block that a search for a nonce may find for operations chosen on top of a head: it shows the
work that its kind needs and is not in the tree yet. -/
structure JobWorker.Found (difficulty : Difficulty) (replica : Replica) (head : Head)
    (chosen : List Operation) (block : Block) : Prop where
  template_eq : ∃ nonce, block = template replica head chosen nonce
  work : difficulty.op ≤ block.hash.zeroBits
  fresh : replica.chain.contains block.hash = false

theorem JobWorker.Found.tops {economics : Economics} {difficulty : Difficulty} {replica : Replica}
    {head : Head} {ledger : Ledger} {block : Block}
    (h : Found difficulty replica head (replica.select ledger head.height).2.chosen block)
    (hsound : replica.chain.Sound economics difficulty)
    (hhead : replica.chain.head? = some head)
    (hreplay : Ledger.replay (some economics) (replica.chain.tree.chainTo head.node) = .ok ledger) :
    Chain.Tops economics difficulty replica.chain.tree head.node block
      (replica.select ledger head.height).2.ledger := by
  obtain ⟨⟨nonce, rfl⟩, hwork, hfresh⟩ := h
  obtain ⟨-, hheight, below, hbelow, hhash⟩ := hsound.of_head? hhead
  have happly := replica.config.minerConfig.applyBlock_select ledger head.height replica.queue.jobs
    head.hash nonce
  refine ⟨⟨fun hmem => ?_, hwork⟩, nofun, ⟨below, hbelow, hhash⟩, ledger, hreplay,
    hheight ▸ happly⟩
  have hcontains := (hsound.valid.contains_iff _).mpr hmem
  cases hfresh.symm.trans hcontains

/-- **What is selected on top of the head can be mined there.** Whatever is queued, a block found for
the chosen operations is accepted by any later state of the replica in which the tree is the same. It
takes the head over and leaves the very ledger in which the selection ended. -/
theorem mined_select (economics : Economics) (difficulty : Difficulty) (replica : Replica)
    (peers : Peers) (head : Head) (hbuilt : replica.chain.Built economics difficulty)
    (hhead : replica.chain.head? = some head) :
    ∃ ledger, replica.chain.ledgerAt head.node = .ok ledger
      ∧ (replica.select ledger head.height).1.chain = replica.chain
      ∧ ∀ (later : Replica) (block : Block), later.chain.Built economics difficulty →
        later.chain.tree = replica.chain.tree →
        JobWorker.Found difficulty replica head (replica.select ledger head.height).2.chosen block →
          later.Mined peers head block (replica.select ledger head.height).2.ledger := by
  have hsound := hbuilt.sound
  obtain ⟨-, -, below, hbelow, -⟩ := hsound.of_head? hhead
  obtain ⟨ledger, hreplay, hledger⟩ := hsound.exists_ledgerAt (lt_size_of_block? hbelow)
  refine ⟨ledger, hledger, replica.chain_select ledger head.height, ?_⟩
  intro later block hlater htree hfound
  -- The tree decides alone about the head and about what may join it.
  have htops := hfound.tops hsound hhead hreplay
  rw [← htree] at htops
  have hlaterHead : later.chain.head? = some head := by
    rw [Chain.head?, htree]
    exact hhead
  exact Replica.mined_of_tops hlater.sound peers hlaterHead htops

/-- A replica with much in its queue: what cannot be paid for yet, what waits for that, what can never
apply, what applies only after another, and more than a block may carry. -/
def busyReplica : Replica :=
  let config : Config :=
    { miner := "ann", opDifficulty := 0, noOpDifficulty := 0, opReward := 3, noOpReward := 1,
      createFee := 2, appendFee := 1, confirmsPerCreate := 0, confirmsPerAppend := 0,
      opsPerBlock := 4 }
  let root := Block.genesis "ann" 0
  { Replica.new config with
    chain := .ofBlocks config.economics config.difficulty [root, .noOp root.hash "ann" 0]
    queue := ⟨[.create "bob" "b", .append "bob" "b" 0 .empty, .create "ann" "a", .delete "ann" "c",
      .create "bob" "a", .delete "bob" "a", .create "ann" "a", .create "ann" "d"]⟩ }

theorem mined_select_busyReplica :
    let head : Head := ⟨1, (Block.noOp (Block.genesis "ann" 0).hash "ann" 0).hash, 1⟩
    let chosen : List Operation := [.create "ann" "a", .delete "bob" "a", .create "ann" "a"]
    ∃ ledger, busyReplica.chain.ledgerAt 1 = .ok ledger
      ∧ (busyReplica.select ledger 1).2.chosen = chosen
      ∧ busyReplica.Mined .none head (JobWorker.template busyReplica head chosen 0)
          (busyReplica.select ledger 1).2.ledger := by
  intro head chosen
  -- One evaluation for all, since each would build the chain anew.
  obtain ⟨hhead, hchosen, hfresh⟩ : busyReplica.chain.head? = some head
      ∧ (busyReplica.chain.ledgerAt 1).toOption.map
          (fun ledger => (busyReplica.select ledger 1).2.chosen) = some chosen
      ∧ busyReplica.chain.contains (JobWorker.template busyReplica head chosen 0).hash = false := by
    decide +kernel
  have hbuilt : busyReplica.chain.Built ⟨3, 1, 2, 1⟩ ⟨0, 0⟩ := ⟨_, rfl, rfl⟩
  obtain ⟨ledger, hledger, -, hmined⟩ :=
    mined_select ⟨3, 1, 2, 1⟩ ⟨0, 0⟩ busyReplica .none head hbuilt hhead
  have hsame : (busyReplica.select ledger 1).2.chosen = chosen := by
    rw [hledger] at hchosen
    exact Option.some.inj hchosen
  refine ⟨ledger, hledger, hsame, hmined busyReplica _ hbuilt rfl ⟨⟨0, ?_⟩, Nat.zero_le _, hfresh⟩⟩
  rw [← hsame]

end RecordChain
