import RecordChain.Client.Call
import RecordChain.Proofs.Adoption.Stepping
import RecordChain.Proofs.Chain.Watchers
import RecordChain.Worker.Job
import RecordChain.Worker.NoOp

/-!
# The threads of a replica

A replica is shared by its two workers, by the writes of its clients and by the threads that handle
what the peers send. Each of them looks at it and changes it in steps, and knows nothing of the steps
of the others but what holds of all of them.

* **`Replica.Onward`**: the chain keeps its nodes, so a head that somebody has seen stays a node
  (`Chain.Places`) with the same ledger after it.
* **`Replica.Spares`**, **`Replica.Respects`**: the own flag of the token that suspends the mining of
  empty blocks is written by the job worker only.
* **`Replica.Changes`**: what a step may make of the replica. It goes onward and respects the flag
  (`Changes.onward`, `Changes.respects`).
* **`NoOpWorker.changes_step`**, **`Call.changes_step`**: the worker for empty blocks and the writes
  make no other changes. Of the job worker this is shown with its stages.
* **`Replica.Tended`**: the same of whole calls to add blocks and of messages.
-/

namespace RecordChain

open ForkTree Validator

variable {economics : Economics} {difficulty : Difficulty}

/-! ## Heads that were -/

/-- A head that is a node of a chain, whether it is the head now or was it earlier. -/
structure Chain.Places (chain : Chain) (head : Head) : Prop where
  exists_block : ∃ block, chain.tree.block? head.node = some block ∧ head.hash = block.hash
  height_eq : head.height = chain.tree.heightAt head.node

namespace Chain

variable {chain : Chain} {head other : Head}

/-- The head is where its node says. -/
theorem Sound.places_of_head? (h : chain.Sound economics difficulty)
    (hhead : chain.head? = some head) : chain.Places head := by
  obtain ⟨-, hheight, hblock⟩ := h.of_head? hhead
  exact ⟨hblock, hheight⟩

/-- A head that was is a node of the tree. -/
theorem Places.lt_size (h : chain.Places head) : head.node < chain.tree.size := by
  obtain ⟨block, hblock, -⟩ := h.exists_block
  exact lt_size_of_block? hblock

/-- A hash stands for one head only. -/
theorem Places.eq_of_hash (h : chain.Places head) (hother : chain.Places other)
    (hvalid : ValidTree economics difficulty chain.tree) (hhash : head.hash = other.hash) :
    head = other := by
  obtain ⟨block, hblock, hb⟩ := h.exists_block
  obtain ⟨second, hsecond, hs⟩ := hother.exists_block
  -- A valid tree has no two nodes with one hash.
  have hnode : head.node = other.node :=
    hvalid.hash_inj _ _ block second hblock hsecond (by rw [← hb, ← hs, hhash])
  have hheight : head.height = other.height := by
    rw [h.height_eq, hother.height_eq, hnode]
  cases head
  cases other
  simp_all

end Chain

/-! ## What a replica goes on to -/

/-- What a replica may become while its threads run: its chain has taken in valid blocks and lost
none. -/
structure Replica.Onward (economics : Economics) (difficulty : Difficulty)
    (before after : Replica) : Prop where
  config_eq : after.config = before.config
  built : after.chain.Built economics difficulty
  grows : before.chain.tree.GrowsTo after.chain.tree

namespace Replica.Onward

variable {before middle after : Replica} {head : Head}

/-- What leaves the tree and the validator alone goes onward. -/
theorem of_tree_eq (h : before.chain.Built economics difficulty)
    (hconfig : after.config = before.config) (htree : after.chain.tree = before.chain.tree)
    (hvalidator : after.chain.validator = before.chain.validator) :
    before.Onward economics difficulty after := by
  refine ⟨hconfig, ?_, htree ▸ .refl _⟩
  rw [Chain.Built, htree, hvalidator]
  exact h

theorem refl (h : before.chain.Built economics difficulty) :
    before.Onward economics difficulty before :=
  .of_tree_eq h rfl rfl rfl

/-- All but the chain and the configuration does not matter. -/
theorem of_chain (h : before.Onward economics difficulty middle)
    (hconfig : after.config = middle.config) (hchain : after.chain = middle.chain) :
    before.Onward economics difficulty after :=
  ⟨hconfig.trans h.config_eq, hchain ▸ h.built, hchain ▸ h.grows⟩

theorem trans (h : before.Onward economics difficulty middle)
    (h' : middle.Onward economics difficulty after) : before.Onward economics difficulty after :=
  ⟨h'.config_eq.trans h.config_eq, h'.built, h.grows.trans h'.grows⟩

/-- An inserted block goes onward, whether it was accepted or not. -/
theorem of_insert {block : Block} (h : before.chain.Built economics difficulty)
    (hconfig : after.config = before.config)
    (hchain : after.chain = (before.chain.insert block).chain) :
    before.Onward economics difficulty after := by
  refine ⟨hconfig, hchain ▸ h.insert block, ?_⟩
  rw [hchain]
  cases hjudge : judge economics difficulty before.chain.tree block with
  | error e =>
    rw [(h.sound.insert_of_error hjudge).2]
    exact .refl _
  | ok parent? => exact (h.sound.insert_of_ok hjudge).2.growsTo

/-- A head that was is still in the tree. -/
theorem places (h : before.Onward economics difficulty after) (hplaces : before.chain.Places head) :
    after.chain.Places head := by
  have hlt := hplaces.lt_size
  constructor
  · rw [h.grows.block? hlt]
    exact hplaces.exists_block
  · rw [h.grows.heightAt hlt]
    exact hplaces.height_eq

/-- The ledger after a node is that of its chain, and the chain below a node does not change. -/
theorem ledgerAt_eq (h : before.Onward economics difficulty after)
    (hbuilt : before.chain.Built economics difficulty) (hplaces : before.chain.Places head) :
    after.chain.ledgerAt head.node = before.chain.ledgerAt head.node := by
  rw [Chain.ledgerAt, Chain.ledgerAt, h.built.sound.guards.ledgerAt_eq,
    hbuilt.sound.guards.ledgerAt_eq, h.grows.chainTo hplaces.lt_size]

end Replica.Onward

/-- A step of a call to add a block inserts at most one block. -/
theorem Adoption.chain_step_cases (peers : Peers) (chain : Chain) (call : Adoption) :
    (call.step peers chain).1 = chain
      ∨ ∃ block, (call.step peers chain).1 = (chain.insert block).chain := by
  unfold step
  split
  · exact Or.inl rfl
  · exact Or.inl rfl
  · split
    · exact Or.inl rfl
    · next block _ _ => exact Or.inr ⟨block, rfl⟩

/-! ## Who stops what -/

namespace Adoption

/-- A refused block stops nothing. -/
theorem stops_refuse (call : Adoption) (hash : BlockHash) (isTop : Bool) (e : ValidationError) :
    (call.refuse hash isTop e).2.filterMap Effect.stopped? = [] := by
  cases isTop <;> cases e <;> rfl

/-- What a call reports of an insertion stops nothing. -/
theorem stops_inserted (call : Adoption) (hash : BlockHash) (block : Block)
    (rest : List (BlockHash × Block)) (outcome : Except ValidationError Inserted) :
    (call.inserted hash block rest outcome).2.filterMap Effect.stopped? = [] := by
  unfold inserted
  dsimp only
  split
  · split <;> rfl
  · split <;> rfl
  · split
    · exact stops_refuse ..
    · rfl
  · exact stops_refuse ..

theorem stops_answered (call : Adoption) (hash : BlockHash) (block : Block) (parent : BlockHash)
    (answer : Option Block) :
    (call.answered hash block parent answer).2.filterMap Effect.stopped? = [] := by
  unfold answered
  split <;> rfl

/-- A step of a call to add a block stops only tokens that watch the head, and makes none watch it.
-/
theorem stops_step_subset (peers : Peers) (chain : Chain) (call : Adoption) :
    (call.step peers chain).2.2.filterMap Effect.stopped? ⊆ chain.watchers
      ∧ (call.step peers chain).1.watchers ⊆ chain.watchers := by
  unfold step
  split
  · exact ⟨List.nil_subset _, List.Subset.refl _⟩
  · dsimp only
    rw [stops_answered]
    exact ⟨List.nil_subset _, List.Subset.refl _⟩
  · split
    · exact ⟨List.nil_subset _, List.Subset.refl _⟩
    · next hash block rest _ =>
      dsimp only
      rw [List.filterMap_append, stops_inserted, List.append_nil]
      exact chain.stops_subset block

end Adoption

/-! ## The flag -/

namespace Replica

/-- Whether the job worker has suspended the mining of empty blocks. -/
def suspended (replica : Replica) : Bool := replica.tokens.isRaised replica.suspend

/-- What others than the job worker may make of a replica. They may do to the chain, to the queue
and to all tokens whatever they like, but the flag is not theirs. -/
structure Spares (before after : Replica) : Prop where
  suspend_eq : after.suspend = before.suspend
  suspended_eq : after.suspended = before.suspended

/-- The token of the flag is in use, and nobody watches the head with it. -/
structure Reserved (replica : Replica) : Prop where
  inUse : replica.tokens.InUse replica.suspend
  not_watching : replica.suspend ∉ replica.chain.watchers

/-- What leaves the flag as it is, and its token unwatched. -/
structure Respects (before after : Replica) : Prop where
  spares : before.Spares after
  reserved : after.Reserved

/-- The replica after the flag was written. -/
def flagged (replica : Replica) (raised : Bool) : Replica :=
  { replica with tokens := replica.tokens.set replica.suspend raised }

/-- The replica after somebody wanted a new token below another one to be stopped when the head
moves. -/
def watch (replica : Replica) (parent : Token) (head : Option Nat) : Replica :=
  let (tokens, token) := replica.tokens.child parent
  ({ replica with tokens }.stopOnHeadChange head token).1

/-- The replica after a step of a call to add a block. -/
def adopting (replica : Replica) (peers : Peers) (call : Adoption) : Replica :=
  let (chain, _, effects) := call.step peers replica.chain
  { replica with chain }.perform effects

variable {replica before middle after : Replica}

theorem Spares.trans (h : before.Spares middle) (h' : middle.Spares after) : before.Spares after :=
  ⟨h'.suspend_eq.trans h.suspend_eq, h'.suspended_eq.trans h.suspended_eq⟩

/-- In a new replica the flag has the second token, and there is no head to watch. -/
theorem reserved_new (config : Config) : (new config).Reserved :=
  ⟨Nat.lt_succ_self 1, List.not_mem_nil⟩

/-- The job worker has cleared the flag. -/
theorem suspended_flagged_false (replica : Replica) : (replica.flagged false).suspended = false :=
  replica.tokens.isRaised_clear replica.suspend

namespace Reserved

theorem respects (h : replica.Reserved) : replica.Respects replica := ⟨⟨rfl, rfl⟩, h⟩

/-- Writing the flag does not take its token out of use. -/
theorem flagged (h : replica.Reserved) (raised : Bool) : (replica.flagged raised).Reserved :=
  ⟨Cancellation.inUse_set.mpr h.inUse, h.not_watching⟩

/-- Carrying out effects leaves the flag as it is if they stop only tokens that watch the head. -/
theorem perform (h : replica.Reserved) (queue : JobQueue) (chain : Chain) {effects : List Effect}
    (hstops : effects.filterMap Effect.stopped? ⊆ replica.chain.watchers)
    (hwatchers : chain.watchers ⊆ replica.chain.watchers) :
    replica.Respects ({ replica with queue, chain }.perform effects) := by
  have hunstopped : replica.suspend ∉ effects.filterMap Effect.stopped? :=
    fun hmem => h.not_watching (hstops hmem)
  refine ⟨⟨rfl, ?_⟩, ?_, fun hmem => h.not_watching (hwatchers hmem)⟩
  · exact Cancellation.isRaised_stopAll_of_not_mem replica.tokens hunstopped
  · exact (Cancellation.inUse_stopAll _).mpr h.inUse

/-- A new token is another one. -/
theorem child (h : replica.Reserved) (parent : Token) :
    replica.Respects { replica with tokens := (replica.tokens.child parent).1 } :=
  ⟨⟨rfl, Cancellation.isRaised_fresh h.inUse⟩, Cancellation.inUse_fresh h.inUse, h.not_watching⟩

/-- Who watches the head with a new token does not watch it with that of the flag. -/
theorem watch (h : replica.Reserved) (parent : Token) (head : Option Nat) :
    replica.Respects (replica.watch parent head) := by
  have hnew : (replica.tokens.child parent).2 ≠ replica.suspend := Cancellation.fresh_ne h.inUse
  have hchild := h.child parent
  refine ⟨⟨rfl, hchild.spares.suspended_eq⟩, hchild.reserved.inUse, ?_⟩
  intro hmem
  have hwatchers := replica.chain.watchers_stopOnHeadChange_subset head _ hmem
  rcases List.mem_append.mp hwatchers with hold | hlast
  · exact h.not_watching hold
  · exact hnew (List.mem_singleton.mp hlast).symm

end Reserved

/-! ## Steps of threads -/

/-- What a step of a thread may make of a replica, if it does not write the flag. -/
inductive Changes (before : Replica) : Replica → Prop
  /-- It only looks. -/
  | look : Changes before before
  /-- It queues operations or takes some out of the queue. -/
  | queue (queue : JobQueue) : Changes before { before with queue }
  /-- It may do so and report it. -/
  | report (queue : JobQueue) {effects : List Effect}
    (stopless : effects.filterMap Effect.stopped? = []) :
    Changes before ({ before with queue }.perform effects)
  /-- It wants a new token to be stopped when the head moves. -/
  | watch (parent : Token) (head : Option Nat) : Changes before (before.watch parent head)
  /-- It takes a step of a call to add a block. -/
  | adopt (peers : Peers) (call : Adoption) : Changes before (before.adopting peers call)

/-- The chain loses nothing by a step of a thread, and takes in valid blocks only. -/
theorem Changes.onward (h : before.Changes after)
    (hbuilt : before.chain.Built economics difficulty) :
    before.Onward economics difficulty after := by
  cases h with
  | look => exact .refl hbuilt
  | queue | report => exact .of_tree_eq hbuilt rfl rfl rfl
  | watch parent head =>
    obtain ⟨htree, hvalidator⟩ := before.chain.stopOnHeadChange_tree head
      (before.tokens.child parent).2
    exact .of_tree_eq hbuilt rfl htree hvalidator
  | adopt peers call =>
    rcases call.chain_step_cases peers before.chain with hchain | ⟨block, hchain⟩
    · exact .of_tree_eq hbuilt rfl (congrArg Chain.tree hchain) (congrArg Chain.validator hchain)
    · exact .of_insert hbuilt rfl hchain

/-- No step of a thread touches the flag, be it by what it stops. -/
theorem Changes.respects (h : before.Changes after) (hreserved : before.Reserved) :
    before.Respects after := by
  cases h with
  | look => exact hreserved.respects
  | queue => exact ⟨⟨rfl, rfl⟩, hreserved.inUse, hreserved.not_watching⟩
  | report queue stopless =>
    exact hreserved.perform queue before.chain (stopless ▸ List.nil_subset _) (List.Subset.refl _)
  | watch parent head => exact hreserved.watch parent head
  | adopt peers call =>
    obtain ⟨hstops, hwatchers⟩ := Adoption.stops_step_subset peers before.chain call
    exact hreserved.perform before.queue _ hstops hwatchers

/-- Queueing an operation is a change that any thread may make. -/
theorem changes_submitJob (replica : Replica) (op : Operation) :
    replica.Changes (replica.submitJob op).1 := by
  unfold submitJob
  split
  · exact .look
  · exact .report _ rfl

theorem changes_announce (replica : Replica) (block : Block) (minedOn : Option Head) :
    replica.Changes (replica.announce block minedOn).1 := by
  unfold announce
  split <;> exact .report replica.queue rfl

theorem changes_conclude (replica : Replica) (hash : BlockHash)
    (result : Except AdoptionError Inserted) : replica.Changes (replica.conclude hash result).1 := by
  cases result with
  | ok => exact .look
  | error => exact .report replica.queue rfl

end Replica

/-- The worker for empty blocks leaves the flag to the job worker. It watches the head with new
tokens below that of the flag, and the blocks that it adds stop only tokens that watch the head. -/
theorem NoOpWorker.changes_step (peers : Peers) (found : Option Block) (replica : Replica)
    (stage : NoOpWorker.Stage) : replica.Changes (step peers found replica stage).1 := by
  cases stage with
  | registering head => exact .watch replica.suspend (head.map Head.node)
  | announcing head block => exact replica.changes_announce block head
  | adding call =>
    dsimp only [step]
    split
    · exact replica.changes_conclude call.top _
    · exact .adopt peers call
  | _ => exact .look

/-- A write changes nothing but the queue. -/
theorem Call.changes_step (call : Call) (token : Token) (replica : Replica) (stage : Call.Stage) :
    replica.Changes (call.step token replica stage).1 := by
  cases stage with
  | submitting job => exact replica.changes_submitJob job
  | withdrawing job => exact .queue (replica.queue.remove job)
  | waiting job =>
    rw [step]
    split
    · exact .look
    · unfold poll
      split
      · exact .look
      · exact .look
      · dsimp only
        split
        · exact .look
        · exact replica.changes_submitJob job
      · exact .look
      · exact .look
      · exact .queue (replica.queue.remove job)
  | opening | checkingQueue | finished => exact .look

/-! ## Whole calls -/

namespace Replica

/-- What a call to add a block has come to after some steps: a chain, and effects that are still to
be carried out. -/
structure Underway (economics : Economics) (difficulty : Difficulty) (replica : Replica)
    (chain : Chain) (effects : List Effect) : Prop where
  onward : replica.Onward economics difficulty { replica with chain }
  stops : effects.filterMap Effect.stopped? ⊆ replica.chain.watchers
  watchers : chain.watchers ⊆ replica.chain.watchers

/-- A step of a call keeps the call underway. -/
theorem Underway.step {replica : Replica} {chain : Chain} {effects : List Effect}
    (h : replica.Underway economics difficulty chain effects) (peers : Peers) (call : Adoption) :
    replica.Underway economics difficulty (call.step peers chain).1
      (effects ++ (call.step peers chain).2.2) := by
  obtain ⟨hstops, hwatchers⟩ := call.stops_step_subset peers chain
  refine ⟨?_, ?_, List.Subset.trans hwatchers h.watchers⟩
  · rcases call.chain_step_cases peers chain with hchain | ⟨block, hchain⟩
    · rw [hchain]
      exact h.onward
    · exact h.onward.trans (.of_insert h.onward.built rfl hchain)
  · rw [List.filterMap_append]
    exact List.append_subset.mpr ⟨h.stops, List.Subset.trans hstops h.watchers⟩

/-- What holds of a replica between any two steps of its threads. -/
structure Kept (economics : Economics) (difficulty : Difficulty) (replica : Replica) : Prop where
  built : replica.chain.Built economics difficulty
  reserved : replica.Reserved

/-- What the threads of a replica make of it in any number of steps, the job worker apart. -/
structure Tended (economics : Economics) (difficulty : Difficulty) (before after : Replica) :
    Prop where
  onward : before.Onward economics difficulty after
  respects : before.Respects after

variable {before middle after replica : Replica}

/-- What is tended is as threads rely on. -/
theorem Tended.kept (h : before.Tended economics difficulty after) :
    after.Kept economics difficulty :=
  ⟨h.onward.built, h.respects.reserved⟩

theorem Tended.trans (h : before.Tended economics difficulty middle)
    (h' : middle.Tended economics difficulty after) : before.Tended economics difficulty after :=
  ⟨h.onward.trans h'.onward, h.respects.spares.trans h'.respects.spares, h'.respects.reserved⟩

/-- Every change that a thread may make tends the replica. -/
theorem Changes.tended (h : before.Changes after) (hkept : before.Kept economics difficulty) :
    before.Tended economics difficulty after :=
  ⟨h.onward hkept.built, h.respects hkept.reserved⟩

namespace Kept

theorem refl (h : replica.Kept economics difficulty) :
    replica.Tended economics difficulty replica :=
  Changes.look.tended h

/-- Adding a block with its ancestors goes onward, and stops only tokens that watch the head. -/
theorem addBlock (h : replica.Kept economics difficulty) (peers : Peers) (block : Block) :
    replica.Tended economics difficulty (replica.addBlock peers block).1 := by
  obtain ⟨-, -, hunderway⟩ := Adoption.run_induction
    (motive := fun chain _ effects _ => replica.Underway economics difficulty chain effects)
    (fun _ call _ _ _ hunderway => hunderway.step peers call)
    replica.chain (.start replica.config.maxFetchDepth block) [] []
    ⟨.refl h.built, List.nil_subset _, List.Subset.refl _⟩
  exact ⟨.of_chain hunderway.onward rfl rfl,
    h.reserved.perform replica.queue _ hunderway.stops hunderway.watchers⟩

/-- Handling a message is a report and a call to add a block, or a look at the queue. -/
theorem receive (h : replica.Kept economics difficulty) (peers : Peers) (message : Message) :
    replica.Tended economics difficulty (replica.receive peers message) := by
  cases message with
  | block block =>
    have hreport : replica.Changes (replica.perform [.publish (.receiveBlock block.hash)]) :=
      .report replica.queue rfl
    have htended := hreport.tended h
    exact htended.trans (htended.kept.addBlock peers block)
  | job op =>
    rw [Replica.receive]
    split
    · exact h.refl
    · exact (Changes.report _ rfl).tended h

/-- Making or withdrawing a request on another token than that of the flag. -/
theorem set (h : replica.Kept economics difficulty) {token : Token}
    (hother : token ≠ replica.suspend) (raised : Bool) :
    replica.Tended economics difficulty
      { replica with tokens := replica.tokens.set token raised } :=
  ⟨.of_tree_eq h.built rfl rfl rfl, ⟨rfl, Cancellation.isRaised_set_of_ne hother⟩,
    Cancellation.inUse_set.mpr h.reserved.inUse, h.reserved.not_watching⟩

/-- A new token is none that watches the head. -/
theorem child (h : replica.Kept economics difficulty) (parent : Token) :
    replica.Tended economics difficulty
      { replica with tokens := (replica.tokens.child parent).1 } :=
  ⟨.of_tree_eq h.built rfl rfl rfl, h.reserved.child parent⟩

end Kept

end Replica

end RecordChain
