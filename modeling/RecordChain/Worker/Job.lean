import RecordChain.Replica

/-!
# The job worker

The job worker mines queued operations whenever some of them apply on the current head, and keeps
the mining of empty blocks suspended meanwhile. When nothing applies it remembers the head and the
length of the queue and does not choose again before one of them changes; what it waits for may be
money, so empty blocks are mined in that time.

The worker shares its replica with other threads, so it is told in steps between which they may act.
The outcome of the search for a nonce is not the worker's own doing: `step` is given it.
-/

namespace RecordChain

namespace JobWorker

/-- What the worker does next. -/
inductive Stage
  /-- It looks whether the replica ends. -/
  | checking
  /-- It looks for jobs. -/
  | awaiting
  /-- It lets empty blocks be mined and starts again. -/
  | resuming
  /-- It looks at the head. -/
  | looking
  /-- It compares the head and the length of the queue with what it remembers. -/
  | comparing (head : Head)
  /-- It suspends the mining of empty blocks. -/
  | suspending (head : Head)
  /-- It gets the ledger at the head. -/
  | reading (head : Head)
  /-- It looks at the queue and chooses. -/
  | choosing (head : Head) (ledger : Ledger)
  /-- It drops what can never apply. -/
  | dropping (head : Head) (jobs : List (Operation × LedgerError)) (chosen : List Operation)
  /-- It remembers that nothing applies. -/
  | blocking (head : Head)
  /-- It arranges to be stopped when the head moves. -/
  | registering (head : Head) (chosen : List Operation)
  /-- It searches for a nonce. -/
  | mining (head : Head) (chosen : List Operation) (attempt : Token)
  /-- It looks whether the head has moved since. -/
  | announcing (head : Head) (chosen : List Operation) (block : Block)
  /-- It adds the block. -/
  | adding (chosen : List Operation) (call : Adoption)
  /-- It clears the queue of what the block has made superfluous. -/
  | clearing (chosen : List Operation)
  /-- The replica ends: it lets empty blocks be mined. -/
  | leaving
  /-- It has ended. -/
  | returned

end JobWorker

/-- The job worker between two of its steps. -/
structure JobWorker where
  /-- The head and the length of the queue at which nothing applied. -/
  blockedAt : Option (BlockHash × Nat)
  stage : JobWorker.Stage

namespace JobWorker

/-- The worker when it starts. -/
def start : JobWorker := ⟨none, .checking⟩

/-- The block that the worker searches a nonce for. -/
def template (replica : Replica) (head : Head) (chosen : List Operation) (nonce : UInt64) : Block :=
  .regular head.hash replica.config.miner chosen nonce

/-- One step on the shared state. `found` is the block that a search for a nonce has found, if the
worker is at the end of one that was not stopped. -/
def step (peers : Peers) (found : Option Block) (replica : Replica) (worker : JobWorker) :
    Replica × JobWorker :=
  let goto (stage : Stage) : JobWorker := { worker with stage }
  match worker.stage with
  | .checking =>
    (replica, goto (if replica.tokens.isStopped replica.shutdown then .leaving else .awaiting))
  | .awaiting => (replica, goto (if replica.queue.isEmpty then .resuming else .looking))
  | .resuming =>
    ({ replica with tokens := replica.tokens.clear replica.suspend }, goto .checking)
  | .looking =>
    (replica, goto (match replica.chain.head? with
      | none => .resuming
      | some head => .comparing head))
  | .comparing head =>
    (replica, goto
      (if worker.blockedAt = some (head.hash, replica.queue.size) then .checking
      else .suspending head))
  | .suspending head =>
    ({ replica with tokens := replica.tokens.stop replica.suspend }, goto (.reading head))
  | .reading head =>
    match replica.chain.ledgerAt head.node with
    | .ok ledger => (replica, goto (.choosing head ledger))
    | .error e => (replica.perform [.warn (.headNotReplayed head.hash e)], goto (.blocking head))
  | .choosing head ledger =>
    let selection := replica.config.minerConfig.select ledger head.height replica.queue.jobs
    (replica, goto (.dropping head selection.dropped selection.chosen))
  | .dropping head ((op, e) :: rest) chosen =>
    (replica.drop op e, goto (.dropping head rest chosen))
  | .dropping head [] [] => (replica, goto (.blocking head))
  | .dropping head [] chosen => (replica, ⟨none, .registering head chosen⟩)
  | .blocking head => (replica, ⟨some (head.hash, replica.queue.size), .resuming⟩)
  | .registering head chosen =>
    let (tokens, attempt) := replica.tokens.child replica.shutdown
    let (replica, registered) :=
      { replica with tokens }.stopOnHeadChange (some head.node) attempt
    (replica, goto (if registered then .mining head chosen attempt else .checking))
  | .mining head chosen _ =>
    (replica, goto (match found with
      | some block => .announcing head chosen block
      | none => .checking))
  | .announcing head chosen block =>
    let (replica, current) := replica.announce block (some head)
    (replica, goto
      (if current then .adding chosen (.start replica.config.maxFetchDepth block) else .checking))
  | .adding chosen call =>
    match call.result? with
    | some result =>
      let (replica, inserted) := replica.conclude call.top result
      (replica, goto (if inserted then .clearing chosen else .checking))
    | none =>
      let (chain, call, effects) := call.step peers replica.chain
      ({ replica with chain }.perform effects, goto (.adding chosen call))
  | .clearing chosen => (replica.removeMined chosen, goto .checking)
  | .leaving => ({ replica with tokens := replica.tokens.clear replica.suspend }, goto .returned)
  | .returned => (replica, worker)

end JobWorker

end RecordChain
