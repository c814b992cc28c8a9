import RecordChain.Replica

/-!
# The worker for empty blocks

Whenever it is not suspended, this worker mines a block without operations on top of the head, for
the reward. In an empty tree it mines a first block.

Like the job worker it is told in steps, and given the outcome of its search for a nonce.
-/

namespace RecordChain

namespace NoOpWorker

/-- What the worker does next. -/
inductive Stage
  /-- It looks whether the replica ends. -/
  | checking
  /-- It looks whether it is suspended. -/
  | awaiting
  /-- It looks at the head. -/
  | looking
  /-- It arranges to be stopped when the head moves. -/
  | registering (head : Option Head)
  /-- It searches for a nonce. -/
  | mining (head : Option Head) (attempt : Token)
  /-- It looks whether the head has moved since. -/
  | announcing (head : Option Head) (block : Block)
  /-- It adds the block. -/
  | adding (call : Adoption)
  /-- It has ended. -/
  | returned

/-- The block that the worker searches a nonce for. -/
def template (replica : Replica) (head : Option Head) (nonce : UInt64) : Block :=
  match head with
  | some head => .noOp head.hash replica.config.miner nonce
  | none => .genesis replica.config.miner nonce

/-- One step on the shared state. `found` is the block that a search for a nonce has found, if the
worker is at the end of one that was not stopped. -/
def step (peers : Peers) (found : Option Block) (replica : Replica) : Stage → Replica × Stage
  | .checking =>
    (replica, if replica.tokens.isStopped replica.shutdown then .returned else .awaiting)
  | .awaiting =>
    (replica, if replica.tokens.isStopped replica.suspend then .checking else .looking)
  | .looking => (replica, .registering replica.chain.head?)
  | .registering head =>
    let (tokens, attempt) := replica.tokens.child replica.suspend
    let (replica, registered) :=
      { replica with tokens }.stopOnHeadChange (head.map Head.node) attempt
    (replica, if registered then .mining head attempt else .checking)
  | .mining head _ =>
    (replica, match found with
      | some block => .announcing head block
      | none => .checking)
  | .announcing head block =>
    let (replica, current) := replica.announce block head
    (replica, if current then .adding (.start replica.config.maxFetchDepth block) else .checking)
  | .adding call =>
    match call.result? with
    | some result => ((replica.conclude call.top result).1, .checking)
    | none =>
      let (chain, call, effects) := call.step peers replica.chain
      ({ replica with chain }.perform effects, .adding call)
  | .returned => (replica, .returned)

end NoOpWorker

end RecordChain
