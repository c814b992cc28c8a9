import RecordChain.Adoption
import RecordChain.Selection

/-!
# Replicas

A replica keeps the chain and the queue of jobs, and exchanges blocks and jobs with its peers. Its
threads share one state, `Replica`, and each function below is an action on that state as a whole.
Actions return the changed state and put what they do to the outside on `trace`.
-/

namespace RecordChain

/-- The state that the threads of a replica share. -/
structure Replica where
  config : Config
  chain : Chain
  queue : JobQueue
  /-- All tokens in use. -/
  tokens : Cancellation
  /-- Stopped when the replica is to end. -/
  shutdown : Token
  /-- Stopped while no blocks without operations are to be mined. -/
  suspend : Token
  /-- What was done to the outside so far, in order. -/
  trace : Array Effect

namespace Replica

/-- A replica that knows no block yet. -/
def new (config : Config) : Replica :=
  let (tokens, shutdown) := Cancellation.empty.root
  let (tokens, suspend) := tokens.child shutdown
  { config
    chain := .new config.economics config.difficulty
    queue := .empty
    tokens
    shutdown
    suspend
    trace := #[] }

/-- Carries effects out: stops the tokens and traces all. -/
def perform (replica : Replica) (effects : List Effect) : Replica :=
  { replica with
    tokens := (effects.filterMap Effect.stopped?).foldl Cancellation.stop replica.tokens
    trace := replica.trace ++ effects }

/-! ## Blocks -/

/-- Checks a block and inserts it if it passes. -/
def insert (replica : Replica) (block : Block) : Replica × Except ValidationError Inserted :=
  let insertion := replica.chain.insert block
  ({ replica with chain := insertion.chain }.perform insertion.effects, insertion.result)

/-- Adds a block together with those of its ancestors that are missing. -/
def addBlock (replica : Replica) (peers : Peers) (block : Block) :
    Replica × Except AdoptionError Inserted :=
  let outcome := replica.chain.adopt peers replica.config.maxFetchDepth block
  ({ replica with chain := outcome.chain }.perform outcome.effects, outcome.result)

/-- Adds the first blocks that the peers know of. That they are known, or that there is a first
block already, is no reason to worry. -/
def syncRoots (replica : Replica) (peers : Peers) : Replica :=
  peers.roots.foldl (fun replica root =>
    match replica.addBlock peers root with
    | (replica, .ok _)
    | (replica, .error (.rejected (.duplicateBlock _)))
    | (replica, .error (.rejected (.duplicateGenesis _))) => replica
    | (replica, .error e) => replica.perform [.warn (.rootNotInserted root.hash e)]) replica

/-- Registers a token to be stopped when the head moves away from a node. -/
def stopOnHeadChange (replica : Replica) (head : Option Nat) (token : Token) : Replica × Bool :=
  let (chain, registered) := replica.chain.stopOnHeadChange head token
  ({ replica with chain }, registered)

/-- Inserts the operator's first block, if there is one, and then those of the peers. -/
def start (config : Config) (genesis : Option Block) (peers : Peers) : Replica :=
  let replica := new config
  let replica :=
    match genesis with
    | none => replica
    | some block =>
      match replica.insert block with
      | (replica, .ok _) => replica
      | (replica, .error e) => replica.perform [.warn (.genesisNotInserted block.hash e)]
  replica.syncRoots peers

/-! ## Jobs -/

/-- Queues an operation and sends it to the peers, unless it is queued already. -/
def submitJob (replica : Replica) (op : Operation) : Replica × Bool :=
  match replica.queue.push op with
  | (_, false) => (replica, false)
  | (queue, true) =>
    ({ replica with queue }.perform [.publish (.submitJob op), .broadcast (.job op)], true)

/-- Handles a message from a peer. -/
def receive (replica : Replica) (peers : Peers) : Message → Replica
  | .block block => ((replica.perform [.publish (.receiveBlock block.hash)]).addBlock peers block).1
  | .job op =>
    match replica.queue.push op with
    | (_, false) => replica
    | (queue, true) => { replica with queue }.perform [.publish (.receiveJob op)]

/-! ## Mining -/

/-- Takes a dropped operation out of the queue and reports it. -/
def drop (replica : Replica) (op : Operation) (reason : LedgerError) : Replica :=
  { replica with queue := replica.queue.remove op }.perform [.publish (.dropJob op reason)]

/-- Chooses operations to mine on top of the block at some height, with the ledger after it, and
drops those that can never apply. -/
def select (replica : Replica) (ledger : Ledger) (headHeight : Nat) : Replica × Selection :=
  let selection := replica.config.minerConfig.select ledger headHeight replica.queue.jobs
  (selection.dropped.foldl (fun replica job => replica.drop job.1 job.2) replica, selection)

/-- Reports a block for which a nonce was found on top of `minedOn`, and says whether it is worth
adding: not if the head has moved since. -/
def announce (replica : Replica) (block : Block) (minedOn : Option Head) : Replica × Bool :=
  if replica.chain.tree.head = minedOn.map (·.node) then
    (replica.perform [.publish (.mineBlock block.hash block.kind block.operations.length)], true)
  else (replica.perform [.publish (.discardStaleBlock block.hash)], false)

/-- Takes note of what became of a block mined here. -/
def conclude (replica : Replica) (hash : BlockHash) :
    Except AdoptionError Inserted → Replica × Bool
  | .ok _ => (replica, true)
  | .error e => (replica.perform [.warn (.minedNotInserted hash e)], false)

/-- Adds a block mined on top of `minedOn`, unless the head has moved, and says whether it was
inserted. -/
def submitMined (replica : Replica) (peers : Peers) (block : Block) (minedOn : Option Head) :
    Replica × Bool :=
  match replica.announce block minedOn with
  | (replica, false) => (replica, false)
  | (replica, true) =>
    let (replica, result) := replica.addBlock peers block
    replica.conclude block.hash result

/-- Takes out of the queue what a mined block has made superfluous. -/
def removeMined (replica : Replica) (mined : List Operation) : Replica :=
  { replica with queue := replica.queue.removeMined mined }

end Replica

end RecordChain
