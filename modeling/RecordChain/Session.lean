import RecordChain.Block.Nonce
import RecordChain.Client.Call
import RecordChain.Worker.Job
import RecordChain.Worker.NoOp

/-!
# A replica at work

A session is a replica with its two workers and the writes under way, run one activity after another.
Nothing goes on by itself: the activities move while somebody waits for something (`await`) or has
messages handled (`receive`). In a *round* the job worker goes once around its loop and each write
takes one look at the chain. A block without operations is mined only when a round changes nothing of
what is awaited, so that it comes with as few of them as possible.

A write that begins only looks. What it submits it submits as soon as anything else is done from
outside, so writes that begin one right after the other all look before any of them submits.

A search for a nonce of more than `patience` zero bits does not end within the life of a session.
-/

namespace RecordChain

/-- A write under way. -/
structure ActiveCall where
  call : Call
  /-- Cancels the call. -/
  token : Token
  stage : Call.Stage
  /-- The operation that the call submitted last. -/
  submitted : Option Operation

namespace ActiveCall

/-- What the call has answered, if it is over. -/
def answer? (active : ActiveCall) : Option Call.Answer :=
  match active.stage with
  | .finished answer => some answer
  | _ => none

/-- The operation that the call waits for. -/
def job? (active : ActiveCall) : Option Operation :=
  match active.stage with
  | .waiting job => some job
  | _ => none

/-- A call that has not begun yet. -/
def start (call : Call) (token : Token) : ActiveCall := ⟨call, token, .opening, none⟩

/-- One step on the shared state. -/
def step (replica : Replica) (active : ActiveCall) : Replica × ActiveCall :=
  let (replica, stage) := active.call.step active.token replica active.stage
  let next := { active with stage }
  (replica, { next with submitted := next.job? <|> active.submitted })

/-- A call up to where it submits an operation or is over. Up to there it takes two looks at most. -/
def prepare (replica : Replica) (active : ActiveCall) : ActiveCall :=
  let next := (active.step replica).2
  match next.stage with
  | .checkingQueue => (next.step replica).2
  | _ => next

/-- So many steps of a call at most, up to where it waits or is over. -/
def advance (replica : Replica) (active : ActiveCall) : Nat → Replica × ActiveCall
  | 0 => (replica, active)
  | fuel + 1 =>
    match active.stage with
    | .waiting _ | .finished _ => (replica, active)
    | _ =>
      let (replica, active) := active.step replica
      advance replica active fuel

/-- One look at the chain and what follows from it. A call takes at most three steps between two
looks. -/
def turn (replica : Replica) (active : ActiveCall) : Replica × ActiveCall :=
  let (replica, active) := active.step replica
  advance replica active 4

end ActiveCall

/-- A replica with all that goes on in it. -/
structure Session where
  replica : Replica
  peers : Peers
  /-- The most zero bits for which a search comes to an end. -/
  patience : Nat
  jobWorker : JobWorker
  /-- The writes, numbered in the order in which they began. -/
  calls : Array ActiveCall

namespace Session

/-- Where each search for a nonce starts. -/
def firstNonce : UInt64 := 0x9e3779b97f4a7c15

/-- A replica that has just been started. -/
def start (config : Config) (genesis : Option Block) (peers : Peers) (patience : Nat) : Session :=
  ⟨.start config genesis peers, peers, patience, .start, #[]⟩

/-! ## The workers -/

/-- What a search for a nonce comes to, or `none` if it goes on. -/
def search (session : Session) (template : Block) (difficulty : Nat) (attempt : Token) :
    Option (Option Block) :=
  if session.replica.tokens.isStopped attempt then some none
  else if difficulty ≤ session.patience then some (template.mine difficulty fun _ => false)
  else none

/-- So many steps of the job worker at most, up to the start of its loop, its end, or a search that
goes on. -/
def runJobWorker (session : Session) : Nat → Session
  | 0 => session
  | fuel + 1 =>
    let next (found : Option Block) : Session :=
      let (replica, jobWorker) :=
        session.jobWorker.step session.peers found session.replica
      { session with replica, jobWorker }
    match session.jobWorker.stage with
    | .checking | .returned => session
    | .mining head chosen attempt =>
      let template := JobWorker.template session.replica head chosen firstNonce
      match session.search template session.replica.config.opDifficulty attempt with
      | some found => runJobWorker (next found) fuel
      | none => session
    | _ => runJobWorker (next none) fuel

/-- A bound on the steps of a worker once around its loop: its stages, the jobs it drops and the
steps of adding a block. -/
def loopBound (session : Session) : Nat :=
  30 + session.replica.queue.size + 4 * session.replica.config.maxFetchDepth

/-- The job worker comes to the end of a loop under way and goes once around, unless its search goes
on. -/
def turnJobWorker (session : Session) : Session :=
  let session := session.runJobWorker session.loopBound
  match session.jobWorker.stage with
  | .checking =>
    let (replica, jobWorker) := session.jobWorker.step session.peers none session.replica
    runJobWorker { session with replica, jobWorker } session.loopBound
  | _ => session

/-- So many steps at most of the worker for empty blocks, up to the start of its loop. -/
def runNoOpWorker (session : Session) (stage : NoOpWorker.Stage) : Nat → Session
  | 0 => session
  | fuel + 1 =>
    let found :=
      match stage with
      | .mining head attempt =>
        let template := NoOpWorker.template session.replica head firstNonce
        (session.search template session.replica.config.noOpDifficulty attempt).join
      | _ => none
    let (replica, stage) := NoOpWorker.step session.peers found session.replica stage
    let session := { session with replica }
    match stage with
    | .checking | .returned => session
    | stage => runNoOpWorker session stage fuel

/-- Mines an empty block, if its search would end and the worker is not suspended. -/
def mineNoOp (session : Session) : Session :=
  if session.replica.config.noOpDifficulty ≤ session.patience then
    runNoOpWorker session .checking session.loopBound
  else session

/-! ## Rounds -/

/-- Does something with each write in order. -/
def eachCall (session : Session) (act : Replica → ActiveCall → Replica × ActiveCall) : Session :=
  let (replica, calls) := session.calls.foldl
    (fun (replica, calls) active =>
      let (replica, active) := act replica active
      (replica, calls.push active))
    (session.replica, #[])
  { session with replica, calls }

/-- The writes that have begun submit what they have come to. -/
def launch (session : Session) : Session :=
  session.eachCall fun replica active => active.advance replica 4

/-- Each write takes a look at the chain, in order. -/
def turnCalls (session : Session) : Session :=
  session.eachCall fun replica active => active.turn replica

/-- One round of the job worker and of the writes. -/
def round (session : Session) : Session := session.turnJobWorker.turnCalls

/-- What a round can change: the number of blocks, the queue, and where the writes are. -/
def progress (session : Session) : Nat × List Operation × List (Option Operation × Bool) :=
  (session.replica.chain.size, session.replica.queue.jobs,
    session.calls.toList.map fun call => (call.job?, call.answer?.isSome))

/-- So many rounds at most, up to one that changes nothing. -/
def settleWithin (session : Session) : Nat → Session
  | 0 => session
  | fuel + 1 =>
    let next := session.round
    if next.progress = session.progress then next else settleWithin next fuel

/-- Gives the job worker and the writes the time to do all they can do as things are. -/
def settle (session : Session) : Session := session.settleWithin 1000

/-- Waits until something holds, for so many rounds at most. When a round changes nothing an empty
block is mined; if that cannot be, there is nothing more to wait for. -/
def awaitWithin (session : Session) (holds : Session → Bool) : Nat → Session
  | 0 => session
  | fuel + 1 =>
    if holds session then session
    else
      let next := session.round
      if next.progress ≠ session.progress then awaitWithin next holds fuel
      else
        let mined := next.mineNoOp
        if mined.replica.chain.size ≠ next.replica.chain.size then awaitWithin mined holds fuel
        else mined

/-- Waits until something holds. -/
def await (session : Session) (holds : Session → Bool) : Session :=
  session.launch.awaitWithin holds 1000

/-! ## Actions from outside -/

/-- A new token for a client of the replica. -/
def newClient (session : Session) : Session × Token :=
  let (tokens, token) := session.replica.tokens.child session.replica.shutdown
  ({ session with replica := { session.replica with tokens } }, token)

/-- Starts a write, runs it up to where it submits and gives it a number. -/
def begin (session : Session) (token : Token) (call : Call) : Session × Nat :=
  let started := ActiveCall.prepare session.replica (.start call token)
  ({ session with calls := session.calls.push started }, session.calls.size)

/-- The answer of a write, if it is over. -/
def answer? (session : Session) (id : Nat) : Option Call.Answer :=
  session.calls[id]?.bind ActiveCall.answer?

/-- Whether the operation that a write submitted last is queued. -/
def isQueued (session : Session) (id : Nat) : Bool :=
  (session.calls[id]?.bind ActiveCall.submitted).any session.replica.queue.contains

/-- Waits for the answer of a write. -/
def join (session : Session) (id : Nat) : Session :=
  session.await fun session => (session.answer? id).isSome

/-- Makes a write, waits for its answer and, unless it was cancelled, until its operation has left the
queue. -/
def write (session : Session) (token : Token) (call : Call) : Session × Option Call.Answer :=
  let (session, id) := session.begin token call
  let session := session.join id
  match session.answer? id with
  | none | some (.error .shutdown) => (session, session.answer? id)
  | some answer => (session.await fun session => !session.isQueued id, some answer)

/-- Makes or withdraws a request to stop. -/
def setStopped (session : Session) (token : Token) (stopped : Bool) : Session :=
  let session := session.launch
  let replica := session.replica
  { session with replica := { replica with tokens := replica.tokens.set token stopped } }

/-- Queues an operation. -/
def submitJob (session : Session) (op : Operation) : Session × Bool :=
  let session := session.launch
  let (replica, submitted) := session.replica.submitJob op
  ({ session with replica }, submitted)

/-- Adds a block. -/
def addBlock (session : Session) (block : Block) : Session × Except AdoptionError Inserted :=
  let session := session.launch
  let (replica, result) := session.replica.addBlock session.peers block
  ({ session with replica }, result)

/-- Handles messages from the peers in order. They come through a thread of their own, so in the
meantime the job worker and the writes do all they can do. -/
def receive (session : Session) (messages : List Message) : Session :=
  let session := session.launch
  let replica := messages.foldl (fun replica m => replica.receive session.peers m) session.replica
  settle { session with replica }

/-- Whether a file is on the longest chain with at least so many records, confirmed or not. -/
def hasRecords (session : Session) (file : FileName) (count : Nat) : Bool :=
  match Call.filesOf session.replica with
  | .ok files => files[file]?.any fun view => count ≤ view.data.length
  | .error _ => false

/-- Whether the longest chain has reached a height. -/
def hasReached (session : Session) (height : Nat) : Bool :=
  session.replica.chain.headHeight?.any (height ≤ ·)

/-- How many events of a kind were reported so far. -/
def countEvents (session : Session) (kind : EventKind) : Nat :=
  session.replica.trace.toList.countP fun effect => effect.event?.any (·.kind = kind)

end Session

end RecordChain
