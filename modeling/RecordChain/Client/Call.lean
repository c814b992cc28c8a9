import RecordChain.Client.Poll
import RecordChain.Replica

/-!
# Writes

A write checks its arguments, submits an operation and waits until the longest chain reflects it. It
runs beside the other threads of the replica, so it is told in steps between which others may act:
`Call.step` takes one step on the shared state. A call that waits first looks whether it was
cancelled and then at the chain; if its operation is neither on the chain nor in the queue, it
submits it again.
-/

namespace RecordChain

/-- A write, made in the name of the replica's own account. -/
inductive Call
  | create (file : FileName)
  | append (file : FileName) (record : Record)
  | delete (file : FileName)
deriving DecidableEq

namespace Call

/-- What a call answers: the record number of an append, and nothing else to tell. -/
abbrev Answer := Except FileError (Option RecordNumber)

/-- What a call does next. -/
inductive Stage
  /-- It checks its arguments and looks at the chain. -/
  | opening
  /-- It looks whether the creation of its file is queued already. -/
  | checkingQueue
  /-- It submits its operation. -/
  | submitting (job : Operation)
  /-- It waits for its operation to take effect. -/
  | waiting (job : Operation)
  /-- It takes its operation out of the queue, to submit it under another number. -/
  | withdrawing (job : Operation)
  /-- It is over. -/
  | finished (answer : Answer)

/-- The file that a call writes. -/
def file : Call → FileName
  | create file | append file _ | delete file => file

/-- The files on the longest chain, confirmed or not. -/
def filesOf (replica : Replica) : Except FileError FileViews :=
  unconfirmedFiles replica.chain.longest

/-- The first step of a call: it refuses a bad name and what the chain rules out. An append chooses
its record number. -/
def openStep (call : Call) (replica : Replica) : Stage :=
  let me := replica.config.miner
  if !isFileName call.file then .finished (.error .badName)
  else match call with
    | create file =>
      match filesOf replica with
      | .error e => .finished (.error e)
      | .ok files => if file ∈ files then .finished (.error .fileExists) else .checkingQueue
    | append file record =>
      match nextRecordNumber replica.chain.longest replica.queue file with
      | .error e => .finished (.error e)
      | .ok number => .submitting (.append me file number record)
    | delete file =>
      match filesOf replica with
      | .error e => .finished (.error e)
      | .ok files =>
        if file ∈ files then .submitting (.delete me file)
        else .finished (.error .fileDoesNotExist)

/-- What a look at the chain tells a call that waits. -/
def watch (call : Call) (replica : Replica) (job : Operation) : Finding :=
  let path := replica.chain.longest
  match call with
  | create file => watchCreate replica.config.miner replica.config.confirmsPerCreate path file
  | append file record =>
    watchAppend replica.config.confirmsPerAppend path replica.queue file (job.number?.getD 0) record
  | delete file => watchDelete path file

/-- One look of a call that waits, with what follows from it. -/
def poll (call : Call) (replica : Replica) (job : Operation) : Replica × Stage :=
  match call.watch replica job with
  | .done => (replica, .finished (.ok job.number?))
  | .wait => (replica, .waiting job)
  | .keepQueued =>
    let replica := if replica.queue.contains job then replica else (replica.submitJob job).1
    (replica, .waiting job)
  | .renumber => (replica, .withdrawing job)
  | .fail e => (replica, .finished (.error e))
  | .withdraw e => ({ replica with queue := replica.queue.remove job }, .finished (.error e))

/-- One step of a call on the shared state. `token` cancels the call. -/
def step (call : Call) (token : Token) (replica : Replica) : Stage → Replica × Stage
  | .opening => (replica, call.openStep replica)
  | .checkingQueue =>
    (replica,
      if replica.queue.hasCreate call.file then .finished (.error .fileExists)
      else .submitting (.create replica.config.miner call.file))
  | .submitting job => ((replica.submitJob job).1, .waiting job)
  | .waiting job =>
    if replica.tokens.isStopped token then (replica, .finished (.error .shutdown))
    else call.poll replica job
  | .withdrawing job => ({ replica with queue := replica.queue.remove job }, .opening)
  | .finished answer => (replica, .finished answer)

end Call

end RecordChain
