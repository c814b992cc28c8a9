import RecordChain.Operation

/-!
# The job queue

Operations that wait to be mined, the oldest first and each of them once. An operation leaves the
queue by itself, or together with all that a mined block has made superfluous.
-/

namespace RecordChain

/-- The operations that wait, the oldest first. -/
structure JobQueue where
  jobs : List Operation
deriving DecidableEq

namespace JobQueue

/-- The queue without operations. -/
def empty : JobQueue := ⟨[]⟩

def size (queue : JobQueue) : Nat := queue.jobs.length

def isEmpty (queue : JobQueue) : Bool := queue.jobs.isEmpty

def contains (queue : JobQueue) (op : Operation) : Bool := op ∈ queue.jobs

/-- Puts an operation behind all others, unless it is queued already. -/
def push (queue : JobQueue) (op : Operation) : JobQueue × Bool :=
  if queue.contains op then (queue, false) else (⟨queue.jobs ++ [op]⟩, true)

/-- Takes an operation out, if it is queued. -/
def remove (queue : JobQueue) (op : Operation) : JobQueue := ⟨queue.jobs.filter (· ≠ op)⟩

/-- Whether a mined operation makes a queued one superfluous: it does the same to the same file.
An append is still needed if it writes a later record. -/
def supersedes (mined queued : Operation) : Bool :=
  queued.file = mined.file && queued.kind = mined.kind &&
    match queued.number?, mined.number? with
    | some q, some m => q ≤ m
    | _, _ => true

/-- Takes out what a mined block has made superfluous. -/
def removeMined (queue : JobQueue) (mined : List Operation) : JobQueue :=
  ⟨queue.jobs.filter fun queued => !mined.any fun op => supersedes op queued⟩

/-- Whether the creation of a file is queued. -/
def hasCreate (queue : JobQueue) (file : FileName) : Bool :=
  queue.jobs.any fun op => op.kind = .create && op.file = file

/-- Whether the append of a record to a file is queued. -/
def hasAppend (queue : JobQueue) (file : FileName) (number : RecordNumber) : Bool :=
  queue.jobs.any fun op => op.file = file && op.number? = some number

/-- The greatest record number among the queued appends to a file. -/
def lastAppend? (queue : JobQueue) (file : FileName) : Option RecordNumber :=
  ((queue.jobs.filter fun op => op.file = file).filterMap Operation.number?).max?

end JobQueue

end RecordChain
