import RecordChain.Client.Error
import RecordChain.JobQueue
import RecordChain.Ledger.View

/-!
# Reading files, and watching a write

Readers see confirmed files and records only (`listFiles`, `countRecords`, `readRecord`).

A write submits an operation and then looks again and again at the longest chain, all of it and not
only the confirmed part, until the write is in place. `Finding` is what such a look comes to. The
looks are functions of the longest chain and of the queue, so they can be compared across chains that
grow and queues that change.

An append chooses its record number after all records on the chain and all queued appends. It gives
the number up when another record has taken it, or when no queued append fills the gap before it any
more.
-/

namespace RecordChain

/-- Every file on a chain, with creations and appends that are not confirmed yet. -/
def unconfirmedFiles (path : List Block) : Except FileError FileViews :=
  (filesAfter ⟨0, 0⟩ path).mapError .badState

/-- The confirmed files on a chain. -/
def confirmedFiles (confirmations : Confirmations) (path : List Block) :
    Except FileError FileViews :=
  (filesAfter confirmations path).mapError .badState

/-! ## Reading -/

/-- The names of the confirmed files, in order. -/
def listFiles (confirmations : Confirmations) (path : List Block) :
    Except FileError (List FileName) := do
  let files ← confirmedFiles confirmations path
  pure files.keys

/-- The number of confirmed records of a file. -/
def countRecords (confirmations : Confirmations) (path : List Block) (file : FileName) :
    Except FileError RecordNumber := do
  let files ← confirmedFiles confirmations path
  match files[file]? with
  | some view => pure view.count
  | none => throw .fileDoesNotExist

/-- A confirmed record of a file. -/
def readRecord (confirmations : Confirmations) (path : List Block) (file : FileName)
    (number : RecordNumber) : Except FileError Record := do
  let files ← confirmedFiles confirmations path
  match files[file]? with
  | none => throw .fileDoesNotExist
  | some view =>
    match view.data[number.toNat]? with
    | some record => pure record
    | none => throw .recordOutOfRange

/-! ## Choosing a record number -/

/-- The number for a new record of a file: the one after every record on the chain and every queued
append. -/
def nextRecordNumber (path : List Block) (queue : JobQueue) (file : FileName) :
    Except FileError RecordNumber := do
  let files ← unconfirmedFiles path
  match files[file]? with
  | none => throw .fileDoesNotExist
  | some view =>
    let afterQueued := (queue.lastAppend? file).elim 0 fun last => last.toNat + 1
    let next := max view.count.toNat afterQueued
    if maxRecords ≤ next then throw .maxLengthReached else pure (UInt16.ofNat next)

/-- Whether an append with some number can still apply: it is the next one of the file, or the next
one is queued. -/
def gapIsPending (queue : JobQueue) (file : FileName) (view : FileView) (number : RecordNumber) :
    Bool :=
  view.count = number || queue.hasAppend file view.count

/-! ## Watching -/

/-- What a look at the chain tells a write that waits. -/
inductive Finding
  /-- The write is in place. -/
  | done
  /-- The write is on the chain and lacks confirmation. -/
  | wait
  /-- The write is not on the chain. Its operation must be queued, or it is lost. -/
  | keepQueued
  /-- The record number is taken or out of reach: choose another one. -/
  | renumber
  /-- The write fails. -/
  | fail (reason : FileError)
  /-- The write fails and its operation must not stay in the queue. -/
  | withdraw (reason : FileError)
deriving DecidableEq

/-- The finding of a look that may fail. -/
def Finding.ofExcept : Except FileError Finding → Finding
  | .ok finding => finding
  | .error e => .fail e

/-- Looks for a file that `me` creates. -/
def watchCreate (me : Account) (depth : Nat) (path : List Block) (file : FileName) : Finding :=
  .ofExcept do
    let files ← unconfirmedFiles path
    match files[file]? with
    | none => pure .keepQueued
    | some view =>
      if view.creator ≠ me then throw .fileExists
      let confirmed ← confirmedFiles ⟨depth, 0⟩ path
      pure (if confirmed[file]?.any (·.creator = me) then .done else .wait)

/-- Looks for a record that is appended under some number. -/
def watchAppend (depth : Nat) (path : List Block) (queue : JobQueue) (file : FileName)
    (number : RecordNumber) (record : Record) : Finding :=
  .ofExcept do
    let files ← unconfirmedFiles path
    match files[file]? with
    | none => pure (.withdraw .fileDoesNotExist)
    | some view =>
      match view.data[number.toNat]? with
      | some data =>
        if data = record then
          let confirmed ← confirmedFiles ⟨0, depth⟩ path
          let found := confirmed[file]?.bind fun view => view.data[number.toNat]?
          pure (if found = some record then .done else .wait)
        else pure .renumber
      | none => pure (if gapIsPending queue file view number then .keepQueued else .renumber)

/-- Looks for a file that is deleted. -/
def watchDelete (path : List Block) (file : FileName) : Finding :=
  .ofExcept do
    let files ← unconfirmedFiles path
    pure (if file ∈ files then .keepQueued else .done)

end RecordChain
