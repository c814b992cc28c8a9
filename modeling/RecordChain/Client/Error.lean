import RecordChain.Ledger.Error

/-!
# Why a call on files fails
-/

namespace RecordChain

/-- The most bytes that a file name may have. -/
def maxNameLength : Nat := 64

/-- Why a call on files fails. -/
inductive FileError
  /-- The name of the file is empty or too long. -/
  | badName
  | fileExists
  | fileDoesNotExist
  /-- The file cannot hold another record. -/
  | maxLengthReached
  | recordOutOfRange
  /-- The call was cancelled, or the replica ends. -/
  | shutdown
  /-- The longest chain could not be replayed. -/
  | badState (reason : LedgerError)
deriving DecidableEq

/-- The error in words. -/
def FileError.message : FileError → String
  | badName => s!"filename must be between 1 and {maxNameLength} bytes long"
  | fileExists => "file already exists"
  | fileDoesNotExist => "file does not exist"
  | maxLengthReached => "file has reached its maximum length"
  | recordOutOfRange => "record number is out of range"
  | shutdown => "operation was cancelled"
  | badState reason => "cannot replay the chain: " ++ reason.describe

/-- Whether a name is neither empty nor too long. -/
def isFileName (name : FileName) : Bool := name ≠ "" && name.utf8ByteSize ≤ maxNameLength

end RecordChain
