import RecordChain.Config
import RecordChain.Hash
import RecordChain.Text.Quoted

/-!
# Why a block or an operation cannot be applied

Each way in which a block contradicts the state it is applied to. Two of them may pass with time:
an account can earn what it lacks, and an append that is ahead of its file can wait for the records
before it (`LedgerError.isRetryable`).
-/

namespace RecordChain

/-- A height in diagnostics: the distance of a block from the first block of its chain. -/
def describeHeight (height : Nat) : String := s!"BlockHeight({height})"

/-- How a block or one of its operations contradicts the state it is applied to. -/
inductive LedgerError
  /-- A first block stands somewhere else than first. -/
  | unexpectedGenesis (block : BlockHash) (height : Nat)
  /-- A block that may not carry operations does. -/
  | unexpectedOperations (block : BlockHash)
  /-- The file to be created is there already. -/
  | fileAlreadyExists (file : FileName)
  /-- The file to be changed is not there. -/
  | fileDoesNotExist (file : FileName)
  /-- The file to be extended holds as many records as it can. -/
  | maxLengthReached (file : FileName)
  /-- The appended record is not the next one of its file. -/
  | wrongRecordNumber (file : FileName) (expected found : RecordNumber)
  /-- The creator of an operation cannot pay its fee. -/
  | notEnoughMoney (account : Account) (balance fee : Balance)
deriving DecidableEq

namespace LedgerError

/-- Whether the operation may succeed later, unchanged, on top of more blocks. -/
def isRetryable : LedgerError → Bool
  | notEnoughMoney .. => true
  | wrongRecordNumber _ expected found => expected < found
  | _ => false

/-- The error in diagnostics: its name and its particulars. -/
def describe : LedgerError → String
  | unexpectedGenesis block height =>
    "UnexpectedGenesis \x7b block: " ++ block.toHex ++ ", height: " ++ describeHeight height ++ " \x7d"
  | unexpectedOperations block => "UnexpectedRecords \x7b block: " ++ block.toHex ++ " \x7d"
  | fileAlreadyExists file =>
    "FileAlreadyExists \x7b filename: " ++ Quoted.quote file ++ " \x7d"
  | fileDoesNotExist file => "FileDoesNotExist \x7b filename: " ++ Quoted.quote file ++ " \x7d"
  | maxLengthReached file => "MaxLengthReached \x7b filename: " ++ Quoted.quote file ++ " \x7d"
  | wrongRecordNumber file expected found =>
    "AppendDuplicate \x7b filename: " ++ Quoted.quote file ++ ", expected: "
      ++ toString expected.toNat ++ ", found: " ++ toString found.toNat ++ " \x7d"
  | notEnoughMoney account balance fee =>
    "NotEnoughMoney \x7b account: " ++ Quoted.quote account ++ ", balance: "
      ++ toString balance.toNat ++ ", fee: " ++ toString fee.toNat ++ " \x7d"

end LedgerError

end RecordChain
