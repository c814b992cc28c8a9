import RecordChain.Record

/-!
# File operations

The operations a block carries. Each names the account that pays for it and the file it is about,
and an append says which record of the file it writes, so that it cannot be applied twice.
-/

namespace RecordChain

/-- The name of an account, by which miners are paid and creators of operations are charged. -/
abbrev Account := String

/-- The name of a file. -/
abbrev FileName := String

/-- The index of a record in its file, from zero. -/
abbrev RecordNumber := UInt16

/-- The most records a file can hold. -/
def maxRecords : Nat := 65535

/-- What an operation does, apart from its particulars. -/
inductive OperationKind
  | create
  | append
  | delete
deriving DecidableEq

namespace OperationKind

/-- Every kind, in the order of its number on the wire. -/
def all : List OperationKind := [.create, .append, .delete]

/-- The name of the kind in logs. -/
def name : OperationKind → String
  | .create => "CreateFile"
  | .append => "AppendFile"
  | .delete => "DeleteFile"

end OperationKind

/-- One operation on the replicated files. -/
inductive Operation
  /-- Make an empty file. -/
  | create (creator : Account) (file : FileName)
  /-- Write the record with the given number, which must be the next one of the file. -/
  | append (creator : Account) (file : FileName) (number : RecordNumber) (data : Record)
  /-- Remove a file with all its records. -/
  | delete (creator : Account) (file : FileName)
deriving DecidableEq

namespace Operation

def kind : Operation → OperationKind
  | create .. => .create
  | append .. => .append
  | delete .. => .delete

/-- The account that pays for the operation. -/
def creator : Operation → Account
  | create c _ | append c _ _ _ | delete c _ => c

/-- The file that the operation is about. -/
def file : Operation → FileName
  | create _ f | append _ f _ _ | delete _ f => f

/-- The record that an append writes. -/
def number? : Operation → Option RecordNumber
  | append _ _ n _ => some n
  | create .. | delete .. => none

end Operation

end RecordChain
