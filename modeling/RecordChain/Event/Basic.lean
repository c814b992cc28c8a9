import RecordChain.Validator

/-!
# Events

What a replica reports about itself. An event is reported after the thing it is about is done.
-/

namespace RecordChain

/-- The kinds of events. -/
inductive EventKind
  | insertBlock
  | updateHead
  | rejectBlock
  | orphanBlock
  | fetchBlock
  | mineBlock
  | discardStaleBlock
  | dropJob
  | submitJob
  | receiveJob
  | receiveBlock
deriving DecidableEq

namespace EventKind

/-- Every kind. -/
def all : List EventKind :=
  [.insertBlock, .updateHead, .rejectBlock, .orphanBlock, .fetchBlock, .mineBlock,
    .discardStaleBlock, .dropJob, .submitJob, .receiveJob, .receiveBlock]

/-- The name of the kind in logs. -/
def name : EventKind → String
  | .insertBlock => "InsertBlock"
  | .updateHead => "UpdateHead"
  | .rejectBlock => "RejectBlock"
  | .orphanBlock => "OrphanBlock"
  | .fetchBlock => "FetchBlock"
  | .mineBlock => "MineBlock"
  | .discardStaleBlock => "DiscardStaleBlock"
  | .dropJob => "DropJob"
  | .submitJob => "SubmitJob"
  | .receiveJob => "ReceiveJob"
  | .receiveBlock => "ReceiveBlock"

end EventKind

/-- Something that happened in a replica. -/
inductive Event
  /-- A block joined the tree. -/
  | insertBlock (block : BlockHash) (height : Nat)
  /-- The longest chain has a new end. -/
  | updateHead (head : BlockHash) (height : Nat)
  /-- A block failed a check, other than for want of its parent. -/
  | rejectBlock (block : BlockHash) (reason : ValidationError)
  /-- A block was given up because an ancestor is missing. -/
  | orphanBlock (block missing : BlockHash)
  /-- An ancestor was asked of the peers. -/
  | fetchBlock (block : BlockHash) (found : Bool)
  /-- A nonce was found for a block on top of the head. -/
  | mineBlock (block : BlockHash) (kind : BlockKind) (operations : Nat)
  /-- A nonce was found, but the head had moved meanwhile. -/
  | discardStaleBlock (block : BlockHash)
  /-- A queued operation was given up because it can never be applied. -/
  | dropJob (job : Operation) (reason : LedgerError)
  /-- An operation was queued here. -/
  | submitJob (job : Operation)
  /-- An operation came from a peer and was queued. -/
  | receiveJob (job : Operation)
  /-- A block came from a peer. -/
  | receiveBlock (block : BlockHash)
deriving DecidableEq

/-- The kind of an event. -/
def Event.kind : Event → EventKind
  | insertBlock .. => .insertBlock
  | updateHead .. => .updateHead
  | rejectBlock .. => .rejectBlock
  | orphanBlock .. => .orphanBlock
  | fetchBlock .. => .fetchBlock
  | mineBlock .. => .mineBlock
  | discardStaleBlock .. => .discardStaleBlock
  | dropJob .. => .dropJob
  | submitJob .. => .submitJob
  | receiveJob .. => .receiveJob
  | receiveBlock .. => .receiveBlock

end RecordChain
