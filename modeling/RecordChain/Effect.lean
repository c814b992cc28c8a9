import RecordChain.Cancellation
import RecordChain.Event.Basic

/-!
# Effects

What an action of a replica does besides changing the replica's own data: events reported, questions
and messages to the peers, warnings, and requests to stop made on tokens. Actions return their
effects in the order of occurrence.
-/

namespace RecordChain

/-- Why a block could not be added together with its ancestors. -/
inductive AdoptionError
  /-- The block itself failed a check. -/
  | rejected (reason : ValidationError)
  /-- The block could not be joined to the tree: an ancestor was not to be had, failed a check, or is
  too far back. -/
  | orphaned (block missing : BlockHash)
deriving DecidableEq

/-- The error in diagnostics. -/
def AdoptionError.describe : AdoptionError → String
  | rejected reason => "Rejected(" ++ reason.describe ++ ")"
  | orphaned block missing =>
    "Orphaned \x7b block: " ++ block.toHex ++ ", missing: " ++ missing.toHex ++ " \x7d"

/-- Failures that go no further than the log. -/
inductive Warning
  /-- The first block that the operator provided failed a check. -/
  | genesisNotInserted (block : BlockHash) (reason : ValidationError)
  /-- The root of a peer could not be added. -/
  | rootNotInserted (block : BlockHash) (reason : AdoptionError)
  /-- A block mined here could not be added. -/
  | minedNotInserted (block : BlockHash) (reason : AdoptionError)
  /-- The ledger at the head could not be replayed. -/
  | headNotReplayed (head : BlockHash) (reason : LedgerError)
deriving DecidableEq

/-- The warning in words. -/
def Warning.message : Warning → String
  | genesisNotInserted block reason =>
    "genesis block " ++ block.toHex ++ " was not inserted: " ++ reason.describe
  | rootNotInserted block reason =>
    "could not insert remote root " ++ block.toHex ++ ": " ++ reason.describe
  | minedNotInserted block reason =>
    "mined block " ++ block.toHex ++ " was not inserted: " ++ reason.describe
  | headNotReplayed head reason =>
    "cannot replay the chain at head " ++ head.toHex ++ ": " ++ reason.describe

/-- Something an action does to the world around it. -/
inductive Effect
  /-- Reports an event. -/
  | publish (event : Event)
  /-- Asks the peers for a block. -/
  | request (block : BlockHash)
  /-- Sends a message to all peers. -/
  | broadcast (message : Message)
  /-- Writes a warning to the log. -/
  | warn (warning : Warning)
  /-- Requests a stop on a token. -/
  | stop (token : Token)
deriving DecidableEq

namespace Effect

/-- The event reported, if the effect is a report. -/
def event? : Effect → Option Event
  | publish event => some event
  | _ => none

/-- The hash asked for, if the effect is a question. -/
def request? : Effect → Option BlockHash
  | request block => some block
  | _ => none

/-- The message sent, if the effect is a broadcast. -/
def broadcast? : Effect → Option Message
  | broadcast message => some message
  | _ => none

/-- The warning written, if the effect is one. -/
def warning? : Effect → Option Warning
  | warn warning => some warning
  | _ => none

/-- The token stopped, if the effect is a request to stop. -/
def stopped? : Effect → Option Token
  | stop token => some token
  | _ => none

end Effect

end RecordChain
