import RecordChain.Event.Basic
import RecordChain.Text.Base64

/-!
# Log lines

An event is logged as values with commas between them: the name of its kind, the second at which it
happened, and its particulars. A hash is cut to the first seven characters of its Base64 text.
-/

namespace RecordChain

/-- A moment, as nanoseconds since the start of the year 1970, negative before it. -/
structure Timestamp where
  nanoseconds : Int
deriving DecidableEq

/-- The full seconds since the start of 1970; zero for all moments before it. -/
def Timestamp.seconds (time : Timestamp) : Nat := time.nanoseconds.toNat / 1000000000

/-- An event and the moment at which it happened. -/
structure TimedEvent where
  time : Timestamp
  event : Event
deriving DecidableEq

namespace Log

/-- The first seven characters of a hash in Base64. -/
def short (hash : BlockHash) : String :=
  String.ofList ((Base64.encode hash.bytes.toList).toList.take 7)

/-- The kind, creator and file of an operation, and the record number of an append. -/
def fields (op : Operation) : List String :=
  [op.kind.name, op.creator, op.file] ++ (op.number?.map fun n => toString n.toNat).toList

/-- The particulars of an event. -/
def particulars : Event → List String
  | .insertBlock block height => [short block, toString height]
  | .updateHead head height => [short head, toString height]
  | .rejectBlock block reason => [short block, reason.describe]
  | .orphanBlock block missing => [short block, short missing]
  | .fetchBlock block found => [short block, toString found]
  | .mineBlock block kind operations => [short block, kind.name, toString operations]
  | .discardStaleBlock block => [short block]
  | .dropJob job reason => fields job ++ [reason.describe]
  | .submitJob job => fields job
  | .receiveJob job => fields job
  | .receiveBlock block => [short block]

/-- The line that is logged for an event. -/
def line (timed : TimedEvent) : String :=
  ", ".intercalate
    ([timed.event.kind.name, toString timed.time.seconds] ++ particulars timed.event)

end Log

end RecordChain
