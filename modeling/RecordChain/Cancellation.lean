/-!
# Requests to stop

A token carries a request to stop; whoever holds it looks at it from time to time. Tokens form
trees: a token counts as stopped if the request was made on it or on any token above it, and
withdrawing a request from a token leaves those above it in force. So one token can end everything
at once while the tokens below it start and stop single activities.

All holders of a token see the same request, so a token is a number here and the requests are kept
in one place, `Cancellation`. A token is numbered after the one it hangs below.
-/

namespace RecordChain

/-- A name for a request to stop. -/
structure Token where
  index : Nat
deriving DecidableEq

namespace Cancellation

/-- One token: whether the request stands, and the token above. -/
structure Flag where
  raised : Bool
  parent : Option Token
deriving DecidableEq

end Cancellation

/-- The requests behind all tokens. -/
structure Cancellation where
  flags : Array Cancellation.Flag

namespace Cancellation

/-- No tokens yet. -/
def empty : Cancellation := ⟨#[]⟩

/-- A new token below another one, or below none, without a request. -/
def fresh (tokens : Cancellation) (parent : Option Token) : Cancellation × Token :=
  (⟨tokens.flags.push ⟨false, parent⟩⟩, ⟨tokens.flags.size⟩)

/-- A new token with none above it. -/
def root (tokens : Cancellation) : Cancellation × Token := tokens.fresh none

/-- A new token below another one. -/
def child (tokens : Cancellation) (parent : Token) : Cancellation × Token :=
  tokens.fresh (some parent)

/-- Makes or withdraws the request of a token itself. -/
def set (tokens : Cancellation) (token : Token) (raised : Bool) : Cancellation :=
  ⟨tokens.flags.modify token.index fun flag => { flag with raised }⟩

/-- Requests a stop. -/
def stop (tokens : Cancellation) (token : Token) : Cancellation := tokens.set token true

/-- Withdraws the request made on the token itself. -/
def clear (tokens : Cancellation) (token : Token) : Cancellation := tokens.set token false

/-- Whether the request was made on the token itself. -/
def isRaised (tokens : Cancellation) (token : Token) : Bool :=
  (tokens.flags[token.index]?).any (·.raised)

/-- The token above. -/
def parent? (tokens : Cancellation) (token : Token) : Option Token :=
  (tokens.flags[token.index]?).bind (·.parent)

/-- Whether a stop was requested, on the token itself or on one above it. The numbers of the tokens
above a token go down, so the walk ends. -/
def isStopped (tokens : Cancellation) (token : Token) : Bool :=
  tokens.isRaised token ||
    match tokens.parent? token with
    | some parent => if parent.index < token.index then tokens.isStopped parent else false
    | none => false
termination_by token.index

end Cancellation

end RecordChain
