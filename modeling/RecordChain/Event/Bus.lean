import RecordChain.Event.Basic

/-!
# The event bus

Publishers put events into a queue, and the bus takes them out one at a time and calls the handlers
registered for their kind. The bus works in small steps, because publishers and whoever ends it act
between them:

* it looks whether it is to shut down: a signal was sent, or the sender of the signal is gone;
* if not, it waits for an event for a while, and handles it if one came; it ends where none is
  left and no publisher is;
* if so, it handles what is left in the queue and ends.

The rest of the world acts through `publish`, `signalShutdown`, `dropSignal` and `dropPublishers`.
-/

namespace RecordChain

/-- What to call for an event of each kind. A call's result stands for what it does. -/
structure Handlers (ε ω : Type) where
  on : EventKind → List (ε → ω)

namespace Handlers

variable {ε ω : Type}

/-- The user's handler of each kind, if there is one, and after it the logging handler if events are
logged. -/
def register (user : EventKind → Option (ε → ω)) (log : ε → ω) (logEvents : Bool) :
    Handlers ε ω where
  on kind := (user kind).toList ++ if logEvents then [log] else []

/-- Whether no handler at all is registered. -/
def isEmpty (handlers : Handlers ε ω) : Bool :=
  EventKind.all.all fun kind => (handlers.on kind).isEmpty

/-- Calls the handlers for an event of some kind, in order. -/
def fire (handlers : Handlers ε ω) (kind : EventKind) (event : ε) : List ω :=
  (handlers.on kind).map fun handler => handler event

end Handlers

/-- What the bus knows about the channel that ends it. -/
inductive ShutdownSignal
  /-- Nothing was sent yet. -/
  | silent
  /-- The signal was sent. -/
  | sent
  /-- The sender is gone. -/
  | dropped
deriving DecidableEq

/-- What the bus does next. -/
inductive BusPhase
  /-- It looks whether it is to shut down. -/
  | checking
  /-- It waits for an event. -/
  | receiving
  /-- It handles what is left. -/
  | draining
  /-- It has ended. -/
  | returned
deriving DecidableEq

/-- The bus, its two channels and what its handlers have done. -/
structure EventBus (ε ω : Type) where
  handlers : Handlers ε ω
  kind : ε → EventKind
  /-- The events published and not yet taken out, the oldest first. -/
  queue : List ε
  /-- Whether a publisher is left. -/
  hasPublisher : Bool
  signal : ShutdownSignal
  phase : BusPhase
  /-- What was done by the calls so far, in order. -/
  done : List ω

namespace EventBus

variable {ε ω : Type}

/-- A bus that is about to look for its signal the first time. -/
def start (handlers : Handlers ε ω) (kind : ε → EventKind) : EventBus ε ω :=
  ⟨handlers, kind, [], true, .silent, .checking, []⟩

/-! ## What others do -/

/-- Puts an event into the queue. Without a publisher left nobody can; once the bus has ended, the
event is lost. -/
def publish (bus : EventBus ε ω) (event : ε) : EventBus ε ω :=
  if bus.hasPublisher ∧ bus.phase ≠ .returned then { bus with queue := bus.queue ++ [event] }
  else bus

/-- Sends the signal, if its sender is still there. -/
def signalShutdown (bus : EventBus ε ω) : EventBus ε ω :=
  if bus.signal = .silent then { bus with signal := .sent } else bus

/-- Drops the sender of the signal. A signal sent before still counts as sent. -/
def dropSignal (bus : EventBus ε ω) : EventBus ε ω :=
  if bus.signal = .silent then { bus with signal := .dropped } else bus

/-- Drops the last publisher. -/
def dropPublishers (bus : EventBus ε ω) : EventBus ε ω := { bus with hasPublisher := false }

/-! ## What the bus does -/

/-- Calls the handlers for an event. -/
def handle (bus : EventBus ε ω) (event : ε) : EventBus ε ω :=
  { bus with done := bus.done ++ bus.handlers.fire (bus.kind event) event }

/-- One step of the bus. Waiting for an event that does not come ends with another look for the
signal. -/
def step (bus : EventBus ε ω) : EventBus ε ω :=
  match bus.phase with
  | .checking => { bus with phase := if bus.signal = .silent then .receiving else .draining }
  | .receiving =>
    match bus.queue with
    | event :: rest => { bus.handle event with queue := rest, phase := .checking }
    | [] => { bus with phase := if bus.hasPublisher then .checking else .returned }
  | .draining =>
    match bus.queue with
    | event :: rest => { bus.handle event with queue := rest }
    | [] => { bus with phase := .returned }
  | .returned => bus

/-- So many steps of the bus, with nobody acting between them. -/
def steps (bus : EventBus ε ω) : Nat → EventBus ε ω
  | 0 => bus
  | n + 1 => bus.step.steps n

/-- The bus left to itself. With its signal given or its publishers gone it ends within this many
steps. -/
def run (bus : EventBus ε ω) : EventBus ε ω := bus.steps (2 * bus.queue.length + 3)

end EventBus

end RecordChain
