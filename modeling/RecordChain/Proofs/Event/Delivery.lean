import Mathlib.Data.List.Infix
import RecordChain.Event.Bus

/-!
# What an event bus delivers

Events are sent to a bus while it works, and it can be asked to end in three ways: by the signal, by
the loss of the signal's sender, and by the loss of the last publisher. Any of this may come between
any two of its steps.

* **`Progress`**: the ways in which a bus takes a step.
* **`Moved`**: what each move makes of it, its own steps and all else.
* **`Serves.play`**: what a bus takes in, it has handled in order or still holds.
* **`sentInTime_prefix_intake`**: until it is asked to end, it takes in all that is sent.
* **`rank_play_le`**: after that, each of its steps brings the end nearer.
* **`delivers`**: what the handlers are called for by the time that the bus ends.
-/

namespace RecordChain.EventBus

variable {ε ω : Type}

/-! ## Everything that can happen -/

/-- One move of a bus or of those around it. -/
inductive Move (ε : Type)
  | publish (event : ε)
  | signalShutdown
  | dropSignal
  | dropPublishers
  | step

namespace Move

/-- What a move does to a bus. -/
def act (bus : EventBus ε ω) : Move ε → EventBus ε ω
  | publish event => bus.publish event
  | signalShutdown => bus.signalShutdown
  | dropSignal => bus.dropSignal
  | dropPublishers => bus.dropPublishers
  | step => bus.step

/-- The event that is sent by a move. -/
def event? : Move ε → Option ε
  | publish event => some event
  | signalShutdown | dropSignal | dropPublishers | step => none

/-- Whether a move asks the bus to end. -/
def ends : Move ε → Bool
  | signalShutdown | dropSignal | dropPublishers => true
  | publish _ | step => false

/-- Whether a move is one of the bus. -/
def isStep : Move ε → Bool
  | step => true
  | publish _ | signalShutdown | dropSignal | dropPublishers => false

end Move

/-- What some moves make of a bus. -/
def play (bus : EventBus ε ω) (moves : List (Move ε)) : EventBus ε ω := moves.foldl Move.act bus

/-- The events sent by some moves, in order. -/
def sent (moves : List (Move ε)) : List ε := moves.filterMap Move.event?

/-- The events that are sent before the bus is asked to end, in whichever way. -/
def sentInTime (moves : List (Move ε)) : List ε := sent (moves.takeWhile fun move => !move.ends)

/-- The calls for an event of some kind: the user's handler of this kind, if there is one, and after
it the log, if events are logged. -/
def calls (user : EventKind → Option (ε → ω)) (log : ε → ω) (logEvents : Bool) (kind : EventKind)
    (event : ε) : List ω :=
  ((user kind).map fun handler => handler event).toList ++ if logEvents then [log event] else []

variable {bus next : EventBus ε ω} {move : Move ε} {moves : List (Move ε)} {event : ε}

theorem play_cons (bus : EventBus ε ω) (move : Move ε) (moves : List (Move ε)) :
    bus.play (move :: moves) = (move.act bus).play moves := rfl

/-- What is sent is sent in the order of the moves. -/
theorem sent_cons (move : Move ε) (moves : List (Move ε)) :
    sent (move :: moves) = move.event?.toList ++ sent moves := by
  rw [sent, List.filterMap_cons]
  cases move.event? <;> rfl

/-- Firing an event calls the handler of the user for its kind and then the log. -/
theorem fire_register (user : EventKind → Option (ε → ω)) (log : ε → ω) (logEvents : Bool)
    (kind : EventKind) (event : ε) :
    (Handlers.register user log logEvents).fire kind event = calls user log logEvents kind event := by
  cases huser : user kind <;> cases logEvents <;> simp [Handlers.fire, Handlers.register, calls, huser]

/-- A replica has no bus if no handler is registered. There is nothing to call then. -/
theorem calls_eq_nil_of_isEmpty {user : EventKind → Option (ε → ω)} {log : ε → ω} {logEvents : Bool}
    (h : (Handlers.register user log logEvents).isEmpty) (kind : EventKind) (event : ε) :
    calls user log logEvents kind event = [] := by
  have hkind : kind ∈ EventKind.all := by cases kind <;> decide
  have hnone := List.isEmpty_iff.mp (List.all_eq_true.mp h kind hkind)
  rw [← fire_register, Handlers.fire, hnone, List.map_nil]

/-! ## Steps of the bus -/

/-- The ways in which a bus takes a step. -/
inductive Progress (bus : EventBus ε ω) : EventBus ε ω → Prop
  | waits (phase : bus.phase = .checking) (signal : bus.signal = .silent) :
      Progress bus { bus with phase := .receiving }
  | stops (phase : bus.phase = .checking) (signal : bus.signal ≠ .silent) :
      Progress bus { bus with phase := .draining }
  | handles {event : ε} {rest : List ε} (phase : bus.phase = .receiving)
      (queue : bus.queue = event :: rest) :
      Progress bus { bus.handle event with queue := rest, phase := .checking }
  | idles (phase : bus.phase = .receiving) (queue : bus.queue = []) (publisher : bus.hasPublisher) :
      Progress bus { bus with phase := .checking }
  | leaves (phase : bus.phase = .receiving) (queue : bus.queue = [])
      (publisher : bus.hasPublisher = false) : Progress bus { bus with phase := .returned }
  | drains {event : ε} {rest : List ε} (phase : bus.phase = .draining)
      (queue : bus.queue = event :: rest) : Progress bus { bus.handle event with queue := rest }
  | finishes (phase : bus.phase = .draining) (queue : bus.queue = []) :
      Progress bus { bus with phase := .returned }
  | rests (phase : bus.phase = .returned) : Progress bus bus

/-- A step of the bus is one of the ways in which it can go on. -/
theorem progress_step (bus : EventBus ε ω) : Progress bus bus.step := by
  rw [step]
  split
  · next hphase =>
    split
    · next hsignal => exact .waits hphase hsignal
    · next hsignal => exact .stops hphase hsignal
  · next hphase =>
    split
    · next hqueue => exact .handles hphase hqueue
    · next hqueue =>
      split
      · next hpublisher => exact .idles hphase hqueue hpublisher
      · next hpublisher => exact .leaves hphase hqueue (Bool.eq_false_iff.mpr hpublisher)
  · next hphase =>
    split
    · next hqueue => exact .drains hphase hqueue
    · next hqueue => exact .finishes hphase hqueue
  · next hphase => exact .rests hphase

/-! ## Moves -/

/-- Whether a bus takes in an event that is sent now. -/
def Accepts (bus : EventBus ε ω) : Prop := bus.hasPublisher ∧ bus.phase ≠ .returned

instance (bus : EventBus ε ω) : Decidable bus.Accepts :=
  inferInstanceAs (Decidable (bus.hasPublisher ∧ bus.phase ≠ .returned))

/-- Whether a bus has been asked to end. -/
def Asked (bus : EventBus ε ω) : Prop := bus.signal ≠ .silent ∨ bus.hasPublisher = false

/-- What a move makes of a bus. -/
inductive Moved (bus : EventBus ε ω) : Move ε → EventBus ε ω → Prop
  | published {event : ε} (accepts : bus.Accepts) :
      Moved bus (.publish event) { bus with queue := bus.queue ++ [event] }
  | lost {event : ε} (refuses : ¬ bus.Accepts) : Moved bus (.publish event) bus
  | signalled {move : Move ε} {signal : ShutdownSignal} (ends : move.ends)
      (unsent : move.event? = none) (still : move.isStep = false) (given : signal ≠ .silent) :
      Moved bus move { bus with signal }
  | left : Moved bus .dropPublishers { bus with hasPublisher := false }
  | stepped {next : EventBus ε ω} (progress : Progress bus next) : Moved bus .step next

/-- A move of somebody is one of the ways in which the bus changes. -/
theorem moved_act (bus : EventBus ε ω) (move : Move ε) : Moved bus move (move.act bus) := by
  cases move with
  | publish event =>
    rw [Move.act, publish]
    split
    · next haccepts => exact .published haccepts
    · next hrefuses => exact .lost hrefuses
  | signalShutdown =>
    rw [Move.act, signalShutdown]
    split
    · exact .signalled rfl rfl rfl nofun
    · next hgiven => exact .signalled rfl rfl rfl hgiven
  | dropSignal =>
    rw [Move.act, dropSignal]
    split
    · exact .signalled rfl rfl rfl nofun
    · next hgiven => exact .signalled rfl rfl rfl hgiven
  | dropPublishers => exact .left
  | step => exact .stepped (progress_step bus)

/-- What every move keeps is kept by a whole play. Induction on the moves. -/
theorem play_induction {motive : EventBus ε ω → Prop}
    (hmove : ∀ {bus next : EventBus ε ω} {move : Move ε}, motive bus → Moved bus move next → motive next)
    (h : motive bus) (moves : List (Move ε)) : motive (bus.play moves) := by
  induction moves generalizing bus with
  | nil => exact h
  | cons move moves ih => exact ih (hmove h (moved_act bus move))

/-! ## Nothing gets lost -/

/-- The events that are sent during some moves while the bus has not ended and a publisher is left. -/
def intake : EventBus ε ω → List (Move ε) → List ε
  | _, [] => []
  | bus, move :: moves =>
    (if bus.Accepts then move.event?.toList else []) ++ intake (move.act bus) moves

/-- A bus has taken some events in. It may have handled some of the events it held, the oldest first,
and holds all the others. -/
structure Serves (bus : EventBus ε ω) (taken : List ε) (next : EventBus ε ω) : Prop where
  handlers_eq : next.handlers = bus.handlers
  kind_eq : next.kind = bus.kind
  account : ∃ handled : List ε,
    next.done = bus.done ++ handled.flatMap (fun event => bus.handlers.fire (bus.kind event) event)
      ∧ handled ++ next.queue = bus.queue ++ taken

namespace Serves

/-- Nothing is handled. -/
theorem idle {taken : List ε} (hhandlers : next.handlers = bus.handlers)
    (hkind : next.kind = bus.kind) (hdone : next.done = bus.done)
    (hqueue : next.queue = bus.queue ++ taken) : Serves bus taken next :=
  ⟨hhandlers, hkind, [], by rw [hdone, List.flatMap_nil, List.append_nil], hqueue⟩

/-- The oldest event is handled. -/
theorem first {rest : List ε} (phase : BusPhase) (hqueue : bus.queue = event :: rest) :
    Serves bus [] { bus.handle event with queue := rest, phase } := by
  refine ⟨rfl, rfl, [event], ?_, ?_⟩
  · rw [List.flatMap_singleton]
    rfl
  · rw [hqueue, List.append_nil]
    rfl

/-- What is served in two stretches is served in the whole, in order. -/
theorem trans {last : EventBus ε ω} {taken more : List ε} (h : Serves bus taken next)
    (hlast : Serves next more last) : Serves bus (taken ++ more) last := by
  obtain ⟨handled, hdone, hqueue⟩ := h.account
  obtain ⟨later, hdone', hqueue'⟩ := hlast.account
  refine ⟨hlast.handlers_eq.trans h.handlers_eq, hlast.kind_eq.trans h.kind_eq, handled ++ later,
    ?_, ?_⟩
  · rw [hdone', hdone, h.handlers_eq, h.kind_eq, List.flatMap_append, List.append_assoc]
  · rw [List.append_assoc, hqueue', ← List.append_assoc, hqueue, List.append_assoc]

/-- A step of the bus takes nothing in, and calls handlers for what stands first in the queue. -/
theorem of_progress (h : Progress bus next) : Serves bus [] next := by
  cases h with
  | handles phase queue => exact first .checking queue
  | drains phase queue => exact first bus.phase queue
  | waits | stops | idles | leaves | finishes | rests =>
    exact idle rfl rfl rfl (List.append_nil _).symm

/-- A move takes in what it sends, if the bus accepts. -/
theorem of_moved (h : Moved bus move next) :
    Serves bus (if bus.Accepts then move.event?.toList else []) next := by
  cases h with
  | published accepts =>
    rw [if_pos accepts]
    exact idle rfl rfl rfl rfl
  | lost refuses =>
    rw [if_neg refuses]
    exact idle rfl rfl rfl (List.append_nil _).symm
  | signalled ends unsent =>
    rw [unsent, Option.toList_none, ite_self]
    exact idle rfl rfl rfl (List.append_nil _).symm
  | left =>
    rw [Move.event?, Option.toList_none, ite_self]
    exact idle rfl rfl rfl (List.append_nil _).symm
  | stepped progress =>
    rw [Move.event?, Option.toList_none, ite_self]
    exact of_progress progress

/-- A play serves all that it takes in. Induction on the moves. -/
theorem play (bus : EventBus ε ω) (moves : List (Move ε)) :
    Serves bus (bus.intake moves) (bus.play moves) := by
  induction moves generalizing bus with
  | nil => exact idle rfl rfl rfl (List.append_nil _).symm
  | cons move moves ih => exact (of_moved (moved_act bus move)).trans (ih (move.act bus))

end Serves

/-! ## What is taken in -/

/-- A bus that accepts after a move accepted before. -/
theorem Moved.accepts (h : Moved bus move next) (haccepts : next.Accepts) : bus.Accepts := by
  cases h with
  | published accepts => exact accepts
  | lost => exact haccepts
  | signalled => exact haccepts
  | left => exact absurd haccepts.1 nofun
  | stepped progress =>
    cases progress with
    | rests => exact haccepts
    | leaves => exact absurd rfl haccepts.2
    | finishes => exact absurd rfl haccepts.2
    | waits phase | stops phase | handles phase | idles phase | drains phase =>
      exact ⟨haccepts.1, by rw [phase]; nofun⟩

/-- A bus that has closed takes nothing in any more. -/
theorem intake_eq_nil (h : ¬ bus.Accepts) : bus.intake moves = [] := by
  induction moves generalizing bus with
  | nil => rfl
  | cons move moves ih => rw [intake, if_neg h, ih (mt (moved_act bus move).accepts h), List.nil_append]

/-- What is taken in is a first part of what is sent. -/
theorem intake_prefix_sent (bus : EventBus ε ω) (moves : List (Move ε)) :
    bus.intake moves <+: sent moves := by
  induction moves generalizing bus with
  | nil => exact List.prefix_rfl
  | cons move moves ih =>
    by_cases haccepts : bus.Accepts
    · rw [intake, if_pos haccepts, sent_cons]
      exact (List.prefix_append_right_inj _).mpr (ih _)
    · rw [intake_eq_nil haccepts]
      exact List.nil_prefix

/-- A bus that nobody has asked to end. -/
structure Undisturbed (bus : EventBus ε ω) : Prop where
  signal : bus.signal = .silent
  publisher : bus.hasPublisher
  phase : bus.phase = .checking ∨ bus.phase = .receiving

namespace Undisturbed

/-- A bus that was never asked to stop accepts. -/
theorem accepts (h : bus.Undisturbed) : bus.Accepts := by
  refine ⟨h.publisher, ?_⟩
  rcases h.phase with hphase | hphase <;> rw [hphase] <;> nofun

/-- Only a request to stop disturbs. -/
theorem of_moved (h : bus.Undisturbed) (hmoved : Moved bus move next) (hends : move.ends = false) :
    next.Undisturbed := by
  cases hmoved with
  | published => exact ⟨h.signal, h.publisher, h.phase⟩
  | lost => exact h
  | signalled ends => exact absurd ends (Bool.eq_false_iff.mp hends)
  | left => exact absurd hends nofun
  | stepped progress =>
    cases progress with
    | waits => exact ⟨h.signal, h.publisher, Or.inr rfl⟩
    | handles | idles => exact ⟨h.signal, h.publisher, Or.inl rfl⟩
    | rests => exact h
    | stops phase signal => exact absurd h.signal signal
    | leaves phase queue publisher => exact absurd h.publisher (Bool.eq_false_iff.mp publisher)
    | drains phase | finishes phase =>
      have hworks := h.phase
      rw [phase] at hworks
      exact absurd hworks (by decide)

end Undisturbed

/-- Until it is asked to end, a bus takes in all that is sent. -/
theorem sentInTime_prefix_intake (h : bus.Undisturbed) : sentInTime moves <+: bus.intake moves := by
  induction moves generalizing bus with
  | nil => exact List.prefix_rfl
  | cons move moves ih =>
    rw [sentInTime, List.takeWhile_cons]
    split
    · next hends =>
      rw [Bool.not_eq_true'] at hends
      rw [sent_cons, intake, if_pos h.accepts]
      exact (List.prefix_append_right_inj _).mpr (ih (h.of_moved (moved_act bus move) hends))
    · exact List.nil_prefix

/-! ## How a bus ends -/

/-- Without a request to stop the bus is undisturbed to the end. -/
theorem Undisturbed.play (h : bus.Undisturbed) (hends : ∀ move ∈ moves, move.ends = false) :
    (bus.play moves).Undisturbed := by
  induction moves generalizing bus with
  | nil => exact h
  | cons move moves ih =>
    rw [List.forall_mem_cons] at hends
    exact ih (h.of_moved (moved_act bus move) hends.1) hends.2

/-- A bus that has ended holds no event. -/
def Cleared (bus : EventBus ε ω) : Prop := bus.phase = .returned → bus.queue = []

/-- What is shut down stays cleared. -/
theorem Cleared.of_moved (h : bus.Cleared) (hmoved : Moved bus move next) : next.Cleared := by
  cases hmoved with
  | published accepts => exact fun hreturned => absurd hreturned accepts.2
  | lost => exact h
  | signalled => exact h
  | left => exact h
  | stepped progress =>
    cases progress with
    | rests => exact h
    | leaves phase queue => exact fun _ => queue
    | finishes phase queue => exact fun _ => queue
    | waits | stops | handles | idles => exact nofun
    | drains phase => exact fun hreturned => absurd (phase.symm.trans hreturned) nofun

/-- Whether a bus has ended and these are the calls it has made. -/
def Closed (done : List ω) (bus : EventBus ε ω) : Prop := bus.phase = .returned ∧ bus.done = done

/-- What a closed bus has done stays as it is. -/
theorem Closed.of_moved {done : List ω} (h : bus.Closed done) (hmoved : Moved bus move next) :
    next.Closed done := by
  cases hmoved with
  | published accepts => exact absurd h.1 accepts.2
  | lost | signalled | left => exact h
  | stepped progress =>
    cases progress with
    | rests => exact h
    | waits phase | stops phase | handles phase | idles phase | leaves phase | drains phase
    | finishes phase => exact absurd (phase.symm.trans h.1) nofun

/-- A request to stop is not taken back. -/
theorem Asked.of_moved (h : bus.Asked) (hmoved : Moved bus move next) : next.Asked := by
  cases hmoved with
  | published | lost => exact h
  | signalled _ _ _ given => exact Or.inl given
  | left => exact Or.inr rfl
  | stepped progress =>
    cases progress with
    | waits | stops | handles | idles | leaves | drains | finishes | rests => exact h

/-- A move that ends the bus is a request to stop. -/
theorem Moved.asked (h : Moved bus move next) (hends : move.ends) : next.Asked := by
  cases h with
  | published | lost | stepped => exact absurd hends nofun
  | signalled _ _ _ given => exact Or.inl given
  | left => exact Or.inr rfl

/-- One move that ends the bus is enough for a whole play. -/
theorem asked_play (h : ∃ move ∈ moves, move.ends) : (bus.play moves).Asked := by
  induction moves generalizing bus with
  | nil => exact absurd h nofun
  | cons move moves ih =>
    rw [List.exists_mem_cons_iff] at h
    rcases h with hends | hlater
    · exact play_induction Asked.of_moved ((moved_act bus move).asked hends) moves
    · exact ih hlater

/-- How many steps a bus that has been asked to end is from its end. -/
def rank (bus : EventBus ε ω) : Nat :=
  match bus.phase with
  | .checking => 2 * bus.queue.length + 2
  | .receiving => 2 * bus.queue.length + if bus.hasPublisher then 3 else 1
  | .draining => 2 * bus.queue.length + 1
  | .returned => 0

/-- The rank is bounded by the length of the queue. -/
theorem rank_le (bus : EventBus ε ω) : bus.rank ≤ 2 * bus.queue.length + 3 := by
  rw [rank]
  split <;> (try split) <;> omega

theorem phase_of_rank_eq_zero (h : bus.rank = 0) : bus.phase = .returned := by
  rw [rank] at h
  split at h
  · omega
  · split at h <;> omega
  · omega
  · assumption

/-- Once the bus was asked to stop, each of its own steps lowers the rank. -/
theorem Progress.rank_lt (h : Progress bus next) (hasked : bus.Asked)
    (hworks : bus.phase ≠ .returned) : next.rank < bus.rank := by
  cases h with
  | waits phase signal =>
    -- Only the lack of publishers can have asked it to end.
    have hpublisher := hasked.resolve_left (not_not_intro signal)
    simp [rank, phase, hpublisher]
  | stops phase => simp [rank, phase]
  | handles phase queue =>
    simp only [rank, phase, queue, List.length_cons]
    split <;> omega
  | idles phase queue publisher => simp [rank, phase, queue, publisher]
  | leaves phase queue publisher => simp [rank, phase, queue, publisher]
  | drains phase queue => simp [rank, phase, queue, handle]
  | finishes phase queue => simp [rank, phase, queue]
  | rests phase => exact absurd phase hworks

/-- The moves of others raise the rank by no more than what they send. -/
theorem Moved.rank_le (h : Moved bus move next) (hasked : bus.Asked)
    (hworks : bus.phase ≠ .returned) :
    next.rank + (if move.isStep then 1 else 0) ≤ bus.rank + 2 * move.event?.toList.length := by
  cases h with
  | published =>
    simp only [rank, Move.isStep, Move.event?, List.length_append, Option.toList_some,
      List.length_singleton, Bool.false_eq_true, if_false]
    split <;> omega
  | lost => exact Nat.le_add_right _ _
  | signalled _ unsent still =>
    rw [unsent, still]
    exact Nat.le_refl _
  | left =>
    have hless : ∀ publisher : Bool, 1 ≤ if publisher then 3 else 1 := by decide
    cases hphase : bus.phase with
    | receiving => simpa [rank, hphase, Move.isStep, Move.event?] using hless bus.hasPublisher
    | checking | draining | returned => simp [rank, hphase, Move.isStep, Move.event?]
  | stepped progress => exact progress.rank_lt hasked hworks

/-- A bus that has been asked to end gets nearer to its end with each step that it takes. -/
theorem rank_play_le (hasked : bus.Asked) :
    (bus.play moves).phase = .returned
      ∨ (bus.play moves).rank + moves.countP Move.isStep ≤ bus.rank + 2 * (sent moves).length := by
  induction moves generalizing bus with
  | nil => exact Or.inr (Nat.le_refl _)
  | cons move moves ih =>
    have hmoved := moved_act bus move
    by_cases hreturned : bus.phase = .returned
    · exact Or.inl (play_induction Closed.of_moved ⟨hreturned, rfl⟩ (move :: moves)).1
    · have hrank := hmoved.rank_le hasked hreturned
      refine (ih (hasked.of_moved hmoved)).imp_right fun hrest => ?_
      rw [List.countP_cons, sent_cons, List.length_append, play_cons]
      omega

/-- A bus that has been asked to end does so soon, whatever happens between its steps. -/
theorem phase_play (hasked : bus.Asked) (hmoves :
    2 * (bus.queue.length + (sent moves).length) + 3 ≤ moves.countP Move.isStep) :
    (bus.play moves).phase = .returned := by
  rcases rank_play_le hasked with hreturned | hrank
  · exact hreturned
  · have hfirst := bus.rank_le
    exact phase_of_rank_eq_zero (by omega)

/-- Stepping so often is a play of nothing but steps. -/
theorem steps_eq_play (bus : EventBus ε ω) (n : Nat) :
    bus.steps n = bus.play (List.replicate n .step) := by
  induction n generalizing bus with
  | zero => rfl
  | succ n ih => exact ih bus.step

/-- Asked to stop and left alone, the bus returns. -/
theorem phase_run (hasked : bus.Asked) : bus.run.phase = .returned := by
  rw [run, steps_eq_play]
  refine phase_play hasked ?_
  rw [sent, List.filterMap_replicate_of_none rfl, List.countP_replicate]
  exact Nat.le_refl _

/-! ## What is delivered -/

/-- What has come of some moves, if these are the calls for each event. -/
structure Delivers (called : ε → List ω) (first : EventBus ε ω) (moves : List (Move ε)) : Prop where
  /-- The calls made are those for a first part of what was sent, for one event after the other. Once
  the bus has ended, this part is all that was sent before, and so all that was sent in time. -/
  delivered : ∃ handled, handled <+: sent moves ∧ (first.play moves).done = handled.flatMap called
    ∧ ((first.play moves).phase = .returned →
        handled = first.intake moves ∧ sentInTime moves <+: handled)
  /-- The bus ends only if it is asked to. -/
  asked : (first.play moves).phase = .returned → ∃ move ∈ moves, move.ends
  /-- It does end if it is asked to and takes its steps, whatever happens between these. -/
  ends : (∃ move ∈ moves, move.ends) → ∀ later : List (Move ε),
    2 * ((first.play moves).queue.length + (sent later).length) + 3 ≤ later.countP Move.isStep →
      ((first.play moves).play later).phase = .returned
  /-- Having ended it makes no more calls. -/
  closed : (first.play moves).phase = .returned → ∀ later : List (Move ε),
    ((first.play moves).play later).done = (first.play moves).done

theorem undisturbed_start (handlers : Handlers ε ω) (kind : ε → EventKind) :
    (start handlers kind).Undisturbed :=
  ⟨rfl, rfl, Or.inl rfl⟩

theorem cleared_start (handlers : Handlers ε ω) (kind : ε → EventKind) :
    (start handlers kind).Cleared :=
  fun _ => rfl

/-- Whatever happens to a bus and in whichever order, no event that is sent in time is lost, handled
twice or out of turn. -/
theorem delivers (user : EventKind → Option (ε → ω)) (log : ε → ω) (logEvents : Bool)
    (kind : ε → EventKind) (moves : List (Move ε)) :
    Delivers (fun event => calls user log logEvents (kind event) event)
      (start (Handlers.register user log logEvents) kind) moves := by
  have hstart := undisturbed_start (Handlers.register user log logEvents) kind
  have hcleared := cleared_start (Handlers.register user log logEvents) kind
  have hserves := Serves.play (start (Handlers.register user log logEvents) kind) moves
  refine ⟨?_, fun hreturned => ?_, fun hasked later hlater => ?_, fun hreturned later => ?_⟩
  · obtain ⟨handled, hdone, hqueue⟩ := hserves.account
    have hhandled : handled <+: intake (start (Handlers.register user log logEvents) kind) moves :=
      ⟨_, hqueue⟩
    refine ⟨handled, hhandled.trans (intake_prefix_sent _ moves), ?_, fun hreturned => ?_⟩
    · rw [hdone, start, List.nil_append]
      simp only [fire_register]
    · rw [play_induction Cleared.of_moved hcleared moves hreturned, List.append_nil] at hqueue
      exact ⟨hqueue, hqueue ▸ sentInTime_prefix_intake hstart⟩
  · by_contra hnone
    have hworks := hstart.play fun move hmove =>
      Bool.eq_false_iff.mpr fun hends => hnone ⟨move, hmove, hends⟩
    exact hworks.accepts.2 hreturned
  · exact phase_play (asked_play hasked) hlater
  · exact (play_induction Closed.of_moved ⟨hreturned, rfl⟩ later).2

end RecordChain.EventBus
