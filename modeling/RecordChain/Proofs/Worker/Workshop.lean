import Mathlib.Logic.Relation
import RecordChain.Proofs.Worker.Threads

/-!
# The job worker among the other threads

Between two steps of the job worker the other threads may do to the replica what they like, within
what is assumed of them. How much has to be assumed depends on what is to be shown, so it is a
parameter of the runs, and what is said here holds of all of them.

* **`Workshop`**: a worker and its replica, together with what has happened so far: why the round of
  its loop ends (`Pause`), and what the others did to the queue.
* **`Workshop.Setting`**, **`Workshop.Reached`**: what is assumed of all but the worker, and where a
  run may get to under this.
* **`Workshop.Works`**, **`Workshop.works`**: every way in which the worker can go on from a stage.
  What it keeps is shown from these ways only, and its step is not opened again.
* **`Workshop.Works.changes`**: what the worker makes of the replica. It is what all threads may make
  of it, but for the flag.
-/

namespace RecordChain

open ForkTree Validator

variable {economics : Economics} {difficulty : Difficulty}

/-! ## Rounds -/

/-- Why a round of the job worker ends before anything is chosen to be mined. -/
inductive Pause
  /-- The queue is empty. -/
  | idle
  /-- There is no head. -/
  | headless
  /-- Nothing has changed since nothing applied. -/
  | remembered
  /-- The ledger at the head could not be replayed. -/
  | unread
  /-- Nothing applies. -/
  | barren
deriving DecidableEq

namespace JobWorker

/-- The reason, if the next step of the worker settles that the round ends so. -/
def pause? (replica : Replica) (worker : JobWorker) : Option Pause :=
  match worker.stage with
  | .awaiting => if replica.queue.isEmpty then some .idle else none
  | .looking => if replica.chain.head? = none then some .headless else none
  | .comparing head =>
    if worker.blockedAt = some (head.hash, replica.queue.size) then some .remembered else none
  | .reading head =>
    match replica.chain.ledgerAt head.node with
    | .ok _ => none
    | .error _ => some .unread
  | .dropping _ [] [] => some .barren
  | _ => none

/-- The worker is at the top of its loop. -/
def atTop (worker : JobWorker) : Bool :=
  match worker.stage with
  | .checking => true
  | _ => false

/-- The worker has ended. -/
def hasReturned (worker : JobWorker) : Bool :=
  match worker.stage with
  | .returned => true
  | _ => false

/-- What a search for a nonce may come to: it is stopped, or finds a nonce for the block that it is
given. -/
def Finds (replica : Replica) : Stage → Option Block → Prop
  | .mining head chosen _, some block => ∃ nonce, block = template replica head chosen nonce
  | _, _ => True

/-- A search may always be stopped. -/
theorem finds_none (replica : Replica) (stage : Stage) : Finds replica stage none := by
  cases stage <;> trivial

end JobWorker

/-! ## Looks at the head -/

/-- A token is registered if the head is still the one meant. -/
theorem Replica.registered_iff (replica : Replica) (head : Option Nat) (token : Token) :
    (replica.stopOnHeadChange head token).2 = true ↔ replica.chain.tree.head = head := by
  change (replica.chain.stopOnHeadChange head token).2 = true ↔ _
  by_cases h : replica.chain.tree.head = head
  · simp only [replica.chain.stopOnHeadChange_of_eq h, h]
  · simp only [replica.chain.stopOnHeadChange_of_ne h, h, Bool.false_eq_true]

/-- A mined block is worth adding if the head is still the one meant. -/
theorem Replica.current_iff (replica : Replica) (block : Block) (minedOn : Option Head) :
    (replica.announce block minedOn).2 = true
      ↔ replica.chain.tree.head = minedOn.map (·.node) := by
  rw [Replica.announce]
  split <;> simp [*]

@[simp] theorem Replica.config_announce (replica : Replica) (block : Block)
    (minedOn : Option Head) : (replica.announce block minedOn).1.config = replica.config := by
  rw [Replica.announce]
  split <;> rfl

/-! ## Runs -/

/-- A job worker and the replica that it shares with other threads, and what has happened so far.
What the others do to the queue is counted from when the worker last looked at the queue to choose
from it or took note of its length. -/
structure Workshop where
  replica : Replica
  worker : JobWorker
  /-- Why the round ends, once that is settled. At the top of the loop it is the round before. -/
  pause : Option Pause
  /-- What others had queued after the worker chose and before it took note. -/
  missed : List Operation
  /-- What others have queued since. -/
  queued : List Operation
  /-- What others have taken out since. -/
  taken : List Operation

namespace Workshop

/-- A worker that starts on some replica. -/
def start (replica : Replica) : Workshop := ⟨replica, .start, none, [], [], []⟩

/-- The worker takes a step. `found` is what it finds if it searches for a nonce. It begins to count
when it chooses, and anew when it takes note. -/
def work (s : Workshop) (peers : Peers) (found : Option Block) : Workshop :=
  let (replica, worker) := s.worker.step peers found s.replica
  let pause := if s.worker.atTop then none else (s.worker.pause? s.replica).or s.pause
  match s.worker.stage with
  | .choosing .. => ⟨replica, worker, pause, [], [], []⟩
  | .blocking .. => ⟨replica, worker, pause, s.queued, [], []⟩
  | _ => { s with replica, worker, pause }

/-- All else that a step does is to take notes. -/
theorem work_replica (s : Workshop) (peers : Peers) (found : Option Block) :
    (s.work peers found).replica = (s.worker.step peers found s.replica).1
      ∧ (s.work peers found).worker = (s.worker.step peers found s.replica).2 := by
  unfold work
  dsimp only
  split <;> exact ⟨rfl, rfl⟩

/-- Others act and leave the replica so. What they have queued and taken out is told by the queue. -/
def yield (s : Workshop) (replica : Replica) : Workshop :=
  { s with
    replica
    queued := replica.queue.jobs.diff s.replica.queue.jobs ++ s.queued
    taken := s.replica.queue.jobs.diff replica.queue.jobs ++ s.taken }

/-- What a run assumes of all but the worker. -/
structure Setting where
  /-- Where the worker may start. -/
  starts : Replica → Prop
  /-- What its searches for a nonce may come to. -/
  finds : Replica → JobWorker.Stage → Option Block → Prop
  /-- What the others may make of the replica between two of its steps. -/
  others : Replica → Replica → Prop

/-- The worker starts on a chain of valid blocks, finds nonces for its own blocks, and shares the
replica with threads that go onward. -/
def Setting.growing (economics : Economics) (difficulty : Difficulty) : Setting where
  starts replica := replica.chain.Built economics difficulty
  finds := JobWorker.Finds
  others := Replica.Onward economics difficulty

/-- Nothing is assumed but that nobody else writes the flag. -/
def Setting.sparing : Setting where
  starts _ := True
  finds _ _ _ := True
  others := Replica.Spares

/-- What can happen next. -/
inductive Step (setting : Setting) (s : Workshop) : Workshop → Prop
  | work (peers : Peers) {found : Option Block}
    (finds : setting.finds s.replica s.worker.stage found) : Step setting s (s.work peers found)
  | others {replica : Replica} (others : setting.others s.replica replica) :
    Step setting s (s.yield replica)

/-- Any number of steps of the worker and of others, in any order. -/
abbrev Run (setting : Setting) : Workshop → Workshop → Prop :=
  Relation.ReflTransGen (Step setting)

/-- The worker may come to be there. -/
def Reached (setting : Setting) (s : Workshop) : Prop :=
  ∃ replica, setting.starts replica ∧ Run setting (start replica) s

variable {setting other : Setting} {s t : Workshop} {peers : Peers} {found : Option Block}
  {stage : JobWorker.Stage}

/-- What holds at the start and is kept by every step holds wherever the worker may come to be. -/
theorem Reached.induction {motive : Workshop → Prop} (h : s.Reached setting)
    (start : ∀ replica, setting.starts replica → motive (start replica))
    (step : ∀ s t, Step setting s t → motive s → motive t) : motive s := by
  obtain ⟨replica, hstarts, hrun⟩ := h
  induction hrun with
  | refl => exact start replica hstarts
  | tail _ hstep ih => exact step _ _ hstep ih

theorem Reached.run (h : s.Reached setting) (hrun : Run setting s t) : t.Reached setting := by
  obtain ⟨replica, hstarts, hbefore⟩ := h
  exact ⟨replica, hstarts, hbefore.trans hrun⟩

/-- The less is assumed the more can be reached. -/
theorem Reached.mono (h : s.Reached setting) (hstarts : ∀ r, setting.starts r → other.starts r)
    (hfinds : ∀ r stage found, setting.finds r stage found → other.finds r stage found)
    (hothers : ∀ r r', setting.others r r' → other.others r r') : s.Reached other := by
  obtain ⟨replica, hstart, hrun⟩ := h
  refine ⟨replica, hstarts replica hstart, ?_⟩
  refine Relation.ReflTransGen.mono (fun s t hstep => ?_) _ _ hrun
  cases hstep with
  | work peers finds => exact .work peers (hfinds _ _ _ finds)
  | others others => exact .others (hothers _ _ others)

/-- The worker takes some steps with nobody acting in between, and no search finds a nonce. -/
def alone (s : Workshop) : Nat → Workshop
  | 0 => s
  | count + 1 => (s.alone count).work .none none

/-- What the worker does alone is a run. -/
theorem run_alone (h : ∀ r stage, setting.finds r stage none) (s : Workshop) (count : Nat) :
    Run setting s (s.alone count) := by
  induction count with
  | zero => exact .refl
  | succ count ih => exact ih.tail (.work .none (h _ _))

/-! ## The ways of the worker -/

/-- The worker goes on to a stage, and else all stays as it is. -/
def goto (s : Workshop) (stage : JobWorker.Stage) : Workshop :=
  { s with worker := { s.worker with stage } }

/-- It is settled why the round ends. -/
def pauses (s : Workshop) (pause : Pause) : Workshop := { s with pause := some pause }

/-- The worker changes the replica. -/
def makes (s : Workshop) (replica : Replica) : Workshop := { s with replica }

/-- Every way in which the worker can go on from a stage, with what decides that it goes this way. -/
inductive Works (peers : Peers) (found : Option Block) (s : Workshop) :
    JobWorker.Stage → Workshop → Prop
  | ending (stopped : s.replica.tokens.isStopped s.replica.shutdown = true) :
    Works peers found s .checking ({ s with pause := none }.goto .leaving)
  | going (unstopped : s.replica.tokens.isStopped s.replica.shutdown = false) :
    Works peers found s .checking ({ s with pause := none }.goto .awaiting)
  | idle (empty : s.replica.queue.isEmpty = true) :
    Works peers found s .awaiting ((s.pauses .idle).goto .resuming)
  | busy (nonempty : s.replica.queue.isEmpty = false) :
    Works peers found s .awaiting (s.goto .looking)
  | resumed : Works peers found s .resuming ((s.makes (s.replica.flagged false)).goto .checking)
  | headless (headless : s.replica.chain.head? = none) :
    Works peers found s .looking ((s.pauses .headless).goto .resuming)
  | headed {head : Head} (headed : s.replica.chain.head? = some head) :
    Works peers found s .looking (s.goto (.comparing head))
  | remembered {head : Head}
    (same : s.worker.blockedAt = some (head.hash, s.replica.queue.size)) :
    Works peers found s (.comparing head) ((s.pauses .remembered).goto .checking)
  | changed {head : Head} (other : s.worker.blockedAt ≠ some (head.hash, s.replica.queue.size)) :
    Works peers found s (.comparing head) (s.goto (.suspending head))
  | suspended {head : Head} :
    Works peers found s (.suspending head)
      ((s.makes (s.replica.flagged true)).goto (.reading head))
  | read {head : Head} {ledger : Ledger}
    (replayed : s.replica.chain.ledgerAt head.node = .ok ledger) :
    Works peers found s (.reading head) (s.goto (.choosing head ledger))
  | unread {head : Head} {e : LedgerError} (failed : s.replica.chain.ledgerAt head.node = .error e) :
    Works peers found s (.reading head)
      (((s.makes (s.replica.perform [.warn (.headNotReplayed head.hash e)])).pauses .unread).goto
        (.blocking head))
  | chosen {head : Head} {ledger : Ledger} {selection : Selection}
    (selected : s.replica.config.minerConfig.select ledger head.height s.replica.queue.jobs
      = selection) :
    Works peers found s (.choosing head ledger)
      ({ s with missed := [], queued := [], taken := [] }.goto
        (.dropping head selection.dropped selection.chosen))
  | dropped {head : Head} {op : Operation} {e : LedgerError} {rest : List (Operation × LedgerError)}
    {chosen : List Operation} :
    Works peers found s (.dropping head ((op, e) :: rest) chosen)
      ((s.makes (s.replica.drop op e)).goto (.dropping head rest chosen))
  | barren {head : Head} :
    Works peers found s (.dropping head [] []) ((s.pauses .barren).goto (.blocking head))
  | picked {head : Head} {op : Operation} {rest : List Operation} :
    Works peers found s (.dropping head [] (op :: rest))
      { s with worker := ⟨none, .registering head (op :: rest)⟩ }
  | noted {head : Head} :
    Works peers found s (.blocking head)
      { s with
        worker := ⟨some (head.hash, s.replica.queue.size), .resuming⟩
        missed := s.queued
        queued := []
        taken := [] }
  | watching {head : Head} {chosen : List Operation}
    (stays : s.replica.chain.tree.head = some head.node) :
    Works peers found s (.registering head chosen)
      ((s.makes (s.replica.watch s.replica.shutdown (some head.node))).goto
        (.mining head chosen (s.replica.tokens.child s.replica.shutdown).2))
  | overtaken {head : Head} {chosen : List Operation}
    (moved : s.replica.chain.tree.head ≠ some head.node) :
    Works peers found s (.registering head chosen)
      ((s.makes (s.replica.watch s.replica.shutdown (some head.node))).goto .checking)
  | mined {head : Head} {chosen : List Operation} {attempt : Token} {block : Block}
    (finds : found = some block) :
    Works peers found s (.mining head chosen attempt) (s.goto (.announcing head chosen block))
  | interrupted {head : Head} {chosen : List Operation} {attempt : Token} (stopped : found = none) :
    Works peers found s (.mining head chosen attempt) (s.goto .checking)
  | current {head : Head} {chosen : List Operation} {block : Block}
    (stays : s.replica.chain.tree.head = some head.node) :
    Works peers found s (.announcing head chosen block)
      ((s.makes (s.replica.announce block (some head)).1).goto
        (.adding chosen (.start s.replica.config.maxFetchDepth block)))
  | stale {head : Head} {chosen : List Operation} {block : Block}
    (moved : s.replica.chain.tree.head ≠ some head.node) :
    Works peers found s (.announcing head chosen block)
      ((s.makes (s.replica.announce block (some head)).1).goto .checking)
  | adding {chosen : List Operation} {call : Adoption} (underway : call.result? = none) :
    Works peers found s (.adding chosen call)
      ((s.makes (s.replica.adopting peers call)).goto
        (.adding chosen (call.step peers s.replica.chain).2.1))
  | joined {chosen : List Operation} {call : Adoption} {place : Inserted}
    (ended : call.result? = some (.ok place)) :
    Works peers found s (.adding chosen call) (s.goto (.clearing chosen))
  | refused {chosen : List Operation} {call : Adoption} {e : AdoptionError}
    (ended : call.result? = some (.error e)) :
    Works peers found s (.adding chosen call)
      ((s.makes (s.replica.conclude call.top (.error e)).1).goto .checking)
  | cleared {chosen : List Operation} :
    Works peers found s (.clearing chosen) ((s.makes (s.replica.removeMined chosen)).goto .checking)
  | left : Works peers found s .leaving ((s.makes (s.replica.flagged false)).goto .returned)
  | stays : Works peers found s .returned (s.goto .returned)

namespace Works

variable (s peers found)

/-! Each stage that branches has a lemma of its own, for a worker that is there. -/

/-- At the top of the loop it is looked whether the replica ends. -/
theorem of_checking :
    Works peers found (s.goto .checking) .checking ((s.goto .checking).work peers found) := by
  cases h : s.replica.tokens.isStopped s.replica.shutdown with
  | true =>
    simp only [work, goto, JobWorker.step, JobWorker.atTop, h]
    exact .ending h
  | false =>
    simp only [work, goto, JobWorker.step, JobWorker.atTop, h]
    exact .going h

/-- The round ends here if the queue is empty. -/
theorem of_awaiting :
    Works peers found (s.goto .awaiting) .awaiting ((s.goto .awaiting).work peers found) := by
  cases h : s.replica.queue.isEmpty with
  | true =>
    simp only [work, goto, JobWorker.step, JobWorker.atTop, JobWorker.pause?, h]
    exact .idle h
  | false =>
    simp only [work, goto, JobWorker.step, JobWorker.atTop, JobWorker.pause?, h]
    exact .busy h

/-- The round ends here if there is no head. -/
theorem of_looking :
    Works peers found (s.goto .looking) .looking ((s.goto .looking).work peers found) := by
  cases h : s.replica.chain.head? with
  | none =>
    simp only [work, goto, JobWorker.step, JobWorker.atTop, JobWorker.pause?, h]
    exact .headless h
  | some head =>
    simp only [work, goto, JobWorker.step, JobWorker.atTop, JobWorker.pause?, h]
    exact .headed h

/-- The round ends here if nothing has changed since nothing applied. -/
theorem of_comparing (head : Head) :
    Works peers found (s.goto (.comparing head)) (.comparing head)
      ((s.goto (.comparing head)).work peers found) := by
  dsimp only [goto]
  by_cases h : s.worker.blockedAt = some (head.hash, s.replica.queue.size)
  · simp only [work, JobWorker.step, JobWorker.atTop, JobWorker.pause?, if_pos h]
    exact .remembered h
  · simp only [work, JobWorker.step, JobWorker.atTop, JobWorker.pause?, if_neg h]
    exact .changed h

/-- A head that cannot be replayed is reported. -/
theorem of_reading (head : Head) :
    Works peers found (s.goto (.reading head)) (.reading head)
      ((s.goto (.reading head)).work peers found) := by
  cases h : s.replica.chain.ledgerAt head.node with
  | ok ledger =>
    simp only [work, goto, JobWorker.step, JobWorker.atTop, JobWorker.pause?, h]
    exact .read h
  | error e =>
    simp only [work, goto, JobWorker.step, JobWorker.atTop, JobWorker.pause?, h]
    exact .unread h

/-- First all is dropped that is to be dropped, and then it counts whether anything was chosen. -/
theorem of_dropping (head : Head) (jobs : List (Operation × LedgerError))
    (chosen : List Operation) :
    Works peers found (s.goto (.dropping head jobs chosen)) (.dropping head jobs chosen)
      ((s.goto (.dropping head jobs chosen)).work peers found) := by
  rcases jobs with _ | ⟨⟨op, e⟩, rest⟩
  · cases chosen with
    | nil => exact .barren
    | cons op rest => exact .picked
  · exact .dropped

/-- A search begins only if the head is still the one that was chosen for. -/
theorem of_registering (head : Head) (chosen : List Operation) :
    Works peers found (s.goto (.registering head chosen)) (.registering head chosen)
      ((s.goto (.registering head chosen)).work peers found) := by
  have hregistered := Replica.registered_iff
    { s.replica with tokens := (s.replica.tokens.child s.replica.shutdown).1 } (some head.node)
    (s.replica.tokens.child s.replica.shutdown).2
  dsimp only [goto]
  simp only [work, JobWorker.step, JobWorker.atTop, JobWorker.pause?]
  by_cases h : s.replica.chain.tree.head = some head.node
  · rw [if_pos (hregistered.mpr h)]
    exact .watching h
  · rw [if_neg (mt hregistered.mp h)]
    exact .overtaken h

/-- A search ends with a block or without. -/
theorem of_mining (head : Head) (chosen : List Operation) (attempt : Token) :
    Works peers found (s.goto (.mining head chosen attempt)) (.mining head chosen attempt)
      ((s.goto (.mining head chosen attempt)).work peers found) := by
  cases h : found with
  | none => exact .interrupted rfl
  | some block => exact .mined rfl

/-- A block is added only if the head is still the one that it was mined on. -/
theorem of_announcing (head : Head) (chosen : List Operation) (block : Block) :
    Works peers found (s.goto (.announcing head chosen block)) (.announcing head chosen block)
      ((s.goto (.announcing head chosen block)).work peers found) := by
  have hcurrent := s.replica.current_iff block (some head)
  dsimp only [goto]
  simp only [work, JobWorker.step, JobWorker.atTop, JobWorker.pause?,
    Replica.config_announce]
  by_cases h : s.replica.chain.tree.head = some head.node
  · rw [if_pos (hcurrent.mpr h)]
    exact .current h
  · rw [if_neg (mt hcurrent.mp h)]
    exact .stale h

/-- Adding a block goes on until the call has an answer. -/
theorem of_adding (chosen : List Operation) (call : Adoption) :
    Works peers found (s.goto (.adding chosen call)) (.adding chosen call)
      ((s.goto (.adding chosen call)).work peers found) := by
  cases h : call.result? with
  | none =>
    simp only [work, goto, JobWorker.step, JobWorker.atTop, JobWorker.pause?, h]
    exact .adding h
  | some result =>
    cases result with
    | ok place =>
      simp only [work, goto, JobWorker.step, JobWorker.atTop, JobWorker.pause?, h]
      exact .joined h
    | error e =>
      simp only [work, goto, JobWorker.step, JobWorker.atTop, JobWorker.pause?, h]
      exact .refused h

/-- The worker as it is at a stage, whichever this is. -/
theorem of_goto (stage : JobWorker.Stage) :
    Works peers found (s.goto stage) stage ((s.goto stage).work peers found) := by
  cases stage with
  | checking => exact of_checking s peers found
  | awaiting => exact of_awaiting s peers found
  | resuming => exact .resumed
  | looking => exact of_looking s peers found
  | comparing head => exact of_comparing s peers found head
  | suspending => exact .suspended
  | reading head => exact of_reading s peers found head
  | choosing => exact .chosen rfl
  | dropping head jobs chosen => exact of_dropping s peers found head jobs chosen
  | blocking => exact .noted
  | registering head chosen => exact of_registering s peers found head chosen
  | mining head chosen attempt => exact of_mining s peers found head chosen attempt
  | announcing head chosen block => exact of_announcing s peers found head chosen block
  | adding chosen call => exact of_adding s peers found chosen call
  | clearing => exact .cleared
  | leaving => exact .left
  | returned => exact .stays

end Works

/-- **A step of the worker goes one of its ways.** -/
theorem works (s : Workshop) (peers : Peers) (found : Option Block) :
    Works peers found s s.worker.stage (s.work peers found) :=
  Works.of_goto s peers found s.worker.stage

namespace Works

/-- The worker changes the replica as all threads may, or writes the flag. -/
theorem changes (h : Works peers found s stage t) :
    s.replica.Changes t.replica ∨ ∃ raised, t.replica = s.replica.flagged raised := by
  cases h with
  | resumed | suspended | left => exact Or.inr ⟨_, rfl⟩
  | unread => exact Or.inl (.report s.replica.queue rfl)
  | dropped => exact Or.inl (.report _ rfl)
  | watching | overtaken => exact Or.inl (.watch s.replica.shutdown _)
  | current | stale => exact Or.inl (s.replica.changes_announce _ _)
  | adding => exact Or.inl (.adopt peers _)
  | refused => exact Or.inl (s.replica.changes_conclude _ _)
  | cleared => exact Or.inl (.queue _)
  | _ => exact Or.inl .look

/-- The chain loses nothing by a step of the worker. -/
theorem onward (h : Works peers found s stage t)
    (hbuilt : s.replica.chain.Built economics difficulty) :
    s.replica.Onward economics difficulty t.replica := by
  rcases h.changes with hchanges | ⟨raised, hflagged⟩
  · exact hchanges.onward hbuilt
  · rw [hflagged]
    exact .of_tree_eq hbuilt rfl rfl rfl

/-- The worker never watches the head with the token of the flag. -/
theorem reserved (h : Works peers found s stage t) (hreserved : s.replica.Reserved) :
    t.replica.Reserved := by
  rcases h.changes with hchanges | ⟨raised, hflagged⟩
  · exact (hchanges.respects hreserved).reserved
  · rw [hflagged]
    exact hreserved.flagged raised

end Works

/-- Each step, the worker's or another one's, goes onward. -/
theorem Step.onward (h : Step (.growing economics difficulty) s t)
    (hbuilt : s.replica.chain.Built economics difficulty) :
    s.replica.Onward economics difficulty t.replica := by
  cases h with
  | work peers => exact (s.works peers _).onward hbuilt
  | others honward => exact honward

/-- In all that is reached the chain was built. -/
theorem Reached.built (h : s.Reached (.growing economics difficulty)) :
    s.replica.chain.Built economics difficulty :=
  h.induction (motive := fun s => s.replica.chain.Built economics difficulty)
    (fun _ hstarts => hstarts) fun _ _ hstep hbuilt => (hstep.onward hbuilt).built

end Workshop
end RecordChain
