import RecordChain.Proofs.Client.Clients
import RecordChain.Proofs.Mining.Sifting
import RecordChain.Proofs.Session

/-!
# Turns

In a round of a session the job worker takes a turn and then each write does. How many steps a turn
may take is bounded by a number, and the number is large enough: no turn is cut short. The writes of
a session move as the writes of any clients.

* **`ActiveCall.rests_turn`**: after its turn a write waits or is over.
* **`JobWorker.stepsLeft`**, **`Workshop.Works.stepsLeft_lt`**: a number of steps that every step of
  the job worker lowers, until it is at the top of its loop or has ended.
* **`Session.Reached.rests_turnJobWorker`**: after its turn the job worker is there, or its search for
  a nonce goes on.
* **`Session.run_turnCalls`**, **`Session.run_round`**: the turns of the writes are a run of clients,
  and so is a round if the job worker only adds to the longest chain in it.
-/

namespace RecordChain

variable {economics : Economics} {difficulty : Difficulty} {file : FileName}

/-! ## Turns of writes -/

namespace Call

/-- A bound on the steps that a write still takes before it waits or is over. -/
def stepsLeft : Call.Stage → Nat
  | .withdrawing _ => 4
  | .opening => 3
  | .checkingQueue => 2
  | .submitting _ => 1
  | .waiting _ | .finished _ => 0

theorem stepsLeft_le (stage : Call.Stage) : stepsLeft stage ≤ 4 := by
  cases stage <;> simp [stepsLeft]

/-- A write that opens is refused, looks at the queue or submits next. -/
theorem stepsLeft_openStep (call : Call) (replica : Replica) :
    stepsLeft (call.openStep replica) ≤ 2 := by
  unfold openStep
  dsimp only
  split
  · simp [stepsLeft]
  · split <;> split <;> try split
    all_goals simp [stepsLeft]

theorem stepsLeft_step_lt (call : Call) (token : Token) (replica : Replica) {stage : Call.Stage}
    (h : 0 < stepsLeft stage) : stepsLeft (call.step token replica stage).2 < stepsLeft stage := by
  cases stage with
  | withdrawing | submitting => simp [step, stepsLeft]
  | opening => exact Nat.lt_succ_of_le (call.stepsLeft_openStep replica)
  | checkingQueue =>
    rw [step]
    dsimp only
    split <;> simp [stepsLeft]
  | waiting | finished => cases h

/-- What neither waits nor is over has steps left. -/
theorem stepsLeft_pos {stage : Call.Stage} (hwaits : ∀ job, stage ≠ .waiting job)
    (hover : ∀ answer, stage ≠ .finished answer) : 0 < stepsLeft stage := by
  cases stage with
  | waiting job => exact absurd rfl (hwaits job)
  | finished answer => exact absurd rfl (hover answer)
  | _ => simp [stepsLeft]

end Call

namespace ActiveCall

/-- A write that is not cut short goes on until it waits or is over. -/
theorem rests_advance (replica : Replica) (active : ActiveCall) {fuel : Nat}
    (h : Call.stepsLeft active.stage ≤ fuel) :
    Call.stepsLeft (active.advance replica fuel).2.stage = 0 := by
  induction fuel generalizing replica active with
  | zero => exact Nat.le_zero.mp h
  | succ fuel ih =>
    rw [advance]
    split
    · next hstage => rw [hstage, Call.stepsLeft]
    · next hstage => rw [hstage, Call.stepsLeft]
    · next hwaits hover =>
      apply ih
      have hlt := active.call.stepsLeft_step_lt active.token replica
        (Call.stepsLeft_pos hwaits hover)
      exact Nat.le_of_lt_succ (Nat.lt_of_lt_of_le hlt h)

/-- **After its turn a write waits or is over.** -/
theorem rests_turn (replica : Replica) (active : ActiveCall) :
    Call.stepsLeft (active.turn replica).2.stage = 0 :=
  rests_advance _ _ (Call.stepsLeft_le _)

end ActiveCall

/-! ## The writes as clients -/

/-- The writes of a session, and the replica on which they are. -/
def Session.clients (session : Session) : Clients := ⟨session.replica, session.calls.toList⟩

namespace Clients

variable {replica : Replica} {active : ActiveCall} {done rest : List ActiveCall}

/-- A look at the queue changes nothing. -/
theorem replica_of_checkingQueue (h : active.stage = .checkingQueue) :
    (active.step replica).1 = replica := by
  rw [ActiveCall.step, h]
  rfl

/-- The write behind so many others takes its next step. -/
theorem act_length (replica : Replica) (active : ActiveCall) (done rest : List ActiveCall) :
    act ⟨replica, done ++ active :: rest⟩ done.length
      = ⟨(active.step replica).1, done ++ (active.step replica).2 :: rest⟩ := by
  simp [act]

/-- Taking several steps one after the other is a run. -/
theorem run_advance (fuel : Nat) :
    Run economics difficulty file ⟨replica, done ++ active :: rest⟩
      ⟨(active.advance replica fuel).1, done ++ (active.advance replica fuel).2 :: rest⟩ := by
  induction fuel generalizing replica active with
  | zero => exact .refl
  | succ fuel ih =>
    rw [ActiveCall.advance]
    split
    · exact .refl
    · exact .refl
    · exact .head (act_length replica active done rest ▸ .act done.length) ih

theorem run_turn :
    Run economics difficulty file ⟨replica, done ++ active :: rest⟩
      ⟨(active.turn replica).1, done ++ (active.turn replica).2 :: rest⟩ :=
  .head (act_length replica active done rest ▸ .act done.length) (run_advance 4)

/-- The first looks of a write, which change nothing. -/
theorem run_prepare {call : Call} {token : Token} :
    Run economics difficulty file ⟨replica, done ++ [.start call token]⟩
      ⟨replica, done ++ [(ActiveCall.start call token).prepare replica]⟩ := by
  have hopen : Step economics difficulty file ⟨replica, done ++ [.start call token]⟩
      ⟨replica, done ++ [((ActiveCall.start call token).step replica).2]⟩ :=
    act_length replica (.start call token) done [] ▸ .act done.length
  unfold ActiveCall.prepare
  dsimp only
  split
  · next hstage =>
    refine .head hopen (.single ?_)
    have hact := act_length replica ((ActiveCall.start call token).step replica).2 done []
    rw [replica_of_checkingQueue hstage] at hact
    exact hact ▸ .act done.length
  · exact .single hopen

/-- If each write makes a run then all of them do, one after the other. -/
theorem run_passTo {act : Replica → ActiveCall → Replica × ActiveCall}
    (hact : ∀ replica active (done rest : List ActiveCall),
      Run economics difficulty file ⟨replica, done ++ active :: rest⟩
        ⟨(act replica active).1, done ++ (act replica active).2 :: rest⟩)
    (calls : List ActiveCall) (replica : Replica) (done : Array ActiveCall) :
    Run economics difficulty file ⟨replica, done.toList ++ calls⟩
      ⟨(calls.foldl (Session.passTo act) (replica, done)).1,
        (calls.foldl (Session.passTo act) (replica, done)).2.toList⟩ := by
  induction calls generalizing replica done with
  | nil =>
    rw [List.append_nil]
    exact .refl
  | cons active rest ih =>
    refine (hact replica active done.toList rest).trans ?_
    have hrest := ih (act replica active).1 (done.push (act replica active).2)
    rwa [Array.toList_push, List.append_assoc] at hrest

end Clients

namespace Session

variable {session : Session}

/-- Where each write makes a run the session does. -/
theorem run_eachCall {act : Replica → ActiveCall → Replica × ActiveCall}
    (hact : ∀ replica active (done rest : List ActiveCall),
      Clients.Run economics difficulty file ⟨replica, done ++ active :: rest⟩
        ⟨(act replica active).1, done ++ (act replica active).2 :: rest⟩) :
    Clients.Run economics difficulty file session.clients (session.eachCall act).clients := by
  rw [eachCall_eq]
  exact Clients.run_passTo hact session.calls.toList session.replica #[]

/-- The writes that have begun go on as clients do. -/
theorem run_launch :
    Clients.Run economics difficulty file session.clients session.launch.clients :=
  run_eachCall fun _ _ _ _ => Clients.run_advance 4

/-- **The writes of a session take their turns as clients do.** -/
theorem run_turnCalls :
    Clients.Run economics difficulty file session.clients session.turnCalls.clients :=
  run_eachCall fun _ _ _ _ => Clients.run_turn

/-- A write that begins takes its first steps at once, and they are looks only. -/
theorem run_begin (token : Token) (call : Call) :
    Clients.Run economics difficulty file session.clients (session.begin token call).1.clients := by
  have hbegin : Clients.Step economics difficulty file session.clients
      ⟨session.replica, session.calls.toList ++ [.start call token]⟩ := .begin call token
  refine .head hbegin ?_
  rw [clients, begin, Array.toList_push]
  exact Clients.run_prepare

/-- The job worker leaves the writes to themselves. -/
theorem calls_turnJobWorker (session : Session) : session.turnJobWorker.calls = session.calls :=
  turnJobWorker_induction (motive := fun later => later.calls = session.calls)
    (fun _ _ _ hcalls => hcalls) rfl

/-- **A round is a run of clients**, if the job worker only adds to the longest chain in it and does
not delete the file. -/
theorem run_round
    (h : session.replica.Grown economics difficulty file session.turnJobWorker.replica) :
    Clients.Run economics difficulty file session.clients session.round.clients := by
  have hworked : Clients.Step economics difficulty file session.clients
      session.turnJobWorker.clients := by
    rw [clients, clients, calls_turnJobWorker]
    exact .others h
  exact .head hworked run_turnCalls

end Session

/-! ## Turns of the job worker -/

namespace JobWorker

/-- A bound on the steps that the worker still takes up to the top of its loop or its end. From the
choice on the queue has no part in it, and a block takes its steps to be added. -/
def stepsLeft (replica : Replica) : JobWorker.Stage → Nat
  | .checking | .returned => 0
  | .resuming | .leaving | .clearing _ => 1
  | .blocking _ => 2
  | .adding _ call => call.budget + 2
  | .announcing .. => 3 * replica.config.maxFetchDepth + 5
  | .mining .. => 3 * replica.config.maxFetchDepth + 6
  | .registering .. => 3 * replica.config.maxFetchDepth + 7
  | .dropping _ jobs _ => jobs.length + 3 * replica.config.maxFetchDepth + 8
  | .choosing .. => replica.queue.size + 3 * replica.config.maxFetchDepth + 9
  | .reading _ => replica.queue.size + 3 * replica.config.maxFetchDepth + 10
  | .suspending _ => replica.queue.size + 3 * replica.config.maxFetchDepth + 11
  | .comparing _ => replica.queue.size + 3 * replica.config.maxFetchDepth + 12
  | .looking => replica.queue.size + 3 * replica.config.maxFetchDepth + 13
  | .awaiting => replica.queue.size + 3 * replica.config.maxFetchDepth + 14

/-- Where the worker may be between two of its turns. -/
inductive BetweenTurns : JobWorker.Stage → Prop
  | atTop : BetweenTurns .checking
  | searching (head : Head) (chosen : List Operation) (attempt : Token) :
    BetweenTurns (.mining head chosen attempt)
  | ended : BetweenTurns .returned

end JobWorker

/-- Adding a block takes as many steps as there may be questions for ancestors, and a few. -/
theorem Adoption.budget_start (limit : Nat) (block : Block) :
    (Adoption.start limit block).budget = 3 * limit + 2 := rfl

/-- Not more is dropped than there is. -/
theorem MinerConfig.length_dropped_select (config : MinerConfig) (ledger : Ledger)
    (headHeight : Nat) (jobs : List Operation) :
    (config.select ledger headHeight jobs).dropped.length ≤ jobs.length := by
  have hdropped : (config.select ledger headHeight jobs).droppedOps.Sublist jobs :=
    Selection.dropped_sublist _ _ _ _ _
  simpa [Selection.droppedOps] using hdropped.length_le

namespace Workshop

variable {peers : Peers} {found : Option Block} {s t : Workshop} {stage : JobWorker.Stage}

/-- **Every step of the worker within its loop lowers the number of steps that are left.** -/
theorem Works.stepsLeft_lt (h : Works peers found s stage t)
    (hleft : 0 < JobWorker.stepsLeft s.replica stage) :
    JobWorker.stepsLeft t.replica t.worker.stage < JobWorker.stepsLeft s.replica stage := by
  cases h with
  | ending | going | stays => cases hleft
  | suspended | watching => exact Nat.lt_succ_self _
  | @chosen head ledger selection hselected =>
    -- What is to be dropped takes the place of the queue that it is from.
    have hlength := s.replica.config.minerConfig.length_dropped_select ledger head.height
      s.replica.queue.jobs
    rw [hselected] at hlength
    have hsize : s.replica.queue.size = s.replica.queue.jobs.length := rfl
    simp only [goto, JobWorker.stepsLeft]
    omega
  | @dropped head op e rest chosen =>
    have hconfig : (s.replica.drop op e).config = s.replica.config := rfl
    simp only [goto, makes, JobWorker.stepsLeft, hconfig, List.length_cons]
    omega
  | current =>
    simp only [goto, JobWorker.stepsLeft, Adoption.budget_start]
    omega
  | adding hunderway =>
    exact Nat.add_lt_add_right (Adoption.budget_step_lt hunderway) 2
  | _ => simp [goto, makes, pauses, JobWorker.stepsLeft]

/-- Once around the loop there is a step for each stage, for each job and for each step that it takes
to add a block. -/
theorem Works.stepsLeft_le (h : Works peers found s .checking t) :
    JobWorker.stepsLeft t.replica t.worker.stage
      ≤ s.replica.queue.size + 3 * s.replica.config.maxFetchDepth + 14 := by
  cases h with
  | ending => exact Nat.le_add_left 1 _
  | going => exact Nat.le_refl _

end Workshop

namespace Session

variable {session later : Session}

/-- The job worker has come to where its turn ends: to the top of its loop, to its end, or to a search
that goes on. -/
inductive Rests (session : Session) : Prop
  | atTop (top : session.jobWorker.stage = .checking)
  | ended (returned : session.jobWorker.stage = .returned)
  | searching {head : Head} {chosen : List Operation} {attempt : Token}
    (mines : session.jobWorker.stage = .mining head chosen attempt)
    (goesOn : session.search
      (JobWorker.template session.replica head chosen firstNonce)
      session.replica.config.opDifficulty attempt = none)

theorem Rests.betweenTurns (h : session.Rests) : JobWorker.BetweenTurns session.jobWorker.stage := by
  cases h with
  | atTop htop => exact htop ▸ .atTop
  | ended hended => exact hended ▸ .ended
  | searching hmines => exact hmines ▸ .searching _ _ _

/-- The steps that the job worker of a session has left. -/
def stepsLeft (session : Session) : Nat :=
  JobWorker.stepsLeft session.replica session.jobWorker.stage

/-- A step of the job worker of a session goes one of the ways of the worker. -/
theorem exists_works (session : Session) (found : Option Block) :
    ∃ s t : Workshop, s.replica = session.replica
      ∧ Workshop.Works session.peers found s session.jobWorker.stage t
      ∧ JobWorker.stepsLeft t.replica t.worker.stage = (session.working found).stepsLeft := by
  let s : Workshop := { Workshop.start session.replica with worker := session.jobWorker }
  obtain ⟨hreplica, hworker⟩ := s.work_replica session.peers found
  refine ⟨s, s.work session.peers found, rfl, s.works session.peers found, ?_⟩
  rw [hreplica, hworker]
  rfl

theorem stepsLeft_working_lt (session : Session) (found : Option Block)
    (hleft : 0 < session.stepsLeft) : (session.working found).stepsLeft < session.stepsLeft := by
  obtain ⟨s, t, hreplica, hworks, hafter⟩ := session.exists_works found
  rw [stepsLeft, ← hreplica] at hleft
  have hlt := hworks.stepsLeft_lt hleft
  rwa [hafter, hreplica] at hlt

/-- What is neither at the top of the loop nor at its end has steps left. -/
theorem stepsLeft_pos (htop : session.jobWorker.stage ≠ .checking)
    (hended : session.jobWorker.stage ≠ .returned) : 0 < session.stepsLeft := by
  unfold stepsLeft
  cases hstage : session.jobWorker.stage with
  | checking => exact absurd hstage htop
  | returned => exact absurd hstage hended
  | _ => simp [JobWorker.stepsLeft]

/-- A job worker that is not cut short goes on until it rests. -/
theorem rests_runJobWorker {fuel : Nat} (h : session.stepsLeft ≤ fuel) :
    (session.runJobWorker fuel).Rests := by
  induction fuel generalizing session with
  | zero =>
    have hzero := Nat.le_zero.mp h
    rw [runJobWorker]
    by_cases htop : session.jobWorker.stage = .checking
    · exact .atTop htop
    · by_cases hended : session.jobWorker.stage = .returned
      · exact .ended hended
      · exact absurd hzero (stepsLeft_pos htop hended).ne'
  | succ fuel ih =>
    have hstep (found : Option Block) (hleft : 0 < session.stepsLeft) :
        ((session.working found).runJobWorker fuel).Rests := by
      have hlt := session.stepsLeft_working_lt found hleft
      exact ih (Nat.le_of_lt_succ (Nat.lt_of_lt_of_le hlt h))
    rw [runJobWorker]
    split
    · next htop => exact .atTop htop
    · next hended => exact .ended hended
    · next head chosen attempt hmines =>
      dsimp only
      split
      · next found hsearch =>
        exact hstep found (stepsLeft_pos (by simp [hmines]) (by simp [hmines]))
      · next hsearch => exact .searching hmines hsearch
    · next htop hended hmines => exact hstep none (stepsLeft_pos htop hended)

/-- Between two turns the steps that are left do not exceed the bound. -/
theorem stepsLeft_le_loopBound (h : JobWorker.BetweenTurns session.jobWorker.stage) :
    session.stepsLeft ≤ session.loopBound := by
  unfold stepsLeft loopBound
  generalize session.jobWorker.stage = stage at h ⊢
  cases h with
  | atTop | ended => exact Nat.zero_le _
  | searching =>
    simp only [JobWorker.stepsLeft]
    omega

/-- From the top of its loop the worker is within the bound too. -/
theorem stepsLeft_working_le (htop : session.jobWorker.stage = .checking) :
    (session.working none).stepsLeft ≤ session.loopBound := by
  obtain ⟨s, t, hreplica, hworks, hafter⟩ := session.exists_works none
  rw [htop] at hworks
  have hle := hworks.stepsLeft_le
  rw [hafter, hreplica] at hle
  unfold loopBound
  omega

/-- A job worker that was not stopped within its loop rests after its turn. -/
theorem rests_turnJobWorker_of_betweenTurns (h : JobWorker.BetweenTurns session.jobWorker.stage) :
    session.turnJobWorker.Rests := by
  have hrests := rests_runJobWorker (stepsLeft_le_loopBound h)
  unfold turnJobWorker
  dsimp only
  split
  · next htop => exact rests_runJobWorker (stepsLeft_working_le htop)
  · exact hrests

/-- Others leave the job worker where it is. -/
theorem Passes.betweenTurns (hpasses : Passes economics difficulty session later)
    (h : JobWorker.BetweenTurns session.jobWorker.stage) :
    JobWorker.BetweenTurns later.jobWorker.stage := by
  cases hpasses with
  | turn => exact (rests_turnJobWorker_of_betweenTurns h).betweenTurns
  | others => exact h

/-- Whenever something can be done to a session, its job worker is not within its loop. -/
theorem Reached.betweenTurns {config : Config} (h : session.Reached config) :
    JobWorker.BetweenTurns session.jobWorker.stage := by
  obtain ⟨genesis, peers, patience, hleads⟩ : ∃ genesis peers patience,
      Leads config.economics config.difficulty (.start config genesis peers patience) session :=
    h.exists_leads
  clear h
  induction hleads with
  | refl => exact .atTop
  | tail _ hpasses ih => exact hpasses.betweenTurns ih

/-- **No turn of the job worker is cut short.** After its turn it is at the top of its loop, has ended
or searches on. -/
theorem Reached.rests_turnJobWorker {config : Config} (h : session.Reached config) :
    session.turnJobWorker.Rests :=
  rests_turnJobWorker_of_betweenTurns h.betweenTurns

end Session

end RecordChain
