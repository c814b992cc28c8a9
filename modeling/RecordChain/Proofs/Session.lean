import RecordChain.Proofs.Mining.Nonces
import RecordChain.Proofs.Worker.Suspension
import RecordChain.Session

/-!
# Sessions

A session lets the two workers and the writes of a replica take turns. It has no steps of its own:
what it does to the replica is done by a step of the job worker or by somebody whom the job worker
shares the replica with. So all that is known of the job worker among other threads holds in a
session, whatever is done to it from outside and however long it is waited for.

* **`Session.Passes`**, **`Session.Leads`**: the two things that happen in a session. The job worker
  goes around its loop, or others do something. Each function of a session is made of these
  (`leads_round`, `leads_await`, `leads_receive`).
* **`Session.Seen`**: a session as its job worker sees it, which is a run of a worker among others
  (`Seen.leads`).
* **`Session.Reached`**, **`Session.Reached.seen`**: the sessions that there are, by all that can be
  done to them, and that they are seen so. `Reached.unsuspended` is what follows for empty blocks.
-/

namespace RecordChain

variable {economics : Economics} {difficulty : Difficulty} {file : FileName}

/-! ## Replicas that have just been started -/

namespace Replica

/-- A new replica knows no block, and the flag is in use. -/
theorem kept_new (config : Config) : (new config).Kept config.economics config.difficulty :=
  ⟨⟨[], rfl, rfl⟩, reserved_new config⟩

variable {replica : Replica}

/-- Inserting a block goes onward, and stops only tokens that watch the head. -/
theorem Kept.insert (h : replica.Kept economics difficulty) (block : Block) :
    replica.Tended economics difficulty (replica.insert block).1 := by
  obtain ⟨hstops, hwatchers⟩ := replica.chain.stops_subset block
  exact ⟨.of_insert h.built rfl rfl, h.reserved.perform replica.queue _ hstops hwatchers⟩

/-- A warning changes nothing that threads rely on. -/
theorem Kept.warn (h : replica.Kept economics difficulty) (warning : Warning) :
    replica.Tended economics difficulty (replica.perform [.warn warning]) := by
  have hreport : replica.Changes (replica.perform [.warn warning]) := .report replica.queue rfl
  exact hreport.tended h

/-- Adding the first blocks of the peers. -/
theorem Kept.syncRoots (h : replica.Kept economics difficulty) (peers : Peers) :
    (replica.syncRoots peers).Kept economics difficulty := by
  unfold Replica.syncRoots
  -- Induction on the roots that are left, from wherever the ones before have led.
  induction peers.roots generalizing replica with
  | nil => exact h
  | cons root rest ih =>
    rw [List.foldl_cons]
    apply ih
    have hadded {after : Replica} {result : Except AdoptionError Inserted}
        (hroot : replica.addBlock peers root = (after, result)) :
        after.Kept economics difficulty := by
      have hafter := (h.addBlock peers root).kept
      rwa [hroot] at hafter
    split
    · next hroot => exact hadded hroot
    · next hroot => exact hadded hroot
    · next hroot => exact hadded hroot
    · next hroot => exact ((hadded hroot).warn _).kept

/-- What threads rely on holds when they start. -/
theorem kept_start (config : Config) (genesis : Option Block) (peers : Peers) :
    (start config genesis peers).Kept config.economics config.difficulty := by
  have hnew := kept_new config
  unfold start
  apply Kept.syncRoots
  cases genesis with
  | none => exact hnew
  | some block =>
    have hinserted := (hnew.insert block).kept
    dsimp only
    split
    · next hblock =>
      rw [hblock] at hinserted
      exact hinserted
    · next hblock =>
      rw [hblock] at hinserted
      exact (hinserted.warn _).kept

end Replica

/-! ## Writes -/

namespace ActiveCall

variable {replica : Replica}

/-- A step of a write changes nothing but the queue. -/
theorem tended_step (h : replica.Kept economics difficulty) (active : ActiveCall) :
    replica.Tended economics difficulty (active.step replica).1 :=
  (active.call.changes_step active.token replica active.stage).tended h

/-- Any number of steps of a write changes nothing but the queue. -/
theorem tended_advance (h : replica.Kept economics difficulty) (active : ActiveCall) (fuel : Nat) :
    replica.Tended economics difficulty (active.advance replica fuel).1 := by
  induction fuel generalizing replica active with
  | zero => exact h.refl
  | succ fuel ih =>
    rw [advance]
    split
    · exact h.refl
    · exact h.refl
    · have hstep := active.tended_step h
      exact hstep.trans (ih hstep.kept _)

/-- A turn of a write changes nothing but the queue. -/
theorem tended_turn (h : replica.Kept economics difficulty) (active : ActiveCall) :
    replica.Tended economics difficulty (active.turn replica).1 := by
  have hstep := active.tended_step h
  exact hstep.trans (tended_advance hstep.kept _ 4)

end ActiveCall

/-! ## What happens in a session -/

namespace Session

variable {session later : Session}

/-- The session after a step of its job worker. -/
def working (session : Session) (found : Option Block) : Session :=
  let (replica, jobWorker) := session.jobWorker.step session.peers found session.replica
  { session with replica, jobWorker }

/-- What a search comes to is a block with a nonce that was searched for. -/
theorem exists_offset_of_search {template block : Block} {bits : Nat} {attempt : Token}
    (h : session.search template bits attempt = some (some block)) :
    ∃ offset, block = template.candidate offset := by
  unfold search at h
  split at h
  · cases h
  · split at h
    · obtain ⟨offset, -, -, hblock⟩ := Block.mine_eq_some_iff.mp (Option.some.inj h)
      exact ⟨offset, hblock⟩
    · cases h

/-- What is kept by each step of the job worker is kept by its loop. -/
theorem runJobWorker_induction {motive : Session → Prop}
    (step : ∀ (session : Session) found,
      JobWorker.Finds session.replica session.jobWorker.stage found → motive session →
      motive (session.working found))
    (h : motive session) (fuel : Nat) : motive (session.runJobWorker fuel) := by
  induction fuel generalizing session with
  | zero => exact h
  | succ fuel ih =>
    rw [runJobWorker]
    split
    · exact h
    · exact h
    · next head chosen attempt hstage =>
      dsimp only
      split
      · next found hsearch =>
        refine ih (step session found ?_ h)
        rw [hstage]
        cases found with
        | none => trivial
        | some block =>
          obtain ⟨offset, hblock⟩ := exists_offset_of_search hsearch
          exact ⟨_, hblock⟩
      · exact h
    · exact ih (step session none (JobWorker.finds_none _ _) h)

/-- So it is by a turn of the job worker. -/
theorem turnJobWorker_induction {motive : Session → Prop}
    (step : ∀ (session : Session) found,
      JobWorker.Finds session.replica session.jobWorker.stage found → motive session →
      motive (session.working found))
    (h : motive session) : motive session.turnJobWorker := by
  have hrun := runJobWorker_induction step h session.loopBound
  unfold turnJobWorker
  dsimp only
  split
  · exact runJobWorker_induction step (step _ none (JobWorker.finds_none _ _) hrun) _
  · exact hrun

/-- What happens in a session: the job worker takes its turn, or others do something to a replica that
is as they rely on. -/
inductive Passes (economics : Economics) (difficulty : Difficulty) (session : Session) :
    Session → Prop
  | turn : Passes economics difficulty session session.turnJobWorker
  | others {replica : Replica} (calls : Array ActiveCall) (peers : Peers)
    (tended : session.replica.Kept economics difficulty →
      session.replica.Tended economics difficulty replica) :
    Passes economics difficulty session { session with replica, calls, peers }

/-- Any number of such things. -/
abbrev Leads (economics : Economics) (difficulty : Difficulty) : Session → Session → Prop :=
  Relation.ReflTransGen (Passes economics difficulty)

/-- One write after another acts, each on what the ones before have left. -/
def passTo (act : Replica → ActiveCall → Replica × ActiveCall)
    (passed : Replica × Array ActiveCall) (active : ActiveCall) : Replica × Array ActiveCall :=
  ((act passed.1 active).1, passed.2.push (act passed.1 active).2)

/-- What all writes do they do in order, each on what the ones before have left. -/
theorem eachCall_eq (session : Session) (act : Replica → ActiveCall → Replica × ActiveCall) :
    session.eachCall act = { session with
      replica := (session.calls.toList.foldl (passTo act) (session.replica, #[])).1
      calls := (session.calls.toList.foldl (passTo act) (session.replica, #[])).2 } := by
  rw [Array.foldl_toList]
  rfl

/-- The writes are others, one after the other. -/
theorem passes_eachCall {act : Replica → ActiveCall → Replica × ActiveCall}
    (hact : ∀ (replica : Replica) active, replica.Kept economics difficulty →
      replica.Tended economics difficulty (act replica active).1) :
    Passes economics difficulty session (session.eachCall act) := by
  -- Induction on the writes that are left, from wherever the ones before have led.
  have hfold (calls : List ActiveCall) {replica : Replica} (done : Array ActiveCall)
      (hkept : replica.Kept economics difficulty) :
      replica.Tended economics difficulty (calls.foldl (passTo act) (replica, done)).1 := by
    induction calls generalizing replica done with
    | nil => exact hkept.refl
    | cons active rest ih =>
      have htended := hact replica active hkept
      exact htended.trans (ih _ htended.kept)
  rw [eachCall_eq]
  exact .others _ session.peers (hfold session.calls.toList #[])

/-- What has begun submits, and to the job worker that is somebody else. -/
theorem passes_launch : Passes economics difficulty session session.launch :=
  passes_eachCall fun _ active hkept => active.tended_advance hkept 4

/-- The turns of the writes are somebody else's doing too. -/
theorem passes_turnCalls : Passes economics difficulty session session.turnCalls :=
  passes_eachCall fun _ active hkept => active.tended_turn hkept

/-- The worker for empty blocks is somebody else than the job worker. -/
theorem leads_runNoOpWorker (stage : NoOpWorker.Stage) (fuel : Nat) :
    Leads economics difficulty session (session.runNoOpWorker stage fuel) := by
  induction fuel generalizing session stage with
  | zero => exact .refl
  | succ fuel ih =>
    unfold runNoOpWorker
    have hstep (found : Option Block) : Passes economics difficulty session { session with
        replica := (NoOpWorker.step session.peers found session.replica stage).1 } :=
      .others session.calls session.peers
        (NoOpWorker.changes_step session.peers found session.replica stage).tended
    dsimp only
    split
    · exact .single (hstep _)
    · exact .single (hstep _)
    · exact .head (hstep _) (ih _)

/-- To mine an empty block is to let somebody else than the job worker act. -/
theorem leads_mineNoOp : Leads economics difficulty session session.mineNoOp := by
  unfold mineNoOp
  split
  · exact leads_runNoOpWorker .checking _
  · exact .refl

/-- A round is a turn of the job worker, and then the writes act. -/
theorem leads_round : Leads economics difficulty session session.round :=
  .head .turn (.single passes_turnCalls)

/-- To settle is to go through rounds. Induction on how many there may be. -/
theorem leads_settleWithin (fuel : Nat) :
    Leads economics difficulty session (session.settleWithin fuel) := by
  induction fuel generalizing session with
  | zero => exact .refl
  | succ fuel ih =>
    rw [settleWithin]
    split
    · exact leads_round
    · exact leads_round.trans ih

theorem leads_settle : Leads economics difficulty session session.settle :=
  leads_settleWithin 1000

/-- To wait is to go through rounds and to mine empty blocks. Induction on how long it may take. -/
theorem leads_awaitWithin (holds : Session → Bool) (fuel : Nat) :
    Leads economics difficulty session (session.awaitWithin holds fuel) := by
  induction fuel generalizing session with
  | zero => exact .refl
  | succ fuel ih =>
    rw [awaitWithin]
    dsimp only
    split
    · exact .refl
    · split
      · exact leads_round.trans ih
      · have hmined : Leads economics difficulty session session.round.mineNoOp :=
          leads_round.trans leads_mineNoOp
        split
        · exact hmined.trans ih
        · exact hmined

/-- However long it is waited for something, nothing else happens. -/
theorem leads_await (holds : Session → Bool) :
    Leads economics difficulty session (session.await holds) :=
  .head passes_launch (leads_awaitWithin holds 1000)

/-- What the peers send is handled by others. -/
theorem leads_receive (messages : List Message) :
    Leads economics difficulty session (session.receive messages) := by
  -- Induction on the messages that are left.
  have hfold {replica : Replica} (hkept : replica.Kept economics difficulty) :
      replica.Tended economics difficulty
        (messages.foldl (fun replica m => replica.receive session.launch.peers m) replica) := by
    induction messages generalizing replica with
    | nil => exact hkept.refl
    | cons message rest ih =>
      have hreceive := hkept.receive session.launch.peers message
      exact hreceive.trans (ih hreceive.kept)
  exact .head passes_launch (.head (.others session.launch.calls session.launch.peers hfold)
    leads_settle)

end Session

/-! ## Sessions as the job worker sees them -/

/-- The worker shares the replica with threads that go onward and leave the flag alone. -/
def Workshop.Setting.tended (economics : Economics) (difficulty : Difficulty) :
    Workshop.Setting where
  starts := Replica.Kept economics difficulty
  finds := JobWorker.Finds
  others := Replica.Tended economics difficulty

namespace Workshop

variable {s : Workshop}

/-- What the others rely on stays so. -/
theorem Reached.kept (h : s.Reached (.tended economics difficulty)) :
    s.replica.Kept economics difficulty := by
  refine h.induction (motive := fun s => s.replica.Kept economics difficulty) ?_ ?_
  · exact fun _ hstarts => hstarts
  · intro s t hstep hkept
    cases hstep with
    | @work peers found =>
      have hworks := s.works peers found
      exact ⟨(hworks.onward hkept.built).built, hworks.reserved hkept.reserved⟩
    | others htended => exact htended.kept

/-- Among such threads the worker knows what it relies on. -/
theorem Reached.growing (h : s.Reached (.tended economics difficulty)) :
    s.Reached (.growing economics difficulty) :=
  h.mono (fun _ hkept => hkept.built) (fun _ _ _ hfinds => hfinds) fun _ _ htended => htended.onward

/-- Among such threads the flag is the worker's own. -/
theorem Reached.sparing (h : s.Reached (.tended economics difficulty)) : s.Reached .sparing :=
  h.mono (fun _ _ => trivial) (fun _ _ _ _ => trivial) fun _ _ htended => htended.respects.spares

end Workshop

namespace Session

variable {session later : Session}

/-- The job worker of a session may come to be there among other threads. -/
def Seen (economics : Economics) (difficulty : Difficulty) (session : Session) : Prop :=
  ∃ s : Workshop, s.Reached (.tended economics difficulty)
    ∧ s.replica = session.replica ∧ s.worker = session.jobWorker

namespace Seen

/-- The replica of a session that is seen so is as threads rely on. -/
theorem kept (h : session.Seen economics difficulty) :
    session.replica.Kept economics difficulty := by
  obtain ⟨s, hreached, hreplica, -⟩ := h
  exact hreplica ▸ hreached.kept

/-- A step of the job worker of a session is a step of the worker. -/
theorem working (h : session.Seen economics difficulty) {found : Option Block}
    (hfinds : JobWorker.Finds session.replica session.jobWorker.stage found) :
    (session.working found).Seen economics difficulty := by
  obtain ⟨s, hreached, hreplica, hworker⟩ := h
  obtain ⟨hafter, hworks⟩ := s.work_replica session.peers found
  rw [hreplica, hworker] at hafter hworks
  rw [← hreplica, ← hworker] at hfinds
  exact ⟨s.work session.peers found, hreached.run (.single (.work session.peers hfinds)), hafter,
    hworks⟩

/-- Whatever happens in a session, its job worker is still one among others. -/
theorem passes (h : session.Seen economics difficulty)
    (hpasses : Passes economics difficulty session later) : later.Seen economics difficulty := by
  cases hpasses with
  | turn => exact turnJobWorker_induction (fun _ _ hfinds hseen => hseen.working hfinds) h
  | others calls peers tended =>
    have htended := tended h.kept
    obtain ⟨s, hreached, hreplica, hworker⟩ := h
    rw [← hreplica] at htended
    exact ⟨s.yield _, hreached.run (.single (.others htended)), rfl, hworker⟩

/-- **What happens in a session is a run of its job worker among others.** -/
theorem leads (h : session.Seen economics difficulty)
    (hleads : Leads economics difficulty session later) : later.Seen economics difficulty := by
  induction hleads with
  | refl => exact h
  | tail _ hpasses ih => exact ih.passes hpasses

/-- So each round is. -/
theorem round (h : session.Seen economics difficulty) : session.round.Seen economics difficulty :=
  h.leads leads_round

end Seen

/-! ## Whatever is done from outside -/

/-- What can be done to a session. The token of the flag is nobody's to stop. -/
inductive Acts (session : Session) : Session → Prop
  | serve (peers : Peers) : Acts session { session with peers }
  | newClient : Acts session session.newClient.1
  | begin (token : Token) (call : Call) : Acts session (session.begin token call).1
  | await (holds : Session → Bool) : Acts session (session.await holds)
  | setStopped {token : Token} (other : token ≠ session.launch.replica.suspend) (stopped : Bool) :
    Acts session (session.setStopped token stopped)
  | submitJob (op : Operation) : Acts session (session.submitJob op).1
  | addBlock (block : Block) : Acts session (session.addBlock block).1
  | receive (messages : List Message) : Acts session (session.receive messages)

/-- All that is done from outside is done by others, or lets time pass. -/
theorem Acts.leads (h : session.Acts later) : Leads economics difficulty session later := by
  cases h with
  | serve peers => exact .single (.others session.calls peers fun hkept => hkept.refl)
  | newClient =>
    exact .single (.others session.calls session.peers
      fun hkept => hkept.child session.replica.shutdown)
  | begin token call => exact .single (.others _ session.peers fun hkept => hkept.refl)
  | await holds => exact leads_await holds
  | setStopped other stopped =>
    exact .head passes_launch (.single
      (.others session.launch.calls session.launch.peers fun hkept => hkept.set other stopped))
  | submitJob op =>
    exact .head passes_launch (.single (.others session.launch.calls session.launch.peers
      (session.launch.replica.changes_submitJob op).tended))
  | addBlock block =>
    exact .head passes_launch (.single (.others session.launch.calls session.launch.peers
      fun hkept => hkept.addBlock session.launch.peers block))
  | receive messages => exact leads_receive messages

/-- The sessions that there are: whatever was done to one that was started. -/
def Reached (config : Config) (session : Session) : Prop :=
  ∃ genesis peers patience, Relation.ReflTransGen Acts (start config genesis peers patience) session

namespace Reached

variable {config : Config}

theorem tail (h : session.Reached config) (hacts : session.Acts later) : later.Reached config := by
  obtain ⟨genesis, peers, patience, hbefore⟩ := h
  exact ⟨genesis, peers, patience, hbefore.tail hacts⟩

/-- To wait for an answer is to let time pass. -/
theorem join (h : session.Reached config) (id : Nat) : (session.join id).Reached config :=
  h.tail (.await fun session => (session.answer? id).isSome)

/-- A write that is waited for is one that begins, and then time passes. -/
theorem write (h : session.Reached config) (token : Token) (call : Call) :
    (session.write token call).1.Reached config := by
  have hjoined := (h.tail (.begin token call)).join (session.begin token call).2
  unfold Session.write
  dsimp only
  split
  · exact hjoined
  · exact hjoined
  · dsimp only
    exact hjoined.tail (.await _)

/-- All that is done to a session from its start on leads to where it is. -/
theorem exists_leads (h : session.Reached config) :
    ∃ genesis peers patience, Leads economics difficulty
      (Session.start config genesis peers patience) session := by
  obtain ⟨genesis, peers, patience, hacts⟩ := h
  refine ⟨genesis, peers, patience, ?_⟩
  induction hacts with
  | refl => exact .refl
  | tail _ hact ih => exact ih.trans hact.leads

/-- **Whatever is done to a session, its job worker is a job worker among others.** -/
theorem seen (h : session.Reached config) :
    session.Seen config.economics config.difficulty := by
  obtain ⟨genesis, peers, patience, hleads⟩ := h.exists_leads
  have hstart : (Session.start config genesis peers patience).Seen config.economics
      config.difficulty :=
    ⟨.start _, ⟨_, Replica.kept_start config genesis peers, .refl⟩, rfl, rfl⟩
  exact hstart.leads hleads

/-- A session that is at rest lets empty blocks be mined, if its job worker remembers that nothing
applies or has ended. -/
theorem unsuspended (h : session.Reached config)
    (hrests : session.jobWorker.atTop ∧ session.jobWorker.blockedAt ≠ none
      ∨ session.jobWorker.hasReturned) : session.replica.suspended = false := by
  obtain ⟨s, hreached, hreplica, hworker⟩ := h.seen
  have hclears := hreached.sparing.clears
  rw [← hreplica]
  rw [← hworker] at hrests
  rcases hrests with ⟨htop, hblocked⟩ | hreturned
  · exact (hclears.of_atTop htop).1 hblocked
  · exact hclears.of_hasReturned hreturned

end Reached

end Session

end RecordChain
