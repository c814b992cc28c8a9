import RecordChain.Proofs.Client.Appends
import RecordChain.Proofs.JobQueue
import RecordChain.Proofs.Ledger.Standing

/-!
# When a write is submitted again

A write that waits looks at the files, not at the blocks. If its operation seems to be neither on the
chain nor in the queue it is submitted again. An operation that is on the chain can be seen in the
files until a later one takes it back; after that it seems not to have been there.

* **`Call.Minds`**: the stages that a call comes to, with the operations that it submits
  (`Call.minds_step`).
* **`silent_of_stands`**: a call whose operation stands submits nothing. `resubmitted` is how each of
  the three calls submits an operation again that the chain carries.
-/

namespace RecordChain

open Clients

variable {economics : Economics} {difficulty : Difficulty}

namespace Call

/-- The operation of a call, in the name of an account. The number is that of an append. -/
def job (call : Call) (me : Account) (number : RecordNumber) : Operation :=
  match call with
  | create file => .create me file
  | append file record => .append me file number record
  | delete file => .delete me file

/-- The stages that a call in the name of an account comes to. -/
inductive Minds (me : Account) : Call → Stage → Prop
  | opening {call : Call} : Minds me call .opening
  | checkingQueue {file : FileName} : Minds me (.create file) .checkingQueue
  | submitting {call : Call} (number : RecordNumber) :
    Minds me call (.submitting (call.job me number))
  | waiting {call : Call} (number : RecordNumber) : Minds me call (.waiting (call.job me number))
  | withdrawing {call : Call} (number : RecordNumber) :
    Minds me call (.withdrawing (call.job me number))
  | finished {call : Call} (answer : Answer) : Minds me call (.finished answer)

/-- By opening a call comes to mind its own operations only. -/
theorem minds_openStep (call : Call) (replica : Replica) :
    Minds replica.config.miner call (call.openStep replica) := by
  unfold openStep
  dsimp only
  split
  · exact .finished _
  · cases call with
    | create file =>
      dsimp only
      split
      · exact .finished _
      · split
        · exact .finished _
        · exact .checkingQueue
    | append file record =>
      dsimp only
      split
      · exact .finished _
      · next number _ => exact .submitting number
    | delete file =>
      dsimp only
      split
      · exact .finished _
      · split
        · exact .submitting 0
        · exact .finished _

/-- By polling it goes on to mind the operation that it has submitted. -/
theorem minds_poll (call : Call) (replica : Replica) (number : RecordNumber) :
    Minds replica.config.miner call
      (call.poll replica (call.job replica.config.miner number)).2 := by
  unfold poll
  split
  case h_2 | h_3 => exact .waiting number
  case h_4 => exact .withdrawing number
  all_goals exact .finished _

/-- The operations that a call submits are its own, whatever it sees. -/
theorem minds_step {call : Call} {replica : Replica} {stage : Stage}
    (h : Minds replica.config.miner call stage) (token : Token) :
    Minds replica.config.miner call (call.step token replica stage).2 := by
  cases h with
  | opening => exact minds_openStep call replica
  | checkingQueue =>
    dsimp only [step]
    split
    · exact .finished _
    · exact .submitting 0
  | submitting number => exact .waiting number
  | waiting number =>
    rw [step]
    split
    · exact .finished _
    · exact minds_poll call replica number
  | withdrawing => exact .opening
  | finished answer => exact .finished answer

/-! ## Silence -/

section Watch

variable {path : List Block} {ledger : Ledger} {file : FileName} {entry : File}

/-- A call that finds the file to be its own creation submits nothing. -/
theorem watchCreate_of_creator (h : Ledger.replay none path = .ok ledger) (depth : Nat)
    (hfile : ledger.files[file]? = some entry) :
    watchCreate entry.creator depth path file = .done
      ∨ watchCreate entry.creator depth path file = .wait := by
  obtain ⟨views, hviews, hfiles⟩ := exists_unconfirmedFiles h
  obtain ⟨confirmed, hconfirmed, -⟩ := exists_confirmedFiles h ⟨depth, 0⟩
  have hview : views[file]? = some entry.whole := by rw [hfiles, hfile]; rfl
  have hcreator : entry.whole.creator = entry.creator := rfl
  simp only [watchCreate, hviews, hconfirmed, bind, Except.bind, hview, hcreator, ne_eq,
    not_true_eq_false, if_false]
  cases confirmed[file]?.any (·.creator = entry.creator) with
  | false => exact Or.inr rfl
  | true => exact Or.inl rfl

theorem watchDelete_of_absent (h : Ledger.replay none path = .ok ledger)
    (hfile : ledger.files[file]? = none) : watchDelete path file = .done := by
  obtain ⟨views, hviews, hfiles⟩ := exists_unconfirmedFiles h
  have habsent : file ∉ views := by
    rw [Std.ExtTreeMap.mem_iff_isSome_getElem?, hfiles, hfile]
    exact Bool.false_ne_true
  simp only [watchDelete, hviews, bind, Except.bind, if_neg habsent]
  rfl

end Watch

/-- A look of a call after which the call has told nobody of an operation and queued none. -/
structure Silent (call : Call) (replica : Replica) (job : Operation) : Prop where
  trace_eq : (call.poll replica job).1.trace = replica.trace
  queue_subset : (call.poll replica job).1.queue.jobs ⊆ replica.queue.jobs

/-- A call that is done or waits submits nothing. -/
theorem silent_of_watch {call : Call} {replica : Replica} {job : Operation}
    (h : call.watch replica job = .done ∨ call.watch replica job = .wait) :
    call.Silent replica job := by
  have hpoll : (call.poll replica job).1 = replica := by
    unfold poll
    rcases h with h | h <;> rw [h]
  exact ⟨congrArg Replica.trace hpoll, by rw [hpoll]; exact List.Subset.refl _⟩

/-- **A write whose operation stands is not submitted again**: if the longest chain has gone on with
blocks that carry the operation, and no operation after it takes it back, then a look of the call
submits nothing, whatever is queued. -/
theorem silent_of_stands {call : Call} {replica : Replica} {job : Operation}
    {path added : List Block} (hbuilt : replica.chain.Built economics difficulty)
    (hminds : Minds replica.config.miner call (.waiting job))
    (hpath : replica.chain.longest = path ++ added)
    (hstands : Stands job (timeline path.length added)) : call.Silent replica job := by
  obtain ⟨ledger, hreplay⟩ := hbuilt.exists_replay_longest
  have hshown : job.Shown ledger.files[job.file]? := by
    refine shown_of_stands hreplay ?_
    obtain ⟨before, height, rest, hsplit, hkept⟩ := hstands
    refine ⟨timeline 0 path ++ before, height, rest, ?_, hkept⟩
    rw [hpath, timeline_append, Nat.zero_add, hsplit, List.append_assoc]
  apply silent_of_watch
  cases hminds with
  | waiting number =>
    cases call with
    | create file =>
      obtain ⟨entry, hentry, hcreator⟩ := hshown
      rw [watch, ← hcreator]
      exact watchCreate_of_creator hreplay _ hentry
    | append file record =>
      obtain ⟨confirmed, -, hwatch⟩ := watchAppend_eq_of_slot? hreplay
        replica.config.confirmsPerAppend replica.queue
        ((slot?_eq hreplay file number).trans hshown)
      exact (ite_eq_or_eq _ _ _).imp hwatch.trans hwatch.trans
    | delete file => exact Or.inl (watchDelete_of_absent hreplay hshown)

theorem silent_of_stands_written :
    let job := Operation.append "ann" "notes" 0 .empty
    written.chain.Built ⟨0, 0, 0, 0⟩ ⟨0, 0⟩
      ∧ Minds written.config.miner (.append "notes" .empty) (.waiting job)
      ∧ written.chain.longest = newlyOpened.chain.longest ++ [twoRecords]
      ∧ Stands job (timeline newlyOpened.chain.longest.length [twoRecords])
      ∧ (Call.append "notes" .empty).Silent written job := by
  intro job
  have hpath : written.chain.longest = newlyOpened.chain.longest ++ [twoRecords] := by
    rw [chain_written]
    exact longest_written
  have hstands : Stands job (timeline newlyOpened.chain.longest.length [twoRecords]) := by
    refine ⟨[], newlyOpened.chain.longest.length,
      [(newlyOpened.chain.longest.length, .append "ann" "notes" 1 filled)], ?_, ?_⟩
    · rw [timeline_cons, timeline_nil, List.append_nil]
      rfl
    · intro entry hentry
      rw [List.mem_singleton.mp hentry]
      rfl
  have hminds : Minds written.config.miner (.append "notes" .empty) (.waiting job) := .waiting 0
  exact ⟨grown_written.built, hminds, hpath, hstands,
    silent_of_stands grown_written.built hminds hpath hstands⟩

/-- What a look submits that misses its operation, if nothing is queued. -/
theorem poll_of_keepQueued {call : Call} {replica : Replica} {op : Operation}
    (h : call.watch replica op = .keepQueued) (hqueue : replica.queue.jobs = []) :
    (call.poll replica op).1.queue.jobs = [op]
      ∧ (call.poll replica op).1.trace
        = replica.trace ++ [Effect.publish (.submitJob op), Effect.broadcast (.job op)] := by
  have hfresh : op ∉ replica.queue.jobs := by simp [hqueue]
  have hpush : replica.queue.push op = (⟨[op]⟩, true) := by
    rw [JobQueue.push_of_not_mem hfresh, hqueue]
    rfl
  have hsubmit : (call.poll replica op).1 = (replica.submitJob op).1 := by
    unfold poll
    rw [h]
    simp [JobQueue.contains_iff, hfresh]
  rw [hsubmit, Replica.submitJob, hpush]
  exact ⟨rfl, rfl⟩

/-- A block that creates a file, appends to another one and deletes it, and takes all of it back. -/
def undoing : Block :=
  .regular (Block.regular (Block.genesis "ann" 0).hash "ann" [.create "ann" "notes"] 0).hash "bob"
    [.create "ann" "plans", .delete "bob" "plans", .append "ann" "notes" 0 .empty,
      .delete "ann" "notes", .create "bob" "notes"] 0

/-- The replica when that block is its head. -/
def undone : Replica :=
  { newlyOpened with chain := (newlyOpened.chain.insert undoing).chain }

theorem chain_undone : undone.chain = (newlyOpened.chain.insert undoing).chain :=
  newlyOpened.chain_with _

/-- **Each of the three writes may be submitted again although the chain carries its operation**, if
it was taken back there. -/
theorem resubmitted :
    undone.chain.Built ⟨0, 0, 0, 0⟩ ⟨0, 0⟩
      ∧ undone.chain.longest = newlyOpened.chain.longest ++ [undoing]
      ∧ ∀ call ∈ [Call.create "plans", .append "notes" .empty, .delete "notes"],
        Minds undone.config.miner call (.waiting (call.job "ann" 0))
          ∧ call.job "ann" 0 ∈ undoing.operations
          ∧ undone.queue.jobs = []
          ∧ (call.poll undone (call.job "ann" 0)).1.queue.jobs = [call.job "ann" 0]
          ∧ (call.poll undone (call.job "ann" 0)).1.trace = undone.trace
            ++ [Effect.publish (.submitJob (call.job "ann" 0)),
              Effect.broadcast (.job (call.job "ann" 0))] := by
  let creation := Block.regular (Block.genesis "ann" 0).hash "ann" [.create "ann" "notes"] 0
  -- One evaluation for all, since each would build the chain anew.
  obtain ⟨hfresh, hhead, happlies, hcreate, happend, hdelete⟩ :
      newlyOpened.chain.contains undoing.hash = false
        ∧ newlyOpened.chain.head? = some ⟨1, creation.hash, 1⟩
        ∧ (newlyOpened.chain.ledgerAt 1).toOption.map
            (fun ledger => (ledger.applyBlock undoing 2).failure) = some none
        ∧ (Call.create "plans").watch undone (.create "ann" "plans") = .keepQueued
        ∧ (Call.append "notes" .empty).watch undone (.append "ann" "notes" 0 .empty) = .keepQueued
        ∧ (Call.delete "notes").watch undone (.delete "ann" "notes") = .keepQueued := by
    decide +kernel
  refine ⟨chain_undone ▸ built_newlyOpened.insert undoing, ?_, ?_⟩
  · rw [chain_undone]
    exact built_newlyOpened.longest_insert_of_applies hhead hfresh (Nat.zero_le _) nofun rfl happlies
  · simp only [List.forall_mem_cons, List.not_mem_nil, false_implies, implies_true, and_true]
    refine ⟨⟨.waiting 0, ?_, rfl, poll_of_keepQueued hcreate rfl⟩,
      ⟨.waiting 0, ?_, rfl, poll_of_keepQueued happend rfl⟩,
      .waiting 0, ?_, rfl, poll_of_keepQueued hdelete rfl⟩
    · exact List.mem_cons_self
    · exact List.mem_cons_of_mem _ (List.mem_cons_of_mem _ List.mem_cons_self)
    · exact List.mem_cons_of_mem _ (List.mem_cons_of_mem _ (List.mem_cons_of_mem _
        List.mem_cons_self))

end Call

end RecordChain
