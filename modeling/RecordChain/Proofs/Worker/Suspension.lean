import RecordChain.Proofs.Worker.Memo

/-!
# When empty blocks are suspended

The job worker suspends the mining of empty blocks by the own flag of a token. A queued operation
may wait for the very money that empty blocks earn, so the flag has to be clear while the worker
only waits. The loop of the worker sets it at one place and clears it at several. Where the worker
finds what it remembers it does neither, and relies on what it did when it took note.

* **`Workshop.Clears`**: what the flag is at each stage of the worker (`Clears.others`,
  `Clears.work`).
* **`never_left_suspended`**: the flag is clear after each round in which nothing is chosen, whenever
  the worker remembers something at the top of its loop, and when it has ended.
* **`Workshop.Staffed.reached`**: the worker for empty blocks is one of those others. It never writes
  the flag, nor do the blocks that it adds.
-/

namespace RecordChain

namespace Workshop

variable {s t : Workshop} {stage : JobWorker.Stage} {peers : Peers} {found : Option Block}

/-! ## The flag at each stage -/

/-- The flag is clear if the worker remembers something. -/
def Spared (s : Workshop) : Prop := s.worker.blockedAt ≠ none → s.replica.suspended = false

/-- What holds when the worker is at some stage. -/
def Clears (s : Workshop) : JobWorker.Stage → Prop
  | .checking => s.Spared ∧ (s.pause ≠ none → s.replica.suspended = false)
  | .awaiting | .looking | .comparing _ => s.Spared ∧ s.pause = none
  | .suspending _ | .reading _ | .choosing .. | .dropping .. => s.pause = none
  -- The next thing that it does to the flag is to clear it.
  | .resuming | .blocking _ | .leaving => True
  | .registering .. | .mining .. | .announcing .. | .adding .. | .clearing _ =>
    s.worker.blockedAt = none ∧ s.pause = none
  | .returned => s.replica.suspended = false

/-- With nothing remembered and nothing settled the worker may go back to the top at once. -/
theorem clears_checking_of_none (h : s.worker.blockedAt = none ∧ s.pause = none) :
    s.Clears .checking :=
  ⟨fun hblocked => absurd h.1 hblocked, fun hpause => absurd h.2 hpause⟩

/-- With a clear flag it may do so as well. -/
theorem clears_checking_of_clear (h : s.replica.suspended = false) : s.Clears .checking :=
  ⟨fun _ => h, fun _ => h⟩

namespace Clears

/-- The others do not write the flag, and all else that counts is the worker's own. -/
theorem others (h : s.Clears stage) {replica : Replica} (hspares : s.replica.Spares replica) :
    (s.yield replica).Clears stage := by
  have hclear (h : s.replica.suspended = false) : replica.suspended = false :=
    hspares.suspended_eq.trans h
  have hspared (h : s.Spared) : (s.yield replica).Spared := fun hblocked => hclear (h hblocked)
  cases stage with
  | checking => exact ⟨hspared h.1, fun hpause => hclear (h.2 hpause)⟩
  | awaiting | looking | comparing => exact ⟨hspared h.1, h.2⟩
  | returned => exact hclear h
  | _ => exact h

/-- After each step of the worker the flag is what it has to be at the next stage. -/
theorem work (h : s.Clears stage) (hworks : Works peers found s stage t) :
    t.Clears t.worker.stage := by
  cases hworks with
  | ending | idle | headless | unread | barren | noted => trivial
  | going => exact ⟨h.1, rfl⟩
  | resumed => exact clears_checking_of_clear s.replica.suspended_flagged_false
  | remembered same =>
    -- It finds what it remembers, so the flag is clear since it took note.
    exact clears_checking_of_clear (h.1 (by simp [same]))
  | changed => exact h.2
  | picked => exact ⟨rfl, h⟩
  | overtaken | interrupted | stale | refused | cleared => exact clears_checking_of_none h
  | left => exact s.replica.suspended_flagged_false
  | _ => exact h

/-- At the top of the loop the flag is clear if something is remembered or the round before had
nothing to mine. -/
theorem of_atTop (h : s.Clears s.worker.stage) (htop : s.worker.atTop) : s.Clears .checking := by
  obtain ⟨replica, ⟨blockedAt, stage⟩, pause, missed, queued, taken⟩ := s
  cases stage with
  | checking => exact h
  | _ => cases htop

/-- The flag is clear when the worker has ended. -/
theorem of_hasReturned (h : s.Clears s.worker.stage) (hreturned : s.worker.hasReturned) :
    s.replica.suspended = false := by
  obtain ⟨replica, ⟨blockedAt, stage⟩, pause, missed, queued, taken⟩ := s
  cases stage with
  | returned => exact h
  | _ => cases hreturned

end Clears

/-- Wherever the worker may come to be, the flag is what it has to be there. -/
theorem Reached.clears (h : s.Reached .sparing) : s.Clears s.worker.stage := by
  refine h.induction (motive := fun s => s.Clears s.worker.stage) ?_ ?_
  · exact fun replica _ => clears_checking_of_none ⟨rfl, rfl⟩
  · intro s t hstep hclears
    cases hstep with
    | work peers => exact hclears.work (s.works peers _)
    | others hspares => exact hclears.others hspares

/-- A worker whose only job is that of somebody who cannot pay for it. -/
theorem reached_stalled_alone (count : Nat) : ((start stalled).alone count).Reached .sparing :=
  ⟨stalled, trivial, run_alone (fun _ _ => trivial) _ count⟩

end Workshop

/-- **The job worker never leaves empty blocks suspended when it only waits**, whatever the others
do to the chain, to the queue and to the request to end. The flag is clear at the top of the loop if
the worker remembers that nothing applied, and if the round before ended with nothing to mine, for
any of the reasons there are. It is clear when the worker has ended. -/
theorem never_left_suspended {s : Workshop} (h : s.Reached .sparing) :
    (s.worker.atTop → s.worker.blockedAt ≠ none → s.replica.suspended = false)
      ∧ (s.worker.atTop → s.pause ≠ none → s.replica.suspended = false)
      ∧ (s.worker.hasReturned → s.replica.suspended = false) := by
  have hclears := h.clears
  exact ⟨fun htop => (hclears.of_atTop htop).1, fun htop => (hclears.of_atTop htop).2,
    hclears.of_hasReturned⟩

/-- The worker has suspended empty blocks for a job that nobody can pay for, and lets them be mined
again. -/
theorem never_left_suspended_stalled :
    let s := Workshop.start Workshop.stalled
    (s.alone 5).replica.suspended = true
      ∧ (s.alone 10).worker.atTop
      ∧ (s.alone 10).worker.blockedAt ≠ none
      ∧ (s.alone 10).pause = some .barren
      ∧ (s.alone 10).replica.suspended = false := by
  intro s
  -- One evaluation for all, since each would build the chain anew.
  obtain ⟨hraised, htop, hblocked, hpause⟩ : (s.alone 5).replica.suspended = true
      ∧ (s.alone 10).worker.atTop = true
      ∧ (s.alone 10).worker.blockedAt ≠ none
      ∧ (s.alone 10).pause = some .barren := by
    decide +kernel
  have hreached : (s.alone 10).Reached .sparing := Workshop.reached_stalled_alone 10
  exact ⟨hraised, htop, hblocked, hpause, (never_left_suspended hreached).1 htop hblocked⟩

/-! ## The worker for empty blocks -/

namespace Workshop

/-- Both workers of a new replica, in any interleaving of their steps. -/
inductive Staffed (config : Config) : Workshop → NoOpWorker.Stage → Prop
  | start : Staffed config (.start (.new config)) .checking
  | job {s : Workshop} {stage : NoOpWorker.Stage} (staffed : Staffed config s stage)
    (peers : Peers) (found : Option Block) : Staffed config (s.work peers found) stage
  | noOp {s : Workshop} {stage : NoOpWorker.Stage} (staffed : Staffed config s stage)
    (peers : Peers) (found : Option Block) :
    Staffed config (s.yield (NoOpWorker.step peers found s.replica stage).1)
      (NoOpWorker.step peers found s.replica stage).2

/-- To the job worker the worker for empty blocks is one of those who leave the flag alone. -/
theorem Staffed.reached {config : Config} {s : Workshop} {stage : NoOpWorker.Stage}
    (h : Staffed config s stage) : s.Reached .sparing ∧ s.replica.Reserved := by
  induction h with
  | start => exact ⟨⟨_, trivial, .refl⟩, Replica.reserved_new config⟩
  | @job s _ _ peers found ih =>
    exact ⟨ih.1.run (.single (.work peers trivial)), (s.works peers found).reserved ih.2⟩
  | @noOp s stage _ peers found ih =>
    have hrespects := (NoOpWorker.changes_step peers found s.replica stage).respects ih.2
    exact ⟨ih.1.run (.single (.others hrespects.spares)), hrespects.reserved⟩

end Workshop

end RecordChain
