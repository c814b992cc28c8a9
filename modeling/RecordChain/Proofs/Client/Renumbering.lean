import Mathlib.Logic.Function.Iterate
import RecordChain.Proofs.Client.Numbers

/-!
# When an append gives its number up

The number of an append is the one behind all that are queued, but a look at the chain lets the append
keep it only as long as somebody is to write the next record of the file. If the queued appends leave
that record out, then the append gives up a number that it will be given again.

* **`LeavesGap`**: a number in front of which nobody is to write the next record.
* **`leftAlone`**: an append to which nobody else does anything waits for ever if its number leaves no
  gap, and otherwise goes round in a circle of four steps. `given_up_again` is one that does.
-/

namespace RecordChain

variable {path : List Block} {ledger : Ledger} {file : FileName} {entry : File} {queue : JobQueue}
  {number : RecordNumber} {record : Record} {replica : Replica} {token : Token}

/-! ## Gaps -/

/-- The number leaves a gap: the next record of the file is an earlier one, and no queued append is to
write it. -/
def LeavesGap (path : List Block) (queue : JobQueue) (file : FileName) (number : RecordNumber) :
    Prop :=
  ∃ next < number, ¬ IsTaken path queue file next
    ∧ ∀ earlier < next, (slot? path file earlier).isSome

/-- Gaps are what a look at the chain pays heed to, as long as the number is behind the records. -/
theorem leavesGap_iff (h : Ledger.replay none path = .ok ledger)
    (hentry : ledger.files[file]? = some entry) (hbehind : entry.records.size ≤ number.toNat) :
    LeavesGap path queue file number ↔ gapIsPending queue file entry.whole number = false := by
  have hcount := toNat_count h hentry
  have hslot : ∀ place : RecordNumber,
      (slot? path file place).isSome ↔ place < entry.whole.count := by
    intro place
    rw [isSome_slot?_iff h hentry, UInt16.lt_iff_toNat_lt, hcount]
  have hle : entry.whole.count ≤ number := by
    rw [UInt16.le_iff_toNat_le, hcount]
    exact hbehind
  have hpending : gapIsPending queue file entry.whole number = false
      ↔ entry.whole.count ≠ number ∧ ¬ queue.hasAppend file entry.whole.count := by
    simp [gapIsPending]
  rw [hpending]
  constructor
  · rintro ⟨next, hlt, hfree, hfilled⟩
    -- The number left out is the length of the file.
    obtain rfl : next = entry.whole.count := by
      refine UInt16.le_antisymm ?_ ?_
      · by_contra hafter
        exact UInt16.lt_irrefl _ ((hslot _).mp (hfilled _ (UInt16.not_le.mp hafter)))
      · by_contra hbefore
        exact hfree (Or.inl ((hslot _).mpr (UInt16.not_le.mp hbefore)))
    exact ⟨UInt16.ne_of_lt hlt, fun hqueued => hfree (Or.inr hqueued)⟩
  · rintro ⟨hne, hqueued⟩
    refine ⟨entry.whole.count, UInt16.lt_of_le_of_ne hle hne, ?_, fun earlier => (hslot _).mpr⟩
    rintro (hfilled | hlater)
    · exact UInt16.lt_irrefl _ ((hslot _).mp hfilled)
    · exact hqueued hlater

/-- There is no gap if the queued appends skip nothing. -/
theorem not_leavesGap_of_dense
    (hleast : IsLeast {next : Nat | ∀ taken, IsTaken path queue file taken → taken.toNat < next}
      number.toNat)
    (hdense : ∀ taken number, IsTaken path queue file taken → number < taken →
      IsTaken path queue file number) : ¬ LeavesGap path queue file number := by
  rintro ⟨next, hlt, hfree, -⟩
  refine Nat.not_le_of_lt (UInt16.lt_iff_toNat_lt.mp hlt) (hleast.2 fun taken htaken => ?_)
  by_contra hnext
  rcases Nat.lt_or_eq_of_le (Nat.le_of_not_lt hnext) with hbefore | hsame
  · exact hfree (hdense taken next htaken (UInt16.lt_iff_toNat_lt.mpr hbefore))
  · obtain rfl := UInt16.toNat_inj.mp hsame
    exact hfree htaken

/-! ## One round -/

/-- What is sent when a job is submitted. -/
def announcement (job : Operation) : List Effect := [.publish (.submitJob job), .broadcast (.job job)]

theorem submitJob_of_not_mem {job : Operation} (h : job ∉ replica.queue.jobs) :
    (replica.submitJob job).1
      = { replica with
          queue := ⟨replica.queue.jobs ++ [job]⟩
          trace := replica.trace ++ announcement job } := by
  rw [Replica.submitJob, JobQueue.push_of_not_mem h]
  rfl

/-- A job of one's own does not fill the gap before it. -/
theorem gapIsPending_concat (queue : JobQueue) (me : Account) (view : FileView) :
    gapIsPending ⟨queue.jobs ++ [.append me file number record]⟩ file view number
      = gapIsPending queue file view number := by
  by_cases hsame : view.count = number
  · simp [gapIsPending, hsame]
  · have hother : ¬ number = view.count := fun h => hsame h.symm
    simp [gapIsPending, JobQueue.hasAppend, Operation.number?, hsame, hother]

/-- What a look for a record comes to that is not on the chain. -/
theorem watchAppend_of_free (h : Ledger.replay none path = .ok ledger)
    (hentry : ledger.files[file]? = some entry) (depth : Nat)
    (hfree : slot? path file number = none) :
    watchAppend depth path queue file number record
      = if gapIsPending queue file entry.whole number then .keepQueued else .renumber := by
  obtain ⟨views, hviews, hfiles⟩ := exists_unconfirmedFiles h
  have hview : views[file]? = some entry.whole := by rw [hfiles, hentry]; rfl
  rw [slot?_of_views hviews, hview, Option.bind_some] at hfree
  simp only [watchAppend, hviews, bind, Except.bind, hview, hfree]
  rfl

/-- A step of a call to which nobody else does anything. -/
def Call.alone (call : Call) (token : Token) (state : Replica × Call.Stage) :
    Replica × Call.Stage :=
  call.step token state.1 state.2

/-- The choice and the submission. -/
theorem alone_submits (hname : isFileName file)
    (hchoice : nextRecordNumber replica.chain.longest replica.queue file = .ok number)
    (token : Token) (record : Record) :
    ((Call.append file record).alone token)^[2] (replica, .opening)
      = ((replica.submitJob (.append replica.config.miner file number record)).1,
        .waiting (.append replica.config.miner file number record)) := by
  have hopen : (Call.append file record).openStep replica
      = .submitting (.append replica.config.miner file number record) := by
    simp [Call.openStep, Call.file, hname, hchoice]
  simp [Function.iterate_succ_apply, Call.alone, Call.step, hopen]

/-- What becomes of an append that has chosen a number, if nobody else does anything. -/
structure LeftAlone (replica : Replica) (token : Token) (file : FileName) (record : Record)
    (number : RecordNumber) : Prop where
  /-- The first look after the job was submitted gives the number up exactly if it leaves a gap. -/
  gives_up_iff :
    let job := Operation.append replica.config.miner file number record
    ((Call.append file record).poll (replica.submitJob job).1 job).2 = .withdrawing job
      ↔ LeavesGap replica.chain.longest replica.queue file number
  /-- Then the append is where it was after every four steps, but that its job was announced once
  more: the chain, the queue and the number that it is given are the same. -/
  circles : LeavesGap replica.chain.longest replica.queue file number → ∀ rounds : Nat,
    ((Call.append file record).alone token)^[4 * rounds] (replica, .opening)
      = ({ replica with
          trace := replica.trace
            ++ (List.replicate rounds
                (announcement (.append replica.config.miner file number record))).flatten },
        .opening)
  /-- Otherwise it waits, with its job queued and announced once. -/
  waits : ¬ LeavesGap replica.chain.longest replica.queue file number → ∀ steps : Nat,
    let job := Operation.append replica.config.miner file number record
    ((Call.append file record).alone token)^[steps + 2] (replica, .opening)
      = ((replica.submitJob job).1, .waiting job)
  /-- So it does if the queued appends skip nothing. -/
  dense : (∀ taken number, IsTaken replica.chain.longest replica.queue file taken →
      number < taken → IsTaken replica.chain.longest replica.queue file number) →
    ¬ LeavesGap replica.chain.longest replica.queue file number

section Alone

variable {economics : Economics} {difficulty : Difficulty}
  (hbuilt : replica.chain.Built economics difficulty)
  (hchoice : nextRecordNumber replica.chain.longest replica.queue file = .ok number)

include hbuilt hchoice

/-- A number that was chosen is behind the records of a file, and free. -/
theorem exists_room :
    ∃ ledger entry, Ledger.replay none replica.chain.longest = .ok ledger
      ∧ ledger.files[file]? = some entry ∧ entry.records.size ≤ number.toNat
      ∧ ¬ IsTaken replica.chain.longest replica.queue file number := by
  obtain ⟨ledger, hreplay⟩ := hbuilt.exists_replay_longest
  obtain ⟨views, hviews, hfiles⟩ := exists_unconfirmedFiles hreplay
  cases hentry : ledger.files[file]? with
  | none =>
    have hview : views[file]? = none := by rw [hfiles, hentry]; rfl
    simp only [nextRecordNumber, hviews, bind, Except.bind, hview] at hchoice
    cases hchoice
  | some entry =>
    have hfree := (numbered_of_replay hreplay hentry replica.queue).free number hchoice
    refine ⟨ledger, entry, hreplay, hentry, ?_, hfree⟩
    by_contra hlt
    exact hfree (Or.inl ((isSome_slot?_iff hreplay hentry).mpr (Nat.lt_of_not_le hlt)))

theorem not_mem_of_choice (me : Account) (record : Record) :
    Operation.append me file number record ∉ replica.queue.jobs := by
  obtain ⟨-, -, -, -, -, hfree⟩ := exists_room hbuilt hchoice
  exact fun hjob => hfree (Or.inr (JobQueue.hasAppend_iff.mpr ⟨_, hjob, rfl, rfl⟩))

/-- The look that follows the submission. -/
theorem watch_submitted (record : Record) :
    let job := Operation.append replica.config.miner file number record
    (Call.append file record).watch (replica.submitJob job).1 job = .renumber
        ∧ LeavesGap replica.chain.longest replica.queue file number
      ∨ (Call.append file record).watch (replica.submitJob job).1 job = .keepQueued
        ∧ ¬ LeavesGap replica.chain.longest replica.queue file number := by
  intro job
  obtain ⟨ledger, entry, hreplay, hentry, hbehind, hfree⟩ := exists_room hbuilt hchoice
  have hnone : slot? replica.chain.longest file number = none :=
    Option.not_isSome_iff_eq_none.mp fun hslot => hfree (Or.inl hslot)
  have hwatch : (Call.append file record).watch (replica.submitJob job).1 job
      = if gapIsPending replica.queue file entry.whole number then .keepQueued else .renumber := by
    rw [submitJob_of_not_mem (not_mem_of_choice hbuilt hchoice _ record),
      ← gapIsPending_concat replica.queue replica.config.miner]
    exact watchAppend_of_free hreplay hentry replica.config.confirmsPerAppend hnone
  rw [hwatch, leavesGap_iff hreplay hentry hbehind]
  cases gapIsPending replica.queue file entry.whole number <;> simp

variable (hname : isFileName file) (hrunning : replica.tokens.isStopped token = false)

include hname hrunning

/-- An append that leaves a gap is back where it was after four steps. -/
theorem alone_round (hgap : LeavesGap replica.chain.longest replica.queue file number)
    (record : Record) :
    ((Call.append file record).alone token)^[4] (replica, .opening)
      = ({ replica with
          trace := replica.trace
            ++ announcement (.append replica.config.miner file number record) },
        .opening) := by
  let job := Operation.append replica.config.miner file number record
  let submitted := (replica.submitJob job).1
  have hjob := not_mem_of_choice hbuilt hchoice replica.config.miner record
  have hsubmitted := submitJob_of_not_mem hjob
  have hstopped : submitted.tokens.isStopped token = false := by
    simp only [submitted, job, hsubmitted, hrunning]
  have hwatch : (Call.append file record).watch submitted job = .renumber := by
    rcases watch_submitted hbuilt hchoice record with ⟨hwatch, -⟩ | ⟨-, hnone⟩
    · exact hwatch
    · exact absurd hgap hnone
  have hlook : (Call.append file record).alone token (submitted, .waiting job)
      = (submitted, .withdrawing job) := by
    simp [Call.alone, Call.step, hstopped, Call.poll, hwatch]
  have hwithdraw : (Call.append file record).alone token (submitted, .withdrawing job)
      = ({ submitted with queue := submitted.queue.remove job }, .opening) := rfl
  calc ((Call.append file record).alone token)^[4] (replica, .opening)
      = ((Call.append file record).alone token)^[2] (submitted, .waiting job) := by
        rw [Function.iterate_add_apply _ 2 2, alone_submits hname hchoice]
    _ = ({ submitted with queue := submitted.queue.remove job }, .opening) := by
        rw [Function.iterate_succ_apply, Function.iterate_one, hlook, hwithdraw]
    _ = _ := by
        simp only [submitted, job, hsubmitted]
        rw [JobQueue.remove_concat hjob]

theorem alone_circles (hgap : LeavesGap replica.chain.longest replica.queue file number)
    (record : Record) (rounds : Nat) :
    ((Call.append file record).alone token)^[4 * rounds] (replica, .opening)
      = ({ replica with
          trace := replica.trace
            ++ (List.replicate rounds
                (announcement (.append replica.config.miner file number record))).flatten },
        .opening) := by
  rw [Function.iterate_mul]
  induction rounds generalizing replica with
  | zero => simp
  | succ rounds ih =>
    let job := Operation.append replica.config.miner file number record
    have htrace : replica.trace ++ (List.replicate (rounds + 1) (announcement job)).flatten
        = replica.trace ++ announcement job ++ (List.replicate rounds (announcement job)).flatten :=
      Array.toList_inj.mp (by simp [List.replicate_succ])
    rw [Function.iterate_succ_apply, alone_round hbuilt hchoice hname hrunning hgap, htrace]
    -- One announcement more changes nothing of what the append looks at.
    exact @ih { replica with trace := replica.trace ++ announcement job } hbuilt hchoice hrunning hgap

theorem alone_waits (hnone : ¬ LeavesGap replica.chain.longest replica.queue file number)
    (record : Record) (steps : Nat) :
    let job := Operation.append replica.config.miner file number record
    ((Call.append file record).alone token)^[steps + 2] (replica, .opening)
      = ((replica.submitJob job).1, .waiting job) := by
  intro job
  have hsubmitted := submitJob_of_not_mem
    (not_mem_of_choice hbuilt hchoice replica.config.miner record)
  have hstopped : (replica.submitJob job).1.tokens.isStopped token = false := by
    simp only [job, hsubmitted, hrunning]
  have hqueued : (replica.submitJob job).1.queue.contains job := by
    simp [job, hsubmitted, JobQueue.contains_iff]
  have hwatch : (Call.append file record).watch (replica.submitJob job).1 job = .keepQueued := by
    rcases watch_submitted hbuilt hchoice record with ⟨-, hgap⟩ | ⟨hwatch, -⟩
    · exact absurd hgap hnone
    · exact hwatch
  rw [Function.iterate_add_apply, alone_submits hname hchoice]
  -- Its job is queued, so nothing is left to be done.
  refine Function.iterate_fixed ?_ steps
  simp [Call.alone, Call.step, hstopped, Call.poll, hwatch, hqueued, job]

end Alone

/-- **An append to which nobody else does anything gives its number up exactly if the number leaves a
gap**, on every chain on which its file is and for every queue. It is given the same number again then,
and never stops. -/
theorem leftAlone {economics : Economics} {difficulty : Difficulty}
    (hbuilt : replica.chain.Built economics difficulty) (hname : isFileName file)
    (hrunning : replica.tokens.isStopped token = false)
    (hchoice : nextRecordNumber replica.chain.longest replica.queue file = .ok number)
    (record : Record) : LeftAlone replica token file record number := by
  constructor
  case gives_up_iff =>
    intro job
    unfold Call.poll
    rcases watch_submitted hbuilt hchoice record with ⟨hwatch, hgap⟩ | ⟨hwatch, hnone⟩
    · rw [hwatch]
      exact iff_of_true rfl hgap
    · rw [hwatch]
      exact iff_of_false nofun hnone
  case circles => exact fun hgap => alone_circles hbuilt hchoice hname hrunning hgap record
  case waits => exact fun hnone => alone_waits hbuilt hchoice hname hrunning hnone record
  case dense =>
    obtain ⟨ledger, entry, hreplay, hentry, -, -⟩ := exists_room hbuilt hchoice
    have hnumbered := numbered_of_replay hreplay hentry replica.queue
    exact not_leavesGap_of_dense ((hnumbered.ok_iff number).mp hchoice).2

open Clients

/-- The replica with an empty file, and with jobs queued. -/
def newlyQueued (queue : JobQueue) : Replica := { newlyOpened with queue }

theorem newlyQueued_eq (queue : JobQueue) :
    (newlyQueued queue).chain = newlyOpened.chain
      ∧ (newlyQueued queue).tokens = newlyOpened.tokens := by
  -- Shown for any replica, so that the chain is not evaluated.
  have hsame : ∀ replica : Replica, { replica with queue }.chain = replica.chain
      ∧ { replica with queue }.tokens = replica.tokens := fun _ => ⟨rfl, rfl⟩
  exact hsame newlyOpened

theorem built_newlyQueued (queue : JobQueue) :
    (newlyQueued queue).chain.Built ⟨0, 0, 0, 0⟩ ⟨0, 0⟩ := by
  rw [(newlyQueued_eq queue).1]
  exact built_newlyOpened

theorem running_newlyQueued (queue : JobQueue) :
    (newlyQueued queue).tokens.isStopped newlyOpened.shutdown = false := by
  rw [(newlyQueued_eq queue).2]
  decide +kernel

theorem leftAlone_newlyQueued :
    let replica := newlyQueued (queuedAhead 0)
    replica.chain.Built ⟨0, 0, 0, 0⟩ ⟨0, 0⟩ ∧ isFileName "notes"
      ∧ replica.tokens.isStopped newlyOpened.shutdown = false
      ∧ nextRecordNumber replica.chain.longest replica.queue "notes" = .ok 1
      ∧ LeftAlone replica newlyOpened.shutdown "notes" .empty 1 := by
  intro replica
  have hbuilt := built_newlyQueued (queuedAhead 0)
  have hname : isFileName "notes" := by decide
  have hrunning := running_newlyQueued (queuedAhead 0)
  have hchoice : nextRecordNumber replica.chain.longest replica.queue "notes" = .ok 1 := by
    decide +kernel
  exact ⟨hbuilt, hname, hrunning, hchoice, leftAlone hbuilt hname hrunning hchoice .empty⟩

/-- **An append may be given the same number for ever, and give it up each time.** The queue holds an
append that is ahead of an empty file, and nobody is to write what comes before. -/
theorem given_up_again :
    let replica := newlyQueued (queuedAhead 3)
    let call := Call.append "notes" .empty
    let job := Operation.append replica.config.miner "notes" 4 .empty
    replica.chain.Built ⟨0, 0, 0, 0⟩ ⟨0, 0⟩
      ∧ (∃ files, unconfirmedFiles replica.chain.longest = .ok files ∧ "notes" ∈ files)
      ∧ nextRecordNumber replica.chain.longest replica.queue "notes" = .ok 4
      ∧ (call.poll (replica.submitJob job).1 job).2 = .withdrawing job
      ∧ ∀ rounds : Nat, ∃ trace,
        (call.alone newlyOpened.shutdown)^[4 * rounds] (replica, .opening)
          = ({ replica with trace }, .opening) := by
  intro replica call job
  have hbuilt := built_newlyQueued (queuedAhead 3)
  have hrunning := running_newlyQueued (queuedAhead 3)
  have hfiles : ∃ files, unconfirmedFiles replica.chain.longest = .ok files ∧ "notes" ∈ files := by
    rw [(newlyQueued_eq (queuedAhead 3)).1]
    exact exists_files_newlyOpened
  obtain ⟨hchoice, hempty⟩ : nextRecordNumber replica.chain.longest replica.queue "notes" = .ok 4
      ∧ ¬ IsTaken replica.chain.longest replica.queue "notes" 0 := by
    decide +kernel
  have hgap : LeavesGap replica.chain.longest replica.queue "notes" 4 :=
    ⟨0, by decide, hempty, fun earlier hlt => absurd hlt (UInt16.not_lt.mpr UInt16.zero_le)⟩
  refine ⟨hbuilt, hfiles, hchoice, ?_, ?_⟩
  · rcases watch_submitted hbuilt hchoice .empty with ⟨hwatch, -⟩ | ⟨-, hnone⟩
    · unfold Call.poll
      rw [hwatch]
    · exact absurd hgap hnone
  · intro rounds
    exact ⟨_, alone_circles hbuilt hchoice (by decide) hrunning hgap .empty rounds⟩

end RecordChain
