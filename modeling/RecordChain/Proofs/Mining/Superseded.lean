import RecordChain.Replica
import RecordChain.Proofs.Chain.HeadViews
import RecordChain.Proofs.JobQueue
import RecordChain.Proofs.Ledger.Failures

/-!
# What a mined block does to the queue

When a block has been mined, the queue gives up what does the same to the same file as some operation
of the block. Such a job is meant to have nothing left to do: it could only ever fail. Whether it has
is decided by the last operation of the block that matters to it. A file that the block creates and
deletes again can be created by somebody else, and a file that it deletes and creates again can be
deleted or appended to.

* **`bearing?`**: what an operation of a block means for a queued one.
* **`Operation.SettledBy`**: the states of a file in which a queued operation has nothing left to do,
  and **`settledBy_step`**, what one operation of the block makes of that.
* **`rejects_iff`**: these are the states in which the queued operation fails for good.
* **`cleared_ledgerAt`**: what is given up for the sake of a block, seen from the ledger after it.
-/

namespace RecordChain

/-! ## What operations mean for a queued one -/

/-- What an operation of a block can mean for a queued one. -/
inductive Bearing
  /-- The queued one has nothing left to do. -/
  | settles
  /-- The queued one has something to do again. -/
  | reopens
deriving DecidableEq

/-- What an operation of a block means for a queued one, if it matters to it. Other files do not, and
neither does an append that writes an earlier record than a queued append. -/
def bearing? (queued mined : Operation) : Option Bearing :=
  if mined.file = queued.file then
    match queued, mined with
    | .create .., .create .. | .delete .., .delete .. | .append .., .delete .. => some .settles
    | .create .., .delete .. | .delete .., .create .. | .append .., .create .. => some .reopens
    | .append _ _ later _, .append _ _ number _ =>
      if later ≤ number then some .settles else none
    | .create .., .append .. | .delete .., .append .. => none
  else none

/-- What the last operation that matters to a queued one means for it. -/
def lastBearing? (queued : Operation) (mined : List Operation) : Option Bearing :=
  mined.reverse.findSome? (bearing? queued)

/-- Whether a file, or that there is none, leaves nothing to do to a queued operation. -/
def Operation.SettledBy (queued : Operation) (file? : Option File) : Prop :=
  match queued with
  | .create .. => file?.isSome
  | .delete .. => file?.isNone
  | .append _ _ number _ => ∀ file, file? = some file → number.toNat < file.records.size

theorem bearing?_of_supersedes {mined queued : Operation}
    (h : JobQueue.supersedes mined queued = true) : bearing? queued mined = some .settles := by
  obtain ⟨hfile, hkind, hnumber⟩ := JobQueue.supersedes_iff.mp h
  cases queued <;> cases mined <;>
    simp_all [bearing?, Operation.kind, Operation.file, Operation.number?]

/-- **What one operation that succeeds makes of a queued one.** If it does not matter, all stays as it
was. -/
theorem settledBy_step {queued op : Operation} {height : Nat} {first second : Option File}
    (h : FileStep queued.file height op first second) :
    queued.SettledBy second
      ↔ (bearing? queued op).elim (queued.SettledBy first) (· = .settles) := by
  cases h with
  | elsewhere other => simp [bearing?, other]
  | create | delete => cases queued <;> simp [bearing?, Operation.file, Operation.SettledBy]
  | @append creator number data file room next =>
    cases queued with
    | create | delete => simp [bearing?, Operation.file, Operation.SettledBy]
    | append creator' name later record =>
      have hpush (entry : Nat × Record) : (file.records.push entry).size = number.toNat + 1 := by
        rw [Array.size_push, next]
      by_cases hlater : later ≤ number
      · have hlt := Nat.lt_succ_of_le (UInt16.le_iff_toNat_le.mp hlater)
        simp [bearing?, Operation.file, Operation.SettledBy, hlater, hpush, hlt]
      -- An append of an earlier record does not make the file long enough.
      · have hlt : number.toNat < later.toNat :=
          Nat.lt_of_not_le fun hle => hlater (UInt16.le_iff_toNat_le.mpr hle)
        simp [bearing?, Operation.file, Operation.SettledBy, hlater, hpush, ← next]
        omega

/-- What the last operation that matters has made of a queued one stays so. -/
theorem settledBy_of_applyOps {before after : Ledger} {ops : List Operation} {height : Nat}
    {queued : Operation} {bearing : Bearing}
    (h : before.applyOps height ops = ⟨after, none⟩)
    (hlast : lastBearing? queued ops = some bearing) :
    queued.SettledBy after.files[queued.file]? ↔ bearing = .settles := by
  have hstart : ∀ bearing, lastBearing? queued (([] : List (Nat × Operation)).map Prod.snd)
      = some bearing → (queued.SettledBy before.files[queued.file]? ↔ bearing = .settles) := nofun
  have hrun := Ledger.applyOps_induction
    (motive := fun done ledger => ∀ bearing,
      lastBearing? queued (done.map Prod.snd) = some bearing →
        (queued.SettledBy ledger.files[queued.file]? ↔ bearing = .settles)) ?_ h hstart
  · refine hrun bearing ?_
    simpa [Function.comp_def] using hlast
  · intro done ledger op next hop ih bearing hbearing
    have hstep := settledBy_step (Ledger.fileStep_of_applyOp hop queued.file)
    rw [lastBearing?, List.map_append, List.reverse_append] at hbearing
    cases hhere : bearing? queued op with
    | none =>
      rw [hhere, Option.elim_none] at hstep
      rw [hstep]
      apply ih
      simpa [lastBearing?, hhere] using hbearing
    | some here =>
      rw [hhere, Option.elim_some] at hstep
      obtain rfl : here = bearing := by simpa [hhere] using hbearing
      exact hstep

/-! ## Operations that fail for good -/

namespace Ledger

variable {ledger before after : Ledger} {op : Operation} {height : Nat}

/-- **An operation fails for good if it has nothing left to do**, and only then. -/
theorem rejects_iff (hnumber : ∀ number, op.number? = some number → number.toNat < maxRecords) :
    ledger.Rejects op height ↔ op.SettledBy ledger.files[op.file]? := by
  rw [rejects_iff_barredBy]
  cases op with
  | create | delete => rfl
  | append creator file number data =>
    -- A file that is full has all records that can be appended to it.
    have hroom := hnumber number rfl
    refine forall_congr' fun file => imp_congr_right fun _ => ?_
    omega

theorem number_lt_of_applyOps {ops : List Operation} {number : RecordNumber}
    (h : before.applyOps height ops = ⟨after, none⟩) (hop : op ∈ ops)
    (hnumber : op.number? = some number) : number.toNat < maxRecords := by
  induction ops generalizing before with
  | nil => cases hop
  | cons first rest ih =>
    obtain ⟨next, hfirst, hrest⟩ := applyOps_cons_eq_ok_iff.mp h
    rcases List.mem_cons.mp hop with rfl | hlater
    · exact (fileStep_of_applyOp hfirst op.file).number_lt rfl hnumber
    · exact ih hrest hlater

end Ledger

/-! ## What the queue gives up -/

/-- What the queue gives up for the sake of a block, seen from the ledger after the block. -/
structure Cleared (queue : JobQueue) (mined : List Operation) (ledger : Ledger) : Prop where
  gone : ∀ op ∈ mined, op ∉ (queue.removeMined mined).jobs
  /-- What is given up can never apply, unless the block has reopened it at last. -/
  rejects_iff : ∀ queued ∈ queue.jobs, queued ∉ (queue.removeMined mined).jobs → ∀ height,
    (ledger.Rejects queued height ↔ lastBearing? queued mined ≠ some .reopens)

theorem exists_lastBearing? {queued : Operation} {mined : List Operation}
    (h : ∃ op ∈ mined, JobQueue.supersedes op queued = true) :
    ∃ bearing, lastBearing? queued mined = some bearing := by
  obtain ⟨op, hop, hsupersedes⟩ := h
  rw [lastBearing?, ← Option.isSome_iff_exists, List.findSome?_isSome_iff]
  refine ⟨op, List.mem_reverse.mpr hop, ?_⟩
  rw [bearing?_of_supersedes hsupersedes]
  rfl

/-- What is superseded by an append that was possible is an append that is possible, too. -/
theorem number_lt_of_supersedes {before after : Ledger} {mined : List Operation} {height : Nat}
    {queued : Operation} (h : before.applyOps height mined = ⟨after, none⟩)
    (hremoved : ∃ op ∈ mined, JobQueue.supersedes op queued = true) (number : RecordNumber)
    (hnumber : queued.number? = some number) : number.toNat < maxRecords := by
  obtain ⟨op, hop, hsupersedes⟩ := hremoved
  obtain ⟨-, hkind, hle⟩ := JobQueue.supersedes_iff.mp hsupersedes
  have happend := Operation.exists_number_iff.mp ⟨number, hnumber⟩
  obtain ⟨later, hlater⟩ := Operation.exists_number_iff.mpr (hkind.trans happend)
  have hlt := Ledger.number_lt_of_applyOps h hop hlater
  have hle := UInt16.le_iff_toNat_le.mp (hle number hnumber later hlater)
  omega

theorem cleared_of_applyOps {before after : Ledger} {mined : List Operation} {height : Nat}
    (h : before.applyOps height mined = ⟨after, none⟩) (queue : JobQueue) :
    Cleared queue mined after := by
  refine ⟨fun op hop hmem => ?_, fun queued hqueued hremoved level => ?_⟩
  · exact (JobQueue.mem_removeMined.mp hmem).2 op hop (JobQueue.supersedes_self op)
  · have hsuperseded : ∃ op ∈ mined, JobQueue.supersedes op queued = true := by
      by_contra hnone
      refine hremoved (JobQueue.mem_removeMined.mpr ⟨hqueued, fun op hop hsupersedes => ?_⟩)
      exact hnone ⟨op, hop, hsupersedes⟩
    obtain ⟨bearing, hbearing⟩ := exists_lastBearing? hsuperseded
    rw [Ledger.rejects_iff (number_lt_of_supersedes h hsuperseded),
      settledBy_of_applyOps h hbearing, hbearing]
    cases bearing <;> simp

/-- **What the queue gives up for the sake of a block can never apply on top of it, unless the block
itself has reopened it.** This holds of every block of a chain and every queue, so of a block that has
just become the head and carries what was selected from the queue, too. A queued creation is reopened
if the block deletes the file after it has created it last. A queued deletion is reopened if the block
creates the file again, and so is a queued append, until the block appends as many records again. -/
theorem cleared_ledgerAt {economics : Economics} {difficulty : Difficulty} {chain : Chain} {id : Nat}
    {block : Block} (hbuilt : chain.Built economics difficulty)
    (hblock : chain.tree.block? id = some block) :
    ∃ ledger, chain.ledgerAt id = .ok ledger
      ∧ ∀ queue : JobQueue, Cleared queue block.operations ledger := by
  have hsound := hbuilt.sound
  obtain ⟨ledger, hreplay, hledger⟩ :=
    hsound.exists_ledgerAt (ForkTree.lt_size_of_block? hblock)
  refine ⟨ledger, hledger, fun queue => ?_⟩
  obtain ⟨path, hpath⟩ := ForkTree.exists_chainTo_eq hblock
  rw [hpath] at hreplay
  obtain ⟨before, hbefore⟩ := Ledger.applyBlock_of_replay_concat hreplay
  have happlies := Ledger.applyBlock_eq_ok_iff.mp (Ledger.Outcome.toExcept_eq_ok_iff.mp hbefore)
  exact cleared_of_applyOps happlies.2 queue

/-- A replica with one block and a queue in which a file is created, deleted, and created again by
somebody else. A block has room for the first two. -/
def reopening : Replica :=
  let config : Config :=
    { miner := "ann", opDifficulty := 0, noOpDifficulty := 0, opReward := 0, noOpReward := 0,
      createFee := 0, appendFee := 0, confirmsPerCreate := 0, confirmsPerAppend := 0,
      opsPerBlock := 3 }
  { Replica.new config with
    chain := .ofBlocks config.economics config.difficulty [.genesis "ann" 0]
    queue := (((JobQueue.empty.push (.create "ann" "f")).1.push (.delete "ann" "f")).1.push
      (.create "bob" "f")).1 }

/-- The block that carries what is selected from that queue. -/
def reopeningBlock : Block :=
  .regular (Block.genesis "ann" 0).hash "ann" [.create "ann" "f", .delete "ann" "f"] 0

theorem cleared_ledgerAt_reopening :
    ∃ ledger, (reopening.chain.insert reopeningBlock).chain.ledgerAt 1 = .ok ledger
      ∧ ∀ queue : JobQueue, Cleared queue reopeningBlock.operations ledger := by
  have hblock : (reopening.chain.insert reopeningBlock).chain.tree.block? 1
      = some reopeningBlock := by
    decide +kernel
  have hbuilt : reopening.chain.Built ⟨0, 0, 0, 0⟩ ⟨0, 0⟩ := ⟨_, rfl, rfl⟩
  exact cleared_ledgerAt (hbuilt.insert reopeningBlock) hblock

/-- The last creation is given up although nothing stands in its way: it was not mined, and on top of
the new head it succeeds. -/
theorem needed_job_given_up :
    ∃ ledger after, reopening.chain.ledgerAt 0 = .ok ledger
      ∧ (reopening.select ledger 0).2.chosen = reopeningBlock.operations
      ∧ (reopening.chain.insert reopeningBlock).chain.head? = some ⟨1, reopeningBlock.hash, 1⟩
      ∧ (reopening.chain.insert reopeningBlock).chain.ledgerAt 1 = .ok after
      ∧ .create "bob" "f" ∈ reopening.queue.jobs
      ∧ .create "bob" "f" ∉ (reopening.queue.removeMined reopeningBlock.operations).jobs
      ∧ .create "bob" "f" ∉ reopeningBlock.operations
      ∧ (after.applyOp (.create "bob" "f") 2).failure = none := by
  -- One evaluation for all, since each would build the chain anew.
  obtain ⟨hchosen, hhead, happlies, hqueued, hremoved, hmined⟩ :
      (reopening.chain.ledgerAt 0).toOption.map (fun ledger => (reopening.select ledger 0).2.chosen)
          = some reopeningBlock.operations
        ∧ (reopening.chain.insert reopeningBlock).chain.head? = some ⟨1, reopeningBlock.hash, 1⟩
        ∧ ((reopening.chain.insert reopeningBlock).chain.ledgerAt 1).toOption.map
            (fun after => (after.applyOp (.create "bob" "f") 2).failure) = some none
        ∧ .create "bob" "f" ∈ reopening.queue.jobs
        ∧ .create "bob" "f" ∉ (reopening.queue.removeMined reopeningBlock.operations).jobs
        ∧ .create "bob" "f" ∉ reopeningBlock.operations := by
    decide +kernel
  obtain ⟨ledger, hledger, hchosen⟩ := Option.map_eq_some_iff.mp hchosen
  obtain ⟨after, hafter, happlies⟩ := Option.map_eq_some_iff.mp happlies
  exact ⟨ledger, after, eq_ok_of_toOption hledger, hchosen, hhead,
    eq_ok_of_toOption hafter, hqueued, hremoved, hmined, happlies⟩

end RecordChain
