import RecordChain.Proofs.Client.Clients
import RecordChain.Proofs.Mining.Selected

/-!
# Appends side by side

An append chooses a place, submits its record for that place, and knows the place for its own by the
record that it finds there. Between the choice and the submission others may choose the same place.

* **`appends_apart`**: two appends that succeed have places of their own if their records differ, or
  if one was answered before the other chose its place.
* **`appends_shared`**: without that they may share a place. Two appends of equal records that choose
  at the same time submit one and the same operation, the queue takes it once, and both find their
  record in the one place that it fills.
-/

namespace RecordChain

variable {economics : Economics} {difficulty : Difficulty} {file : FileName} {record : Record}

/-- The place that an append has chosen, unless it has yet to choose one. -/
def Call.Stage.number? : Call.Stage → Option RecordNumber
  | .submitting job | .waiting job => job.number?
  | .finished (.ok number?) => number?
  | .opening | .checkingQueue | .withdrawing _ | .finished (.error _) => none

/-! ## One append -/

namespace Append

/-- Where an append may stand, on some longest chain. -/
inductive Standing (path : List Block) (file : FileName) (record : Record) : Call.Stage → Prop
  | opening : Standing path file record .opening
  | submitting {me : Account} {number : RecordNumber} :
    Standing path file record (.submitting (.append me file number record))
  | waiting {me : Account} {number : RecordNumber} :
    Standing path file record (.waiting (.append me file number record))
  | withdrawing {me : Account} {number : RecordNumber} :
    Standing path file record (.withdrawing (.append me file number record))
  | landed {number : RecordNumber} (slot : slot? path file number = some record) :
    Standing path file record (.finished (.ok (some number)))
  | failed {reason : FileError} : Standing path file record (.finished (.error reason))

/-- All that a step of an append can do. -/
inductive Stride (replica : Replica) (file : FileName) (record : Record) :
    Call.Stage → Call.Stage → Prop
  | chose {me : Account} {number : RecordNumber}
    (free : nextRecordNumber replica.chain.longest replica.queue file = .ok number) :
    Stride replica file record .opening (.submitting (.append me file number record))
  | submitted {me : Account} {number : RecordNumber} :
    Stride replica file record (.submitting (.append me file number record))
      (.waiting (.append me file number record))
  | waited {me : Account} {number : RecordNumber} :
    Stride replica file record (.waiting (.append me file number record))
      (.waiting (.append me file number record))
  | landed {me : Account} {number : RecordNumber}
    (slot : slot? replica.chain.longest file number = some record) :
    Stride replica file record (.waiting (.append me file number record))
      (.finished (.ok (some number)))
  | gaveUp {me : Account} {number : RecordNumber} :
    Stride replica file record (.waiting (.append me file number record))
      (.withdrawing (.append me file number record))
  | withdrew {job : Operation} : Stride replica file record (.withdrawing job) .opening
  | failed {stage : Call.Stage} {reason : FileError} :
    Stride replica file record stage (.finished (.error reason))
  | ended {answer : Call.Answer} :
    Stride replica file record (.finished answer) (.finished answer)

variable {replica : Replica} {stage next : Call.Stage} {path : List Block}

/-- All that an append can come to by opening. -/
theorem stride_openStep (replica : Replica) (file : FileName) (record : Record) :
    Stride replica file record .opening ((Call.append file record).openStep replica) := by
  unfold Call.openStep
  dsimp only
  split
  · exact .failed
  · split
    · exact .failed
    · next number hnumber => exact .chose hnumber

/-- All that an append can come to by polling. -/
theorem stride_poll (replica : Replica) (me : Account) (number : RecordNumber) (record : Record) :
    Stride replica file record (.waiting (.append me file number record))
      ((Call.append file record).poll replica (.append me file number record)).2 := by
  unfold Call.poll
  split
  · next hdone => exact .landed (slot?_of_watchAppend_done hdone)
  · exact .waited
  · exact .waited
  · exact .gaveUp
  · exact .failed
  · exact .failed

/-- **The step of an append is one of these.** -/
theorem stride_step (h : Standing path file record stage) (token : Token) (replica : Replica) :
    Stride replica file record stage
      ((Call.append file record).step token replica stage).2 := by
  cases h with
  | opening => exact stride_openStep replica file record
  | submitting => exact .submitted
  | @waiting me number =>
    rw [Call.step]
    split
    · exact .failed
    · exact stride_poll replica me number record
  | withdrawing => exact .withdrew
  | landed => exact .ended
  | failed => exact .ended

theorem stride_active {active : ActiveCall} (hcall : active.call = .append file record)
    (h : Standing path file record active.stage) (replica : Replica) :
    Stride replica file record active.stage (active.step replica).2.stage := by
  have hstride := stride_step h active.token replica
  rw [← hcall] at hstride
  exact hstride

/-- Each stride of an append leaves it where an append may stand. -/
theorem Standing.stride (h : Standing replica.chain.longest file record stage)
    (hstride : Stride replica file record stage next) :
    Standing replica.chain.longest file record next := by
  cases hstride with
  | chose => exact .submitting
  | submitted => exact .waiting
  | waited => exact .waiting
  | landed slot => exact .landed slot
  | gaveUp => exact .withdrawing
  | withdrew => exact .opening
  | failed => exact .failed
  | ended => exact h

/-- Growth of the longest chain moves no append. -/
theorem Standing.grown {after : Replica} (h : Standing replica.chain.longest file record stage)
    (hgrown : replica.Grown economics difficulty file after) :
    Standing after.chain.longest file record stage := by
  cases h with
  | landed slot => exact .landed (hgrown.slot? slot)
  | opening => exact .opening
  | submitting => exact .submitting
  | waiting => exact .waiting
  | withdrawing => exact .withdrawing
  | failed => exact .failed

/-- An append keeps its place, gives it up, or chooses one that comes after all that are taken. -/
theorem Stride.number?_cases (h : Stride replica file record stage next) {number : RecordNumber}
    (hnumber : next.number? = some number) :
    stage.number? = some number
      ∨ nextRecordNumber replica.chain.longest replica.queue file = .ok number := by
  cases h with
  | chose free =>
    obtain rfl := Option.some.inj hnumber
    exact Or.inr free
  | submitted | waited | ended => exact Or.inl hnumber
  | landed => exact Or.inl hnumber
  | gaveUp | withdrew | failed => cases hnumber

end Append

/-! ## Many appends -/

namespace Clients

variable {clients s t : Clients} {id other : Nat} {active : ActiveCall} {first second : Record}
  {n m : RecordNumber}

/-- A write was answered. -/
def Answered (clients : Clients) (id : Nat) (call : Call) (answer : Call.Answer) : Prop :=
  ∃ active, clients.calls[id]? = some active ∧ active.call = call
    ∧ active.answer? = some answer

/-- A write has no place: it has yet to choose one, if it has begun at all, or it has failed. -/
def HasToChoose (clients : Clients) (id : Nat) : Prop :=
  ∀ active, clients.calls[id]? = some active → active.stage.number? = none

/-- Every append stands where the chain says, whatever all clients do. Induction on the run. -/
theorem standing (h : Reached economics difficulty file clients) :
    ∀ active, clients.calls[id]? = some active → ∀ record, active.call = .append file record →
      Append.Standing clients.replica.chain.longest file record active.stage := by
  obtain ⟨replica, hreplica, hrun⟩ := h
  refine hrun.call_induction
    (motive := fun replica active => ∀ record, active.call = .append file record →
      Append.Standing replica.chain.longest file record active.stage) ?start ?step ?grown hreplica ?_
  case start =>
    intro replica call token _ record _
    exact .opening
  case step =>
    intro replica active _ hstanding record hcall
    have hcall : active.call = .append file record := hcall
    have hbefore := hstanding record hcall
    exact hbefore.stride (Append.stride_active hcall hbefore replica)
  case grown =>
    intro replica after active hgrown hstanding record hcall
    exact (hstanding record hcall).grown hgrown
  · intro active hactive
    cases hactive

/-- An append that chooses a place after some place was taken chooses a later one. -/
theorem lt_of_hasToChoose (hs : Reached economics difficulty file s)
    (hrun : Run economics difficulty file s t)
    (hslot : slot? s.replica.chain.longest file n = some first)
    (hchoose : s.HasToChoose id) :
    ∀ active, t.calls[id]? = some active → ∀ record, active.call = .append file record →
      Append.Standing t.replica.chain.longest file record active.stage
        ∧ ∀ number, active.stage.number? = some number → n < number := by
  refine hrun.call_induction
    (motive := fun replica active => ∀ record, active.call = .append file record →
      Append.Standing replica.chain.longest file record active.stage
        ∧ ∀ number, active.stage.number? = some number → n < number) ?start ?step ?grown hs.built ?_
  case start =>
    intro replica call token _ record _
    refine ⟨.opening, ?_⟩
    intro number hnumber
    cases hnumber
  case step =>
    intro replica active hgrown hafter record hcall
    have hcall : active.call = .append file record := hcall
    obtain ⟨hbefore, hlater⟩ := hafter record hcall
    have hstride := Append.stride_active hcall hbefore replica
    refine ⟨hbefore.stride hstride, fun number hnumber => ?_⟩
    rcases hstride.number?_cases hnumber with hkept | hchosen
    · exact hlater number hkept
    · -- The place was still taken when this one was chosen.
      obtain ⟨ledger, hreplay⟩ := hgrown.built.exists_replay_longest
      exact lt_of_nextRecordNumber hreplay hchosen (hgrown.slot? hslot)
  case grown =>
    intro replica after active hgrown hafter record hcall
    obtain ⟨hbefore, hlater⟩ := hafter record hcall
    exact ⟨hbefore.grown hgrown, hlater⟩
  · intro active hactive record hcall
    refine ⟨standing hs active hactive record hcall, fun number hnumber => ?_⟩
    rw [hchoose active hactive] at hnumber
    cases hnumber

/-- An append that succeeds is answered with its place, and there its record is. -/
theorem Answered.exists_slot (hs : Reached economics difficulty file clients)
    {number? : Option RecordNumber}
    (h : clients.Answered id (.append file record) (.ok number?)) :
    ∃ number, number? = some number
      ∧ slot? clients.replica.chain.longest file number = some record := by
  obtain ⟨active, hactive, hcall, hanswer⟩ := h
  have hstanding := standing hs active hactive record hcall
  rw [active.stage_eq hanswer] at hstanding
  cases hstanding with
  | landed slot => exact ⟨_, rfl, slot⟩

/-! ## Two appends step by step -/

section Steps

variable {replica after : Replica} {token : Token} {me : Account} {submitted : Option Operation}

/-- An append that has chosen a number goes on to submit it. -/
theorem step_opening (hname : isFileName file)
    (hchoice : nextRecordNumber replica.chain.longest replica.queue file = .ok n) :
    ActiveCall.step replica ⟨.append file record, token, .opening, submitted⟩
      = (replica, ⟨.append file record, token,
          .submitting (.append replica.config.miner file n record), submitted⟩) := by
  simp [ActiveCall.step, Call.step, Call.openStep, Call.file, ActiveCall.job?, hname, hchoice]

/-- An append that finds its record done answers with the number. -/
theorem step_waiting (hrunning : replica.tokens.isStopped token = false)
    (hdone : (Call.append file record).watch replica (.append me file n record) = .done) :
    ActiveCall.step replica
        ⟨.append file record, token, .waiting (.append me file n record), submitted⟩
      = (replica, ⟨.append file record, token, .finished (.ok (some n)), submitted⟩) := by
  simp [ActiveCall.step, Call.step, Call.poll, ActiveCall.job?, Operation.number?, hdone, hrunning]

/-- If a call among others takes its step, the run is one step longer. -/
theorem Run.act {economics : Economics} {difficulty : Difficulty} {next : ActiveCall}
    (h : Run economics difficulty file s t) (id : Nat) (hcall : t.calls[id]? = some active)
    (hstep : active.step t.replica = (after, next)) :
    Run economics difficulty file s ⟨after, t.calls.set id next⟩ := by
  have hact : t.act id = ⟨after, t.calls.set id next⟩ := by
    rw [Clients.act, hcall]
    dsimp only
    rw [hstep]
  exact hact ▸ h.tail (.act id)

/-- **Two appends of equal records that choose at the same time share a place**, if the chain comes to
show such a record there. -/
theorem appends_shared (hbuilt : replica.chain.Built economics difficulty)
    (hname : isFileName file)
    (hchoice : nextRecordNumber replica.chain.longest replica.queue file = .ok n)
    (hgrown : replica.Grown economics difficulty file after)
    (hrunning : after.tokens.isStopped token = false)
    (hdone : ∀ me, (Call.append file record).watch after (.append me file n record) = .done) :
    ∃ clients, Reached economics difficulty file clients
      ∧ clients.Answered 0 (.append file record) (.ok (some n))
      ∧ clients.Answered 1 (.append file record) (.ok (some n)) := by
  let call := Call.append file record
  let job := Operation.append replica.config.miner file n record
  let waiting : ActiveCall := ⟨call, token, .waiting job, some job⟩
  have hrun : Run economics difficulty file ⟨replica, []⟩
      ⟨replica, [.start call token, .start call token]⟩ :=
    (Relation.ReflTransGen.refl.tail (.begin call token)).tail (.begin call token)
  -- Both choose, and only then both submit. The queue takes the second for the first.
  have hrun := hrun.act 0 rfl (step_opening hname hchoice)
  have hrun := hrun.act 1 rfl (step_opening hname hchoice)
  have hrun := hrun.act 0 rfl rfl
  have hrun := hrun.act 1 rfl rfl
  have hothers : ((replica.submitJob job).1.submitJob job).1.Grown economics difficulty file after :=
    (Replica.Grown.of_chain_eq (by simpa using hbuilt) (by simp)).trans hgrown
  have hrun : Run economics difficulty file ⟨replica, []⟩ ⟨after, [waiting, waiting]⟩ :=
    hrun.tail (.others hothers)
  have hrun := hrun.act 0 rfl (step_waiting hrunning (hdone _))
  have hrun := hrun.act 1 rfl (step_waiting hrunning (hdone _))
  exact ⟨_, ⟨replica, hbuilt, hrun⟩, ⟨_, rfl, rfl, rfl⟩, ⟨_, rfl, rfl, rfl⟩⟩

/-- Two appends of which the second chooses while the operation of the first is queued. -/
theorem appends_queued (hbuilt : replica.chain.Built economics difficulty)
    (hname : isFileName file)
    (hfirst : nextRecordNumber replica.chain.longest replica.queue file = .ok n)
    (hsecond : nextRecordNumber replica.chain.longest
      (replica.submitJob (.append replica.config.miner file n first)).1.queue file = .ok m)
    (hgrown : replica.Grown economics difficulty file after)
    (hrunning : after.tokens.isStopped token = false)
    (hn : ∀ me, (Call.append file first).watch after (.append me file n first) = .done)
    (hm : ∀ me, (Call.append file second).watch after (.append me file m second) = .done) :
    ∃ clients, Reached economics difficulty file clients
      ∧ clients.Answered 0 (.append file first) (.ok (some n))
      ∧ clients.Answered 1 (.append file second) (.ok (some m)) := by
  let job := Operation.append replica.config.miner file n first
  let queued := (replica.submitJob job).1
  let other := Operation.append queued.config.miner file m second
  let waiting : ActiveCall := ⟨.append file first, token, .waiting job, some job⟩
  have hrun : Run economics difficulty file ⟨replica, []⟩
      ⟨replica, [.start (.append file first) token]⟩ :=
    .single (.begin (.append file first) token)
  have hrun := hrun.act 0 rfl (step_opening hname hfirst)
  have hrun := hrun.act 0 rfl rfl
  have hrun : Run economics difficulty file ⟨replica, []⟩
      ⟨queued, [waiting, .start (.append file second) token]⟩ :=
    hrun.tail (.begin (.append file second) token)
  have hrun := hrun.act 1 rfl (step_opening hname (by rw [chain_submitJob]; exact hsecond))
  have hrun := hrun.act 1 rfl rfl
  have hothers : (queued.submitJob other).1.Grown economics difficulty file after :=
    (Replica.Grown.of_chain_eq (by simpa [queued] using hbuilt) (by simp [queued])).trans hgrown
  have hrun : Run economics difficulty file ⟨replica, []⟩
      ⟨after, [waiting, ⟨.append file second, token, .waiting other, some other⟩]⟩ :=
    hrun.tail (.others hothers)
  have hrun := hrun.act 0 rfl (step_waiting hrunning (hn _))
  have hrun := hrun.act 1 rfl (step_waiting hrunning (hm _))
  exact ⟨_, ⟨replica, hbuilt, hrun⟩, ⟨_, rfl, rfl, rfl⟩, ⟨_, rfl, rfl, rfl⟩⟩

end Steps

/-- A replica with an empty file, on which nothing has to be paid. -/
def newlyOpened : Replica :=
  let config : Config :=
    { miner := "ann", opDifficulty := 0, noOpDifficulty := 0, opReward := 0, noOpReward := 0,
      createFee := 0, appendFee := 0, confirmsPerCreate := 0, confirmsPerAppend := 0,
      opsPerBlock := 4 }
  let root := Block.genesis "ann" 0
  { Replica.new config with
    chain := .ofBlocks config.economics config.difficulty
      [root, .regular root.hash "ann" [.create "ann" "notes"] 0] }

/-- A record that is not empty. -/
def filled : Record := ⟨Vector.replicate recordSize 1⟩

/-- A block that writes the first two records of the file. -/
def twoRecords : Block :=
  .regular (Block.regular (Block.genesis "ann" 0).hash "ann" [.create "ann" "notes"] 0).hash "ann"
    [.append "ann" "notes" 0 .empty, .append "ann" "notes" 1 filled] 0

theorem built_newlyOpened : newlyOpened.chain.Built ⟨0, 0, 0, 0⟩ ⟨0, 0⟩ := ⟨_, rfl, rfl⟩

/-- The block with the two records becomes the head. -/
theorem longest_written :
    (newlyOpened.chain.insert twoRecords).chain.longest
      = newlyOpened.chain.longest ++ [twoRecords] := by
  let creation := Block.regular (Block.genesis "ann" 0).hash "ann" [.create "ann" "notes"] 0
  obtain ⟨hfresh, hhead, happlies⟩ :
      newlyOpened.chain.contains twoRecords.hash = false
        ∧ newlyOpened.chain.head? = some ⟨1, creation.hash, 1⟩
        ∧ (newlyOpened.chain.ledgerAt 1).toOption.map
            (fun ledger => (ledger.applyBlock twoRecords 2).failure) = some none := by
    decide +kernel
  exact built_newlyOpened.longest_insert_of_applies hhead hfresh (Nat.zero_le _) nofun rfl happlies

/-- The replica when that block is its head. -/
def written : Replica :=
  { newlyOpened with chain := (newlyOpened.chain.insert twoRecords).chain }

theorem chain_written : written.chain = (newlyOpened.chain.insert twoRecords).chain :=
  newlyOpened.chain_with _

theorem grown_written : newlyOpened.Grown ⟨0, 0, 0, 0⟩ ⟨0, 0⟩ "notes" written := by
  constructor
  · rw [chain_written]
    exact built_newlyOpened.insert twoRecords
  · rw [chain_written]
    exact ⟨[twoRecords], longest_written, rfl⟩

/-- Each of the two records is seen done. -/
theorem watch_written {number : RecordNumber} {me : Account}
    (hop : .append "ann" "notes" number record ∈ twoRecords.operations) :
    (Call.append "notes" record).watch written (.append me "notes" number record) = .done := by
  obtain ⟨ledger, hreplay⟩ := grown_written.built.exists_replay_longest
  have hslot : slot? written.chain.longest "notes" number = some record := by
    rw [chain_written, longest_written] at hreplay ⊢
    exact slot?_of_mem_block hreplay hop rfl
  exact watchAppend_of_slot? written.queue hslot

/-- An append that looks first chooses 0, and one that looks after it was submitted chooses 1. -/
theorem choices_newlyOpened :
    nextRecordNumber newlyOpened.chain.longest newlyOpened.queue "notes" = .ok 0
      ∧ nextRecordNumber newlyOpened.chain.longest
          (newlyOpened.submitJob (.append newlyOpened.config.miner "notes" 0 .empty)).1.queue "notes"
        = .ok 1 := by
  decide +kernel

theorem running_written : written.tokens.isStopped newlyOpened.shutdown = false := by
  decide +kernel

/-! ## Places of their own -/

/-- **Two appends that succeed have places of their own** if their records differ, or if one was
answered before the other chose its place. -/
theorem appends_apart (hs : Reached economics difficulty file s)
    (hrun : Run economics difficulty file s t) {first? second? : Option RecordNumber}
    (hfirst : t.Answered id (.append file first) (.ok first?))
    (hsecond : t.Answered other (.append file second) (.ok second?))
    (hapart : first ≠ second
      ∨ s.Answered id (.append file first) (.ok first?) ∧ s.HasToChoose other) :
    ∃ n m, first? = some n ∧ second? = some m ∧ n ≠ m
      ∧ slot? t.replica.chain.longest file n = some first
      ∧ slot? t.replica.chain.longest file m = some second := by
  have ht := hs.run hrun
  obtain ⟨n, rfl, hn⟩ := hfirst.exists_slot ht
  obtain ⟨m, rfl, hm⟩ := hsecond.exists_slot ht
  refine ⟨n, m, rfl, rfl, ?_, hn, hm⟩
  rcases hapart with hdiffer | ⟨hanswered, hchoose⟩
  · -- One place holds one record.
    rintro rfl
    rw [hn] at hm
    exact hdiffer (Option.some.inj hm)
  · obtain ⟨_, ⟨⟩, hslot⟩ := hanswered.exists_slot hs
    obtain ⟨active, hactive, hcall, hanswer⟩ := hsecond
    have hlater := (lt_of_hasToChoose hs hrun hslot hchoose active hactive second hcall).2
    rw [active.stage_eq hanswer] at hlater
    rintro rfl
    exact UInt16.lt_irrefl n (hlater n rfl)

/-- Two appends of different records that come one after the other get the numbers 0 and 1. -/
theorem appends_apart_written : ∃ clients, Reached ⟨0, 0, 0, 0⟩ ⟨0, 0⟩ "notes" clients
    ∧ clients.Answered 0 (.append "notes" .empty) (.ok (some 0))
    ∧ clients.Answered 1 (.append "notes" filled) (.ok (some 1))
    ∧ Record.empty ≠ filled
    ∧ ∃ n m, some 0 = some n ∧ some 1 = some m ∧ n ≠ m
      ∧ slot? clients.replica.chain.longest "notes" n = some .empty
      ∧ slot? clients.replica.chain.longest "notes" m = some filled := by
  have hdiffer : Record.empty ≠ filled := by decide +kernel
  obtain ⟨clients, hreached, hfirst, hsecond⟩ :=
    appends_queued built_newlyOpened (by decide) choices_newlyOpened.1 choices_newlyOpened.2
      grown_written running_written (fun _ => watch_written List.mem_cons_self)
      fun _ => watch_written (List.mem_cons_of_mem _ List.mem_cons_self)
  exact ⟨clients, hreached, hfirst, hsecond, hdiffer,
    appends_apart hreached .refl hfirst hsecond (Or.inl hdiffer)⟩

/-- **Appends need not have places of their own**: two of equal records may both be answered with the
first place of the file. -/
theorem appends_not_apart : ∃ clients, Reached ⟨0, 0, 0, 0⟩ ⟨0, 0⟩ "notes" clients
    ∧ clients.Answered 0 (.append "notes" .empty) (.ok (some 0))
    ∧ clients.Answered 1 (.append "notes" .empty) (.ok (some 0)) :=
  appends_shared built_newlyOpened (by decide) choices_newlyOpened.1 grown_written
    running_written fun _ => watch_written List.mem_cons_self

end Clients
end RecordChain
