import RecordChain.Proofs.Client.Appends

/-!
# Creations side by side

A creation is refused if the file is on the chain or if its creation is queued. It looks at the chain
first and at the queue second, and submits its operation third, so that others may do the same in
between.

* **`creates_apart`**: a creation that takes one of its two looks too late is refused, and stays so,
  whatever the others do.
* **`creates_shared`**: two creations that take both looks in time both succeed if either does. They
  submit one and the same operation, and the file that it makes is what both have waited for.
-/

namespace RecordChain

variable {economics : Economics} {difficulty : Difficulty} {path added : List Block}
  {ledger : Ledger} {file : FileName} {replica after : Replica}

/-! ## Files on a chain -/

/-- A file is on a chain, confirmed or not. -/
def OnChain (path : List Block) (file : FileName) : Prop :=
  ∃ files, unconfirmedFiles path = .ok files ∧ file ∈ files

/-- On a chain that replays, a file is there if the ledger has it. -/
theorem onChain_iff (h : Ledger.replay none path = .ok ledger) :
    OnChain path file ↔ ledger.files[file]?.isSome := by
  obtain ⟨views, hviews, hfiles⟩ := exists_unconfirmedFiles h
  have hmem : file ∈ views ↔ ledger.files[file]?.isSome := by
    rw [Std.ExtTreeMap.mem_iff_isSome_getElem?, hfiles, Option.isSome_map]
  constructor
  · rintro ⟨files, hsame, hfile⟩
    obtain rfl := Except.ok.inj (hviews.symm.trans hsame)
    exact hmem.mp hfile
  · exact fun hfile => ⟨views, hviews, hmem.mpr hfile⟩

/-- **A file stays on a chain** that grows, as long as nobody deletes it. -/
theorem onChain_append (h : Ledger.replay none (path ++ added) = .ok ledger)
    (spared : deletedIn file added = false) (hfile : OnChain path file) :
    OnChain (path ++ added) file := by
  obtain ⟨past, hpast, hkept⟩ := exists_kept h
  obtain ⟨old, hold⟩ := Option.isSome_iff_exists.mp ((onChain_iff hpast).mp hfile)
  obtain ⟨more, hentry⟩ := hkept file spared old hold
  rw [onChain_iff h, hentry]
  rfl

/-- A file stays on the longest chain while the chain grows and the file is not deleted. -/
theorem Replica.Grown.onChain (h : replica.Grown economics difficulty file after)
    (hfile : OnChain replica.chain.longest file) : OnChain after.chain.longest file := by
  obtain ⟨added, hadded, hspared⟩ := h.grown
  obtain ⟨ledger, hreplay⟩ := h.built.exists_replay_longest
  rw [hadded] at hreplay ⊢
  exact onChain_append hreplay hspared hfile

/-- A creation that is told that its file is in place finds it on the chain. -/
theorem onChain_of_watchCreate_done {me : Account} {depth : Nat}
    (h : watchCreate me depth path file = .done) : OnChain path file := by
  rw [watchCreate] at h
  cases hfiles : unconfirmedFiles path with
  | error e =>
    rw [hfiles] at h
    cases h
  | ok files =>
    simp only [hfiles, bind, Except.bind] at h
    cases hview : files[file]? with
    | none =>
      rw [hview] at h
      cases h
    | some view =>
      have hmem : file ∈ files := by
        rw [Std.ExtTreeMap.mem_iff_isSome_getElem?, hview]
        rfl
      exact ⟨files, hfiles, hmem⟩

/-! ## One creation -/

namespace Creation

/-- Where a creation may stand, on some longest chain. -/
inductive Standing (path : List Block) (file : FileName) : Call.Stage → Prop
  | opening : Standing path file .opening
  | checkingQueue (named : isFileName file) : Standing path file .checkingQueue
  | submitting {me : Account} : Standing path file (.submitting (.create me file))
  | waiting {me : Account} : Standing path file (.waiting (.create me file))
  | landed (there : OnChain path file) : Standing path file (.finished (.ok none))
  | failed {reason : FileError} : Standing path file (.finished (.error reason))

/-- What a creation is told that comes too late. -/
def refusal (file : FileName) : FileError := if isFileName file then .fileExists else .badName

variable {stage : Call.Stage}

/-- A creation of a file that is on the chain is refused. -/
theorem openStep_of_onChain (h : OnChain replica.chain.longest file) :
    (Call.create file).openStep replica = .finished (.error (refusal file)) := by
  obtain ⟨files, hfiles, hmem⟩ := h
  cases hname : isFileName file <;>
    simp [Call.openStep, Call.file, Call.filesOf, refusal, hname, hfiles, hmem]

/-- Where a creation stands after its first look is told by the chain. -/
theorem standing_openStep (replica : Replica) (file : FileName) :
    Standing replica.chain.longest file ((Call.create file).openStep replica) := by
  unfold Call.openStep
  dsimp only
  split
  · exact .failed
  · next hname =>
    split
    · exact .failed
    · split
      · exact .failed
      · exact .checkingQueue (by simpa [Call.file] using hname)

/-- A creation never gives up what it has submitted to try again. -/
theorem watchCreate_ne_renumber (me : Account) (depth : Nat) (path : List Block)
    (file : FileName) : watchCreate me depth path file ≠ .renumber := by
  rw [watchCreate]
  cases unconfirmedFiles path with
  | error e => nofun
  | ok files =>
    simp only [bind, Except.bind]
    cases files[file]? with
    | none => nofun
    | some view =>
      cases confirmedFiles ⟨depth, 0⟩ path with
      | error e =>
        dsimp only
        split <;> nofun
      | ok confirmed =>
        dsimp only
        split
        · nofun
        · cases confirmed[file]?.any (·.creator = me) <;> nofun

/-- Where it stands after a poll is told by the chain too. -/
theorem standing_poll (replica : Replica) (me : Account) (file : FileName) :
    Standing replica.chain.longest file
      ((Call.create file).poll replica (.create me file)).2 := by
  unfold Call.poll
  split
  · next hdone => exact .landed (onChain_of_watchCreate_done hdone)
  · exact .waiting
  · exact .waiting
  · next hrenumber => exact absurd hrenumber (watchCreate_ne_renumber _ _ _ file)
  · exact .failed
  · exact .failed

/-- **A creation stands somewhere after each of its steps.** -/
theorem standing_step (h : Standing replica.chain.longest file stage) (token : Token) :
    Standing replica.chain.longest file ((Call.create file).step token replica stage).2 := by
  cases h with
  | opening => exact standing_openStep replica file
  | checkingQueue =>
    dsimp only [Call.step]
    split
    · exact .failed
    · exact .submitting
  | submitting => exact .waiting
  | @waiting me =>
    rw [Call.step]
    split
    · exact .failed
    · exact standing_poll replica me file
  | landed there => exact .landed there
  | failed => exact .failed

/-- Growth of the longest chain moves no creation. -/
theorem Standing.grown (h : Standing replica.chain.longest file stage)
    (hgrown : replica.Grown economics difficulty file after) :
    Standing after.chain.longest file stage := by
  cases h with
  | landed there => exact .landed (hgrown.onChain there)
  | opening => exact .opening
  | checkingQueue named => exact .checkingQueue named
  | submitting => exact .submitting
  | waiting => exact .waiting
  | failed => exact .failed

end Creation

/-! ## Many creations -/

namespace Clients

variable {clients s t : Clients} {id other : Nat} {active : ActiveCall} {call : Call}
  {answer : Call.Answer}

/-- Every creation stands where the chain says, whatever all clients do. Induction on the run. -/
theorem creation_standing (h : Reached economics difficulty file clients) :
    ∀ active, clients.calls[id]? = some active → active.call = .create file →
      Creation.Standing clients.replica.chain.longest file active.stage := by
  obtain ⟨replica, hreplica, hrun⟩ := h
  refine hrun.call_induction
    (motive := fun replica active => active.call = .create file →
      Creation.Standing replica.chain.longest file active.stage) ?start ?step ?grown hreplica ?_
  case start => exact fun _ _ _ _ _ => .opening
  case step =>
    intro replica active _ hstanding hcall
    have hcall : active.call = .create file := hcall
    have hstep := Creation.standing_step (hstanding hcall) active.token
    rw [← hcall] at hstep
    exact hstep
  case grown =>
    intro replica after active hgrown hstanding hcall
    exact (hstanding hcall).grown hgrown
  · intro active hactive
    cases hactive

/-- A creation that succeeds has its file on the chain. -/
theorem Answered.onChain (hs : Reached economics difficulty file clients)
    {number? : Option RecordNumber} (h : clients.Answered id (.create file) (.ok number?)) :
    OnChain clients.replica.chain.longest file := by
  obtain ⟨active, hactive, hcall, hanswer⟩ := h
  have hstanding := creation_standing hs active hactive hcall
  rw [active.stage_eq hanswer] at hstanding
  cases hstanding with
  | landed there => exact there

/-! ## Answers are final -/

theorem getElem?_act_self (h : clients.calls[id]? = some active) :
    (clients.act id).calls[id]? = some (active.step clients.replica).2 := by
  rw [act, h]
  exact List.getElem?_set_self (List.getElem?_eq_some_iff.mp h).1

theorem getElem?_act_of_ne (clients : Clients) (h : other ≠ id) :
    (clients.act other).calls[id]? = clients.calls[id]? := by
  rw [act]
  split
  · rfl
  · exact List.getElem?_set_ne h

/-- No step changes an answer. -/
theorem Answered.step (h : s.Answered id call answer)
    (hstep : Step economics difficulty file s t) : t.Answered id call answer := by
  obtain ⟨active, hactive, hcall, hanswer⟩ := h
  cases hstep with
  | begin later token =>
    refine ⟨active, ?_, hcall, hanswer⟩
    exact (List.getElem?_append_left (List.getElem?_eq_some_iff.mp hactive).1).trans hactive
  | act actor =>
    by_cases hsame : actor = id
    · -- A call that is over does nothing in its steps.
      subst hsame
      refine ⟨_, getElem?_act_self hactive, hcall, ?_⟩
      simp [ActiveCall.step, active.stage_eq hanswer, Call.step, ActiveCall.answer?]
    · exact ⟨active, (getElem?_act_of_ne s hsame).trans hactive, hcall, hanswer⟩
  | others => exact ⟨active, hactive, hcall, hanswer⟩

/-- **A call that was answered stays answered**, with the same answer. -/
theorem Answered.run (h : s.Answered id call answer) (hrun : Run economics difficulty file s t) :
    t.Answered id call answer := by
  induction hrun with
  | refl => exact h
  | tail _ hstep ih => exact ih.step hstep

/-- An answer is the only one. -/
theorem Answered.unique {answer' : Call.Answer} (h : clients.Answered id call answer)
    (h' : clients.Answered id call answer') : answer' = answer := by
  obtain ⟨active, hactive, -, hanswer⟩ := h
  obtain ⟨active', hactive', -, hanswer'⟩ := h'
  obtain rfl := Option.some.inj (hactive.symm.trans hactive')
  exact Option.some.inj (hanswer'.symm.trans hanswer)

/-! ## Creations that come too late -/

/-- A creation takes one of its looks too late: some creation of the file was answered, or the file is
on the chain, before it looks at the chain, or a creation of the file is queued when it looks at the
queue. -/
inductive TooLate (clients : Clients) (file : FileName) : Call.Stage → Prop
  | answered {id : Nat} {number? : Option RecordNumber}
    (done : clients.Answered id (.create file) (.ok number?)) : TooLate clients file .opening
  | onChain (there : OnChain clients.replica.chain.longest file) : TooLate clients file .opening
  | queued (pending : clients.replica.queue.hasCreate file) : TooLate clients file .checkingQueue

/-- A creation that comes too late is refused by its next step. -/
theorem TooLate.step_eq (hs : Reached economics difficulty file s)
    (hactive : s.calls[id]? = some active) (hcall : active.call = .create file)
    (hlate : s.TooLate file active.stage) :
    (active.step s.replica).2.stage = .finished (.error (Creation.refusal file)) := by
  have hstanding := creation_standing hs active hactive hcall
  have hstage : (active.step s.replica).2.stage
      = ((Call.create file).step active.token s.replica active.stage).2 := by
    rw [← hcall]
    rfl
  rw [hstage]
  -- Which look is taken is known from the stage, and the stage from how it is too late.
  generalize active.stage = stage at hlate hstanding
  cases hlate with
  | answered done => exact Creation.openStep_of_onChain (done.onChain hs)
  | onChain there => exact Creation.openStep_of_onChain there
  | queued pending =>
    cases hstanding with
    | checkingQueue named => simp [Call.step, Call.file, Creation.refusal, pending, named]

/-! ## Two creations step by step -/

section Steps

variable {token : Token}

/-- A creation of a file that is not on the chain goes on to look at the queue. -/
theorem openStep_of_absent (hbuilt : replica.chain.Built economics difficulty)
    (hname : isFileName file) (habsent : ¬ OnChain replica.chain.longest file) :
    (Call.create file).openStep replica = .checkingQueue := by
  obtain ⟨ledger, hreplay⟩ := hbuilt.exists_replay_longest
  obtain ⟨files, hfiles, -⟩ := exists_unconfirmedFiles hreplay
  have hmem : file ∉ files := fun hmem => habsent ⟨files, hfiles, hmem⟩
  simp [Call.openStep, Call.file, Call.filesOf, hname, hfiles, hmem]

/-- **Two creations that take both looks in time both succeed**, if the chain comes to show the file.
The queue takes the operation of the second for that of the first. -/
theorem creates_shared (hbuilt : replica.chain.Built economics difficulty) (hname : isFileName file)
    (habsent : ¬ OnChain replica.chain.longest file)
    (hunqueued : replica.queue.hasCreate file = false)
    (hgrown : replica.Grown economics difficulty file after)
    (hrunning : after.tokens.isStopped token = false)
    (hdone : watchCreate after.config.miner after.config.confirmsPerCreate after.chain.longest file
      = .done) :
    ∃ clients, Reached economics difficulty file clients
      ∧ clients.Answered 0 (.create file) (.ok none)
      ∧ clients.Answered 1 (.create file) (.ok none) := by
  let call := Call.create file
  let job := Operation.create replica.config.miner file
  have hopen : ActiveCall.step replica ⟨call, token, .opening, none⟩
      = (replica, ⟨call, token, .checkingQueue, none⟩) := by
    simp [ActiveCall.step, Call.step, call, openStep_of_absent hbuilt hname habsent,
      ActiveCall.job?]
  have hcheck : ActiveCall.step replica ⟨call, token, .checkingQueue, none⟩
      = (replica, ⟨call, token, .submitting job, none⟩) := by
    simp [ActiveCall.step, Call.step, call, job, Call.file, hunqueued, ActiveCall.job?]
  have hpoll : ActiveCall.step after ⟨call, token, .waiting job, some job⟩
      = (after, ⟨call, token, .finished (.ok none), some job⟩) := by
    have hwatch : call.watch after job = .done := hdone
    simp [ActiveCall.step, Call.step, Call.poll, hrunning, hwatch, ActiveCall.job?, job,
      Operation.number?]
  have hrun : Run economics difficulty file ⟨replica, []⟩
      ⟨replica, [.start call token, .start call token]⟩ :=
    (Relation.ReflTransGen.refl.tail (.begin call token)).tail (.begin call token)
  -- Both look at the chain and at the queue, and only then both submit.
  have hrun := hrun.act 0 rfl hopen
  have hrun := hrun.act 1 rfl hopen
  have hrun := hrun.act 0 rfl hcheck
  have hrun := hrun.act 1 rfl hcheck
  have hrun := hrun.act 0 rfl rfl
  have hrun := hrun.act 1 rfl rfl
  have hothers : ((replica.submitJob job).1.submitJob job).1.Grown economics difficulty file after :=
    (Replica.Grown.of_chain_eq (by simpa using hbuilt) (by simp)).trans hgrown
  have hrun : Run economics difficulty file ⟨replica, []⟩
      ⟨after, [⟨call, token, .waiting job, some job⟩, ⟨call, token, .waiting job, some job⟩]⟩ :=
    hrun.tail (.others hothers)
  have hrun := hrun.act 0 rfl hpoll
  have hrun := hrun.act 1 rfl hpoll
  exact ⟨_, ⟨replica, hbuilt, hrun⟩, ⟨_, rfl, rfl, rfl⟩, ⟨_, rfl, rfl, rfl⟩⟩

end Steps

/-- A block that creates a second file. -/
def planning : Block :=
  .regular (Block.regular (Block.genesis "ann" 0).hash "ann" [.create "ann" "notes"] 0).hash "ann"
    [.create "ann" "plans"] 0

/-- The replica when that block is its head. -/
def planned : Replica :=
  { newlyOpened with chain := (newlyOpened.chain.insert planning).chain }

theorem chain_planned : planned.chain = (newlyOpened.chain.insert planning).chain :=
  newlyOpened.chain_with _

theorem grown_planned : newlyOpened.Grown ⟨0, 0, 0, 0⟩ ⟨0, 0⟩ "plans" planned := by
  let creation := Block.regular (Block.genesis "ann" 0).hash "ann" [.create "ann" "notes"] 0
  obtain ⟨hfresh, hhead, happlies⟩ :
      newlyOpened.chain.contains planning.hash = false
        ∧ newlyOpened.chain.head? = some ⟨1, creation.hash, 1⟩
        ∧ (newlyOpened.chain.ledgerAt 1).toOption.map
            (fun ledger => (ledger.applyBlock planning 2).failure) = some none := by
    decide +kernel
  constructor
  · rw [chain_planned]
    exact built_newlyOpened.insert planning
  · rw [chain_planned]
    exact ⟨[planning], built_newlyOpened.longest_insert_of_applies hhead hfresh (Nat.zero_le _) nofun
      rfl happlies, rfl⟩

/-- Before that block nobody has created the file. -/
theorem absent_newlyOpened : ¬ OnChain newlyOpened.chain.longest "plans" := by
  have hopen : (unconfirmedFiles newlyOpened.chain.longest).toOption.map
      (decide <| "plans" ∈ ·) = some false := by
    decide +kernel
  obtain ⟨files, hfiles, hmem⟩ := Option.map_eq_some_iff.mp hopen
  rintro ⟨files', hfiles', hmem'⟩
  obtain rfl := Except.ok.inj ((eq_ok_of_toOption hfiles).symm.trans hfiles')
  exact of_decide_eq_false hmem hmem'

/-- With that block its creator sees it created, and is not cancelled. -/
theorem watch_planned :
    planned.tokens.isStopped newlyOpened.shutdown = false
      ∧ watchCreate planned.config.miner planned.config.confirmsPerCreate planned.chain.longest
          "plans" = .done := by
  decide +kernel

/-- **Of two creations of one file one succeeds at most, if one of them takes a look too late.** It is
refused, and stays so, whatever the others do. -/
theorem creates_apart (hs : Reached economics difficulty file s)
    (hactive : s.calls[id]? = some active) (hcall : active.call = .create file)
    (hlate : s.TooLate file active.stage) (hrun : Run economics difficulty file (s.act id) t) :
    t.Answered id (.create file) (.error (Creation.refusal file))
      ∧ ∀ number?, ¬ t.Answered id (.create file) (.ok number?) := by
  have hrefused : (s.act id).Answered id (.create file) (.error (Creation.refusal file)) := by
    refine ⟨_, getElem?_act_self hactive, hcall, ?_⟩
    rw [ActiveCall.answer?, hlate.step_eq hs hactive hcall]
  have hlater := hrefused.run hrun
  refine ⟨hlater, fun number? hok => ?_⟩
  cases hlater.unique hok

/-- A creation that is refused because another one was answered before it looked. -/
theorem creates_apart_planned :
    ∃ s id active, Reached ⟨0, 0, 0, 0⟩ ⟨0, 0⟩ "plans" s
      ∧ s.Answered 0 (.create "plans") (.ok none)
      ∧ s.calls[id]? = some active ∧ active.call = .create "plans"
      ∧ s.TooLate "plans" active.stage
      ∧ (s.act id).Answered id (.create "plans") (.error (Creation.refusal "plans"))
      ∧ ∀ number?, ¬ (s.act id).Answered id (.create "plans") (.ok number?) := by
  obtain ⟨clients, hreached, hfirst, -⟩ := creates_shared built_newlyOpened (by decide)
    absent_newlyOpened rfl grown_planned watch_planned.1 watch_planned.2
  let s := clients.begin (.create "plans") newlyOpened.shutdown
  have hstep : Step ⟨0, 0, 0, 0⟩ ⟨0, 0⟩ "plans" clients s :=
    .begin (.create "plans") newlyOpened.shutdown
  have hs : Reached ⟨0, 0, 0, 0⟩ ⟨0, 0⟩ "plans" s := hreached.run (.single hstep)
  have hdone : s.Answered 0 (.create "plans") (.ok none) := hfirst.step hstep
  have hactive : s.calls[clients.calls.length]?
      = some (.start (.create "plans") newlyOpened.shutdown) := List.getElem?_concat_length
  have hlate : s.TooLate "plans" .opening := .answered hdone
  exact ⟨s, clients.calls.length, _, hs, hdone, hactive, rfl, hlate,
    creates_apart hs hactive rfl hlate .refl⟩

/-- **Two creations of one file may both succeed**: both have looked at the chain and at the queue
before either has submitted its operation. -/
theorem created_twice : ∃ clients, Reached ⟨0, 0, 0, 0⟩ ⟨0, 0⟩ "plans" clients
    ∧ clients.Answered 0 (.create "plans") (.ok none)
    ∧ clients.Answered 1 (.create "plans") (.ok none) :=
  creates_shared built_newlyOpened (by decide) absent_newlyOpened rfl grown_planned
    watch_planned.1 watch_planned.2

end Clients
end RecordChain
