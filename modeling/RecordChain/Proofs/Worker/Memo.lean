import Mathlib.Data.Multiset.AddSub
import RecordChain.Proofs.Mining.Selected
import RecordChain.Proofs.Worker.Workshop

/-!
# What the worker remembers

When nothing of the queue applies on top of a head, the worker remembers the head and the length of
the queue, and does not choose again before either of them changes. The head says enough: it is known
by its hash, and the ledger after it never changes. The length does not say which operations are
queued, and it is read some time after the choice that it stands for. So the worker overlooks an
operation that was queued between the two, and one that was queued later if another one was taken out.

* **`Selection.admits_of_pass`**, **`Selection.not_admits_of_pass`**: the first operation that is
  chosen applies on the ledger after the head, and if none is chosen none applies there.
* **`Workshop.Knows`**: what the worker can rely on at each of its stages, whatever the others do
  (`Knows.others`, `Knows.work`).
* **`skips_sound`**: when the worker skips the choice, nothing would be chosen but for such an
  operation. `skips_unsound` is how either of them is overlooked.
-/

namespace RecordChain

open ForkTree Validator

variable {economics : Economics} {difficulty : Difficulty}

/-! ## What would be chosen -/

/-- Whether an operation can be the first one of a block on top of a head, with the ledger after the
head. -/
def MinerConfig.Admits (config : MinerConfig) (ledger : Ledger) (headHeight : Nat)
    (op : Operation) : Prop :=
  ∃ after, (ledger.credit config.miner .regular).applyOp op (headHeight + 1) = ⟨after, none⟩

namespace Selection

variable {height room : Nat} {ledger : Ledger} {postponed : List FileName} {jobs : List Operation}

/-- The first operation chosen applies on the ledger that the pass began with. -/
theorem admits_of_pass {op : Operation} {rest : List Operation}
    (h : (pass height room ledger postponed jobs).chosen = op :: rest) :
    op ∈ jobs ∧ ∃ after, ledger.applyOp op height = ⟨after, none⟩ := by
  fun_induction pass height room ledger postponed jobs with
  | case1 | case2 => cases h
  | case3 room ledger postponed first later next hfirst _ _ =>
    obtain rfl := (List.cons.inj h).1
    exact ⟨List.mem_cons_self, next, hfirst⟩
  | case4 room ledger postponed first later next e hfirst _ ih =>
    obtain rfl := Ledger.applyOp_failed hfirst
    exact (ih h).imp_left (List.mem_cons_of_mem first)
  | case5 room ledger postponed first later next e hfirst _ _ ih =>
    obtain rfl := Ledger.applyOp_failed hfirst
    exact (ih h).imp_left (List.mem_cons_of_mem first)

theorem not_applies {op : Operation} {next : Ledger} {e : LedgerError}
    (h : ledger.applyOp op height = ⟨next, some e⟩) :
    ¬ ∃ after, ledger.applyOp op height = ⟨after, none⟩ := by
  intro happlies
  obtain ⟨after, happlies⟩ := happlies
  cases h.symm.trans happlies

/-- If nothing is chosen although there is room, nothing applies. -/
theorem not_admits_of_pass (hroom : 0 < room)
    (h : (pass height room ledger postponed jobs).chosen = []) :
    ∀ op ∈ jobs, ¬ ∃ after, ledger.applyOp op height = ⟨after, none⟩ := by
  fun_induction pass height room ledger postponed jobs with
  | case1 => cases hroom
  | case2 => exact fun op hop => absurd hop List.not_mem_nil
  | case3 => cases h
  | case4 room ledger postponed first later next e hfirst _ ih =>
    obtain rfl := Ledger.applyOp_failed hfirst
    exact List.forall_mem_cons.mpr ⟨not_applies hfirst, ih hroom h⟩
  | case5 room ledger postponed first later next e hfirst _ _ ih =>
    obtain rfl := Ledger.applyOp_failed hfirst
    exact List.forall_mem_cons.mpr ⟨not_applies hfirst, ih hroom h⟩

end Selection

namespace MinerConfig

variable {config : MinerConfig} {ledger : Ledger} {headHeight : Nat} {jobs : List Operation}

/-- If anything is chosen, one of the chosen operations applies on the head itself. -/
theorem exists_admitted (h : (config.select ledger headHeight jobs).chosen ≠ []) :
    ∃ op ∈ (config.select ledger headHeight jobs).chosen,
      op ∈ jobs ∧ config.Admits ledger headHeight op := by
  obtain ⟨op, rest, hchosen⟩ := List.exists_cons_of_ne_nil h
  exact ⟨op, hchosen ▸ List.mem_cons_self, Selection.admits_of_pass hchosen⟩

/-- If nothing is chosen, no operation in the queue applies on the head itself. -/
theorem not_admits (h : (config.select ledger headHeight jobs).chosen = []) :
    ∀ op ∈ jobs, ¬ config.Admits ledger headHeight op :=
  Selection.not_admits_of_pass (Nat.lt_of_lt_of_le Nat.one_pos (Nat.le_max_right _ _)) h

end MinerConfig

/-! ## What the worker can rely on -/

/-- On top of a head no queued operation applies, but perhaps for some that were not looked at. -/
def Replica.Barren (replica : Replica) (head : Head) (unread : List Operation) : Prop :=
  ∃ ledger, replica.chain.ledgerAt head.node = .ok ledger
    ∧ ∀ op ∈ replica.queue.jobs,
        replica.config.minerConfig.Admits ledger head.height op → op ∈ unread

/-- A head on which nothing applies stays so, but for what was queued since. -/
theorem Replica.Barren.onward {before after : Replica} {head : Head} {unread unread' : List Operation}
    (h : before.Barren head unread) (honward : before.Onward economics difficulty after)
    (hbuilt : before.chain.Built economics difficulty) (hplaces : before.chain.Places head)
    (hsub : unread ⊆ unread')
    (hqueue : ∀ op ∈ after.queue.jobs, op ∈ before.queue.jobs ∨ op ∈ unread') :
    after.Barren head unread' := by
  obtain ⟨ledger, hledger, hbarren⟩ := h
  refine ⟨ledger, (honward.ledgerAt_eq hbuilt hplaces).trans hledger, fun op hop hadmits => ?_⟩
  rw [honward.config_eq] at hadmits
  rcases hqueue op hop with hold | hnew
  · exact hsub (hbarren op hold hadmits)
  · exact hnew

namespace Workshop

/-- What a head and a length of the queue stand for that the worker remembers. -/
structure Remembers (s : Workshop) (head : Head) (size : Nat) : Prop where
  places : s.replica.chain.Places head
  barren : s.replica.Barren head (s.queued ++ s.missed)
  /-- As long as nothing is taken out the length counts what was queued since. -/
  size_eq : s.taken = [] → s.replica.queue.size = size + s.queued.length

/-- The worker remembers nothing that is not so. -/
def Mindful (s : Workshop) : Prop :=
  ∀ hash size, s.worker.blockedAt = some (hash, size) →
    ∃ head, head.hash = hash ∧ s.Remembers head size

/-- What the worker can rely on at each of its stages. From its choice until it has taken note it
counts anew what the others queue, so in between it cannot rely on what it took note of before. -/
def Knows (s : Workshop) : JobWorker.Stage → Prop
  | .comparing head | .suspending head | .reading head =>
    s.Mindful ∧ s.replica.chain.Places head
  | .choosing head ledger =>
    s.replica.chain.Places head ∧ s.replica.chain.ledgerAt head.node = .ok ledger
  | .dropping head _ [] | .blocking head =>
    s.replica.chain.Places head ∧ s.replica.Barren head s.queued
  | .dropping head _ (_ :: _) => s.replica.chain.Places head
  | .registering head _ | .mining head _ _ =>
    s.worker.blockedAt = none ∧ s.replica.chain.Places head
  | .announcing head chosen block =>
    s.worker.blockedAt = none ∧ s.replica.chain.Places head
      ∧ ∃ nonce, block = JobWorker.template s.replica head chosen nonce
  | .adding .. | .clearing .. => s.worker.blockedAt = none
  | .checking | .awaiting | .resuming | .looking | .leaving | .returned => s.Mindful

theorem mindful_of_none {s : Workshop} (h : s.worker.blockedAt = none) : s.Mindful := by
  intro hash size hsome
  cases h.symm.trans hsome

/-- Between two points of a run, with no choice and no note of the worker in between, all that was
done to the queue was counted. -/
structure Counted (economics : Economics) (difficulty : Difficulty) (before after : Workshop) :
    Prop where
  onward : before.replica.Onward economics difficulty after.replica
  missed_eq : after.missed = before.missed
  queued_subset : before.queued ⊆ after.queued
  queue_cases : ∀ op ∈ after.replica.queue.jobs,
    op ∈ before.replica.queue.jobs ∨ op ∈ after.queued
  size_eq : after.taken = [] → before.taken = []
    ∧ after.replica.queue.size + before.queued.length
        = before.replica.queue.size + after.queued.length

namespace Counted

variable {before after : Workshop}

/-- Where the queue stays, there is nothing to count. -/
theorem of_queue_eq (honward : before.replica.Onward economics difficulty after.replica)
    (hqueue : after.replica.queue = before.replica.queue) (hmissed : after.missed = before.missed)
    (hqueued : after.queued = before.queued) (htaken : after.taken = before.taken) :
    Counted economics difficulty before after where
  onward := honward
  missed_eq := hmissed
  queued_subset := hqueued ▸ List.Subset.refl _
  queue_cases op hop := Or.inl (hqueue ▸ hop)
  size_eq h := ⟨htaken ▸ h, by rw [hqueue, hqueued]⟩

/-- A head on which nothing applies stays so while everything is counted. -/
theorem barren {head : Head} (h : Counted economics difficulty before after)
    (hbuilt : before.replica.chain.Built economics difficulty)
    (hplaces : before.replica.chain.Places head)
    (hbarren : before.replica.Barren head before.queued) :
    after.replica.Barren head after.queued :=
  hbarren.onward h.onward hbuilt hplaces h.queued_subset h.queue_cases

/-- A worker that remembers nothing wrong goes on to do so while everything is counted. -/
theorem mindful (h : Counted economics difficulty before after)
    (hbuilt : before.replica.chain.Built economics difficulty)
    (hblocked : after.worker.blockedAt = before.worker.blockedAt) (hmindful : before.Mindful) :
    after.Mindful := by
  intro hash size hsome
  rw [hblocked] at hsome
  obtain ⟨head, rfl, hplaces, hbarren, hsize⟩ := hmindful hash size hsome
  refine ⟨head, rfl, h.onward.places hplaces, ?_, fun htaken => ?_⟩
  · -- What was missed stays missed, and what others queue now is counted.
    rw [h.missed_eq]
    refine hbarren.onward h.onward hbuilt hplaces ?_ fun op hop =>
      (h.queue_cases op hop).imp_right (List.mem_append_left _)
    exact List.append_subset.mpr
      ⟨List.Subset.trans h.queued_subset (List.subset_append_left _ _),
        List.subset_append_right _ _⟩
  · obtain ⟨hbefore, hsizes⟩ := h.size_eq htaken
    have := hsize hbefore
    omega

end Counted

/-- What the others leave in the queue tells what they queued and took out. -/
theorem length_of_diff_eq_nil {before after : List Operation} (h : before.diff after = []) :
    after.length = before.length + (after.diff before).length := by
  have hnone : (before : Multiset Operation) - after ≤ 0 := by
    rw [Multiset.coe_sub, h, Multiset.coe_nil]
  have hle : (before : Multiset Operation) ≤ after := by
    simpa using Multiset.sub_le_iff_le_add.mp hnone
  have hcard := Multiset.card_sub hle
  have hcards := Multiset.card_le_card hle
  simp only [Multiset.coe_sub, Multiset.coe_card] at hcard hcards
  omega

/-- What the others do is counted. -/
theorem counted_yield {s : Workshop} {replica : Replica}
    (honward : s.replica.Onward economics difficulty replica) :
    Counted economics difficulty s (s.yield replica) where
  onward := honward
  missed_eq := rfl
  queued_subset := List.subset_append_right _ _
  queue_cases op hop := by
    by_cases hold : op ∈ s.replica.queue.jobs
    · exact Or.inl hold
    · exact Or.inr (List.mem_append_left _ (List.mem_diff_of_mem hop hold))
  size_eq htaken := by
    obtain ⟨hnone, hbefore⟩ := List.append_eq_nil_iff.mp htaken
    have hlength := length_of_diff_eq_nil hnone
    refine ⟨hbefore, ?_⟩
    simp only [yield, JobQueue.size, List.length_append]
    omega

namespace Knows

variable {s t : Workshop} {stage : JobWorker.Stage} {peers : Peers} {found : Option Block}

/-- Nothing that the others do takes from the worker what it can rely on. -/
theorem others (h : s.Knows stage) {replica : Replica}
    (honward : s.replica.Onward economics difficulty replica)
    (hbuilt : s.replica.chain.Built economics difficulty) : (s.yield replica).Knows stage := by
  have hcounted := counted_yield honward
  have hmindful := hcounted.mindful hbuilt rfl
  cases stage with
  | comparing | suspending | reading => exact ⟨hmindful h.1, honward.places h.2⟩
  | choosing => exact ⟨honward.places h.1, (honward.ledgerAt_eq hbuilt h.1).trans h.2⟩
  | blocking => exact ⟨honward.places h.1, hcounted.barren hbuilt h.1 h.2⟩
  | dropping head jobs chosen =>
    cases chosen with
    | nil => exact ⟨honward.places h.1, hcounted.barren hbuilt h.1 h.2⟩
    | cons => exact honward.places h
  | registering | mining => exact ⟨h.1, honward.places h.2⟩
  | announcing =>
    obtain ⟨hblocked, hplaces, nonce, rfl⟩ := h
    have hconfig : (s.yield replica).replica.config = s.replica.config := honward.config_eq
    refine ⟨hblocked, honward.places hplaces, nonce, ?_⟩
    rw [JobWorker.template, JobWorker.template, hconfig]
  | adding | clearing => exact h
  | _ => exact hmindful h

/-- When the worker has chosen nothing, nothing of what it looked at applies. -/
theorem chosen {head : Head} {ledger : Ledger} {selection : Selection}
    (h : s.Knows (.choosing head ledger))
    (selected : s.replica.config.minerConfig.select ledger head.height s.replica.queue.jobs
      = selection) :
    Knows ({ s with missed := [], queued := [], taken := [] }.goto
      (.dropping head selection.dropped selection.chosen))
      (.dropping head selection.dropped selection.chosen) := by
  obtain ⟨hplaces, hledger⟩ := h
  cases hchosen : selection.chosen with
  | nil =>
    refine ⟨hplaces, ledger, hledger, fun op hop hadmits => ?_⟩
    exact absurd hadmits (MinerConfig.not_admits (selected ▸ hchosen) op hop)
  | cons => exact hplaces

/-- To drop an operation does not make another one apply. -/
theorem dropped {head : Head} {op : Operation} {e : LedgerError}
    {rest : List (Operation × LedgerError)} {chosen : List Operation}
    (h : s.Knows (.dropping head ((op, e) :: rest) chosen))
    (hbuilt : s.replica.chain.Built economics difficulty)
    (honward : s.replica.Onward economics difficulty (s.replica.drop op e)) :
    ((s.makes (s.replica.drop op e)).goto (.dropping head rest chosen)).Knows
      (.dropping head rest chosen) := by
  cases chosen with
  | nil =>
    refine ⟨h.1, h.2.onward honward hbuilt h.1 (List.Subset.refl _) fun other hother => ?_⟩
    exact Or.inl (List.mem_of_mem_filter hother)
  | cons => exact h

/-- What the worker takes note of is so. -/
theorem noted {head : Head} (h : s.Knows (.blocking head)) :
    Mindful { s with
      worker := ⟨some (head.hash, s.replica.queue.size), .resuming⟩
      missed := s.queued
      queued := []
      taken := [] } := by
  intro hash size hnote
  obtain ⟨rfl, rfl⟩ := Prod.mk.inj (Option.some.inj hnote)
  exact ⟨head, rfl, h.1, h.2, fun _ => rfl⟩

/-- After each of its steps the worker knows what it relies on in the next one. -/
theorem work (h : s.Knows stage) (hbuilt : s.replica.chain.Built economics difficulty)
    (hfinds : JobWorker.Finds s.replica stage found) (hworks : Works peers found s stage t) :
    t.Knows t.worker.stage := by
  have honward := hworks.onward hbuilt
  -- Where it does not touch the queue, what it remembers stays so.
  have hmindful (hqueue : t.replica.queue = s.replica.queue) (hmissed : t.missed = s.missed)
      (hqueued : t.queued = s.queued) (htaken : t.taken = s.taken)
      (hblocked : t.worker.blockedAt = s.worker.blockedAt) : s.Mindful → t.Mindful :=
    (Counted.of_queue_eq honward hqueue hmissed hqueued htaken).mindful hbuilt hblocked
  cases hworks with
  | ending | going | idle | busy | resumed | headless | left | stays =>
    exact hmindful rfl rfl rfl rfl rfl h
  | headed hhead =>
    exact ⟨hmindful rfl rfl rfl rfl rfl h,
      honward.places (hbuilt.sound.places_of_head? hhead)⟩
  | remembered => exact hmindful rfl rfl rfl rfl rfl h.1
  | changed | suspended => exact ⟨hmindful rfl rfl rfl rfl rfl h.1, honward.places h.2⟩
  | read hledger => exact ⟨h.2, hledger⟩
  | unread herror =>
    obtain ⟨ledger, -, hledger⟩ := hbuilt.sound.exists_ledgerAt h.2.lt_size
    cases hledger.symm.trans herror
  | chosen hselected => exact h.chosen hselected
  | dropped => exact h.dropped hbuilt honward
  | barren => exact h
  | picked => exact ⟨rfl, h⟩
  | noted => exact h.noted
  | watching => exact ⟨h.1, honward.places h.2⟩
  | mined hfound =>
    subst hfound
    exact ⟨h.1, h.2, hfinds⟩
  | overtaken | interrupted | stale => exact mindful_of_none h.1
  | current => exact h.1
  | adding | joined => exact h
  | refused | cleared => exact mindful_of_none h

end Knows

/-- What the worker relies on is so, wherever it may come to be. -/
theorem Reached.knows {s : Workshop} (h : s.Reached (.growing economics difficulty)) :
    s.Knows s.worker.stage := by
  -- Induction on the run, together with what the chain is built of.
  refine (h.induction (motive := fun s => s.replica.chain.Built economics difficulty
    ∧ s.Knows s.worker.stage) ?_ ?_).2
  · exact fun replica hstarts => ⟨hstarts, mindful_of_none rfl⟩
  · rintro s t hstep ⟨hbuilt, hknows⟩
    refine ⟨(hstep.onward hbuilt).built, ?_⟩
    cases hstep with
    | work peers hfinds => exact hknows.work hbuilt hfinds (s.works peers _)
    | others honward => exact hknows.others honward hbuilt

/-! ## Skipping the choice -/

/-- The head on which the worker is about to skip the choice, if it is. -/
def skips? (s : Workshop) : Option Head :=
  match s.worker.stage with
  | .comparing head =>
    if s.worker.blockedAt = some (head.hash, s.replica.queue.size) then some head else none
  | _ => none

/-- What the worker would choose on top of a head, with the ledger after it. -/
def choice (s : Workshop) (ledger : Ledger) (head : Head) : List Operation :=
  (s.replica.config.minerConfig.select ledger head.height s.replica.queue.jobs).chosen

/-- To skip the choice is to begin anew after a look at the head. -/
theorem skips?_eq_some_iff {s : Workshop} {head : Head} (peers : Peers) (found : Option Block) :
    s.skips? = some head
      ↔ s.worker.stage = .comparing head ∧ (s.work peers found).worker.stage = .checking := by
  have hworks := s.works peers found
  rw [skips?]
  generalize s.worker.stage = stage at hworks
  generalize s.work peers found = t at hworks
  cases hworks with
  | remembered same => simp [same, goto]
  | changed other => simp [other, goto]
  | _ => simp

/-- **When the worker skips the choice, nothing would be chosen**, but for what was queued in two
places: after the last choice and before the note of it was taken, or later, if something was taken
out of the queue meanwhile. This is so in every run, whatever the other threads insert, queue and take
out between any two steps of the worker. -/
theorem skips_sound {s : Workshop} {head : Head}
    (h : s.Reached (.growing economics difficulty))
    (hskips : s.skips? = some head) :
    ∃ ledger, s.replica.chain.ledgerAt head.node = .ok ledger
      ∧ (s.choice ledger head = []
        ∨ ∃ op ∈ s.choice ledger head, op ∈ s.missed ∨ op ∈ s.queued ∧ s.taken ≠ []) := by
  have hknows := h.knows
  obtain ⟨hstage, -⟩ := (skips?_eq_some_iff .none none).mp hskips
  rw [hstage] at hknows
  obtain ⟨hmindful, hplaces⟩ := hknows
  have hnote : s.worker.blockedAt = some (head.hash, s.replica.queue.size) := by
    rw [skips?, hstage] at hskips
    exact (Option.ite_none_right_eq_some.mp hskips).1
  -- The head that it took note of is the same one, since it has the same hash.
  obtain ⟨noted, hhash, hnoted, hbarren, hsize⟩ := hmindful _ _ hnote
  obtain rfl := hnoted.eq_of_hash hplaces h.built.sound.valid hhash
  obtain ⟨ledger, hledger, hunread⟩ := hbarren
  refine ⟨ledger, hledger, or_iff_not_imp_left.mpr fun hchoice => ?_⟩
  -- The first operation chosen applies, so it is one that was not looked at.
  obtain ⟨op, hchosen, hop, hadmits⟩ := MinerConfig.exists_admitted hchoice
  refine ⟨op, hchosen, ?_⟩
  rcases List.mem_append.mp (hunread op hop hadmits) with hqueued | hmissed
  · refine Or.inr ⟨hqueued, fun htaken => ?_⟩
    have hlength := hsize htaken
    have hpositive := List.length_pos_of_mem hqueued
    omega
  · exact Or.inl hmissed

/-- A replica whose only job is that of somebody who cannot pay for it. -/
def stalled : Replica :=
  let config : Config :=
    { miner := "ann", opDifficulty := 0, noOpDifficulty := 0, opReward := 1, noOpReward := 0,
      createFee := 1, appendFee := 0, confirmsPerCreate := 0, confirmsPerAppend := 0,
      opsPerBlock := 2 }
  let root := Block.genesis "ann" 0
  { Replica.new config with
    chain := .ofBlocks config.economics config.difficulty
      [root, .regular root.hash "ann" [.create "ann" "notes"] 0]
    queue := ⟨[.create "bob" "plans"]⟩ }

/-- The worker may come to be wherever it comes on its own. -/
theorem reached_stalled (count : Nat) :
    ((start stalled).alone count).Reached (.growing ⟨1, 0, 1, 0⟩ ⟨0, 0⟩) :=
  ⟨stalled, ⟨_, rfl, rfl⟩, run_alone JobWorker.finds_none _ count⟩

/-- The choice is skipped, rightly, on a replica with one job that applies nowhere. -/
theorem skips_sound_stalled :
    let s := (start stalled).alone 13
    ∃ head ledger, s.skips? = some head ∧ s.replica.chain.ledgerAt head.node = .ok ledger
      ∧ s.missed = [] ∧ s.taken = [] ∧ s.choice ledger head = [] := by
  intro s
  -- One evaluation for all, since each would build the chain anew.
  obtain ⟨hskips, hmissed, htaken⟩ : s.skips?.isSome = true ∧ s.missed = [] ∧ s.taken = [] := by
    decide +kernel
  obtain ⟨head, hskips⟩ := Option.isSome_iff_exists.mp hskips
  obtain ⟨ledger, hledger, hchoice⟩ := skips_sound (reached_stalled _) hskips
  refine ⟨head, ledger, hskips, hledger, hmissed, htaken, hchoice.resolve_right ?_⟩
  rw [hmissed, htaken]
  simp

/-- The worker skips the choice on the head although it would choose some operations there. -/
def Overlooks (s : Workshop) (ops : List Operation) : Prop :=
  ∃ head ledger, s.skips? = some head ∧ s.replica.chain.head? = some head
    ∧ s.replica.chain.ledgerAt head.node = .ok ledger ∧ s.choice ledger head = ops

/-- To overlook operations is to skip the choice where they would be chosen. -/
theorem overlooks_of_skips {s : Workshop} {ops : List Operation}
    (h : s.skips? = s.replica.chain.head? ∧ (s.skips?.bind fun head =>
      (s.replica.chain.ledgerAt head.node).toOption.map (s.choice · head)) = some ops) :
    s.Overlooks ops := by
  obtain ⟨hhead, hchoice⟩ := h
  obtain ⟨head, hskips, hchoice⟩ := Option.bind_eq_some_iff.mp hchoice
  obtain ⟨ledger, hledger, hchoice⟩ := Option.map_eq_some_iff.mp hchoice
  exact ⟨head, ledger, hskips, hhead.symm.trans hskips, eq_ok_of_toOption hledger, hchoice⟩

/-- Somebody takes an operation out of the queue. -/
def withdrawing (s : Workshop) (op : Operation) : Workshop :=
  s.yield { s.replica with queue := s.replica.queue.remove op }

/-- Somebody queues an operation. -/
def submitting (s : Workshop) (op : Operation) : Workshop := s.yield (s.replica.submitJob op).1

theorem Reached.withdrawing {s : Workshop} (h : s.Reached (.growing economics difficulty))
    (op : Operation) : (s.withdrawing op).Reached (.growing economics difficulty) :=
  h.run (.single (.others ((Replica.Changes.queue (s.replica.queue.remove op)).onward h.built)))

theorem Reached.submitting {s : Workshop} (h : s.Reached (.growing economics difficulty))
    (op : Operation) : (s.submitting op).Reached (.growing economics difficulty) :=
  h.run (.single (.others ((s.replica.changes_submitJob op).onward h.built)))

/-- The worker has taken note that the job does not apply. Then somebody takes it out and queues one
that does, so the queue is as long as before. -/
def exchanged : Workshop :=
  ((((start stalled).alone 9).withdrawing (.create "bob" "plans")).submitting
    (.delete "ann" "notes")).alone 4

/-- Somebody queues a job that applies after the worker has chosen nothing, and before it reads
the length of the queue. -/
def preceded : Workshop :=
  (((start stalled).alone 7).submitting (.delete "ann" "notes")).alone 6

/-- The exchange of two jobs comes about. -/
theorem reached_exchanged : exchanged.Reached (.growing ⟨1, 0, 1, 0⟩ ⟨0, 0⟩) :=
  (((reached_stalled 9).withdrawing _).submitting _).run (run_alone JobWorker.finds_none _ 4)

/-- A job that is queued just before the worker takes note comes about. -/
theorem reached_preceded : preceded.Reached (.growing ⟨1, 0, 1, 0⟩ ⟨0, 0⟩) :=
  ((reached_stalled 7).submitting _).run (run_alone JobWorker.finds_none _ 6)

/-- **The worker may skip the choice although something would be chosen**, in either of two ways:
after an exchange that leaves the queue as long as it was, and without one, if the operation was queued
before the note was taken. -/
theorem skips_unsound :
    (exchanged.Reached (.growing ⟨1, 0, 1, 0⟩ ⟨0, 0⟩) ∧ exchanged.missed = []
      ∧ exchanged.Overlooks [.delete "ann" "notes"])
    ∧ preceded.Reached (.growing ⟨1, 0, 1, 0⟩ ⟨0, 0⟩) ∧ preceded.taken = []
      ∧ preceded.Overlooks [.delete "ann" "notes"] := by
  have hexchanged : exchanged.missed = [] ∧ exchanged.skips? = exchanged.replica.chain.head?
      ∧ (exchanged.skips?.bind fun head =>
        (exchanged.replica.chain.ledgerAt head.node).toOption.map (exchanged.choice · head))
          = some [.delete "ann" "notes"] := by
    decide +kernel
  have hpreceded : preceded.taken = [] ∧ preceded.skips? = preceded.replica.chain.head?
      ∧ (preceded.skips?.bind fun head =>
        (preceded.replica.chain.ledgerAt head.node).toOption.map (preceded.choice · head))
          = some [.delete "ann" "notes"] := by
    decide +kernel
  exact ⟨⟨reached_exchanged, hexchanged.1, overlooks_of_skips hexchanged.2⟩,
    reached_preceded, hpreceded.1, overlooks_of_skips hpreceded.2⟩

end Workshop
end RecordChain
