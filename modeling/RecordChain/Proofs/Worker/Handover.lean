import RecordChain.Proofs.Worker.Memo

/-!
# Handing a mined block in

The worker looks whether the head that it mined on is still the head, and then adds the block. These
are two steps, so another thread may insert a block in between. The mined block joins the tree all the
same, but beside the longest chain, and its operations leave the queue.

* **`GrowsTo.head_cases`**: a head is left for higher nodes only.
* **`Chain.Placed`**: how a block joins the tree on top of a head that may have been left. It is the new
  head if and only if the head was not left.
* **`handed_in`**: every way in which the worker hands a block in. `handed_in_beside` is how operations
  leave the queue without being on the longest chain.
-/

namespace RecordChain

open ForkTree Validator

variable {economics : Economics} {difficulty : Difficulty}

/-! ## Heads that are left -/

/-- A head is left for higher nodes only. -/
theorem ForkTree.GrowsTo.head_cases {before after : ForkTree} (h : before.GrowsTo after)
    (hbefore : before.WellFormed) (hafter : after.WellFormed) {head : Nat}
    (hhead : before.head = some head) :
    ∃ top, after.head = some top
      ∧ (top = head ∨ after.heightAt head < after.heightAt top) := by
  have hlt := hbefore.head_lt head hhead
  cases htop : after.head with
  | none =>
    -- There is a node, so there is a head.
    have hempty := hafter.size_of_headless htop
    have hsize := h.size_le
    omega
  | some top =>
    refine ⟨top, rfl, ?_⟩
    have hle := hafter.le_head top htop head (Nat.lt_of_lt_of_le hlt h.size_le)
    rcases Nat.lt_trichotomy top head with hold | rfl | hnew
    · -- All nodes before the head are lower than it, and they stay so.
      have hlower := hbefore.lt_head head hhead top hold
      rw [← h.heightAt (Nat.lt_trans hold hlt), ← h.heightAt hlt] at hlower
      exact Or.inr (by omega)
    · exact Or.inl rfl
    · exact Or.inr (hafter.lt_head top htop head hnew)

namespace Chain

/-- A block that joins the tree on top of a head which was the head some time before. -/
structure Placed (before after : Chain) (head : Head) (block : Block) : Prop where
  block_eq : after.tree.block? before.size = some block
  parent_eq : after.tree.parent? before.size = some head.node
  /-- The block is the new head if the one below is still the head, and else changes nothing. -/
  head_eq : after.head? = if before.head? = some head then
    some ⟨before.size, block.hash, head.height + 1⟩ else before.head?

variable {chain : Chain} {head : Head} {block : Block}

/-- Where a block joins the tree that names a known one. -/
theorem Built.adds_of_places (h : chain.Built economics difficulty) (hplaces : chain.Places head)
    (hkind : block.kind ≠ .genesis) (hprevious : block.previous = head.hash) {place : Inserted}
    (hresult : (chain.insert block).result = .ok place) :
    chain.tree.Adds (chain.insert block).chain.tree
      ⟨block.hash, block, chain.tree.heightAt head.node + 1, some head.node, none⟩ := by
  have hsound := h.sound
  obtain ⟨parent?, hjudge⟩ := hsound.judge_of_insert_ok hresult
  have hadds := (hsound.insert_of_ok hjudge).2
  cases judged_of_judge hjudge with
  | root _ _ hgenesis => exact absurd hgenesis hkind
  | child parent _ _ _ found =>
    -- The node found is that of the head, since no other one has its hash.
    obtain ⟨below, hbelow, hhash⟩ := hsound.valid.block?_of_hash (hash_of_first? found)
    obtain ⟨top, htop, hheadHash⟩ := hplaces.exists_block
    have hnode : parent = head.node := hsound.valid.hash_inj _ _ below top hbelow htop (by
      rw [hhash, hprevious, hheadHash])
    subst hnode
    exact hadds

/-- A head that was is the head as long as its node is. -/
theorem Sound.head?_of_places (h : chain.Sound economics difficulty) (hplaces : chain.Places head)
    (hhead : chain.tree.head = some head.node) : chain.head? = some head := by
  obtain ⟨below, hbelow, hhash⟩ := hplaces.exists_block
  rw [h.head?_eq hhead hbelow, ← hhash, ← hplaces.height_eq]

/-- A block that joins on top of a head becomes the head, or it is no higher than the head for which
the one below was left. -/
theorem Built.placed_insert (h : chain.Built economics difficulty) (hplaces : chain.Places head)
    (hkind : block.kind ≠ .genesis) (hprevious : block.previous = head.hash) {place : Inserted}
    (hresult : (chain.insert block).result = .ok place) {top : Nat}
    (htop : chain.tree.head = some top)
    (hleft : top = head.node ∨ chain.tree.heightAt head.node < chain.tree.heightAt top) :
    chain.Placed (chain.insert block).chain head block := by
  have hsound := h.sound
  have hadds := h.adds_of_places hplaces hkind hprevious hresult
  refine ⟨hadds.block?_new, hadds.parent?_new, ?_⟩
  rw [head?_of_adds hsound.valid.toHeaded hadds, maxHeight, htop]
  rcases hleft with rfl | hlower
  · -- The node below is the highest one, so the new one is higher than all.
    rw [if_pos (hsound.head?_of_places hplaces htop), hplaces.height_eq]
    exact if_pos (by simp)
  · -- The new node is no higher than the head, and of two nodes of a height the first one stays.
    have hmoved : chain.head? ≠ some head := by
      intro hhead
      have hsame := (hsound.of_head? hhead).1
      rw [htop] at hsame
      rw [Option.some.inj hsame] at hlower
      exact Nat.lt_irrefl _ hlower
    rw [if_neg hmoved]
    exact if_neg (by simpa using Nat.succ_le_of_lt hlower)

end Chain

/-! ## Adding a block whose parent is there -/

theorem eq_ok_of_mapError {ε ε' α : Type} {f : ε → ε'} {result : Except ε α} {a : α}
    (h : result.mapError f = .ok a) : result = .ok a := by
  cases result with
  | error e => cases h
  | ok b => exact congrArg Except.ok (Except.ok.inj h)

/-- The call to add a block is over after its first step, if the block does not lack its parent. -/
theorem Adoption.step_start {chain : Chain} {block : Block} (peers : Peers) (limit : Nat)
    (hparent : ∀ child parent, (chain.insert block).result ≠ .error (.missingParent child parent)) :
    ((start limit block).step peers chain).1 = (chain.insert block).chain
      ∧ ((start limit block).step peers chain).2.1.result?
        = some ((chain.insert block).result.mapError .rejected) := by
  rw [start_eq_stacked]
  cases hresult : (chain.insert block).result with
  | ok place =>
    rw [step_ok_last hresult]
    exact ⟨rfl, rfl⟩
  | error e =>
    have hlacks : e.lacksParent = false := by
      cases e with
      | missingParent child parent => exact absurd hresult (hparent child parent)
      | _ => rfl
    obtain ⟨effects, -, hstep⟩ :=
      step_refused peers limit block [block] hresult hlacks (Or.inl rfl)
    rw [hstep]
    exact ⟨rfl, rfl⟩

/-! ## Handing in -/

namespace Workshop

/-- The worker takes a step. -/
def Acts (s t : Workshop) : Prop :=
  ∃ peers found, JobWorker.Finds s.replica s.worker.stage found ∧ t = s.work peers found

/-- The others act for a while. -/
def Waits (economics : Economics) (difficulty : Difficulty) : Workshop → Workshop → Prop :=
  Relation.ReflTransGen fun s t =>
    ∃ replica, s.replica.Onward economics difficulty replica ∧ t = s.yield replica

/-- A worker that is stopped, or does not search. -/
theorem Acts.of_none (s : Workshop) (peers : Peers) : s.Acts (s.work peers none) :=
  ⟨peers, none, JobWorker.finds_none _ _, rfl⟩

/-- What the worker does goes onward. -/
theorem Acts.onward {s t : Workshop} (h : s.Acts t)
    (hbuilt : s.replica.chain.Built economics difficulty) :
    s.replica.Onward economics difficulty t.replica := by
  obtain ⟨peers, found, -, rfl⟩ := h
  exact (s.works peers found).onward hbuilt

/-- While the others act the worker stays where it is. -/
theorem Waits.onward {s t : Workshop} (h : Waits economics difficulty s t)
    (hbuilt : s.replica.chain.Built economics difficulty) :
    s.replica.Onward economics difficulty t.replica ∧ t.worker = s.worker := by
  induction h with
  | refl => exact ⟨.refl hbuilt, rfl⟩
  | tail _ hstep ih =>
    obtain ⟨replica, honward, rfl⟩ := hstep
    exact ⟨ih.1.trans honward, ih.2⟩

namespace Acts

variable {s t : Workshop} {head : Head} {chosen : List Operation} {block : Block}

/-- The worker goes one of the ways of its stage. -/
theorem works {stage : JobWorker.Stage} (h : s.Acts t) (hstage : s.worker.stage = stage) :
    ∃ peers found, Works peers found s stage t := by
  obtain ⟨peers, found, -, rfl⟩ := h
  exact ⟨peers, found, hstage ▸ s.works peers found⟩

/-- A block that was mined is added only if the head is still the one that it was mined on. -/
theorem of_announcing (h : s.Acts t) (hstage : s.worker.stage = .announcing head chosen block) :
    s.replica.chain.tree.head ≠ some head.node ∧ t.worker.stage = .checking
      ∨ s.replica.chain.tree.head = some head.node
        ∧ t.worker.stage = .adding chosen (.start s.replica.config.maxFetchDepth block) := by
  obtain ⟨peers, found, hworks⟩ := h.works hstage
  cases hworks with
  | current stays => exact Or.inr ⟨stays, rfl⟩
  | stale moved => exact Or.inl ⟨moved, rfl⟩

/-- The first step of adding a block inserts it, unless its parent is missing, and settles the
answer. -/
theorem of_adding_start {limit : Nat} (h : s.Acts t)
    (hstage : s.worker.stage = .adding chosen (.start limit block)) (hparent : ∀ child parent,
      (s.replica.chain.insert block).result ≠ .error (.missingParent child parent)) :
    t.replica.chain = (s.replica.chain.insert block).chain
      ∧ ∃ call, t.worker.stage = .adding chosen call
        ∧ call.result? = some ((s.replica.chain.insert block).result.mapError .rejected) := by
  obtain ⟨peers, found, hworks⟩ := h.works hstage
  cases hworks with
  | adding =>
    obtain ⟨hchain, hresult⟩ := Adoption.step_start peers limit hparent
    exact ⟨hchain, _, rfl, hresult⟩
  | joined hended => cases hended
  | refused hended => cases hended

/-- Once the call to add the block is over, the queue is cleared only if the block was added. -/
theorem of_adding_over {call : Adoption} {result : Except AdoptionError Inserted} (h : s.Acts t)
    (hstage : s.worker.stage = .adding chosen call) (hresult : call.result? = some result) :
    t.worker.stage = .checking
      ∨ t.worker.stage = .clearing chosen ∧ ∃ place, result = .ok place := by
  obtain ⟨peers, found, hworks⟩ := h.works hstage
  cases hworks with
  | adding underway => cases underway.symm.trans hresult
  | joined hended => exact Or.inr ⟨rfl, _, Option.some.inj (hresult.symm.trans hended)⟩
  | refused => exact Or.inl rfl

end Acts

/-- **Every way in which the worker hands a block in.** Between its steps the others may insert what
they like. It finds the head moved; or the block is refused; or the block joins the tree on top of the
head that it was mined on, and its operations leave the queue next. In that case the block is the new
head if nothing has become the head after the worker had looked, and else the head stays what it is by
then. -/
theorem handed_in {s checked met joined left answered : Workshop} {head : Head}
    {chosen : List Operation} {block : Block} (h : s.Reached (.growing economics difficulty))
    (hstage : s.worker.stage = .announcing head chosen block) (hchecked : s.Acts checked)
    (hmet : Waits economics difficulty checked met) (hjoined : met.Acts joined)
    (hleft : Waits economics difficulty joined left) (hanswered : left.Acts answered) :
    s.replica.chain.head? ≠ some head ∧ checked.worker.stage = .checking
      ∨ answered.worker.stage = .checking
      ∨ answered.worker.stage = .clearing chosen ∧ block.operations = chosen
        ∧ met.replica.chain.Placed joined.replica.chain head block := by
  have hbuilt := h.built
  have hknows := h.knows
  rw [hstage] at hknows
  obtain ⟨-, hplaces, nonce, htemplate⟩ := hknows
  have hkind : block.kind ≠ .genesis := htemplate ▸ nofun
  have hprevious : block.previous = head.hash := htemplate ▸ rfl
  have hoperations : block.operations = chosen := htemplate ▸ rfl
  rcases hchecked.of_announcing hstage with ⟨hmoved, hchecking⟩ | ⟨hhead, hadding⟩
  · exact Or.inl ⟨fun hhead => hmoved (hbuilt.sound.of_head? hhead).1, hchecking⟩
  refine Or.inr ?_
  -- The head is still a node, and it can have been left for a higher one only.
  have hafter := hchecked.onward hbuilt
  obtain ⟨hwaited, hworker⟩ := hmet.onward hafter.built
  have honward := hafter.trans hwaited
  have hsound := honward.built.sound
  have hplaces := honward.places hplaces
  obtain ⟨top, htop, hmoved⟩ := honward.grows.head_cases hbuilt.sound.valid.toWellFormed
    hsound.valid.toWellFormed hhead
  -- As its hash is in the tree, the call to add the block is over after one step.
  have hparent : ∀ child parent,
      (met.replica.chain.insert block).result ≠ .error (.missingParent child parent) := by
    intro child parent hmissing
    obtain ⟨below, hbelow, hhash⟩ := hplaces.exists_block
    refine (hsound.missing_of_insert hmissing).2 ?_
    rw [hprevious, hhash]
    exact hsound.valid.hash_mem_of_block? hbelow
  obtain ⟨hinserted, call, hcall, hresult⟩ :=
    hjoined.of_adding_start ((congrArg JobWorker.stage hworker).trans hadding) hparent
  have hworker' := (hleft.onward (hjoined.onward honward.built).built).2
  rcases hanswered.of_adding_over ((congrArg JobWorker.stage hworker').trans hcall) hresult with
    hchecking | ⟨hclearing, place, hok⟩
  · exact Or.inl hchecking
  · refine Or.inr ⟨hclearing, hoperations, ?_⟩
    rw [hinserted]
    exact honward.built.placed_insert hplaces hkind hprevious (eq_ok_of_mapError hok) htop hmoved

/-! ### With and without a block in between -/

/-- What the worker is about to hand in. -/
def handsIn? (s : Workshop) : Option (Head × List Operation × Block) :=
  match s.worker.stage with
  | .announcing head chosen block => some (head, chosen, block)
  | _ => none

/-- The operations that are about to leave the queue. -/
def clears? (s : Workshop) : Option (List Operation) :=
  match s.worker.stage with
  | .clearing chosen => some chosen
  | _ => none

theorem stage_of_handsIn? {s : Workshop} {head : Head} {chosen : List Operation} {block : Block}
    (h : s.handsIn? = some (head, chosen, block)) :
    s.worker.stage = .announcing head chosen block := by
  unfold handsIn? at h
  split at h
  · next hstage =>
    obtain ⟨rfl, rfl, rfl⟩ := by simpa using h
    exact hstage
  · cases h

theorem stage_of_clears? {s : Workshop} {chosen : List Operation} (h : s.clears? = some chosen) :
    s.worker.stage = .clearing chosen := by
  unfold clears? at h
  split at h
  · next hstage => rw [hstage, Option.some.inj h]
  · cases h

/-- A replica with a single block, where a file is to be created. -/
def eager : Replica :=
  let config : Config :=
    { miner := "ann", opDifficulty := 0, noOpDifficulty := 0, opReward := 0, noOpReward := 0,
      createFee := 0, appendFee := 0, confirmsPerCreate := 0, confirmsPerAppend := 0,
      opsPerBlock := 2 }
  { Replica.new config with
    chain := .ofBlocks config.economics config.difficulty [.genesis "ann" 0]
    queue := ⟨[.create "ann" "notes"]⟩ }

/-- The worker takes a step, and if it searches for a nonce it finds this one. -/
def finding (s : Workshop) (nonce : UInt64) : Workshop :=
  s.work .none (match s.worker.stage with
    | .mining head chosen _ => some (JobWorker.template s.replica head chosen nonce)
    | _ => none)

theorem Acts.finding (s : Workshop) (nonce : UInt64) : s.Acts (s.finding nonce) := by
  refine ⟨.none, _, ?_, rfl⟩
  cases s.worker.stage with
  | mining => exact ⟨nonce, rfl⟩
  | _ => trivial

theorem Reached.acts {s t : Workshop} (h : s.Reached (.growing economics difficulty))
    (hacts : s.Acts t) : t.Reached (.growing economics difficulty) := by
  obtain ⟨peers, found, hfinds, rfl⟩ := hacts
  exact h.run (.single (.work peers hfinds))

/-- Its worker has found a block with the creation. -/
def mined : Workshop := ((start eager).alone 9).finding 0

/-- The worker has looked, and the head is still the block below. -/
def checked : Workshop := mined.work .none none

/-- The worker gets to where it has mined a block. -/
theorem reached_mined : mined.Reached (.growing ⟨0, 0, 0, 0⟩ ⟨0, 0⟩) := by
  have halone : ((start eager).alone 9).Reached (.growing ⟨0, 0, 0, 0⟩ ⟨0, 0⟩) :=
    ⟨eager, ⟨_, rfl, rfl⟩, run_alone JobWorker.finds_none _ 9⟩
  exact halone.acts (.finding _ 0)

/-- A mined block that nobody comes before is handed in, and takes its operations out of the
queue. -/
theorem handed_in_mined :
    let joined := checked.work .none none
    let answered := joined.work .none none
    ∃ head block, mined.Reached (.growing ⟨0, 0, 0, 0⟩ ⟨0, 0⟩)
      ∧ mined.worker.stage = .announcing head [.create "ann" "notes"] block
      ∧ answered.worker.stage = .clearing [.create "ann" "notes"]
      ∧ checked.replica.chain.head? = some head
      ∧ checked.replica.chain.Placed joined.replica.chain head block := by
  intro joined answered
  -- One evaluation for all, since each would mine the block anew.
  obtain ⟨hmined, hhead, hanswered⟩ :
      mined.handsIn?.map (fun handed => (some handed.1, handed.2.1))
          = some (mined.replica.chain.head?, [.create "ann" "notes"])
        ∧ checked.replica.chain.head? = mined.replica.chain.head?
        ∧ answered.clears? = some [.create "ann" "notes"] := by
    decide +kernel
  obtain ⟨⟨head, chosen, block⟩, hhands, hsame⟩ := Option.map_eq_some_iff.mp hmined
  obtain ⟨hseen, rfl⟩ := Prod.mk.inj hsame
  have hstage := stage_of_handsIn? hhands
  have hclearing := stage_of_clears? hanswered
  refine ⟨head, block, reached_mined, hstage, hclearing, hhead.trans hseen.symm, ?_⟩
  rcases handed_in reached_mined hstage (.of_none _ .none) .refl (.of_none _ .none) .refl
    (.of_none _ .none) with ⟨hmoved, -⟩ | hchecking | ⟨-, -, hplaced⟩
  · exact absurd hseen.symm hmoved
  · cases hclearing.symm.trans hchecking
  · exact hplaced

/-- Another block on top of the same one. -/
def sibling : Block := .noOp (Block.genesis "ann" 0).hash "bob" 0

/-- **Operations may leave the queue without being on the longest chain.** A block inserted after the
worker has looked stays the head, and the creation is neither on the longest chain nor queued. -/
theorem handed_in_beside :
    let met := checked.yield (checked.replica.insert sibling).1
    let joined := met.work .none none
    let answered := joined.work .none none
    let cleared := answered.work .none none
    mined.Reached (.growing ⟨0, 0, 0, 0⟩ ⟨0, 0⟩)
      ∧ mined.replica.queue.jobs = [.create "ann" "notes"]
      ∧ mined.Acts checked ∧ Waits ⟨0, 0, 0, 0⟩ ⟨0, 0⟩ checked met ∧ met.Acts joined
      ∧ joined.Acts answered
      ∧ answered.worker.stage = .clearing [.create "ann" "notes"]
      ∧ joined.replica.chain.head?.map (·.hash) = some sibling.hash
      ∧ (∀ block ∈ joined.replica.chain.longest, block.operations = [])
      ∧ cleared.replica.queue.jobs = [] := by
  intro met joined answered cleared
  obtain ⟨hqueued, hanswered, hhead, hlongest, hcleared⟩ :
      mined.replica.queue.jobs = [.create "ann" "notes"]
        ∧ answered.clears? = some [.create "ann" "notes"]
        ∧ joined.replica.chain.head?.map (·.hash) = some sibling.hash
        ∧ (∀ block ∈ joined.replica.chain.longest, block.operations = [])
        ∧ cleared.replica.queue.jobs = [] := by
    decide +kernel
  have hchecked : mined.Acts checked := .of_none _ .none
  have hinsert : checked.replica.Onward ⟨0, 0, 0, 0⟩ ⟨0, 0⟩ (checked.replica.insert sibling).1 :=
    .of_insert (reached_mined.acts hchecked).built rfl rfl
  exact ⟨reached_mined, hqueued, hchecked, .single ⟨_, hinsert, rfl⟩, .of_none _ .none,
    .of_none _ .none, stage_of_clears? hanswered, hhead, hlongest, hcleared⟩

end Workshop

end RecordChain
