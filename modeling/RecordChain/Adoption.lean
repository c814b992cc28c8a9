import RecordChain.Chain

/-!
# Adding a block with its ancestors

A block can join the tree only after the block it extends, and blocks from peers often come first.
So when a block lacks its parent, the peers are asked for the parent, the parent is inserted, and
then the block is tried again; the parent may in turn lack its own parent, and so on. Blocks that
wait for an ancestor lie on a stack with the latest ancestor on top.

Peers may answer anything. An answer counts only if its hash is the one asked for, a call asks for
at most `limit` ancestors, and it gives up on a block that is still without parent after a retry and
on an ancestor that is waiting already.

The block that the call is about is sent to the peers once it has joined. The ancestors are not,
since they came from there.

An `Adoption` is one such call, stopped between two of its steps. A step either inserts the block on
top of the stack or takes the answer to a question, so others may change the chain in between.
-/

namespace RecordChain

/-- What the peers have. -/
structure Peers where
  /-- The answer to a question for a block. It may depend on what the same call asked before, the
  latest first. -/
  block? : List BlockHash → BlockHash → Option Block
  /-- The first blocks they know of. -/
  roots : List Block

/-- Peers that have nothing. -/
def Peers.none : Peers := ⟨fun _ _ => .none, []⟩

namespace Adoption

/-- What a call does next. -/
inductive Stage
  /-- It inserts the block on top of the stack. -/
  | inserting
  /-- It takes the answer for the parent of a block that is off the stack for now. -/
  | fetching (hash : BlockHash) (block : Block) (parent : BlockHash)
  /-- It is over. -/
  | finished (result : Except AdoptionError Inserted)

end Adoption

/-- A call to add a block, between two of its steps. -/
structure Adoption where
  /-- The most ancestors that may be asked for. -/
  limit : Nat
  /-- The hash of the block that the call is about. -/
  top : BlockHash
  /-- The blocks to insert, the next one first and the one that the call is about last. -/
  pending : List (BlockHash × Block)
  /-- The blocks that have waited for their parent. -/
  waiting : List BlockHash
  /-- The hashes asked of the peers, the latest first. -/
  asked : List BlockHash
  stage : Adoption.Stage

namespace Adoption

/-- The start of a call. -/
def start (limit : Nat) (block : Block) : Adoption :=
  let hash := block.hash
  ⟨limit, hash, [(hash, block)], [], [], .inserting⟩

/-- Ends a call. -/
def finish (call : Adoption) (result : Except AdoptionError Inserted) : Adoption :=
  { call with stage := .finished result }

/-- Ends a call for want of an ancestor. -/
def orphan (call : Adoption) (missing : BlockHash) : Adoption × List Effect :=
  (call.finish (.error (.orphaned call.top missing)), [.publish (.orphanBlock call.top missing)])

/-- Whether the call must not ask for the parent of a block: the block was tried again already, the
parent waits itself or is the block, or too many questions were asked. -/
def givesUp (call : Adoption) (hash parent : BlockHash) : Bool :=
  hash ∈ call.waiting || parent ∈ call.waiting || parent = hash || call.limit ≤ call.asked.length

/-- Takes note of a check that a block failed for another reason than its parent. -/
def refuse (call : Adoption) (hash : BlockHash) (isTop : Bool) (e : ValidationError) :
    Adoption × List Effect :=
  let report : List Effect :=
    match e with
    | .duplicateBlock _ => []
    | e => [.publish (.rejectBlock hash e)]
  if isTop then (call.finish (.error (.rejected e)), report)
  else
    let (call, effects) := call.orphan hash
    (call, report ++ effects)

/-- Takes note of what became of the block that was on top of the stack. `rest` is the stack below
it. A parent that somebody else has inserted meanwhile is as good as inserted. -/
def inserted (call : Adoption) (hash : BlockHash) (block : Block) (rest : List (BlockHash × Block))
    (outcome : Except ValidationError Inserted) : Adoption × List Effect :=
  let call := { call with pending := rest }
  match outcome with
  | .ok place =>
    if rest.isEmpty then (call.finish (.ok place), [.broadcast (.block block)]) else (call, [])
  | .error (.missingParent _ parent) =>
    if call.givesUp hash parent then call.orphan parent
    else
      ({ call with asked := parent :: call.asked, stage := .fetching hash block parent },
        [.request parent])
  | .error (.duplicateBlock b) =>
    if rest.isEmpty then call.refuse hash true (.duplicateBlock b) else (call, [])
  | .error e => call.refuse hash rest.isEmpty e

/-- Takes the peers' answer for the parent of a block. Only a block with the right hash counts. -/
def answered (call : Adoption) (hash : BlockHash) (block : Block) (parent : BlockHash)
    (answer : Option Block) : Adoption × List Effect :=
  match answer.filter (·.hash = parent) with
  | some ancestor =>
    ({ call with
        pending := (parent, ancestor) :: (hash, block) :: call.pending
        waiting := hash :: call.waiting
        stage := .inserting },
      [.publish (.fetchBlock parent true)])
  | none =>
    let (call, effects) := call.orphan parent
    (call, .publish (.fetchBlock parent false) :: effects)

/-- One step of a call on the chain as it is at that moment. -/
def step (peers : Peers) (chain : Chain) (call : Adoption) : Chain × Adoption × List Effect :=
  match call.stage with
  | .finished _ => (chain, call, [])
  | .fetching hash block parent =>
    let (call, effects) := call.answered hash block parent (peers.block? call.asked.tail parent)
    (chain, call, effects)
  | .inserting =>
    match call.pending with
    | [] =>
      -- Does not come about: the block that the call is about stays on the stack until it joins.
      let (call, effects) := call.orphan call.top
      (chain, call, effects)
    | (hash, block) :: rest =>
      let insertion := chain.insert block
      let (call, effects) := call.inserted hash block rest insertion.result
      (insertion.chain, call, insertion.effects ++ effects)

/-! ## Calls come to an end -/

/-- A bound on the steps that a call still takes. A question takes one step and puts two blocks on
the stack for the one it took off; as the questions are limited, the bound goes down. -/
def budget (call : Adoption) : Nat :=
  match call.stage with
  | .finished _ => 0
  | .inserting => 3 * (call.limit - call.asked.length) + call.pending.length + 1
  | .fetching .. => 3 * (call.limit - call.asked.length) + call.pending.length + 4

/-- What a call that is over has answered. -/
def result? (call : Adoption) : Option (Except AdoptionError Inserted) :=
  match call.stage with
  | .finished result => some result
  | _ => none

theorem budget_finish (call : Adoption) (result : Except AdoptionError Inserted) :
    (call.finish result).budget = 0 := rfl

theorem budget_orphan (call : Adoption) (missing : BlockHash) :
    (call.orphan missing).1.budget = 0 := rfl

theorem budget_refuse (call : Adoption) (hash : BlockHash) (isTop : Bool) (e : ValidationError) :
    (call.refuse hash isTop e).1.budget = 0 := by
  unfold refuse
  cases isTop <;> rfl

theorem budget_pos {call : Adoption} (h : call.result? = none) : 0 < call.budget := by
  unfold result? at h
  unfold budget
  cases hs : call.stage <;> simp_all

theorem budget_inserted_lt {call : Adoption} {hash : BlockHash} {block : Block}
    {rest : List (BlockHash × Block)} {outcome : Except ValidationError Inserted}
    (hstage : call.stage = .inserting) (hpending : call.pending = (hash, block) :: rest) :
    (call.inserted hash block rest outcome).1.budget < call.budget := by
  have hbudget : call.budget
      = 3 * (call.limit - call.asked.length) + rest.length + 2 := by
    simp [budget, hstage, hpending]
    omega
  -- Taking a block off the stack for good.
  have hpop : ({ call with pending := rest } : Adoption).budget < call.budget := by
    rw [hbudget]
    simp [budget, hstage]
  have hzero : 0 < call.budget := by omega
  unfold inserted
  dsimp only
  split
  · split
    · simpa [budget_finish] using hzero
    · exact hpop
  · split
    · simpa [budget_orphan] using hzero
    · next hgives =>
      -- Taking it off for a question costs one of the questions that are left.
      have hroom : call.asked.length < call.limit := by
        simp only [givesUp, Bool.or_eq_true, decide_eq_true_eq, not_or] at hgives
        omega
      rw [hbudget]
      simp only [budget, List.length_cons]
      omega
  · split
    · simpa [budget_refuse] using hzero
    · exact hpop
  · simpa [budget_refuse] using hzero

theorem budget_answered_lt {call : Adoption} {hash : BlockHash} {block : Block}
    {parent : BlockHash} {answer : Option Block}
    (hstage : call.stage = .fetching hash block parent) :
    (call.answered hash block parent answer).1.budget < call.budget := by
  have hbudget : call.budget
      = 3 * (call.limit - call.asked.length) + call.pending.length + 4 := by
    simp [budget, hstage]
  unfold answered
  split
  · rw [hbudget]
    simp only [budget, List.length_cons]
    omega
  · simp only [budget_orphan]
    omega

/-- Every step of a call that is not over lowers its budget. -/
theorem budget_step_lt {peers : Peers} {chain : Chain} {call : Adoption}
    (h : call.result? = none) : (call.step peers chain).2.1.budget < call.budget := by
  unfold step
  split
  · next result hstage => simp [result?, hstage] at h
  · next hash block parent hstage => exact budget_answered_lt hstage
  · next hstage =>
    split
    · simpa [budget_orphan] using budget_pos h
    · next hash block rest hpending => exact budget_inserted_lt hstage hpending

/-! ## A call on its own -/

/-- What a whole call leaves. -/
structure Outcome where
  chain : Chain
  result : Except AdoptionError Inserted
  effects : List Effect

/-- Runs a call to its end with nobody acting in between. `effects` are those before. -/
def run (peers : Peers) (chain : Chain) (effects : List Effect) (call : Adoption) : Outcome :=
  match _hcall : call.result? with
  | some result => ⟨chain, result, effects⟩
  | none =>
    let next := call.step peers chain
    run peers next.1 (effects ++ next.2.2) next.2.1
termination_by call.budget
decreasing_by exact budget_step_lt _hcall

end Adoption

/-- Adds a block to the chain, with those of its ancestors that are missing. -/
def Chain.adopt (chain : Chain) (peers : Peers) (limit : Nat) (block : Block) : Adoption.Outcome :=
  (Adoption.start limit block).run peers chain []

end RecordChain
