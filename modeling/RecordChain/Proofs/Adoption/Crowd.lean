import RecordChain.Proofs.Adoption.Interference

/-!
# Calls to add blocks side by side

Any number of calls run on one chain, each with its own limit, while others insert blocks directly.
Which of them moves next is anybody's choice, and so is what the peers answer to each question.

* **`Crowd`**: the chain, the calls, and the steps they have taken so far.
* **`Crowd.run`**: the crowd after any sequence of moves.
* **`Crowd.run_induction`**, **`Crowd.member_induction`**: what the moves keep of the whole crowd,
  and what the own steps of a call keep of that call.
* **`call_ends`**: whatever the others do and the peers answer, a call is over after a number of its
  own steps that depends on its limit only.
-/

namespace RecordChain.Adoption

/-! ## Moves -/

/-- A call among others: what it was asked to do and how far it is. -/
structure Member where
  limit : Nat
  block : Block
  call : Adoption

/-- A step that a call has taken: which call it was, the chain and the call before the step, and the
peers that were there. -/
structure Deed where
  doer : Nat
  chain : Chain
  call : Adoption
  peers : Peers

namespace Deed

def effects (deed : Deed) : List Effect := (deed.call.step deed.peers deed.chain).2.2

/-- The hashes that the step asks the peers for. -/
def requests (deed : Deed) : List BlockHash := deed.effects.filterMap (·.request?)

/-- What the step sends to the peers. -/
def messages (deed : Deed) : List Message := deed.effects.filterMap (·.broadcast?)

/-- What the step tries to insert. One pass through the loop of a call is one attempt. -/
def attempt? (deed : Deed) : Option Attempt := Adoption.attempt? deed.chain deed.call

end Deed

/-- Calls that share a chain. -/
structure Crowd where
  chain : Chain
  members : List Member
  /-- The steps of all calls so far. -/
  deeds : List Deed

/-- What can happen next. -/
inductive Move
  /-- A new call starts. -/
  | call (limit : Nat) (block : Block)
  /-- A call takes a step. The peers may be others each time. -/
  | step (doer : Nat) (peers : Peers)
  /-- Somebody inserts a block without a call. -/
  | insert (block : Block)

namespace Move

/-- Whether a call takes a step. -/
def isStepOf (id : Nat) : Move → Bool
  | step doer _ => doer = id
  | _ => false

end Move

namespace Crowd

/-- An empty chain without calls. -/
def new (economics : Economics) (difficulty : Difficulty) : Crowd :=
  ⟨.new economics difficulty, [], []⟩

/-- A call that is not over takes a step. -/
def act (crowd : Crowd) (doer : Nat) (member : Member) (peers : Peers) : Crowd :=
  let after := member.call.step peers crowd.chain
  ⟨after.1, crowd.members.set doer { member with call := after.2.1 },
    crowd.deeds ++ [⟨doer, crowd.chain, member.call, peers⟩]⟩

/-- One move. A call that does not exist or is over takes no steps. -/
def play (crowd : Crowd) : Move → Crowd
  | .call limit block =>
    { crowd with members := crowd.members ++ [⟨limit, block, .start limit block⟩] }
  | .insert block => { crowd with chain := (crowd.chain.insert block).chain }
  | .step doer peers =>
    match crowd.members[doer]? with
    | none => crowd
    | some member => if member.call.result?.isSome then crowd else crowd.act doer member peers

/-- The crowd after some moves. -/
def run (economics : Economics) (difficulty : Difficulty) (moves : List Move) : Crowd :=
  moves.foldl play (.new economics difficulty)

/-- The steps of one call. -/
def deedsOf (crowd : Crowd) (id : Nat) : List Deed := crowd.deeds.filter (·.doer = id)

variable {economics : Economics} {difficulty : Difficulty} {crowd : Crowd} {id doer : Nat}
  {member : Member} {peers : Peers}

theorem run_append (economics : Economics) (difficulty : Difficulty) (moves more : List Move) :
    run economics difficulty (moves ++ more) = more.foldl play (run economics difficulty moves) :=
  List.foldl_append

/-- A call that is not over takes a step when it is its turn. -/
theorem play_step_of_not_over (hmember : crowd.members[id]? = some member)
    (hcall : member.call.result? = none) :
    crowd.play (.step id peers) = crowd.act id member peers := by
  rw [play, hmember]
  exact if_neg (by rw [hcall]; exact Bool.false_ne_true)

/-- The call that acts takes its step, and the others stay. -/
theorem getElem?_act (hmember : crowd.members[doer]? = some member) (peers : Peers) (id : Nat) :
    (crowd.act doer member peers).members[id]?
      = if doer = id then some { member with call := (member.call.step peers crowd.chain).2.1 }
        else crowd.members[id]? := by
  have hlt := (List.getElem?_eq_some_iff.mp hmember).1
  rw [act, List.getElem?_set, if_pos hlt]

/-- A call after a new one has started is an old one or the new one. -/
theorem getElem?_call {limit : Nat} {block : Block} {other : Member}
    (h : (crowd.play (.call limit block)).members[id]? = some other) :
    crowd.members[id]? = some other
      ∨ id = crowd.members.length ∧ other = ⟨limit, block, .start limit block⟩ := by
  have h : (crowd.members ++ [⟨limit, block, .start limit block⟩])[id]? = some other := h
  rw [List.getElem?_append] at h
  split at h
  · exact Or.inl h
  · next hid =>
    obtain ⟨hlt, hother⟩ := List.getElem?_eq_some_iff.mp h
    rw [List.length_singleton] at hlt
    refine Or.inr ⟨by omega, ?_⟩
    exact List.mem_singleton.mp (hother ▸ List.getElem_mem hlt)

/-- The deeds of a call grow by what it does itself. -/
theorem deedsOf_act (crowd : Crowd) (doer : Nat) (member : Member) (peers : Peers) (id : Nat) :
    (crowd.act doer member peers).deedsOf id
      = crowd.deedsOf id
        ++ if doer = id then [⟨doer, crowd.chain, member.call, peers⟩] else [] := by
  rw [deedsOf, act, List.filter_append, List.filter_singleton]
  by_cases h : doer = id <;> simp [deedsOf, h]

/-! ## What every move keeps -/

/-- The chain is sound, every call is one that comes about, and every step is a call's. -/
structure Orderly (economics : Economics) (difficulty : Difficulty) (crowd : Crowd) : Prop where
  sound : crowd.chain.Sound economics difficulty
  standing : ∀ (id : Nat) (member : Member), crowd.members[id]? = some member →
    Standing member.limit member.block crowd.chain.tree.hashes member.call
  doer_lt : ∀ deed ∈ crowd.deeds, deed.doer < crowd.members.length

/-- In an orderly crowd every step of a call is a stride. -/
theorem Orderly.stride (h : Orderly economics difficulty crowd)
    (hmember : crowd.members[doer]? = some member) (hcall : member.call.result? = none)
    (peers : Peers) :
    Stride member.limit member.block crowd.chain member.call
      (member.call.step peers crowd.chain) :=
  stride_step h.sound peers hcall (h.standing doer member hmember)

theorem orderly_new (economics : Economics) (difficulty : Difficulty) :
    Orderly economics difficulty (.new economics difficulty) where
  sound := Chain.sound_new economics difficulty
  standing := by
    intro id member h
    cases h
  doer_lt := by
    intro deed h
    cases h

namespace Orderly

/-- A new call keeps the order. -/
theorem call (h : Orderly economics difficulty crowd) (limit : Nat) (block : Block) :
    Orderly economics difficulty (crowd.play (.call limit block)) where
  sound := h.sound
  standing := by
    intro id member hmember
    rcases getElem?_call hmember with hold | ⟨-, rfl⟩
    · exact h.standing id member hold
    · exact .start limit block _
  doer_lt := by
    intro deed hdeed
    have hlt := h.doer_lt deed hdeed
    rw [play, List.length_append]
    exact Nat.lt_add_right _ hlt

/-- A block inserted by somebody else keeps the order. -/
theorem insert (h : Orderly economics difficulty crowd) (block : Block) :
    Orderly economics difficulty (crowd.play (.insert block)) where
  sound := h.sound.insert block
  standing := fun id member hmember =>
    (h.standing id member hmember).mono (h.sound.hashes_subset_insert block)
  doer_lt := h.doer_lt

/-- A step of one of the calls keeps the order. -/
theorem act (h : Orderly economics difficulty crowd)
    (hmember : crowd.members[doer]? = some member) (hcall : member.call.result? = none)
    (peers : Peers) : Orderly economics difficulty (crowd.act doer member peers) := by
  have hstride := h.stride hmember hcall peers
  refine ⟨hstride.sound h.sound, ?_, ?_⟩
  · intro id other hother
    rw [getElem?_act hmember] at hother
    split at hother
    · obtain rfl := Option.some.inj hother
      exact hstride.standing h.sound
    -- The others only see a tree that has grown.
    · exact (h.standing id other hother).mono (hstride.hashes_subset h.sound)
  · intro deed hdeed
    have hlength : (crowd.act doer member peers).members.length = crowd.members.length :=
      List.length_set
    rw [hlength]
    rcases List.mem_append.mp hdeed with hold | hnew
    · exact h.doer_lt deed hold
    · rw [List.mem_singleton.mp hnew]
      exact (List.getElem?_eq_some_iff.mp hmember).1

end Orderly

/-- What every move keeps of an orderly crowd holds after any moves. -/
theorem run_induction {motive : Crowd → Prop} (new : motive (.new economics difficulty))
    (call : ∀ crowd limit block, Orderly economics difficulty crowd → motive crowd →
      motive (crowd.play (.call limit block)))
    (insert : ∀ crowd block, Orderly economics difficulty crowd → motive crowd →
      motive (crowd.play (.insert block)))
    (act : ∀ crowd doer member peers, Orderly economics difficulty crowd →
      crowd.members[doer]? = some member → member.call.result? = none → motive crowd →
      motive (crowd.act doer member peers))
    (moves : List Move) : motive (run economics difficulty moves) := by
  have hfold : ∀ crowd, Orderly economics difficulty crowd → motive crowd →
      motive (moves.foldl play crowd) := by
    induction moves with
    | nil => exact fun _ _ h => h
    | cons move moves ih =>
      intro crowd horderly h
      rw [List.foldl_cons]
      cases move with
      | call limit block => exact ih _ (horderly.call limit block) (call crowd limit block horderly h)
      | insert block => exact ih _ (horderly.insert block) (insert crowd block horderly h)
      | step doer peers =>
        cases hmember : crowd.members[doer]? with
        | none =>
          have hsame : crowd.play (.step doer peers) = crowd := by rw [play, hmember]
          rw [hsame]
          exact ih crowd horderly h
        | some member =>
          cases hcall : member.call.result? with
          | some result =>
            have hsame : crowd.play (.step doer peers) = crowd := by
              rw [play, hmember]
              exact if_pos (by rw [hcall]; rfl)
            rw [hsame]
            exact ih crowd horderly h
          | none =>
            rw [play_step_of_not_over hmember hcall]
            exact ih _ (horderly.act hmember hcall peers)
              (act crowd doer member peers horderly hmember hcall h)
  exact hfold _ (orderly_new economics difficulty) new

/-- However the moves are mixed, the crowd stays in order. -/
theorem orderly_run (economics : Economics) (difficulty : Difficulty) (moves : List Move) :
    Orderly economics difficulty (run economics difficulty moves) :=
  run_induction (orderly_new economics difficulty) (fun _ limit block h _ => h.call limit block)
    (fun _ block h _ => h.insert block)
    (fun _ _ _ peers h hmember hcall _ => h.act hmember hcall peers) moves

/-- What a new call starts with and each of its steps keeps holds of a call and its steps so far,
whatever the others do. -/
theorem member_induction {motive : Member → List Deed → Prop}
    (start : ∀ limit block, motive ⟨limit, block, .start limit block⟩ [])
    (step : ∀ chain member deeds doer peers,
      Stride member.limit member.block chain member.call (member.call.step peers chain) →
      motive member deeds →
      motive { member with call := (member.call.step peers chain).2.1 }
        (deeds ++ [⟨doer, chain, member.call, peers⟩]))
    (moves : List Move) : ∀ id member, (run economics difficulty moves).members[id]? = some member →
      motive member ((run economics difficulty moves).deedsOf id) := by
  refine run_induction
    (motive := fun crowd => ∀ id member, crowd.members[id]? = some member →
      motive member (crowd.deedsOf id))
    ?_ ?_ (fun _ _ _ h => h) ?_ moves
  · intro id member h
    cases h
  · intro crowd limit block horderly ih id member hmember
    rcases getElem?_call hmember with hold | ⟨hid, rfl⟩
    · exact ih id member hold
    -- A new call has not taken a step yet.
    · have hnone : (crowd.play (.call limit block)).deedsOf id = [] := by
        refine List.filter_eq_nil_iff.mpr fun deed hdeed => ?_
        have hlt := horderly.doer_lt deed hdeed
        rw [decide_eq_true_eq]
        omega
      rw [hnone]
      exact start limit block
  · intro crowd doer member peers horderly hmember hcall ih id other hother
    rw [getElem?_act hmember] at hother
    rw [deedsOf_act]
    split at hother
    · next hid =>
      subst hid
      obtain rfl := Option.some.inj hother
      rw [if_pos rfl]
      exact step crowd.chain member _ doer peers (horderly.stride hmember hcall peers)
        (ih doer member hmember)
    · next hid =>
      rw [if_neg hid, List.append_nil]
      exact ih id other hother

end Crowd

/-! ## The length of a call -/

/-- How the stack, the questions, the passes through the loop and the steps of a call go together. A
question takes one block off the stack and its answer puts two on it; every pass takes one off. -/
def Balanced (call : Adoption) (passes steps : Nat) : Prop :=
  match call.stage with
  | .inserting => passes + call.pending.length = 2 * call.asked.length + 1
      ∧ steps = passes + call.asked.length
  | .fetching .. => passes + call.pending.length + 1 = 2 * call.asked.length
      ∧ steps + 1 = passes + call.asked.length
  | .finished _ => passes ≤ 2 * call.asked.length + 1 ∧ steps ≤ passes + call.asked.length

/-- Each stride uses up one of the steps that a call has. -/
theorem Balanced.stride {limit : Nat} {block : Block} {chain : Chain} {call : Adoption}
    {after : Chain × Adoption × List Effect} {passes steps : Nat}
    (hstride : Stride limit block chain call after) (h : Balanced call passes steps) :
    Balanced after.2.1 (passes + (attempt? chain call).toList.length) (steps + 1) := by
  cases hstride <;>
    simp only [Balanced, stacked, asking, finish, stack, attempt?, List.map_cons, List.map_nil,
      List.tail_cons, List.length_cons, List.length_nil, List.length_map,
      Option.toList_some, Option.toList_none] at h ⊢ <;>
    omega

/-- A call that is not over has taken few steps. -/
theorem Balanced.steps_le {limit : Nat} {block : Block} {hashes : List BlockHash}
    {call : Adoption} {passes steps : Nat} (h : Balanced call passes steps)
    (hstanding : Standing limit block hashes call) (hcall : call.result? = none) :
    steps ≤ 3 * limit := by
  have hasked := hstanding.asked.2
  cases hstanding with
  | inserting =>
    simp only [Balanced, stacked, stack, List.map_cons, List.length_cons] at h hasked
    omega
  | fetching =>
    simp only [Balanced, asking] at h hasked
    omega
  | finished result_eq => cases hcall.symm.trans result_eq

/-- What the steps of a call add up to. -/
structure Account (member : Member) (deeds : List Deed) : Prop where
  requests_eq : deeds.flatMap (·.requests) = member.call.asked.reverse
  balanced : Balanced member.call (deeds.filterMap (·.attempt?)).length deeds.length
  sane : ∀ deed ∈ deeds, Sane deed.chain deed.call

/-- The account of a call holds with one more of its deeds. -/
theorem Account.concat {member : Member} {deeds : List Deed} {chain : Chain} {doer : Nat}
    {peers : Peers}
    (hstride : Stride member.limit member.block chain member.call (member.call.step peers chain))
    (h : Account member deeds) :
    Account { member with call := (member.call.step peers chain).2.1 }
      (deeds ++ [⟨doer, chain, member.call, peers⟩]) where
  requests_eq := by
    rw [List.flatMap_append, List.flatMap_singleton, h.requests_eq, hstride.asked_eq,
      List.reverse_append, List.reverse_reverse]
    rfl
  balanced := by
    have hattempts : [(⟨doer, chain, member.call, peers⟩ : Deed)].filterMap (·.attempt?)
        = (attempt? chain member.call).toList := by
      cases hattempt : attempt? chain member.call <;> simp [Deed.attempt?, hattempt]
    rw [List.filterMap_append, hattempts, List.length_append, List.length_append]
    exact h.balanced.stride hstride
  sane := by
    intro deed hdeed
    rcases List.mem_append.mp hdeed with hold | hnew
    · exact h.sane deed hold
    · rw [List.mem_singleton.mp hnew]
      exact hstride.sane

/-- The deeds of a call in any run add up. Induction on the moves of the call. -/
theorem account_run (economics : Economics) (difficulty : Difficulty) (moves : List Move) (id : Nat)
    (member : Member) (h : (Crowd.run economics difficulty moves).members[id]? = some member) :
    Account member ((Crowd.run economics difficulty moves).deedsOf id) := by
  refine Crowd.member_induction (motive := Account) ?_ ?_ moves id member h
  · intro limit block
    refine ⟨rfl, ⟨rfl, rfl⟩, ?_⟩
    intro deed hdeed
    cases hdeed
  · intro chain member deeds doer peers hstride h
    exact h.concat hstride

namespace Crowd

/-- Whether a call with some limit is over or has taken that many steps. -/
def Stepped (crowd : Crowd) (id limit steps : Nat) : Prop :=
  ∃ member, crowd.members[id]? = some member ∧ member.limit = limit
    ∧ (member.call.result?.isSome ∨ steps ≤ (crowd.deedsOf id).length)

/-- A move counts for a call that is not over if it is a step of this call. -/
theorem Stepped.play {crowd : Crowd} {id limit steps : Nat} (h : crowd.Stepped id limit steps)
    (move : Move) :
    (crowd.play move).Stepped id limit (steps + if move.isStepOf id then 1 else 0) := by
  obtain ⟨member, hmember, hlimit, hsteps⟩ := h
  cases move with
  | call limit' block =>
    refine ⟨member, ?_, hlimit, hsteps⟩
    exact List.getElem?_append_left (List.getElem?_eq_some_iff.mp hmember).1 ▸ hmember
  | insert block => exact ⟨member, hmember, hlimit, hsteps⟩
  | step doer peers =>
    rw [Move.isStepOf]
    by_cases hdoer : doer = id
    · subst hdoer
      rw [decide_eq_true rfl, if_pos rfl]
      cases hcall : member.call.result? with
      | some result =>
        refine ⟨member, ?_, hlimit, Or.inl (by rw [hcall]; rfl)⟩
        rw [Crowd.play, hmember]
        dsimp only
        rw [if_pos (by rw [hcall]; rfl)]
        exact hmember
      | none =>
        rw [play_step_of_not_over hmember hcall]
        have hlength : steps ≤ (crowd.deedsOf doer).length :=
          hsteps.resolve_left (by rw [hcall]; exact Bool.false_ne_true)
        refine ⟨{ member with call := (member.call.step peers crowd.chain).2.1 }, ?_, hlimit,
          Or.inr ?_⟩
        · rw [getElem?_act hmember, if_pos rfl]
        · rw [deedsOf_act, if_pos rfl, List.length_append]
          exact Nat.succ_le_succ hlength
    · rw [decide_eq_false hdoer, if_neg Bool.false_ne_true, Nat.add_zero]
      rw [Crowd.play]
      split
      · exact ⟨member, hmember, hlimit, hsteps⟩
      · next other hother =>
        split
        · exact ⟨member, hmember, hlimit, hsteps⟩
        · refine ⟨member, ?_, hlimit, ?_⟩
          · rw [getElem?_act hother, if_neg hdoer]
            exact hmember
          · rw [deedsOf_act, if_neg hdoer, List.append_nil]
            exact hsteps

/-- Any number of moves counts for a call by those that are its steps. Induction on the moves. -/
theorem Stepped.foldl {crowd : Crowd} {id limit steps : Nat} (h : crowd.Stepped id limit steps)
    (moves : List Move) :
    (moves.foldl Crowd.play crowd).Stepped id limit (steps + moves.countP (·.isStepOf id)) := by
  induction moves generalizing crowd steps with
  | nil => exact h
  | cons move moves ih =>
    rw [List.foldl_cons, List.countP_cons, Nat.add_comm (moves.countP _), ← Nat.add_assoc]
    exact ih (h.play move)

end Crowd

/-- How much a call with a limit does at most. -/
structure Bounded (limit : Nat) (deeds : List Deed) : Prop where
  length_attempts : (deeds.filterMap (·.attempt?)).length ≤ 2 * limit + 1
  length_requests : (deeds.flatMap (·.requests)).length ≤ limit
  requests_nodup : (deeds.flatMap (·.requests)).Nodup
  /-- It comes to none of the exits that are there for safety. -/
  sane : ∀ deed ∈ deeds, Sane deed.chain deed.call

/-- **A call to add a block ends, whatever the peers answer and whatever others insert meanwhile.** Up
to any moment it has gone through its loop `2 * limit + 1` times at most, has asked for `limit` hashes
at most and for none of them twice, and was never near the two exits that are there for safety. As
soon as it has had another `3 * limit + 1` turns, it is over. -/
theorem call_ends (economics : Economics) (difficulty : Difficulty) (moves : List Move) {id : Nat}
    {member : Member} (h : (Crowd.run economics difficulty moves).members[id]? = some member) :
    Bounded member.limit ((Crowd.run economics difficulty moves).deedsOf id)
      ∧ ∀ more : List Move, 3 * member.limit + 1 ≤ more.countP (·.isStepOf id) →
          ∃ last, (Crowd.run economics difficulty (moves ++ more)).members[id]? = some last
            ∧ last.call.result?.isSome := by
  have horderly := Crowd.orderly_run economics difficulty moves
  have hstanding := horderly.standing id member h
  have haccount := account_run economics difficulty moves id member h
  obtain ⟨hnodup, hlength⟩ := hstanding.asked
  refine ⟨⟨?_, ?_, ?_, haccount.sane⟩, ?_⟩
  · have hbalanced := haccount.balanced
    unfold Balanced at hbalanced
    split at hbalanced <;> omega
  · rw [haccount.requests_eq, List.length_reverse]
    exact hlength
  · rw [haccount.requests_eq]
    exact (List.reverse_perm _).nodup_iff.mpr hnodup
  · intro more hmore
    have hstart : (Crowd.run economics difficulty moves).Stepped id member.limit 0 :=
      ⟨member, h, rfl, Or.inr (Nat.zero_le _)⟩
    obtain ⟨last, hlast, hlimit, hsteps⟩ := hstart.foldl more
    rw [← Crowd.run_append] at hlast hsteps
    refine ⟨last, hlast, ?_⟩
    by_contra hover
    -- The bound on the steps of a call that is not over.
    have hcall : last.call.result? = none := by simpa using hover
    have hbound := (account_run economics difficulty (moves ++ more) id last hlast).balanced.steps_le
      ((Crowd.orderly_run economics difficulty (moves ++ more)).standing id last hlast) hcall
    have hmany := hsteps.resolve_left hover
    omega

/-- A call for a block whose parent somebody else inserts while the peers are asked for it. -/
def overtaken : List Move :=
  let root := Block.genesis "miner" 0
  let peers : Peers := ⟨fun _ hash => if hash = root.hash then some root else none, []⟩
  [.call 1 (.noOp root.hash "miner" 0), .step 0 peers, .insert root, .step 0 peers, .step 0 peers,
    .step 0 peers]

/-- A call that is overtaken is over once it has taken four more steps, whatever the others do. -/
theorem call_ends_overtaken :
    ∃ member, (Crowd.run ⟨1, 1, 0, 0⟩ ⟨0, 0⟩ overtaken).members[0]? = some member
      ∧ member.limit = 1
      ∧ Bounded 1 ((Crowd.run ⟨1, 1, 0, 0⟩ ⟨0, 0⟩ overtaken).deedsOf 0)
      ∧ ∀ more : List Move, 4 ≤ more.countP (·.isStepOf 0) →
          ∃ last, (Crowd.run ⟨1, 1, 0, 0⟩ ⟨0, 0⟩ (overtaken ++ more)).members[0]? = some last
            ∧ last.call.result?.isSome := by
  have hlimit : (Crowd.run ⟨1, 1, 0, 0⟩ ⟨0, 0⟩ overtaken).members[0]?.map (·.limit) = some 1 := by
    decide +kernel
  obtain ⟨member, hmember, hlimit⟩ := Option.map_eq_some_iff.mp hlimit
  have hends := call_ends ⟨1, 1, 0, 0⟩ ⟨0, 0⟩ overtaken hmember
  rw [hlimit] at hends
  exact ⟨member, hmember, hlimit, hends⟩

end RecordChain.Adoption
