import Mathlib.Data.List.Chain
import RecordChain.Adoption
import RecordChain.Proofs.Chain.Insertion

/-!
# The steps of a call to add a block

What a call can look like between two of its steps and what each step does to it, without a word yet
about which of the steps come about.

* **`Lineage`**: the blocks that a call comes to, each one the peers' answer for the parent of the
  one before it. The latest one stands first, so a lineage reads from the ancestor down.
* **`stacked`**, **`asking`**: the call that has come to a lineage, with some of its blocks on the
  stack, and the call that waits for the next answer.
* **`attempts`**: the blocks that a call tries to insert and what became of them.
* **`run_induction`**: what every step keeps is true at the end of a call.
-/

namespace RecordChain.Adoption

/-! ## The blocks a call comes to -/

/-- The blocks a call for a block comes to when it goes from block to parent, the latest one first.
An answer is taken only if it has the hash that was asked for. -/
inductive Lineage (peers : Peers) (block : Block) : List Block → Prop
  | start : Lineage peers block [block]
  | answer {ancestor last : Block} {earlier : List Block}
    (line : Lineage peers block (last :: earlier))
    (answered : peers.block? (earlier.map (·.previous)) last.previous = some ancestor)
    (hash_eq : ancestor.hash = last.previous) :
    Lineage peers block (ancestor :: last :: earlier)

namespace Lineage

variable {peers : Peers} {block : Block} {line : List Block}

/-- A lineage ends in the block itself. -/
theorem eq_concat (h : Lineage peers block line) : ∃ ancestors, line = ancestors ++ [block] := by
  induction h with
  | start => exact ⟨[], rfl⟩
  | @answer ancestor last earlier below answered hash_eq ih =>
    obtain ⟨ancestors, hancestors⟩ := ih
    exact ⟨ancestor :: ancestors, by rw [hancestors, List.cons_append]⟩

/-- Each block names the one before it as its parent. -/
theorem isChain (h : Lineage peers block line) :
    line.IsChain fun ancestor below => below.previous = ancestor.hash := by
  induction h with
  | start => exact .singleton _
  | answer below answered hash_eq ih => exact .cons_cons hash_eq.symm ih

/-- Each block of a lineage names the one before as its parent. -/
theorem previous_eq {front rest : List Block} {joined next : Block}
    (h : Lineage peers block (front ++ joined :: next :: rest)) :
    next.previous = joined.hash :=
  (List.isChain_append_cons_cons.mp h.isChain).2.1

/-- A block with others below it is not the one that the call is about, if hashes do not repeat. -/
theorem ne_of_nodup {front rest : List Block} {next : Block}
    (h : Lineage peers block (front ++ next :: rest)) (hrest : rest ≠ [])
    (hnodup : ((front ++ next :: rest).map (·.hash)).Nodup) : next ≠ block := by
  obtain ⟨ancestors, hancestors⟩ := h.eq_concat
  have hlast : block ∈ rest := by
    have hget := congrArg List.getLast? hancestors
    rw [List.getLast?_append_cons, List.getLast?_cons_of_ne_nil hrest,
      List.getLast?_concat] at hget
    exact List.mem_of_getLast? hget
  rw [List.map_append, List.map_cons] at hnodup
  have hnot := (List.nodup_cons.mp (List.nodup_append.mp hnodup).2.1).1
  rintro rfl
  exact hnot (List.mem_map_of_mem hlast)

/-- The only block that may stand last is the block itself. -/
theorem eq_of_last {front : List Block} {next : Block}
    (h : Lineage peers block (front ++ [next])) : next = block := by
  obtain ⟨ancestors, hancestors⟩ := h.eq_concat
  exact (List.append_inj' hancestors rfl).2 |> List.singleton_inj.mp

end Lineage

/-! ## Calls that have come to a lineage -/

/-- The blocks of a stack with their hashes. -/
def stack (blocks : List Block) : List (BlockHash × Block) :=
  blocks.map fun block => (block.hash, block)

/-- The call that has come to a lineage and has `rest` of it on its stack. -/
def stacked (limit : Nat) (block : Block) (line rest : List Block) : Adoption :=
  ⟨limit, block.hash, stack rest, line.tail.map (·.hash), line.tail.map (·.previous), .inserting⟩

/-- The call that has come to a lineage and waits for the parent of its latest block. -/
def asking (limit : Nat) (block last : Block) (earlier : List Block) : Adoption :=
  ⟨limit, block.hash, stack earlier, earlier.map (·.hash), (last :: earlier).map (·.previous),
    .fetching last.hash last last.previous⟩

/-- A call starts with its block as the whole lineage. -/
theorem start_eq_stacked (limit : Nat) (block : Block) :
    start limit block = stacked limit block [block] [block] := rfl

/-! ## What the steps do -/

/-- The questions and the messages among some effects. -/
structure Traffic (effects : List Effect) (requests : List BlockHash) (messages : List Message) :
    Prop where
  requests_eq : effects.filterMap (·.request?) = requests
  messages_eq : effects.filterMap (·.broadcast?) = messages

/-- Traffic is counted one stretch after the other. -/
theorem Traffic.append {before after : List Effect} {requests requests' : List BlockHash}
    {messages messages' : List Message} (h : Traffic before requests messages)
    (h' : Traffic after requests' messages') :
    Traffic (before ++ after) (requests ++ requests') (messages ++ messages') where
  requests_eq := by rw [List.filterMap_append, h.requests_eq, h'.requests_eq]
  messages_eq := by rw [List.filterMap_append, h.messages_eq, h'.messages_eq]

theorem traffic_publish (event : Event) : Traffic [.publish event] [] [] := ⟨rfl, rfl⟩

theorem traffic_request (hash : BlockHash) : Traffic [.request hash] [hash] [] := ⟨rfl, rfl⟩

theorem traffic_broadcast (message : Message) : Traffic [.broadcast message] [] [message] :=
  ⟨rfl, rfl⟩

theorem traffic_insert (chain : Chain) (block : Block) :
    Traffic (chain.insert block).effects [] [] := by
  have h := chain.silent_insert block
  exact ⟨List.filterMap_eq_nil_iff.mpr fun effect heffect => (h effect heffect).1,
    List.filterMap_eq_nil_iff.mpr fun effect heffect => (h effect heffect).2⟩

theorem result?_finish (call : Adoption) (result : Except AdoptionError Inserted) :
    (call.finish result).result? = some result := rfl

/-- A failed check that is not about the parent ends the call. It is an answer about the block that
the call is about only if that one failed. -/
theorem refuse_eq (call : Adoption) (hash : BlockHash) (isTop : Bool) (e : ValidationError) :
    (call.refuse hash isTop e).1
        = call.finish (.error (if isTop then .rejected e else .orphaned call.top hash))
      ∧ Traffic (call.refuse hash isTop e).2 [] [] := by
  cases isTop <;> cases e <;> exact ⟨rfl, rfl, rfl⟩

/-- A call gives up on a parent that it has come by already, or once its questions are used up. -/
theorem givesUp_stacked (limit : Nat) (block last : Block) (earlier rest : List Block)
    (hnodup : ((last :: earlier).map (·.hash)).Nodup) :
    (stacked limit block (last :: earlier) rest).givesUp last.hash last.previous
      ↔ last.previous ∈ (last :: earlier).map (·.hash) ∨ limit ≤ earlier.length := by
  have hlast : last.hash ∉ earlier.map (·.hash) := (List.nodup_cons.mp hnodup).1
  unfold givesUp stacked
  rw [List.map_cons, List.mem_cons]
  simp only [List.tail_cons, List.length_map, Bool.or_eq_true, decide_eq_true_eq]
  constructor
  · rintro (((hwaits | hwaits) | hself) | hlimit)
    · exact absurd (of_decide_eq_true hwaits) hlast
    · exact Or.inl (Or.inr (of_decide_eq_true hwaits))
    · exact Or.inl (Or.inl hself)
    · exact Or.inr hlimit
  · rintro ((hself | hwaits) | hlimit)
    · exact Or.inl (Or.inr hself)
    · exact Or.inl (Or.inl (Or.inr (decide_eq_true hwaits)))
    · exact Or.inr hlimit

section Step

variable {peers : Peers} {chain : Chain} {limit : Nat} {block next last : Block}
  {line rest earlier : List Block}

/-- A step on a stack tries to insert the block on top. -/
theorem step_stacked :
    (stacked limit block line (next :: rest)).step peers chain
      = ((chain.insert next).chain,
          ((stacked limit block line (next :: rest)).inserted next.hash next (stack rest)
            (chain.insert next).result).1,
          (chain.insert next).effects
            ++ ((stacked limit block line (next :: rest)).inserted next.hash next (stack rest)
                (chain.insert next).result).2) := rfl

/-- When the last block is inserted the call is over, and the block is broadcast. -/
theorem step_ok_last {place : Inserted} (hresult : (chain.insert next).result = .ok place) :
    (stacked limit block line [next]).step peers chain
      = ((chain.insert next).chain, (stacked limit block line []).finish (.ok place),
          (chain.insert next).effects ++ [.broadcast (.block next)]) := by
  rw [step_stacked, hresult]
  rfl

/-- When another one is inserted the next of the lineage comes up. -/
theorem step_ok_more {place : Inserted} (hresult : (chain.insert next).result = .ok place)
    (hrest : rest ≠ []) :
    (stacked limit block line (next :: rest)).step peers chain
      = ((chain.insert next).chain, stacked limit block line rest,
          (chain.insert next).effects ++ []) := by
  obtain ⟨below, rest, rfl⟩ := List.exists_cons_of_ne_nil hrest
  rw [step_stacked, hresult]
  rfl

/-- An ancestor that is there already is as good as one that joins. -/
theorem step_duplicate_more {hash : BlockHash}
    (hresult : (chain.insert next).result = .error (.duplicateBlock hash)) (hrest : rest ≠ []) :
    (stacked limit block line (next :: rest)).step peers chain
      = ((chain.insert next).chain, stacked limit block line rest,
          (chain.insert next).effects ++ []) := by
  obtain ⟨below, rest, rfl⟩ := List.exists_cons_of_ne_nil hrest
  rw [step_stacked, hresult]
  rfl

variable (peers limit block line) in
/-- A block fails for another reason than its parent. That it is there already matters only if the
call is about it. -/
theorem step_refused {e : ValidationError} (hresult : (chain.insert next).result = .error e)
    (hparent : e.lacksParent = false) (hduplicate : rest = [] ∨ ∀ b, e ≠ .duplicateBlock b) :
    ∃ effects, Traffic effects [] [] ∧
      (stacked limit block line (next :: rest)).step peers chain
        = ((chain.insert next).chain,
            (stacked limit block line rest).finish
              (.error (if rest.isEmpty then .rejected e else .orphaned block.hash next.hash)),
            (chain.insert next).effects ++ effects) := by
  have hinserted : (stacked limit block line (next :: rest)).inserted next.hash next (stack rest)
      (.error e) = (stacked limit block line rest).refuse next.hash rest.isEmpty e := by
    rw [← List.isEmpty_map (f := fun b : Block => (b.hash, b))]
    cases e with
    | missingParent child parent => cases hparent
    | duplicateBlock b =>
      rcases hduplicate with rfl | hduplicate
      · rfl
      · exact absurd rfl (hduplicate b)
    | _ => rfl
  obtain ⟨hcall, htraffic⟩ :=
    refuse_eq (stacked limit block line rest) next.hash rest.isEmpty e
  refine ⟨_, htraffic, ?_⟩
  rw [step_stacked, hresult, hinserted, hcall]
  rfl

/-- A missing parent is asked for, unless the call gives up. -/
theorem inserted_missingParent (child : BlockHash) :
    (stacked limit block (last :: earlier) (last :: earlier)).inserted last.hash last
        (stack earlier) (.error (.missingParent child last.previous))
      = if (stacked limit block (last :: earlier) earlier).givesUp last.hash last.previous then
          (stacked limit block (last :: earlier) earlier).orphan last.previous
        else (asking limit block last earlier, [.request last.previous]) := rfl

/-- A call that gives up answers and reports that the block is an orphan. -/
theorem step_gaveUp {child : BlockHash}
    (hresult : (chain.insert last).result = .error (.missingParent child last.previous))
    (hgives : (stacked limit block (last :: earlier) earlier).givesUp last.hash last.previous) :
    (stacked limit block (last :: earlier) (last :: earlier)).step peers chain
      = ((chain.insert last).chain,
          (stacked limit block (last :: earlier) earlier).finish
            (.error (.orphaned block.hash last.previous)),
          (chain.insert last).effects
            ++ [.publish (.orphanBlock block.hash last.previous)]) := by
  rw [step_stacked, hresult, inserted_missingParent, if_pos hgives]
  rfl

/-- A call that does not give up sends a request for the parent. -/
theorem step_asks {child : BlockHash}
    (hresult : (chain.insert last).result = .error (.missingParent child last.previous))
    (hgives : ¬ (stacked limit block (last :: earlier) earlier).givesUp last.hash
      last.previous) :
    (stacked limit block (last :: earlier) (last :: earlier)).step peers chain
      = ((chain.insert last).chain, asking limit block last earlier,
          (chain.insert last).effects ++ [.request last.previous]) := by
  rw [step_stacked, hresult, inserted_missingParent, if_neg hgives]

/-- A call that has asked takes the answer next. -/
theorem step_asking :
    (asking limit block last earlier).step peers chain
      = (chain,
          ((asking limit block last earlier).answered last.hash last last.previous
            (peers.block? (earlier.map (·.previous)) last.previous)).1,
          ((asking limit block last earlier).answered last.hash last last.previous
            (peers.block? (earlier.map (·.previous)) last.previous)).2) := rfl

/-- The right answer goes on top of the stack. -/
theorem step_answered {ancestor : Block}
    (hanswer : peers.block? (earlier.map (·.previous)) last.previous = some ancestor)
    (hhash : ancestor.hash = last.previous) :
    (asking limit block last earlier).step peers chain
      = (chain, stacked limit block (ancestor :: last :: earlier) (ancestor :: last :: earlier),
          [.publish (.fetchBlock last.previous true)]) := by
  rw [step_asking, hanswer, answered, Option.filter_some, decide_eq_true hhash]
  -- The stack holds the hash that was asked for, which is that of the answer.
  rw [stacked, stack, List.map_cons, hhash]
  rfl

/-- No answer is as good as one with another hash. -/
theorem step_unanswered
    (hanswer : ∀ b, peers.block? (earlier.map (·.previous)) last.previous = some b →
      b.hash ≠ last.previous) :
    (asking limit block last earlier).step peers chain
      = (chain,
          (asking limit block last earlier).finish (.error (.orphaned block.hash last.previous)),
          [.publish (.fetchBlock last.previous false),
            .publish (.orphanBlock block.hash last.previous)]) := by
  have hfilter : (peers.block? (earlier.map (·.previous)) last.previous).filter
      (·.hash = last.previous) = none := by
    rw [Option.filter_eq_none_iff]
    intro b hb
    simpa using hanswer b hb
  rw [step_asking, answered, hfilter]
  rfl

end Step

/-! ## Whole calls -/

/-- A block that a call tried to insert, and what became of it. -/
abbrev Attempt := Block × Except ValidationError Inserted

/-- What the next step of a call tries to insert. -/
def attempt? (chain : Chain) (call : Adoption) : Option Attempt :=
  match call.stage, call.pending with
  | .inserting, (_, block) :: _ => some (block, (chain.insert block).result)
  | _, _ => none

/-- What a call on a stack tries is the block on top. -/
theorem attempt?_stacked (chain : Chain) (limit : Nat) (block : Block) (line : List Block)
    (next : Block) (rest : List Block) :
    attempt? chain (stacked limit block line (next :: rest))
      = some (next, (chain.insert next).result) := rfl

/-- What a call tries to insert from here to its end, in this order. -/
def attempts (peers : Peers) (chain : Chain) (call : Adoption) : List Attempt :=
  match _hcall : call.result? with
  | some _ => []
  | none =>
    let next := call.step peers chain
    (attempt? chain call).toList ++ attempts peers next.1 next.2.1
termination_by call.budget
decreasing_by exact budget_step_lt _hcall

section Run

variable {peers : Peers} {chain : Chain} {call : Adoption} {effects : List Effect}

theorem run_of_over {result : Except AdoptionError Inserted} (h : call.result? = some result) :
    call.run peers chain effects = ⟨chain, result, effects⟩ := by
  rw [run]
  split
  · next hsome => rw [Option.some.inj (hsome.symm.trans h)]
  · next hnone => cases hnone.symm.trans h

/-- A call that is not over takes a step and goes on. -/
theorem run_of_not_over (h : call.result? = none) :
    call.run peers chain effects
      = (call.step peers chain).2.1.run peers (call.step peers chain).1
          (effects ++ (call.step peers chain).2.2) := by
  rw [run]
  split
  · next hsome => cases hsome.symm.trans h
  · rfl

/-- A block that can be inserted at once joins without any question. -/
theorem adopt_of_ok {limit : Nat} {block : Block} {place : Inserted}
    (hresult : (chain.insert block).result = .ok place) :
    chain.adopt peers limit block
      = ⟨(chain.insert block).chain, .ok place,
          (chain.insert block).effects ++ [.broadcast (.block block)]⟩ := by
  have hstart : (start limit block).result? = none := rfl
  rw [Chain.adopt, run_of_not_over hstart, start_eq_stacked, step_ok_last hresult,
    run_of_over (result?_finish _ _), List.nil_append]

theorem attempts_of_over {result : Except AdoptionError Inserted}
    (h : call.result? = some result) : call.attempts peers chain = [] := by
  rw [attempts]
  split
  · rfl
  · next hnone => cases hnone.symm.trans h

/-- A call that is not over makes the attempt of its step, if there is one, and those that
follow. -/
theorem attempts_of_not_over (h : call.result? = none) :
    call.attempts peers chain = (attempt? chain call).toList
      ++ (call.step peers chain).2.1.attempts peers (call.step peers chain).1 := by
  rw [attempts]
  split
  · next hsome => cases hsome.symm.trans h
  · rfl

end Run

/-- What holds of a call and is kept by each of its steps holds of its outcome. The property may
speak of the effects and of the attempts so far. -/
theorem run_induction {peers : Peers}
    {motive : Chain → Adoption → List Effect → List Attempt → Prop}
    (step : ∀ chain call effects tried, call.result? = none → motive chain call effects tried →
      motive (call.step peers chain).1 (call.step peers chain).2.1
        (effects ++ (call.step peers chain).2.2) (tried ++ (attempt? chain call).toList))
    (chain : Chain) (call : Adoption) (effects : List Effect) (tried : List Attempt)
    (h : motive chain call effects tried) :
    ∃ last : Adoption, last.result? = some (call.run peers chain effects).result
      ∧ motive (call.run peers chain effects).chain last (call.run peers chain effects).effects
          (tried ++ call.attempts peers chain) := by
  cases hcall : call.result? with
  | some result =>
    rw [run_of_over hcall, attempts_of_over hcall, List.append_nil]
    exact ⟨call, hcall, h⟩
  | none =>
    rw [run_of_not_over hcall, attempts_of_not_over hcall, ← List.append_assoc]
    exact run_induction step _ _ _ _ (step chain call effects tried hcall h)
  termination_by call.budget
  decreasing_by exact budget_step_lt hcall

end RecordChain.Adoption
