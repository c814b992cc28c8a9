import RecordChain.Proofs.Adoption.Stepping

/-!
# A call to add a block while others insert

Between two steps of a call, others may insert any blocks into the same chain. Nothing that a call
knows about the chain stays true for certain, save that a hash which is in the tree stays in it. What
is known of a call must therefore rest on the blocks that it came to and on hashes in the tree alone.

* **`Trail`**: the blocks that a call comes to, whoever answered its questions.
* **`Standing`**: the calls that come about. It holds of a new call, is kept when the tree grows
  (`Standing.mono`) and by the steps of the call.
* **`Stride`**: all that one step of such a call can do (`stride_step`), and that it leads to such a
  call again (`Stride.standing`).
* **`Stride.sane`**: two exits of the loop are never taken. The stack is not empty before the call is
  over, and a block that has waited for its parent does not lack it when it is tried again.
-/

namespace RecordChain.Adoption

open ForkTree Validator

/-! ## The blocks of a call -/

/-- The blocks a call comes to, the latest first: each one is the parent of the one after it, and no
two share a hash. -/
structure Trail (limit : Nat) (block : Block) (line : List Block) : Prop where
  eq_concat : ∃ ancestors, line = ancestors ++ [block]
  isChain : line.IsChain fun ancestor below => below.previous = ancestor.hash
  length_le : line.length ≤ limit + 1
  nodup : (line.map (·.hash)).Nodup

namespace Trail

variable {limit : Nat} {block last : Block} {line earlier : List Block}

theorem start (limit : Nat) (block : Block) : Trail limit block [block] where
  eq_concat := ⟨[], rfl⟩
  isChain := .singleton block
  length_le := Nat.succ_le_succ (Nat.zero_le limit)
  nodup := List.pairwise_singleton _ _

/-- A trail goes on with an answer that is new, as long as there are questions left. -/
theorem cons (h : Trail limit block (last :: earlier)) {ancestor : Block}
    (hash_eq : ancestor.hash = last.previous)
    (new : last.previous ∉ (last :: earlier).map (·.hash)) (room : earlier.length < limit) :
    Trail limit block (ancestor :: last :: earlier) where
  eq_concat := by
    obtain ⟨ancestors, hancestors⟩ := h.eq_concat
    exact ⟨ancestor :: ancestors, by rw [hancestors, List.cons_append]⟩
  isChain := .cons_cons hash_eq.symm h.isChain
  length_le := Nat.succ_le_succ room
  nodup := by
    rw [List.map_cons, hash_eq]
    exact List.nodup_cons.mpr ⟨new, h.nodup⟩

/-- The last block of a trail is the one that the call is about. -/
theorem eq_of_last {front : List Block} {next : Block} (h : Trail limit block line)
    (line_eq : line = front ++ [next]) : next = block := by
  obtain ⟨ancestors, hancestors⟩ := h.eq_concat
  exact List.singleton_inj.mp (List.append_inj' (line_eq.symm.trans hancestors) rfl).2

/-- Each block of a trail is the parent of the one after it. -/
theorem previous_eq {front rest : List Block} {upper next : Block} (h : Trail limit block line)
    (line_eq : line = front ++ upper :: next :: rest) : next.previous = upper.hash := by
  have hchain := h.isChain
  rw [line_eq] at hchain
  exact (List.isChain_append_cons_cons.mp hchain).2.1

/-- The parents that were asked for are the blocks that came in answer. -/
theorem map_previous (h : Trail limit block line) :
    line.tail.map (·.previous) = line.dropLast.map (·.hash) := by
  have hchain := h.isChain
  clear h
  induction line with
  | nil => rfl
  | cons ancestor line ih =>
    cases line with
    | nil => rfl
    | cons below line =>
      obtain ⟨hprevious, hchain⟩ := List.isChain_cons_cons.mp hchain
      rw [List.dropLast_cons_of_ne_nil (List.cons_ne_nil _ _), List.map_cons, ← ih hchain,
        ← hprevious]
      rfl

/-- No hash is asked for twice. -/
theorem asked_nodup (h : Trail limit block line) : (line.tail.map (·.previous)).Nodup := by
  rw [h.map_previous]
  exact h.nodup.sublist ((List.dropLast_sublist line).map _)

end Trail

/-! ## The calls that come about -/

/-- The calls for a block that come about when the hashes of the tree are these. A call that goes up
again has seen the parent of its next block in the tree. -/
inductive Standing (limit : Nat) (block : Block) (hashes : List BlockHash) : Adoption → Prop
  | inserting {line front rest : List Block} {next : Block} (trail : Trail limit block line)
    (line_eq : line = front ++ next :: rest)
    (anchored : front ≠ [] → next.previous ∈ hashes) :
    Standing limit block hashes (stacked limit block line (next :: rest))
  | fetching {last : Block} {earlier : List Block} (trail : Trail limit block (last :: earlier))
    (new : last.previous ∉ (last :: earlier).map (·.hash)) (room : earlier.length < limit) :
    Standing limit block hashes (asking limit block last earlier)
  | finished {call : Adoption} {result : Except AdoptionError Inserted}
    (result_eq : call.result? = some result) (asked_nodup : call.asked.Nodup)
    (length_asked : call.asked.length ≤ limit) :
    Standing limit block hashes call

namespace Standing

variable {limit : Nat} {block : Block} {hashes : List BlockHash} {call : Adoption}

/-- A call that starts is one that comes about, whatever is in the tree. -/
theorem start (limit : Nat) (block : Block) (hashes : List BlockHash) :
    Standing limit block hashes (start limit block) := by
  rw [start_eq_stacked]
  exact .inserting (.start limit block) (List.nil_append _).symm fun h => absurd rfl h

/-- More hashes in the tree rule no call out. -/
theorem mono {hashes' : List BlockHash} (h : Standing limit block hashes call)
    (hsub : hashes ⊆ hashes') : Standing limit block hashes' call := by
  cases h with
  | inserting trail line_eq anchored =>
    exact .inserting trail line_eq fun hfront => hsub (anchored hfront)
  | fetching trail new room => exact .fetching trail new room
  | finished result_eq asked_nodup length_asked =>
    exact .finished result_eq asked_nodup length_asked

/-- Such a call has asked for no hash twice and stays within the limit. -/
theorem asked (h : Standing limit block hashes call) :
    call.asked.Nodup ∧ call.asked.length ≤ limit := by
  cases h with
  | @inserting line front rest next trail =>
    have hlength := trail.length_le
    refine ⟨trail.asked_nodup, ?_⟩
    simp only [stacked, List.length_map, List.length_tail]
    omega
  | @fetching last earlier trail new room =>
    have hnot : last.previous ∉ earlier.map (·.previous) := by
      intro hmem
      have hline : earlier.map (·.previous) = _ := trail.map_previous
      rw [hline] at hmem
      exact new (List.map_subset _ (List.dropLast_subset _) hmem)
    refine ⟨List.nodup_cons.mpr ⟨hnot, trail.asked_nodup⟩, ?_⟩
    simpa [asking] using Nat.succ_le_of_lt room
  | finished result_eq asked_nodup length_asked => exact ⟨asked_nodup, length_asked⟩

end Standing

/-! ## One step -/

/-- Whether a block is in the tree after it was tried: it has joined or was there before. -/
def Met : Except ValidationError Inserted → Prop
  | .ok _ | .error (.duplicateBlock _) => True
  | .error _ => False

/-- All that one step of a call can do: the state before it, and the chain, the call and the effects
after it. -/
inductive Stride (limit : Nat) (block : Block) (chain : Chain) :
    Adoption → Chain × Adoption × List Effect → Prop
  /-- The block that the call is about joins. -/
  | joins {line front : List Block} {place : Inserted} {effects : List Effect}
    (trail : Trail limit block line) (line_eq : line = front ++ [block])
    (result : (chain.insert block).result = .ok place)
    (traffic : Traffic effects [] [.block block]) :
    Stride limit block chain (stacked limit block line [block])
      ((chain.insert block).chain, (stacked limit block line []).finish (.ok place), effects)
  /-- An ancestor is in the tree now, and the block below it is next. -/
  | climbs {line front rest : List Block} {next below : Block} {effects : List Effect}
    (trail : Trail limit block line) (line_eq : line = front ++ next :: below :: rest)
    (met : Met (chain.insert next).result) (traffic : Traffic effects [] []) :
    Stride limit block chain (stacked limit block line (next :: below :: rest))
      ((chain.insert next).chain, stacked limit block line (below :: rest), effects)
  /-- A block lacks its parent, and the call asks for it. -/
  | asks {last : Block} {earlier : List Block} {child : BlockHash} {effects : List Effect}
    (trail : Trail limit block (last :: earlier))
    (result : (chain.insert last).result = .error (.missingParent child last.previous))
    (new : last.previous ∉ (last :: earlier).map (·.hash)) (room : earlier.length < limit)
    (traffic : Traffic effects [last.previous] []) :
    Stride limit block chain (stacked limit block (last :: earlier) (last :: earlier))
      ((chain.insert last).chain, asking limit block last earlier, effects)
  /-- A block fails for good. If it lacks its parent, it is the one that the call came to last. -/
  | fails {line front rest : List Block} {next : Block} {reason : ValidationError}
    {error : AdoptionError} {effects : List Effect}
    (trail : Trail limit block line) (line_eq : line = front ++ next :: rest)
    (result : (chain.insert next).result = .error reason)
    (first : reason.lacksParent = true → front = []) (traffic : Traffic effects [] []) :
    Stride limit block chain (stacked limit block line (next :: rest))
      ((chain.insert next).chain, (stacked limit block line rest).finish (.error error), effects)
  /-- The parent comes in answer. -/
  | fetches {last ancestor : Block} {earlier : List Block} {effects : List Effect}
    (trail : Trail limit block (ancestor :: last :: earlier)) (traffic : Traffic effects [] []) :
    Stride limit block chain (asking limit block last earlier)
      (chain, stacked limit block (ancestor :: last :: earlier) (ancestor :: last :: earlier),
        effects)
  /-- It does not. -/
  | misses {last : Block} {earlier : List Block} {error : AdoptionError} {effects : List Effect}
    (trail : Trail limit block (last :: earlier))
    (new : last.previous ∉ (last :: earlier).map (·.hash)) (room : earlier.length < limit)
    (traffic : Traffic effects [] []) :
    Stride limit block chain (asking limit block last earlier)
      (chain, (asking limit block last earlier).finish (.error error), effects)

section Step

variable {economics : Economics} {difficulty : Difficulty} {limit : Nat} {block : Block}
  {chain : Chain} {call : Adoption} {after : Chain × Adoption × List Effect}

/-- A block lacks its parent only if nothing lies above it: what lay there is in the tree. -/
theorem front_eq_nil (hsound : chain.Sound economics difficulty) {front : List Block} {next : Block}
    {reason : ValidationError} (hresult : (chain.insert next).result = .error reason)
    (anchored : front ≠ [] → next.previous ∈ chain.tree.hashes)
    (hlacks : reason.lacksParent = true) : front = [] := by
  cases reason with
  | missingParent child parent =>
    by_contra hfront
    exact (hsound.missing_of_insert hresult).2 (anchored hfront)
  | _ => cases hlacks

/-- What a call does that has a block to insert. -/
theorem stride_inserting (hsound : chain.Sound economics difficulty) (peers : Peers)
    {line front rest : List Block} {next : Block} (trail : Trail limit block line)
    (line_eq : line = front ++ next :: rest)
    (anchored : front ≠ [] → next.previous ∈ chain.tree.hashes) :
    Stride limit block chain (stacked limit block line (next :: rest))
      ((stacked limit block line (next :: rest)).step peers chain) := by
  have hinsert := traffic_insert chain next
  cases hresult : (chain.insert next).result with
  | ok place =>
    cases rest with
    | nil =>
      have hnext := trail.eq_of_last line_eq
      subst hnext
      rw [step_ok_last hresult]
      exact .joins trail line_eq hresult (hinsert.append (traffic_broadcast _))
    | cons below rest =>
      rw [step_ok_more hresult (List.cons_ne_nil _ _), List.append_nil]
      exact .climbs trail line_eq (by rw [hresult]; trivial) hinsert
  | error reason =>
    have hfirst := front_eq_nil hsound hresult anchored
    cases hlacks : reason.lacksParent with
    | true =>
      cases reason with
      | missingParent child parent =>
        obtain rfl : front = [] := hfirst hlacks
        obtain rfl : line = next :: rest := line_eq
        obtain ⟨rfl, -⟩ := hsound.missing_of_insert hresult
        have hgives := givesUp_stacked limit block next rest rest trail.nodup
        by_cases hgiven : (stacked limit block (next :: rest) rest).givesUp next.hash next.previous
        · rw [step_gaveUp hresult hgiven]
          exact .fails trail (List.nil_append _).symm hresult (fun _ => rfl)
            (hinsert.append (traffic_publish _))
        · rw [step_asks hresult hgiven]
          rw [hgives, not_or, Nat.not_le] at hgiven
          exact .asks trail hresult hgiven.1 hgiven.2 (hinsert.append (traffic_request _))
      | _ => cases hlacks
    | false =>
      -- A duplicate matters only if the call is about it.
      by_cases hpassed : rest ≠ [] ∧ ∃ hash, reason = .duplicateBlock hash
      · obtain ⟨hrest, hash, rfl⟩ := hpassed
        obtain ⟨below, rest, rfl⟩ := List.exists_cons_of_ne_nil hrest
        rw [step_duplicate_more hresult hrest, List.append_nil]
        exact .climbs trail line_eq (by rw [hresult]; trivial) hinsert
      · have hduplicate : rest = [] ∨ ∀ hash, reason ≠ .duplicateBlock hash := by
          by_contra hnot
          rw [not_or, not_forall_not] at hnot
          exact hpassed hnot
        obtain ⟨effects, htraffic, hstep⟩ :=
          step_refused peers limit block line hresult hlacks hduplicate
        rw [hstep]
        exact .fails trail line_eq hresult hfirst (hinsert.append htraffic)

/-- What a call does that has asked for a block. -/
theorem stride_fetching (chain : Chain) (peers : Peers) {last : Block} {earlier : List Block}
    (trail : Trail limit block (last :: earlier))
    (new : last.previous ∉ (last :: earlier).map (·.hash)) (room : earlier.length < limit) :
    Stride limit block chain (asking limit block last earlier)
      ((asking limit block last earlier).step peers chain) := by
  by_cases hanswer : ∃ ancestor, peers.block? (earlier.map (·.previous)) last.previous
      = some ancestor ∧ ancestor.hash = last.previous
  · obtain ⟨ancestor, hanswer, hhash⟩ := hanswer
    rw [step_answered hanswer hhash]
    exact .fetches (trail.cons hhash new room) (traffic_publish _)
  · have hnot : ∀ b, peers.block? (earlier.map (·.previous)) last.previous = some b →
        b.hash ≠ last.previous := fun b hb hhash => hanswer ⟨b, hb, hhash⟩
    rw [step_unanswered hnot]
    exact .misses trail new room ((traffic_publish _).append (traffic_publish _))

/-- **A step of a call that has come about is one of the six.** -/
theorem stride_step (hsound : chain.Sound economics difficulty) (peers : Peers)
    (hcall : call.result? = none) (h : Standing limit block chain.tree.hashes call) :
    Stride limit block chain call (call.step peers chain) := by
  cases h with
  | inserting trail line_eq anchored => exact stride_inserting hsound peers trail line_eq anchored
  | fetching trail new room => exact stride_fetching chain peers trail new room
  | finished result_eq => cases hcall.symm.trans result_eq

namespace Stride

/-- A call changes the chain by insertions only. -/
theorem chain_eq (h : Stride limit block chain call after) :
    after.1 = chain ∨ ∃ b, after.1 = (chain.insert b).chain := by
  cases h with
  | fetches | misses => exact Or.inl rfl
  | _ => exact Or.inr ⟨_, rfl⟩

/-- A stride keeps the chain sound. -/
theorem sound (h : Stride limit block chain call after)
    (hsound : chain.Sound economics difficulty) : after.1.Sound economics difficulty := by
  rcases h.chain_eq with hchain | ⟨b, hchain⟩
  · exact hchain ▸ hsound
  · exact hchain ▸ hsound.insert b

/-- No hash leaves the tree. -/
theorem hashes_subset (h : Stride limit block chain call after)
    (hsound : chain.Sound economics difficulty) : chain.tree.hashes ⊆ after.1.tree.hashes := by
  rcases h.chain_eq with hchain | ⟨b, hchain⟩
  · exact hchain ▸ List.Subset.refl _
  · exact hchain ▸ hsound.hashes_subset_insert b

/-- What is sent for is noted as asked, the latest first. -/
theorem asked_eq (h : Stride limit block chain call after) :
    after.2.1.asked = (after.2.2.filterMap (·.request?)).reverse ++ call.asked := by
  cases h with
  | joins trail line_eq result traffic => exact traffic.requests_eq ▸ rfl
  | climbs trail line_eq met traffic => exact traffic.requests_eq ▸ rfl
  | asks trail result new room traffic => exact traffic.requests_eq ▸ rfl
  | fails trail line_eq result first traffic => exact traffic.requests_eq ▸ rfl
  | fetches trail traffic => exact traffic.requests_eq ▸ rfl
  | misses trail new room traffic => exact traffic.requests_eq ▸ rfl

/-- **A step leads to a call that comes about**, in the chain that it leaves. -/
theorem standing (h : Stride limit block chain call after)
    (hsound : chain.Sound economics difficulty) :
    Standing limit block after.1.tree.hashes after.2.1 := by
  -- A call that gives up has asked what it had asked before.
  have hover : ∀ {line rest : List Block} (result : Except AdoptionError Inserted),
      Trail limit block line →
      Standing limit block after.1.tree.hashes ((stacked limit block line rest).finish result) := by
    intro line rest result trail
    have hlength := trail.length_le
    refine .finished (result?_finish _ _) trail.asked_nodup ?_
    simp only [finish, stacked, List.length_map, List.length_tail]
    omega
  cases h with
  | joins trail line_eq result traffic => exact hover _ trail
  | fails trail line_eq result first traffic => exact hover _ trail
  | @climbs line front rest next below effects trail line_eq met traffic =>
    have hline : line = (front ++ [next]) ++ below :: rest := by simp [line_eq]
    refine .inserting trail hline fun _ => ?_
    rw [trail.previous_eq line_eq]
    cases hresult : (chain.insert next).result with
    | ok place => exact (hsound.fresh_of_insert hresult).2
    | error reason =>
      rw [hresult] at met
      cases reason with
      | duplicateBlock hash =>
        exact hsound.hashes_subset_insert next (hsound.mem_hashes_of_duplicate hresult)
      | _ => cases met
  | asks trail result new room traffic => exact .fetching trail new room
  | fetches trail traffic =>
    exact .inserting trail (List.nil_append _).symm fun hfront => absurd rfl hfront
  | misses trail new room traffic =>
    have hbefore : Standing limit block chain.tree.hashes (asking limit block _ _) :=
      .fetching trail new room
    exact .finished (result?_finish _ _) hbefore.asked.1 hbefore.asked.2

end Stride

/-! ## Exits that are never taken -/

/-- Whether a call on some chain is far from the two exits of its loop that are there for safety: an
empty stack, and a block that lacks its parent after it has waited for it. -/
structure Sane (chain : Chain) (call : Adoption) : Prop where
  pending_ne_nil : call.stage = .inserting → call.pending ≠ []
  not_waiting : ∀ hash b rest child parent, call.stage = .inserting →
    call.pending = (hash, b) :: rest →
    (chain.insert b).result = .error (.missingParent child parent) → hash ∉ call.waiting

/-- Where a step is a stride, the call has taken no exit that cannot come about. -/
theorem Stride.sane (h : Stride limit block chain call after) : Sane chain call := by
  -- All that can go wrong is an insertion, of the block on top of the stack.
  have hstacked : ∀ {line front rest : List Block} {next : Block}, Trail limit block line →
      line = front ++ next :: rest →
      (∀ child parent, (chain.insert next).result = .error (.missingParent child parent) →
        front = []) →
      Sane chain (stacked limit block line (next :: rest)) := by
    intro line front rest next trail line_eq hfirst
    refine ⟨fun _ => List.cons_ne_nil _ _, ?_⟩
    intro hash b below child parent _ hpending hresult
    obtain ⟨hhead, -⟩ := List.cons.inj hpending
    obtain ⟨rfl, rfl⟩ := Prod.mk.inj hhead
    obtain rfl := hfirst child parent hresult
    obtain rfl : line = next :: rest := line_eq
    exact (List.nodup_cons.mp trail.nodup).1
  cases h with
  | joins trail line_eq result traffic =>
    exact hstacked trail line_eq fun _ _ hresult => by cases result.symm.trans hresult
  | climbs trail line_eq met traffic =>
    refine hstacked trail line_eq fun _ _ hresult => ?_
    rw [hresult] at met
    cases met
  | asks trail result new room traffic =>
    exact hstacked trail (List.nil_append _).symm fun _ _ _ => rfl
  | fails trail line_eq result first traffic =>
    refine hstacked trail line_eq fun _ _ hresult => first ?_
    rw [Except.error.inj (result.symm.trans hresult)]
    rfl
  | fetches | misses =>
    constructor
    · intro hstage
      cases hstage
    · intro hash b below child parent hstage
      cases hstage

end Step

end RecordChain.Adoption
