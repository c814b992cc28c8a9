import RecordChain.Proofs.Adoption.Crowd

/-!
# What calls side by side tell the peers

However calls to add blocks get into each other's way, a replica is a modest neighbour. A block joins
the tree once, in one step of one call. If that call is about the block, the block is sent to the
peers in the same step, and if not, the block is an ancestor which came from them and is never sent.

* **`Deed.joined?`**: the block that a step has added, which is either the one that its call is about
  (`Deed.sent?`) or an ancestor (`Deed.ancestor?`).
* **`Distinct`**: no two steps add blocks of the same hash. The hash is new to the tree at the one and
  in the tree from then on.
* **`sparing_run`**: what follows for the answers and the messages of all calls.
-/

namespace RecordChain.Adoption

/-! ## Blocks that join -/

namespace Deed

/-- The block that the step has added to the tree. -/
def joined? (deed : Deed) : Option Block :=
  match deed.attempt? with
  | some (block, .ok _) => some block
  | _ => none

/-- The block added with nothing below it on the stack, which is the one that the call is about. -/
def sent? (deed : Deed) : Option Block :=
  if deed.call.pending.length = 1 then deed.joined? else none

/-- The block added while others waited for it on the stack, which has come from the peers. -/
def ancestor? (deed : Deed) : Option Block :=
  if deed.call.pending.length = 1 then none else deed.joined?

variable {deed : Deed} {block : Block}

/-- A block joins by a deed that attempts to insert it and succeeds. -/
theorem joined?_eq_some_iff :
    deed.joined? = some block ↔ ∃ place, deed.attempt? = some (block, .ok place) := by
  unfold joined?
  split
  · next other place hattempt => simp [hattempt]
  · next hnone =>
    simp only [reduceCtorEq, false_iff, not_exists]
    exact fun place hattempt => hnone block place hattempt

/-- What is sent by a deed has joined by it. -/
theorem joined?_of_sent? (h : deed.sent? = some block) : deed.joined? = some block := by
  rw [sent?] at h
  split at h
  · exact h
  · cases h

theorem joined?_of_ancestor? (h : deed.ancestor? = some block) : deed.joined? = some block := by
  rw [ancestor?] at h
  split at h
  · cases h
  · exact h

/-- An ancestor is not sent. -/
theorem sent?_of_ancestor? (h : deed.ancestor? = some block) : deed.sent? = none := by
  rw [ancestor?] at h
  split at h
  · cases h
  · next hpending => rw [sent?, if_neg hpending]

end Deed

/-- What a step attempts is what it does to the chain. -/
theorem step_of_attempt {chain : Chain} {call : Adoption} {block : Block}
    {result : Except ValidationError Inserted} (h : attempt? chain call = some (block, result))
    (peers : Peers) :
    (call.step peers chain).1 = (chain.insert block).chain
      ∧ (chain.insert block).result = result := by
  unfold attempt? at h
  split at h
  · next hash next rest hstage hpending =>
    obtain ⟨rfl, rfl⟩ := Prod.mk.inj (Option.some.inj h)
    unfold step
    rw [hstage, hpending]
    exact ⟨rfl, rfl⟩
  · cases h

/-! ## What a step sends -/

namespace Stride

variable {limit : Nat} {block : Block} {chain : Chain} {call : Adoption}
  {after : Chain × Adoption × List Effect}

theorem result?_eq_none (h : Stride limit block chain call after) : call.result? = none := by
  cases h <;> rfl

/-- A step sends the block that the call is about and answers with its place, or it does neither. -/
theorem messages_cases (h : Stride limit block chain call after) :
    (∃ place, after.2.1.result? = some (.ok place)
        ∧ attempt? chain call = some (block, .ok place) ∧ call.pending.length = 1
        ∧ after.2.2.filterMap (·.broadcast?) = [.block block])
      ∨ (∀ place, after.2.1.result? ≠ some (.ok place))
        ∧ (∀ b place, attempt? chain call = some (b, .ok place) → call.pending.length ≠ 1)
        ∧ after.2.2.filterMap (·.broadcast?) = [] := by
  cases h with
  | @joins line front place effects trail line_eq result traffic =>
    refine Or.inl ⟨place, rfl, ?_, rfl, traffic.messages_eq⟩
    rw [attempt?_stacked, result]
  | climbs trail line_eq met traffic =>
    refine Or.inr ⟨?_, ?_, traffic.messages_eq⟩
    · intro place hplace
      cases hplace
    · intro b place _ hlength
      simp [stacked, stack] at hlength
  | asks trail result new room traffic =>
    refine Or.inr ⟨?_, ?_, traffic.messages_eq⟩
    · intro place hplace
      cases hplace
    · intro b place hattempt
      rw [attempt?_stacked, result] at hattempt
      cases hattempt
  | fails trail line_eq result first traffic =>
    refine Or.inr ⟨?_, ?_, traffic.messages_eq⟩
    · intro place hplace
      cases hplace
    · intro b place hattempt
      rw [attempt?_stacked, result] at hattempt
      cases hattempt
  | fetches trail traffic =>
    refine Or.inr ⟨?_, ?_, traffic.messages_eq⟩
    · intro place hplace
      cases hplace
    · intro b place hattempt
      cases hattempt
  | misses trail new room traffic =>
    refine Or.inr ⟨?_, ?_, traffic.messages_eq⟩
    · intro place hplace
      cases hplace
    · intro b place hattempt
      cases hattempt

end Stride

/-- A step that comes about for some call. -/
def Deed.Regular (deed : Deed) : Prop :=
  ∃ limit block, Stride limit block deed.chain deed.call (deed.call.step deed.peers deed.chain)

/-- A step sends the block that it has added as the one that its call is about, and nothing else. -/
theorem Deed.Regular.messages_eq {deed : Deed} (h : deed.Regular) :
    deed.messages = deed.sent?.toList.map .block := by
  obtain ⟨limit, block, hstride⟩ := h
  rcases hstride.messages_cases with ⟨place, -, hattempt, hlength, hmessages⟩
    | ⟨-, hattempt, hmessages⟩
  · have hjoined : deed.joined? = some block := joined?_eq_some_iff.mpr ⟨place, hattempt⟩
    rw [sent?, if_pos hlength, hjoined]
    exact hmessages
  · have hsent : deed.sent? = none := by
      rw [Option.eq_none_iff_forall_ne_some]
      intro b hb
      obtain ⟨place, hplace⟩ := joined?_eq_some_iff.mp (joined?_of_sent? hb)
      rw [sent?, if_neg (hattempt b place hplace)] at hb
      cases hb
    rw [hsent]
    exact hmessages

/-! ## What a call sends -/

/-- What a call has sent if each sends its own block and only with a good answer. -/
def Member.sent (member : Member) : List Message :=
  match member.call.result? with
  | some (.ok _) => [.block member.block]
  | _ => []

/-- A call has sent its block if it has answered well, in the step that added the block. -/
structure Voice (member : Member) (deeds : List Deed) : Prop where
  messages_eq : deeds.flatMap (·.messages) = member.sent
  joined : ∀ place, member.call.result? = some (.ok place) →
    ∃ deed ∈ deeds, deed.joined? = some member.block

/-- What a call says to the others grows by what its step sends. -/
theorem Voice.concat {member : Member} {deeds : List Deed} {chain : Chain} {doer : Nat}
    {peers : Peers}
    (hstride : Stride member.limit member.block chain member.call (member.call.step peers chain))
    (h : Voice member deeds) :
    Voice { member with call := (member.call.step peers chain).2.1 }
      (deeds ++ [⟨doer, chain, member.call, peers⟩]) := by
  -- Before the step the call was not over and had sent nothing.
  have hbefore : deeds.flatMap (·.messages) = [] := by
    rw [h.messages_eq, Member.sent, hstride.result?_eq_none]
  have hmessages : (deeds ++ [(⟨doer, chain, member.call, peers⟩ : Deed)]).flatMap (·.messages)
      = (member.call.step peers chain).2.2.filterMap (·.broadcast?) := by
    rw [List.flatMap_append, hbefore, List.flatMap_singleton, List.nil_append]
    rfl
  rcases hstride.messages_cases with ⟨place, hresult, hattempt, -, hsends⟩
    | ⟨hresult, -, hsends⟩
  · refine ⟨?_, fun _ _ => ⟨_, List.mem_append_right _ List.mem_cons_self, ?_⟩⟩
    · rw [hmessages, hsends, Member.sent]
      dsimp only
      rw [hresult]
    · exact Deed.joined?_eq_some_iff.mpr ⟨place, hattempt⟩
  · refine ⟨?_, fun place hplace => absurd hplace (hresult place)⟩
    rw [hmessages, hsends, Member.sent]
    dsimp only
    split
    · next place hplace => exact absurd hplace (hresult place)
    · rfl

/-- What a call has sent in any run is told by its deeds. Induction on the moves of the call. -/
theorem voice_run (economics : Economics) (difficulty : Difficulty) (moves : List Move) (id : Nat)
    (member : Member) (h : (Crowd.run economics difficulty moves).members[id]? = some member) :
    Voice member ((Crowd.run economics difficulty moves).deedsOf id) := by
  refine Crowd.member_induction (motive := Voice) ?_ ?_ moves id member h
  · intro limit block
    refine ⟨rfl, fun place hplace => ?_⟩
    cases hplace
  · intro chain member deeds doer peers hstride h
    exact h.concat hstride

/-! ## What all calls add -/

/-- Two steps have not added blocks of the same hash. -/
def Deed.Apart (first second : Deed) : Prop :=
  ∀ a, first.joined? = some a → ∀ b, second.joined? = some b → a.hash ≠ b.hash

instance : Std.Symm Deed.Apart where
  symm _ _ hapart b hb a ha heq := hapart a ha b hb heq.symm

/-- No two steps have added blocks of the same hash. -/
structure Distinct (crowd : Crowd) : Prop where
  regular : ∀ deed ∈ crowd.deeds, deed.Regular
  apart : crowd.deeds.Pairwise Deed.Apart
  known : ∀ deed ∈ crowd.deeds, ∀ b, deed.joined? = some b → b.hash ∈ crowd.chain.tree.hashes

/-- A step of one of the calls adds no block with a hash that was added before. -/
theorem Distinct.act {economics : Economics} {difficulty : Difficulty} {crowd : Crowd} {doer : Nat}
    {member : Member} (h : Distinct crowd) (horderly : crowd.Orderly economics difficulty)
    (hmember : crowd.members[doer]? = some member) (hcall : member.call.result? = none)
    (peers : Peers) : Distinct (crowd.act doer member peers) := by
  have hstride := horderly.stride hmember hcall peers
  refine ⟨?_, List.pairwise_append.mpr ⟨h.apart, List.pairwise_singleton _ _, ?_⟩, ?_⟩
  · intro deed hdeed
    rcases List.mem_append.mp hdeed with hold | hnew
    · exact h.regular deed hold
    · rw [List.mem_singleton.mp hnew]
      exact ⟨member.limit, member.block, hstride⟩
  · intro first hfirst second hsecond a ha b hb
    rw [List.mem_singleton.mp hsecond] at hb
    obtain ⟨place, hattempt⟩ := Deed.joined?_eq_some_iff.mp hb
    have hfresh := (horderly.sound.fresh_of_insert (step_of_attempt hattempt peers).2).1
    exact fun heq => hfresh (heq ▸ h.known first hfirst a ha)
  · intro deed hdeed b hb
    rcases List.mem_append.mp hdeed with hold | hnew
    · exact hstride.hashes_subset horderly.sound (h.known deed hold b hb)
    · rw [List.mem_singleton.mp hnew] at hb
      obtain ⟨place, hattempt⟩ := Deed.joined?_eq_some_iff.mp hb
      obtain ⟨hchain, hresult⟩ := step_of_attempt hattempt peers
      have hnewChain : (crowd.act doer member peers).chain = (crowd.chain.insert b).chain := hchain
      rw [hnewChain]
      exact (horderly.sound.fresh_of_insert hresult).2

/-- However the moves are mixed, no two deeds add blocks of the same hash. -/
theorem distinct_run (economics : Economics) (difficulty : Difficulty) (moves : List Move) :
    Distinct (Crowd.run economics difficulty moves) := by
  refine Crowd.run_induction (motive := Distinct) ?_ ?_ ?_ ?_ moves
  · refine ⟨fun deed hdeed => ?_, .nil, fun deed hdeed => ?_⟩ <;> cases hdeed
  · exact fun crowd limit block _ h => ⟨h.regular, h.apart, h.known⟩
  · intro crowd block horderly h
    refine ⟨h.regular, h.apart, fun deed hdeed b hb => ?_⟩
    exact horderly.sound.hashes_subset_insert block (h.known deed hdeed b hb)
  · intro crowd doer member peers horderly hmember hcall h
    exact h.act horderly hmember hcall peers

namespace Distinct

variable {crowd : Crowd} {first second : Deed} {a b : Block}

/-- Blocks of one hash have joined by one deed. -/
theorem deed_eq (h : Distinct crowd) (hfirst : first ∈ crowd.deeds) (hsecond : second ∈ crowd.deeds)
    (ha : first.joined? = some a) (hb : second.joined? = some b) (heq : a.hash = b.hash) :
    first = second := by
  by_contra hne
  exact h.apart.forall hfirst hsecond hne a ha b hb heq

/-- All that was sent are the blocks that calls were about and have added. -/
theorem messages_eq (h : Distinct crowd) :
    crowd.deeds.flatMap (·.messages) = (crowd.deeds.filterMap (·.sent?)).map .block := by
  have hregular := h.regular
  clear h
  generalize crowd.deeds = deeds at hregular ⊢
  induction deeds with
  | nil => rfl
  | cons deed deeds ih =>
    obtain ⟨hdeed, hdeeds⟩ := List.forall_mem_cons.mp hregular
    rw [List.flatMap_cons, hdeed.messages_eq, ih hdeeds, List.filterMap_cons]
    cases deed.sent? <;> rfl

end Distinct

/-- What a replica tells its peers about blocks, at most. -/
structure Sparing (crowd : Crowd) : Prop where
  /-- One call for a hash has a good answer at most. -/
  ok_unique : ∀ (first second : Nat) (one other : Member) (place place' : Inserted),
    crowd.members[first]? = some one → crowd.members[second]? = some other →
    one.call.result? = some (.ok place) → other.call.result? = some (.ok place') →
    one.block.hash = other.block.hash → first = second
  /-- A call sends its own block once, if it has a good answer, and nothing else. -/
  messages_eq : ∀ (id : Nat) (member : Member), crowd.members[id]? = some member →
    (crowd.deedsOf id).flatMap (·.messages) = member.sent
  /-- No hash is sent twice. -/
  hashes_nodup : ∃ sent : List Block, crowd.deeds.flatMap (·.messages) = sent.map .block
    ∧ (sent.map (·.hash)).Nodup
  /-- A block that was added as an ancestor is not sent, by no call. -/
  ancestor_not_sent : ∀ deed ∈ crowd.deeds, ∀ ancestor, deed.ancestor? = some ancestor →
    ∀ sent, Message.block sent ∈ crowd.deeds.flatMap (·.messages) → sent.hash ≠ ancestor.hash

/-- **Calls to add blocks are sparing with messages**, any number of them, in any order of their steps
and whatever the peers answer. -/
theorem sparing_run (economics : Economics) (difficulty : Difficulty) (moves : List Move) :
    Sparing (Crowd.run economics difficulty moves) := by
  have hdistinct := distinct_run economics difficulty moves
  constructor
  · intro first second one other place place' hone hother hok hok' heq
    obtain ⟨deed, hdeed, hjoined⟩ :=
      (voice_run economics difficulty moves first one hone).joined place hok
    obtain ⟨deed', hdeed', hjoined'⟩ :=
      (voice_run economics difficulty moves second other hother).joined place' hok'
    rw [Crowd.deedsOf, List.mem_filter, decide_eq_true_eq] at hdeed hdeed'
    -- It is one step, and a step belongs to one call.
    have hsame := hdistinct.deed_eq hdeed.1 hdeed'.1 hjoined hjoined' heq
    rw [← hdeed.2, ← hdeed'.2, hsame]
  · intro id member hmember
    exact (voice_run economics difficulty moves id member hmember).messages_eq
  · refine ⟨_, hdistinct.messages_eq, ?_⟩
    rw [List.Nodup, List.pairwise_map, List.pairwise_filterMap]
    exact hdistinct.apart.imp fun hapart a ha b hb =>
      hapart a (Deed.joined?_of_sent? ha) b (Deed.joined?_of_sent? hb)
  · intro deed hdeed ancestor hancestor sent hsent heq
    rw [hdistinct.messages_eq, List.mem_map] at hsent
    obtain ⟨block, hblock, hsame⟩ := hsent
    obtain rfl := Message.block.inj hsame
    obtain ⟨deed', hdeed', hsent⟩ := List.mem_filterMap.mp hblock
    have hsame := hdistinct.deed_eq hdeed' hdeed (Deed.joined?_of_sent? hsent)
      (Deed.joined?_of_ancestor? hancestor) heq
    rw [hsame, Deed.sent?_of_ancestor? hancestor] at hsent
    cases hsent

end RecordChain.Adoption
