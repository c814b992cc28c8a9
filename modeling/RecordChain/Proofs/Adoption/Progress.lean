import RecordChain.Proofs.Adoption.Stepping

/-!
# What a call to add a block keeps true

A call goes down from a block to its ancestors and then up again. On the way down it adds nothing and
every block but the latest has been refused for want of its parent. On the way up the parent of the
next block has just joined, so nothing is ever asked again.

* **`Descent`**: what is known of the blocks a call has come to.
* **`Ascent`**: what is known of the chain once the first of them have been added.
* **`Ending`**: the five ways a call ends, with the answer, the questions and the messages.
* **`Progress`**: the invariant, with one case for each stage. Every step keeps it
  (`Progress.step`), so every call ends in one of the five ways (`ended_adopt`).
-/

namespace RecordChain.Adoption

open ForkTree Validator

/-- What a call starts from: the rules and the tree, the peers, and what it is asked to do. -/
structure Setting where
  economics : Economics
  difficulty : Difficulty
  before : ForkTree
  peers : Peers
  limit : Nat
  block : Block

/-- What is known of the blocks a call has come to. All but the latest lack their parent in the tree
that the call started from. -/
structure Descent (s : Setting) (line : List Block) : Prop where
  lineage : Lineage s.peers s.block line
  length_le : line.length ≤ s.limit + 1
  nodup : (line.map (·.hash)).Nodup
  missing : ∀ b ∈ line.tail,
    judge s.economics s.difficulty s.before b = .error (.missingParent b.hash b.previous)

/-- What is known of the chain after some of the blocks were added to it, in this order. -/
structure Ascent (s : Setting) (chain : Chain) (added : List Block) : Prop where
  sound : chain.Sound s.economics s.difficulty
  grows : s.before.GrowsTo chain.tree
  allBlocks_eq : chain.tree.allBlocks = s.before.allBlocks ++ added
  tree_eq : added = [] → chain.tree = s.before
  fresh : ∀ b ∈ added, b.hash ∉ s.before.hashes
  anchored : ∀ first ∈ added.head?,
    first.kind = .genesis ∨ first.previous ∈ s.before.hashes

/-- The hashes a call asks for when it comes to a lineage. -/
def questions (line : List Block) : List BlockHash := (line.tail.map (·.previous)).reverse

/-- The ways a call ends that has come to a lineage, in the chain it leaves and after what it tried.
`added` are the blocks that joined, `rest` those that did not. -/
inductive Ending (s : Setting) (chain : Chain) (tried : List Attempt) (line added : List Block) :
    (rest : List Block) → Except AdoptionError Inserted → List BlockHash → List Message → Prop
  | joined (place : Inserted) (hash_eq : place.hash = s.block.hash)
    (height_eq : chain.height? s.block.hash = some place.height) :
    Ending s chain tried line added [] (.ok place) (questions line) [.block s.block]
  /-- The block itself failed a check. -/
  | rejected (e : ValidationError) (last : (s.block, .error e) ∈ tried)
    (judged : judge s.economics s.difficulty chain.tree s.block = .error e)
    (parent : e.lacksParent = false) :
    Ending s chain tried line added [s.block] (.error (.rejected e)) (questions line) []
  /-- One of its ancestors did. -/
  | barred (next : Block) (rest : List Block) (e : ValidationError) (more : rest ≠ [])
    (last : (next, .error e) ∈ tried)
    (judged : judge s.economics s.difficulty chain.tree next = .error e)
    (fresh : next.hash ∉ chain.tree.hashes) (parent : e.lacksParent = false) :
    Ending s chain tried line added (next :: rest)
      (.error (.orphaned s.block.hash next.hash)) (questions line) []
  /-- A parent is not to be asked for. -/
  | gaveUp (last : Block) (earlier : List Block) (untouched : added = [])
    (judged : judge s.economics s.difficulty s.before last
      = .error (.missingParent last.hash last.previous))
    (reason : last.previous ∈ (last :: earlier).map (·.hash) ∨ s.limit ≤ earlier.length) :
    Ending s chain tried line added (last :: earlier)
      (.error (.orphaned s.block.hash last.previous)) (questions line) []
  /-- A parent is not to be had. -/
  | unanswered (last : Block) (earlier : List Block) (untouched : added = [])
    (judged : judge s.economics s.difficulty s.before last
      = .error (.missingParent last.hash last.previous))
    (reason : ∀ b, s.peers.block? (earlier.map (·.previous)) last.previous = some b →
      b.hash ≠ last.previous) :
    Ending s chain tried line added (last :: earlier)
      (.error (.orphaned s.block.hash last.previous)) (questions line ++ [last.previous]) []

/-- The block that the call is about has failed for want of its parent only, or the call has answered
with its failure. -/
def Heeds (s : Setting) (call : Adoption) (tried : List Attempt) : Prop :=
  ∀ e, (s.block, .error e) ∈ tried →
    e.lacksParent = true ∨ call.result? = some (.error (.rejected e))

/-- How far a call has come. -/
inductive Progress (s : Setting) : Chain → Adoption → List Effect → List Attempt → Prop
  | inserting {chain : Chain} {line added : List Block} {next : Block} {rest : List Block}
    {effects : List Effect} {tried : List Attempt}
    (descent : Descent s line) (ascent : Ascent s chain added)
    (line_eq : line = added ++ next :: rest)
    (heeds : Heeds s (stacked s.limit s.block line (next :: rest)) tried)
    (traffic : Traffic effects (questions line) []) :
    Progress s chain (stacked s.limit s.block line (next :: rest)) effects tried
  | fetching {chain : Chain} {last : Block} {earlier : List Block} {effects : List Effect}
    {tried : List Attempt}
    (descent : Descent s (last :: earlier)) (ascent : Ascent s chain [])
    (judged : judge s.economics s.difficulty s.before last
      = .error (.missingParent last.hash last.previous))
    (new : last.previous ∉ (last :: earlier).map (·.hash)) (room : earlier.length < s.limit)
    (heeds : Heeds s (asking s.limit s.block last earlier) tried)
    (traffic : Traffic effects (questions (last :: earlier) ++ [last.previous]) []) :
    Progress s chain (asking s.limit s.block last earlier) effects tried
  | finished {chain : Chain} {call : Adoption} {line added rest : List Block}
    {effects : List Effect} {tried : List Attempt} {result : Except AdoptionError Inserted}
    {requests : List BlockHash} {messages : List Message}
    (result_eq : call.result? = some result)
    (descent : Descent s line) (ascent : Ascent s chain added)
    (line_eq : line = added ++ rest)
    (ending : Ending s chain tried line added rest result requests messages)
    (heeds : Heeds s call tried) (traffic : Traffic effects requests messages) :
    Progress s chain call effects tried

section

variable {s : Setting} {chain : Chain} {line added rest : List Block} {next : Block}

/-! ## What follows from the parts -/

/-- What a call has come to above its block was not in the tree, is no first block and lacks its
parent. -/
theorem Descent.of_mem_tail (h : Descent s line) {b : Block} (hb : b ∈ line.tail) :
    b.hash ∉ s.before.hashes ∧ b.kind ≠ .genesis ∧ b.previous ∉ s.before.hashes := by
  obtain ⟨-, -, hfresh, hkind, hmissing⟩ := missingParent_of_judge (h.missing b hb)
  exact ⟨hfresh, hkind, hmissing⟩

/-- The next block does not share its hash with those that were added. -/
theorem Descent.hash_not_mem (h : Descent s line) (line_eq : line = added ++ next :: rest) :
    next.hash ∉ added.map (·.hash) := by
  intro hadded
  have hnodup := h.nodup
  rw [line_eq, List.map_append] at hnodup
  exact (List.nodup_append.mp hnodup).2.2 _ hadded _ (List.mem_map_of_mem List.mem_cons_self) rfl

/-- The last block that a call comes back to is its own. -/
theorem Descent.eq_of_last (h : Descent s line) (line_eq : line = added ++ [next]) :
    next = s.block := by
  have hlineage := h.lineage
  rw [line_eq] at hlineage
  exact hlineage.eq_of_last

/-- As long as others are left, the block on top is not the call's own. -/
theorem Descent.ne_of_rest (h : Descent s line) (line_eq : line = added ++ next :: rest)
    (hrest : rest ≠ []) : next ≠ s.block := by
  have hlineage := h.lineage
  have hnodup := h.nodup
  rw [line_eq] at hlineage hnodup
  exact hlineage.ne_of_nodup hrest hnodup

/-- After some blocks were added the hashes are those before and theirs. -/
theorem Ascent.hashes_eq (h : Ascent s chain added) :
    chain.tree.hashes = s.before.hashes ++ added.map (·.hash) := by
  have hbefore : s.before.hashes = s.before.allBlocks.map (·.hash) := by
    rw [hashes, allBlocks, List.map_map]
    refine List.map_congr_left fun node hnode => ?_
    exact h.sound.guards.wellFormed.hash_eq node (List.IsPrefix.subset h.grows hnode)
  rw [h.sound.hashes_eq, h.allBlocks_eq, List.map_append, hbefore]

/-- The next block lacks its parent only as long as nothing was added, since the block that was added
last is its parent. -/
theorem added_eq_nil (descent : Descent s line) (ascent : Ascent s chain added)
    (line_eq : line = added ++ next :: rest) (hparent : next.previous ∉ chain.tree.hashes) :
    added = [] := by
  rcases List.eq_nil_or_concat added with hnil | ⟨front, joined, rfl⟩
  · exact hnil
  · have hlineage := descent.lineage
    rw [line_eq, List.concat_eq_append, List.append_assoc] at hlineage
    rw [hlineage.previous_eq, ascent.hashes_eq] at hparent
    refine absurd (List.mem_append_right _ (List.mem_map_of_mem ?_)) hparent
    simp

/-- A block with others below it is new: the one below it lacked it before the call, and no two
blocks of a lineage share a hash. -/
theorem fresh_of_rest (descent : Descent s line) (ascent : Ascent s chain added)
    (line_eq : line = added ++ next :: rest) (hrest : rest ≠ []) :
    next.hash ∉ chain.tree.hashes := by
  rw [ascent.hashes_eq, List.mem_append]
  rintro (hold | hadded)
  · cases added with
    | nil =>
      -- On the way down: it is the answer for the parent that the block below lacks.
      obtain ⟨below, rest, rfl⟩ := List.exists_cons_of_ne_nil hrest
      subst line_eq
      have hlineage : Lineage s.peers s.block ([] ++ next :: below :: rest) := descent.lineage
      refine (descent.of_mem_tail (b := below) ?_).2.2 (hlineage.previous_eq ▸ hold)
      simp
    | cons first added =>
      -- On the way up: it has lacked its parent itself.
      subst line_eq
      refine (descent.of_mem_tail (b := next) ?_).1 hold
      simp
  · exact descent.hash_not_mem line_eq hadded

/-! ## What an attempt does -/

/-- A block that is judged to join goes on top of those that were added. -/
theorem Ascent.insert (h : Ascent s chain added) {parent? : Option Nat}
    (hjudge : judge s.economics s.difficulty chain.tree next = .ok parent?) :
    Ascent s (chain.insert next).chain (added ++ [next]) := by
  have hadds := (h.sound.insert_of_ok hjudge).2
  obtain ⟨hfresh, hplace⟩ := admitted_of_judge hjudge
  rw [h.hashes_eq, List.mem_append, not_or] at hfresh
  refine ⟨h.sound.insert next, h.grows.trans hadds.growsTo, ?_, ?_, ?_, ?_⟩
  · rw [hadds.allBlocks_eq, h.allBlocks_eq, List.append_assoc]
  · intro hnil
    simp at hnil
  · intro b hb
    rcases List.mem_append.mp hb with hold | hnew
    · exact h.fresh b hold
    · rw [List.mem_singleton.mp hnew]
      exact hfresh.1
  · cases added with
    | nil =>
      -- Nothing was added yet, so its place is in the tree before the call.
      rintro first hfirst
      cases hfirst
      rwa [h.tree_eq rfl] at hplace
    | cons first added =>
      intro first' hfirst
      exact h.anchored first' hfirst

/-- A refused block changes nothing of what is known of the chain. -/
theorem Ascent.refuse (h : Ascent s chain added) {e : ValidationError}
    (hjudge : judge s.economics s.difficulty chain.tree next = .error e) :
    Ascent s (chain.insert next).chain added := by
  have htree := (h.sound.insert_of_error hjudge).2
  refine ⟨h.sound.insert next, ?_, ?_, ?_, h.fresh, h.anchored⟩
  · rw [htree]
    exact h.grows
  · rw [htree]
    exact h.allBlocks_eq
  · rw [htree]
    exact h.tree_eq

/-- An attempt is heeded if it was not about the call's own block, or did not fail for good, or is
answered. -/
theorem Heeds.concat {call : Adoption} {tried : List Attempt} (h : Heeds s call tried)
    (hcall : call.result? = none) (next : Adoption) (b : Block)
    (result : Except ValidationError Inserted)
    (hnew : ∀ e, b = s.block → result = .error e →
      e.lacksParent = true ∨ next.result? = some (.error (.rejected e))) :
    Heeds s next (tried ++ [(b, result)]) := by
  intro e he
  rcases List.mem_append.mp he with hold | hlast
  · refine Or.inl ((h e hold).resolve_right ?_)
    rw [hcall]
    exact fun hsome => by cases hsome
  · obtain ⟨rfl, rfl⟩ := Prod.mk.inj (List.mem_singleton.mp hlast)
    exact hnew e rfl rfl

/-! ## One step -/

/-- What the next step of a call leads to is progress as well. -/
def Advances (s : Setting) (chain : Chain) (call : Adoption) (effects : List Effect)
    (tried : List Attempt) : Prop :=
  Progress s (call.step s.peers chain).1 (call.step s.peers chain).2.1
    (effects ++ (call.step s.peers chain).2.2) (tried ++ (attempt? chain call).toList)

section Inserting

variable {effects : List Effect} {tried : List Attempt} (descent : Descent s line)
  (ascent : Ascent s chain added) (line_eq : line = added ++ next :: rest)
  (heeds : Heeds s (stacked s.limit s.block line (next :: rest)) tried)
  (traffic : Traffic effects (questions line) [])

include descent ascent line_eq heeds traffic

/-- Where the next block joins, the call advances. -/
theorem advances_of_ok {parent? : Option Nat}
    (hjudge : judge s.economics s.difficulty chain.tree next = .ok parent?) :
    Advances s chain (stacked s.limit s.block line (next :: rest)) effects tried := by
  obtain ⟨place, hresult, hhash, hheight⟩ := ascent.sound.exists_place hjudge
  have hascent := ascent.insert hjudge
  have hline : line = (added ++ [next]) ++ rest := by rw [line_eq, List.append_assoc]; rfl
  have hheeds := fun call => heeds.concat rfl call next (.ok place)
    fun e _ he => by cases he
  have htraffic := traffic.append (traffic_insert chain next)
  rw [List.append_nil] at htraffic
  rw [Advances, attempt?_stacked, hresult]
  -- The last block on the stack is the one that the call is about.
  by_cases hrest : rest = []
  · subst hrest
    have hnext := descent.eq_of_last line_eq
    rw [step_ok_last hresult, hnext, ← List.append_assoc]
    rw [hnext] at hascent hheeds hhash hheight htraffic
    refine .finished (result?_finish _ _) descent hascent (hnext ▸ hline)
      (.joined place hhash hheight) (hheeds _) ?_
    have hall := htraffic.append (traffic_broadcast (.block s.block))
    rwa [List.append_nil] at hall
  · rw [step_ok_more hresult hrest, List.append_nil]
    obtain ⟨below, rest, rfl⟩ := List.exists_cons_of_ne_nil hrest
    exact .inserting descent hascent hline (hheeds _) htraffic

/-- Where the next block lacks its parent, the call advances. -/
theorem advances_of_missingParent {child parent : BlockHash}
    (hjudge : judge s.economics s.difficulty chain.tree next
      = .error (.missingParent child parent)) :
    Advances s chain (stacked s.limit s.block line (next :: rest)) effects tried := by
  obtain ⟨rfl, rfl, -, -, hparent⟩ := missingParent_of_judge hjudge
  have hresult := (ascent.sound.insert_of_error hjudge).1
  -- This can only be on the way down.
  obtain rfl := added_eq_nil descent ascent line_eq hparent
  obtain rfl : line = next :: rest := line_eq
  have hascent := ascent.refuse hjudge
  have hheeds := fun call => heeds.concat rfl call next
    (.error (.missingParent next.hash next.previous)) fun e _ he => Or.inl (by cases he; rfl)
  have htraffic := traffic.append (traffic_insert chain next)
  rw [List.append_nil] at htraffic
  rw [ascent.tree_eq rfl] at hjudge
  rw [Advances, attempt?_stacked, hresult]
  have hgives := givesUp_stacked s.limit s.block next rest rest descent.nodup
  by_cases hgiven : (stacked s.limit s.block (next :: rest) rest).givesUp next.hash next.previous
  · rw [step_gaveUp hresult hgiven, ← List.append_assoc]
    refine .finished (result?_finish _ _) descent hascent rfl
      (.gaveUp next rest rfl hjudge (hgives.mp hgiven)) (hheeds _) ?_
    have hall := htraffic.append (traffic_publish (.orphanBlock s.block.hash next.previous))
    rwa [List.append_nil] at hall
  · rw [step_asks hresult hgiven, ← List.append_assoc]
    rw [hgives, not_or, Nat.not_le] at hgiven
    refine .fetching descent hascent hjudge hgiven.1 hgiven.2 (hheeds _) ?_
    exact htraffic.append (traffic_request next.previous)

/-- Where the next block is refused for another reason, the call advances. -/
theorem advances_of_refused {e : ValidationError}
    (hjudge : judge s.economics s.difficulty chain.tree next = .error e)
    (hparent : e.lacksParent = false) :
    Advances s chain (stacked s.limit s.block line (next :: rest)) effects tried := by
  have hresult := (ascent.sound.insert_of_error hjudge).1
  have htree := (ascent.sound.insert_of_error hjudge).2
  have hascent := ascent.refuse hjudge
  -- No ancestor is a duplicate, so the call never passes over one.
  have hduplicate : rest = [] ∨ ∀ b, e ≠ .duplicateBlock b := by
    refine or_iff_not_imp_left.mpr fun hrest b hb => ?_
    have hhash := judge_eq_duplicate_iff.mp ⟨b, hb ▸ hjudge⟩
    exact fresh_of_rest descent ascent line_eq hrest hhash
  obtain ⟨reports, hreports, hstep⟩ :=
    step_refused s.peers s.limit s.block line hresult hparent hduplicate
  have htraffic := traffic.append ((traffic_insert chain next).append hreports)
  simp only [List.append_nil] at htraffic
  rw [← htree] at hjudge
  rw [Advances, attempt?_stacked, hresult, hstep]
  by_cases hrest : rest = []
  · subst hrest
    have hnext := descent.eq_of_last line_eq
    rw [hnext] at hjudge hascent heeds htraffic line_eq ⊢
    refine .finished (result?_finish _ _) descent hascent line_eq
      (.rejected e (by simp) hjudge hparent) ?_ htraffic
    exact heeds.concat rfl _ _ _ fun e' _ he => Or.inr (by cases he; rfl)
  · have hempty : rest.isEmpty = false := by simpa using hrest
    have hnext := descent.ne_of_rest line_eq hrest
    have hfresh := fresh_of_rest descent ascent line_eq hrest
    rw [← htree] at hfresh
    rw [hempty]
    refine .finished (result?_finish _ _) descent hascent line_eq
      (.barred next rest e hrest (by simp) hjudge hfresh hparent) ?_ htraffic
    exact heeds.concat rfl _ _ _ fun e' heq _ => absurd heq hnext

/-- A call that inserts advances, whatever comes of the block. -/
theorem advances_of_inserting :
    Advances s chain (stacked s.limit s.block line (next :: rest)) effects tried := by
  cases hjudge : judge s.economics s.difficulty chain.tree next with
  | ok parent? => exact advances_of_ok descent ascent line_eq heeds traffic hjudge
  | error e =>
    cases hparent : e.lacksParent with
    | false => exact advances_of_refused descent ascent line_eq heeds traffic hjudge hparent
    | true =>
      cases e with
      | missingParent child parent =>
        exact advances_of_missingParent descent ascent line_eq heeds traffic hjudge
      | _ => cases hparent

end Inserting

/-- A call that has asked advances, whatever the answer. -/
theorem advances_of_fetching {last : Block} {earlier : List Block} {effects : List Effect}
    {tried : List Attempt} (descent : Descent s (last :: earlier)) (ascent : Ascent s chain [])
    (judged : judge s.economics s.difficulty s.before last
      = .error (.missingParent last.hash last.previous))
    (new : last.previous ∉ (last :: earlier).map (·.hash)) (room : earlier.length < s.limit)
    (heeds : Heeds s (asking s.limit s.block last earlier) tried)
    (traffic : Traffic effects (questions (last :: earlier) ++ [last.previous]) []) :
    Advances s chain (asking s.limit s.block last earlier) effects tried := by
  rw [Advances]
  have hnone : attempt? chain (asking s.limit s.block last earlier) = none := rfl
  rw [hnone, Option.toList_none, List.append_nil]
  by_cases hanswer : ∃ ancestor, s.peers.block? (earlier.map (·.previous)) last.previous
      = some ancestor ∧ ancestor.hash = last.previous
  · obtain ⟨ancestor, hanswer, hhash⟩ := hanswer
    rw [step_answered hanswer hhash]
    refine .inserting ⟨descent.lineage.answer hanswer hhash, ?_, ?_, ?_⟩ ascent rfl ?_ ?_
    · exact Nat.succ_le_succ room
    · rw [List.map_cons, hhash]
      exact List.nodup_cons.mpr ⟨new, descent.nodup⟩
    · intro b hb
      rcases List.mem_cons.mp hb with rfl | hb
      · exact judged
      · exact descent.missing b hb
    · exact fun e he => Or.inl ((heeds e he).resolve_right fun hsome => by cases hsome)
    · have hall := traffic.append (traffic_publish (.fetchBlock last.previous true))
      simpa [questions] using hall
  · have hnot : ∀ b, s.peers.block? (earlier.map (·.previous)) last.previous = some b →
        b.hash ≠ last.previous := fun b hb hhash => hanswer ⟨b, hb, hhash⟩
    rw [step_unanswered hnot]
    refine .finished (result?_finish _ _) descent ascent rfl
      (.unanswered last earlier rfl judged hnot) ?_ ?_
    · exact fun e he => Or.inl ((heeds e he).resolve_right fun hsome => by cases hsome)
    · have hall := (traffic.append (traffic_publish (.fetchBlock last.previous false))).append
        (traffic_publish (.orphanBlock s.block.hash last.previous))
      simpa using hall

/-- **Every step of a call is progress.** -/
theorem Progress.step {call : Adoption} {effects : List Effect} {tried : List Attempt}
    (hcall : call.result? = none) (h : Progress s chain call effects tried) :
    Advances s chain call effects tried := by
  cases h with
  | inserting descent ascent line_eq heeds traffic =>
    exact advances_of_inserting descent ascent line_eq heeds traffic
  | fetching descent ascent judged new room heeds traffic =>
    exact advances_of_fetching descent ascent judged new room heeds traffic
  | finished result_eq => cases hcall.symm.trans result_eq

/-! ## The whole call -/

/-- A call that starts has made progress, though it has done nothing. -/
theorem progress_start {economics : Economics} {difficulty : Difficulty}
    (hsound : chain.Sound economics difficulty) (peers : Peers) (limit : Nat) (block : Block) :
    Progress ⟨economics, difficulty, chain.tree, peers, limit, block⟩ chain (start limit block)
      [] [] := by
  rw [start_eq_stacked]
  refine .inserting ⟨.start, ?_, ?_, ?_⟩ ⟨hsound, ?_, ?_, ?_, ?_, ?_⟩ (List.nil_append _).symm ?_ ?_
  · exact Nat.succ_le_succ (Nat.zero_le limit)
  · exact List.pairwise_singleton _ _
  · intro b hb
    cases hb
  · exact .refl chain.tree
  · exact (List.append_nil _).symm
  · intro _
    rfl
  · intro b hb
    cases hb
  · intro first hfirst
    cases hfirst
  · intro e he
    cases he
  · exact ⟨rfl, rfl⟩

/-- How a call ends on a sound chain. -/
structure Ended (s : Setting) (outcome : Outcome) (tried : List Attempt)
    (line added rest : List Block) (requests : List BlockHash) (messages : List Message) :
    Prop where
  descent : Descent s line
  ascent : Ascent s outcome.chain added
  line_eq : line = added ++ rest
  ending : Ending s outcome.chain tried line added rest outcome.result requests messages
  heeds : ∀ e, (s.block, .error e) ∈ tried →
    e.lacksParent = true ∨ outcome.result = .error (.rejected e)
  traffic : Traffic outcome.effects requests messages

/-- **Every call on a sound chain ends in one of the five ways.** -/
theorem ended_adopt {economics : Economics} {difficulty : Difficulty}
    (hsound : chain.Sound economics difficulty) (peers : Peers) (limit : Nat) (block : Block) :
    ∃ line added rest requests messages,
      Ended ⟨economics, difficulty, chain.tree, peers, limit, block⟩
        (chain.adopt peers limit block) ((start limit block).attempts peers chain)
        line added rest requests messages := by
  obtain ⟨last, hlast, hprogress⟩ := run_induction
    (motive := Progress ⟨economics, difficulty, chain.tree, peers, limit, block⟩)
    (fun _ _ _ _ hcall h => h.step hcall) chain (start limit block) [] []
    (progress_start hsound peers limit block)
  change Progress _ (chain.adopt peers limit block).chain last
    (chain.adopt peers limit block).effects ((start limit block).attempts peers chain) at hprogress
  change last.result? = some (chain.adopt peers limit block).result at hlast
  cases hprogress with
  -- A call in the other two stages has no result yet.
  | inserting => cases hlast
  | fetching => cases hlast
  | finished result_eq descent ascent line_eq ending heeds traffic =>
    cases result_eq.symm.trans hlast
    refine ⟨_, _, _, _, _, descent, ascent, line_eq, ending, ?_, traffic⟩
    intro e he
    refine (heeds e he).imp_right fun hsome => ?_
    exact Option.some.inj (result_eq.symm.trans hsome)

end

end RecordChain.Adoption
