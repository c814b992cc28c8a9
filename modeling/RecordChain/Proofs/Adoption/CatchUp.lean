import RecordChain.Proofs.Adoption.Outcome
import RecordChain.Proofs.Chain.Agreement

/-!
# Catching up with a peer

A replica that is behind adds a block of a peer that is ahead, and the peer answers every question
from its own chain. If the limit allows for the ancestors that are missing, the block joins with all
of them.

* **`lacked`**: the ancestors of a node that another tree does not have.
* **`Lineage.exists_node`**: with such a peer, the blocks that the call comes to are the end of the
  peer's chain to the block.
* **`caughtUp_adopt`**: of the five ways to end, only the good one is left, and then both replicas
  have the same chain below the block.
-/

namespace RecordChain

/-- The peers of a replica that has one neighbour, which answers from its chain. -/
def Peers.ofChain (chain : Chain) : Peers := ⟨fun _ hash => chain.block? hash, chain.roots⟩

/-- The blocks below a node that another tree does not have. -/
def ForkTree.lacked (tree other : ForkTree) (id : Nat) : List Block :=
  (tree.chainTo id).dropLast.filter (· ∉ other.allBlocks)

namespace Adoption

open ForkTree Validator

/-- If the last blocks of a chain are all new to another tree, then so are those below the very last
one, and whatever is new among the blocks above. -/
theorem length_lacked {tree other : ForkTree} {id : Nat} {upper line : List Block}
    (hchain : tree.chainTo id = upper ++ line) (hline : line ≠ [])
    (hnew : ∀ b ∈ line, b ∉ other.allBlocks) :
    (tree.lacked other id).length
      = (upper.filter (· ∉ other.allBlocks)).length + (line.length - 1) := by
  have hall : line.dropLast.filter (· ∉ other.allBlocks) = line.dropLast := by
    refine List.filter_eq_self.mpr fun b hb => ?_
    simpa using hnew b (List.dropLast_subset line hb)
  rw [lacked, hchain, List.dropLast_append_of_ne_nil hline, List.filter_append, hall,
    List.length_append, List.length_dropLast]

variable {economics : Economics} {difficulty : Difficulty} {ahead behind : Chain} {id : Nat}
  {block : Block} {line : List Block}

/-- What the peer answers is what lies below in its own chain. -/
theorem Lineage.exists_node (hsound : ahead.Sound economics difficulty)
    (hblock : ahead.tree.block? id = some block)
    (h : Lineage (.ofChain ahead) block line) (hkind : ∀ b ∈ line.tail, b.kind ≠ .genesis) :
    ∃ node last earlier, line = last :: earlier ∧ ahead.tree.block? node = some last
      ∧ ahead.tree.chainTo id = ahead.tree.chainTo node ++ earlier := by
  induction h with
  | start => exact ⟨id, block, [], rfl, hblock, (List.append_nil _).symm⟩
  | @answer ancestor last earlier below answered hash_eq ih =>
    obtain ⟨node, last, earlier, hline, hnode, hchain⟩ :=
      ih fun b hb => hkind b (List.mem_of_mem_tail hb)
    obtain ⟨rfl, rfl⟩ := List.cons.inj hline
    obtain ⟨parent, found, hparent, hlt, hfound, hprevious⟩ :=
      hsound.valid.exists_parent hnode (hkind _ List.mem_cons_self)
    have hserved : ahead.block? last.previous = some ancestor := answered
    rw [Chain.block?, hprevious, hsound.lookup?_hash hfound, Option.bind_some, hfound] at hserved
    have hsame : found = ancestor := Option.some.inj hserved
    subst hsame
    refine ⟨parent, found, last :: earlier, rfl, hfound, ?_⟩
    rw [hchain, chainTo_of_child hnode hparent hlt, List.append_assoc]
    rfl

/-- How a replica that is behind compares with its peer: they follow the same rules, no two different
blocks of theirs share a hash, and they started from the same block if the one has started at all. -/
structure Follows (economics : Economics) (difficulty : Difficulty) (ahead behind : Chain) :
    Prop where
  ahead_sound : ahead.Sound economics difficulty
  behind_sound : behind.Sound economics difficulty
  hash_inj : Collisionless (ahead.tree.allBlocks ++ behind.tree.allBlocks)
  roots : behind.tree.allBlocks = [] ∨ behind.roots = ahead.roots

namespace Follows

variable (hfollows : Follows economics difficulty ahead behind)

include hfollows

theorem agree : ahead.tree.Agree behind.tree := fun first hfirst second hsecond =>
  hfollows.hash_inj first (List.mem_append_left _ hfirst) second (List.mem_append_right _ hsecond)

theorem first_mem (first : Block) (hfirst : first ∈ behind.tree.allBlocks)
    (hkind : first.kind = .genesis) : first ∈ ahead.tree.allBlocks := by
  rcases hfollows.roots with hnil | hroots
  · rw [hnil] at hfirst
    cases hfirst
  · obtain ⟨root, hroot⟩ := mem_allBlocks_iff.mp hfirst
    have hmem : first ∈ behind.roots := hfollows.behind_sound.mem_roots_iff.mpr
      ⟨root, hroot, hfollows.behind_sound.valid.parent?_of_genesis hroot hkind⟩
    rw [hroots, hfollows.ahead_sound.mem_roots_iff] at hmem
    obtain ⟨root', hroot', -⟩ := hmem
    exact mem_allBlocks_iff.mpr ⟨root', hroot'⟩

/-- Blocks of the peer that the replica does not have are new to it by their hash as well. -/
theorem hash_not_mem {b : Block} (hb : b ∈ ahead.tree.allBlocks)
    (hnew : b ∉ behind.tree.allBlocks) : b.hash ∉ behind.tree.hashes := by
  rw [hfollows.behind_sound.hashes_eq]
  intro hmem
  obtain ⟨second, hsecond, hhash⟩ := List.mem_map.mp hmem
  rw [hfollows.agree b hb second hsecond hhash.symm] at hnew
  exact hnew hsecond

end Follows

/-! ## A call against such a peer -/

section Ended

variable {limit : Nat} {outcome : Outcome} {tried : List Attempt} {added rest : List Block}
  {requests : List BlockHash} {messages : List Message}
  (hfollows : Follows economics difficulty ahead behind)
  (hblock : ahead.tree.block? id = some block)
  (h : Ended ⟨economics, difficulty, behind.tree, .ofChain ahead, limit, block⟩ outcome tried line
    added rest requests messages)

include hfollows hblock h

/-- The call's blocks are the end of the peer's chain. Above them is nothing, or the chain of the
block that the first of them names. -/
theorem Ended.exists_upper : ∃ upper last earlier, line = last :: earlier
    ∧ ahead.tree.chainTo id = upper ++ line
    ∧ (upper = [] ∧ last.kind = .genesis
      ∨ ∃ parent below, ahead.tree.block? parent = some below ∧ last.previous = below.hash
        ∧ upper = ahead.tree.chainTo parent ∧ last.kind ≠ .genesis) := by
  have hvalid := hfollows.ahead_sound.valid
  obtain ⟨node, last, earlier, hline, hnode, hchain⟩ :=
    h.descent.lineage.exists_node hfollows.ahead_sound hblock
      fun b hb => (h.descent.of_mem_tail hb).2.1
  -- A first block is a root in the peer's tree; any other block has its parent there.
  by_cases hkind : last.kind = .genesis
  · refine ⟨[], last, earlier, hline, ?_, Or.inl ⟨rfl, hkind⟩⟩
    rw [hchain, chainTo_of_root hnode (hvalid.parent?_of_genesis hnode hkind), hline]
    rfl
  · obtain ⟨parent, below, hparent, hlt, hbelow, hprevious⟩ := hvalid.exists_parent hnode hkind
    refine ⟨ahead.tree.chainTo parent, last, earlier, hline, ?_,
      Or.inr ⟨parent, below, hbelow, hprevious, rfl, hkind⟩⟩
    rw [hchain, chainTo_of_child hnode hparent hlt, hline, List.append_assoc]
    rfl

theorem Ended.mem_ahead {b : Block} (hb : b ∈ line) : b ∈ ahead.tree.allBlocks := by
  obtain ⟨upper, -, -, -, hchain, -⟩ := h.exists_upper hfollows hblock
  have hmem : b ∈ ahead.tree.chainTo id := by
    rw [hchain]
    exact List.mem_append_right _ hb
  exact mem_allBlocks_of_mem_chainTo hmem

/-- Whatever is in the tree afterwards was in one of the two before. -/
theorem Ended.mem_append_of_mem {b : Block} (hb : b ∈ outcome.chain.tree.allBlocks) :
    b ∈ ahead.tree.allBlocks ++ behind.tree.allBlocks := by
  rw [h.ascent.allBlocks_eq] at hb
  rcases List.mem_append.mp hb with hold | hadded
  · exact List.mem_append_right _ hold
  · refine List.mem_append_left _ (h.mem_ahead hfollows hblock ?_)
    rw [h.line_eq]
    exact List.mem_append_left _ hadded

theorem Ended.agree : ahead.tree.Agree outcome.chain.tree := by
  intro first hfirst second hsecond hhash
  exact hfollows.hash_inj first (List.mem_append_left _ hfirst) second
    (h.mem_append_of_mem hfollows hblock hsecond) hhash

/-- None of the call's blocks can fail for another reason than its parent. -/
theorem Ended.lacksParent {b : Block} (hb : b ∈ line)
    (hfresh : b.hash ∉ outcome.chain.tree.hashes) {e : ValidationError}
    (hjudge : judge economics difficulty outcome.chain.tree b = .error e) :
    e.lacksParent = true := by
  obtain ⟨node, hnode⟩ := mem_allBlocks_iff.mp (h.mem_ahead hfollows hblock hb)
  refine hfollows.ahead_sound.valid.lacksParent_of_judge h.ascent.sound.valid
    (h.agree hfollows hblock) ?_ hnode hfresh hjudge
  intro first hfirst hkind
  rcases List.mem_append.mp (h.mem_append_of_mem hfollows hblock hfirst) with hahead | hbehind
  · exact hahead
  · exact hfollows.first_mem first hbehind hkind

/-- A block that lacks its parent in the tree before the call has one in the peer's chain, and that
one is new too. -/
theorem Ended.exists_below {last : Block} {earlier : List Block} (hline : line = last :: earlier)
    (hjudge : judge economics difficulty behind.tree last
      = .error (.missingParent last.hash last.previous)) :
    ∃ parent below, ahead.tree.block? parent = some below ∧ last.previous = below.hash
      ∧ ahead.tree.chainTo id = ahead.tree.chainTo parent ++ line
      ∧ below ∉ behind.tree.allBlocks ∧ ∀ b ∈ line, b ∉ behind.tree.allBlocks := by
  obtain ⟨-, -, hfresh, hkind, hmissing⟩ := missingParent_of_judge hjudge
  obtain ⟨upper, last', earlier', hline', hchain, hcases⟩ := h.exists_upper hfollows hblock
  obtain ⟨rfl, rfl⟩ := List.cons.inj (hline.symm.trans hline')
  rcases hcases with ⟨-, hfirst⟩ | ⟨parent, below, hbelow, hprevious, rfl, -⟩
  · exact absurd hfirst hkind
  · refine ⟨parent, below, hbelow, hprevious, hchain, ?_, ?_⟩
    · intro hmem
      refine hmissing ?_
      rw [hprevious]
      exact hfollows.behind_sound.valid.hash_mem_of_mem hmem
    · intro b hb hmem
      have hhash := hfollows.behind_sound.valid.hash_mem_of_mem hmem
      rw [hline] at hb
      rcases List.mem_cons.mp hb with rfl | htail
      · exact hfresh hhash
      · refine (h.descent.of_mem_tail ?_).1 hhash
        rw [hline]
        exact htail

theorem Ended.hash_not_mem_of_rejected (hnew : block ∉ behind.tree.allBlocks)
    (line_eq : line = added ++ [block]) : block.hash ∉ outcome.chain.tree.hashes := by
  rw [h.ascent.hashes_eq, List.mem_append]
  rintro (hold | hadded)
  · exact hfollows.hash_not_mem (mem_allBlocks_iff.mpr ⟨id, hblock⟩) hnew hold
  · exact h.descent.hash_not_mem line_eq hadded

/-- A chain does not come back to a block, so no parent of the peer's chain waits already. -/
theorem Ended.previous_not_mem {last : Block} {earlier : List Block}
    (hline : line = last :: earlier)
    (hjudge : judge economics difficulty behind.tree last
      = .error (.missingParent last.hash last.previous)) :
    last.previous ∉ (last :: earlier).map (·.hash) := by
  obtain ⟨parent, below, hbelow, hprevious, hchain, -⟩ :=
    h.exists_below hfollows hblock hline hjudge
  intro hwaits
  obtain ⟨b, hb, hhash⟩ := List.mem_map.mp hwaits
  rw [← hline] at hb
  have hsame : b = below := hfollows.hash_inj b
    (List.mem_append_left _ (h.mem_ahead hfollows hblock hb)) below
    (List.mem_append_left _ (mem_allBlocks_iff.mpr ⟨parent, hbelow⟩)) (hhash.trans hprevious)
  have hmem := hfollows.ahead_sound.valid.mem_chainTo hbelow
  have hnodup := hfollows.ahead_sound.valid.nodup_chainTo id
  rw [hchain] at hnodup
  exact (List.nodup_append.mp hnodup).2.2 below hmem b hb hsame.symm

/-- There is always a question left for a block that lacks its parent. -/
theorem Ended.lt_length_lacked {last : Block} {earlier : List Block}
    (hline : line = last :: earlier)
    (hjudge : judge economics difficulty behind.tree last
      = .error (.missingParent last.hash last.previous)) :
    earlier.length < (ahead.tree.lacked behind.tree id).length := by
  obtain ⟨parent, below, hbelow, -, hchain, hnewBelow, hnewLine⟩ :=
    h.exists_below hfollows hblock hline hjudge
  -- The parent is lacked, and so are all blocks but the one that the call is about.
  have hmem := hfollows.ahead_sound.valid.mem_chainTo hbelow
  have hpos : 0 < ((ahead.tree.chainTo parent).filter (· ∉ behind.tree.allBlocks)).length :=
    List.length_pos_of_mem (List.mem_filter.mpr ⟨hmem, by simpa using hnewBelow⟩)
  have hlength := Adoption.length_lacked hchain (by simp [hline]) hnewLine
  rw [hline, List.length_cons] at hlength
  omega

/-- **The call has nothing left to do**, if the limit allows for the ancestors that are missing. -/
theorem Ended.rest_eq_nil (hnew : block ∉ behind.tree.allBlocks)
    (hlimit : (ahead.tree.lacked behind.tree id).length ≤ limit) : rest = [] := by
  have hline := h.line_eq
  have ending := h.ending
  generalize outcome.result = result at ending
  cases ending with
  | joined => rfl
  | rejected e last judged parent =>
    have hmem : block ∈ line := by rw [hline]; simp
    have hfresh := h.hash_not_mem_of_rejected hfollows hblock hnew hline
    cases parent.symm.trans (h.lacksParent hfollows hblock hmem hfresh judged)
  | barred next rest e more last judged fresh parent =>
    have hmem : next ∈ line := by rw [hline]; simp
    cases parent.symm.trans (h.lacksParent hfollows hblock hmem fresh judged)
  | gaveUp last earlier untouched judged reason =>
    rw [untouched, List.nil_append] at hline
    have hnot := h.previous_not_mem hfollows hblock hline judged
    have hlt := h.lt_length_lacked hfollows hblock hline judged
    exact absurd (reason.resolve_left hnot) (Nat.not_le.mpr (Nat.lt_of_lt_of_le hlt hlimit))
  | unanswered last earlier untouched judged reason =>
    rw [untouched, List.nil_append] at hline
    obtain ⟨parent, below, hbelow, hprevious, -⟩ := h.exists_below hfollows hblock hline judged
    refine absurd hprevious.symm (reason below ?_)
    change ahead.block? last.previous = some below
    rw [Chain.block?, hprevious, hfollows.ahead_sound.lookup?_hash hbelow, Option.bind_some, hbelow]

/-- The questions asked are as many as the ancestors that were missing: above the blocks that were
asked for, the replica has the peer's chain already. -/
theorem Ended.length_lacked (hrest : rest = []) :
    (ahead.tree.lacked behind.tree id).length = line.length - 1 := by
  have hbehind := hfollows.behind_sound.valid
  have hadded : line = added := by rw [h.line_eq, hrest, List.append_nil]
  obtain ⟨upper, last, earlier, hline, hchain, hcases⟩ := h.exists_upper hfollows hblock
  have hknown : upper.filter (· ∉ behind.tree.allBlocks) = [] := by
    rcases hcases with ⟨rfl, -⟩ | ⟨parent, below, hbelow, hprevious, rfl, hkind⟩
    · rfl
    · have hplace := (h.ascent.anchored last (by rw [← hadded, hline]; rfl)).resolve_left hkind
      obtain ⟨node, hnode⟩ := List.mem_iff_getElem?.mp hplace
      obtain ⟨below', hbelow', hhash⟩ := hbehind.block?_of_hash hnode
      -- The block below is on both sides, so the chain that ends with it is, too.
      have hsame := hfollows.agree.eq_of_hash hbelow hbelow' (hprevious.symm.trans hhash.symm)
      rw [← hfollows.ahead_sound.valid.chainTo_eq hbehind hfollows.agree hbelow
        (hsame ▸ hbelow')]
      refine List.filter_eq_nil_iff.mpr fun b hb => ?_
      simpa using mem_allBlocks_of_mem_chainTo hb
  have hnew : ∀ b ∈ line, b ∉ behind.tree.allBlocks := fun b hb hmem =>
    h.ascent.fresh b (hadded ▸ hb) (hbehind.hash_mem_of_mem hmem)
  rw [Adoption.length_lacked hchain (by simp [hline]) hnew, hknown, List.length_nil, Nat.zero_add]

end Ended

/-- What a replica has after it caught up with a block of its peer. -/
structure CaughtUp (economics : Economics) (ahead behind : Chain) (id : Nat) (block : Block)
    (outcome : Outcome) : Prop where
  result_eq : outcome.result = .ok ⟨block.hash, ahead.tree.heightAt id⟩
  /-- One question for each ancestor that was missing. -/
  requests_length : (outcome.effects.filterMap (·.request?)).length
    = (ahead.tree.lacked behind.tree id).length
  headHeight_ge : ∃ height, outcome.chain.headHeight? = some height
    ∧ ahead.tree.heightAt id ≤ height
  /-- All that is derived from the chain to the block is the same on both sides. -/
  same : ∃ node, outcome.chain.lookup? block.hash = some node
    ∧ outcome.chain.tree.chainTo node = ahead.tree.chainTo id
    ∧ outcome.chain.ledgerAt node = ahead.ledgerAt id
    ∧ outcome.chain.tree.balancesAt economics (some node)
        = ahead.tree.balancesAt economics (some id)
    ∧ ∀ confirmations, outcome.chain.tree.filesAt confirmations (some node)
        = ahead.tree.filesAt confirmations (some id)

theorem Follows.caughtUp (hfollows : Follows economics difficulty ahead behind)
    (hblock : ahead.tree.block? id = some block) (hnew : block ∉ behind.tree.allBlocks)
    {limit : Nat} (hlimit : (ahead.tree.lacked behind.tree id).length ≤ limit) :
    CaughtUp economics ahead behind id block
      (behind.adopt (.ofChain ahead) limit block) := by
  obtain ⟨line, added, rest, requests, messages, h⟩ :=
    ended_adopt hfollows.behind_sound (.ofChain ahead) limit block
  have hrest := h.rest_eq_nil hfollows hblock hnew hlimit
  have hlength := h.length_lacked hfollows hblock hrest
  have hagree := h.agree hfollows hblock
  have hvalid := hfollows.ahead_sound.valid
  generalize behind.adopt (.ofChain ahead) limit block = outcome at h hagree ⊢
  subst hrest
  obtain ⟨descent, ascent, line_eq, ending, heeds, traffic⟩ := h
  generalize hresult : outcome.result = result at ending
  cases ending with
  | joined place hash_eq height_eq =>
    obtain ⟨node, hlookup, hheight⟩ := Option.map_eq_some_iff.mp height_eq
    have hnode := ascent.sound.block?_of_lookup? hagree hblock hlookup
    have hchain := hvalid.chainTo_eq ascent.sound.valid hagree hblock hnode
    have hsize := lt_size_of_block? hnode
    have hsame : outcome.chain.tree.heightAt node = ahead.tree.heightAt id := by
      have heq := congrArg List.length hchain
      rw [ascent.sound.valid.length_chainTo hsize,
        hvalid.length_chainTo (lt_size_of_block? hblock)] at heq
      exact Nat.succ.inj heq
    refine ⟨?_, ?_, ?_, node, hlookup, hchain, ?_, ?_, ?_⟩
    · rw [hresult, ← hsame, hheight, ← hash_eq]
    · rw [traffic.requests_eq, hlength, questions, List.length_reverse, List.length_map,
        List.length_tail]
    · rw [← hsame]
      exact ascent.sound.valid.exists_maxHeight hsize
    · rw [Chain.ledgerAt, Chain.ledgerAt, ascent.sound.guards.ledgerAt_eq,
        hfollows.ahead_sound.guards.ledgerAt_eq, hchain]
    · change balancesAfter economics (outcome.chain.tree.chainTo node) = _
      rw [hchain]
      rfl
    · intro confirmations
      change filesAfter confirmations (outcome.chain.tree.chainTo node) = _
      rw [hchain]
      rfl

end Adoption

open Adoption in
/-- **A replica can always catch up with a peer within the limit.** Both chains may be any that
insertions build under the same rules, as long as no two different blocks of theirs share a hash and
the replica is empty or has the first block of its peer. -/
theorem caughtUp_adopt (economics : Economics) (difficulty : Difficulty)
    (blocks others : List Block) (limit id : Nat) (block : Block)
    (hhash : Collisionless ((Chain.ofBlocks economics difficulty blocks).tree.allBlocks
      ++ (Chain.ofBlocks economics difficulty others).tree.allBlocks))
    (hroots : (Chain.ofBlocks economics difficulty others).tree.allBlocks = []
      ∨ (Chain.ofBlocks economics difficulty others).roots
        = (Chain.ofBlocks economics difficulty blocks).roots)
    (hblock : (Chain.ofBlocks economics difficulty blocks).tree.block? id = some block)
    (hnew : block ∉ (Chain.ofBlocks economics difficulty others).tree.allBlocks)
    (hlimit : ((Chain.ofBlocks economics difficulty blocks).tree.lacked
      (Chain.ofBlocks economics difficulty others).tree id).length ≤ limit) :
    CaughtUp economics (Chain.ofBlocks economics difficulty blocks)
      (Chain.ofBlocks economics difficulty others) id block
      ((Chain.ofBlocks economics difficulty others).adopt
        (.ofChain (Chain.ofBlocks economics difficulty blocks)) limit block) := by
  have hfollows : Follows economics difficulty (Chain.ofBlocks economics difficulty blocks)
      (Chain.ofBlocks economics difficulty others) :=
    ⟨Chain.sound_ofBlocks economics difficulty blocks,
      Chain.sound_ofBlocks economics difficulty others, hhash, hroots⟩
  exact hfollows.caughtUp hblock hnew hlimit

/-- A first block and one on top of it. -/
def twoBlocks : List Block :=
  [.genesis "miner" 0, .noOp (Block.genesis "miner" 0).hash "miner" 0]

open Adoption in
/-- An empty replica adds the second of two blocks, with room for the one question it needs. -/
theorem caughtUp_adopt_twoBlocks :
    CaughtUp ⟨1, 1, 0, 0⟩ (Chain.ofBlocks ⟨1, 1, 0, 0⟩ ⟨0, 0⟩ twoBlocks)
      (Chain.ofBlocks ⟨1, 1, 0, 0⟩ ⟨0, 0⟩ []) 1
      (.noOp (Block.genesis "miner" 0).hash "miner" 0)
      ((Chain.ofBlocks ⟨1, 1, 0, 0⟩ ⟨0, 0⟩ []).adopt
        (.ofChain (Chain.ofBlocks ⟨1, 1, 0, 0⟩ ⟨0, 0⟩ twoBlocks)) 1
        (.noOp (Block.genesis "miner" 0).hash "miner" 0)) := by
  -- One evaluation for all, since each would build the chain anew.
  obtain ⟨hall, hblock, hchain, hhash⟩ :
      (Chain.ofBlocks ⟨1, 1, 0, 0⟩ ⟨0, 0⟩ twoBlocks).tree.allBlocks = twoBlocks
        ∧ (Chain.ofBlocks ⟨1, 1, 0, 0⟩ ⟨0, 0⟩ twoBlocks).tree.block? 1
            = some (.noOp (Block.genesis "miner" 0).hash "miner" 0)
        ∧ (Chain.ofBlocks ⟨1, 1, 0, 0⟩ ⟨0, 0⟩ twoBlocks).tree.chainTo 1 = twoBlocks
        ∧ (Block.genesis "miner" 0).hash
            ≠ (Block.noOp (Block.genesis "miner" 0).hash "miner" 0).hash := by
    decide +kernel
  have hempty : (Chain.ofBlocks ⟨1, 1, 0, 0⟩ ⟨0, 0⟩ []).tree.allBlocks = [] := rfl
  refine caughtUp_adopt ⟨1, 1, 0, 0⟩ ⟨0, 0⟩ twoBlocks [] 1 1 _ ?_ (Or.inl hempty) hblock ?_ ?_
  · rw [hall, hempty, List.append_nil]
    intro first hfirst second hsecond heq
    rcases List.mem_pair.mp hfirst with rfl | rfl <;>
      rcases List.mem_pair.mp hsecond with rfl | rfl
    · rfl
    · exact absurd heq hhash
    · exact absurd heq.symm hhash
    · rfl
  · rw [hempty]
    exact List.not_mem_nil
  · rw [ForkTree.lacked, hchain, hempty]
    exact Nat.le_of_eq rfl

end RecordChain
