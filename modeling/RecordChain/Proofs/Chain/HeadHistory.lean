import Mathlib.Data.List.Induction
import RecordChain.Proofs.Chain.Agreement
import RecordChain.Proofs.Chain.HeadViews

/-!
# The history of the head

Whoever listens to a chain can tell its head from the reports alone. Each head that is reported is one
above the one reported before, on whatever fork it lies, as no block can join the tree higher than one
above the head.

* **`Chain.reports`**, **`Chain.newHeads`**: what is reported while a chain is built, and which heads.
* **`Chain.Lands`**: what comes of an insertion. A block is refused, or joins the tree beside the head,
  or becomes the head and is one above the head before.
* **`Chain.Reported`**: what is reported of an insertion.
* **`Chain.Tallies`**: heads reported that are numbered by their heights, with the head for the last one.
* **`headHistory_ofBlocks`**: the reports of all sequences of insertions.
-/

namespace RecordChain

open ForkTree Validator

/-- The place of a new head, if that is what is reported. -/
def Event.newHead? : Event → Option Inserted
  | .updateHead head height => some ⟨head, height⟩
  | _ => none

/-- The place of a head, for those who do not know its node. -/
def Head.place (head : Head) : Inserted := ⟨head.hash, head.height⟩

namespace Chain

/-- What an insertion reports. -/
def Insertion.events (insertion : Insertion) : List Event := insertion.effects.filterMap Effect.event?

/-- The new heads that an insertion reports. -/
def Insertion.newHeads (insertion : Insertion) : List Inserted :=
  insertion.events.filterMap Event.newHead?

/-- What is reported while blocks are inserted one after the other. -/
def reports (chain : Chain) : List Block → List Event
  | [] => []
  | block :: rest => (chain.insert block).events ++ (chain.insert block).chain.reports rest

theorem reports_append (chain : Chain) (blocks rest : List Block) :
    chain.reports (blocks ++ rest) = chain.reports blocks
      ++ (blocks.foldl (fun chain block => (chain.insert block).chain) chain).reports rest := by
  induction blocks generalizing chain with
  | nil => rfl
  | cons block blocks ih =>
    rw [List.cons_append, reports, reports, ih, List.append_assoc, List.foldl_cons]

/-- The heads that are reported while a chain is built. -/
def newHeads (economics : Economics) (difficulty : Difficulty) (blocks : List Block) :
    List Inserted :=
  ((Chain.new economics difficulty).reports blocks).filterMap Event.newHead?

theorem newHeads_concat (economics : Economics) (difficulty : Difficulty) (blocks : List Block)
    (block : Block) : newHeads economics difficulty (blocks ++ [block])
      = newHeads economics difficulty blocks
        ++ ((ofBlocks economics difficulty blocks).insert block).newHeads := by
  rw [newHeads, reports_append, List.filterMap_append, reports, reports, List.append_nil]
  rfl

variable {economics : Economics} {difficulty : Difficulty} {chain : Chain} {block : Block}

/-! ## One insertion -/

/-- A refused block is not reported, and nobody is stopped for it. -/
theorem effects_of_error {e : ValidationError} (h : (chain.insert block).result = .error e) :
    (chain.insert block).effects = [] := by
  unfold insert at h ⊢
  split at h
  split at h
  · rfl
  · split at h <;> cases h

/-- An admitted block is reported, and once more if its node is the head then. -/
theorem events_of_ok {place : Inserted} (h : (chain.insert block).result = .ok place) :
    ∃ id, (chain.validator.validateAndInsert chain.tree block).result = .ok id
      ∧ (chain.insert block).events = .insertBlock place.hash place.height ::
        if (chain.insert block).chain.tree.head = some id then
          [.updateHead place.hash place.height] else [] := by
  -- To stop a token is not to report anything.
  have hstops : ∀ watchers : List Token, (watchers.map Effect.stop).filterMap Effect.event? = [] := by
    intro watchers
    simp [List.filterMap_map, Function.comp_def, Effect.event?]
  obtain ⟨tree, validator, watchers⟩ := chain
  rcases hverdict : validator.validateAndInsert tree block with ⟨validator', tree', e | id⟩
  · simp only [insert, hverdict, reduceCtorEq] at h
  · refine ⟨id, rfl, ?_⟩
    simp only [Insertion.events, insert, hverdict] at h ⊢
    split at h <;> obtain rfl := Except.ok.inj h
    · next hhead =>
      rw [if_pos hhead, if_pos hhead, List.filterMap_append, hstops]
      rfl
    · next hhead =>
      rw [if_neg hhead, if_neg hhead]
      rfl

/-- What comes of an insertion. -/
inductive Lands (chain : Chain) (block : Block) : Prop
  | refused {e : ValidationError} (result : (chain.insert block).result = .error e)
    (tree : (chain.insert block).chain.tree = chain.tree)
  | beside {place : Inserted} (result : (chain.insert block).result = .ok place)
    (events : (chain.insert block).events = [.insertBlock place.hash place.height])
    (head : (chain.insert block).chain.head? = chain.head?)
  | onTop {place : Inserted} (result : (chain.insert block).result = .ok place)
    (events : (chain.insert block).events
      = [.insertBlock place.hash place.height, .updateHead place.hash place.height])
    (head : (chain.insert block).chain.head? = some ⟨chain.size, place.hash, place.height⟩)
    (height : place.height = chain.head?.elim 0 (·.height + 1))

namespace Sound

variable (h : chain.Sound economics difficulty)

include h

/-- The height of the head, with and without its node. -/
theorem maxHeight_eq : chain.tree.maxHeight = chain.head?.map (·.height) := by
  cases hhead : chain.tree.head with
  | none =>
    rw [maxHeight, head?, hhead]
    rfl
  | some head =>
    obtain ⟨block, hblock⟩ := block?_isSome (h.valid.head_lt head hhead)
    rw [h.head?_eq hhead hblock, maxHeight, hhead]
    rfl

/-- The next node cannot be the head yet. -/
theorem head?_ne_size (hash : BlockHash) (height : Nat) :
    chain.head? ≠ some ⟨chain.size, hash, height⟩ := by
  intro hhead
  have hnode := (h.of_head? hhead).1
  exact Nat.lt_irrefl _ (h.valid.head_lt chain.size hnode)

theorem lands (block : Block) : chain.Lands block := by
  cases hjudge : judge economics difficulty chain.tree block with
  | error e =>
    obtain ⟨hresult, htree⟩ := h.insert_of_error hjudge
    exact .refused hresult htree
  | ok parent? =>
    obtain ⟨hresult, hadds⟩ := h.insert_of_ok hjudge
    obtain ⟨id, hid, hevents⟩ := events_of_ok hresult
    obtain rfl := h.node_of_ok hid
    have hhead := head?_of_adds h.valid.toHeaded hadds
    by_cases htop : chain.tree.maxHeight.all
        (· < parent?.elim 0 (chain.tree.heightAt · + 1))
    · rw [hadds.head_eq, if_pos htop, if_pos rfl] at hevents
      rw [if_pos htop] at hhead
      refine .onTop hresult hevents ?_ ?_
      · rw [hhead, hadds.heightAt_new]
      · have hheight := h.valid.toWellFormed.height_of_lt_maxHeight
          (h.insert block).valid.toLinked hadds htop
        rw [hadds.heightAt_new, hheight, h.maxHeight_eq, Option.elim_map]
        rfl
    · rw [if_neg htop] at hhead
      have hold : (chain.insert block).chain.tree.head ≠ some chain.tree.size := by
        rw [hadds.head_eq, if_neg htop]
        exact fun hsize => Nat.lt_irrefl _ (h.valid.head_lt _ hsize)
      rw [if_neg hold] at hevents
      exact .beside hresult hevents hhead

end Sound

/-- What is reported of an insertion. -/
structure Reported (chain : Chain) (block : Block) : Prop where
  refused : ∀ e, (chain.insert block).result = .error e →
    (chain.insert block).effects = [] ∧ (chain.insert block).chain.head? = chain.head?
  /-- An admitted block is reported with its place in the tree, and after that as the new head if the
  head has changed. -/
  admitted : ∀ place, (chain.insert block).result = .ok place →
    place.hash = block.hash ∧ (chain.insert block).chain.height? block.hash = some place.height
      ∧ (chain.insert block).events = .insertBlock place.hash place.height ::
        if (chain.insert block).chain.head? = chain.head? then []
        else [.updateHead place.hash place.height]

theorem Sound.reported (h : chain.Sound economics difficulty) (block : Block) :
    chain.Reported block := by
  constructor
  case refused =>
    intro e hresult
    refine ⟨effects_of_error hresult, ?_⟩
    cases h.lands block with
    | refused _ htree => rw [head?, head?, htree]
    | beside hok => cases hresult.symm.trans hok
    | onTop hok => cases hresult.symm.trans hok
  case admitted =>
    intro place hresult
    obtain ⟨hhash, hheight⟩ := h.place_of_insert hresult
    refine ⟨hhash, hheight, ?_⟩
    cases h.lands block with
    | refused herror => cases hresult.symm.trans herror
    | beside hok hevents hhead =>
      obtain rfl := Except.ok.inj (hresult.symm.trans hok)
      rw [hevents, if_pos hhead]
    | onTop hok hevents hhead =>
      obtain rfl := Except.ok.inj (hresult.symm.trans hok)
      rw [hevents, if_neg (hhead ▸ (h.head?_ne_size _ _).symm)]

/-! ## A whole history -/

/-- The heads reported so far are numbered from zero on by their heights, and the last one is the
head. -/
structure Tallies (chain : Chain) (heads : List Inserted) : Prop where
  heights_eq : heads.map (·.height) = List.range heads.length
  last_eq : heads.getLast? = chain.head?.map Head.place

namespace Tallies

variable {heads : List Inserted}

/-- The number that the next head gets. -/
theorem length_eq (h : chain.Tallies heads) : heads.length = chain.head?.elim 0 (·.height + 1) := by
  have hlast : (heads.map (·.height)).getLast? = chain.head?.map (·.height) := by
    rw [List.getLast?_map, h.last_eq, Option.map_map]
    rfl
  rw [h.heights_eq, List.getLast?_range] at hlast
  cases hhead : chain.head? with
  | none =>
    rw [hhead] at hlast
    split at hlast
    · next hnone => exact hnone
    · cases hlast
  | some head =>
    rw [hhead] at hlast
    split at hlast
    · cases hlast
    · next hsome =>
      have hheight : heads.length - 1 = head.height := Option.some.inj hlast
      simp only [Option.elim_some]
      omega

theorem insert (hsound : chain.Sound economics difficulty) (h : chain.Tallies heads)
    (block : Block) :
    (chain.insert block).chain.Tallies (heads ++ (chain.insert block).newHeads) := by
  cases hsound.lands block with
  | refused hresult htree =>
    have hnone : (chain.insert block).newHeads = [] := by
      rw [Insertion.newHeads, Insertion.events, effects_of_error hresult]
      rfl
    rw [hnone, List.append_nil]
    refine ⟨h.heights_eq, h.last_eq.trans ?_⟩
    rw [head?, head?, htree]
  | beside hresult hevents hhead =>
    have hnone : (chain.insert block).newHeads = [] := by
      rw [Insertion.newHeads, hevents]
      rfl
    rw [hnone, List.append_nil]
    exact ⟨h.heights_eq, hhead ▸ h.last_eq⟩
  | @onTop place hresult hevents hhead hheight =>
    have hone : (chain.insert block).newHeads = [place] := by
      rw [Insertion.newHeads, hevents]
      rfl
    rw [hone]
    constructor
    case heights_eq =>
      rw [List.map_append, h.heights_eq, List.length_append, List.length_singleton,
        List.range_succ, h.length_eq, ← hheight]
      rfl
    case last_eq =>
      rw [List.getLast?_concat, hhead]
      rfl

end Tallies

theorem tallies_newHeads (economics : Economics) (difficulty : Difficulty) (blocks : List Block) :
    (ofBlocks economics difficulty blocks).Tallies (newHeads economics difficulty blocks) := by
  induction blocks using List.reverseRecOn with
  | nil => exact ⟨rfl, rfl⟩
  | append_singleton blocks block ih =>
    rw [ofBlocks_concat, newHeads_concat]
    exact ih.insert (sound_ofBlocks economics difficulty blocks) block

end Chain

/-- What the heads reported tell about a chain. -/
structure HeadHistory (chain : Chain) (heads : List Inserted) : Prop where
  /-- They are one above the other, without a gap and without a repetition. -/
  heights_eq : heads.map (·.height) = List.range heads.length
  /-- As long as there is none, the chain is empty. -/
  headless : heads = [] → chain.head? = none ∧ chain.longest = []
  /-- The head and the end of the longest chain are the block of the last one. -/
  last : ∀ last, heads.getLast? = some last → ∃ node block,
    chain.head? = some ⟨node, last.hash, last.height⟩ ∧ chain.tree.block? node = some block
      ∧ chain.longest.getLast? = some block ∧ chain.block? last.hash = some block
      ∧ block.hash = last.hash

/-- **The reports tell the history of the head**, whatever blocks are inserted in whatever order. A
refused block is not reported. An admitted one is reported with its place in the tree, and then as the
new head if and only if the head has changed. -/
theorem headHistory_ofBlocks (economics : Economics) (difficulty : Difficulty)
    (blocks : List Block) :
    (∀ block, (Chain.ofBlocks economics difficulty blocks).Reported block)
      ∧ HeadHistory (Chain.ofBlocks economics difficulty blocks)
          (Chain.newHeads economics difficulty blocks) := by
  have hbuilt := Chain.built_ofBlocks economics difficulty blocks
  have htallies := Chain.tallies_newHeads economics difficulty blocks
  generalize Chain.ofBlocks economics difficulty blocks = chain at *
  generalize Chain.newHeads economics difficulty blocks = heads at *
  have hsound := hbuilt.sound
  have hwf := hsound.valid.toWellFormed
  refine ⟨hsound.reported, htallies.heights_eq, ?headless, ?last⟩
  case headless =>
    rintro rfl
    have hhead : chain.head? = none := Option.map_eq_none_iff.mp htallies.last_eq.symm
    have hmax := hsound.maxHeight_eq
    rw [hhead, maxHeight] at hmax
    have hnode : chain.tree.head = none := Option.map_eq_none_iff.mp hmax
    refine ⟨hhead, ?_⟩
    rw [Chain.longest, longestChain, hnode]
    rfl
  case last =>
    intro last hlast
    obtain ⟨head, hhead, rfl⟩ := Option.map_eq_some_iff.mp (htallies.last_eq.symm.trans hlast)
    obtain ⟨hnode, -, block, hblock, hhash⟩ := hsound.of_head? hhead
    obtain ⟨below, hpath⟩ := exists_chainTo_eq hblock
    refine ⟨head.node, block, hhead, hblock, ?_, ?_, hhash.symm⟩
    · rw [Chain.longest_eq hwf hbuilt.threaded hnode, hpath, List.getLast?_concat]
    · change chain.block? head.hash = some block
      rw [Chain.block?, hhash, hsound.lookup?_hash hblock]
      exact hblock

/-- The block that takes the head over to another fork is one above the head that it leaves. -/
example : Chain.newHeads ⟨9, 1, 2, 1⟩ ⟨0, 0⟩ twoForks
    = (twoForks.eraseIdx 2).mapIdx fun height block => ⟨block.hash, height⟩ := by
  decide +kernel

end RecordChain
