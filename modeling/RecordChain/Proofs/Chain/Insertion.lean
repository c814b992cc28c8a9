import RecordChain.Proofs.Chain.Valid

/-!
# What one insertion does to a sound chain

The judgement from the tree says it all: the answer, the new tree, and that an insertion asks the
peers nothing and sends them nothing.

* **`Sound.insert_of_error`**: a refused block leaves the tree as it was.
* **`Sound.insert_of_ok`**: an admitted block becomes one new node, and its height is answered.
* **`Sound.fresh_of_insert`**, **`Sound.place_of_insert`**, **`Sound.missing_of_insert`**: what the
  answer says about the tree, for those who see the answer only.
-/

namespace RecordChain.Chain

open ForkTree Validator

variable {economics : Economics} {difficulty : Difficulty} {chain : Chain} {block : Block}

/-- An insertion answers with the hash and the height of the new node. -/
theorem insert_result (chain : Chain) (block : Block) :
    (chain.insert block).result
      = (chain.validator.validateAndInsert chain.tree block).result.map fun id =>
          ⟨block.hash, (chain.insert block).chain.tree.heightAt id⟩ := by
  unfold insert
  split
  split
  · next hverdict =>
    rw [hverdict]
    rfl
  · next hverdict =>
    rw [hverdict]
    split <;> rfl

/-- An insertion by itself asks nobody and tells nobody. -/
theorem silent_insert (chain : Chain) (block : Block) :
    ∀ effect ∈ (chain.insert block).effects,
      effect.request? = none ∧ effect.broadcast? = none := by
  intro effect heffect
  unfold insert at heffect
  split at heffect
  split at heffect
  · cases heffect
  · split at heffect
    · simp only [List.mem_append, List.mem_map, List.mem_cons, List.not_mem_nil, or_false]
        at heffect
      rcases heffect with ⟨token, -, rfl⟩ | rfl | rfl <;> exact ⟨rfl, rfl⟩
    · cases List.mem_singleton.mp heffect
      exact ⟨rfl, rfl⟩

namespace Sound

/-- A block that is judged not to join is refused, and the tree stays. -/
theorem insert_of_error (h : Sound economics difficulty chain) {e : ValidationError}
    (hjudge : judge economics difficulty chain.tree block = .error e) :
    (chain.insert block).result = .error e ∧ (chain.insert block).chain.tree = chain.tree := by
  have hsettle := h.guards.settle_eq block
  rw [hjudge] at hsettle
  obtain ⟨htree, hresult⟩ := Prod.mk.inj hsettle
  rw [insert_result, insert_tree, ← htree, ← hresult]
  exact ⟨rfl, rfl⟩

/-- A block that is judged to join is added where it was judged to belong. -/
theorem insert_of_ok (h : Sound economics difficulty chain) {parent? : Option Nat}
    (hjudge : judge economics difficulty chain.tree block = .ok parent?) :
    (chain.insert block).result
        = .ok ⟨block.hash, (chain.insert block).chain.tree.heightAt chain.tree.size⟩
      ∧ chain.tree.Adds (chain.insert block).chain.tree
          ⟨block.hash, block, parent?.elim 0 (chain.tree.heightAt · + 1), parent?, none⟩ := by
  have hsettle := h.guards.settle_eq block
  rw [hjudge] at hsettle
  have hresult := congrArg Prod.snd hsettle
  rw [settle_ok_snd] at hresult
  have htree : (settle chain.tree block (.ok parent?)).1
      = (chain.validator.validateAndInsert chain.tree block).tree := congrArg Prod.fst hsettle
  constructor
  · rw [insert_result]
    dsimp only at hresult
    rw [← hresult]
    rfl
  · rw [insert_tree, ← htree]
    exact adds_settle chain.tree block parent?

/-- The validator answers the node that the block has become, which is the last one. -/
theorem node_of_ok (h : Sound economics difficulty chain) {id : Nat}
    (hid : (chain.validator.validateAndInsert chain.tree block).result = .ok id) :
    id = chain.tree.size := by
  have hresult := congrArg Prod.snd (h.guards.settle_eq block)
  dsimp only at hresult
  rw [hid] at hresult
  cases hjudge : judge economics difficulty chain.tree block with
  | error e =>
    rw [hjudge] at hresult
    cases hresult
  | ok parent? =>
    rw [hjudge, settle_ok_snd] at hresult
    exact (Except.ok.inj hresult).symm

/-- The place answered for an admitted block is where a look-up by its hash finds it. -/
theorem exists_place (h : Sound economics difficulty chain) {parent? : Option Nat}
    (hjudge : judge economics difficulty chain.tree block = .ok parent?) :
    ∃ place : Inserted, (chain.insert block).result = .ok place ∧ place.hash = block.hash
      ∧ (chain.insert block).chain.height? block.hash = some place.height := by
  obtain ⟨hresult, hadds⟩ := h.insert_of_ok hjudge
  refine ⟨_, hresult, rfl, ?_⟩
  have hfind : chain.tree.find block.hash = [] := by
    rw [← List.head?_eq_none_iff, h.guards.wellFormed.head?_find]
    exact first?_eq_none_iff.mpr (admitted_of_judge hjudge).1
  rw [height?, lookup?, hadds.find_eq, hfind]
  simp

theorem hashes_eq (h : Sound economics difficulty chain) :
    chain.tree.hashes = chain.tree.allBlocks.map (·.hash) :=
  h.guards.wellFormed.hashes_eq

theorem hashes_subset_insert (h : Sound economics difficulty chain) (block : Block) :
    chain.tree.hashes ⊆ (chain.insert block).chain.tree.hashes := by
  cases hjudge : judge economics difficulty chain.tree block with
  | error e =>
    rw [(h.insert_of_error hjudge).2]
    exact List.Subset.refl _
  | ok parent? =>
    rw [(h.insert_of_ok hjudge).2.hashes_eq]
    exact List.subset_append_left _ _

/-! ### Reading the answer -/

/-- A refusal is a judgement. -/
theorem judge_of_insert_error (h : Sound economics difficulty chain) {e : ValidationError}
    (hresult : (chain.insert block).result = .error e) :
    judge economics difficulty chain.tree block = .error e := by
  cases hjudge : judge economics difficulty chain.tree block with
  | error e' =>
    have hsame := (h.insert_of_error hjudge).1.symm.trans hresult
    rw [Except.error.inj hsame]
  | ok parent? =>
    rw [(h.insert_of_ok hjudge).1] at hresult
    cases hresult

/-- What was inserted was judged to join. -/
theorem judge_of_insert_ok (h : Sound economics difficulty chain) {place : Inserted}
    (hresult : (chain.insert block).result = .ok place) :
    ∃ parent?, judge economics difficulty chain.tree block = .ok parent? := by
  cases hjudge : judge economics difficulty chain.tree block with
  | error e => cases (h.insert_of_error hjudge).1.symm.trans hresult
  | ok parent? => exact ⟨parent?, rfl⟩

/-- A block that has joined was new, and its hash is in the tree from then on. -/
theorem fresh_of_insert (h : Sound economics difficulty chain) {place : Inserted}
    (hresult : (chain.insert block).result = .ok place) :
    block.hash ∉ chain.tree.hashes ∧ block.hash ∈ (chain.insert block).chain.tree.hashes := by
  obtain ⟨parent?, hjudge⟩ := h.judge_of_insert_ok hresult
  rw [(h.insert_of_ok hjudge).2.hashes_eq]
  exact ⟨(admitted_of_judge hjudge).1, List.mem_append_right _ List.mem_cons_self⟩

/-- The place answered is that of the block. -/
theorem place_of_insert (h : Sound economics difficulty chain) {place : Inserted}
    (hresult : (chain.insert block).result = .ok place) : place.hash = block.hash
      ∧ (chain.insert block).chain.height? block.hash = some place.height := by
  obtain ⟨parent?, hjudge⟩ := h.judge_of_insert_ok hresult
  obtain ⟨other, hother, hhash, hheight⟩ := h.exists_place hjudge
  obtain rfl := Except.ok.inj (hother.symm.trans hresult)
  exact ⟨hhash, hheight⟩

theorem mem_hashes_of_duplicate (h : Sound economics difficulty chain) {hash : BlockHash}
    (hresult : (chain.insert block).result = .error (.duplicateBlock hash)) :
    block.hash ∈ chain.tree.hashes :=
  judge_eq_duplicate_iff.mp ⟨hash, h.judge_of_insert_error hresult⟩

/-- A block that lacks its parent lacks the one it names. -/
theorem missing_of_insert (h : Sound economics difficulty chain) {child parent : BlockHash}
    (hresult : (chain.insert block).result = .error (.missingParent child parent)) :
    parent = block.previous ∧ block.previous ∉ chain.tree.hashes := by
  obtain ⟨-, hparent, -, -, hmissing⟩ := missingParent_of_judge (h.judge_of_insert_error hresult)
  exact ⟨hparent, hmissing⟩

end Sound

end RecordChain.Chain
