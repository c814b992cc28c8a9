import RecordChain.Validator
import RecordChain.Proofs.ForkTree.WellFormed
import RecordChain.Proofs.Ledger.Replay

/-!
# What decides about a block

A block's acceptance depends on the tree alone: `judge` reads the nodes of the tree and replays the
whole chain that the block would end. It uses neither the index of the tree nor a kept ledger, so it
says what a validator is for. That a validator does answer so is shown beside its cache.

* **`judge`**: the parent that a block joins, no parent for a first block, or the error.
* **`settle`**: the tree and the answer that follow from a judgement.
* **`Judged`**: a judgement together with its reasons, one case for each way through the checks.
-/

namespace RecordChain

/-- Whether a block failed for want of its parent, the only failure that a later arrival can mend. -/
def ValidationError.lacksParent : ValidationError → Bool
  | missingParent .. => true
  | _ => false

namespace ForkTree

/-- The first node of a hash. -/
def first? (tree : ForkTree) (hash : BlockHash) : Option Nat :=
  (List.range tree.size).find? fun id => tree.hashes[id]? = some hash

/-- The first node that is found by a hash is the first node with this hash. -/
theorem WellFormed.head?_find {tree : ForkTree} (hwf : tree.WellFormed) (hash : BlockHash) :
    (tree.find hash).head? = tree.first? hash := by
  rw [hwf.find_eq, List.head?_filter]
  rfl

/-- There is no first node with a hash that is not in the tree. -/
theorem first?_eq_none_iff {tree : ForkTree} {hash : BlockHash} :
    tree.first? hash = none ↔ hash ∉ tree.hashes := by
  rw [first?, List.find?_eq_none, List.mem_iff_getElem?]
  simp only [List.mem_range, decide_eq_true_eq, not_exists]
  constructor
  · intro h id hid
    have hlt := (List.getElem?_eq_some_iff.mp hid).1
    exact h id (by simpa using hlt) hid
  · intro h id _
    exact h id

theorem hash_of_first? {tree : ForkTree} {hash : BlockHash} {id : Nat}
    (h : tree.first? hash = some id) : tree.hashes[id]? = some hash := by
  simpa using List.find?_some h

theorem lt_size_of_first? {tree : ForkTree} {hash : BlockHash} {id : Nat}
    (h : tree.first? hash = some id) : id < tree.size := by
  simpa using List.mem_range.mp (List.mem_of_find?_eq_some h)

/-- Whether some root is a first block. -/
def Rooted (tree : ForkTree) : Prop :=
  ∃ node ∈ tree.fixed, node.parent = none ∧ node.block.kind = .genesis

instance (tree : ForkTree) : Decidable tree.Rooted := by
  unfold Rooted
  infer_instance

end ForkTree

namespace Validator

open ForkTree

/-- Where a block joins the tree: nowhere with an error, as a root, or on top of a node. -/
def judge (economics : Economics) (difficulty : Difficulty) (tree : ForkTree) (block : Block) :
    Except ValidationError (Option Nat) :=
  if block.hash ∈ tree.hashes then .error (.duplicateBlock block.hash)
  else if block.hash.zeroBits < difficulty.required block.kind then
    .error (.invalidProofOfWork block.hash (difficulty.required block.kind))
  else if block.kind = .genesis then
    if tree.Rooted then .error (.duplicateGenesis block.hash)
    else match Ledger.replay (some economics) [block] with
      | .error e => .error (.badState e)
      | .ok _ => .ok none
  else match tree.first? block.previous with
    | none => .error (.missingParent block.hash block.previous)
    | some parent =>
      match Ledger.replay (some economics) (tree.chainTo parent ++ [block]) with
      | .error e => .error (.badState e)
      | .ok _ => .ok (some parent)

/-- The tree after a judgement on a block, and the new node or the error. -/
def settle (tree : ForkTree) (block : Block) :
    Except ValidationError (Option Nat) → ForkTree × Except ValidationError Nat
  | .error e => (tree, .error e)
  | .ok none => ((tree.insertRoot block).1, .ok tree.size)
  | .ok (some parent) => ((tree.insertChild block parent).1, .ok tree.size)

/-- A block that may join becomes the new node. -/
theorem adds_settle (tree : ForkTree) (block : Block) (parent? : Option Nat) :
    tree.Adds (settle tree block (.ok parent?)).1
      ⟨block.hash, block, parent?.elim 0 (tree.heightAt · + 1), parent?, none⟩ := by
  cases parent? with
  | none => exact adds_insertRoot tree block
  | some parent => exact adds_insertChild tree block parent

theorem settle_ok_snd (tree : ForkTree) (block : Block) (parent? : Option Nat) :
    (settle tree block (.ok parent?)).2 = .ok tree.size := by
  cases parent? <;> rfl

/-! ## Reading a judgement -/

section Judged

variable {economics : Economics} {difficulty : Difficulty} {tree : ForkTree} {block : Block}

/-- What holds of a block that gets past the first two checks. -/
structure Presentable (difficulty : Difficulty) (tree : ForkTree) (block : Block) : Prop where
  fresh : block.hash ∉ tree.hashes
  work : difficulty.required block.kind ≤ block.hash.zeroBits

/-- A judgement with the reasons for it. -/
inductive Judged (economics : Economics) (difficulty : Difficulty) (tree : ForkTree)
    (block : Block) : Except ValidationError (Option Nat) → Prop
  | duplicate (hash : block.hash ∈ tree.hashes) :
    Judged economics difficulty tree block (.error (.duplicateBlock block.hash))
  | idle (fresh : block.hash ∉ tree.hashes)
    (work : block.hash.zeroBits < difficulty.required block.kind) :
    Judged economics difficulty tree block
      (.error (.invalidProofOfWork block.hash (difficulty.required block.kind)))
  | secondRoot (presentable : Presentable difficulty tree block) (kind : block.kind = .genesis)
    (rooted : tree.Rooted) :
    Judged economics difficulty tree block (.error (.duplicateGenesis block.hash))
  | badRoot (e : LedgerError) (presentable : Presentable difficulty tree block)
    (kind : block.kind = .genesis) (rooted : ¬ tree.Rooted)
    (replay : Ledger.replay (some economics) [block] = .error e) :
    Judged economics difficulty tree block (.error (.badState e))
  | root (ledger : Ledger) (presentable : Presentable difficulty tree block)
    (kind : block.kind = .genesis) (rooted : ¬ tree.Rooted)
    (replay : Ledger.replay (some economics) [block] = .ok ledger) :
    Judged economics difficulty tree block (.ok none)
  | orphan (presentable : Presentable difficulty tree block) (kind : block.kind ≠ .genesis)
    (missing : block.previous ∉ tree.hashes) :
    Judged economics difficulty tree block (.error (.missingParent block.hash block.previous))
  | badChild (parent : Nat) (e : LedgerError) (presentable : Presentable difficulty tree block)
    (kind : block.kind ≠ .genesis) (found : tree.first? block.previous = some parent)
    (replay : Ledger.replay (some economics) (tree.chainTo parent ++ [block]) = .error e) :
    Judged economics difficulty tree block (.error (.badState e))
  | child (parent : Nat) (ledger : Ledger) (presentable : Presentable difficulty tree block)
    (kind : block.kind ≠ .genesis) (found : tree.first? block.previous = some parent)
    (replay : Ledger.replay (some economics) (tree.chainTo parent ++ [block]) = .ok ledger) :
    Judged economics difficulty tree block (.ok (some parent))

/-- Every judgement is one of those that are told apart, with what speaks for it. -/
theorem judged_judge (economics : Economics) (difficulty : Difficulty) (tree : ForkTree)
    (block : Block) :
    Judged economics difficulty tree block (judge economics difficulty tree block) := by
  unfold judge
  split
  · next hdup => exact .duplicate hdup
  · next hfresh =>
    split
    · next hwork => exact .idle hfresh hwork
    · next hwork =>
      have hpresentable : Presentable difficulty tree block := ⟨hfresh, Nat.le_of_not_lt hwork⟩
      split
      · next hkind =>
        split
        · next hrooted => exact .secondRoot hpresentable hkind hrooted
        · next hrooted =>
          split
          · next e hreplay => exact .badRoot e hpresentable hkind hrooted hreplay
          · next ledger hreplay => exact .root ledger hpresentable hkind hrooted hreplay
      · next hkind =>
        split
        · next hfirst => exact .orphan hpresentable hkind (first?_eq_none_iff.mp hfirst)
        · next parent hfirst =>
          split
          · next e hreplay => exact .badChild parent e hpresentable hkind hfirst hreplay
          · next ledger hreplay => exact .child parent ledger hpresentable hkind hfirst hreplay

theorem judged_of_judge {judgement : Except ValidationError (Option Nat)}
    (h : judge economics difficulty tree block = judgement) :
    Judged economics difficulty tree block judgement :=
  h ▸ judged_judge economics difficulty tree block

/-- A block that is admitted is new and has its place. -/
theorem admitted_of_judge {parent? : Option Nat}
    (h : judge economics difficulty tree block = .ok parent?) :
    block.hash ∉ tree.hashes ∧ (block.kind = .genesis ∨ block.previous ∈ tree.hashes) := by
  cases judged_of_judge h with
  | root ledger presentable kind => exact ⟨presentable.fresh, Or.inl kind⟩
  | child parent ledger presentable kind found =>
    exact ⟨presentable.fresh, Or.inr (List.mem_of_getElem? (hash_of_first? found))⟩

/-- A block that lacks its parent is new, and the parent is the one it names. -/
theorem missingParent_of_judge {child parent : BlockHash}
    (h : judge economics difficulty tree block = .error (.missingParent child parent)) :
    child = block.hash ∧ parent = block.previous ∧ block.hash ∉ tree.hashes
      ∧ block.kind ≠ .genesis ∧ block.previous ∉ tree.hashes := by
  have hjudged := judged_judge economics difficulty tree block
  rw [h] at hjudged
  -- Matching the errors directly would compare hashes by computing them.
  generalize heq : Except.error (ValidationError.missingParent child parent) = judgement at hjudged
  cases hjudged with
  | orphan presentable kind missing =>
    obtain ⟨rfl, rfl⟩ := ValidationError.missingParent.inj (Except.error.inj heq)
    exact ⟨rfl, rfl, presentable.fresh, kind, missing⟩
  | _ => cases heq

/-- A block is a duplicate if its hash is in the tree. -/
theorem judge_eq_duplicate_iff :
    (∃ hash, judge economics difficulty tree block = .error (.duplicateBlock hash))
      ↔ block.hash ∈ tree.hashes := by
  constructor
  · rintro ⟨hash, h⟩
    have hjudged := judged_judge economics difficulty tree block
    rw [h] at hjudged
    generalize heq : Except.error (ValidationError.duplicateBlock hash) = judgement at hjudged
    cases hjudged with
    | duplicate hash => exact hash
    | _ => cases heq
  · intro h
    exact ⟨block.hash, if_pos h⟩

end Judged

end Validator

end RecordChain
