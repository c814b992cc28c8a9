import RecordChain.Proofs.Adoption.Progress

/-!
# What a call to add a block leaves and answers

The outcome of a call against peers that may answer anything, said without the call's own stack: which
blocks it came to, which of them are in the tree afterwards, and what the answer tells about them.

* **`Adopted`**: the full account of an outcome.
* **`exists_adopted`**: every call on a chain built by insertions has an outcome of this kind.
-/

namespace RecordChain

namespace Adoption

open ForkTree Validator

/-- What became of a call for `block` on a chain with the tree `before`. The call came to the blocks
of `line`, of which it added `added`; `tried` are its attempts to insert a block. Both lists start
with the ancestor that is furthest away. -/
structure Adopted (peers : Peers) (limit : Nat) (block : Block) (before : ForkTree)
    (outcome : Outcome) (tried : List Attempt) (line added : List Block) : Prop where
  lineage : Lineage peers block line
  /-- At most `limit` ancestors. -/
  length_le : line.length ≤ limit + 1
  added_prefix : added <+: line
  grows : before.GrowsTo outcome.chain.tree
  allBlocks_eq : outcome.chain.tree.allBlocks = before.allBlocks ++ added
  /-- What is added hangs together with the old tree. -/
  anchored : ∀ first ∈ added.head?, first.kind = .genesis ∨ first.previous ∈ before.hashes
  ok_iff : (∃ place, outcome.result = .ok place) ↔ block ∈ added
  place_eq : ∀ place, outcome.result = .ok place →
    place.hash = block.hash ∧ outcome.chain.height? block.hash = some place.height
  broadcasts_eq : outcome.effects.filterMap (·.broadcast?)
    = if block ∈ added then [.block block] else []
  /-- The block is rejected for what an attempt to insert it found, but never for want of its
  parent. -/
  rejected_iff : ∀ e, outcome.result = .error (.rejected e)
    ↔ (block, .error e) ∈ tried ∧ e.lacksParent = false
  duplicate_iff : (∃ hash, outcome.result = .error (.rejected (.duplicateBlock hash)))
    ↔ block.hash ∈ before.hashes
  /-- The hash named is either that of the ancestor that failed a check, and what was added by then
  stays, or that of the parent that is not to be had, and then nothing was added: it is one of the
  blocks that wait already, or it is one too far, or the peers do not have it. -/
  orphaned : ∀ top missing, outcome.result = .error (.orphaned top missing) →
    top = block.hash ∧ ∃ last earlier, line = added ++ last :: earlier
      ∧ (missing = last.hash ∧ last ≠ block
          ∧ (∃ e, (last, .error e) ∈ tried ∧ e.lacksParent = false)
        ∨ missing = last.previous ∧ added = [] ∧ missing ∉ before.hashes
          ∧ (missing ∈ line.map (·.hash) ∨ line.length = limit + 1
            ∨ ∀ b, peers.block? (earlier.map (·.previous)) missing = some b → b.hash ≠ missing))

namespace Ended

variable {s : Setting} {outcome : Outcome} {tried : List Attempt} {line added rest : List Block}
  {requests : List BlockHash} {messages : List Message}
  (h : Ended s outcome tried line added rest requests messages)

include h

/-- The block that the call is about joins last. -/
theorem mem_added_iff : s.block ∈ added ↔ rest = [] := by
  have hline := h.line_eq
  constructor
  · intro hmem
    by_contra hrest
    obtain ⟨front, back, rfl⟩ := List.append_of_mem hmem
    rw [List.append_assoc, List.cons_append] at hline
    refine h.descent.ne_of_rest hline ?_ rfl
    exact fun hnil => hrest (List.append_eq_nil_iff.mp hnil).2
  · rintro rfl
    obtain ⟨ancestors, hancestors⟩ := h.descent.lineage.eq_concat
    rw [← List.append_nil added, ← hline, hancestors]
    exact List.mem_append_right _ List.mem_cons_self

/-- As long as others are left, the block itself was not added. -/
theorem not_mem_added (hrest : rest ≠ []) : s.block ∉ added := mt h.mem_added_iff.mp hrest

/-- Nothing is asked about a block that is there already. -/
theorem line_eq_singleton (hmem : s.block.hash ∈ s.before.hashes) : line = [s.block] := by
  obtain ⟨ancestors, hancestors⟩ := h.descent.lineage.eq_concat
  cases ancestors with
  | nil => exact hancestors
  | cons first ancestors =>
    refine absurd hmem (h.descent.of_mem_tail (b := s.block) ?_).1
    simp [hancestors]

/-- A call succeeds if its own block was added. -/
theorem ok_iff : (∃ place, outcome.result = .ok place) ↔ s.block ∈ added := by
  have hmem := h.mem_added_iff
  have ending := h.ending
  generalize outcome.result = result at ending ⊢
  cases ending with
  | joined place => exact ⟨fun _ => hmem.mpr rfl, fun _ => ⟨place, rfl⟩⟩
  | _ =>
    constructor
    · rintro ⟨place, hplace⟩
      cases hplace
    · intro hadded
      cases hmem.mp hadded

theorem place_eq (place : Inserted) (hresult : outcome.result = .ok place) :
    place.hash = s.block.hash ∧ outcome.chain.height? s.block.hash = some place.height := by
  have ending := h.ending
  rw [hresult] at ending
  cases ending with
  | joined _ hash_eq height_eq => exact ⟨hash_eq, height_eq⟩

/-- The own block is broadcast if it was added, and nothing else is. -/
theorem broadcasts_eq : outcome.effects.filterMap (·.broadcast?)
    = if s.block ∈ added then [.block s.block] else [] := by
  rw [h.traffic.messages_eq]
  have hmem := h.mem_added_iff
  have ending := h.ending
  generalize outcome.result = result at ending
  cases ending with
  | joined => rw [if_pos (hmem.mpr rfl)]
  | _ => rw [if_neg (h.not_mem_added (List.cons_ne_nil _ _))]

/-- A call is rejected for what was wrong with its own block. -/
theorem rejected_iff (e : ValidationError) : outcome.result = .error (.rejected e)
    ↔ (s.block, .error e) ∈ tried ∧ e.lacksParent = false := by
  constructor
  · intro hresult
    have ending := h.ending
    rw [hresult] at ending
    cases ending with
    | rejected _ last judged parent => exact ⟨last, parent⟩
  · rintro ⟨htried, hparent⟩
    refine (h.heeds e htried).resolve_left ?_
    rw [hparent]
    exact Bool.false_ne_true

/-- A call is rejected as a duplicate if the block was in the tree before. -/
theorem duplicate_iff : (∃ hash, outcome.result = .error (.rejected (.duplicateBlock hash)))
    ↔ s.block.hash ∈ s.before.hashes := by
  have ascent := h.ascent
  have ending := h.ending
  constructor
  · rintro ⟨hash, hresult⟩
    rw [hresult] at ending
    cases ending with
    | rejected e last judged parent =>
      have hmem := judge_eq_duplicate_iff.mp ⟨hash, judged⟩
      rw [ascent.hashes_eq, List.mem_append] at hmem
      exact hmem.resolve_right (h.descent.hash_not_mem h.line_eq)
  · intro hmem
    have hline := h.line_eq
    rw [h.line_eq_singleton hmem] at hline
    generalize outcome.result = result at ending ⊢
    cases ending with
    | joined =>
      -- What joins is new.
      rw [List.append_nil] at hline
      exact absurd hmem (ascent.fresh s.block (hline ▸ List.mem_singleton_self _))
    | rejected e last judged parent =>
      have hadded : added = [] := List.self_eq_append_left.mp hline
      rw [ascent.tree_eq hadded] at judged
      obtain ⟨hash, hjudge⟩ := judge_eq_duplicate_iff.mpr hmem
      cases judged.symm.trans hjudge
      exact ⟨hash, rfl⟩
    | barred next rest e more =>
      -- There is no ancestor that could bar it.
      have hlength := congrArg List.length hline
      have hpos := List.length_pos_iff.mpr more
      simp only [List.length_append, List.length_cons, List.length_nil] at hlength
      omega
    | gaveUp last earlier untouched judged =>
      rw [untouched, List.nil_append] at hline
      cases hline
      exact absurd hmem (missingParent_of_judge judged).2.2.1
    | unanswered last earlier untouched judged =>
      rw [untouched, List.nil_append] at hline
      cases hline
      exact absurd hmem (missingParent_of_judge judged).2.2.1

theorem orphaned (top missing : BlockHash)
    (hresult : outcome.result = .error (.orphaned top missing)) :
    top = s.block.hash ∧ ∃ last earlier, line = added ++ last :: earlier
      ∧ (missing = last.hash ∧ last ≠ s.block
          ∧ (∃ e, (last, .error e) ∈ tried ∧ e.lacksParent = false)
        ∨ missing = last.previous ∧ added = [] ∧ missing ∉ s.before.hashes
          ∧ (missing ∈ line.map (·.hash) ∨ line.length = s.limit + 1
            ∨ ∀ b, s.peers.block? (earlier.map (·.previous)) missing = some b →
                b.hash ≠ missing)) := by
  have ending := h.ending
  have hline := h.line_eq
  generalize outcome.result = result at ending hresult
  cases ending with
  | joined => cases hresult
  | rejected => cases hresult
  | barred next rest e more last judged fresh parent =>
    obtain ⟨rfl, rfl⟩ := AdoptionError.orphaned.inj (Except.error.inj hresult)
    have hnext := h.descent.ne_of_rest hline more
    exact ⟨rfl, next, rest, hline, Or.inl ⟨rfl, hnext, e, last, parent⟩⟩
  | gaveUp last earlier untouched judged reason =>
    obtain ⟨rfl, rfl⟩ := AdoptionError.orphaned.inj (Except.error.inj hresult)
    obtain ⟨-, -, -, -, hmissing⟩ := missingParent_of_judge judged
    refine ⟨rfl, last, earlier, hline, Or.inr ⟨rfl, untouched, hmissing, ?_⟩⟩
    rw [untouched, List.nil_append] at hline
    rw [hline]
    rcases reason with hwaits | hlimit
    · exact Or.inl hwaits
    · have hlength := h.descent.length_le
      rw [hline, List.length_cons] at hlength
      exact Or.inr (Or.inl (by rw [List.length_cons]; omega))
  | unanswered last earlier untouched judged reason =>
    obtain ⟨rfl, rfl⟩ := AdoptionError.orphaned.inj (Except.error.inj hresult)
    obtain ⟨-, -, -, -, hmissing⟩ := missingParent_of_judge judged
    exact ⟨rfl, last, earlier, hline,
      Or.inr ⟨rfl, untouched, hmissing, Or.inr (Or.inr reason)⟩⟩

end Ended

end Adoption

open Adoption in
/-- **The outcome of adding a block, whatever the peers answer.** The chain may be any that
insertions build. -/
theorem exists_adopted (economics : Economics) (difficulty : Difficulty) (blocks : List Block)
    (peers : Peers) (limit : Nat) (block : Block) :
    ∃ line added,
      Adopted peers limit block (Chain.ofBlocks economics difficulty blocks).tree
        ((Chain.ofBlocks economics difficulty blocks).adopt peers limit block)
        ((start limit block).attempts peers (Chain.ofBlocks economics difficulty blocks))
        line added := by
  have hsound := Chain.sound_ofBlocks economics difficulty blocks
  obtain ⟨line, added, rest, requests, messages, h⟩ := ended_adopt hsound peers limit block
  exact ⟨line, added,
    { lineage := h.descent.lineage
      length_le := h.descent.length_le
      added_prefix := h.line_eq ▸ List.prefix_append added rest
      grows := h.ascent.grows
      allBlocks_eq := h.ascent.allBlocks_eq
      anchored := h.ascent.anchored
      ok_iff := h.ok_iff
      place_eq := h.place_eq
      broadcasts_eq := h.broadcasts_eq
      rejected_iff := h.rejected_iff
      duplicate_iff := h.duplicate_iff
      orphaned := h.orphaned }⟩

end RecordChain
