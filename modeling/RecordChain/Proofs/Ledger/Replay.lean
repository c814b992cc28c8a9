import RecordChain.Ledger.Basic

/-!
# Replaying a chain in parts

A chain may be replayed up to any of its blocks and taken further from there, if the next block is
applied at the height that is its place in the whole chain (`replay_concat`).
-/

namespace RecordChain

theorem eq_ok_of_toOption {ε α : Type} {result : Except ε α} {a : α}
    (h : result.toOption = some a) : result = .ok a := by
  cases result with
  | error e => cases h
  | ok b => exact congrArg Except.ok (Option.some.inj h)

namespace Ledger

theorem Outcome.toExcept_eq_ok_iff {outcome : Outcome} {ledger : Ledger} :
    outcome.toExcept = .ok ledger ↔ outcome = ⟨ledger, none⟩ := by
  obtain ⟨after, failure⟩ := outcome
  cases failure <;> simp [toExcept]

theorem applyChain_cons (ledger : Ledger) (height : Nat) (block : Block) (rest : List Block) :
    ledger.applyChain height (block :: rest)
      = (ledger.applyBlock block height).toExcept.bind fun next =>
          next.applyChain (height + 1) rest := by
  rw [applyChain, Outcome.toExcept]
  obtain ⟨next, failure⟩ := ledger.applyBlock block height
  cases failure <;> rfl

theorem applyChain_append (ledger : Ledger) (height : Nat) (first second : List Block) :
    ledger.applyChain height (first ++ second)
      = (ledger.applyChain height first).bind fun next =>
          next.applyChain (height + first.length) second := by
  induction first generalizing ledger height with
  | nil => rfl
  | cons block rest ih =>
    rw [List.cons_append, applyChain_cons, applyChain_cons]
    cases (ledger.applyBlock block height).toExcept with
    | error e => rfl
    | ok next =>
      change next.applyChain (height + 1) (rest ++ second)
        = (next.applyChain (height + 1) rest).bind _
      rw [ih, List.length_cons, Nat.add_right_comm height 1 rest.length]
      rfl

theorem applyChain_singleton (ledger : Ledger) (height : Nat) (block : Block) :
    ledger.applyChain height [block] = (ledger.applyBlock block height).toExcept := by
  rw [applyChain_cons]
  cases (ledger.applyBlock block height).toExcept <;> rfl

/-- The last block of a chain applies to the ledger after the others, at the height that their
number gives. -/
theorem replay_concat (economics : Option Economics) (path : List Block) (block : Block) :
    replay economics (path ++ [block])
      = (replay economics path).bind fun ledger =>
          (ledger.applyBlock block path.length).toExcept := by
  rw [replay, applyChain_append, Nat.zero_add]
  simp only [applyChain_singleton]
  rfl

end Ledger
end RecordChain
