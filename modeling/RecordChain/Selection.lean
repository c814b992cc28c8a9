import RecordChain.JobQueue
import RecordChain.Ledger.Basic

/-!
# What to mine next

From the queue a miner takes the oldest operations that apply one after another on the ledger at the
head, up to a limit. The miner's reward is paid before, since it can pay for operations of the same
block. An operation that can never apply is dropped from the queue. One that may apply later is
postponed, and so are all later ones that fail on the same file, as they may depend on it.
-/

namespace RecordChain

/-- What a pass over the queue comes to. -/
structure Selection where
  /-- The operations to mine, in queue order. -/
  chosen : List Operation
  /-- The operations that can never apply, in queue order, each with the reason. -/
  dropped : List (Operation × LedgerError)
  /-- The ledger after the chosen operations. -/
  ledger : Ledger

namespace Selection

/-- Chooses at most `room` operations to apply at some height. `postponed` holds the files with an
operation that was postponed. -/
def pass (height : Nat) : Nat → Ledger → List FileName → List Operation → Selection
  | 0, ledger, _, _ => ⟨[], [], ledger⟩
  | _ + 1, ledger, _, [] => ⟨[], [], ledger⟩
  | room + 1, ledger, postponed, op :: rest =>
    match ledger.applyOp op height with
    | ⟨ledger, none⟩ =>
      let later := pass height room ledger postponed rest
      { later with chosen := op :: later.chosen }
    | ⟨ledger, some e⟩ =>
      -- Behind a postponed operation on the same file a failure proves nothing.
      if e.isRetryable || op.file ∈ postponed then
        pass height (room + 1) ledger (op.file :: postponed) rest
      else
        let later := pass height (room + 1) ledger postponed rest
        { later with dropped := (op, e) :: later.dropped }

end Selection

/-- The most operations that a mined block carries: one less than configured, and at least one. -/
def MinerConfig.limit (config : MinerConfig) : Nat := max (config.opsPerBlock - 1) 1

/-- Chooses operations for a block on top of the block at some height, with the ledger after it. -/
def MinerConfig.select (config : MinerConfig) (ledger : Ledger) (headHeight : Nat)
    (jobs : List Operation) : Selection :=
  Selection.pass (headHeight + 1) config.limit (ledger.credit config.miner .regular) [] jobs

end RecordChain
