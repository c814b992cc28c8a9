import RecordChain.Ledger.Basic

/-!
# What readers see of a ledger

Balances are shown as they are. Files are shown once enough blocks follow the ones that wrote them:
with the last block at height `top`, something written at height `at` has `top - at` blocks on top
of it. A file appears when its creation is confirmed, with the longest run of its first records that
are confirmed. A deletion needs no confirmation.
-/

namespace RecordChain

/-- A file as readers see it. -/
structure FileView where
  creator : Account
  count : RecordNumber
  data : List Record
deriving DecidableEq

/-- The files that readers see, by name. -/
abbrev FileViews := Std.ExtTreeMap FileName FileView

/-- The balances that readers see, by account. -/
abbrev Balances := Std.ExtTreeMap Account Balance

/-- Whether at least `depth` blocks follow the one at height `written`, if the last is at `top`. -/
def isConfirmed (top written : Nat) (depth : Nat) : Bool := depth ≤ top - written

/-- The confirmed part of a file, if its creation is confirmed. -/
def File.view? (file : File) (confirmations : Confirmations) (top : Nat) : Option FileView :=
  if isConfirmed top file.createdAt confirmations.create then
    let data := (file.records.toList.takeWhile
      fun entry => isConfirmed top entry.1 confirmations.append).map (·.2)
    some ⟨file.creator, UInt16.ofNat data.length, data⟩
  else none

/-- The confirmed files of a ledger whose last block is at height `top`. -/
def Ledger.views (ledger : Ledger) (confirmations : Confirmations) (top : Nat) : FileViews :=
  ledger.files.filterMap fun _ file => file.view? confirmations top

/-- The balances after a chain of blocks. -/
def balancesAfter (economics : Economics) (path : List Block) : Except LedgerError Balances :=
  match Ledger.replay (some economics) path with
  | .ok ledger => .ok ledger.accounts
  | .error e => .error e

/-- The confirmed files after a chain of blocks. Fees have no bearing on them, so no money is
tracked. -/
def filesAfter (confirmations : Confirmations) (path : List Block) :
    Except LedgerError FileViews :=
  match path.length with
  | 0 => .ok ∅
  | top + 1 =>
    match Ledger.replay none path with
    | .ok ledger => .ok (ledger.views confirmations top)
    | .error e => .error e

end RecordChain
