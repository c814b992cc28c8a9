import RecordChain.Proofs.Ledger.Effects

/-!
# Chains without money

The files are asked about an operation before its creator is, and what the operation does to them does
not depend on the price. So a chain that is replayed without economics keeps in step with the same
chain replayed with them, up to the operation that its creator cannot pay for, if there is one.

* **`unpriced`**: a ledger without its money.
* **`Outcome.Solvent`**: whatever went wrong, it was not for want of money. Such an outcome is the same
  without money, with the failure and with the effects that came before it (`applyOp_unpriced`,
  `applyOps_unpriced`, `applyBlock_unpriced`).
* **`feesAside_replay`**: with and without money a chain has the same files or the same error, if
  money does not run out.
-/

namespace RecordChain

/-- Whether an operation failed because its creator could not pay for it. -/
def LedgerError.lacksMoney : LedgerError → Bool
  | notEnoughMoney .. => true
  | _ => false

/-- Money is lacking where there is not enough of it for a fee. -/
theorem LedgerError.lacksMoney_iff {e : LedgerError} :
    e.lacksMoney = true ↔ ∃ account balance fee, e = .notEnoughMoney account balance fee := by
  cases e <;> simp [lacksMoney]

namespace Ledger

variable {ledger next : Ledger} {op : Operation} {height : Nat} {e : LedgerError}

/-- The ledger with its files and without its money. -/
def unpriced (ledger : Ledger) : Ledger := ⟨none, ∅, ledger.files⟩

/-- The outcome without the money of its ledger. -/
def Outcome.unpriced (outcome : Outcome) : Outcome := ⟨outcome.ledger.unpriced, outcome.failure⟩

/-- An outcome that is not a failure for want of money. -/
def Outcome.Solvent (outcome : Outcome) : Prop :=
  ∀ e, outcome.failure = some e → e.lacksMoney = false

theorem Outcome.solvent_of_none {outcome : Outcome} (h : outcome.failure = none) :
    outcome.Solvent := by
  intro e he
  cases h.symm.trans he

@[simp] theorem unpriced_credit (ledger : Ledger) (miner : Account) (kind : BlockKind) :
    (ledger.credit miner kind).unpriced = ledger.unpriced := by
  rw [unpriced, files_credit]
  rfl

@[simp] theorem credit_unpriced (ledger : Ledger) (miner : Account) (kind : BlockKind) :
    ledger.unpriced.credit miner kind = ledger.unpriced := rfl

/-- What the files refuse does not depend on prices. -/
theorem refusal?_unpriced (ledger : Ledger) (op : Operation) :
    ledger.unpriced.refusal? op = ledger.refusal? op := by
  cases op <;> rfl

theorem perform_unpriced (ledger : Ledger) (op : Operation) (height : Nat) :
    ledger.unpriced.perform op height = (ledger.perform op height).unpriced := by
  cases op <;> rfl

/-! ## One operation -/

/-- Nothing but want of money keeps an operation from being charged for. -/
theorem lacksMoney_of_charge (h : ledger.charge op = ⟨next, some e⟩) : e.lacksMoney = true := by
  have hfailure := ledger.failure_charge op
  rw [h] at hfailure
  split at hfailure <;> cases hfailure
  rfl

/-- Without money whatever the files admit takes effect. -/
theorem applyOp_of_unpriced (height : Nat) (hfree : ledger.economics = none)
    (h : ledger.refusal? op = none) :
    ledger.applyOp op height = ⟨ledger.perform op height, none⟩ := by
  have hcharge : ledger.charge op = ⟨ledger, none⟩ := by simp [charge, fee, hfree]
  exact applyOp_eq_ok_iff.mpr ⟨h, ledger, hcharge, rfl⟩

/-- An operation that does not fail for money does to the files what it does without prices. -/
theorem applyOp_unpriced (h : (ledger.applyOp op height).Solvent) :
    ledger.unpriced.applyOp op height = (ledger.applyOp op height).unpriced := by
  have hsame := ledger.refusal?_unpriced op
  cases hrefusal : ledger.refusal? op with
  | some e =>
    rw [applyOp_of_refusal height hrefusal, applyOp_of_refusal height (hsame.trans hrefusal)]
    rfl
  | none =>
    rw [applyOp_of_unpriced height rfl (hsame.trans hrefusal), perform_unpriced]
    -- With money the operation is charged for between the two.
    rcases ledger.charge_cases op with ⟨accounts, hcharge⟩ | ⟨e, hcharge⟩
    · rw [applyOp_eq_ok_iff.mpr ⟨hrefusal, _, hcharge, rfl⟩]
      cases op <;> rfl
    · have hfails : ledger.applyOp op height = ⟨ledger, some e⟩ := by
        rw [applyOp, hrefusal, hcharge]
      rw [hfails] at h
      cases (h e rfl).symm.trans (lacksMoney_of_charge hcharge)

/-! ## Blocks and chains -/

/-- Operations that do not fail for money do what they do without prices. Induction on the
operations. -/
theorem applyOps_unpriced {ops : List Operation} (h : (ledger.applyOps height ops).Solvent) :
    ledger.unpriced.applyOps height ops = (ledger.applyOps height ops).unpriced := by
  induction ops generalizing ledger with
  | nil => rfl
  | cons op rest ih =>
    have hfirst : (ledger.applyOp op height).Solvent →
        ledger.unpriced.applyOp op height = (ledger.applyOp op height).unpriced :=
      applyOp_unpriced
    rw [applyOps] at h ⊢
    rw [applyOps]
    generalize ledger.applyOp op height = outcome at h hfirst ⊢
    obtain ⟨next, failure⟩ := outcome
    cases failure with
    | none =>
      rw [hfirst (Outcome.solvent_of_none rfl)]
      exact ih h
    | some e =>
      rw [hfirst h]
      rfl

/-- A block that does not fail for money does what it does without prices. -/
theorem applyBlock_unpriced {block : Block} (h : (ledger.applyBlock block height).Solvent) :
    ledger.unpriced.applyBlock block height = (ledger.applyBlock block height).unpriced := by
  unfold applyBlock at h ⊢
  cases hkind : block.kind with
  | genesis =>
    dsimp only
    split
    · rfl
    · split <;> rfl
  | noOp =>
    dsimp only
    rw [credit_unpriced]
    split
    · rfl
    · rw [Outcome.unpriced, unpriced_credit]
  | regular =>
    rw [hkind] at h
    dsimp only
    rw [credit_unpriced, ← unpriced_credit ledger block.miner .regular]
    exact applyOps_unpriced h

/-- A chain that does not fail for money is replayed as without prices. Induction on the blocks. -/
theorem applyChain_unpriced {blocks : List Block}
    (h : ∀ e, ledger.applyChain height blocks = .error e → e.lacksMoney = false) :
    ledger.unpriced.applyChain height blocks = (ledger.applyChain height blocks).map unpriced := by
  induction blocks generalizing ledger height with
  | nil => rfl
  | cons block rest ih =>
    have hfirst : (ledger.applyBlock block height).Solvent →
        ledger.unpriced.applyBlock block height = (ledger.applyBlock block height).unpriced :=
      applyBlock_unpriced
    rw [applyChain] at h ⊢
    rw [applyChain]
    generalize ledger.applyBlock block height = outcome at h hfirst ⊢
    obtain ⟨next, failure⟩ := outcome
    cases failure with
    | none =>
      rw [hfirst (Outcome.solvent_of_none rfl)]
      exact ih h
    | some e =>
      rw [hfirst fun e' he' => h e' (congrArg Except.error (Option.some.inj he'))]
      rfl

/-- A chain that money does not stop is the same without money. -/
theorem replay_none_eq {economics : Option Economics} {path : List Block}
    (h : ∀ e, replay economics path = .error e → e.lacksMoney = false) :
    replay none path = (replay economics path).map unpriced :=
  applyChain_unpriced h

/-- What can be replayed with money can be replayed without, to the same files. -/
theorem replay_unpriced {economics : Option Economics} {path : List Block}
    (h : replay economics path = .ok ledger) : replay none path = .ok ledger.unpriced := by
  have hsame : replay none path = (replay economics path).map unpriced := by
    refine replay_none_eq fun e he => ?_
    cases h.symm.trans he
  rw [hsame, h]
  rfl

/-- An error that is not about money is there without money as well. -/
theorem replay_unpriced_of_error {economics : Option Economics} {path : List Block}
    (h : replay economics path = .error e) (hother : e.lacksMoney = false) :
    replay none path = .error e := by
  have hsame : replay none path = (replay economics path).map unpriced := by
    refine replay_none_eq fun e' he' => ?_
    rw [← Except.error.inj (h.symm.trans he')]
    exact hother
  rw [hsame, h]
  rfl

end Ledger

/-- How a chain with fees stands to the same chain without: money does not change the files, and the
only error it brings is that there is too little of it. -/
structure FeesAside (economics : Economics) (path : List Block) : Prop where
  files_eq : ∀ ledger, Ledger.replay (some economics) path = .ok ledger →
    ∃ free, Ledger.replay none path = .ok free ∧ free.files = ledger.files
  error_eq : ∀ e, Ledger.replay (some economics) path = .error e →
    (∀ account balance fee, e ≠ .notEnoughMoney account balance fee) →
      Ledger.replay none path = .error e
  error_cases : ∀ e, Ledger.replay none path = .error e →
    Ledger.replay (some economics) path = .error e
      ∨ ∃ account balance fee,
        Ledger.replay (some economics) path = .error (.notEnoughMoney account balance fee)

/-- **Fees have no bearing on the files**, whatever the blocks and whether or not they would be
admitted. -/
theorem feesAside_replay (economics : Economics) (path : List Block) :
    FeesAside economics path := by
  constructor
  case files_eq =>
    intro ledger h
    exact ⟨_, Ledger.replay_unpriced h, rfl⟩
  case error_eq =>
    intro e h hother
    refine Ledger.replay_unpriced_of_error h (Bool.eq_false_iff.mpr fun hlacks => ?_)
    obtain ⟨account, balance, fee, he⟩ := LedgerError.lacksMoney_iff.mp hlacks
    exact hother account balance fee he
  case error_cases =>
    intro e h
    cases hpriced : Ledger.replay (some economics) path with
    | ok ledger => cases h.symm.trans (Ledger.replay_unpriced hpriced)
    | error other =>
      cases hlacks : other.lacksMoney with
      | true =>
        obtain ⟨account, balance, fee, rfl⟩ := LedgerError.lacksMoney_iff.mp hlacks
        exact Or.inr ⟨account, balance, fee, rfl⟩
      | false => exact Or.inl (h.symm.trans (Ledger.replay_unpriced_of_error hpriced hlacks)).symm

end RecordChain
