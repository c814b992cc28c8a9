import RecordChain.Proofs.Ledger.Conservation

/-!
# What an operation touches

An operation is checked against its file, then paid for, then performed, and money is taken before
the file changes. Nevertheless it is all or nothing. It looks at one file and one account and changes
no other, so that operations on different files and accounts can trade places.

* **`Operation.bill`**: what an operation makes of the entry of some account, beside
  `Operation.rewrite` for the entry of some file.
* **`CarriedOut`**: a ledger after an operation that succeeds, entry by entry.
* **`failure_congr`**: all that decides whether an operation fails, and with which error.
* **`atomic_applyOp`**: what an operation leaves alone, and which operations can trade places.
-/

namespace RecordChain

/-- What an operation at some fee makes of the balance of some account. A fee of nothing is not
charged, so that it opens no account. -/
def Operation.bill (op : Operation) (fee : Balance) (account : Account)
    (balance? : Option Balance) : Option Balance :=
  if op.creator = account ∧ fee ≠ 0 then some (balance?.getD 0 - fee) else balance?

/-- An operation bills nobody but its creator. -/
theorem Operation.bill_of_ne {op : Operation} {account : Account} (h : op.creator ≠ account)
    (fee : Balance) (balance? : Option Balance) : op.bill fee account balance? = balance? :=
  if_neg fun hbilled => h hbilled.1

namespace Ledger

variable {ledger other before after : Ledger} {op : Operation} {height : Nat}

/-- A ledger is known by its entries. -/
theorem eq_of_entries (heconomics : ledger.economics = other.economics)
    (haccounts : ∀ account : Account, ledger.accounts[account]? = other.accounts[account]?)
    (hfiles : ∀ name : FileName, ledger.files[name]? = other.files[name]?) : ledger = other := by
  cases ledger
  cases other
  obtain rfl := heconomics
  obtain rfl := Std.ExtTreeMap.ext_getElem? haccounts
  obtain rfl := Std.ExtTreeMap.ext_getElem? hfiles
  rfl

/-! ## Whether an operation fails -/

/-- Whether an operation fails, and with which error, is decided by the file that it names and by the
balance of its creator. -/
theorem failure_congr (heconomics : ledger.economics = other.economics)
    (hfile : ledger.files[op.file]? = other.files[op.file]?)
    (hbalance : ledger.balance op.creator = other.balance op.creator) (height level : Nat) :
    (ledger.applyOp op height).failure = (other.applyOp op level).failure := by
  rw [failure_applyOp, failure_applyOp, failure_charge, failure_charge, refusal?_congr hfile,
    heconomics, hbalance]

/-- An operation applies if it is not refused and its fee is covered. -/
theorem failure_eq_none_iff : (ledger.applyOp op height).failure = none
    ↔ ledger.refusal? op = none ∧ fee ledger.economics op ≤ ledger.balance op.creator := by
  rw [failure_applyOp, Option.or_eq_none_iff, failure_charge]
  simp

theorem ledger_of_failure {e : LedgerError} (h : (ledger.applyOp op height).failure = some e) :
    (ledger.applyOp op height).ledger = ledger :=
  applyOp_failed (Outcome.eq_of_failure h)

/-! ## What an operation leaves -/

/-- What an operation that succeeds leaves of each entry. -/
structure CarriedOut (before : Ledger) (op : Operation) (height : Nat) (after : Ledger) : Prop where
  economics_eq : after.economics = before.economics
  covered : fee before.economics op ≤ before.balance op.creator
  account_eq : ∀ account : Account,
    after.accounts[account]? = op.bill (fee before.economics op) account before.accounts[account]?
  file_eq : ∀ name : FileName, after.files[name]? = op.rewrite height name before.files[name]?

/-- A fee that is covered is charged, and changes the entry of the payer only. -/
theorem charge_of_covered (h : fee ledger.economics op ≤ ledger.balance op.creator) :
    ∃ paid, ledger.charge op = ⟨paid, none⟩ ∧ paid.economics = ledger.economics
      ∧ ∀ account : Account, paid.accounts[account]?
          = op.bill (fee ledger.economics op) account ledger.accounts[account]? := by
  unfold charge Operation.bill
  dsimp only
  split
  · next hfree =>
    refine ⟨ledger, rfl, rfl, fun account => ?_⟩
    rw [hfree]
    exact (if_neg fun hbilled => hbilled.2 rfl).symm
  · next hfee =>
    rw [if_neg (UInt64.not_lt.mpr h)]
    refine ⟨_, rfl, rfl, fun account => ?_⟩
    by_cases heq : op.creator = account
    · obtain rfl := heq
      rw [if_pos ⟨rfl, hfee⟩]
      exact Std.ExtTreeMap.getElem?_insert_self
    · rw [if_neg fun hbilled => heq hbilled.1]
      exact (Std.ExtTreeMap.getElem?_insert ..).trans
        (if_neg (mt Std.LawfulEqCmp.compare_eq_iff_eq.mp heq))

/-- An operation that applies is carried out. -/
theorem carriedOut_of_failure_eq_none (h : (ledger.applyOp op height).failure = none) :
    ledger.CarriedOut op height (ledger.applyOp op height).ledger := by
  obtain ⟨hrefusal, hcovered⟩ := failure_eq_none_iff.mp h
  obtain ⟨paid, hcharge, heconomics, haccounts⟩ := charge_of_covered hcovered
  have hdone : ledger.applyOp op height = ⟨paid.perform op height, none⟩ :=
    applyOp_eq_ok_iff.mpr ⟨hrefusal, paid, hcharge, rfl⟩
  obtain ⟨hperformed, hsame⟩ := accounts_perform paid op height
  rw [hdone]
  constructor
  case economics_eq => exact hsame.trans heconomics
  case covered => exact hcovered
  case account_eq =>
    intro account
    rw [← haccounts, ← hperformed]
  case file_eq =>
    intro name
    rw [getElem?_perform, files_of_charge hcharge]

namespace CarriedOut

variable (h : before.CarriedOut op height after)

include h

theorem getElem?_accounts_of_ne {account : Account} (hne : op.creator ≠ account) :
    after.accounts[account]? = before.accounts[account]? := by
  rw [h.account_eq, Operation.bill_of_ne hne]

theorem getElem?_files_of_ne {name : FileName} (hne : op.file ≠ name) :
    after.files[name]? = before.files[name]? := by
  rw [h.file_eq, Operation.rewrite_of_ne hne]

/-- What the creator has left is what was there, less the fee. -/
theorem balance_creator :
    after.balance op.creator = before.balance op.creator - fee before.economics op := by
  rw [balance, h.account_eq, Operation.bill]
  split
  · rfl
  · next hfree =>
    have hzero : fee before.economics op = 0 := by simpa using hfree
    rw [hzero, UInt64.sub_zero, balance]

/-- Who pays has an account already. -/
theorem mem_accounts_iff (account : Account) :
    account ∈ after.accounts ↔ account ∈ before.accounts := by
  rw [Std.ExtTreeMap.mem_iff_isSome_getElem?, Std.ExtTreeMap.mem_iff_isSome_getElem?, h.account_eq,
    Operation.bill]
  split
  · next hbilled =>
    obtain ⟨rfl, hfee⟩ := hbilled
    have hpos : 0 < fee before.economics op := UInt64.pos_iff_ne_zero.mpr hfee
    have hopen : op.creator ∈ before.accounts := mem_of_balanceOf_pos
      (UInt64.lt_iff_toNat_lt.mp (UInt64.lt_of_lt_of_le hpos h.covered))
    rw [Std.ExtTreeMap.mem_iff_isSome_getElem?] at hopen
    simp [hopen]
  · rfl

end CarriedOut

/-! ## Operations that are apart -/

section Apart

variable {first second : Operation} {level : Nat}

/-- An operation on another file and account has no say in whether an operation fails. -/
theorem failure_of_apart (hfile : second.file ≠ first.file)
    (hcreator : second.creator ≠ first.creator) (ledger : Ledger) (height level : Nat) :
    ((ledger.applyOp second level).ledger.applyOp first height).failure
      = (ledger.applyOp first height).failure := by
  cases hsecond : (ledger.applyOp second level).failure with
  | some e => rw [ledger_of_failure hsecond]
  | none =>
    have hdone := carriedOut_of_failure_eq_none hsecond
    refine failure_congr hdone.economics_eq (hdone.getElem?_files_of_ne hfile) ?_ height height
    rw [balance, balance, hdone.getElem?_accounts_of_ne hcreator]

/-- Operations on different files and accounts write to different entries. -/
theorem ledger_of_apart (hfile : first.file ≠ second.file)
    (hcreator : first.creator ≠ second.creator) (ledger : Ledger) (height level : Nat) :
    ((ledger.applyOp first height).ledger.applyOp second level).ledger
      = ((ledger.applyOp second level).ledger.applyOp first height).ledger := by
  have hfirst' := failure_of_apart hfile.symm hcreator.symm ledger height level
  have hsecond' := failure_of_apart hfile hcreator ledger level height
  cases hfirst : (ledger.applyOp first height).failure with
  | some e =>
    -- What fails fails in either place and leaves the other one alone.
    rw [ledger_of_failure hfirst, ledger_of_failure (hfirst'.trans hfirst)]
  | none =>
    cases hsecond : (ledger.applyOp second level).failure with
    | some e => rw [ledger_of_failure hsecond, ledger_of_failure (hsecond'.trans hsecond)]
    | none =>
      have hone := carriedOut_of_failure_eq_none hfirst
      have hother := carriedOut_of_failure_eq_none hsecond
      have honward := carriedOut_of_failure_eq_none (hsecond'.trans hsecond)
      have hback := carriedOut_of_failure_eq_none (hfirst'.trans hfirst)
      apply eq_of_entries
      · rw [honward.economics_eq, hone.economics_eq, hback.economics_eq, hother.economics_eq]
      · intro account
        by_cases hmine : first.creator = account
        · have hne : second.creator ≠ account := fun heq => hcreator (hmine.trans heq.symm)
          rw [honward.getElem?_accounts_of_ne hne, hone.account_eq, hback.account_eq,
            hother.economics_eq, hother.getElem?_accounts_of_ne hne]
        · rw [honward.account_eq, hone.economics_eq, hone.getElem?_accounts_of_ne hmine,
            hback.getElem?_accounts_of_ne hmine, hother.account_eq]
      · intro name
        by_cases hmine : first.file = name
        · have hne : second.file ≠ name := fun heq => hfile (hmine.trans heq.symm)
          rw [honward.getElem?_files_of_ne hne, hone.file_eq, hback.file_eq,
            hother.getElem?_files_of_ne hne]
        · rw [honward.file_eq, hone.getElem?_files_of_ne hmine,
            hback.getElem?_files_of_ne hmine, hother.file_eq]

end Apart

/-! ## All or nothing -/

/-- What an operation that succeeds changes, and that it changes nothing else. -/
structure ChangesOnly (before : Ledger) (op : Operation) (height : Nat) (after : Ledger) :
    Prop where
  economics_eq : after.economics = before.economics
  file_self : FileStep op.file height op before.files[op.file]? after.files[op.file]?
  file_of_ne : ∀ name : FileName, name ≠ op.file → after.files[name]? = before.files[name]?
  /-- The creator pays the fee, no less and no more. -/
  balance_self : (after.balance op.creator).toNat + (fee before.economics op).toNat
    = (before.balance op.creator).toNat
  account_of_ne : ∀ account : Account, account ≠ op.creator →
    after.accounts[account]? = before.accounts[account]?
  mem_accounts_iff : ∀ account, account ∈ after.accounts ↔ account ∈ before.accounts

/-- Two operations that come to the same in either order. -/
structure TradePlaces (ledger : Ledger) (first second : Operation) (height level : Nat) : Prop where
  first_eq : ((ledger.applyOp second level).ledger.applyOp first height).failure
    = (ledger.applyOp first height).failure
  second_eq : ((ledger.applyOp first height).ledger.applyOp second level).failure
    = (ledger.applyOp second level).failure
  ledger_eq : ((ledger.applyOp first height).ledger.applyOp second level).ledger
    = ((ledger.applyOp second level).ledger.applyOp first height).ledger

theorem changesOnly_of_failure_eq_none (h : (ledger.applyOp op height).failure = none) :
    ledger.ChangesOnly op height (ledger.applyOp op height).ledger := by
  have hdone := carriedOut_of_failure_eq_none h
  constructor
  case economics_eq => exact hdone.economics_eq
  case file_self => exact fileStep_of_applyOp (Outcome.eq_of_failure h) op.file
  case file_of_ne => exact fun name hne => hdone.getElem?_files_of_ne hne.symm
  case balance_self =>
    rw [hdone.balance_creator, UInt64.toNat_sub_of_le _ _ hdone.covered]
    exact Nat.sub_add_cancel (UInt64.le_iff_toNat_le.mp hdone.covered)
  case account_of_ne => exact fun account hne => hdone.getElem?_accounts_of_ne hne.symm
  case mem_accounts_iff => exact hdone.mem_accounts_iff

/-- **An operation is all or nothing, and local.** It succeeds if the files admit it and its creator
can pay. If it fails, the ledger is as before, and else only its file and the balance of its creator
have changed, by its effect and its fee. So two operations on different files by different creators
can trade places. -/
theorem atomic_applyOp (ledger : Ledger) (op : Operation) (height : Nat) :
    ((ledger.applyOp op height).failure = none
        ↔ ledger.refusal? op = none ∧ fee ledger.economics op ≤ ledger.balance op.creator)
      ∧ (∀ e, (ledger.applyOp op height).failure = some e →
        (ledger.applyOp op height).ledger = ledger)
      ∧ ((ledger.applyOp op height).failure = none →
        ledger.ChangesOnly op height (ledger.applyOp op height).ledger)
      ∧ ∀ other level, op.file ≠ other.file → op.creator ≠ other.creator →
        ledger.TradePlaces op other height level := by
  refine ⟨failure_eq_none_iff, fun e => ledger_of_failure, changesOnly_of_failure_eq_none, ?_⟩
  intro other level hfile hcreator
  constructor
  case first_eq => exact failure_of_apart hfile.symm hcreator.symm ledger height level
  case second_eq => exact failure_of_apart hfile hcreator ledger level height
  case ledger_eq => exact ledger_of_apart hfile hcreator ledger height level

end Ledger

end RecordChain
