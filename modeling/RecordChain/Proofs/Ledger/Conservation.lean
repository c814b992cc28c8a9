import Mathlib.Algebra.BigOperators.Group.Finset.Basic
import Mathlib.Algebra.GroupWithZero.Nat
import Mathlib.Algebra.Order.BigOperators.Group.List
import Mathlib.Algebra.Order.Group.Nat
import RecordChain.Ledger.View
import RecordChain.Proofs.Ledger.FileHistory

/-!
# No money comes from nowhere

Money comes from rewards and goes with fees, and nothing else touches a balance. A chain is read here
as the list of its payments, with amounts that know no upper bound, and the balances of the ledger
are compared with the sums of that list.

* **`Payment.Settles`**: all that a payment can do to balances, one case for each way. Balances change
  with payments only (`settled_replay`).
* **`totalBalance_insert`**: what one new balance does to the sum of all.
* **`Settled.balance_add_fees_le`**, **`Settled.balance_add_fees_eq`**: an account has at most what it
  earned less what it spent, and exactly that as long as no balance has met the greatest amount.
* **`conserved_replay`**: the whole account of a chain's money.
-/

namespace RecordChain

/-! ## Balances -/

/-- What an account has, which is nothing if it was never paid. -/
def balanceOf (balances : Balances) (account : Account) : Nat := (balances[account]?.getD 0).toNat

/-- What all accounts have together. -/
def totalBalance (balances : Balances) : Nat :=
  (balances.toList.map fun entry => entry.2.toNat).sum

/-- Writing a balance changes the balance of one account. -/
theorem balanceOf_insert (balances : Balances) (account other : Account) (balance : Balance) :
    balanceOf (balances.insert account balance) other
      = if account = other then balance.toNat else balanceOf balances other := by
  unfold balanceOf
  rw [Std.ExtTreeMap.getElem?_insert]
  by_cases h : account = other
  · rw [if_pos h, if_pos (Std.LawfulEqCmp.compare_eq_iff_eq.mpr h)]
    rfl
  · rw [if_neg h, if_neg (mt Std.LawfulEqCmp.compare_eq_iff_eq.mp h)]

/-- Writing a balance makes its account one of those that there are. -/
theorem mem_insert_balance {balances : Balances} {account other : Account} {balance : Balance} :
    other ∈ balances.insert account balance ↔ account = other ∨ other ∈ balances := by
  rw [Std.ExtTreeMap.mem_insert, Std.LawfulEqCmp.compare_eq_iff_eq]

/-- An account that has something is in the map. -/
theorem mem_of_balanceOf_pos {balances : Balances} {account : Account}
    (h : 0 < balanceOf balances account) : account ∈ balances := by
  by_contra hmem
  rw [balanceOf, Std.ExtTreeMap.getElem?_eq_none hmem] at h
  exact Nat.lt_irrefl 0 h

/-- The sum may be taken over any accounts that include those of the map, as all others have
nothing. -/
theorem totalBalance_eq_sum (balances : Balances) (accounts : Finset Account)
    (h : ∀ account ∈ balances, account ∈ accounts) :
    totalBalance balances = ∑ account ∈ accounts, balanceOf balances account := by
  have hkeys : totalBalance balances
      = ∑ account ∈ balances.keys.toFinset, balanceOf balances account := by
    rw [List.sum_toFinset _ Std.ExtTreeMap.nodup_keys, ← Std.ExtTreeMap.map_fst_toList_eq_keys,
      List.map_map, totalBalance]
    congr 1
    refine List.map_congr_left fun entry hentry => ?_
    have hat : balances[entry.1]? = some entry.2 :=
      Std.ExtTreeMap.mem_toList_iff_getElem?_eq_some.mp hentry
    rw [Function.comp_apply, balanceOf, hat]
    rfl
  rw [hkeys]
  refine Finset.sum_subset ?_ ?_
  · intro account haccount
    exact h account (by simpa using haccount)
  · intro account _ habsent
    by_contra hpos
    exact habsent (by simpa using mem_of_balanceOf_pos (Nat.pos_of_ne_zero hpos))

/-- A new balance counts in place of the old one. -/
theorem totalBalance_insert (balances : Balances) (account : Account) (balance : Balance) :
    totalBalance (balances.insert account balance) + balanceOf balances account
      = totalBalance balances + balance.toNat := by
  let accounts : Finset Account := insert account balances.keys.toFinset
  have haccount : account ∈ accounts := Finset.mem_insert_self account _
  have hold := totalBalance_eq_sum balances accounts fun other hother => by
    simp [accounts, hother]
  have hnew := totalBalance_eq_sum (balances.insert account balance) accounts
    fun other hother => by
      rcases mem_insert_balance.mp hother with rfl | hmem
      · exact haccount
      · simp [accounts, hmem]
  -- Both sums are that of the other accounts and one term more.
  rw [← Finset.add_sum_erase _ _ haccount] at hold hnew
  have hothers : ∑ other ∈ accounts.erase account,
        balanceOf (balances.insert account balance) other
      = ∑ other ∈ accounts.erase account, balanceOf balances other := by
    refine Finset.sum_congr rfl fun other hother => ?_
    rw [balanceOf_insert, if_neg (Finset.ne_of_mem_erase hother).symm]
  rw [hothers, balanceOf_insert, if_pos rfl] at hnew
  omega

/-! ## Payments -/

/-- What a block of a kind earns its miner. -/
def Economics.reward (economics : Economics) : BlockKind → Nat
  | .genesis => 0
  | .noOp => economics.noOpReward.toNat
  | .regular => economics.opReward.toNat

/-- What an operation costs its creator. -/
def Economics.price (economics : Economics) : Operation → Nat
  | .create .. => economics.createFee.toNat
  | .append .. => economics.appendFee.toNat
  | .delete .. => 0

/-- Money that changes hands. -/
inductive Payment
  /-- A block is paid for. -/
  | reward (miner : Account) (amount : Nat)
  /-- An operation is paid for. -/
  | fee (creator : Account) (amount : Nat)

namespace Payment

/-- The account that receives or pays. -/
def account : Payment → Account
  | reward a _ | fee a _ => a

def earned : Payment → Nat
  | reward _ amount => amount
  | fee .. => 0

def spent : Payment → Nat
  | reward .. => 0
  | fee _ amount => amount

end Payment

/-- The payments of a block: its reward, then the fee of each operation. A first block earns
nothing. -/
def Block.payments (economics : Economics) (block : Block) : List Payment :=
  (if block.kind = .genesis then [] else [.reward block.miner (economics.reward block.kind)])
    ++ block.operations.map fun op => .fee op.creator (economics.price op)

/-- The payments of a chain, in order. -/
def payments (economics : Economics) (path : List Block) : List Payment :=
  path.flatMap (·.payments economics)

/-- The payments to and from one account. -/
def paymentsOf (account : Account) (payments : List Payment) : List Payment :=
  payments.filter fun payment => payment.account = account

/-- The sum of all rewards. -/
def rewards (payments : List Payment) : Nat := (payments.map (·.earned)).sum

/-- The sum of all fees. -/
def fees (payments : List Payment) : Nat := (payments.map (·.spent)).sum

/-- What some payments leave an account with. It is below zero if they take more than they give. -/
def gain (account : Account) (payments : List Payment) : Int :=
  rewards (paymentsOf account payments) - fees (paymentsOf account payments)

section Sums

variable {account : Account} {done : List Payment} {payment : Payment}

@[simp] theorem rewards_concat : rewards (done ++ [payment]) = rewards done + payment.earned := by
  simp [rewards]

@[simp] theorem fees_concat : fees (done ++ [payment]) = fees done + payment.spent := by
  simp [fees]

theorem paymentsOf_concat_self (h : payment.account = account) :
    paymentsOf account (done ++ [payment]) = paymentsOf account done ++ [payment] := by
  simp [paymentsOf, h]

theorem paymentsOf_concat_of_ne (h : payment.account ≠ account) :
    paymentsOf account (done ++ [payment]) = paymentsOf account done := by
  simp [paymentsOf, h]

/-- An account does not earn more than all accounts together. -/
theorem rewards_paymentsOf_le (account : Account) (payments : List Payment) :
    rewards (paymentsOf account payments) ≤ rewards payments :=
  (List.filter_sublist.map _).sum_le_sum fun _ _ => Nat.zero_le _

end Sums

/-! ## What a payment does to balances -/

/-- What a payment does to balances. -/
inductive Payment.Settles : Payment → Balances → Balances → Prop
  /-- A balance that would pass the greatest amount is held there. -/
  | earn {miner : Account} {amount : Nat} {before : Balances} {paid : Balance}
    (capped : paid.toNat = min (balanceOf before miner + amount) (UInt64.size - 1)) :
    Settles (.reward miner amount) before (before.insert miner paid)
  | free {creator : Account} {before : Balances} : Settles (.fee creator 0) before before
  | pay {creator : Account} {amount : Nat} {before : Balances} {left : Balance}
    (positive : 0 < amount) (rest : left.toNat + amount = balanceOf before creator) :
    Settles (.fee creator amount) before (before.insert creator left)

namespace Payment.Settles

variable {payment : Payment} {before after : Balances}

/-- Rewards open accounts, and fees are taken from open accounts only. -/
theorem mem_iff (h : payment.Settles before after) (account : Account) :
    account ∈ after ↔ account ∈ before ∨ ∃ amount, payment = .reward account amount := by
  cases h with
  | @earn miner amount =>
    rw [mem_insert_balance]
    constructor
    · rintro (rfl | hmem)
      · exact Or.inr ⟨amount, rfl⟩
      · exact Or.inl hmem
    · rintro (hmem | ⟨other, heq⟩)
      · exact Or.inr hmem
      · exact Or.inl (Payment.reward.inj heq).1
  | free => simp
  | @pay creator amount _ left positive rest =>
    have hopen : creator ∈ before := mem_of_balanceOf_pos (by omega)
    rw [mem_insert_balance]
    constructor
    · rintro (rfl | hmem)
      · exact Or.inl hopen
      · exact Or.inl hmem
    · rintro (hmem | ⟨other, heq⟩)
      · exact Or.inr hmem
      · cases heq

/-- A payment adds no more to the total than it earns, and takes off what it spends. -/
theorem total_le (h : payment.Settles before after) :
    totalBalance after + payment.spent ≤ totalBalance before + payment.earned := by
  cases h with
  | @earn miner amount _ paid capped =>
    have htotal := totalBalance_insert before miner paid
    simp only [spent, earned]
    omega
  | free => exact Nat.le_refl _
  | @pay creator amount _ left positive rest =>
    have htotal := totalBalance_insert before creator left
    simp only [spent, earned]
    omega

/-- A payment does not touch other accounts. -/
theorem balanceOf_of_ne (h : payment.Settles before after) {account : Account}
    (hne : payment.account ≠ account) : balanceOf after account = balanceOf before account := by
  cases h with
  | earn => exact (balanceOf_insert ..).trans (if_neg hne)
  | free => rfl
  | pay => exact (balanceOf_insert ..).trans (if_neg hne)

/-- What the account of a payment has after it, up to the greatest amount. -/
theorem balanceOf_self (h : payment.Settles before after) :
    balanceOf after payment.account + payment.spent
      = min (balanceOf before payment.account + payment.earned) (UInt64.size - 1) := by
  have hbound : balanceOf before payment.account ≤ UInt64.size - 1 :=
    Nat.le_pred_of_lt (UInt64.toNat_lt _)
  cases h with
  | earn capped =>
    exact (balanceOf_insert ..).trans (if_pos rfl) |>.trans capped
  | free => exact (Nat.min_eq_left hbound).symm
  | @pay creator amount _ left positive rest =>
    have hleft : balanceOf (before.insert creator left) creator = left.toNat :=
      (balanceOf_insert ..).trans (if_pos rfl)
    rw [← hleft] at rest
    exact rest.trans (Nat.min_eq_left hbound).symm

end Payment.Settles

/-! ## Any number of payments -/

/-- The balances that some payments leave, one after the other, where there was nothing before. -/
inductive Settled : List Payment → Balances → Prop
  | nil : Settled [] ∅
  | concat {done : List Payment} {payment : Payment} {before after : Balances}
    (earlier : Settled done before) (last : payment.Settles before after) :
    Settled (done ++ [payment]) after

namespace Settled

variable {done : List Payment} {balances : Balances}

/-- The accounts are those that were rewarded. -/
theorem mem_iff (h : Settled done balances) (account : Account) :
    account ∈ balances ↔ ∃ amount, .reward account amount ∈ done := by
  induction h with
  | nil => simp
  | concat earlier last ih =>
    rw [last.mem_iff, ih]
    simp only [List.mem_append, List.mem_singleton, eq_comm, exists_or]

/-- The total and the fees together do not exceed the rewards. -/
theorem total_le (h : Settled done balances) :
    totalBalance balances + fees done ≤ rewards done := by
  induction h with
  | nil => exact Nat.le_refl 0
  | concat earlier last ih =>
    have hstep := last.total_le
    rw [fees_concat, rewards_concat]
    omega

/-- An account has at most what it earned less what it spent. -/
theorem balance_add_fees_le (h : Settled done balances) (account : Account) :
    balanceOf balances account + fees (paymentsOf account done)
      ≤ rewards (paymentsOf account done) := by
  induction h with
  | nil => simp [balanceOf, fees, rewards, paymentsOf]
  | @concat done payment before after earlier last ih =>
    by_cases haccount : payment.account = account
    · have hstep := haccount ▸ last.balanceOf_self
      rw [paymentsOf_concat_self haccount, fees_concat, rewards_concat]
      omega
    · rw [paymentsOf_concat_of_ne haccount, last.balanceOf_of_ne haccount]
      exact ih

/-- As long as all rewards together fit in a balance, no balance is held back. -/
theorem balance_add_fees_eq (h : Settled done balances) (hfit : rewards done < UInt64.size)
    (account : Account) :
    balanceOf balances account + fees (paymentsOf account done)
      = rewards (paymentsOf account done) := by
  induction h with
  | nil => simp [balanceOf, fees, rewards, paymentsOf]
  | @concat done payment before after earlier last ih =>
    rw [rewards_concat] at hfit
    have hsame := ih (by omega)
    by_cases haccount : payment.account = account
    · have hstep := haccount ▸ last.balanceOf_self
      have hown := rewards_paymentsOf_le account done
      rw [paymentsOf_concat_self haccount, fees_concat, rewards_concat]
      omega
    · rw [paymentsOf_concat_of_ne haccount, last.balanceOf_of_ne haccount]
      exact hsame

/-- There were balances after the first payments, too. -/
theorem exists_between (h : Settled done balances) {first : List Payment}
    (hfirst : first <+: done) : ∃ between, Settled first between := by
  induction h with
  | nil => exact ⟨∅, List.prefix_nil.mp hfirst ▸ .nil⟩
  | concat earlier last ih =>
    rcases List.prefix_concat_iff.mp hfirst with rfl | hearlier
    · exact ⟨_, earlier.concat last⟩
    · exact ih hearlier

end Settled

/-! ## Balances change with payments only -/

namespace Ledger

variable {economics : Economics} {before after : Ledger} {done : List Payment}

/-- A sum that is cut off is the sum, or the greatest balance if that is less. -/
theorem toNat_addCapped (a b : Balance) :
    (addCapped a b).toNat = min (a.toNat + b.toNat) (UInt64.size - 1) := by
  unfold addCapped
  split
  · next h =>
    rw [UInt64.toNat_add, Nat.mod_eq_of_lt h]
    omega
  · next h =>
    rw [Nat.min_eq_right (by omega)]
    rfl

theorem toNat_balance (ledger : Ledger) (account : Account) :
    (ledger.balance account).toNat = balanceOf ledger.accounts account := rfl

/-- Where operations are priced the fee is the price. -/
theorem toNat_fee (economics : Economics) (op : Operation) :
    (fee (some economics) op).toNat = economics.price op := by
  cases op <;> rfl

theorem accounts_perform (ledger : Ledger) (op : Operation) (height : Nat) :
    (ledger.perform op height).accounts = ledger.accounts
      ∧ (ledger.perform op height).economics = ledger.economics := by
  cases op <;> exact ⟨rfl, rfl⟩

/-- The credit for a block settles its reward. -/
theorem settles_credit (heconomics : before.economics = some economics) (miner : Account)
    {kind : BlockKind} (hkind : kind ≠ .genesis) :
    (Payment.reward miner (economics.reward kind)).Settles before.accounts
      (before.credit miner kind).accounts := by
  unfold credit
  rw [heconomics]
  cases kind with
  | genesis => exact absurd rfl hkind
  | noOp => exact .earn (toNat_addCapped _ _)
  | regular => exact .earn (toNat_addCapped _ _)

theorem economics_credit (ledger : Ledger) (miner : Account) (kind : BlockKind) :
    (ledger.credit miner kind).economics = ledger.economics := by
  unfold credit
  split <;> rfl

/-- A charge that goes through settles the fee. -/
theorem settles_charge (heconomics : before.economics = some economics) {op : Operation}
    (h : before.charge op = ⟨after, none⟩) :
    (Payment.fee op.creator (economics.price op)).Settles before.accounts after.accounts
      ∧ after.economics = some economics := by
  unfold charge at h
  rw [heconomics] at h
  rw [← toNat_fee]
  dsimp only at h
  split at h
  · next hfree =>
    cases h
    rw [hfree]
    exact ⟨.free, heconomics⟩
  · next hfee =>
    split at h
    · cases h
    · next henough =>
      cases h
      have hle := UInt64.not_lt.mp henough
      refine ⟨.pay ?_ ?_, rfl⟩
      · exact Nat.pos_of_ne_zero fun hzero => hfee (UInt64.toNat_inj.mp hzero)
      · rw [UInt64.toNat_sub_of_le _ _ hle, ← toNat_balance]
        exact Nat.sub_add_cancel (UInt64.le_iff_toNat_le.mp hle)

/-- Operations that all apply settle their fees. Induction on the operations. -/
theorem settled_applyOps (heconomics : before.economics = some economics)
    (hdone : Settled done before.accounts) {height : Nat} {ops : List Operation}
    (h : before.applyOps height ops = ⟨after, none⟩) :
    Settled (done ++ ops.map fun op => .fee op.creator (economics.price op)) after.accounts
      ∧ after.economics = some economics := by
  induction ops generalizing before done with
  | nil =>
    cases h
    rw [List.map_nil, List.append_nil]
    exact ⟨hdone, heconomics⟩
  | cons op rest ih =>
    obtain ⟨next, hop, hrest⟩ := applyOps_cons_eq_ok_iff.mp h
    obtain ⟨-, paid, hcharge, rfl⟩ := applyOp_eq_ok_iff.mp hop
    obtain ⟨hpaid, hpaidEconomics⟩ := settles_charge heconomics hcharge
    obtain ⟨haccounts, hsame⟩ := accounts_perform paid op height
    have hnext := ih (hsame.trans hpaidEconomics) (haccounts ▸ hdone.concat hpaid) hrest
    rwa [List.append_assoc] at hnext

/-- A block that applies settles its reward first and then its fees. -/
theorem settled_applyBlock (heconomics : before.economics = some economics)
    (hdone : Settled done before.accounts) {block : Block} {height : Nat}
    (h : before.applyBlock block height = ⟨after, none⟩) :
    Settled (done ++ block.payments economics) after.accounts
      ∧ after.economics = some economics := by
  have hops := (applyBlock_eq_ok_iff.mp h).2
  have hcredited := (economics_credit before block.miner block.kind).trans heconomics
  unfold Block.payments
  split
  · next hkind =>
    -- A first block credits nothing.
    have hsame : (before.credit block.miner block.kind).accounts = before.accounts := by
      rw [hkind, credit, heconomics]
      rfl
    exact settled_applyOps hcredited (hsame ▸ hdone) hops
  · next hkind =>
    have hpaid := hdone.concat (settles_credit heconomics block.miner hkind)
    rw [← List.append_assoc]
    exact settled_applyOps hcredited hpaid hops

/-- A chain that applies settles the payments of its blocks. Induction on the blocks. -/
theorem settled_applyChain (heconomics : before.economics = some economics)
    (hdone : Settled done before.accounts) {height : Nat} {blocks : List Block}
    (h : before.applyChain height blocks = .ok after) :
    Settled (done ++ payments economics blocks) after.accounts := by
  induction blocks generalizing before done height with
  | nil =>
    cases h
    rwa [payments, List.flatMap_nil, List.append_nil]
  | cons block rest ih =>
    obtain ⟨next, hnext, hrest⟩ := applyChain_cons_eq_ok_iff.mp h
    obtain ⟨hsettled, hnextEconomics⟩ := settled_applyBlock heconomics hdone hnext
    have hall := ih hnextEconomics hsettled hrest
    rwa [List.append_assoc] at hall

/-- The balances of a ledger are those that the payments of its chain leave. -/
theorem settled_replay {path : List Block} {ledger : Ledger}
    (h : replay (some economics) path = .ok ledger) :
    Settled (payments economics path) ledger.accounts :=
  settled_applyChain rfl .nil h

end Ledger

/-! ## The account of a chain's money -/

/-- What becomes of the money of a chain. -/
structure Conserved (economics : Economics) (path : List Block) (ledger : Ledger) : Prop where
  /-- The accounts are those of the miners who are paid. -/
  mem_iff : ∀ account, account ∈ ledger.accounts
    ↔ ∃ block ∈ path, (block.kind = .noOp ∨ block.kind = .regular) ∧ block.miner = account
  /-- What there is and what was spent was earned. -/
  total_le : totalBalance ledger.accounts + fees (payments economics path)
    ≤ rewards (payments economics path)
  /-- If all rewards together fit in a balance, every account has what its payments leave it. -/
  balance_eq : rewards (payments economics path) < UInt64.size → ∀ account,
    ((ledger.balance account).toNat : Int) = gain account (payments economics path)
  /-- At no time had an account spent more than it had earned. -/
  covered : ∀ first, first <+: payments economics path → ∀ account, 0 ≤ gain account first

/-- The accounts that are rewarded on a path are the miners of its blocks, the first block apart. -/
theorem reward_mem_payments {economics : Economics} {path : List Block} {account : Account} :
    (∃ amount, .reward account amount ∈ payments economics path)
      ↔ ∃ block ∈ path, (block.kind = .noOp ∨ block.kind = .regular) ∧ block.miner = account := by
  have hkind : ∀ kind : BlockKind, kind ≠ .genesis ↔ kind = .noOp ∨ kind = .regular := by
    intro kind
    cases kind <;> simp
  simp only [payments, Block.payments, List.mem_flatMap, List.mem_append, List.mem_map, reduceCtorEq,
    and_false, exists_false, or_false, ← hkind]
  constructor
  · rintro ⟨amount, block, hblock, hmem⟩
    refine ⟨block, hblock, ?_⟩
    split at hmem
    · cases hmem
    · next hpaid =>
      exact ⟨hpaid, (Payment.reward.inj (List.mem_singleton.mp hmem)).1.symm⟩
  · rintro ⟨block, hblock, hpaid, rfl⟩
    refine ⟨economics.reward block.kind, block, hblock, ?_⟩
    rw [if_neg hpaid]
    exact List.mem_singleton_self _

/-- **Money is conserved**: whoever mined has an account and nobody else has, no more is held and spent
than was earned, and every account holds what it earned less what it spent, unless so much was earned
that a balance could not hold it. -/
theorem conserved_replay {economics : Economics} {path : List Block} {ledger : Ledger}
    (h : Ledger.replay (some economics) path = .ok ledger) : Conserved economics path ledger := by
  have hsettled := Ledger.settled_replay h
  constructor
  case mem_iff =>
    intro account
    rw [hsettled.mem_iff, reward_mem_payments]
  case total_le => exact hsettled.total_le
  case balance_eq =>
    intro hfit account
    have heq := hsettled.balance_add_fees_eq hfit account
    rw [Ledger.toNat_balance, gain]
    omega
  case covered =>
    intro first hfirst account
    obtain ⟨between, hbetween⟩ := hsettled.exists_between hfirst
    have hle := hbetween.balance_add_fees_le account
    rw [gain]
    omega

/-- The account of a path on which a file is created, deleted and created again. -/
theorem conserved_replay_recreation :
    ∃ ledger, Ledger.replay (some ⟨9, 1, 2, 1⟩) recreation = .ok ledger
      ∧ Conserved ⟨9, 1, 2, 1⟩ recreation ledger := by
  obtain ⟨ledger, h⟩ := exists_replay_recreation
  exact ⟨ledger, h, conserved_replay h⟩

end RecordChain
