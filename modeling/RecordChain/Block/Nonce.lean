import RecordChain.Block.Hash

/-!
# Searching for nonces

A search goes upward from the block's own nonce and around the end of the number range, and ends
where it started. After each full batch of candidates it polls whether it should stop, so
`Block.mine` takes the answers to its polls as a function of how many polls came before.
-/

namespace RecordChain

/-- The number of nonces tried between two polls. -/
def nonceBatch : Nat := 4096

namespace Block

/-- What a batch of nonces comes to. -/
inductive Batch
  /-- This nonce will do. -/
  | found (nonce : UInt64)
  /-- None will do, and the next one would be the first of all again. -/
  | exhausted
  /-- None of the batch will do. The next batch starts with this nonce. -/
  | passed (next : UInt64)

/-- Tries the last `left` nonces of a batch, starting with `nonce`. The search as a whole has started
with `start`. -/
def batch (header : Sha256.Hasher) (difficulty : Nat) (start nonce : UInt64) : Nat → Batch
  | 0 => .passed nonce
  | left + 1 =>
    if difficulty ≤ (hashWith header nonce).zeroBits then .found nonce
    else if nonce + 1 = start then .exhausted
    else batch header difficulty start (nonce + 1) left

/-- The next nonce lies behind the whole batch. -/
theorem toNat_sub_of_batch {header : Sha256.Hasher} {difficulty left : Nat}
    {start nonce next : UInt64} (h : batch header difficulty start nonce left = .passed next) :
    (next - start).toNat = (nonce - start).toNat + left := by
  induction left generalizing nonce with
  | zero =>
    cases h
    rfl
  | succ left ih =>
    rw [batch] at h
    split at h
    · cases h
    · split at h
      · cases h
      · next hback =>
        have hnext : (nonce + 1 - start).toNat = (nonce - start).toNat + 1 := by
          have hne := mt UInt64.toNat_inj.mp hback
          have hstart := start.toNat_lt
          simp only [UInt64.toNat_sub, UInt64.toNat_add, UInt64.toNat_one] at hne ⊢
          omega
        rw [ih h, hnext]
        omega

/-- Tries batch after batch, starting with `nonce`, after so many polls. The search as a whole has
started with `start`. -/
def search (header : Sha256.Hasher) (difficulty : Nat) (stop : Nat → Bool) (start : UInt64)
    (polls : Nat) (nonce : UInt64) : Option UInt64 :=
  match _ : batch header difficulty start nonce nonceBatch with
  | .found nonce => some nonce
  | .exhausted => none
  | .passed next =>
    if stop polls then none else search header difficulty stop start (polls + 1) next
termination_by UInt64.size - (nonce - start).toNat
decreasing_by
  -- All nonces between the start and the next one were tried, a batch more than before.
  have hnext := toNat_sub_of_batch ‹_›
  have hlt := (next - start).toNat_lt
  simp only [nonceBatch, UInt64.size] at *
  omega

/-- The block with the first nonce, from its own one upward and around, that gives its hash enough
zero bits, or `none` if there is no such nonce or the answer to an earlier poll was to stop. -/
def mine (block : Block) (difficulty : Nat) (stop : Nat → Bool) : Option Block :=
  (search block.headerHasher difficulty stop block.nonce 0 block.nonce).map fun nonce =>
    { block with nonce }

end Block

end RecordChain
