import Mathlib.Algebra.Group.Nat.Defs
import Mathlib.Order.Bounds.Basic
import RecordChain.Block.Nonce
import RecordChain.Proofs.Validator.Judgement

/-!
# Which nonce a search finds

The candidates of a search are told by how far their nonces lie behind the one that it starts with.
A search finds the nearest candidate that shows enough work, unless a poll stops it before it gets
there, and nothing else.

* **`Batch.Tells`**: what each way in which a batch ends says about the nonces in it.
* **`Ends`**: the ways in which a search ends, each with its reasons. There is one for every exit from
  the two loops.
* **`mine_exact`**: what a search finds, and that a validator is satisfied with it.
-/

namespace RecordChain.Block

/-- The nonce that lies so far behind another one, around the end of the number range. -/
def nonceAfter (start : UInt64) (offset : Nat) : UInt64 := UInt64.ofNat (start.toNat + offset)

/-- The block with the nonce that lies so far behind its own one. -/
def candidate (block : Block) (offset : Nat) : Block :=
  { block with nonce := nonceAfter block.nonce offset }

/-- The candidates that show enough work, each nonce being counted once. -/
def solutions (block : Block) (difficulty : Nat) : Set Nat :=
  {offset | offset < 2 ^ 64 ∧ (block.candidate offset).meets difficulty}

/-- Whether a search gets to a candidate: no poll before it asks to stop. There is a poll after each
full batch. -/
def GetsTo (stop : Nat → Bool) (offset : Nat) : Prop :=
  ∀ poll, (poll + 1) * nonceBatch ≤ offset → stop poll = false

/-! ## Counting nonces -/

theorem nonceAfter_zero (start : UInt64) : nonceAfter start 0 = start := UInt64.ofNat_toNat

theorem nonceAfter_succ (start : UInt64) (offset : Nat) :
    nonceAfter start (offset + 1) = nonceAfter start offset + 1 := by
  rw [nonceAfter, ← Nat.add_assoc, UInt64.ofNat_add]
  rfl

/-- The search has come around after as many nonces as there are, and not before. -/
theorem nonceAfter_eq_start_iff (start : UInt64) {offset : Nat} (hpos : 0 < offset)
    (hle : offset ≤ 2 ^ 64) : nonceAfter start offset = start ↔ offset = 2 ^ 64 := by
  rw [nonceAfter, UInt64.ofNat_eq_iff_mod_eq_toNat]
  have hstart := start.toNat_lt
  omega

/-! ## Nonces that will not do -/

/-- Whether the nonce so far behind the start gives enough zero bits. -/
def Works (header : Sha256.Hasher) (difficulty : Nat) (start : UInt64) (offset : Nat) : Prop :=
  difficulty ≤ (hashWith header (nonceAfter start offset)).zeroBits

/-- A candidate is hashed as a whole, and a nonce after a header that was kept. -/
theorem mem_solutions_iff {block : Block} {difficulty offset : Nat} :
    offset ∈ block.solutions difficulty
      ↔ offset < 2 ^ 64 ∧ Works block.headerHasher difficulty block.nonce offset :=
  and_congr_right fun _ => decide_eq_true_iff

/-- None of the offsets from one up to another works. -/
def Fruitless (works : Nat → Prop) (first last : Nat) : Prop :=
  ∀ offset, first ≤ offset → offset < last → ¬ works offset

namespace Fruitless

variable {works : Nat → Prop} {first middle last : Nat}

theorem refl (works : Nat → Prop) (offset : Nat) : Fruitless works offset offset :=
  fun _ hle hlt => absurd hle (Nat.not_le.mpr hlt)

theorem cons (hfails : ¬ works first) (h : Fruitless works (first + 1) last) :
    Fruitless works first last := by
  intro offset hle hlt
  rcases Nat.eq_or_lt_of_le hle with rfl | hbehind
  · exact hfails
  · exact h offset hbehind hlt

theorem append (hfirst : Fruitless works first middle) (hlast : Fruitless works middle last) :
    Fruitless works first last := by
  intro offset hle hlt
  rcases Nat.lt_or_ge offset middle with hbefore | hbehind
  · exact hfirst offset hle hbefore
  · exact hlast offset hbehind hlt

/-- What works lies behind what is fruitless. -/
theorem le (h : Fruitless works first last) {offset : Nat} (hle : first ≤ offset)
    (hworks : works offset) : last ≤ offset := by
  by_contra hlt
  exact h offset hle (Nat.not_le.mp hlt) hworks

end Fruitless

/-! ## One batch -/

section Search

variable {header : Sha256.Hasher} {difficulty : Nat} {stop : Nat → Bool} {works : Nat → Prop}
  {start : UInt64} {polls : Nat}

/-- What the outcome of a batch of `left` nonces tells about them, if those up to `tried` came
before. -/
inductive Batch.Tells (works : Nat → Prop) (start : UInt64) (tried left : Nat) : Batch → Prop
  | found {offset : Nat} (lt : offset < 2 ^ 64) (inside : offset < tried + left)
      (hit : works offset) (before : Fruitless works tried offset) :
      Tells works start tried left (.found (nonceAfter start offset))
  | exhausted (all : Fruitless works tried (2 ^ 64)) : Tells works start tried left .exhausted
  | passed (lt : tried + left < 2 ^ 64) (batch : Fruitless works tried (tried + left)) :
      Tells works start tried left (.passed (nonceAfter start (tried + left)))

/-- A nonce that will not do, and then the rest of the batch. -/
theorem Batch.Tells.cons {tried left : Nat} {batch : Batch} (hfails : ¬ works tried)
    (h : Tells works start (tried + 1) left batch) : Tells works start tried (left + 1) batch := by
  have hlast : tried + 1 + left = tried + (left + 1) := by omega
  cases h with
  | found lt inside hit before => exact .found lt (hlast ▸ inside) hit (before.cons hfails)
  | exhausted all => exact .exhausted (all.cons hfails)
  | passed lt batch =>
    rw [hlast] at lt batch ⊢
    exact .passed lt (batch.cons hfails)

variable (header difficulty start) in
theorem tells_batch {tried : Nat} (left : Nat) (htried : tried < 2 ^ 64) :
    (batch header difficulty start (nonceAfter start tried) left).Tells
      (Works header difficulty start) start tried left := by
  induction left generalizing tried with
  | zero => exact .passed htried (.refl _ tried)
  | succ left ih =>
    have hback := nonceAfter_eq_start_iff start (Nat.succ_pos tried) htried
    rw [batch, ← nonceAfter_succ]
    split
    · next hworks => exact .found htried (by omega) hworks (.refl _ tried)
    · next hfails =>
      split
      · next hstart =>
        -- The nonce just tried was the last of all.
        have hlast := hback.mp hstart
        exact .exhausted (.cons hfails (hlast ▸ .refl _ _))
      · next hmore =>
        have hlt : tried + 1 < 2 ^ 64 := Nat.lt_of_le_of_ne htried (mt hback.mpr hmore)
        exact (ih hlt).cons hfails

/-! ## The whole search -/

/-- The ways in which a search ends that goes on after so many polls, and what it finds. -/
inductive Ends (works : Nat → Prop) (stop : Nat → Bool) (start : UInt64) (polls : Nat) :
    Option UInt64 → Prop
  | found {offset : Nat} (lt : offset < 2 ^ 64) (hit : works offset)
      (before : Fruitless works (polls * nonceBatch) offset)
      (heard : ∀ poll, polls ≤ poll → (poll + 1) * nonceBatch ≤ offset → stop poll = false) :
      Ends works stop start polls (some (nonceAfter start offset))
  | exhausted (all : Fruitless works (polls * nonceBatch) (2 ^ 64)) :
      Ends works stop start polls none
  | stopped {poll : Nat} (heard : stop poll)
      (before : Fruitless works (polls * nonceBatch) ((poll + 1) * nonceBatch)) :
      Ends works stop start polls none

/-- A batch in vain, a poll after which the search goes on, and then the rest of the search. -/
theorem Ends.cons {result : Option UInt64} (hheard : stop polls = false)
    (hfails : Fruitless works (polls * nonceBatch) ((polls + 1) * nonceBatch))
    (h : Ends works stop start (polls + 1) result) : Ends works stop start polls result := by
  cases h with
  | found lt hit before heard =>
    refine .found lt hit (hfails.append before) fun poll hle => ?_
    rcases Nat.eq_or_lt_of_le hle with rfl | hlater
    · exact fun _ => hheard
    · exact heard poll hlater
  | exhausted all => exact .exhausted (hfails.append all)
  | stopped heard before => exact .stopped heard (hfails.append before)

variable (header difficulty stop start) in
theorem ends_search (polls : Nat) (hpolls : polls * nonceBatch < 2 ^ 64) :
    Ends (Works header difficulty start) stop start polls
      (search header difficulty stop start polls (nonceAfter start (polls * nonceBatch))) := by
  have hnext : polls * nonceBatch + nonceBatch = (polls + 1) * nonceBatch :=
    (Nat.succ_mul polls nonceBatch).symm
  have htells := tells_batch header difficulty start nonceBatch hpolls
  rw [search]
  generalize batch header difficulty start (nonceAfter start (polls * nonceBatch)) nonceBatch
    = outcome at htells ⊢
  cases htells with
  | found lt inside hit before =>
    refine .found lt hit before fun poll hle hpoll => ?_
    -- The next poll would come after the whole batch.
    have hbatch : (polls + 1) * nonceBatch ≤ (poll + 1) * nonceBatch :=
      Nat.mul_le_mul_right nonceBatch (Nat.succ_le_succ hle)
    omega
  | exhausted all => exact .exhausted all
  | passed lt batch =>
    rw [hnext] at lt batch ⊢
    dsimp only
    split
    · next hstop => exact .stopped hstop batch
    · next hgoes => exact (ends_search (polls + 1) lt).cons (Bool.eq_false_iff.mpr hgoes) batch
termination_by 2 ^ 64 - polls * nonceBatch
decreasing_by
  rw [Nat.succ_mul]
  exact Nat.sub_lt_sub_left hpolls (Nat.lt_add_of_pos_right (by decide))

end Search

/-! ## What a search finds -/

variable {block mined : Block} {difficulty : Nat} {stop : Nat → Bool}

theorem ends_mine (block : Block) (difficulty : Nat) (stop : Nat → Bool) :
    ∃ result, Ends (Works block.headerHasher difficulty block.nonce) stop block.nonce 0 result
      ∧ block.mine difficulty stop = result.map fun nonce => { block with nonce } := by
  have hends := ends_search block.headerHasher difficulty stop block.nonce 0 (by decide)
  rw [Nat.zero_mul, nonceAfter_zero] at hends
  exact ⟨_, hends, rfl⟩

/-- A search finds the nearest candidate that shows enough work, if it gets there. -/
theorem mine_eq_some_iff :
    block.mine difficulty stop = some mined
      ↔ ∃ offset, IsLeast (block.solutions difficulty) offset ∧ GetsTo stop offset
          ∧ mined = block.candidate offset := by
  obtain ⟨result, hends, hmine⟩ := ends_mine block difficulty stop
  have hle : ∀ {offset last : Nat}, offset ∈ block.solutions difficulty →
      Fruitless (Works block.headerHasher difficulty block.nonce) (0 * nonceBatch) last →
      last ≤ offset := by
    intro offset last hoffset hfails
    refine hfails.le ?_ (mem_solutions_iff.mp hoffset).2
    rw [Nat.zero_mul]
    exact Nat.zero_le offset
  rw [hmine]
  cases hends with
  | @found first lt hit before heard =>
    have hfirst : IsLeast (block.solutions difficulty) first :=
      ⟨mem_solutions_iff.mpr ⟨lt, hit⟩, fun offset hoffset => hle hoffset before⟩
    constructor
    · rintro ⟨⟩
      exact ⟨first, hfirst, fun poll => heard poll (Nat.zero_le poll), rfl⟩
    · rintro ⟨offset, hleast, -, rfl⟩
      rw [hfirst.unique hleast]
      rfl
  | exhausted all =>
    constructor
    · rintro ⟨⟩
    · rintro ⟨offset, hleast, -, rfl⟩
      exact absurd hleast.1.1 (Nat.not_lt.mpr (hle hleast.1 all))
  | @stopped poll heard before =>
    constructor
    · rintro ⟨⟩
    · rintro ⟨offset, hleast, hgets, rfl⟩
      rw [hgets poll (hle hleast.1 before)] at heard
      cases heard

/-- A search finds nothing if there is nothing to be found, or if it is stopped before. -/
theorem mine_eq_none_iff :
    block.mine difficulty stop = none
      ↔ ∀ offset, IsLeast (block.solutions difficulty) offset → ¬ GetsTo stop offset := by
  rw [Option.eq_none_iff_forall_ne_some]
  constructor
  · intro hnone offset hleast hgets
    exact hnone (block.candidate offset) (mine_eq_some_iff.mpr ⟨offset, hleast, hgets, rfl⟩)
  · intro hnone mined hmined
    obtain ⟨offset, hleast, hgets, -⟩ := mine_eq_some_iff.mp hmined
    exact hnone offset hleast hgets

/-- A validator finds no fault with the work of a block that shows enough. -/
theorem result_ne_invalidProofOfWork {validator : Validator} {tree : ForkTree}
    (h : validator.difficulty.required block.kind ≤ block.hash.zeroBits) (hash : BlockHash)
    (required : Nat) :
    (validator.validateAndInsert tree block).result ≠ .error (.invalidProofOfWork hash required) := by
  unfold Validator.validateAndInsert
  dsimp only
  rw [if_neg (Nat.not_lt.mpr h)]
  split
  · nofun
  · split
    · split
      · nofun
      · split
        · nofun
        · nofun
    · split
      · nofun
      · split
        · nofun
        · split
          · nofun
          · nofun

/-- The work that a block shows: the digest of its whole wire form starts with enough zero bits, and
no validator that asks for no more finds fault with it. -/
structure ShowsWork (block : Block) (difficulty : Nat) : Prop where
  meets : block.meets difficulty
  digest : difficulty ≤ (BlockHash.ofBytes (Sha256.digest (Wire.encode block))).zeroBits
  passes : ∀ (validator : Validator) (tree : ForkTree) (hash : BlockHash) (required : Nat),
    validator.difficulty.required block.kind ≤ difficulty →
      (validator.validateAndInsert tree block).result ≠ .error (.invalidProofOfWork hash required)

theorem showsWork_of_meets (h : block.meets difficulty) : block.ShowsWork difficulty := by
  have hbits : difficulty ≤ block.hash.zeroBits := of_decide_eq_true h
  refine ⟨h, ?_, fun validator tree hash required hrequired => ?_⟩
  · rw [← hash_eq_digest]
    exact hbits
  · exact result_ne_invalidProofOfWork (hrequired.trans hbits) hash required

/-- **The search for a nonce is exact.** It finds the nearest candidate that shows enough work, if
there is one and no poll before it asks to stop, and else nothing. What it finds differs from the
block in its nonce only, and shows the work. -/
theorem mine_exact (block : Block) (difficulty : Nat) (stop : Nat → Bool) :
    (∀ mined, block.mine difficulty stop = some mined
      ↔ ∃ offset, IsLeast (block.solutions difficulty) offset ∧ GetsTo stop offset
          ∧ mined = block.candidate offset)
      ∧ (block.mine difficulty stop = none
        ↔ ∀ offset, IsLeast (block.solutions difficulty) offset → ¬ GetsTo stop offset)
      ∧ ∀ mined, block.mine difficulty stop = some mined → mined.ShowsWork difficulty := by
  refine ⟨fun mined => mine_eq_some_iff, mine_eq_none_iff, fun mined hmined => ?_⟩
  obtain ⟨offset, hleast, -, rfl⟩ := mine_eq_some_iff.mp hmined
  exact showsWork_of_meets hleast.1.2

end RecordChain.Block
