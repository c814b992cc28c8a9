import RecordChain.Proofs.Ledger.Replay

/-!
# What a chain does to each file

A file of the ledger changes with the operations that succeed and with nothing else, and an operation
touches no file but the one it names.

* **`FileStep`**: all that an operation can do to the file of some name when it succeeds, one case
  for each kind.
* **`timeline`**: the operations of a chain, each with the height of its block.
* **`file_induction`**: what every such step keeps is true of a file after a whole chain. Facts about
  files are proved from here and do not look at blocks or balances again.
-/

namespace RecordChain

/-- What an operation at some height makes of the file of some name. -/
def Operation.rewrite (op : Operation) (height : Nat) (name : FileName) (file? : Option File) :
    Option File :=
  if op.file = name then
    match op with
    | .create creator _ => some ⟨creator, height, #[]⟩
    | .append _ _ _ data =>
      file?.map fun file => { file with records := file.records.push (height, data) }
    | .delete .. => none
  else file?

/-- An operation leaves all other files alone. -/
theorem Operation.rewrite_of_ne {op : Operation} {name : FileName} (h : op.file ≠ name)
    (height : Nat) (file? : Option File) : op.rewrite height name file? = file? :=
  if_neg h

/-- What an operation that succeeds at some height does to the file of some name. -/
inductive FileStep (name : FileName) (height : Nat) :
    Operation → Option File → Option File → Prop
  | elsewhere {op : Operation} {file? : Option File} (other : op.file ≠ name) :
    FileStep name height op file? file?
  | create {creator : Account} :
    FileStep name height (.create creator name) none (some ⟨creator, height, #[]⟩)
  | append {creator : Account} {number : RecordNumber} {data : Record} {file : File}
    (room : file.records.size < maxRecords) (next : number.toNat = file.records.size) :
    FileStep name height (.append creator name number data) (some file)
      (some { file with records := file.records.push (height, data) })
  | delete {creator : Account} {file : File} :
    FileStep name height (.delete creator name) (some file) none

/-- What an operation makes of a file is told by the operation and the file. -/
theorem FileStep.eq_rewrite {name : FileName} {height : Nat} {op : Operation}
    {first second : Option File} (h : FileStep name height op first second) :
    second = op.rewrite height name first := by
  unfold Operation.rewrite
  cases h with
  | elsewhere other => rw [if_neg other]
  | create | append | delete => exact (if_pos rfl).symm

/-- Files have an end, so what an append that succeeds writes comes before it. -/
theorem FileStep.number_lt {name : FileName} {op : Operation} {height : Nat}
    {first second : Option File} {number : RecordNumber}
    (h : FileStep name height op first second) (hfile : op.file = name)
    (hnumber : op.number? = some number) : number.toNat < maxRecords := by
  cases h with
  | elsewhere other => exact absurd hfile other
  | create | delete => cases hnumber
  | append room next =>
    obtain rfl := Option.some.inj hnumber
    rw [next]
    exact room

namespace Ledger

variable {ledger before after : Ledger} {op : Operation} {height : Nat} {name : FileName}

/-! ## Money and files do not meet -/

@[simp] theorem files_credit (ledger : Ledger) (miner : Account) (kind : BlockKind) :
    (ledger.credit miner kind).files = ledger.files := by
  unfold credit
  split <;> rfl

/-- Charging for an operation changes balances only, and nothing at all if it fails. -/
theorem charge_cases (ledger : Ledger) (op : Operation) :
    (∃ accounts, ledger.charge op = ⟨{ ledger with accounts }, none⟩)
      ∨ ∃ e, ledger.charge op = ⟨ledger, some e⟩ := by
  unfold charge
  dsimp only
  split
  · exact Or.inl ⟨ledger.accounts, rfl⟩
  · split
    · exact Or.inr ⟨_, rfl⟩
    · exact Or.inl ⟨_, rfl⟩

/-- Carrying an operation out rewrites its own file only. -/
theorem getElem?_perform (ledger : Ledger) (op : Operation) (height : Nat) (name : FileName) :
    (ledger.perform op height).files[name]? = op.rewrite height name ledger.files[name]? := by
  unfold Operation.rewrite
  split
  · next heq =>
    cases op with
    | create creator file =>
      subst heq
      exact Std.ExtTreeMap.getElem?_insert_self
    | append creator file number data =>
      subst heq
      exact Std.ExtTreeMap.getElem?_modify_self
    | delete creator file =>
      subst heq
      exact Std.ExtTreeMap.getElem?_erase_self
  · next hne =>
    have hcompare : compare op.file name ≠ .eq := mt Std.LawfulEqCmp.compare_eq_iff_eq.mp hne
    cases op with
    | create creator file =>
      exact (Std.ExtTreeMap.getElem?_insert ..).trans (if_neg hcompare)
    | append creator file number data =>
      exact (Std.ExtTreeMap.getElem?_modify ..).trans (if_neg hcompare)
    | delete creator file =>
      exact (Std.ExtTreeMap.getElem?_erase ..).trans (if_neg hcompare)

/-- An operation cannot be charged for if its creator has less than the fee, and only then. -/
theorem failure_charge (ledger : Ledger) (op : Operation) :
    (ledger.charge op).failure
      = if ledger.balance op.creator < fee ledger.economics op then
          some (.notEnoughMoney op.creator (ledger.balance op.creator) (fee ledger.economics op))
        else none := by
  unfold charge
  dsimp only
  split
  · next hfree =>
    -- Nobody has less than nothing.
    rw [hfree, if_neg UInt64.not_lt_zero]
  · split <;> rfl

/-! ## One operation -/

theorem Outcome.eq_of_failure {outcome : Outcome} {failure : Option LedgerError}
    (h : outcome.failure = failure) : outcome = ⟨outcome.ledger, failure⟩ := by
  rw [← h]

/-- An operation succeeds if the files admit it and its fee is paid, and only then takes effect. -/
theorem applyOp_eq_ok_iff : before.applyOp op height = ⟨after, none⟩
    ↔ before.refusal? op = none
      ∧ ∃ paid, before.charge op = ⟨paid, none⟩ ∧ after = paid.perform op height := by
  unfold applyOp
  cases hrefusal : before.refusal? op with
  | some e => simp
  | none =>
    obtain ⟨paid, failure⟩ := before.charge op
    cases failure with
    | some e => simp
    | none => simp [eq_comm]

/-- Only the file that an operation names has a say in whether it is refused. -/
theorem refusal?_congr {other : Ledger} (h : ledger.files[op.file]? = other.files[op.file]?) :
    ledger.refusal? op = other.refusal? op := by
  have hmem : op.file ∈ ledger.files ↔ op.file ∈ other.files := by
    rw [Std.ExtTreeMap.mem_iff_isSome_getElem?, h, ← Std.ExtTreeMap.mem_iff_isSome_getElem?]
  cases op with
  | create creator file | delete creator file =>
    rw [Operation.file] at hmem
    simp only [refusal?, hmem]
  | append creator file number data =>
    rw [Operation.file] at h
    simp only [refusal?, h]

/-- The files are asked before the money. -/
theorem failure_applyOp (ledger : Ledger) (op : Operation) (height : Nat) :
    (ledger.applyOp op height).failure = (ledger.refusal? op).or (ledger.charge op).failure := by
  unfold applyOp
  cases ledger.refusal? op with
  | some e => rfl
  | none =>
    obtain ⟨paid, failure⟩ := ledger.charge op
    cases failure <;> rfl

/-- A refused operation changes nothing. -/
theorem applyOp_of_refusal {e : LedgerError} (height : Nat) (h : ledger.refusal? op = some e) :
    ledger.applyOp op height = ⟨ledger, some e⟩ := by
  rw [applyOp, h]

/-- An operation that fails leaves the ledger as it was. -/
theorem applyOp_failed {e : LedgerError} (h : before.applyOp op height = ⟨after, some e⟩) :
    after = before := by
  unfold applyOp at h
  cases hrefusal : before.refusal? op with
  | some e' =>
    rw [hrefusal] at h
    cases h
    rfl
  | none =>
    rw [hrefusal] at h
    rcases before.charge_cases op with ⟨accounts, hcharge⟩ | ⟨e', hcharge⟩
    · rw [hcharge] at h
      cases h
    · rw [hcharge] at h
      cases h
      rfl

theorem files_of_charge {paid : Ledger} (h : ledger.charge op = ⟨paid, none⟩) :
    paid.files = ledger.files := by
  rcases ledger.charge_cases op with ⟨accounts, hcharge⟩ | ⟨e, hcharge⟩
  · cases h.symm.trans hcharge
    rfl
  · cases h.symm.trans hcharge

/-- An operation that is not refused takes one step on each file. -/
theorem fileStep_of_refusal (name : FileName) (height : Nat) (h : ledger.refusal? op = none) :
    FileStep name height op ledger.files[name]? (op.rewrite height name ledger.files[name]?) := by
  unfold Operation.rewrite
  -- What is not refused finds the file, or its absence, as the step needs it.
  split
  · next heq =>
    cases op with
    | create creator file =>
      obtain rfl : file = name := heq
      have habsent : file ∉ ledger.files := by simpa [refusal?] using h
      rw [Std.ExtTreeMap.getElem?_eq_none habsent]
      exact .create
    | append creator file number data =>
      obtain rfl : file = name := heq
      unfold refusal? at h
      dsimp only at h
      cases hfile : ledger.files[file]? with
      | none => simp [hfile] at h
      | some entry =>
        rw [hfile] at h
        dsimp only at h
        split at h
        · cases h
        · next hroom =>
          split at h
          · cases h
          · next hnumber =>
            exact .append (Nat.lt_of_not_le hroom) (Decidable.not_not.mp hnumber)
    | delete creator file =>
      obtain rfl : file = name := heq
      have hpresent : file ∈ ledger.files := by simpa [refusal?] using h
      rw [Std.ExtTreeMap.getElem?_eq_some_getElem hpresent]
      exact .delete
  · next hne => exact .elsewhere hne

/-- **What one operation does to one file**, if it succeeds. -/
theorem fileStep_of_applyOp (h : before.applyOp op height = ⟨after, none⟩) (name : FileName) :
    FileStep name height op before.files[name]? after.files[name]? := by
  obtain ⟨hrefusal, paid, hcharge, rfl⟩ := applyOp_eq_ok_iff.mp h
  rw [getElem?_perform, files_of_charge hcharge]
  exact fileStep_of_refusal name height hrefusal

end Ledger

/-! ## The operations of a chain -/

/-- The operations of some blocks in order, each with the height of its block. The first block is at
the given height. -/
def timeline (height : Nat) (blocks : List Block) : List (Nat × Operation) :=
  (blocks.zipIdx height).flatMap fun (block, level) => block.operations.map (level, ·)

@[simp] theorem timeline_nil (height : Nat) : timeline height [] = [] := rfl

/-- The operations of a chain are those of its first block, then the rest. -/
@[simp] theorem timeline_cons (height : Nat) (block : Block) (rest : List Block) :
    timeline height (block :: rest)
      = block.operations.map (height, ·) ++ timeline (height + 1) rest := by
  simp [timeline, List.zipIdx_cons]

/-- The operations of two stretches are those of the first and then those of the second, behind
it. -/
theorem timeline_append (height : Nat) (first second : List Block) :
    timeline height (first ++ second)
      = timeline height first ++ timeline (height + first.length) second := by
  simp [timeline, List.zipIdx_append]

/-- Every operation of a timeline stands in one of the blocks. -/
theorem mem_timeline {height : Nat} {blocks : List Block} {entry : Nat × Operation}
    (h : entry ∈ timeline height blocks) : ∃ block ∈ blocks, entry.2 ∈ block.operations := by
  induction blocks generalizing height with
  | nil => cases h
  | cons block rest ih =>
    rw [timeline_cons, List.mem_append] at h
    rcases h with hhere | hlater
    · obtain ⟨op, hop, rfl⟩ := List.mem_map.mp hhere
      exact ⟨block, List.mem_cons_self, hop⟩
    · obtain ⟨other, hother, hop⟩ := ih hlater
      exact ⟨other, List.mem_cons_of_mem _ hother, hop⟩

/-- No operation is lower than the first block. -/
theorem le_of_mem_timeline {height : Nat} {blocks : List Block} {entry : Nat × Operation}
    (h : entry ∈ timeline height blocks) : height ≤ entry.1 := by
  induction blocks generalizing height with
  | nil => cases h
  | cons block rest ih =>
    rw [timeline_cons, List.mem_append] at h
    rcases h with hhere | hlater
    · obtain ⟨op, -, rfl⟩ := List.mem_map.mp hhere
      exact Nat.le_refl _
    · exact Nat.le_of_succ_le (ih hlater)

/-- No operation is higher than the last block. -/
theorem lt_of_mem_timeline {height : Nat} {blocks : List Block} {entry : Nat × Operation}
    (h : entry ∈ timeline height blocks) : entry.1 < height + blocks.length := by
  induction blocks generalizing height with
  | nil => cases h
  | cons block rest ih =>
    rw [timeline_cons, List.mem_append] at h
    rw [List.length_cons]
    rcases h with hhere | hlater
    · obtain ⟨op, -, rfl⟩ := List.mem_map.mp hhere
      exact Nat.lt_add_of_pos_right (Nat.succ_pos _)
    · have hlt := ih hlater
      omega

/-- Heights do not go down along a chain. -/
theorem pairwise_timeline (height : Nat) (blocks : List Block) :
    (timeline height blocks).Pairwise fun first second => first.1 ≤ second.1 := by
  induction blocks generalizing height with
  | nil => exact .nil
  | cons block rest ih =>
    rw [timeline_cons, List.pairwise_append]
    refine ⟨?_, ih (height + 1), fun first hfirst second hsecond => ?_⟩
    · exact List.pairwise_map.mpr (List.pairwise_of_forall fun _ _ => Nat.le_refl _)
    · obtain ⟨op, -, rfl⟩ := List.mem_map.mp hfirst
      exact Nat.le_of_succ_le (le_of_mem_timeline hsecond)

/-- Every operation of a block is in the timeline, at some height. -/
theorem exists_mem_timeline (height : Nat) {blocks : List Block} {block : Block}
    {op : Operation} (hblock : block ∈ blocks) (hop : op ∈ block.operations) :
    ∃ entry ∈ timeline height blocks, entry.2 = op := by
  obtain ⟨first, rest, rfl⟩ := List.append_of_mem hblock
  refine ⟨(height + first.length, op), ?_, rfl⟩
  rw [timeline_append, timeline_cons]
  exact List.mem_append_right _ (List.mem_append_left _ (List.mem_map_of_mem hop))

/-- Whether a block of its kind may carry its operations and may stand at some height. -/
def Block.IsShaped (block : Block) (height : Nat) : Prop :=
  match block.kind with
  | .genesis => height = 0 ∧ block.operations = []
  | .noOp => block.operations = []
  | .regular => True

namespace Ledger

variable {ledger before after : Ledger} {op : Operation} {height : Nat} {name : FileName}

/-- A chain applies if its first block does and the rest applies after it. -/
theorem applyChain_cons_eq_ok_iff {block : Block} {rest : List Block} :
    before.applyChain height (block :: rest) = .ok after
      ↔ ∃ next, before.applyBlock block height = ⟨next, none⟩
          ∧ next.applyChain (height + 1) rest = .ok after := by
  rw [applyChain]
  obtain ⟨next, failure⟩ := before.applyBlock block height
  cases failure <;> simp

/-- Operations apply if the first one does and the rest apply after it. -/
theorem applyOps_cons_eq_ok_iff {rest : List Operation} :
    before.applyOps height (op :: rest) = ⟨after, none⟩
      ↔ ∃ next, before.applyOp op height = ⟨next, none⟩
          ∧ next.applyOps height rest = ⟨after, none⟩ := by
  rw [applyOps]
  obtain ⟨next, failure⟩ := before.applyOp op height
  cases failure <;> simp

/-- A block applies if its kind may carry its operations and may stand there, and its operations
apply after its miner was paid. A first block pays nothing. -/
theorem applyBlock_eq_ok_iff {block : Block} :
    before.applyBlock block height = ⟨after, none⟩
      ↔ block.IsShaped height
        ∧ (before.credit block.miner block.kind).applyOps height block.operations
            = ⟨after, none⟩ := by
  unfold applyBlock Block.IsShaped
  cases block.kind with
  | genesis =>
    have hcredit : before.credit block.miner .genesis = before := by
      cases heconomics : before.economics <;> simp [credit, reward?, heconomics]
    rw [hcredit]
    dsimp only
    split
    · next hheight => simp [hheight]
    · next hheight =>
      split
      · next hops => simp [hops]
      · next hops => simp_all [applyOps]
  | noOp =>
    dsimp only
    split
    · next hops => simp [hops]
    · next hops => simp_all [applyOps]
  | regular => simp

/-- What one operation keeps is kept by any number of them, with the operations done so far in hand.
Induction on the operations. -/
theorem applyOps_induction {motive : List (Nat × Operation) → Ledger → Prop}
    (apply : ∀ done ledger op next, ledger.applyOp op height = ⟨next, none⟩ →
      motive done ledger → motive (done ++ [(height, op)]) next)
    {ops : List Operation} (h : before.applyOps height ops = ⟨after, none⟩)
    {done : List (Nat × Operation)} (start : motive done before) :
    motive (done ++ ops.map (height, ·)) after := by
  induction ops generalizing done before with
  | nil =>
    cases h
    simpa using start
  | cons op rest ih =>
    obtain ⟨next, hop, hrest⟩ := applyOps_cons_eq_ok_iff.mp h
    have hnext := ih hrest (apply done before op next hop start)
    simpa using hnext

/-- What paying a miner and applying an operation keep is true after a chain that can be applied.
The property may speak of the operations so far, and the step of where the chain lies. -/
theorem applyChain_induction {motive : List (Nat × Operation) → Ledger → Prop} {blocks : List Block}
    (credit : ∀ done ledger miner kind, motive done ledger → motive done (ledger.credit miner kind))
    (apply : ∀ done ledger op level next, height ≤ level → level < height + blocks.length →
      ledger.applyOp op level = ⟨next, none⟩ →
      motive done ledger → motive (done ++ [(level, op)]) next)
    (h : before.applyChain height blocks = .ok after)
    {done : List (Nat × Operation)} (start : motive done before) :
    motive (done ++ timeline height blocks) after := by
  induction blocks generalizing height done before with
  | nil =>
    cases h
    simpa using start
  | cons block rest ih =>
    obtain ⟨next, hnext, hrest⟩ := applyChain_cons_eq_ok_iff.mp h
    have hops := (applyBlock_eq_ok_iff.mp hnext).2
    rw [List.length_cons] at apply
    -- The block at the height itself, and then those above it.
    have hhere := applyOps_induction
      (fun done ledger op next => apply done ledger op height next (Nat.le_refl _) (by omega))
      hops (credit done before _ _ start)
    rw [timeline_cons, ← List.append_assoc]
    refine ih (fun done ledger op level next hle hlt => ?_) hrest hhere
    exact apply done ledger op level next (by omega) (by omega)

/-- **What every step of a file keeps is true of the file after a chain.** -/
theorem file_induction (name : FileName) {motive : List (Nat × Operation) → Option File → Prop}
    {blocks : List Block}
    (step : ∀ done level op first second, height ≤ level → level < height + blocks.length →
      FileStep name level op first second → motive done first →
      motive (done ++ [(level, op)]) second)
    (h : before.applyChain height blocks = .ok after) (start : motive [] before.files[name]?) :
    motive (timeline height blocks) after.files[name]? := by
  have hrun : motive ([] ++ timeline height blocks) after.files[name]? := by
    refine applyChain_induction (motive := fun done ledger => motive done ledger.files[name]?)
      ?_ ?_ h start
    · intro done ledger miner kind hledger
      rwa [files_credit]
    · intro done ledger op level next hle hlt hop hledger
      exact step done level op _ _ hle hlt (fileStep_of_applyOp hop name) hledger
  simpa using hrun

end Ledger
end RecordChain
