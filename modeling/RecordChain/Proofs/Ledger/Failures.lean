import RecordChain.Proofs.Ledger.FileHistory
import RecordChain.Proofs.Ledger.Unpriced

/-!
# Trying again what has failed

An operation that has failed may be tried again when the ledger has gone on. Some failures are for
good: whatever is paid and appended in the meantime, the same operation fails again, as long as
nobody creates or deletes its file. An append that is ahead of its file is worth keeping, because it
succeeds once the records before it are there. The only exception is the greatest number there is.
Files end before it, so an append with that number is kept in vain.

* **`Ledger.Rejects`**: an operation fails for good.
* **`Operation.BarredBy`**: the states of a file that bar an operation for good
  (`rejects_iff_barredBy`).
* **`Change`**, **`Ledger.changes`**: what a ledger can go through, in no matter which blocks.
* **`rejects_of_changes`**: failures for good are just that.
* **`retried_replay`**: which appends succeed after those that they are waiting for.
-/

namespace RecordChain

/-! ## Failures for good -/

/-- Whether an operation fails on a ledger and can never succeed unchanged. -/
def Ledger.Rejects (ledger : Ledger) (op : Operation) (height : Nat) : Prop :=
  ∃ e, ledger.applyOp op height = ⟨ledger, some e⟩ ∧ e.isRetryable = false

/-- Whether a file, or that there is none, bars an operation for good. A file that is full bars all
appends, and any other file those that write records it has. -/
def Operation.BarredBy (op : Operation) (file? : Option File) : Prop :=
  match op with
  | .create .. => file?.isSome
  | .delete .. => file?.isNone
  | .append _ _ number _ => ∀ file, file? = some file →
      maxRecords ≤ file.records.size ∨ number.toNat < file.records.size

namespace Ledger

variable {ledger next after : Ledger} {op : Operation} {height : Nat} {e : LedgerError}

/-- Whoever cannot pay may be able to later. -/
theorem isRetryable_of_lacksMoney (h : e.lacksMoney = true) : e.isRetryable = true := by
  obtain ⟨account, balance, fee, rfl⟩ := LedgerError.lacksMoney_iff.mp h
  rfl

/-- A failure that is not for want of money is one of the files. -/
theorem refusal?_of_solvent (h : ledger.applyOp op height = ⟨next, some e⟩)
    (hsolvent : e.lacksMoney = false) : ledger.refusal? op = some e := by
  have hfailure := ledger.failure_applyOp op height
  rw [h] at hfailure
  rcases Option.or_eq_some_iff.mp hfailure.symm with hrefusal | ⟨-, hcharge⟩
  · exact hrefusal
  · cases hsolvent.symm.trans (lacksMoney_of_charge (Outcome.eq_of_failure hcharge))

/-- A failure that time cannot mend is one of the files. -/
theorem refusal?_of_applyOp (h : ledger.applyOp op height = ⟨next, some e⟩)
    (hfinal : e.isRetryable = false) : ledger.refusal? op = some e := by
  refine refusal?_of_solvent h (Bool.eq_false_iff.mpr fun hlacks => ?_)
  cases hfinal.symm.trans (isRetryable_of_lacksMoney hlacks)

/-- An operation fails for good if the files refuse it for good. -/
theorem rejects_iff_refusal : ledger.Rejects op height
    ↔ ∃ e, ledger.refusal? op = some e ∧ e.isRetryable = false := by
  constructor
  · rintro ⟨e, hfails, hfinal⟩
    exact ⟨e, refusal?_of_applyOp hfails hfinal, hfinal⟩
  · rintro ⟨e, hrefusal, hfinal⟩
    exact ⟨e, applyOp_of_refusal height hrefusal, hfinal⟩

/-- What the files have against an append to a file that is there. -/
theorem refusal?_append {creator : Account} {file : FileName} {entry : File}
    (hfile : ledger.files[file]? = some entry) (number : RecordNumber) (data : Record) :
    ledger.refusal? (.append creator file number data)
      = if maxRecords ≤ entry.records.size then some (.maxLengthReached file)
        else if number.toNat ≠ entry.records.size then
          some (.wrongRecordNumber file (UInt16.ofNat entry.records.size) number)
        else none := by
  rw [refusal?, hfile]

/-- The number of records in a file that is not full is a record number. -/
theorem toNat_size {entry : File} (hroom : entry.records.size < maxRecords) :
    (UInt16.ofNat entry.records.size).toNat = entry.records.size :=
  UInt16.toNat_ofNat_of_lt (Nat.lt_trans hroom (by decide))

/-- **An operation fails for good if its file bars it**, and only then. -/
theorem rejects_iff_barredBy : ledger.Rejects op height ↔ op.BarredBy ledger.files[op.file]? := by
  rw [rejects_iff_refusal]
  cases op with
  | create creator file =>
    by_cases hfile : file ∈ ledger.files <;>
      simp [refusal?, hfile, LedgerError.isRetryable, Operation.BarredBy, Operation.file]
  | delete creator file =>
    by_cases hfile : file ∈ ledger.files <;>
      simp [refusal?, hfile, LedgerError.isRetryable, Operation.BarredBy, Operation.file]
  | append creator file number data =>
    rw [Operation.file]
    cases hfile : ledger.files[file]? with
    | none => simp [refusal?, hfile, LedgerError.isRetryable, Operation.BarredBy]
    | some entry =>
      have hbarred : (Operation.append creator file number data).BarredBy (some entry)
          ↔ maxRecords ≤ entry.records.size ∨ number.toNat < entry.records.size := by
        simp [Operation.BarredBy]
      rw [hbarred, refusal?_append hfile]
      by_cases hfull : maxRecords ≤ entry.records.size
      · simp [hfull, LedgerError.isRetryable]
      · rw [if_neg hfull]
        by_cases hnext : number.toNat = entry.records.size
        · simp [hnext, Nat.lt_of_not_le hfull]
        -- An append that is ahead of its file can wait, one that is behind cannot.
        · rw [if_pos hnext]
          simp only [Option.some.injEq, exists_eq_left', LedgerError.isRetryable,
            decide_eq_false_iff_not, UInt16.lt_iff_toNat_lt, toNat_size (Nat.lt_of_not_le hfull)]
          omega

end Ledger

/-- What is barred stays so while the file is neither created nor deleted, as files do not lose
records. -/
theorem Operation.BarredBy.step {op other : Operation} {height : Nat} {first second : Option File}
    (h : op.BarredBy first) (hstep : FileStep op.file height other first second)
    (hkept : other.makes op.file = false) : op.BarredBy second := by
  cases hstep with
  | elsewhere => exact h
  | create | delete => exact absurd hkept (by simp [makes])
  | @append creator number data file room next =>
    cases op with
    | create => rfl
    | delete => cases h
    | append creator' name later record =>
      rintro _ ⟨⟩
      rw [Array.size_push]
      have hold := h file rfl
      omega

/-! ## What a ledger can go through -/

/-- One thing that changes a ledger. -/
inductive Change
  /-- A miner is paid for a block. -/
  | reward (miner : Account) (kind : BlockKind)
  /-- An operation is applied, in a block at some height. -/
  | operation (op : Operation) (height : Nat)

/-- Whether a change creates or deletes the file of some name. -/
def Change.makes (name : FileName) : Change → Bool
  | .reward .. => false
  | .operation op _ => op.makes name

namespace Ledger

def change (ledger : Ledger) : Change → Outcome
  | .reward miner kind => ⟨ledger.credit miner kind, none⟩
  | .operation op height => ledger.applyOp op height

/-- Makes changes in order, up to the first that fails. -/
def changes (ledger : Ledger) : List Change → Outcome
  | [] => ⟨ledger, none⟩
  | change :: rest =>
    match ledger.change change with
    | ⟨ledger, none⟩ => changes ledger rest
    | ⟨ledger, some e⟩ => ⟨ledger, some e⟩

variable {ledger next after : Ledger} {op : Operation} {height : Nat} {e : LedgerError}

theorem changes_cons_eq_ok_iff {change : Change} {rest : List Change} :
    ledger.changes (change :: rest) = ⟨after, none⟩
      ↔ ∃ next, ledger.change change = ⟨next, none⟩ ∧ next.changes rest = ⟨after, none⟩ := by
  rw [changes]
  obtain ⟨next, failure⟩ := ledger.change change
  cases failure <;> simp

theorem barredBy_of_change {change : Change} (h : op.BarredBy ledger.files[op.file]?)
    (hchange : ledger.change change = ⟨next, none⟩) (hkept : change.makes op.file = false) :
    op.BarredBy next.files[op.file]? := by
  cases change with
  | reward miner kind =>
    obtain rfl := (Outcome.mk.inj hchange).1
    rwa [files_credit]
  | operation other level => exact h.step (fileStep_of_applyOp hchange op.file) hkept

theorem barredBy_of_changes {changes : List Change} (h : op.BarredBy ledger.files[op.file]?)
    (hchanges : ledger.changes changes = ⟨after, none⟩)
    (hkept : ∀ change ∈ changes, change.makes op.file = false) :
    op.BarredBy after.files[op.file]? := by
  induction changes generalizing ledger with
  | nil =>
    obtain rfl := (Outcome.mk.inj hchanges).1
    exact h
  | cons change rest ih =>
    obtain ⟨next, hnext, hrest⟩ := changes_cons_eq_ok_iff.mp hchanges
    obtain ⟨hfirst, hlater⟩ := List.forall_mem_cons.mp hkept
    exact ih (barredBy_of_change h hnext hfirst) hrest hlater

/-- **A failure that is not worth a retry is for good.** Miners may be paid and operations may be
applied in whatever number and order. If none of them creates or deletes the file, the operation
that has failed fails again, and not for want of money either. -/
theorem rejects_of_changes {changes : List Change}
    (hfails : ledger.applyOp op height = ⟨next, some e⟩) (hfinal : e.isRetryable = false)
    (hchanges : ledger.changes changes = ⟨after, none⟩)
    (hkept : ∀ change ∈ changes, change.makes op.file = false) (level : Nat) :
    after.Rejects op level := by
  have hrejects : ledger.Rejects op height := by
    obtain rfl := applyOp_failed hfails
    exact ⟨e, hfails, hfinal⟩
  exact rejects_iff_barredBy.mpr
    (barredBy_of_changes (rejects_iff_barredBy.mp hrejects) hchanges hkept)

end Ledger

/-- What happens after the second of two creations of a file: somebody is paid, the file grows, and
another one is created. -/
def meanwhile : List Change :=
  [.reward "ann" .noOp, .operation (.append "bob" "notes" 1 .empty) 3,
    .operation (.create "ann" "drafts") 4]

theorem Ledger.rejects_of_changes_meanwhile :
    ∃ ledger next after, replay (some ⟨9, 1, 2, 1⟩) recreation = .ok ledger
      ∧ ledger.applyOp (.append "ann" "notes" 0 .empty) 3
          = ⟨next, some (.wrongRecordNumber "notes" 1 0)⟩
      ∧ ledger.changes meanwhile = ⟨after, none⟩
      ∧ (∀ change ∈ meanwhile, change.makes "notes" = false)
      ∧ after.Rejects (.append "ann" "notes" 0 .empty) 5 := by
  have hrun : (replay (some ⟨9, 1, 2, 1⟩) recreation).toOption.map (fun ledger =>
      ((ledger.applyOp (.append "ann" "notes" 0 .empty) 3).failure,
        (ledger.changes meanwhile).failure))
        = some (some (.wrongRecordNumber "notes" 1 0), none) := by
    decide +kernel
  obtain ⟨ledger, hledger, hboth⟩ := Option.map_eq_some_iff.mp hrun
  obtain ⟨hfailure, hchanged⟩ := Prod.mk.inj hboth
  have hfails := Outcome.eq_of_failure hfailure
  have hchanges := Outcome.eq_of_failure hchanged
  have hkept : ∀ change ∈ meanwhile, change.makes "notes" = false := by decide
  exact ⟨ledger, _, _, eq_ok_of_toOption hledger, hfails, hchanges, hkept,
    rejects_of_changes hfails rfl hchanges hkept 5⟩

/-! ## Appends that are ahead of their file -/

/-- What somebody appends to a file, in a block at some height. -/
structure Write where
  creator : Account
  data : Record
  height : Nat

/-- The appends that write to a file, numbered one by one from some number on. -/
def appendsFrom (file : FileName) (number : Nat) : List Write → List Change
  | [] => []
  | write :: rest =>
    .operation (.append write.creator file (UInt16.ofNat number) write.data) write.height
      :: appendsFrom file (number + 1) rest

namespace Ledger

variable {ledger next : Ledger} {creator : Account} {file name : FileName} {entry : File}
  {number expected found : RecordNumber} {data : Record} {height : Nat}

theorem applyOp_append_of_full (hfile : ledger.files[file]? = some entry)
    (hfull : maxRecords ≤ entry.records.size) :
    ledger.applyOp (.append creator file number data) height
      = ⟨ledger, some (.maxLengthReached file)⟩ := by
  apply applyOp_of_refusal
  rw [refusal?_append hfile, if_pos hfull]

/-- Without money the next record of a file that is not full is always welcome. -/
theorem applyOp_append_of_next (hfree : ledger.economics = none)
    (hfile : ledger.files[file]? = some entry) (hroom : entry.records.size < maxRecords)
    (hnext : number.toNat = entry.records.size) (creator : Account) (data : Record)
    (height : Nat) :
    ∃ next longer, ledger.applyOp (.append creator file number data) height = ⟨next, none⟩
      ∧ next.economics = none ∧ next.files[file]? = some longer
      ∧ longer.records.size = entry.records.size + 1 := by
  have hadmits : ledger.refusal? (.append creator file number data) = none := by
    rw [refusal?_append hfile, if_neg (Nat.not_le_of_lt hroom), if_neg (not_not_intro hnext)]
  refine ⟨_, { entry with records := entry.records.push (height, data) },
    applyOp_of_unpriced height hfree hadmits, hfree, ?_, Array.size_push _⟩
  rw [getElem?_perform, hfile]
  exact if_pos rfl

/-- Without money a file can be appended to until it is full. -/
theorem exists_appended (hfree : ledger.economics = none)
    (hfile : ledger.files[file]? = some entry) (writes : List Write)
    (hroom : entry.records.size + writes.length ≤ maxRecords) :
    ∃ after longer, ledger.changes (appendsFrom file entry.records.size writes) = ⟨after, none⟩
      ∧ after.economics = none ∧ after.files[file]? = some longer
      ∧ longer.records.size = entry.records.size + writes.length := by
  induction writes generalizing ledger entry with
  | nil => exact ⟨ledger, entry, rfl, hfree, hfile, rfl⟩
  | cons write rest ih =>
    rw [List.length_cons] at hroom
    have hfirst : entry.records.size < maxRecords := by omega
    obtain ⟨next, middle, happly, hfree', hfile', hsize⟩ :=
      applyOp_append_of_next hfree hfile hfirst (toNat_size hfirst) write.creator write.data
        write.height
    obtain ⟨after, longer, hchanges, hfree'', hfile'', hsize'⟩ := ih hfree' hfile' (by omega)
    refine ⟨after, longer, changes_cons_eq_ok_iff.mpr ⟨next, happly, ?_⟩, hfree'', hfile'', ?_⟩
    · rw [← hsize]
      exact hchanges
    · rw [hsize', hsize, List.length_cons]
      omega

/-- An operation that fails because of its number is an append, and is told the number of the records
that its file has. -/
theorem expected_of_applyOp {op : Operation}
    (hfails : ledger.applyOp op height = ⟨next, some (.wrongRecordNumber name expected found)⟩) :
    op.file = name ∧ op.number? = some found
      ∧ ∃ entry, ledger.files[name]? = some entry ∧ expected.toNat = entry.records.size := by
  have hrefusal := refusal?_of_solvent hfails rfl
  cases op with
  | create creator file =>
    rw [refusal?] at hrefusal
    split at hrefusal <;> cases hrefusal
  | append creator file number data =>
    cases hfile : ledger.files[file]? with
    | none =>
      rw [refusal?, hfile] at hrefusal
      cases hrefusal
    | some entry =>
      rw [refusal?_append hfile] at hrefusal
      split at hrefusal
      · cases hrefusal
      · next hroom =>
        split at hrefusal
        · obtain ⟨rfl, rfl, rfl⟩ := LedgerError.wrongRecordNumber.inj (Option.some.inj hrefusal)
          exact ⟨rfl, rfl, entry, hfile, toNat_size (Nat.lt_of_not_le hroom)⟩
        · cases hrefusal
  | delete creator file =>
    rw [refusal?] at hrefusal
    split at hrefusal <;> cases hrefusal

/-- What is known of the file when an append is kept because of its number. -/
theorem ahead_of_applyOp (hfails : ledger.applyOp (.append creator file number data) height
      = ⟨next, some (.wrongRecordNumber name expected found)⟩)
    (hretry : (LedgerError.wrongRecordNumber name expected found).isRetryable = true) :
    ∃ entry, ledger.files[file]? = some entry ∧ expected.toNat = entry.records.size
      ∧ found = number ∧ entry.records.size < number.toNat := by
  obtain ⟨rfl, hnumber, entry, hfile, hsize⟩ := expected_of_applyOp hfails
  obtain rfl := Option.some.inj hnumber
  have hlt := UInt16.lt_iff_toNat_lt.mp (of_decide_eq_true hretry)
  exact ⟨entry, hfile, hsize, rfl, hsize ▸ hlt⟩

theorem economics_of_replay {path : List Block} (h : replay none path = .ok ledger) :
    ledger.economics = none := by
  rw [Except.ok.inj (h.symm.trans (replay_unpriced h))]
  rfl

/-- **An append that is kept because of its number succeeds after the appends that it waits for**,
unless it bears the greatest number there is. The appends that it waits for all succeed, by whomever
and in whatever blocks. If its number is the greatest one they fill the file, and there is no ledger
at all to which it applies. -/
theorem retried_replay {path : List Block} (hreplay : replay none path = .ok ledger)
    (hfails : ledger.applyOp (.append creator file number data) height
      = ⟨next, some (.wrongRecordNumber name expected found)⟩)
    (hretry : (LedgerError.wrongRecordNumber name expected found).isRetryable = true)
    (writes : List Write) (hwrites : writes.length = found.toNat - expected.toNat) :
    ∃ after, ledger.changes (appendsFrom file expected.toNat writes) = ⟨after, none⟩ ∧ ∀ level,
      if found.toNat < maxRecords then
        ∃ last, after.applyOp (.append creator file number data) level = ⟨last, none⟩
      else after.applyOp (.append creator file number data) level
          = ⟨after, some (.maxLengthReached file)⟩
        ∧ ∀ other last : Ledger,
          other.applyOp (.append creator file number data) level ≠ ⟨last, none⟩ := by
  have hfree := economics_of_replay hreplay
  obtain ⟨entry, hfile, hexpected, rfl, hahead⟩ := ahead_of_applyOp hfails hretry
  rw [hexpected] at hwrites ⊢
  have hbound : found.toNat ≤ maxRecords := Nat.le_of_lt_succ found.toNat_lt
  obtain ⟨after, longer, hchanges, hfree', hfile', hsize⟩ :=
    exists_appended hfree hfile writes (by omega)
  have hlong : longer.records.size = found.toNat := by omega
  refine ⟨after, hchanges, fun level => ?_⟩
  split
  · next hroom =>
    obtain ⟨last, -, happly, -⟩ :=
      applyOp_append_of_next hfree' hfile' (hlong ▸ hroom) hlong.symm creator data level
    exact ⟨last, happly⟩
  · next hfull =>
    refine ⟨applyOp_append_of_full hfile' (hlong ▸ Nat.le_of_not_lt hfull), ?_⟩
    intro other last happly
    exact hfull ((fileStep_of_applyOp happly file).number_lt rfl rfl)

end Ledger

/-- A chain with a file that has no records yet. -/
def opened : List Block :=
  [.genesis "miner" 0, .regular .zero "ann" [.create "ann" "notes"] 0]

namespace Ledger

/-- An append to that file which is ahead of it. -/
theorem exists_ahead_opened (number : RecordNumber) (hahead : 0 < number.toNat) :
    ∃ ledger next, replay none opened = .ok ledger
      ∧ ledger.files["notes"]? = some ⟨"ann", 1, #[]⟩
      ∧ ledger.applyOp (.append "bob" "notes" number .empty) 2
          = ⟨next, some (.wrongRecordNumber "notes" 0 number)⟩ := by
  have hrun : (replay none opened).toOption.map (·.files["notes"]?)
      = some (some ⟨"ann", 1, #[]⟩) := by
    decide +kernel
  obtain ⟨ledger, hledger, hfile⟩ := Option.map_eq_some_iff.mp hrun
  refine ⟨ledger, ledger, eq_ok_of_toOption hledger, hfile, applyOp_of_refusal 2 ?_⟩
  rw [refusal?_append hfile, if_neg (by decide)]
  exact if_pos (Nat.ne_of_gt hahead)

theorem retried_replay_opened :
    ∃ ledger next after, replay none opened = .ok ledger
      ∧ ledger.applyOp (.append "bob" "notes" 2 .empty) 2
          = ⟨next, some (.wrongRecordNumber "notes" 0 2)⟩
      ∧ (LedgerError.wrongRecordNumber "notes" 0 2).isRetryable = true
      ∧ ledger.changes (appendsFrom "notes" 0 [⟨"ann", .empty, 2⟩, ⟨"bob", .empty, 3⟩])
          = ⟨after, none⟩
      ∧ ∃ last, after.applyOp (.append "bob" "notes" 2 .empty) 3 = ⟨last, none⟩ := by
  obtain ⟨ledger, next, hreplay, -, hfails⟩ := exists_ahead_opened 2 (by decide)
  obtain ⟨after, hchanges, hlast⟩ :=
    retried_replay hreplay hfails rfl [⟨"ann", .empty, 2⟩, ⟨"bob", .empty, 3⟩] rfl
  have hnumber : (2 : RecordNumber).toNat < maxRecords := by decide
  have happlies := hlast 3
  rw [if_pos hnumber] at happlies
  exact ⟨ledger, next, after, hreplay, hfails, rfl, hchanges, happlies⟩

/-- The append with the greatest number is kept like the others, and fails for good after all those
that it waits for. -/
theorem retried_in_vain :
    ∃ ledger next after, replay none opened = .ok ledger
      ∧ ledger.applyOp (.append "bob" "notes" 65535 .empty) 2
          = ⟨next, some (.wrongRecordNumber "notes" 0 65535)⟩
      ∧ (LedgerError.wrongRecordNumber "notes" 0 65535).isRetryable = true
      ∧ ledger.changes (appendsFrom "notes" 0 (List.replicate 65535 ⟨"ann", .empty, 2⟩))
          = ⟨after, none⟩
      ∧ after.applyOp (.append "bob" "notes" 65535 .empty) 2
          = ⟨after, some (.maxLengthReached "notes")⟩ := by
  obtain ⟨ledger, next, hreplay, hfile, hfails⟩ := exists_ahead_opened 65535 (by decide)
  have hcount : (List.replicate 65535 (⟨"ann", .empty, 2⟩ : Write)).length = maxRecords :=
    List.length_replicate
  obtain ⟨after, longer, hchanges, -, hlonger, hsize⟩ :=
    exists_appended (economics_of_replay hreplay) hfile (List.replicate 65535 ⟨"ann", .empty, 2⟩)
      (by rw [hcount]; decide)
  rw [hcount] at hsize
  exact ⟨ledger, next, after, hreplay, hfails, rfl, hchanges,
    applyOp_append_of_full hlonger (hsize ▸ Nat.le_add_left _ _)⟩

end Ledger
end RecordChain
