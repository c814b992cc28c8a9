import Mathlib.Order.Bounds.Basic
import RecordChain.Proofs.Client.Appends
import RecordChain.Proofs.JobQueue

/-!
# The number of an append

An append takes the number behind all that are taken, by records on the longest chain or by queued
appends. A queued append may be far ahead of its file, and then everything before it is skipped: the
file is full for whoever looks at it as soon as an append of its last record is queued.

* **`IsTaken`**: the numbers that are taken, and **`isLeast_behindTaken`**: the number behind them.
* **`numbered_longest`**: what the choice of a number comes to, on every chain and for every queue.
  `full_too_early` is an empty file that has no number left.
-/

namespace RecordChain

variable {path : List Block} {ledger : Ledger} {file : FileName} {entry : File} {queue : JobQueue}
  {number : RecordNumber}

/-! ## Numbers that are taken -/

/-- A number is taken if a record of the file has it, or a queued append is to write it. -/
def IsTaken (path : List Block) (queue : JobQueue) (file : FileName) (number : RecordNumber) : Prop :=
  (slot? path file number).isSome ∨ queue.hasAppend file number

instance (path : List Block) (queue : JobQueue) (file : FileName) (number : RecordNumber) :
    Decidable (IsTaken path queue file number) :=
  inferInstanceAs (Decidable (_ ∨ _))

theorem isLeast_behindTaken (h : Ledger.replay none path = .ok ledger)
    (hentry : ledger.files[file]? = some entry) (queue : JobQueue) :
    IsLeast {next : Nat | ∀ number, IsTaken path queue file number → number.toNat < next}
      (behindTaken queue file entry) := by
  constructor
  · rintro number (hslot | hqueued)
    · rw [isSome_slot?_iff h hentry] at hslot
      exact Nat.lt_of_lt_of_le hslot (Nat.le_max_left ..)
    · refine Nat.lt_of_lt_of_le ?_ (Nat.le_max_right ..)
      cases hlast : queue.lastAppend? file with
      | none => exact absurd hqueued (JobQueue.lastAppend?_eq_none_iff.mp hlast number)
      | some last =>
        have hle := (JobQueue.lastAppend?_eq_some_iff.mp hlast).2 number hqueued
        exact Nat.lt_succ_of_le (UInt16.le_iff_toNat_le.mp hle)
  · intro next hnext
    refine Nat.max_le.mpr ⟨?_, ?_⟩
    · -- The last record of the file, if it has one, is before the number.
      by_contra hlt
      have hsize := (chronicled_of_replay h hentry).room
      have hlast : next < UInt16.size :=
        Nat.lt_trans (Nat.lt_of_not_le hlt) (Nat.lt_of_le_of_lt hsize (by decide))
      have htaken : IsTaken path queue file (UInt16.ofNat next) := by
        refine Or.inl ((isSome_slot?_iff h hentry).mpr ?_)
        rw [UInt16.toNat_ofNat_of_lt' hlast]
        exact Nat.lt_of_not_le hlt
      have hself := hnext _ htaken
      rw [UInt16.toNat_ofNat_of_lt' hlast] at hself
      exact Nat.lt_irrefl next hself
    · cases hlast : queue.lastAppend? file with
      | none => exact Nat.zero_le next
      | some last => exact hnext last (Or.inr (JobQueue.lastAppend?_eq_some_iff.mp hlast).1)

/-! ## The choice -/

/-- What the choice of a number for an append comes to. -/
structure Numbered (path : List Block) (queue : JobQueue) (file : FileName) : Prop where
  /-- The number chosen is the first one behind all that are taken, and the file has room for it. -/
  ok_iff : ∀ number, nextRecordNumber path queue file = .ok number
    ↔ number.toNat < maxRecords
      ∧ IsLeast {next : Nat | ∀ taken, IsTaken path queue file taken → taken.toNat < next}
          number.toNat
  free : ∀ number, nextRecordNumber path queue file = .ok number →
    ¬ IsTaken path queue file number
  /-- The file is reported to be full if its last number, or one that no record can have, is taken. -/
  full_iff : nextRecordNumber path queue file = .error .maxLengthReached
    ↔ ∃ last, IsTaken path queue file last ∧ maxRecords ≤ last.toNat + 1
  /-- If nothing is skipped by those that are queued, this means that all numbers are taken. -/
  full : (∀ taken number, IsTaken path queue file taken → number < taken →
      IsTaken path queue file number) →
    nextRecordNumber path queue file = .error .maxLengthReached →
      ∀ number : RecordNumber, number.toNat < maxRecords → IsTaken path queue file number
  /-- There is no third case. -/
  answered : (∃ number, nextRecordNumber path queue file = .ok number)
    ∨ nextRecordNumber path queue file = .error .maxLengthReached

section Least

variable {next : Nat} (hleast : IsLeast
  {next : Nat | ∀ number, IsTaken path queue file number → number.toNat < next} next)

include hleast

/-- There is no room behind all that are taken if the last number, or one that no record can have, is
taken. -/
theorem maxRecords_le_iff : maxRecords ≤ next
    ↔ ∃ last, IsTaken path queue file last ∧ maxRecords ≤ last.toNat + 1 := by
  constructor
  · intro hfull
    by_contra hnone
    have hbelow : next ≤ maxRecords - 1 := by
      refine hleast.2 fun number htaken => ?_
      by_contra hlt
      refine hnone ⟨number, htaken, ?_⟩
      omega
    have hpos : 0 < maxRecords := by decide
    omega
  · rintro ⟨last, hlast, hend⟩
    exact Nat.le_trans hend (hleast.1 last hlast)

theorem ok_ofNat_eq_iff (hroom : ¬ maxRecords ≤ next) : UInt16.ofNat next = number
    ↔ number.toNat < maxRecords
      ∧ IsLeast {next : Nat | ∀ taken, IsTaken path queue file taken → taken.toNat < next}
          number.toNat := by
  have hlt : next < maxRecords := Nat.lt_of_not_le hroom
  have hfits : (UInt16.ofNat next).toNat = next :=
    UInt16.toNat_ofNat_of_lt' (Nat.lt_trans hlt (by decide))
  constructor
  · rintro rfl
    rw [hfits]
    exact ⟨hlt, hleast⟩
  · rintro ⟨-, hnumber⟩
    rw [hleast.unique hnumber, UInt16.ofNat_toNat]

end Least

theorem numbered_of_replay (h : Ledger.replay none path = .ok ledger)
    (hentry : ledger.files[file]? = some entry) (queue : JobQueue) :
    Numbered path queue file := by
  have hleast := isLeast_behindTaken h hentry queue
  have hnext := nextRecordNumber_eq h hentry queue
  generalize behindTaken queue file entry = next at hleast hnext
  have hfull_iff : nextRecordNumber path queue file = .error .maxLengthReached
      ↔ ∃ last, IsTaken path queue file last ∧ maxRecords ≤ last.toNat + 1 := by
    rw [← maxRecords_le_iff hleast, hnext]
    split <;> simp_all
  have hok_iff : ∀ number, nextRecordNumber path queue file = .ok number
      ↔ number.toNat < maxRecords
        ∧ IsLeast {next : Nat | ∀ taken, IsTaken path queue file taken → taken.toNat < next}
            number.toNat := by
    intro number
    rw [hnext]
    split
    · next hnone =>
      simp only [reduceCtorEq, false_iff, not_and]
      intro hlt hnumber
      rw [hleast.unique hnumber] at hnone
      omega
    · next hroom => rw [Except.ok.injEq, ok_ofNat_eq_iff hleast hroom]
  constructor
  case ok_iff => exact hok_iff
  case free =>
    intro number hnumber htaken
    exact Nat.lt_irrefl _ (((hok_iff number).mp hnumber).2.1 number htaken)
  case full_iff => exact hfull_iff
  case full =>
    intro hdense hnone number hnumber
    obtain ⟨last, hlast, hend⟩ := hfull_iff.mp hnone
    rcases Nat.lt_or_ge number.toNat last.toNat with hbefore | hbehind
    · exact hdense last number hlast (UInt16.lt_iff_toNat_lt.mpr hbefore)
    · obtain rfl : number = last := UInt16.toNat_inj.mp (by omega)
      exact hlast
  case answered =>
    rw [hnext]
    split
    · exact Or.inr rfl
    · exact Or.inl ⟨_, rfl⟩

theorem exists_entry {economics : Economics} {difficulty : Difficulty} {chain : Chain}
    {files : FileViews} (hbuilt : chain.Built economics difficulty)
    (hfiles : unconfirmedFiles chain.longest = .ok files) (hfile : file ∈ files) :
    ∃ ledger entry, Ledger.replay none chain.longest = .ok ledger
      ∧ ledger.files[file]? = some entry := by
  obtain ⟨ledger, hreplay⟩ := hbuilt.exists_replay_longest
  obtain ⟨views, hviews, hentries⟩ := exists_unconfirmedFiles hreplay
  obtain rfl := Except.ok.inj (hviews.symm.trans hfiles)
  rw [Std.ExtTreeMap.mem_iff_isSome_getElem?, hentries, Option.isSome_map] at hfile
  obtain ⟨entry, hentry⟩ := Option.isSome_iff_exists.mp hfile
  exact ⟨ledger, entry, hreplay, hentry⟩

/-- **An append is given the first number behind all that are taken**, on every chain on which its file
is and for every queue, and only if that number is past the end the file is reported to be full. -/
theorem numbered_longest {economics : Economics} {difficulty : Difficulty} {chain : Chain}
    {files : FileViews} (hbuilt : chain.Built economics difficulty)
    (hfiles : unconfirmedFiles chain.longest = .ok files) (hfile : file ∈ files)
    (queue : JobQueue) : Numbered chain.longest queue file := by
  obtain ⟨ledger, entry, hreplay, hentry⟩ := exists_entry hbuilt hfiles hfile
  exact numbered_of_replay hreplay hentry queue

open Clients

/-- A queue with an append that is ahead of its file. -/
def queuedAhead (number : RecordNumber) : JobQueue := ⟨[.append "bob" "notes" number .empty]⟩

theorem exists_files_newlyOpened :
    ∃ files, unconfirmedFiles newlyOpened.chain.longest = .ok files ∧ "notes" ∈ files := by
  have hfile : (unconfirmedFiles newlyOpened.chain.longest).toOption.map
      (decide <| "notes" ∈ ·) = some true := by
    decide +kernel
  obtain ⟨files, hfiles, hmem⟩ := Option.map_eq_some_iff.mp hfile
  exact ⟨files, eq_ok_of_toOption hfiles, of_decide_eq_true hmem⟩

theorem numbered_longest_newlyOpened :
    ∃ files, newlyOpened.chain.Built ⟨0, 0, 0, 0⟩ ⟨0, 0⟩
      ∧ unconfirmedFiles newlyOpened.chain.longest = .ok files ∧ "notes" ∈ files
      ∧ nextRecordNumber newlyOpened.chain.longest (queuedAhead 3) "notes" = .ok 4
      ∧ Numbered newlyOpened.chain.longest (queuedAhead 3) "notes" := by
  obtain ⟨files, hfiles, hmem⟩ := exists_files_newlyOpened
  have hnext : nextRecordNumber newlyOpened.chain.longest (queuedAhead 3) "notes" = .ok 4 := by
    decide +kernel
  exact ⟨files, built_newlyOpened, hfiles, hmem, hnext,
    numbered_longest built_newlyOpened hfiles hmem (queuedAhead 3)⟩

/-- **A file may be reported to be full that has no record**: its last number is taken by a queued
append, and all before it are free. -/
theorem full_too_early :
    ∃ files, newlyOpened.chain.Built ⟨0, 0, 0, 0⟩ ⟨0, 0⟩
      ∧ unconfirmedFiles newlyOpened.chain.longest = .ok files ∧ "notes" ∈ files
      ∧ nextRecordNumber newlyOpened.chain.longest (queuedAhead 65534) "notes"
        = .error .maxLengthReached
      ∧ ∀ number : RecordNumber, number < 65534 →
        ¬ IsTaken newlyOpened.chain.longest (queuedAhead 65534) "notes" number := by
  obtain ⟨files, hfiles, hmem⟩ := exists_files_newlyOpened
  obtain ⟨hnext, hempty⟩ :
      nextRecordNumber newlyOpened.chain.longest (queuedAhead 65534) "notes"
          = .error .maxLengthReached
        ∧ slot? newlyOpened.chain.longest "notes" 0 = none := by
    decide +kernel
  refine ⟨files, built_newlyOpened, hfiles, hmem, hnext, fun number hlt htaken => ?_⟩
  obtain ⟨ledger, entry, hreplay, hentry⟩ := exists_entry built_newlyOpened hfiles hmem
  rcases htaken with hslot | hqueued
  · -- The file is empty, so no record has the number.
    have hfilled := Nat.zero_lt_of_lt ((isSome_slot?_iff hreplay hentry).mp hslot)
    have hfirst : (slot? newlyOpened.chain.longest "notes" 0).isSome :=
      (isSome_slot?_iff hreplay hentry).mpr hfilled
    rw [hempty] at hfirst
    exact Bool.false_ne_true hfirst
  · obtain ⟨op, hop, -, hnumber⟩ := JobQueue.hasAppend_iff.mp hqueued
    obtain rfl := List.mem_singleton.mp hop
    obtain rfl := Option.some.inj hnumber
    exact UInt16.lt_irrefl _ hlt

end RecordChain
