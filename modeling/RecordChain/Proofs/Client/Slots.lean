import RecordChain.Client.Poll
import RecordChain.Proofs.Chain.HeadViews
import RecordChain.Proofs.Ledger.Chronicle
import RecordChain.Proofs.Ledger.Extension
import RecordChain.Proofs.Ledger.Standing

/-!
# The places of a file

A write looks at the longest chain alone. What an append can learn there is which places of its file
are taken, and by which records.

* **`slot?`**: the record in a place of a file, confirmed or not.
* **`slot?_append`**: as long as nobody deletes the file, a record keeps its place on a chain that
  grows.
* **`slot?_of_mem_block`**: an append that a block of the chain carries is in its place, if nobody has
  deleted the file since.
* **`lt_of_nextRecordNumber`**: an append goes for a place behind all that are taken.
* **`slot?_of_watchAppend_done`**: an append that is told that it is in place is in its place.
-/

namespace RecordChain

/-- The record in a place of a file, confirmed or not. -/
def slot? (path : List Block) (file : FileName) (number : RecordNumber) : Option Record :=
  (unconfirmedFiles path).toOption.bind fun files =>
    files[file]?.bind fun view => view.data[number.toNat]?

variable {path added : List Block} {ledger : Ledger} {file : FileName} {number : RecordNumber}
  {record : Record}

theorem exists_unconfirmedFiles (h : Ledger.replay none path = .ok ledger) :
    ∃ views : FileViews, unconfirmedFiles path = .ok views
      ∧ ∀ name : FileName, views[name]? = ledger.files[name]?.map File.whole := by
  obtain ⟨views, hviews, hfiles⟩ := exists_filesAfter_unconfirmed h
  exact ⟨views, by rw [unconfirmedFiles, hviews]; rfl, hfiles⟩

theorem exists_confirmedFiles (h : Ledger.replay none path = .ok ledger)
    (confirmations : Confirmations) :
    ∃ views : FileViews, confirmedFiles confirmations path = .ok views
      ∧ ∀ name : FileName, views[name]?
        = ledger.files[name]?.bind fun file => file.view? confirmations (path.length - 1) :=
  ⟨_, by rw [confirmedFiles, filesAfter_eq h]; rfl, getElem?_views ledger confirmations _⟩

theorem slot?_of_views {views : FileViews} (hviews : unconfirmedFiles path = .ok views)
    (file : FileName) (number : RecordNumber) :
    slot? path file number = views[file]?.bind fun view => view.data[number.toNat]? := by
  rw [slot?, hviews]
  rfl

theorem slot?_eq (h : Ledger.replay none path = .ok ledger) (file : FileName)
    (number : RecordNumber) :
    slot? path file number
      = ledger.files[file]?.bind fun entry => entry.records[number.toNat]?.map (·.2) := by
  obtain ⟨views, hviews, hfiles⟩ := exists_unconfirmedFiles h
  rw [slot?_of_views hviews, hfiles]
  cases ledger.files[file]? with
  | none => rfl
  | some entry => simp [File.whole]

/-- **A record keeps its place** on a chain that grows, as long as nobody deletes the file. -/
theorem slot?_append (h : Ledger.replay none (path ++ added) = .ok ledger)
    (spared : deletedIn file added = false) (hslot : slot? path file number = some record) :
    slot? (path ++ added) file number = some record := by
  obtain ⟨past, hpast, hkept⟩ := exists_kept h
  rw [slot?_eq hpast] at hslot
  obtain ⟨old, hold, hrecord⟩ := Option.bind_eq_some_iff.mp hslot
  obtain ⟨entry, hentry, rfl⟩ := Option.map_eq_some_iff.mp hrecord
  obtain ⟨more, hfile⟩ := hkept file spared old hold
  have hlt := (Array.getElem?_eq_some_iff.mp hentry).1
  rw [slot?_eq h, hfile, Option.bind_some, Array.getElem?_append_left hlt, hentry, Option.map_some]

/-- Some operations carry an append to a file, and none after it deletes the file. -/
def Carried (file : FileName) (number : RecordNumber) (record : Record)
    (ops : List (Nat × Operation)) : Prop :=
  ∃ before height me rest, ops = before ++ (height, .append me file number record) :: rest
    ∧ ∀ entry ∈ rest, entry.2.deletes file = false

theorem slot?_of_carried (h : Ledger.replay none path = .ok ledger)
    (hcarried : Carried file number record (timeline 0 path)) :
    slot? path file number = some record := by
  obtain ⟨before, height, me, rest, hsplit, spared⟩ := hcarried
  have hstands : Stands (.append me file number record) (timeline 0 path) :=
    ⟨before, height, rest, hsplit, spared⟩
  rw [slot?_eq h]
  exact shown_of_stands h hstands

/-- **An append that a chain carries is in its place**, unless the file was deleted later. -/
theorem slot?_of_mem_block {block : Block} {me : Account}
    (h : Ledger.replay none (path ++ block :: added) = .ok ledger)
    (hop : .append me file number record ∈ block.operations)
    (spared : deletedIn file (block :: added) = false) :
    slot? (path ++ block :: added) file number = some record := by
  obtain ⟨first, rest, hsplit⟩ := List.append_of_mem hop
  have htimeline : timeline path.length (block :: added)
      = first.map (path.length, ·) ++ (path.length, .append me file number record)
        :: (rest.map (path.length, ·) ++ timeline (path.length + 1) added) := by
    rw [timeline_cons, hsplit]
    simp
  refine slot?_of_carried h ⟨timeline 0 path ++ first.map (path.length, ·), path.length, me,
    rest.map (path.length, ·) ++ timeline (path.length + 1) added, ?_, ?_⟩
  · rw [timeline_append, Nat.zero_add, htimeline, List.append_assoc]
  · intro entry hentry
    apply deletes_eq_false_of_spared path.length spared
    rw [htimeline]
    exact List.mem_append_right _ (List.mem_cons_of_mem _ hentry)

/-- The places of a file that hold a record are those before its length. -/
theorem isSome_slot?_iff (h : Ledger.replay none path = .ok ledger) {entry : File}
    (hentry : ledger.files[file]? = some entry) :
    (slot? path file number).isSome ↔ number.toNat < entry.records.size := by
  rw [slot?_eq h, hentry, Option.bind_some, Option.isSome_map]
  simp

/-- No number is lost in the count of a file, since a file is full before its count would start
anew. -/
theorem toNat_count (h : Ledger.replay none path = .ok ledger) {entry : File}
    (hentry : ledger.files[file]? = some entry) : entry.whole.count.toNat = entry.records.size := by
  have hsize := (chronicled_of_replay h hentry).room
  rw [File.whole, UInt16.toNat_ofNat']
  exact Nat.mod_eq_of_lt (Nat.lt_of_le_of_lt hsize (by decide))

/-- The number behind all that are taken, if numbers had no end. -/
def behindTaken (queue : JobQueue) (file : FileName) (entry : File) : Nat :=
  max entry.records.size ((queue.lastAppend? file).elim 0 fun last => last.toNat + 1)

/-- An append is given the number behind all that are taken, if the file has room for it. -/
theorem nextRecordNumber_eq (h : Ledger.replay none path = .ok ledger) {entry : File}
    (hentry : ledger.files[file]? = some entry) (queue : JobQueue) :
    nextRecordNumber path queue file
      = if maxRecords ≤ behindTaken queue file entry then .error .maxLengthReached
        else .ok (UInt16.ofNat (behindTaken queue file entry)) := by
  obtain ⟨views, hviews, hfiles⟩ := exists_unconfirmedFiles h
  have hview : views[file]? = some entry.whole := by rw [hfiles, hentry]; rfl
  simp only [nextRecordNumber, hviews, bind, Except.bind, hview, toNat_count h hentry]
  rfl

/-- **An append goes for a place behind all that are taken.** -/
theorem lt_of_nextRecordNumber {queue : JobQueue} {next : RecordNumber}
    (h : Ledger.replay none path = .ok ledger)
    (hnext : nextRecordNumber path queue file = .ok next)
    (hslot : slot? path file number = some record) : number < next := by
  obtain ⟨entry, hentry, -⟩ := Option.bind_eq_some_iff.mp ((slot?_eq h file number).symm.trans hslot)
  have hlt : number.toNat < entry.records.size :=
    (isSome_slot?_iff h hentry).mp (Option.isSome_of_eq_some hslot)
  rw [nextRecordNumber_eq h hentry] at hnext
  split at hnext
  · cases hnext
  · next hroom =>
    obtain rfl := Except.ok.inj hnext
    rw [UInt16.lt_iff_toNat_lt,
      UInt16.toNat_ofNat_of_lt' (Nat.lt_trans (Nat.lt_of_not_le hroom) (by decide))]
    exact Nat.lt_of_lt_of_le hlt (Nat.le_max_left ..)

/-- An append that is told that it is in place is in its place. -/
theorem slot?_of_watchAppend_done {depth : Nat} {queue : JobQueue}
    (h : watchAppend depth path queue file number record = .done) :
    slot? path file number = some record := by
  rw [watchAppend] at h
  cases hviews : unconfirmedFiles path with
  | error e =>
    rw [hviews] at h
    cases h
  | ok views =>
    simp only [hviews, bind, Except.bind] at h
    rw [slot?_of_views hviews]
    cases hview : views[file]? with
    | none =>
      rw [hview] at h
      cases h
    | some view =>
      simp only [hview] at h
      rw [Option.bind_some]
      cases hdata : view.data[number.toNat]? with
      | none =>
        -- A place that is not taken is never told to be in place.
        simp only [hdata] at h
        cases hpending : gapIsPending queue file view number <;> rw [hpending] at h <;> cases h
      | some data =>
        simp only [hdata] at h
        split at h
        · next hsame => rw [hsame]
        · cases h

/-- Once a record is in its place, what a look for it comes to is decided by the confirmed records. -/
theorem watchAppend_eq_of_slot? (h : Ledger.replay none path = .ok ledger) (depth : Nat)
    (queue : JobQueue) (hslot : slot? path file number = some record) :
    ∃ confirmed : FileViews, confirmedFiles ⟨0, depth⟩ path = .ok confirmed
      ∧ watchAppend depth path queue file number record
        = if (confirmed[file]?.bind fun view => view.data[number.toNat]?) = some record then .done
          else .wait := by
  obtain ⟨views, hviews, -⟩ := exists_unconfirmedFiles h
  obtain ⟨confirmed, hconfirmed, -⟩ := exists_confirmedFiles h ⟨0, depth⟩
  rw [slot?_of_views hviews] at hslot
  obtain ⟨view, hview, hdata⟩ := Option.bind_eq_some_iff.mp hslot
  refine ⟨confirmed, hconfirmed, ?_⟩
  simp only [watchAppend, hviews, hconfirmed, bind, Except.bind, hview, hdata, if_true]
  split <;> rfl

/-- A record that is in its place is in place, if it needs no confirmation. -/
theorem watchAppend_of_slot? (queue : JobQueue) (h : slot? path file number = some record) :
    watchAppend 0 path queue file number record = .done := by
  rw [slot?] at h
  obtain ⟨views, hviews, hview⟩ := Option.bind_eq_some_iff.mp h
  obtain ⟨view, hfile, hdata⟩ := Option.bind_eq_some_iff.mp hview
  have hviews : unconfirmedFiles path = .ok views := eq_ok_of_toOption hviews
  have hsame : confirmedFiles ⟨0, 0⟩ path = .ok views := hviews
  simp only [watchAppend, hviews, bind, Except.bind, hfile, hdata, if_pos, hsame, Option.bind]
  rfl

namespace Chain

variable {economics : Economics} {difficulty : Difficulty} {chain : Chain}

theorem Built.exists_replay_longest (h : chain.Built economics difficulty) :
    ∃ ledger, Ledger.replay none chain.longest = .ok ledger := by
  have hvalid := h.sound.valid
  cases hhead : chain.tree.head with
  | none =>
    have hnone : chain.longest = [] := by
      rw [longest, ForkTree.longestChain, hhead]
      rfl
    rw [hnone]
    exact ⟨_, rfl⟩
  | some head =>
    obtain ⟨ledger, hreplay⟩ := hvalid.replays head (hvalid.head_lt head hhead)
    rw [longest_eq hvalid.toWellFormed h.threaded hhead]
    exact ⟨_, Ledger.replay_unpriced hreplay⟩

end Chain
end RecordChain
