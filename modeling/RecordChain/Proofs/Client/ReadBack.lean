import RecordChain.Proofs.Client.Appends

/-!
# Reading back what was appended

An append waits until its record is confirmed, and not until the file is. Readers see a record only if
both are. So a record that was appended can be read back as soon as the creation of its file is
confirmed, which it is if creations need no more confirmations than appends do.

* **`File.view?_eq_ite`**: confirmations of the creation decide whether a file is seen, and have no part
  in what is seen of it.
* **`read_back`**: what is read on the chain on which an append is answered. `read_back_refused` is an
  append that is answered before the file can be read.
-/

namespace RecordChain

variable {path : List Block} {ledger : Ledger} {file : FileName} {number : RecordNumber}
  {record : Record}

/-! ## What is seen of a file -/

/-- Confirmations of the creation decide whether a file is seen, and have no part in what is seen of
it. -/
theorem File.view?_eq_ite (entry : File) (confirmations : Confirmations) (top : Nat) :
    entry.view? confirmations top
      = if confirmations.create ≤ top - entry.createdAt then
          entry.view? ⟨0, confirmations.append⟩ top
        else none := by
  simp [File.view?, isConfirmed]

theorem File.exists_place_of_view? {entry : File} {confirmations : Confirmations} {top : Nat}
    {view : FileView} (h : entry.view? confirmations top = some view) {i : Nat}
    (hdata : view.data[i]? = some record) :
    ∃ place ∈ entry.records, confirmations.append ≤ top - place.1 := by
  obtain ⟨shown, hidden, hsplit, hview, hshown, -⟩ := (File.view?_eq_some_iff.mp h).data
  rw [hview, List.getElem?_map] at hdata
  obtain ⟨place, hplace, -⟩ := Option.map_eq_some_iff.mp hdata
  have hmem := List.mem_of_getElem? hplace
  refine ⟨place, ?_, hshown place hmem⟩
  rw [← Array.mem_toList_iff, hsplit]
  exact List.mem_append_left _ hmem

/-- A record that is told to be in place is among those that are confirmed, whether the file is
confirmed or not. -/
theorem exists_view_of_watchAppend_done (h : Ledger.replay none path = .ok ledger) {depth : Nat}
    {queue : JobQueue} (hdone : watchAppend depth path queue file number record = .done) :
    ∃ entry view, ledger.files[file]? = some entry
      ∧ entry.view? ⟨0, depth⟩ (path.length - 1) = some view
      ∧ view.data[number.toNat]? = some record := by
  obtain ⟨confirmed, hconfirmed, hwatch⟩ :=
    watchAppend_eq_of_slot? h depth queue (slot?_of_watchAppend_done hdone)
  rw [hdone] at hwatch
  obtain ⟨views, hviews, hfiles⟩ := exists_confirmedFiles h ⟨0, depth⟩
  obtain rfl := Except.ok.inj (hviews.symm.trans hconfirmed)
  split at hwatch
  · next hfound =>
    obtain ⟨view, hview, hdata⟩ := Option.bind_eq_some_iff.mp hfound
    rw [hfiles] at hview
    obtain ⟨entry, hentry, hshown⟩ := Option.bind_eq_some_iff.mp hview
    exact ⟨entry, view, hentry, hshown, hdata⟩
  · cases hwatch

theorem readRecord_of_view (h : Ledger.replay none path = .ok ledger) {entry : File}
    (hentry : ledger.files[file]? = some entry) {confirmations : Confirmations} {view : FileView}
    (hview : entry.view? confirmations (path.length - 1) = some view)
    (hdata : view.data[number.toNat]? = some record) :
    readRecord confirmations path file number = .ok record := by
  obtain ⟨views, hviews, hfiles⟩ := exists_confirmedFiles h confirmations
  have hfile : views[file]? = some view := by
    rw [hfiles, hentry, Option.bind_some, hview]
  simp only [readRecord, hviews, bind, Except.bind, hfile, hdata]
  rfl

theorem readRecord_of_hidden (h : Ledger.replay none path = .ok ledger) {entry : File}
    (hentry : ledger.files[file]? = some entry) {confirmations : Confirmations}
    (hview : entry.view? confirmations (path.length - 1) = none) :
    readRecord confirmations path file number = .error .fileDoesNotExist := by
  obtain ⟨views, hviews, hfiles⟩ := exists_confirmedFiles h confirmations
  have hfile : views[file]? = none := by
    rw [hfiles, hentry, Option.bind_some, hview]
  simp only [readRecord, hviews, bind, Except.bind, hfile]
  rfl

/-! ## Reading back -/

/-- What is read of a record that an append has put in its place, if the file was last created at some
height of the chain. -/
structure ReadsBack (confirmations : Confirmations) (path : List Block) (file : FileName)
    (number : RecordNumber) (record : Record) (createdAt : Nat) : Prop where
  created : ∃ creator, lastMaking? file (timeline 0 path) = some (createdAt, .create creator file)
  /-- The record can be read as soon as enough blocks follow the one that creates the file. -/
  read_eq : readRecord confirmations path file number
    = if confirmations.create ≤ path.length - 1 - createdAt then .ok record
      else .error .fileDoesNotExist
  /-- That is so at once, if creations need no more confirmations than appends. -/
  deep : confirmations.create ≤ confirmations.append →
    confirmations.create ≤ path.length - 1 - createdAt

theorem exists_readsBack (h : Ledger.replay none path = .ok ledger) (confirmations : Confirmations)
    {queue : JobQueue}
    (hdone : watchAppend confirmations.append path queue file number record = .done) :
    ∃ createdAt, ReadsBack confirmations path file number record createdAt := by
  obtain ⟨entry, view, hentry, hview, hdata⟩ := exists_view_of_watchAppend_done h hdone
  obtain ⟨before, since, hlife⟩ := exists_life h hentry
  have hite := entry.view?_eq_ite confirmations (path.length - 1)
  refine ⟨entry.createdAt, ⟨_, hlife.lastMaking?_eq⟩, ?_, fun hle => ?_⟩
  · split
    · next hdeep =>
      rw [if_pos hdeep, hview] at hite
      exact readRecord_of_view h hentry hite hdata
    · next hdeep =>
      rw [if_neg hdeep] at hite
      exact readRecord_of_hidden h hentry hite
  · -- The file is at least as old as the record, which is confirmed.
    obtain ⟨place, hplace, hconfirmed⟩ := File.exists_place_of_view? hview hdata
    have hcreated := (chronicled_of_replay h hentry).created_le place hplace
    dsimp only at hconfirmed
    omega

/-- A look of a call is the last one, with success, if it finds the write in place. -/
theorem Call.watch_of_poll {call : Call} {replica : Replica} {job : Operation}
    {answer : Option RecordNumber} (h : (call.poll replica job).2 = .finished (.ok answer)) :
    call.watch replica job = .done ∧ answer = job.number? := by
  unfold poll at h
  split at h
  · next hdone =>
    cases h
    exact ⟨hdone, rfl⟩
  all_goals cases h

/-- **What was appended can be read back** on the chain on which the append is answered, if the
creation of the file is confirmed there. If it is not, there is no such file for readers, but this
cannot be if creations need no more confirmations than appends. -/
theorem read_back {economics : Economics} {difficulty : Difficulty} {replica : Replica}
    {me : Account} {answer : Option RecordNumber}
    (hbuilt : replica.chain.Built economics difficulty)
    (hpoll : ((Call.append file record).poll replica (.append me file number record)).2
      = .finished (.ok answer)) :
    answer = some number ∧ ∃ createdAt,
      ReadsBack replica.config.confirmations replica.chain.longest file number record createdAt := by
  obtain ⟨ledger, hreplay⟩ := hbuilt.exists_replay_longest
  obtain ⟨hdone, rfl⟩ := Call.watch_of_poll hpoll
  exact ⟨rfl, exists_readsBack hreplay replica.config.confirmations hdone⟩

open Clients

theorem read_back_written :
    ((Call.append "notes" .empty).poll written (.append "ann" "notes" 0 .empty)).2
        = .finished (.ok (some 0))
      ∧ readRecord written.config.confirmations written.chain.longest "notes" 0 = .ok .empty := by
  have hpoll : ((Call.append "notes" .empty).poll written (.append "ann" "notes" 0 .empty)).2
      = .finished (.ok (some 0)) := by
    rw [Call.poll, watch_written List.mem_cons_self]
    rfl
  obtain ⟨-, createdAt, hreads⟩ := read_back grown_written.built hpoll
  refine ⟨hpoll, ?_⟩
  rw [hreads.read_eq, if_pos (hreads.deep (Nat.le_refl 0))]

/-- A replica whose readers wait for a file longer than for its records. -/
def Replica.hesitant (replica : Replica) (depth : Nat) : Replica :=
  { replica with config := { replica.config with confirmsPerCreate := depth } }

/-- **What was appended need not be readable**: an append is answered, and for readers the file does
not exist yet. -/
theorem read_back_refused :
    (written.hesitant 5).chain.Built ⟨0, 0, 0, 0⟩ ⟨0, 0⟩
      ∧ (written.hesitant 5).config.confirmations = ⟨5, 0⟩
      ∧ ((Call.append "notes" .empty).poll (written.hesitant 5)
          (.append "ann" "notes" 0 .empty)).2 = .finished (.ok (some 0))
      ∧ readRecord (written.hesitant 5).config.confirmations (written.hesitant 5).chain.longest
          "notes" 0 = .error .fileDoesNotExist := by
  -- Shown for any replica, so that the insertion is not evaluated.
  have hchain : ∀ (replica : Replica) (depth : Nat),
      (replica.hesitant depth).chain = replica.chain := fun _ _ => rfl
  have hwatch : ∀ (replica : Replica) (depth : Nat) (job : Operation),
      (Call.append "notes" .empty).watch (replica.hesitant depth) job
        = (Call.append "notes" .empty).watch replica job := fun _ _ _ => rfl
  have hread : readRecord ⟨5, 0⟩ (newlyOpened.chain.longest ++ [twoRecords]) "notes" 0
      = .error .fileDoesNotExist := by
    decide +kernel
  have hconfirmations : (written.hesitant 5).config.confirmations = ⟨5, 0⟩ := rfl
  refine ⟨?_, hconfirmations, ?_, ?_⟩
  · rw [hchain]
    exact grown_written.built
  · rw [Call.poll, hwatch, watch_written List.mem_cons_self]
    rfl
  · rw [hconfirmations, hchain, chain_written, longest_written]
    exact hread

end RecordChain
