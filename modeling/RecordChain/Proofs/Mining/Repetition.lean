import RecordChain.Proofs.Mining.Sifting

/-!
# Choosing again

A block that was chosen for the head may come to nothing: the search for its nonce is stopped, or it is
not handed in. What was chosen is still queued then, and only what was dropped is gone. An operation
that is dropped has no part in the rest of the pass: it changes no balance and no file, it takes no room
in the block and it postpones nothing. So the same choice is made once more.

* **`Selection.pass_undropped`**: a pass over the operations that it would not drop comes to the same.
* **`repeats_select`**: choosing once more from what a choice has left in the queue.
-/

namespace RecordChain

namespace Selection

variable {height room : Nat} {ledger next : Ledger} {postponed : List FileName}
  {jobs later : List Operation} {first : Operation} {e : LedgerError}

theorem pass_of_applies (h : ledger.applyOp first height = ⟨next, none⟩) :
    pass height (room + 1) ledger postponed (first :: later)
      = { pass height room next postponed later with
          chosen := first :: (pass height room next postponed later).chosen } := by
  rw [pass, h]

theorem pass_of_postponed (h : ledger.applyOp first height = ⟨next, some e⟩)
    (hkeep : e.isRetryable || first.file ∈ postponed) :
    pass height (room + 1) ledger postponed (first :: later)
      = pass height (room + 1) next (first.file :: postponed) later := by
  rw [pass, h]
  exact if_pos hkeep

/-- What a pass leaves of some operations. -/
def undropped (dropped jobs : List Operation) : List Operation := jobs.filter (· ∉ dropped)

theorem undropped_cons {dropped : List Operation} (h : first ∉ dropped) :
    undropped dropped (first :: later) = first :: undropped dropped later :=
  List.filter_cons_of_pos (decide_eq_true h)

theorem undropped_cons_dropped {dropped : List Operation} (h : first ∉ later) :
    undropped (first :: dropped) (first :: later) = undropped dropped later := by
  rw [undropped, List.filter_cons_of_neg (by simp)]
  exact filter_congr_of_not_mem h fun other hne => by simp [hne]

/-- **Without the operations that it drops, a pass goes just as with them.** -/
theorem pass_undropped (hnodup : jobs.Nodup) :
    pass height room ledger postponed
        (undropped (pass height room ledger postponed jobs).droppedOps jobs)
      = { pass height room ledger postponed jobs with dropped := [] } := by
  fun_induction pass height room ledger postponed jobs with
  | case1 => simp [pass]
  | case2 => simp [pass, undropped]
  | case3 room ledger postponed first later next hfirst rest ih =>
    obtain ⟨hhead, htail⟩ := List.nodup_cons.mp hnodup
    have hkept : first ∉ rest.droppedOps := fun hmem => hhead ((dropped_sublist ..).subset hmem)
    change pass height (room + 1) ledger postponed (undropped rest.droppedOps (first :: later)) = _
    rw [undropped_cons hkept, pass_of_applies hfirst, ih htail]
  | case4 room ledger postponed first later next e hfirst hkeep ih =>
    obtain ⟨hhead, htail⟩ := List.nodup_cons.mp hnodup
    have hkept : first ∉ (pass height (room + 1) next (first.file :: postponed) later).droppedOps :=
      fun hmem => hhead ((dropped_sublist ..).subset hmem)
    rw [undropped_cons hkept, pass_of_postponed hfirst hkeep, ih htail]
  | case5 room ledger postponed first later next e hfirst hkeep rest ih =>
    -- The operation has changed nothing, so the rest is the pass from here on.
    obtain ⟨hhead, htail⟩ := List.nodup_cons.mp hnodup
    obtain rfl := Ledger.applyOp_failed hfirst
    change pass height (room + 1) next postponed
      (undropped (first :: rest.droppedOps) (first :: later)) = _
    rw [undropped_cons_dropped hhead, ih htail]

end Selection

/-- What comes of choosing once more, with the same ledger and the same height of the head. -/
structure Repeats (first : Selection) (later : Replica) (ledger : Ledger) (headHeight : Nat) : Prop where
  chosen_eq : (later.select ledger headHeight).2.chosen = first.chosen
  ledger_eq : (later.select ledger headHeight).2.ledger = first.ledger
  dropped_eq : (later.select ledger headHeight).2.dropped = []
  /-- Nothing leaves the queue, and nothing is done to the outside. -/
  unchanged : (later.select ledger headHeight).1 = later
  /-- Everything that was chosen is queued still. -/
  queued : first.chosen.Sublist later.queue.jobs

/-- **A choice can be repeated**: whoever chooses once more from what it has left in the queue chooses
the same operations in the same order, drops nothing and reports nothing. -/
theorem repeats_select (replica : Replica) (ledger : Ledger) (headHeight : Nat)
    (hnodup : replica.queue.jobs.Nodup) (later : Replica) (hconfig : later.config = replica.config)
    (hqueue : later.queue = (replica.select ledger headHeight).1.queue) :
    Repeats (replica.select ledger headHeight).2 later ledger headHeight := by
  have hagain : (later.select ledger headHeight).2
      = { (replica.select ledger headHeight).2 with dropped := [] } := by
    change later.config.minerConfig.select ledger headHeight later.queue.jobs = _
    rw [hconfig, hqueue, Replica.jobs_select]
    exact Selection.pass_undropped hnodup
  have hchosen : (later.select ledger headHeight).2.chosen
      = (replica.select ledger headHeight).2.chosen := by rw [hagain]
  constructor
  case chosen_eq => exact hchosen
  case ledger_eq => rw [hagain]
  case dropped_eq => rw [hagain]
  case unchanged =>
    rw [Replica.select_fst, Selection.droppedOps, hagain]
    simp
  case queued =>
    rw [← hchosen]
    exact Selection.chosen_sublist ..

/-- The thrifty replica has given up the deletion when it chooses once more, and both operations of the
account without money are queued still. -/
theorem repeats_select_thrifty :
    ∃ ledger, thrifty.chain.ledgerAt 0 = .ok ledger
      ∧ thrifty.queue.jobs.Nodup
      ∧ (thrifty.select ledger 0).2.chosen = [.create "ann" "g"]
      ∧ (thrifty.select ledger 0).1.queue.jobs
        = [.create "bob" "f", .append "bob" "f" 0 .empty, .create "ann" "g"]
      ∧ Repeats (thrifty.select ledger 0).2 (thrifty.select ledger 0).1 ledger 0 := by
  obtain ⟨hnodup, hselect⟩ :
      thrifty.queue.jobs.Nodup
        ∧ (thrifty.chain.ledgerAt 0).toOption.map (fun ledger =>
            ((thrifty.select ledger 0).2.chosen, (thrifty.select ledger 0).2.droppedOps))
          = some ([.create "ann" "g"], [.delete "ann" "lost"]) := by
    decide +kernel
  obtain ⟨ledger, hledger, hboth⟩ := Option.map_eq_some_iff.mp hselect
  obtain ⟨hchosen, hdropped⟩ := Prod.mk.inj hboth
  have hqueued : (thrifty.select ledger 0).1.queue.jobs
      = [.create "bob" "f", .append "bob" "f" 0 .empty, .create "ann" "g"] := by
    rw [Replica.jobs_select, hdropped]
    rfl
  have hconfig : (thrifty.select ledger 0).1.config = thrifty.config := by
    rw [Replica.select_fst]
  exact ⟨ledger, eq_ok_of_toOption hledger, hnodup, hchosen, hqueued,
    repeats_select thrifty ledger 0 hnodup (thrifty.select ledger 0).1 hconfig rfl⟩

end RecordChain
