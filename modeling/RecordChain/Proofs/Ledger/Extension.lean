import RecordChain.Proofs.Ledger.Confirmation

/-!
# Confirmed files on a chain that grows

Blocks on top of a chain take nothing away from what readers see, unless they delete the file. What was
written is one block deeper with each of them, and what they write themselves comes behind it.

* **`exists_kept`**: a file that nobody deletes stays as it is, but for the records that are appended.
* **`FileView.GrowsInto`**: a view of a file goes on as another one.
* **`File.exists_grown`**: readers go on to see what they have seen of such a file.
* **`grown_filesAfter`**: the same for all files of a chain that grows, in whatever number of blocks.
-/

namespace RecordChain

variable {path added : List Block} {ledger : Ledger}

/-! ## What is kept -/

theorem deletes_eq_false_of_spared {name : FileName} {blocks : List Block} (height : Nat)
    (spared : deletedIn name blocks = false) :
    ∀ entry ∈ timeline height blocks, entry.2.deletes name = false := by
  intro entry hentry
  refine Bool.eq_false_iff.mpr fun hdeletes => ?_
  exact Bool.false_ne_true (spared ▸ (deletedIn_iff height).mpr ⟨entry, hentry, hdeletes⟩)

/-- A file that nobody deletes is there after a chain has grown, with more records at most. -/
theorem exists_kept (h : Ledger.replay none (path ++ added) = .ok ledger) :
    ∃ past, Ledger.replay none path = .ok past ∧ ∀ name, deletedIn name added = false →
      ∀ old, past.files[name]? = some old →
        ∃ more, ledger.files[name]? = some { old with records := old.records ++ more } := by
  obtain ⟨past, hpast, hsince⟩ := since_replay h
  refine ⟨past, hpast, fun name spared old hold => ?_⟩
  have hundeleted : ¬ ∃ entry ∈ timeline path.length added, entry.2.deletes name := by
    rintro ⟨entry, hentry, hdeletes⟩
    cases (deletes_eq_false_of_spared path.length spared entry hentry).symm.trans hdeletes
  have hfile := hsince name
  rw [hold] at hfile
  generalize ledger.files[name]? = file? at hfile
  cases hfile with
  | @kept same more heq =>
    obtain rfl := Option.some.inj heq
    exact ⟨more.toArray, rfl⟩
  | made lost => exact absurd (lost.resolve_left (Option.some_ne_none _)) hundeleted
  | gone lost => exact absurd (lost.resolve_left (Option.some_ne_none _)) hundeleted

/-! ## What is seen -/

/-- What readers see of a file, and what they see of it later: the same creator, and the same records
with others behind them. -/
structure FileView.GrowsInto (before after : FileView) : Prop where
  creator_eq : after.creator = before.creator
  data_prefix : before.data <+: after.data

/-- Readers go on to see what they have seen of a file, if the chain and the file only grow and they
ask for no more confirmations than before. -/
theorem File.exists_grown {file : File} {deep shallow : Confirmations} {top later : Nat}
    {view : FileView} (hview : file.view? deep top = some view)
    (hcreate : shallow.create ≤ deep.create) (happend : shallow.append ≤ deep.append)
    (htop : top ≤ later) (more : Array (Nat × Record)) :
    ∃ grown, ({ file with records := file.records ++ more } : File).view? shallow later = some grown
      ∧ view.GrowsInto grown := by
  obtain ⟨hcreated, hcreator, -, shown, hidden, hsplit, hdata, hshown, -⟩ :=
    File.view?_eq_some_iff.mp hview
  have hconfirmed : isConfirmed later file.createdAt shallow.create = true :=
    decide_eq_true (by omega)
  have hall : ∀ entry ∈ shown, isConfirmed later entry.1 shallow.append = true := by
    intro entry hentry
    have hdeep := hshown entry hentry
    exact decide_eq_true (by omega)
  have hrecords : (file.records ++ more).toList = shown ++ (hidden ++ more.toList) := by
    rw [Array.toList_append, hsplit, List.append_assoc]
  rw [File.view?, if_pos hconfirmed]
  refine ⟨_, rfl, hcreator.symm, ?_⟩
  dsimp only
  rw [hrecords, List.takeWhile_append_of_pos hall, List.map_append, hdata]
  exact List.prefix_append _ _

/-- **Readers lose sight of nothing that nobody deletes.** What they see of a file after some blocks
of a chain they see after more of them, with others behind it, even if they ask for fewer
confirmations then. -/
theorem grown_filesAfter {economics : Option Economics}
    (h : Ledger.replay economics (path ++ added) = .ok ledger) (deep shallow : Confirmations)
    (hcreate : shallow.create ≤ deep.create) (happend : shallow.append ≤ deep.append) :
    ∃ before after : FileViews, filesAfter deep path = .ok before
      ∧ filesAfter shallow (path ++ added) = .ok after
      ∧ ∀ (name : FileName) (view : FileView), deletedIn name added = false →
        before[name]? = some view → ∃ grown, after[name]? = some grown ∧ view.GrowsInto grown := by
  have hfree := Ledger.replay_unpriced h
  obtain ⟨past, hpast, hkept⟩ := exists_kept hfree
  refine ⟨_, _, filesAfter_eq hpast deep, filesAfter_eq hfree shallow, fun name view spared hview => ?_⟩
  rw [getElem?_views] at hview ⊢
  obtain ⟨old, hold, hview⟩ := Option.bind_eq_some_iff.mp hview
  obtain ⟨more, hfile⟩ := hkept name spared old hold
  have htop : path.length - 1 ≤ (path ++ added).length - 1 := by
    rw [List.length_append]
    omega
  rw [hfile]
  exact old.exists_grown hview hcreate happend htop more

/-- A chain with a file that has a confirmed record, and with another file. -/
def diary : List Block :=
  [.genesis "miner" 0,
    .regular .zero "ann" [.create "ann" "notes", .append "ann" "notes" 0 .empty,
      .create "bob" "draft"] 0,
    .noOp .zero "bob" 0]

/-- Blocks that append to the one and delete the other. -/
def pages : List Block :=
  [.regular .zero "bob" [.append "bob" "notes" 1 .empty] 0,
    .regular .zero "bob" [.delete "ann" "draft"] 0]

theorem grown_filesAfter_diary :
    ∃ ledger before after view grown, Ledger.replay none (diary ++ pages) = .ok ledger
      ∧ filesAfter ⟨1, 1⟩ diary = .ok before ∧ filesAfter ⟨0, 1⟩ (diary ++ pages) = .ok after
      ∧ deletedIn "notes" pages = false ∧ before["notes"]? = some view
      ∧ (view.creator, view.data.length) = ("ann", 1)
      ∧ after["notes"]? = some grown ∧ view.GrowsInto grown := by
  obtain ⟨hreplay, hseen, hspared⟩ :
      ((Ledger.replay none (diary ++ pages)).toOption.isSome
        ∧ (filesAfter ⟨1, 1⟩ diary).toOption.bind (·["notes"]?.map fun view =>
            (view.creator, view.data.length)) = some ("ann", 1)
        ∧ deletedIn "notes" pages = false) := by
    decide +kernel
  obtain ⟨ledger, hledger⟩ := Option.isSome_iff_exists.mp hreplay
  have h := eq_ok_of_toOption hledger
  obtain ⟨before, after, hbefore, hafter, hgrown⟩ :=
    grown_filesAfter h ⟨1, 1⟩ ⟨0, 1⟩ (Nat.zero_le _) (Nat.le_refl _)
  rw [hbefore] at hseen
  obtain ⟨view, hview, hshown⟩ := Option.map_eq_some_iff.mp hseen
  obtain ⟨grown, hlater, hgrows⟩ := hgrown "notes" view hspared hview
  exact ⟨ledger, before, after, view, grown, h, hbefore, hafter, hspared, hview, hshown, hlater,
    hgrows⟩

end RecordChain
