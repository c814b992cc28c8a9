import Mathlib.Data.List.TakeWhile
import RecordChain.Ledger.View
import RecordChain.Proofs.Ledger.FileHistory
import RecordChain.Proofs.Ledger.Unpriced

/-!
# Confirmed files and the past

Readers see the ledger at the end of a chain through a filter on heights. What passes the filter is
what the ledger held some blocks ago, if it has not been deleted since.

* **`Since`**: how a file stands to the same file at an earlier time. Either it was there and was only
  appended to since, or what there is now was made since, or there is none now.
* **`File.Below`**: the heights in a file are those of blocks of the chain.
* **`File.Shows`**: what readers see of a file, as a rule on heights.
* **`filesAfter_eq_past`**: the confirmed files, told from the unconfirmed ones of two earlier times.
-/

namespace RecordChain

/-- Whether an operation deletes the file of some name. -/
def Operation.deletes (name : FileName) : Operation → Bool
  | .delete _ file => file = name
  | .create .. | .append .. => false

/-- Whether some block deletes the file of some name. -/
def deletedIn (name : FileName) (blocks : List Block) : Bool :=
  blocks.any fun block => block.operations.any fun op => op.deletes name

/-- What is left of a file after some blocks that may delete it. -/
def unlessDeleted {α : Type} (name : FileName) (blocks : List Block) (past? : Option α) : Option α :=
  if deletedIn name blocks then none else past?

/-- The last blocks of a chain, or all if there are no more. -/
def lastBlocks (path : List Block) (depth : Nat) : List Block := path.drop (path.length - depth)

/-- The chain without its last blocks, which is empty if there are no more than these. -/
def withoutLast (path : List Block) (depth : Nat) : List Block := path.take (path.length - depth)

/-- What is asked of a file that was not deleted may be asked before or after. -/
theorem unlessDeleted_map {α β : Type} (name : FileName) (blocks : List Block) (f : α → β)
    (past? : Option α) :
    unlessDeleted name blocks (past?.map f) = (unlessDeleted name blocks past?).map f := by
  unfold unlessDeleted
  split <;> rfl

/-- A file is deleted in some blocks if one of their operations deletes it. -/
theorem deletedIn_iff {name : FileName} {blocks : List Block} (height : Nat) :
    deletedIn name blocks ↔ ∃ entry ∈ timeline height blocks, entry.2.deletes name := by
  unfold deletedIn
  simp only [List.any_eq_true]
  constructor
  · rintro ⟨block, hblock, op, hop, hdeletes⟩
    obtain ⟨entry, hentry, rfl⟩ := exists_mem_timeline height hblock hop
    exact ⟨entry, hentry, hdeletes⟩
  · rintro ⟨entry, hentry, hdeletes⟩
    obtain ⟨block, hblock, hop⟩ := mem_timeline hentry
    exact ⟨block, hblock, entry.2, hop, hdeletes⟩

/-! ## Heights in a file -/

/-- The heights in a file are below a bound. -/
structure File.Below (bound : Nat) (file : File) : Prop where
  createdAt_lt : file.createdAt < bound
  height_lt : ∀ entry ∈ file.records, entry.1 < bound

/-- What an operation adds to a file has the height of its block. -/
theorem File.Below.step {name : FileName} {bound height : Nat} {op : Operation}
    {first second : Option File} (hheight : height < bound) (h : ∀ file ∈ first, file.Below bound)
    (hstep : FileStep name height op first second) : ∀ file ∈ second, file.Below bound := by
  cases hstep with
  | elsewhere => exact h
  | create =>
    rintro _ ⟨⟩
    exact ⟨hheight, by simp⟩
  | @append _ _ _ file =>
    rintro _ ⟨⟩
    obtain ⟨hcreated, hrecords⟩ := h file rfl
    refine ⟨hcreated, fun entry hentry => ?_⟩
    rcases Array.mem_push.mp hentry with hold | rfl
    · exact hrecords entry hold
    · exact hheight
  | delete =>
    intro file hfile
    cases hfile

/-- On a chain no record and no file is higher than the chain. -/
theorem below_of_replay {economics : Option Economics} {path : List Block} {ledger : Ledger}
    (h : Ledger.replay economics path = .ok ledger) {name : FileName} {file : File}
    (hfile : ledger.files[name]? = some file) : file.Below path.length := by
  have hrun : ∀ file ∈ ledger.files[name]?, file.Below path.length := by
    refine Ledger.file_induction name
      (motive := fun _ file? => ∀ file ∈ file?, file.Below path.length) ?_ h nofun
    intro done height op first second _ hheight hstep hfirst
    rw [Nat.zero_add] at hheight
    exact File.Below.step hheight hfirst hstep
  exact hrun file hfile

/-! ## A file and its past -/

/-- A file now and the same file at an earlier time, since which the operations of `done` have been
applied at heights that are not below the bound. -/
inductive Since (name : FileName) (bound : Nat) (past? : Option File)
    (done : List (Nat × Operation)) : Option File → Prop
  | kept {file : File} {added : List (Nat × Record)} (past : past? = some file)
      (undeleted : ∀ entry ∈ done, entry.2.deletes name = false)
      (late : ∀ entry ∈ added, bound ≤ entry.1) :
      Since name bound past? done (some { file with records := file.records ++ added.toArray })
  | made {file : File} (lost : past? = none ∨ ∃ entry ∈ done, entry.2.deletes name)
      (born : bound ≤ file.createdAt) (late : ∀ entry ∈ file.records, bound ≤ entry.1) :
      Since name bound past? done (some file)
  | gone (lost : past? = none ∨ ∃ entry ∈ done, entry.2.deletes name) :
      Since name bound past? done none

namespace Since

variable {name : FileName} {bound height : Nat} {past? first second : Option File}
  {done : List (Nat × Operation)} {op : Operation}

/-- With nothing done yet a file is its own past. -/
theorem start (name : FileName) (bound : Nat) (past? : Option File) :
    Since name bound past? [] past? := by
  cases past? with
  | none => exact .gone (Or.inl rfl)
  | some file =>
    have hkept : Since name bound (some file) []
        (some { file with records := file.records ++ ([] : List (Nat × Record)).toArray }) :=
      .kept rfl (by simp) (by simp)
    simpa using hkept

/-- A file whose past is lost stays lost, whatever comes. -/
theorem lost_concat {past? : Option File} (entry : Nat × Operation)
    (lost : past? = none ∨ ∃ entry ∈ done, entry.2.deletes name) :
    past? = none ∨ ∃ other ∈ done ++ [entry], other.2.deletes name := by
  rcases lost with hnone | ⟨other, hother, hdeletes⟩
  · exact Or.inl hnone
  · exact Or.inr ⟨other, List.mem_append_left _ hother, hdeletes⟩

/-- A file that was not deleted is not deleted by an operation that does not delete it. -/
theorem undeleted_concat (entry : Nat × Operation)
    (undeleted : ∀ entry ∈ done, entry.2.deletes name = false)
    (hentry : entry.2.deletes name = false) :
    ∀ other ∈ done ++ [entry], other.2.deletes name = false := by
  intro other hother
  rcases List.mem_append.mp hother with hold | hnew
  · exact undeleted other hold
  · rw [List.mem_singleton.mp hnew]
    exact hentry

/-- One more operation on a file keeps what is known of its past. -/
theorem step (h : Since name bound past? done first) (hheight : bound ≤ height)
    (hstep : FileStep name height op first second) :
    Since name bound past? (done ++ [(height, op)]) second := by
  cases hstep with
  | elsewhere other =>
    cases h with
    | kept past undeleted late =>
      have hop : op.deletes name = false := by
        cases op with
        | delete creator file => exact decide_eq_false other
        | create | append => rfl
      exact .kept past (undeleted_concat _ undeleted hop) late
    | made lost born late => exact .made (lost_concat _ lost) born late
    | gone lost => exact .gone (lost_concat _ lost)
  | create =>
    -- A file is created only where there is none, so an earlier one was lost.
    cases h with
    | gone lost => exact .made (lost_concat _ lost) hheight (by simp)
  | @append creator number data file room next =>
    generalize hfirst : some file = first at h
    cases h with
    | @kept old added past undeleted late =>
      obtain rfl := Option.some.inj hfirst
      have hlate : ∀ entry ∈ added ++ [(height, data)], bound ≤ entry.1 := by
        intro entry hentry
        rcases List.mem_append.mp hentry with hold | hnew
        · exact late entry hold
        · rw [List.mem_singleton.mp hnew]
          exact hheight
      have hundeleted := undeleted_concat (height, .append creator name number data) undeleted rfl
      have hkept := kept past hundeleted hlate
      simpa [Array.append_assoc] using hkept
    | made lost born late =>
      obtain rfl := Option.some.inj hfirst
      refine .made (lost_concat _ lost) born fun entry hentry => ?_
      rcases Array.mem_push.mp hentry with hold | rfl
      · exact late entry hold
      · exact hheight
    | gone => cases hfirst
  | @delete creator file =>
    have hdeletes : (Operation.delete creator name).deletes name := decide_eq_true rfl
    exact .gone (Or.inr ⟨(height, .delete creator name), by simp, hdeletes⟩)

end Since

/-- A chain is replayed up to some block and then on from there. -/
theorem Ledger.replay_append_eq_ok {economics : Option Economics} {first second : List Block}
    {ledger : Ledger} (h : replay economics (first ++ second) = .ok ledger) :
    ∃ past, replay economics first = .ok past
      ∧ past.applyChain first.length second = .ok ledger := by
  rw [replay, applyChain_append, Nat.zero_add] at h
  cases hfirst : (empty economics).applyChain 0 first with
  | error e =>
    rw [hfirst] at h
    cases h
  | ok past =>
    rw [hfirst] at h
    exact ⟨past, hfirst, h⟩

/-- **A chain can be replayed up to any of its blocks**, and each file then stands to what it is at
the end as `Since` says. -/
theorem since_replay {economics : Option Economics} {first second : List Block} {ledger : Ledger}
    (h : Ledger.replay economics (first ++ second) = .ok ledger) :
    ∃ past, Ledger.replay economics first = .ok past ∧ ∀ name,
      Since name first.length past.files[name]? (timeline first.length second)
        ledger.files[name]? := by
  obtain ⟨past, hpast, hrest⟩ := Ledger.replay_append_eq_ok h
  refine ⟨past, hpast, fun name => ?_⟩
  refine Ledger.file_induction name (motive := Since name first.length past.files[name]?) ?_ hrest
    (.start name first.length past.files[name]?)
  intro done height op before after hheight _ hstep hbefore
  exact hbefore.step hheight hstep

/-! ## What readers see -/

/-- A file with all its records, confirmed or not. -/
def File.whole (file : File) : FileView :=
  ⟨file.creator, UInt16.ofNat file.records.size, file.records.toList.map (·.2)⟩

/-- In a chain of `size` blocks, what was written before the last `depth` of them is confirmed. -/
theorem isConfirmed_iff {size written depth : Nat} (h : written < size) :
    isConfirmed (size - 1) written depth ↔ written < size - depth := by
  unfold isConfirmed
  rw [decide_eq_true_iff]
  omega

/-- What is taken off the front while something holds is the longest stretch for which it holds. -/
theorem takeWhile_eq_iff {α : Type} {p : α → Bool} {l first : List α} :
    l.takeWhile p = first ↔ ∃ rest, l = first ++ rest ∧ (∀ x ∈ first, p x)
      ∧ ∀ x ∈ rest.head?, p x = false := by
  constructor
  · rintro rfl
    refine ⟨l.dropWhile p, List.takeWhile_append_dropWhile.symm,
      fun x hx => List.mem_takeWhile_imp hx, fun x hx => ?_⟩
    have hnot := List.head?_dropWhile_not p l
    rw [Option.mem_def.mp hx] at hnot
    exact hnot
  · rintro ⟨rest, rfl, hfirst, hrest⟩
    rw [List.takeWhile_append_of_pos hfirst]
    cases rest with
    | nil => rw [List.takeWhile_nil, List.append_nil]
    | cons x rest =>
      have hx : ¬ p x := by simpa using hrest x rfl
      rw [List.takeWhile_cons_of_neg hx, List.append_nil]

/-- What readers see of a file, if they see it at all: its creation is confirmed, and they see its
records up to the first that is not confirmed. -/
structure File.Shows (file : File) (confirmations : Confirmations) (top : Nat) (view : FileView) :
    Prop where
  created : confirmations.create ≤ top - file.createdAt
  creator_eq : view.creator = file.creator
  count_eq : view.count = UInt16.ofNat view.data.length
  data : ∃ shown hidden, file.records.toList = shown ++ hidden ∧ view.data = shown.map (·.2)
    ∧ (∀ entry ∈ shown, confirmations.append ≤ top - entry.1)
    ∧ ∀ entry ∈ hidden.head?, top - entry.1 < confirmations.append

/-- A view shows what is deep enough, and there is one if the creation is. -/
theorem File.view?_eq_some_iff {file : File} {confirmations : Confirmations} {top : Nat}
    {view : FileView} :
    file.view? confirmations top = some view ↔ file.Shows confirmations top view := by
  unfold File.view?
  split
  · next hcreated =>
    have hcreated : confirmations.create ≤ top - file.createdAt := of_decide_eq_true hcreated
    dsimp only
    rw [Option.some_inj]
    constructor
    · rintro rfl
      obtain ⟨hidden, hsplit, hshown, hhidden⟩ := takeWhile_eq_iff.mp rfl
      refine ⟨hcreated, rfl, rfl, _, hidden, hsplit, rfl, ?_, ?_⟩
      · exact fun entry hentry => of_decide_eq_true (hshown entry hentry)
      · exact fun entry hentry => Nat.lt_of_not_le (of_decide_eq_false (hhidden entry hentry))
    · rintro ⟨-, hcreator, hcount, shown, hidden, hsplit, hdata, hshown, hhidden⟩
      have hrecords : file.records.toList.takeWhile
          (fun entry => isConfirmed top entry.1 confirmations.append) = shown := by
        refine takeWhile_eq_iff.mpr ⟨hidden, hsplit, ?_, ?_⟩
        · exact fun entry hentry => decide_eq_true (hshown entry hentry)
        · exact fun entry hentry => decide_eq_false (Nat.not_le.mpr (hhidden entry hentry))
      rw [hrecords, ← hdata, ← hcount, ← hcreator]
  · next hcreated =>
    constructor
    · rintro ⟨⟩
    · rintro ⟨hconfirmed⟩
      exact absurd (decide_eq_true hconfirmed) hcreated

/-- The views are the views of the files one by one. -/
theorem getElem?_views (ledger : Ledger) (confirmations : Confirmations) (top : Nat)
    (name : FileName) :
    (ledger.views confirmations top)[name]?
      = ledger.files[name]?.bind fun file => file.view? confirmations top :=
  Std.ExtTreeMap.getElem?_filterMap'

/-- Where nothing has to be confirmed a file shows all of itself. -/
theorem File.view?_unconfirmed (file : File) (top : Nat) :
    file.view? ⟨0, 0⟩ top = some file.whole := by
  have hall : ∀ written, isConfirmed top written 0 = true := fun written =>
    decide_eq_true (Nat.zero_le _)
  have hrecords : file.records.toList.takeWhile (fun entry => isConfirmed top entry.1 0)
      = file.records.toList :=
    List.takeWhile_eq_self_iff.mpr fun entry _ => hall entry.1
  rw [File.view?, if_pos (hall _), hrecords]
  simp [File.whole]

/-- The files of a chain are those of its ledger, through the filter at the height of its end. -/
theorem filesAfter_eq {path : List Block} {ledger : Ledger}
    (h : Ledger.replay none path = .ok ledger) (confirmations : Confirmations) :
    filesAfter confirmations path = .ok (ledger.views confirmations (path.length - 1)) := by
  unfold filesAfter
  cases path with
  | nil =>
    cases h
    rfl
  | cons block rest => simp [h]

/-- With no confirmations asked for, every file of a chain is seen as it is. -/
theorem exists_filesAfter_unconfirmed {path : List Block} {ledger : Ledger}
    (h : Ledger.replay none path = .ok ledger) :
    ∃ views : FileViews, filesAfter ⟨0, 0⟩ path = .ok views
      ∧ ∀ name : FileName, views[name]? = ledger.files[name]?.map File.whole := by
  refine ⟨_, filesAfter_eq h ⟨0, 0⟩, fun name => ?_⟩
  rw [getElem?_views]
  cases ledger.files[name]? with
  | none => rfl
  | some file => exact file.view?_unconfirmed _

namespace Since

variable {name : FileName} {past? file? : Option File} {blocks : List Block} {bound : Nat}

/-- Of a past that was lost nothing is left. -/
theorem unlessDeleted_of_lost
    (lost : past? = none ∨ ∃ entry ∈ timeline bound blocks, entry.2.deletes name) :
    unlessDeleted name blocks past? = none := by
  unfold unlessDeleted
  rcases lost with rfl | hdeleted
  · split <;> rfl
  · rw [if_pos ((deletedIn_iff bound).mpr hdeleted)]

/-- What was not deleted is the past itself. -/
theorem unlessDeleted_of_undeleted
    (undeleted : ∀ entry ∈ timeline bound blocks, entry.2.deletes name = false) :
    unlessDeleted name blocks past? = past? := by
  unfold unlessDeleted
  rw [if_neg]
  intro hdeleted
  obtain ⟨entry, hentry, hdeletes⟩ := (deletedIn_iff bound).mp hdeleted
  rw [undeleted entry hentry] at hdeletes
  cases hdeletes

/-- The confirmed records are those of the past, if the file was not deleted since. -/
theorem takeWhile_records {file : File} {size depth : Nat} (hbelow : file.Below size)
    (h : Since name (size - depth) past? (timeline (size - depth) blocks) (some file))
    (hpast : ∀ file ∈ past?, file.Below (size - depth)) :
    file.records.toList.takeWhile (fun entry => isConfirmed (size - 1) entry.1 depth)
      = (unlessDeleted name blocks past?).elim [] fun past => past.records.toList := by
  -- What was written late is not confirmed, and all that is not of the past was written late.
  have hlate : ∀ entry ∈ file.records, size - depth ≤ entry.1 →
      isConfirmed (size - 1) entry.1 depth = false := by
    intro entry hentry hle
    have hlt := hbelow.height_lt entry hentry
    refine Bool.eq_false_iff.mpr fun hconfirmed => ?_
    exact Nat.not_lt.mpr hle ((isConfirmed_iff hlt).mp hconfirmed)
  generalize hfile : some file = file? at h
  cases h with
  | @kept old added past undeleted late =>
    obtain rfl := Option.some.inj hfile
    rw [unlessDeleted_of_undeleted undeleted, past, Option.elim_some]
    refine takeWhile_eq_iff.mpr ⟨added, by simp, fun entry hentry => ?_, fun entry hentry => ?_⟩
    · have hlt := (hpast old past).height_lt entry (Array.mem_toList_iff.mp hentry)
      exact (isConfirmed_iff (by omega)).mpr hlt
    · have hmem := List.mem_of_head? hentry
      exact hlate entry (by simp [hmem]) (late entry hmem)
  | made lost born late =>
    obtain rfl := Option.some.inj hfile
    rw [unlessDeleted_of_lost lost, Option.elim_none]
    refine takeWhile_eq_iff.mpr ⟨file.records.toList, rfl, nofun, fun entry hentry => ?_⟩
    have hmem := Array.mem_toList_iff.mp (List.mem_of_head? hentry)
    exact hlate entry hmem (late entry hmem)
  | gone => cases hfile

end Since

/-! ## Two earlier times -/

/-- The confirmed part of a file, told from what it was at two earlier times. -/
theorem File.bind_view?_eq {name : FileName} {file? created? appended? : Option File}
    {confirmations : Confirmations} {size : Nat} {recent late : List Block}
    (hfile : ∀ file ∈ file?, file.Below size)
    (hcreated : ∀ file ∈ created?, file.Below (size - confirmations.create))
    (happended : ∀ file ∈ appended?, file.Below (size - confirmations.append))
    (hcreate : Since name (size - confirmations.create) created?
      (timeline (size - confirmations.create) recent) file?)
    (happend : Since name (size - confirmations.append) appended?
      (timeline (size - confirmations.append) late) file?) :
    (file?.bind fun file => file.view? confirmations (size - 1))
      = (unlessDeleted name recent created?).map fun past =>
          let data := (unlessDeleted name late appended?).elim [] fun past =>
            past.records.toList.map (·.2)
          ⟨past.creator, UInt16.ofNat data.length, data⟩ := by
  cases file? with
  | none =>
    cases hcreate with
    | gone lost =>
      rw [Since.unlessDeleted_of_lost lost]
      rfl
  | some file =>
    have hbelow := hfile file rfl
    have hdata := happend.takeWhile_records hbelow happended
    have hshown : isConfirmed (size - 1) file.createdAt confirmations.create
        ↔ file.createdAt < size - confirmations.create := isConfirmed_iff hbelow.createdAt_lt
    rw [Option.bind_some, File.view?, hdata]
    generalize hsome : some file = file? at hcreate
    cases hcreate with
    | @kept old added past undeleted =>
      obtain rfl := Option.some.inj hsome
      rw [if_pos (hshown.mpr (hcreated old past).createdAt_lt),
        Since.unlessDeleted_of_undeleted undeleted, past]
      cases unlessDeleted name late appended? <;> rfl
    | made lost born =>
      obtain rfl := Option.some.inj hsome
      rw [if_neg (fun hconfirmed => Nat.not_lt.mpr born (hshown.mp hconfirmed)),
        Since.unlessDeleted_of_lost lost]
      rfl
    | gone => cases hsome

/-- At every depth the chain has a past, and each file is what has become of its past since. -/
theorem exists_past {path : List Block} {ledger : Ledger}
    (h : Ledger.replay none path = .ok ledger) (depth : Nat) :
    ∃ past, Ledger.replay none (withoutLast path depth) = .ok past ∧ ∀ name,
      (∀ file ∈ past.files[name]?, file.Below (path.length - depth))
        ∧ Since name (path.length - depth) past.files[name]?
            (timeline (path.length - depth) (lastBlocks path depth)) ledger.files[name]? := by
  have hlength : (withoutLast path depth).length = path.length - depth :=
    List.length_take_of_le (Nat.sub_le _ _)
  have hsplit : withoutLast path depth ++ lastBlocks path depth = path := List.take_append_drop ..
  rw [← hsplit] at h
  obtain ⟨past, hpast, hsince⟩ := since_replay h
  rw [hlength] at hsince
  refine ⟨past, hpast, fun name => ⟨fun file hfile => ?_, hsince name⟩⟩
  rw [← hlength]
  exact below_of_replay hpast hfile

/-- How the confirmed files of a chain are told from the unconfirmed ones of two earlier times:
`created` are those as many blocks ago as a creation needs, and `appended` those as many blocks ago
as an append needs. -/
structure PastViews (path : List Block) (confirmations : Confirmations)
    (views created appended : FileViews) : Prop where
  views_eq : filesAfter confirmations path = .ok views
  created_eq : filesAfter ⟨0, 0⟩ (withoutLast path confirmations.create) = .ok created
  appended_eq : filesAfter ⟨0, 0⟩ (withoutLast path confirmations.append) = .ok appended
  /-- Readers see the files of `created` that were not deleted since then, with the records they have
  in `appended` if they were not deleted since that time, and else with none. -/
  getElem?_eq : ∀ name : FileName, views[name]?
    = (unlessDeleted name (lastBlocks path confirmations.create) created[name]?).map fun past =>
        let data := (unlessDeleted name (lastBlocks path confirmations.append)
          appended[name]?).elim [] (·.data)
        ⟨past.creator, UInt16.ofNat data.length, data⟩

/-- **Confirmed files are the files of the past less what was deleted since.** -/
theorem filesAfter_eq_past {path : List Block} {ledger : Ledger}
    (h : Ledger.replay none path = .ok ledger) (confirmations : Confirmations) :
    ∃ views created appended, PastViews path confirmations views created appended := by
  obtain ⟨createdLedger, hcreatedReplay, hcreated⟩ := exists_past h confirmations.create
  obtain ⟨appendedLedger, happendedReplay, happended⟩ := exists_past h confirmations.append
  obtain ⟨created, hcreatedFiles, hcreatedViews⟩ := exists_filesAfter_unconfirmed hcreatedReplay
  obtain ⟨appended, happendedFiles, happendedViews⟩ :=
    exists_filesAfter_unconfirmed happendedReplay
  refine ⟨_, created, appended, filesAfter_eq h confirmations, hcreatedFiles, happendedFiles,
    fun name => ?_⟩
  rw [getElem?_views, hcreatedViews, happendedViews, unlessDeleted_map, unlessDeleted_map,
    File.bind_view?_eq (fun file hfile => below_of_replay h hfile) (hcreated name).1
      (happended name).1 (hcreated name).2 (happended name).2]
  cases unlessDeleted name (lastBlocks path confirmations.create) createdLedger.files[name]? <;>
    cases unlessDeleted name (lastBlocks path confirmations.append) appendedLedger.files[name]? <;>
    rfl

/-- The views of a chain on which a file is created, deleted and created again. -/
theorem filesAfter_eq_past_recreation :
    ∃ ledger views created appended, Ledger.replay none recreation = .ok ledger
      ∧ PastViews recreation ⟨0, 1⟩ views created appended := by
  obtain ⟨priced, hpriced⟩ := exists_replay_recreation
  have h := Ledger.replay_unpriced hpriced
  obtain ⟨views, created, appended, hpast⟩ := filesAfter_eq_past h ⟨0, 1⟩
  exact ⟨_, views, created, appended, h, hpast⟩

end RecordChain
