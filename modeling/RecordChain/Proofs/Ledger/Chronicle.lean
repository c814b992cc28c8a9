import RecordChain.Proofs.Ledger.Confirmation
import RecordChain.Proofs.Ledger.Failures

/-!
# Files as chronicles

A file is written from its creation on, in the order of the chain, and only as long as its records can
be numbered. Readers are shown files through a count that has an end, a difference of heights that
does not go below zero, and a scan that stops at the first record that is not confirmed. On a file
that was written so, none of the three makes a difference.

* **`File.Chronicled`**: how the files of a chain are written.
* **`File.Chronicled.step`**: every operation that succeeds writes them so.
* **`File.Chronicled.view?_eq_some_iff`**: what readers see of such a file, as it would be said without
  count, difference and scan.
* **`exact_of_replay`**: this for all files of a chain that can be replayed.
-/

namespace RecordChain

/-- How a file is written in a chain of `size` blocks. -/
structure File.Chronicled (size : Nat) (file : File) : Prop extends file.Below size where
  room : file.records.size ≤ maxRecords
  ordered : file.records.toList.Pairwise fun first second => first.1 ≤ second.1
  created_le : ∀ entry ∈ file.records, file.createdAt ≤ entry.1

variable {path : List Block} {economics : Option Economics} {ledger : Ledger} {op : Operation}
  {height size : Nat} {name : FileName} {file : File} {view : FileView} {confirmations : Confirmations}

/-! ## What every operation keeps -/

namespace File.Chronicled

theorem mono {larger : Nat} (h : file.Chronicled size) (hle : size ≤ larger) :
    file.Chronicled larger where
  createdAt_lt := Nat.lt_of_lt_of_le h.createdAt_lt hle
  height_lt entry hentry := Nat.lt_of_lt_of_le (h.height_lt entry hentry) hle
  room := h.room
  ordered := h.ordered
  created_le := h.created_le

/-- The operations of the last block so far write at its end. -/
theorem step {first second : Option File} (h : ∀ file ∈ first, file.Chronicled (height + 1))
    (hstep : FileStep name height op first second) :
    ∀ file ∈ second, file.Chronicled (height + 1) := by
  have hbelow := File.Below.step (Nat.lt_succ_self height)
    (fun file hfile => (h file hfile).toBelow) hstep
  cases hstep with
  | elsewhere => exact h
  | create =>
    rintro _ ⟨⟩
    exact ⟨hbelow _ rfl, Nat.zero_le _, .nil, by simp⟩
  | @append _ _ _ file room =>
    rintro _ ⟨⟩
    have hfile := h file rfl
    refine ⟨hbelow _ rfl, ?_, ?_, fun entry hentry => ?_⟩
    · rw [Array.size_push]
      exact room
    · rw [Array.toList_push, List.pairwise_append]
      refine ⟨hfile.ordered, List.pairwise_singleton .., fun entry hentry last hlast => ?_⟩
      rw [List.mem_singleton.mp hlast]
      exact Nat.le_of_lt_succ (hfile.height_lt entry (Array.mem_toList_iff.mp hentry))
    · rcases Array.mem_push.mp hentry with hold | rfl
      · exact hfile.created_le entry hold
      · exact Nat.le_of_lt_succ hfile.createdAt_lt
  | delete => exact nofun

end File.Chronicled

/-- **The files of a chain are chronicles.** -/
theorem chronicled_of_replay (h : Ledger.replay economics path = .ok ledger)
    (hfile : ledger.files[name]? = some file) : file.Chronicled path.length := by
  have hrun : (timeline 0 path).Pairwise (fun first second => first.1 ≤ second.1) →
      ∀ bound, (∀ entry ∈ timeline 0 path, entry.1 < bound) →
        ∀ file ∈ ledger.files[name]?, file.Chronicled bound := by
    -- An operation is told to stand behind all before it by where it stands in the chain.
    refine Ledger.file_induction name
      (motive := fun done file? => done.Pairwise (fun first second => first.1 ≤ second.1) →
        ∀ bound, (∀ entry ∈ done, entry.1 < bound) → ∀ file ∈ file?, file.Chronicled bound)
      ?_ h nofun
    intro done level op first second _ _ hstep hfirst hsorted bound hbound file hfile
    rw [List.pairwise_append] at hsorted
    have hlast : ∀ entry ∈ done, entry.1 < level + 1 := fun entry hentry =>
      Nat.lt_succ_of_le (hsorted.2.2 entry hentry _ (List.mem_singleton_self _))
    have hlevel : level < bound :=
      hbound _ (List.mem_append_right _ (List.mem_singleton_self (level, op)))
    exact (File.Chronicled.step (hfirst hsorted.1 _ hlast) hstep file hfile).mono hlevel
  refine hrun (pairwise_timeline 0 path) path.length (fun entry hentry => ?_) file hfile
  have hlt := lt_of_mem_timeline hentry
  rwa [Nat.zero_add] at hlt

/-! ## What readers see of a chronicle -/

/-- If what is let in never follows on what is not, a scan that stops lets in all that a filter does. -/
theorem takeWhile_eq_filter {α : Type} {p : α → Bool} {l : List α}
    (h : l.Pairwise fun first second => p second → p first) : l.takeWhile p = l.filter p := by
  induction l with
  | nil => rfl
  | cons x rest ih =>
    rw [List.pairwise_cons] at h
    by_cases hx : p x
    · rw [List.takeWhile_cons_of_pos hx, List.filter_cons_of_pos hx, ih h.2]
    · rw [List.takeWhile_cons_of_neg hx, List.filter_cons_of_neg hx, eq_comm,
        List.filter_eq_nil_iff]
      exact fun y hy hp => hx (h.1 y hy hp)

/-- What readers see of a file in a chain of `size` blocks, if they see it: each part of it that has
enough blocks on top of it, and no other, and a count that counts it. -/
structure File.Presents (file : File) (confirmations : Confirmations) (size : Nat)
    (view : FileView) : Prop where
  created : file.createdAt + confirmations.create < size
  creator_eq : view.creator = file.creator
  data_eq : view.data
    = (file.records.toList.filter fun entry => entry.1 + confirmations.append < size).map (·.2)
  toNat_count : view.count.toNat = view.data.length

namespace File.Chronicled

/-- What came later has fewer blocks on top of it. -/
theorem takeWhile_eq (h : file.Chronicled size) (top depth : Nat) :
    file.records.toList.takeWhile (fun entry => isConfirmed top entry.1 depth)
      = file.records.toList.filter fun entry => isConfirmed top entry.1 depth := by
  refine takeWhile_eq_filter (h.ordered.imp fun {first second} hle hconfirmed => ?_)
  have hdepth : depth ≤ top - second.1 := of_decide_eq_true hconfirmed
  exact decide_eq_true (by omega)

theorem isConfirmed_eq {written : Nat} (hlt : written < size) (depth : Nat) :
    isConfirmed (size - 1) written depth = decide (written + depth < size) := by
  unfold isConfirmed
  rw [decide_eq_decide]
  omega

theorem filter_eq (h : file.Chronicled size) (depth : Nat) :
    (file.records.toList.filter fun entry => isConfirmed (size - 1) entry.1 depth)
      = file.records.toList.filter fun entry => entry.1 + depth < size :=
  List.filter_congr fun entry hentry =>
    isConfirmed_eq (h.height_lt entry (Array.mem_toList_iff.mp hentry)) depth

/-- No number is lost in the count of any of the records. -/
theorem toNat_ofNat_length {data : List Record} (h : file.Chronicled size)
    (hle : data.length ≤ file.records.size) : (UInt16.ofNat data.length).toNat = data.length := by
  have hroom := h.room
  refine UInt16.toNat_ofNat_of_lt' ?_
  show data.length < 65536
  rw [maxRecords] at hroom
  omega

theorem view?_eq_some_iff (h : file.Chronicled size) :
    file.view? confirmations (size - 1) = some view ↔ file.Presents confirmations size view := by
  have hcreated := isConfirmed_eq h.createdAt_lt confirmations.create
  have hlength := List.length_filter_le (fun entry => decide (entry.1 + confirmations.append < size))
    file.records.toList
  rw [Array.length_toList] at hlength
  unfold File.view?
  rw [hcreated, h.takeWhile_eq, h.filter_eq]
  dsimp only
  split
  · next hconfirmed =>
    have hconfirmed := of_decide_eq_true hconfirmed
    rw [Option.some_inj]
    constructor
    · rintro rfl
      refine ⟨hconfirmed, rfl, rfl, h.toNat_ofNat_length ?_⟩
      rw [List.length_map]
      exact hlength
    · rintro ⟨-, hcreator, hdata, hcount⟩
      rw [← hdata, ← hcreator, ← hcount, UInt16.ofNat_toNat]
  · next hconfirmed =>
    constructor
    · rintro ⟨⟩
    · rintro ⟨hnow⟩
      exact absurd (decide_eq_true hnow) hconfirmed

end File.Chronicled

/-! ## Nothing is lost -/

/-- How the files of a chain are kept, and that they are shown as they are. -/
structure Ledger.Exact (ledger : Ledger) (path : List Block) : Prop where
  chronicled : ∀ (name : FileName) file, ledger.files[name]? = some file →
    file.Chronicled path.length
  /-- No difference of heights is held at zero. -/
  sub_add_cancel : ∀ (name : FileName) file, ledger.files[name]? = some file →
    ∀ written ∈ file.createdAt :: file.records.toList.map (·.1),
      path.length - 1 - written + written = path.length - 1
  /-- The scan for confirmed records finds all of them. -/
  takeWhile_eq : ∀ (name : FileName) file, ledger.files[name]? = some file → ∀ depth,
    file.records.toList.takeWhile (fun entry => isConfirmed (path.length - 1) entry.1 depth)
      = file.records.toList.filter fun entry => isConfirmed (path.length - 1) entry.1 depth
  /-- Readers see all that is confirmed, with its true count. -/
  views : ∀ confirmations, ∃ views : FileViews, filesAfter confirmations path = .ok views
    ∧ ∀ (name : FileName) view, views[name]? = some view
        ↔ ∃ file, ledger.files[name]? = some file ∧ file.Presents confirmations path.length view
  /-- Whoever appends with a wrong number, here or to any other ledger, is told the right one. -/
  expected : ∀ (before after : Ledger) op height name expected found,
    before.applyOp op height = ⟨after, some (.wrongRecordNumber name expected found)⟩ →
      ∃ file, before.files[name]? = some file ∧ expected.toNat = file.records.size

/-- **Counts, differences of heights and first parts are what they stand for**, in all files of a chain
that can be replayed. -/
theorem exact_of_replay (h : Ledger.replay economics path = .ok ledger) : ledger.Exact path where
  chronicled name file hfile := chronicled_of_replay h hfile
  sub_add_cancel name file hfile written hwritten := by
    have hbelow := (chronicled_of_replay h hfile).toBelow
    have hlt : written < path.length := by
      rcases List.mem_cons.mp hwritten with rfl | hrecord
      · exact hbelow.createdAt_lt
      · obtain ⟨entry, hentry, rfl⟩ := List.mem_map.mp hrecord
        exact hbelow.height_lt entry (Array.mem_toList_iff.mp hentry)
    omega
  takeWhile_eq name file hfile := (chronicled_of_replay h hfile).takeWhile_eq _
  views confirmations := by
    have hviews := filesAfter_eq (Ledger.replay_unpriced h) confirmations
    refine ⟨_, hviews, fun name view => ?_⟩
    rw [getElem?_views, Option.bind_eq_some_iff]
    exact exists_congr fun file => and_congr_right fun hfile =>
      (chronicled_of_replay h hfile).view?_eq_some_iff
  expected before after op height name expected found hfails :=
    (Ledger.expected_of_applyOp hfails).2.2

theorem exact_of_replay_recreation :
    ∃ ledger, Ledger.replay (some ⟨9, 1, 2, 1⟩) recreation = .ok ledger ∧ ledger.Exact recreation := by
  obtain ⟨ledger, h⟩ := exists_replay_recreation
  exact ⟨ledger, h, exact_of_replay h⟩

end RecordChain
