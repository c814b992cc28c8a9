import RecordChain.Proofs.Ledger.Effects

/-!
# What the files of a ledger say about its chain

The files of a ledger come about by updating a map one operation at a time. What they are in the end
can be read off the whole list of operations, without a map.

* **`lastMaking?`**: the latest creation or deletion of a file. The file is there if it is a creation.
* **`Life`**: the operations on a file from its creation on. The file holds what they appended, and
  each append bears the number of its place.
* **`fileTold_replay`**: this is true of every file of every ledger, and no other operations matter.
-/

namespace RecordChain

/-- Whether an operation creates or deletes the file of some name. -/
def Operation.makes (name : FileName) : Operation → Bool
  | .create _ file | .delete _ file => file = name
  | .append .. => false

/-- The latest of some operations that creates or deletes the file of some name. -/
def lastMaking? (name : FileName) (ops : List (Nat × Operation)) : Option (Nat × Operation) :=
  (ops.filter fun entry => entry.2.makes name).getLast?

/-- The appends to the file of some name, each with its height, number and record. -/
def appendsTo (name : FileName) (ops : List (Nat × Operation)) :
    List (Nat × RecordNumber × Record) :=
  ops.filterMap fun entry =>
    match entry.2 with
    | .append _ file number data => if file = name then some (entry.1, number, data) else none
    | _ => none

/-- The operations that name a file. -/
def ownOperations (name : FileName) (ops : List (Nat × Operation)) : List (Nat × Operation) :=
  ops.filter fun entry => entry.2.file = name

/-- The life of a file: it was created between `before` and `since`, it was neither created nor
deleted since, and it holds what was appended since. -/
structure Life (name : FileName) (ops : List (Nat × Operation)) (file : File)
    (before since : List (Nat × Operation)) : Prop where
  split : ops = before ++ (file.createdAt, .create file.creator name) :: since
  unmade : ∀ entry ∈ since, entry.2.makes name = false
  records : (appendsTo name since).map (fun append => (append.1, append.2.2))
    = file.records.toList
  numbers : (appendsTo name since).map (fun append => append.2.1.toNat)
    = List.range file.records.size

/-! ## One more operation -/

section Concat

variable {name : FileName} {ops : List (Nat × Operation)} {height : Nat} {op : Operation}

/-- An operation that creates or deletes the file is the latest to do so. -/
theorem lastMaking?_concat_of_makes (hop : op.makes name) :
    lastMaking? name (ops ++ [(height, op)]) = some (height, op) := by
  simp [lastMaking?, hop]

/-- Any other operation leaves the latest one as it was. -/
theorem lastMaking?_concat_of_not_makes (hop : op.makes name = false) :
    lastMaking? name (ops ++ [(height, op)]) = lastMaking? name ops := by
  simp [lastMaking?, hop]

theorem makes_of_ne (hop : op.file ≠ name) : op.makes name = false := by
  cases op with
  | append => rfl
  | create creator file => exact decide_eq_false hop
  | delete creator file => exact decide_eq_false hop

/-- The appends among more operations are those before and then the new one, if it is an append. -/
theorem appendsTo_concat :
    appendsTo name (ops ++ [(height, op)])
      = appendsTo name ops ++ appendsTo name [(height, op)] :=
  List.filterMap_append

theorem appendsTo_of_ne (hop : op.file ≠ name) : appendsTo name [(height, op)] = [] := by
  cases op with
  | append creator file number data => exact List.filterMap_cons_none (if_neg hop)
  | create | delete => rfl

end Concat

namespace Life

variable {name : FileName} {ops before since : List (Nat × Operation)} {file : File}

/-- With its creation a file begins its life, without records. -/
theorem born (name : FileName) (ops : List (Nat × Operation)) (height : Nat) (creator : Account) :
    Life name (ops ++ [(height, .create creator name)]) ⟨creator, height, #[]⟩ ops [] :=
  ⟨rfl, fun _ hentry => (List.not_mem_nil hentry).elim, rfl, rfl⟩

/-- The creation of a file that is there is the last of its creations and deletions. -/
theorem lastMaking?_eq (h : Life name ops file before since) :
    lastMaking? name ops = some (file.createdAt, .create file.creator name) := by
  have hsince : since.filter (fun entry => entry.2.makes name) = [] :=
    List.filter_eq_nil_iff.mpr fun entry hentry => by simp [h.unmade entry hentry]
  have hmakes : (Operation.create file.creator name).makes name := decide_eq_true rfl
  rw [h.split, lastMaking?, List.filter_append]
  simp [hmakes, hsince]

/-- A file lives on with an operation that adds some records, if they are numbered on from those it
has. -/
theorem concat (h : Life name ops file before since) (height : Nat) (op : Operation)
    (records : Array (Nat × Record)) (hop : op.makes name = false)
    (hrecords : (appendsTo name [(height, op)]).map (fun append => (append.1, append.2.2))
      = records.toList)
    (hnumbers : (appendsTo name [(height, op)]).map (fun append => append.2.1.toNat)
      = List.range' file.records.size records.size) :
    Life name (ops ++ [(height, op)]) { file with records := file.records ++ records } before
      (since ++ [(height, op)]) where
  split := by rw [h.split, List.append_assoc, List.cons_append]
  unmade := by
    intro entry hentry
    rcases List.mem_append.mp hentry with hold | hnew
    · exact h.unmade entry hold
    · rw [List.mem_singleton.mp hnew]
      exact hop
  records := by
    rw [appendsTo_concat, List.map_append, h.records, hrecords]
    simp
  numbers := by
    -- The new numbers go on where the old ones end.
    rw [appendsTo_concat, List.map_append, h.numbers, hnumbers]
    rw [Array.size_append, List.range_eq_range', List.range_eq_range', ← List.range'_append_1,
      Nat.zero_add]

/-- A file lives on with an operation on another file. -/
theorem elsewhere (h : Life name ops file before since) {height : Nat} {op : Operation}
    (hop : op.file ≠ name) :
    Life name (ops ++ [(height, op)]) file before (since ++ [(height, op)]) := by
  have hnone : appendsTo name [(height, op)] = [] := appendsTo_of_ne hop
  have hconcat := h.concat height op #[] (makes_of_ne hop) (by rw [hnone]; rfl)
    (by rw [hnone]; rfl)
  simpa using hconcat

/-- A file lives on with an append that has the next number. -/
theorem append (h : Life name ops file before since) {height : Nat} {creator : Account}
    {number : RecordNumber} {data : Record} (hnumber : number.toNat = file.records.size) :
    Life name (ops ++ [(height, .append creator name number data)])
      { file with records := file.records.push (height, data) } before
      (since ++ [(height, .append creator name number data)]) := by
  have hone : appendsTo name [(height, .append creator name number data)]
      = [(height, number, data)] := List.filterMap_cons_some (if_pos rfl)
  have hconcat := h.concat height (.append creator name number data) #[(height, data)] rfl
    (by rw [hone]; rfl) (by rw [hone, ← hnumber]; rfl)
  simpa using hconcat

end Life

/-! ## Any number of operations -/

/-- What some operations tell about a file that may be there or not. -/
inductive Told (name : FileName) (ops : List (Nat × Operation)) : Option File → Prop
  | absent (unborn : ∀ height creator,
      lastMaking? name ops ≠ some (height, .create creator name)) : Told name ops none
  | present {file : File} {before since : List (Nat × Operation)}
      (life : Life name ops file before since) : Told name ops (some file)

/-- **One more operation is told in the same way.** -/
theorem Told.step {name : FileName} {done : List (Nat × Operation)} {height : Nat} {op : Operation}
    {first second : Option File} (h : Told name done first)
    (hstep : FileStep name height op first second) : Told name (done ++ [(height, op)]) second := by
  cases hstep with
  | elsewhere other =>
    cases h with
    | absent unborn =>
      refine .absent fun created creator => ?_
      rw [lastMaking?_concat_of_not_makes (makes_of_ne other)]
      exact unborn created creator
    | present life => exact .present (life.elsewhere other)
  | create => exact .present (.born name done height _)
  | append room next =>
    cases h with
    | present life => exact .present (life.append next)
  | @delete deleter file =>
    -- The deletion is now the last of its kind, and it is no creation.
    refine .absent fun created creator => ?_
    have hmakes : (Operation.delete deleter name).makes name := decide_eq_true rfl
    rw [lastMaking?_concat_of_makes hmakes]
    rintro ⟨⟩

section Replay

variable {economics : Option Economics} {path : List Block} {ledger : Ledger}

/-- The files of a chain are as its operations tell. Induction on the operations. -/
theorem told_replay (h : Ledger.replay economics path = .ok ledger) (name : FileName) :
    Told name (timeline 0 path) ledger.files[name]? :=
  Ledger.file_induction name (fun _ _ _ _ _ _ _ hstep hdone => hdone.step hstep) h
    (.absent fun _ _ hlast => by cases hlast)

/-- Every file of a chain has a life on it. -/
theorem exists_life (h : Ledger.replay economics path = .ok ledger) {name : FileName} {file : File}
    (hfile : ledger.files[name]? = some file) :
    ∃ before since, Life name (timeline 0 path) file before since := by
  have htold := told_replay h name
  rw [hfile] at htold
  cases htold with
  | present life => exact ⟨_, _, life⟩

/-- A file is made by its own operations. -/
theorem getElem?_files_replay (h : Ledger.replay economics path = .ok ledger) (name : FileName) :
    ledger.files[name]? = (ownOperations name (timeline 0 path)).foldl
      (fun file? entry => entry.2.rewrite entry.1 name file?) none := by
  refine Ledger.file_induction name (motive := fun done file? =>
    file? = (ownOperations name done).foldl
      (fun file? entry => entry.2.rewrite entry.1 name file?) none) ?_ h rfl
  intro done height op first second _ _ hstep hfirst
  rw [hstep.eq_rewrite]
  by_cases hop : op.file = name
  · simp [ownOperations, hop, hfirst]
  · have hsame : op.rewrite height name first = first := if_neg hop
    rw [hsame, hfirst]
    simp [ownOperations, hop]

/-- What the files of a ledger say about the operations of its chain. -/
structure FileTold (path : List Block) (ledger : Ledger) (name : FileName) : Prop where
  /-- A file is there if the last operation that created or deleted it created it. -/
  mem_iff : name ∈ ledger.files ↔ ∃ height creator,
    lastMaking? name (timeline 0 path) = some (height, .create creator name)
  /-- That operation made it, and all that was appended since is in it: the append in place `i` is
  numbered `i`. -/
  life : ∀ file, ledger.files[name]? = some file →
    lastMaking? name (timeline 0 path) = some (file.createdAt, .create file.creator name)
      ∧ ∃ before since, Life name (timeline 0 path) file before since
  /-- Operations on other files have no part in it. -/
  own : ∀ economics path' ledger', Ledger.replay economics path' = .ok ledger' →
    ownOperations name (timeline 0 path') = ownOperations name (timeline 0 path) →
    ledger'.files[name]? = ledger.files[name]?

/-- **What the files of a ledger say about its chain.** -/
theorem fileTold_replay (h : Ledger.replay economics path = .ok ledger) (name : FileName) :
    FileTold path ledger name := by
  have htold := told_replay h name
  refine ⟨?mem_iff, ?life, ?own⟩
  case mem_iff =>
    rw [Std.ExtTreeMap.mem_iff_isSome_getElem?]
    generalize ledger.files[name]? = file? at htold
    cases htold with
    | absent unborn => simpa using unborn
    | present life => simp [life.lastMaking?_eq]
  case life =>
    intro file hfile
    obtain ⟨before, since, life⟩ := exists_life h hfile
    exact ⟨life.lastMaking?_eq, before, since, life⟩
  case own =>
    -- Either file is what its own operations make of none.
    intro economics' path' ledger' h' hown
    rw [getElem?_files_replay h', getElem?_files_replay h, hown]

end Replay

/-- A chain that deletes a file and creates it again in one block. -/
def recreation : List Block :=
  [.genesis "miner" 0,
    .regular .zero "ann" [.create "ann" "notes", .append "ann" "notes" 0 .empty] 0,
    .regular .zero "bob" [.delete "ann" "notes", .create "bob" "notes",
      .append "bob" "notes" 0 .empty] 0]

/-- The path on which a file is created, deleted and created again replays. -/
theorem exists_replay_recreation :
    ∃ ledger, Ledger.replay (some ⟨9, 1, 2, 1⟩) recreation = .ok ledger := by
  have hok : (Ledger.replay (some ⟨9, 1, 2, 1⟩) recreation).isOk = true := by decide +kernel
  cases h : Ledger.replay (some ⟨9, 1, 2, 1⟩) recreation with
  | error e =>
    rw [h] at hok
    cases hok
  | ok ledger => exact ⟨ledger, rfl⟩

/-- What this path tells of the file. -/
theorem fileTold_replay_recreation :
    ∃ ledger, Ledger.replay (some ⟨9, 1, 2, 1⟩) recreation = .ok ledger
      ∧ FileTold recreation ledger "notes" := by
  obtain ⟨ledger, h⟩ := exists_replay_recreation
  exact ⟨ledger, h, fileTold_replay h "notes"⟩

end RecordChain
