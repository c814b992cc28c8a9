import RecordChain.Proofs.Mining.Superseded

/-!
# What a choice from the queue leaves

A pass over the queue chooses operations, postpones others and drops the rest. Operations fail for want
of money or because of their file, and those on other files have no part in that. Behind a postponed
operation nothing on the same file is dropped, so whatever is dropped fails on its file as the chosen
operations leave it, and would fail just so if nothing had to be paid.

* **`Ledger.Mirrors`**: a ledger without money that has one file as another ledger has it. It goes
  along with the operations on that file (`Mirrors.apply`) and refuses what the files refuse there
  (`Mirrors.refuse`).
* **`Selection.hopeless_of_pass`**: what is dropped fails for good on that file alone.
* **`Selection.fails_of_pass`**: what is not chosen although there was room fails on what was chosen
  before it.
* **`sifted_select`**: all that a choice does to the queue.
-/

namespace RecordChain

/-! ## One file without money -/

namespace Ledger

variable {ledger other free next : Ledger} {op : Operation} {height : Nat} {e : LedgerError}
  {name : FileName}

/-- Some operations apply one after another, and then a further one fails. -/
def FailsBehind (ledger : Ledger) (height : Nat) (ops : List Operation) (op : Operation)
    (e : LedgerError) : Prop :=
  ∃ reached, ledger.applyOps height ops = ⟨reached, none⟩
    ∧ reached.applyOp op height = ⟨reached, some e⟩

/-- With nothing before it, an operation fails as it does on the ledger. -/
theorem failsBehind_nil (h : ledger.applyOp op height = ⟨next, some e⟩) :
    ledger.FailsBehind height [] op e := by
  obtain rfl := applyOp_failed h
  exact ⟨next, rfl, h⟩

/-- What fails behind some operations fails behind one more in front of them. -/
theorem FailsBehind.cons {first : Operation} {ops : List Operation}
    (h : next.FailsBehind height ops op e) (hfirst : ledger.applyOp first height = ⟨next, none⟩) :
    ledger.FailsBehind height (first :: ops) op e := by
  obtain ⟨reached, hops, hfails⟩ := h
  exact ⟨reached, applyOps_cons_eq_ok_iff.mpr ⟨next, hfirst, hops⟩, hfails⟩

/-- A ledger without money that has the file of some name as another ledger has it. -/
structure Mirrors (name : FileName) (free ledger : Ledger) : Prop where
  economics_eq : free.economics = none
  file_eq : free.files[name]? = ledger.files[name]?

namespace Mirrors

/-- It goes along with an operation on the file. -/
theorem apply (h : Mirrors op.file free ledger) (hop : ledger.applyOp op height = ⟨next, none⟩) :
    ∃ free', free.applyOp op height = ⟨free', none⟩ ∧ Mirrors op.file free' next := by
  obtain ⟨hrefusal, paid, hcharge, rfl⟩ := applyOp_eq_ok_iff.mp hop
  have hadmits : free.refusal? op = none := (refusal?_congr h.file_eq).trans hrefusal
  refine ⟨_, applyOp_of_unpriced height h.economics_eq hadmits, ?_, ?_⟩
  · rw [← h.economics_eq]
    cases op <;> rfl
  · rw [getElem?_perform, getElem?_perform, files_of_charge hcharge, h.file_eq]

/-- An operation on another file does not matter. -/
theorem elsewhere (h : Mirrors name free ledger) (hother : op.file ≠ name)
    (hop : ledger.applyOp op height = ⟨next, none⟩) : Mirrors name free next := by
  have hsame := (fileStep_of_applyOp hop name).eq_rewrite.trans (Operation.rewrite_of_ne hother _ _)
  exact ⟨h.economics_eq, h.file_eq.trans hsame.symm⟩

/-- It refuses what the files refuse. -/
theorem refuse (h : Mirrors op.file free ledger)
    (hop : ledger.applyOp op height = ⟨next, some e⟩) (hfinal : e.isRetryable = false) :
    free.applyOp op height = ⟨free, some e⟩ := by
  apply applyOp_of_refusal
  rw [refusal?_congr h.file_eq, refusal?_of_applyOp hop hfinal]

end Mirrors

/-- A ledger without prices mirrors any file of the ledger that it is made from, whatever was
credited. -/
theorem mirrors_unpriced (ledger : Ledger) (miner : Account) (kind : BlockKind) (name : FileName) :
    Mirrors name ledger.unpriced (ledger.credit miner kind) :=
  ⟨rfl, by rw [files_credit]; rfl⟩

end Ledger

/-! ## The pass over the queue -/

namespace Selection

variable {height room : Nat} {ledger free : Ledger} {postponed : List FileName}
  {jobs before rest : List Operation} {op : Operation} {e : LedgerError}

/-- What is chosen is chosen in queue order. -/
theorem chosen_sublist (height room : Nat) (ledger : Ledger) (postponed : List FileName)
    (jobs : List Operation) : (pass height room ledger postponed jobs).chosen.Sublist jobs := by
  fun_induction pass height room ledger postponed jobs with
  | case1 | case2 => exact List.nil_sublist _
  | case3 room ledger postponed first later next hfirst _ ih => exact ih.cons_cons first
  | case4 room ledger postponed first later next e hfirst _ ih => exact ih.cons first
  | case5 room ledger postponed first later next e hfirst _ _ ih => exact ih.cons first

/-- No more is chosen than there is room for. -/
theorem length_chosen_le (height room : Nat) (ledger : Ledger) (postponed : List FileName)
    (jobs : List Operation) : (pass height room ledger postponed jobs).chosen.length ≤ room := by
  fun_induction pass height room ledger postponed jobs with
  | case1 | case2 => exact Nat.zero_le _
  | case3 room ledger postponed first later next hfirst _ ih => exact Nat.succ_le_succ ih
  | case4 | case5 => assumption

/-- The operations that a pass drops. -/
def droppedOps (selection : Selection) : List Operation := selection.dropped.map (·.1)

/-- What is dropped is dropped in queue order. -/
theorem dropped_sublist (height room : Nat) (ledger : Ledger) (postponed : List FileName)
    (jobs : List Operation) : (pass height room ledger postponed jobs).droppedOps.Sublist jobs := by
  fun_induction pass height room ledger postponed jobs with
  | case1 | case2 => exact List.nil_sublist _
  | case3 room ledger postponed first later next hfirst _ ih => exact ih.cons first
  | case4 room ledger postponed first later next e hfirst _ ih => exact ih.cons first
  | case5 room ledger postponed first later next e hfirst _ _ ih => exact ih.cons_cons first

/-- What is dropped was queued. -/
theorem mem_of_mem_dropped (h : (op, e) ∈ (pass height room ledger postponed jobs).dropped) :
    op ∈ jobs :=
  (dropped_sublist height room ledger postponed jobs).subset (List.mem_map_of_mem h)

/-- Behind a postponed operation nothing on the same file is dropped. -/
theorem not_mem_postponed (h : (op, e) ∈ (pass height room ledger postponed jobs).dropped) :
    op.file ∉ postponed := by
  fun_induction pass height room ledger postponed jobs with
  | case1 | case2 => cases h
  | case3 room ledger postponed first later next hfirst _ ih => exact ih h
  | case4 room ledger postponed first later next e hfirst _ ih =>
    exact fun hmem => ih h (List.mem_cons_of_mem _ hmem)
  | case5 room ledger postponed first later next e hfirst hkeep _ ih =>
    rcases List.mem_cons.mp h with heq | hlater
    · obtain ⟨rfl, rfl⟩ := Prod.mk.inj heq
      simp only [Bool.or_eq_true, decide_eq_true_eq, not_or] at hkeep
      exact hkeep.2
    · exact ih hlater

/-- If the first of some jobs is another one, it stands before the one that is meant. -/
theorem exists_tail_of_ne {first : Operation} {later : List Operation}
    (hsplit : first :: later = before ++ op :: rest) (hne : op ≠ first) :
    ∃ ahead, before = first :: ahead ∧ later = ahead ++ op :: rest := by
  cases before with
  | nil => exact absurd (List.cons.inj hsplit).1.symm hne
  | cons head ahead =>
    obtain ⟨rfl, hlater⟩ := List.cons.inj hsplit
    exact ⟨ahead, rfl, hlater⟩

/-- If the first of some jobs is the one that is meant, nothing stands before it. -/
theorem eq_nil_of_first {later : List Operation} (hsplit : op :: later = before ++ op :: rest)
    (hop : op ∉ later) : before = [] := by
  cases before with
  | nil => rfl
  | cons head ahead =>
    obtain ⟨-, rfl⟩ := List.cons.inj hsplit
    exact absurd (List.mem_append_right _ List.mem_cons_self) hop

/-- The operations on a file among some others, but for those that are dropped. -/
def spared (file : FileName) (dropped jobs : List Operation) : List Operation :=
  jobs.filter fun other => other.file = file ∧ other ∉ dropped

/-- How a filter treats an operation makes no difference where there is no such operation. -/
theorem filter_congr_of_not_mem {first : Operation} {p q : Operation → Bool} (h : first ∉ jobs)
    (hsame : ∀ other, other ≠ first → p other = q other) : jobs.filter p = jobs.filter q :=
  List.filter_congr fun other hother => hsame other (ne_of_mem_of_not_mem hother h)

section Spared

variable {file : FileName} {dropped : List Operation} {first : Operation}

theorem spared_cons (hfile : first.file = file) (hkept : first ∉ dropped) :
    spared file dropped (first :: jobs) = first :: spared file dropped jobs :=
  List.filter_cons_of_pos (decide_eq_true ⟨hfile, hkept⟩)

theorem spared_cons_of_ne (hfile : first.file ≠ file) :
    spared file dropped (first :: jobs) = spared file dropped jobs :=
  List.filter_cons_of_neg (by simp [hfile])

/-- A job that is dropped does not count, and being dropped concerns no other. -/
theorem spared_cons_dropped (hfirst : first ∉ jobs) :
    spared file (first :: dropped) (first :: jobs) = spared file dropped jobs := by
  rw [spared, List.filter_cons_of_neg (by simp)]
  exact filter_congr_of_not_mem hfirst fun other hne => by simp [hne]

end Spared

/-- **What is dropped fails for good on its file alone**: on the operations on that file before it,
but for those that were dropped themselves. -/
theorem hopeless_of_pass (hnodup : jobs.Nodup) (hsplit : jobs = before ++ op :: rest)
    (h : (op, e) ∈ (pass height room ledger postponed jobs).dropped)
    (hfree : Ledger.Mirrors op.file free ledger) :
    e.isRetryable = false
      ∧ free.FailsBehind height
          (spared op.file (pass height room ledger postponed jobs).droppedOps before) op e := by
  revert before free
  fun_induction pass height room ledger postponed jobs with
  | case1 | case2 => cases h
  | case3 room ledger postponed first later next hfirst _ ih =>
    intro free before hsplit hfree
    obtain ⟨hhead, htail⟩ := List.nodup_cons.mp hnodup
    obtain ⟨ahead, rfl, hlater⟩ :=
      exists_tail_of_ne hsplit (ne_of_mem_of_not_mem (mem_of_mem_dropped h) hhead)
    by_cases hfile : first.file = op.file
    · -- A chosen operation on the file takes the mirror along.
      have hkept : first ∉ (pass height room next postponed later).droppedOps :=
        fun hmem => hhead ((dropped_sublist ..).subset hmem)
      rw [← hfile] at hfree
      obtain ⟨free', happly, hnext⟩ := hfree.apply hfirst
      obtain ⟨hfinal, hfails⟩ := ih htail h hlater (hfile ▸ hnext)
      exact ⟨hfinal, spared_cons hfile hkept ▸ hfails.cons happly⟩
    · rw [spared_cons_of_ne hfile]
      exact ih htail h hlater (hfree.elsewhere hfile hfirst)
  | case4 room ledger postponed first later next e hfirst _ ih =>
    intro free before hsplit hfree
    obtain rfl := Ledger.applyOp_failed hfirst
    obtain ⟨hhead, htail⟩ := List.nodup_cons.mp hnodup
    obtain ⟨ahead, rfl, hlater⟩ :=
      exists_tail_of_ne hsplit (ne_of_mem_of_not_mem (mem_of_mem_dropped h) hhead)
    -- What is postponed is on another file, or the operation behind it would not be dropped.
    have hfile : first.file ≠ op.file :=
      fun hfile => not_mem_postponed h (hfile ▸ List.mem_cons_self)
    rw [spared_cons_of_ne hfile]
    exact ih htail h hlater hfree
  | case5 room ledger postponed first later next e hfirst hkeep _ ih =>
    intro free before hsplit hfree
    obtain rfl := Ledger.applyOp_failed hfirst
    obtain ⟨hhead, htail⟩ := List.nodup_cons.mp hnodup
    rcases List.mem_cons.mp h with heq | hmem
    · obtain ⟨rfl, rfl⟩ := Prod.mk.inj heq
      obtain rfl := eq_nil_of_first hsplit hhead
      simp only [Bool.or_eq_true, decide_eq_true_eq, not_or, Bool.not_eq_true] at hkeep
      exact ⟨hkeep.1, Ledger.failsBehind_nil (hfree.refuse hfirst hkeep.1)⟩
    · obtain ⟨ahead, rfl, hlater⟩ :=
        exists_tail_of_ne hsplit (ne_of_mem_of_not_mem (mem_of_mem_dropped hmem) hhead)
      have hahead : first ∉ ahead := fun hmem => hhead (hlater ▸ List.mem_append_left _ hmem)
      obtain ⟨hfinal, hfails⟩ := ih htail hmem hlater hfree
      exact ⟨hfinal, spared_cons_dropped hahead ▸ hfails⟩

/-- What is chosen is not dropped. -/
theorem not_mem_dropped (hnodup : jobs.Nodup)
    (h : op ∈ (pass height room ledger postponed jobs).chosen) :
    op ∉ (pass height room ledger postponed jobs).droppedOps := by
  fun_induction pass height room ledger postponed jobs with
  | case1 | case2 => cases h
  | case3 room ledger postponed first later next hfirst _ ih =>
    obtain ⟨hhead, htail⟩ := List.nodup_cons.mp hnodup
    rcases List.mem_cons.mp h with rfl | hlater
    · exact fun hmem => hhead ((dropped_sublist ..).subset hmem)
    · exact ih htail hlater
  | case4 room ledger postponed first later next e hfirst _ ih =>
    exact ih (List.nodup_cons.mp hnodup).2 h
  | case5 room ledger postponed first later next e hfirst _ _ ih =>
    obtain ⟨hhead, htail⟩ := List.nodup_cons.mp hnodup
    refine List.not_mem_cons_of_ne_of_not_mem ?_ (ih htail h)
    rintro rfl
    exact hhead ((chosen_sublist ..).subset h)

/-- An operation that fails and is not chosen stands in the way of nothing behind it. -/
theorem fails_of_failed {first : Operation} {later chosen : List Operation} {next : Ledger}
    (hfirst : ledger.applyOp first height = ⟨next, some e⟩) (hhead : first ∉ later)
    (hchosen : chosen ⊆ later) (hsplit : first :: later = before ++ op :: rest)
    (hbehind : ∀ {before}, later = before ++ op :: rest →
      ∃ e, ledger.FailsBehind height (before.filter (· ∈ chosen)) op e) :
    ∃ e, ledger.FailsBehind height (before.filter (· ∈ chosen)) op e := by
  by_cases hop : op = first
  · subst hop
    obtain rfl := eq_nil_of_first hsplit hhead
    exact ⟨e, Ledger.failsBehind_nil hfirst⟩
  · obtain ⟨ahead, rfl, hlater⟩ := exists_tail_of_ne hsplit hop
    rw [List.filter_cons_of_neg (by simpa using fun hmem => hhead (hchosen hmem))]
    exact hbehind hlater

/-- What was chosen first stands before the other ones that were chosen. -/
theorem filter_mem_cons {first : Operation} {ahead chosen : List Operation} (h : first ∉ ahead) :
    (first :: ahead).filter (· ∈ first :: chosen) = first :: ahead.filter (· ∈ chosen) := by
  rw [List.filter_cons_of_pos (by simp)]
  congr 1
  exact filter_congr_of_not_mem h fun other hne => by simp [hne]

/-- **What is not chosen although there was room fails** on what was chosen before it. -/
theorem fails_of_pass (hnodup : jobs.Nodup) (hsplit : jobs = before ++ op :: rest)
    (hroom : (pass height room ledger postponed jobs).chosen.length < room)
    (h : op ∉ (pass height room ledger postponed jobs).chosen) :
    ∃ e, ledger.FailsBehind height
      (before.filter (· ∈ (pass height room ledger postponed jobs).chosen)) op e := by
  revert before
  fun_induction pass height room ledger postponed jobs with
  | case1 => cases hroom
  | case2 =>
    intro before hsplit
    simp at hsplit
  | case3 room ledger postponed first later next hfirst _ ih =>
    intro before hsplit
    obtain ⟨hhead, htail⟩ := List.nodup_cons.mp hnodup
    obtain ⟨hne, hop⟩ := List.ne_and_not_mem_of_not_mem_cons h
    obtain ⟨ahead, rfl, hlater⟩ := exists_tail_of_ne hsplit hne
    obtain ⟨e, hfails⟩ := ih htail (Nat.lt_of_succ_lt_succ hroom) hop hlater
    have hahead : first ∉ ahead := fun hmem => hhead (hlater ▸ List.mem_append_left _ hmem)
    exact ⟨e, filter_mem_cons hahead ▸ hfails.cons hfirst⟩
  | case4 room ledger postponed first later next e hfirst _ ih =>
    intro before hsplit
    obtain rfl := Ledger.applyOp_failed hfirst
    obtain ⟨hhead, htail⟩ := List.nodup_cons.mp hnodup
    exact fails_of_failed hfirst hhead (chosen_sublist ..).subset hsplit (ih htail hroom h)
  | case5 room ledger postponed first later next e hfirst hkeep _ ih =>
    intro before hsplit
    obtain rfl := Ledger.applyOp_failed hfirst
    obtain ⟨hhead, htail⟩ := List.nodup_cons.mp hnodup
    exact fails_of_failed hfirst hhead (chosen_sublist ..).subset hsplit (ih htail hroom h)

end Selection

/-! ## What the queue is left with -/

/-- The report that an operation was dropped. -/
def Effect.report (dropped : Operation × LedgerError) : Effect :=
  .publish (.dropJob dropped.1 dropped.2)

namespace Replica

variable {replica : Replica} {ledger : Ledger} {headHeight : Nat}

/-- Dropping several jobs takes all of them out and reports them in order. -/
theorem foldl_drop (dropped : List (Operation × LedgerError)) (replica : Replica) :
    dropped.foldl (fun replica job => replica.drop job.1 job.2) replica
      = { replica with
          queue := ⟨replica.queue.jobs.filter (· ∉ dropped.map (·.1))⟩
          trace := replica.trace ++ dropped.map Effect.report } := by
  induction dropped generalizing replica with
  | nil => simp
  | cons job rest ih =>
    have hdrop : replica.drop job.1 job.2
        = { replica with
            queue := ⟨replica.queue.jobs.filter (· ≠ job.1)⟩
            trace := replica.trace ++ [Effect.report job] } := rfl
    have hqueue : (replica.queue.jobs.filter (· ≠ job.1)).filter (· ∉ rest.map (·.1))
        = replica.queue.jobs.filter (· ∉ (job :: rest).map (·.1)) := by
      rw [List.filter_filter]
      refine List.filter_congr fun op _ => ?_
      simp only [List.map_cons, List.mem_cons, not_or, Bool.decide_and, Bool.and_comm, ne_eq]
    rw [List.foldl_cons, ih, hdrop, hqueue]
    simp

/-- A choice changes the queue and the trace, and nothing else. -/
theorem select_fst (replica : Replica) (ledger : Ledger) (headHeight : Nat) :
    (replica.select ledger headHeight).1
      = { replica with
          queue := ⟨replica.queue.jobs.filter
            (· ∉ (replica.select ledger headHeight).2.droppedOps)⟩
          trace := replica.trace
            ++ (replica.select ledger headHeight).2.dropped.map Effect.report } :=
  foldl_drop _ replica

/-- The selection leaves in the queue what it did not drop. -/
theorem jobs_select (replica : Replica) (ledger : Ledger) (headHeight : Nat) :
    (replica.select ledger headHeight).1.queue.jobs
      = replica.queue.jobs.filter (· ∉ (replica.select ledger headHeight).2.droppedOps) := by
  rw [select_fst]

/-- The selection reports what it dropped, in queue order. -/
theorem trace_select (replica : Replica) (ledger : Ledger) (headHeight : Nat) :
    (replica.select ledger headHeight).1.trace
      = replica.trace ++ (replica.select ledger headHeight).2.dropped.map Effect.report := by
  rw [select_fst]

/-- What stays in the queue is what was not dropped. -/
theorem mem_jobs_select {op : Operation} (hop : op ∈ replica.queue.jobs) :
    op ∈ (replica.select ledger headHeight).1.queue.jobs
      ↔ op ∉ (replica.select ledger headHeight).2.droppedOps := by
  rw [jobs_select, List.mem_filter, and_iff_right hop, decide_eq_true_iff]

end Replica

/-- What a choice from the queue comes to, with the ledger at the head and the height of the head. -/
structure Sifted (before after : Replica) (ledger : Ledger) (headHeight : Nat)
    (selection : Selection) : Prop where
  chosen_sublist : selection.chosen.Sublist after.queue.jobs
  length_le : selection.chosen.length ≤ max 1 (before.config.opsPerBlock - 1)
  kept_sublist : after.queue.jobs.Sublist before.queue.jobs
  /-- The operations that leave the queue are the dropped ones. -/
  dropped_iff : ∀ op, (∃ e, (op, e) ∈ selection.dropped)
    ↔ op ∈ before.queue.jobs ∧ op ∉ after.queue.jobs
  /-- Each of them is reported with the reason, and nothing else is done to the outside. -/
  trace_eq : after.trace = before.trace ++ selection.dropped.map Effect.report
  /-- A dropped operation fails for good on the files of the head, if all that is ahead of it on the
  same file and still queued is applied there for free. -/
  hopeless : ∀ ahead op rest e, before.queue.jobs = ahead ++ op :: rest →
    (op, e) ∈ selection.dropped → e.isRetryable = false
      ∧ ledger.unpriced.FailsBehind (headHeight + 1)
          (ahead.filter fun other => other.file = op.file ∧ other ∈ after.queue.jobs) op e
  /-- If there is room left, then nothing that is kept and not chosen applies behind what was chosen
  ahead of it. -/
  exhausted : selection.chosen.length < max 1 (before.config.opsPerBlock - 1) →
    ∀ ahead op rest, before.queue.jobs = ahead ++ op :: rest →
      op ∈ after.queue.jobs → op ∉ selection.chosen →
        ∃ e, (ledger.credit before.config.miner .regular).FailsBehind (headHeight + 1)
          (ahead.filter (· ∈ selection.chosen)) op e

/-- **A choice from the queue drops hopeless operations only and passes over none that applies**,
whatever the ledger and the queue, as long as nothing is queued twice. -/
theorem sifted_select (replica : Replica) (ledger : Ledger) (headHeight : Nat)
    (hnodup : replica.queue.jobs.Nodup) :
    Sifted replica (replica.select ledger headHeight).1 ledger headHeight
      (replica.select ledger headHeight).2 := by
  have hlimit : replica.config.minerConfig.limit = max 1 (replica.config.opsPerBlock - 1) :=
    Nat.max_comm ..
  have hdropped := Selection.dropped_sublist (headHeight + 1) replica.config.minerConfig.limit
    (ledger.credit replica.config.miner .regular) [] replica.queue.jobs
  constructor
  case chosen_sublist =>
    have hkept : ∀ op ∈ (replica.select ledger headHeight).2.chosen,
        op ∉ (replica.select ledger headHeight).2.droppedOps :=
      fun op hop => Selection.not_mem_dropped hnodup hop
    rw [Replica.jobs_select, ← List.filter_eq_self.mpr fun op hop => decide_eq_true (hkept op hop)]
    exact (Selection.chosen_sublist ..).filter _
  case length_le =>
    rw [← hlimit]
    exact Selection.length_chosen_le ..
  case kept_sublist =>
    rw [Replica.jobs_select]
    exact List.filter_sublist
  case dropped_iff =>
    intro op
    have hmem : (∃ e, (op, e) ∈ (replica.select ledger headHeight).2.dropped)
        ↔ op ∈ (replica.select ledger headHeight).2.droppedOps := by
      simp [Selection.droppedOps]
    rw [hmem]
    refine ⟨fun hop => ?_, fun ⟨hop, hgone⟩ => ?_⟩
    · have hjob := hdropped.subset hop
      exact ⟨hjob, fun hkept => (Replica.mem_jobs_select hjob).mp hkept hop⟩
    · exact Decidable.not_not.mp (mt (Replica.mem_jobs_select hop).mpr hgone)
  case trace_eq => exact replica.trace_select ledger headHeight
  case hopeless =>
    intro ahead op rest e hsplit hmem
    obtain ⟨hfinal, hfails⟩ := Selection.hopeless_of_pass hnodup hsplit hmem
      (ledger.mirrors_unpriced replica.config.miner .regular op.file)
    refine ⟨hfinal, ?_⟩
    -- What is ahead is queued still, if it was not dropped.
    have hsame : (ahead.filter fun other => other.file = op.file
          ∧ other ∈ (replica.select ledger headHeight).1.queue.jobs)
        = Selection.spared op.file (replica.select ledger headHeight).2.droppedOps ahead := by
      refine List.filter_congr fun other hother => ?_
      have hjob : other ∈ replica.queue.jobs := hsplit ▸ List.mem_append_left _ hother
      exact decide_eq_decide.mpr (and_congr_right' (Replica.mem_jobs_select hjob))
    rw [hsame]
    exact hfails
  case exhausted =>
    intro hroom ahead op rest hsplit _ hop
    rw [← hlimit] at hroom
    exact Selection.fails_of_pass hnodup hsplit hroom hop

/-- A replica with one block, on which a creation costs what a block earns. Queued are the deletion of
a file that nobody has created, a creation by an account without money with an append behind it, and a
creation by the miner. -/
def thrifty : Replica :=
  let config : Config :=
    { miner := "ann", opDifficulty := 0, noOpDifficulty := 0, opReward := 10, noOpReward := 0,
      createFee := 10, appendFee := 0, confirmsPerCreate := 0, confirmsPerAppend := 0,
      opsPerBlock := 4 }
  { Replica.new config with
    chain := .ofBlocks config.economics config.difficulty [.genesis "ann" 0]
    queue := ⟨[.delete "ann" "lost", .create "bob" "f", .append "bob" "f" 0 .empty,
      .create "ann" "g"]⟩ }

/-- What is selected on a replica where money and files both stand in the way of something. -/
theorem sifted_select_thrifty :
    ∃ ledger, thrifty.chain.ledgerAt 0 = .ok ledger
      ∧ thrifty.queue.jobs.Nodup
      ∧ (thrifty.select ledger 0).2.chosen = [.create "ann" "g"]
      ∧ (thrifty.select ledger 0).2.droppedOps = [.delete "ann" "lost"]
      ∧ Sifted thrifty (thrifty.select ledger 0).1 ledger 0 (thrifty.select ledger 0).2 := by
  obtain ⟨hnodup, hselect⟩ :
      thrifty.queue.jobs.Nodup
        ∧ (thrifty.chain.ledgerAt 0).toOption.map (fun ledger =>
            ((thrifty.select ledger 0).2.chosen, (thrifty.select ledger 0).2.droppedOps))
          = some ([.create "ann" "g"], [.delete "ann" "lost"]) := by
    decide +kernel
  obtain ⟨ledger, hledger, hboth⟩ := Option.map_eq_some_iff.mp hselect
  obtain ⟨hchosen, hdropped⟩ := Prod.mk.inj hboth
  exact ⟨ledger, eq_ok_of_toOption hledger, hnodup, hchosen, hdropped,
    sifted_select thrifty ledger 0 hnodup⟩

end RecordChain
