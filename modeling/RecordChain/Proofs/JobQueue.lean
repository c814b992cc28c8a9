import Mathlib.Data.List.Induction
import Mathlib.Order.Bounds.Basic
import RecordChain.JobQueue

/-!
# Jobs that wait

Clients, peers and workers put jobs into one queue and take them out of it, in any order. What single
calls do comes first. What the queue holds in the end can be told from what was done to it: a job waits
since it was last put in, and nothing but that decides about its place.

* **`Operation.Outlasts`**: whether a job is still needed once a block has been mined.
* **`Act`**, **`after`**: what can be done to a queue, and what queue comes of it.
* **`act_cases`**: an act puts one new job behind all others, or leaves some of them in their order.
* **`LastEntered`**, **`Survives`**: when a job was last put in, and whether it has been in since.
* **`fifoSet_after`**: the queue is the set of the jobs that survive, in the order of their entries.
-/

namespace RecordChain

namespace Operation

/-- Whether a mined block leaves a queued operation something to do: the block does nothing of the
kind to the file, or the operation appends a record behind all that the block appends to the file. -/
def Outlasts (queued : Operation) (mined : List Operation) : Prop :=
  (∀ op ∈ mined, ¬ (op.file = queued.file ∧ op.kind = queued.kind))
    ∨ ∃ number ∈ queued.number?, ∀ op ∈ mined, op.file = queued.file →
      ∀ earlier ∈ op.number?, earlier < number

instance (queued : Operation) (mined : List Operation) : Decidable (queued.Outlasts mined) :=
  inferInstanceAs (Decidable (_ ∨ _))

/-- Appends, and no other operations, have a number. -/
theorem exists_number_iff {op : Operation} :
    (∃ number, number ∈ op.number?) ↔ op.kind = .append := by
  cases op <;> simp [number?, kind]

end Operation

namespace JobQueue

section Calls

variable {queue : JobQueue} {op queued : Operation} {mined : List Operation} {file : FileName}
  {number last : RecordNumber}

/-! ## One call -/

theorem contains_iff : queue.contains op ↔ op ∈ queue.jobs := decide_eq_true_iff

/-- What is queued is not queued again, and the caller is told. -/
theorem push_of_mem (h : op ∈ queue.jobs) : queue.push op = (queue, false) :=
  if_pos (contains_iff.mpr h)

/-- What is not queued comes last, and the caller is told. -/
theorem push_of_not_mem (h : op ∉ queue.jobs) :
    queue.push op = (⟨queue.jobs ++ [op]⟩, true) :=
  if_neg (mt contains_iff.mp h)

/-- A refusal means that the operation was queued. -/
theorem push_eq_false_iff : queue.push op = (queue, false) ↔ op ∈ queue.jobs := by
  refine ⟨fun h => ?_, push_of_mem⟩
  by_contra hfresh
  exact Bool.noConfusion (congrArg Prod.snd ((push_of_not_mem hfresh).symm.trans h))

/-- An acceptance means that it was not. -/
theorem push_eq_true_iff : queue.push op = (⟨queue.jobs ++ [op]⟩, true) ↔ op ∉ queue.jobs := by
  refine ⟨fun h hqueued => ?_, push_of_not_mem⟩
  exact Bool.noConfusion (congrArg Prod.snd ((push_of_mem hqueued).symm.trans h))

theorem remove_of_not_mem (h : op ∉ queue.jobs) : queue.remove op = queue := by
  rw [remove, List.filter_eq_self.mpr]
  intro other hother
  exact decide_eq_true fun heq => h (heq ▸ hother)

/-- An operation that came last is taken off again. -/
theorem remove_concat (h : op ∉ queue.jobs) : remove ⟨queue.jobs ++ [op]⟩ op = queue := by
  have hkept : queue.jobs.filter (· ≠ op) = queue.jobs := congrArg jobs (remove_of_not_mem h)
  rw [remove, List.filter_append, hkept]
  simp

/-- What makes a queued operation superfluous: the same kind of operation on the same file, with a
number that is not lower if there is one. -/
theorem supersedes_iff : supersedes op queued = true ↔ op.file = queued.file ∧ op.kind = queued.kind
    ∧ ∀ number ∈ queued.number?, ∀ later ∈ op.number?, number ≤ later := by
  rw [supersedes, eq_comm (a := op.file), eq_comm (a := op.kind)]
  cases queued.number? <;> cases op.number? <;> simp [and_assoc]

theorem supersedes_self (op : Operation) : supersedes op op = true := by
  refine supersedes_iff.mpr ⟨rfl, rfl, fun number hnumber later hlater => ?_⟩
  obtain rfl := Option.mem_unique hnumber hlater
  exact UInt16.le_refl number

/-- What stays in the queue after a block was mined is what no operation of the block makes
superfluous. -/
theorem mem_removeMined : queued ∈ (queue.removeMined mined).jobs
    ↔ queued ∈ queue.jobs ∧ ∀ op ∈ mined, ¬ supersedes op queued = true := by
  simp [removeMined]

/-- What no operation of a block makes superfluous outlasts the block. -/
theorem outlasts_iff : queued.Outlasts mined ↔ ∀ op ∈ mined, ¬ supersedes op queued = true := by
  constructor
  · rintro (hnone | ⟨number, hnumber, hlast⟩) op hop hsupersedes
    · obtain ⟨hfile, hkind, -⟩ := supersedes_iff.mp hsupersedes
      exact hnone op hop ⟨hfile, hkind⟩
    · obtain ⟨hfile, hkind, hle⟩ := supersedes_iff.mp hsupersedes
      -- What is of the kind of an append has a number, too.
      have happend := Operation.exists_number_iff.mp ⟨number, hnumber⟩
      obtain ⟨later, hlater⟩ := Operation.exists_number_iff.mpr (hkind.trans happend)
      exact UInt16.not_lt.mpr (hle number hnumber later hlater) (hlast op hop hfile later hlater)
  · intro h
    cases hnumber : queued.number? with
    | none =>
      refine Or.inl fun op hop ⟨hfile, hkind⟩ => ?_
      exact h op hop (supersedes_iff.mpr ⟨hfile, hkind, by simp [hnumber]⟩)
    | some number =>
      refine Or.inr ⟨number, hnumber, fun op hop hfile earlier hearlier => ?_⟩
      by_contra hlater
      refine h op hop (supersedes_iff.mpr ⟨hfile, ?_, fun first hfirst second hsecond => ?_⟩)
      · rw [Operation.exists_number_iff.mp ⟨number, hnumber⟩,
          Operation.exists_number_iff.mp ⟨earlier, hearlier⟩]
      · obtain rfl := Option.mem_unique hnumber hfirst
        obtain rfl := Option.mem_unique hearlier hsecond
        exact UInt16.not_lt.mp hlater

/-- What is left of the queue is what outlasts the block. -/
theorem jobs_removeMined (queue : JobQueue) (mined : List Operation) :
    (queue.removeMined mined).jobs = queue.jobs.filter (·.Outlasts mined) := by
  refine List.filter_congr fun queued _ => ?_
  rw [Bool.eq_iff_iff, decide_eq_true_iff, outlasts_iff]
  simp

/-! ## Queued appends -/

/-- An append is queued if there is one with that file and number. -/
theorem hasAppend_iff : queue.hasAppend file number
    ↔ ∃ op ∈ queue.jobs, op.file = file ∧ op.number? = some number := by
  simp [hasAppend]

/-- Of two numbers the greater one is one of them, as lists need it to be for their maximum. -/
theorem lawfulOrderMax_recordNumber : Std.LawfulOrderMax RecordNumber where
  max_eq_or a b := by
    change (if a ≤ b then b else a) = a ∨ (if a ≤ b then b else a) = b
    split
    · exact Or.inr rfl
    · exact Or.inl rfl
  max_le_iff a b c := by
    change (if a ≤ b then b else a) ≤ c ↔ a ≤ c ∧ b ≤ c
    split
    · next hle => exact ⟨fun h => ⟨Std.le_trans hle h, h⟩, And.right⟩
    · next hle => exact ⟨fun h => ⟨h, Std.le_trans (Std.le_of_not_ge hle) h⟩, And.left⟩

/-- The numbers that are looked at are those of the queued appends. -/
theorem mem_numbers_iff :
    number ∈ (queue.jobs.filter fun op => op.file = file).filterMap Operation.number?
      ↔ queue.hasAppend file number := by
  simp [hasAppend, and_assoc]

/-- The last append is the greatest of the queued numbers. -/
theorem lastAppend?_eq_some_iff : queue.lastAppend? file = some last
    ↔ queue.hasAppend file last ∧ ∀ number, queue.hasAppend file number → number ≤ last := by
  have := lawfulOrderMax_recordNumber
  rw [lastAppend?, List.max?_eq_some_iff, mem_numbers_iff]
  simp only [mem_numbers_iff]

/-- There is none if no append to the file is queued. -/
theorem lastAppend?_eq_none_iff : queue.lastAppend? file = none
    ↔ ∀ number, ¬ queue.hasAppend file number := by
  rw [lastAppend?, List.max?_eq_none_iff, List.eq_nil_iff_forall_not_mem]
  simp only [mem_numbers_iff]

end Calls

/-! ## Any number of calls -/

/-- What can be done to a queue. -/
inductive Act
  /-- An operation is put in, unless it is queued already. -/
  | push (op : Operation)
  /-- An operation is taken out by itself. -/
  | remove (op : Operation)
  /-- What a mined block has made superfluous is taken out. -/
  | removeMined (mined : List Operation)
deriving DecidableEq

/-- The queue after one more act. -/
def act (queue : JobQueue) : Act → JobQueue
  | .push op => (queue.push op).1
  | .remove op => queue.remove op
  | .removeMined mined => queue.removeMined mined

/-- The queue that some acts make of the empty one. -/
def after (acts : List Act) : JobQueue := acts.foldl act empty

/-- Whether an act takes out an operation that is queued. -/
def Act.TakesOut : Act → Operation → Prop
  | push _, _ => False
  | remove op, queued => op = queued
  | removeMined mined, queued => ¬ queued.Outlasts mined

instance : (act : Act) → (queued : Operation) → Decidable (act.TakesOut queued)
  | .push _, _ => inferInstanceAs (Decidable False)
  | .remove op, queued => inferInstanceAs (Decidable (op = queued))
  | .removeMined mined, queued => inferInstanceAs (Decidable (¬ queued.Outlasts mined))

/-- Whether the act with some number puts an operation in. -/
def Enters (acts : List Act) (op : Operation) (i : Nat) : Prop :=
  acts[i]? = some (.push op) ∧ ((after (acts.take i)).push op).2 = true

/-- Whether that is the last act to put the operation in. -/
def LastEntered (acts : List Act) (op : Operation) (i : Nat) : Prop :=
  IsGreatest {i | Enters acts op i} i

/-- Whether an operation was put in and nothing has taken it out since it last was. -/
def Survives (acts : List Act) (op : Operation) : Prop :=
  ∃ i, LastEntered acts op i ∧ ∀ act ∈ acts.drop (i + 1), ¬ act.TakesOut op

/-- Whether an operation was last put in before another one was. -/
def Precedes (acts : List Act) (first second : Operation) : Prop :=
  ∃ i j, LastEntered acts first i ∧ LastEntered acts second j ∧ i < j

section Acts

variable {queue : JobQueue} {acts : List Act} {act : Act} {op : Operation} {i : Nat}

theorem after_concat (acts : List Act) (act : Act) :
    after (acts ++ [act]) = (after acts).act act :=
  List.foldl_append

/-- An act puts one new operation behind all others, or leaves some of those there are in their
order. -/
theorem act_cases (queue : JobQueue) (act : Act) :
    (∃ op, act = .push op ∧ op ∉ queue.jobs ∧ queue.act act = ⟨queue.jobs ++ [op]⟩)
      ∨ (∀ op, act = .push op → op ∈ queue.jobs)
        ∧ queue.act act = ⟨queue.jobs.filter fun op => ¬ act.TakesOut op⟩ := by
  cases act with
  | push op =>
    by_cases hqueued : op ∈ queue.jobs
    · refine Or.inr ⟨fun other h => ?_, ?_⟩
      · cases h
        exact hqueued
      · rw [JobQueue.act, push_of_mem hqueued, List.filter_eq_self.mpr]
        exact fun other _ => decide_eq_true id
    · exact Or.inl ⟨op, rfl, hqueued, congrArg Prod.fst (push_of_not_mem hqueued)⟩
  | remove op =>
    refine Or.inr ⟨nofun, congrArg JobQueue.mk (List.filter_congr fun other _ => ?_)⟩
    exact decide_eq_decide.mpr ne_comm
  | removeMined mined =>
    refine Or.inr ⟨nofun, congrArg JobQueue.mk ?_⟩
    refine (jobs_removeMined queue mined).trans (List.filter_congr fun other _ => ?_)
    exact decide_eq_decide.mpr not_not.symm

/-- What enters enters at one of the calls. -/
theorem Enters.lt_length (h : Enters acts op i) : i < acts.length :=
  (List.getElem?_eq_some_iff.mp h.1).1

/-- One more act can put in the operation that it pushes, and changes nothing about the acts before
it. -/
theorem enters_concat : Enters (acts ++ [act]) op i
    ↔ Enters acts op i ∨ i = acts.length ∧ act = .push op ∧ op ∉ (after acts).jobs := by
  have hfresh : ((after acts).push op).2 = true ↔ op ∉ (after acts).jobs := by
    by_cases hqueued : op ∈ (after acts).jobs
    · simp [push_of_mem hqueued, hqueued]
    · simp [push_of_not_mem hqueued, hqueued]
  rcases Nat.lt_trichotomy i acts.length with hlt | rfl | hgt
  · rw [Enters, List.getElem?_append_left hlt, List.take_append_of_le_length hlt.le]
    exact (or_iff_left fun h => hlt.ne h.1).symm
  · rw [Enters, List.getElem?_concat_length, List.take_left, hfresh, Option.some_inj]
    exact ((or_iff_right fun h => Nat.lt_irrefl _ h.lt_length).trans (and_iff_right rfl)).symm
  · have hnone : (acts ++ [act])[i]? = none := by
      rw [List.getElem?_eq_none_iff, List.length_append]
      exact hgt
    refine iff_of_false (fun h => ?_) ?_
    · cases hnone.symm.trans h.1
    · rintro (h | ⟨rfl, -⟩)
      · exact Nat.lt_asymm hgt h.lt_length
      · exact Nat.lt_irrefl _ hgt

/-- An act that does not put an operation in leaves its last entry as it is. -/
theorem lastEntered_concat (h : act = .push op → op ∈ (after acts).jobs) :
    LastEntered (acts ++ [act]) op i ↔ LastEntered acts op i := by
  have hsame : {i | Enters (acts ++ [act]) op i} = {i | Enters acts op i} := by
    ext i
    exact enters_concat.trans (or_iff_left fun ⟨_, hact, hfresh⟩ => hfresh (h hact))
  rw [LastEntered, hsame, LastEntered]

/-- An operation that is not queued enters when it is pushed. -/
theorem lastEntered_push (h : op ∉ (after acts).jobs) :
    LastEntered (acts ++ [.push op]) op acts.length := by
  refine ⟨enters_concat.mpr (Or.inr ⟨rfl, rfl, h⟩), fun i hi => ?_⟩
  exact Nat.lt_succ_iff.mp (hi.lt_length.trans_eq (List.length_append))

/-- Unless it enters just now, an operation survives a call if it survived the ones before and the
call does not take it out. -/
theorem survives_concat (h : act = .push op → op ∈ (after acts).jobs) :
    Survives (acts ++ [act]) op ↔ Survives acts op ∧ ¬ act.TakesOut op := by
  rw [Survives, Survives, ← exists_and_right]
  refine exists_congr fun i => ?_
  rw [lastEntered_concat h, and_assoc]
  refine and_congr_right fun hi => ?_
  rw [List.drop_append_of_le_length hi.1.lt_length, List.forall_mem_append,
    List.forall_mem_singleton]

theorem survives_push (h : op ∉ (after acts).jobs) : Survives (acts ++ [.push op]) op :=
  ⟨acts.length, lastEntered_push h, by simp⟩

/-- An operation has one last entry, so the order is strict. -/
theorem Precedes.asymm {first second : Operation} (h : Precedes acts first second) :
    ¬ Precedes acts second first := by
  obtain ⟨i, j, hi, hj, hlt⟩ := h
  rintro ⟨j', i', hj', hi', hlt'⟩
  rw [hj'.unique hj, hi'.unique hi] at hlt'
  exact Nat.lt_asymm hlt hlt'

/-- Among queued operations the order of entries stays as it is. -/
theorem Precedes.concat {first second : Operation} (h : Precedes acts first second)
    (hfirst : first ∈ (after acts).jobs) (hsecond : second ∈ (after acts).jobs) (act : Act) :
    Precedes (acts ++ [act]) first second := by
  obtain ⟨i, j, hi, hj, hlt⟩ := h
  exact ⟨i, j, (lastEntered_concat fun _ => hfirst).mpr hi,
    (lastEntered_concat fun _ => hsecond).mpr hj, hlt⟩

/-- What enters just now comes behind all that is queued. -/
theorem precedes_push {queued : Operation} (h : op ∉ (after acts).jobs)
    (hqueued : queued ∈ (after acts).jobs) (hsurvives : Survives acts queued) :
    Precedes (acts ++ [.push op]) queued op := by
  obtain ⟨i, hi, -⟩ := hsurvives
  exact ⟨i, acts.length, (lastEntered_concat fun _ => hqueued).mpr hi, lastEntered_push h,
    hi.1.lt_length⟩

end Acts

/-! ## The queue as a whole -/

/-- The jobs of a queue, told from what was done to it. -/
structure Arranged (acts : List Act) (queue : JobQueue) : Prop where
  mem_iff : ∀ op, op ∈ queue.jobs ↔ Survives acts op
  ordered : queue.jobs.Pairwise (Precedes acts)

namespace Arranged

theorem empty : Arranged [] .empty := by
  refine ⟨fun op => iff_of_false nofun ?_, .nil⟩
  rintro ⟨i, hi, -⟩
  cases hi.1.lt_length

/-- Each call keeps the order and the survivors as the calls tell them. -/
theorem concat {acts : List Act} (h : Arranged acts (after acts)) (act : Act) :
    Arranged (acts ++ [act]) (after (acts ++ [act])) := by
  have hordered : (after acts).jobs.Pairwise (Precedes (acts ++ [act])) :=
    h.ordered.imp_of_mem fun hfirst hsecond hprecedes => hprecedes.concat hfirst hsecond act
  rw [after_concat]
  rcases act_cases (after acts) act with ⟨op, rfl, hfresh, hqueue⟩ | ⟨hknown, hqueue⟩
  · rw [hqueue]
    refine ⟨fun queued => ?_, List.pairwise_append.mpr ⟨hordered, List.pairwise_singleton .., ?_⟩⟩
    · rw [List.mem_append, List.mem_singleton]
      by_cases hsame : queued = op
      · rw [hsame]
        exact iff_of_true (Or.inr rfl) (survives_push hfresh)
      · have hother : Act.push op = .push queued → queued ∈ (after acts).jobs :=
          fun hpush => absurd (Act.push.inj hpush).symm hsame
        rw [or_iff_left hsame, survives_concat hother, h.mem_iff]
        exact (and_iff_left id).symm
    · intro queued hqueued last hlast
      obtain rfl := List.mem_singleton.mp hlast
      exact precedes_push hfresh hqueued ((h.mem_iff queued).mp hqueued)
  · rw [hqueue]
    refine ⟨fun queued => ?_, hordered.filter _⟩
    rw [List.mem_filter, decide_eq_true_iff, h.mem_iff, survives_concat (hknown queued)]

variable {acts : List Act} {queue other : JobQueue}

/-- Nothing is queued twice. -/
theorem nodup (h : Arranged acts queue) : queue.jobs.Nodup := by
  refine h.ordered.imp ?_
  rintro first second hprecedes rfl
  exact hprecedes.asymm hprecedes

/-- No other queue has the same jobs in the same order. -/
theorem eq (h : Arranged acts queue) (hother : Arranged acts other) : other = queue := by
  have hmem (op : Operation) : op ∈ other.jobs ↔ op ∈ queue.jobs :=
    (hother.mem_iff op).trans (h.mem_iff op).symm
  have hperm : other.jobs.Perm queue.jobs :=
    (List.perm_ext_iff_of_nodup hother.nodup h.nodup).mpr hmem
  refine congrArg JobQueue.mk (hperm.eq_of_pairwise ?_ hother.ordered h.ordered)
  exact fun first second _ _ hprecedes hfollows => absurd hfollows hprecedes.asymm

end Arranged

/-- A queue is as its calls tell. Induction on the calls. -/
theorem arranged_after (acts : List Act) : Arranged acts (after acts) := by
  induction acts using List.reverseRecOn with
  | nil => exact .empty
  | append_singleton acts act ih => exact ih.concat act

/-- What a set of jobs is like that are served in the order in which they came. -/
structure FifoSet (acts : List Act) (queue : JobQueue) : Prop extends Arranged acts queue where
  /-- What was done decides what is queued, and in which order. -/
  eq_of_arranged : ∀ other, Arranged acts other → other = queue
  nodup : queue.jobs.Nodup
  refuses_iff : ∀ op, queue.push op = (queue, false) ↔ op ∈ queue.jobs
  accepts_iff : ∀ op, queue.push op = (⟨queue.jobs ++ [op]⟩, true) ↔ op ∉ queue.jobs
  jobs_removeMined : ∀ mined,
    (queue.removeMined mined).jobs = queue.jobs.filter (·.Outlasts mined)

/-- **The queue is a first-in first-out set, whatever is done to it.** No job is in it twice: one that
is queued is refused, and this changes nothing. It lists the jobs that nothing has taken out since they
were last put in, in the order of these entries. When a block has been mined it keeps the jobs whose
file and kind are those of no operation in the block, and the appends behind all in the block. -/
theorem fifoSet_after (acts : List Act) : FifoSet acts (after acts) where
  toArranged := arranged_after acts
  eq_of_arranged _ := (arranged_after acts).eq
  nodup := (arranged_after acts).nodup
  refuses_iff _ := push_eq_false_iff
  accepts_iff _ := push_eq_true_iff
  jobs_removeMined := (after acts).jobs_removeMined

/-- A job that is put in again has lost its place. -/
example : (after [.push (.create "ann" "f"), .push (.create "bob" "f"), .push (.create "ann" "f"),
    .remove (.create "ann" "f"), .push (.create "ann" "f")]).jobs
      = [.create "bob" "f", .create "ann" "f"] := by
  decide

end JobQueue

end RecordChain
