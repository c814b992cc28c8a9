import Mathlib.Logic.Relation
import RecordChain.Proofs.Client.Slots
import RecordChain.Session

/-!
# Clients of one replica

Clients write through one replica at the same time. A write moves in the steps of `Call.step`, and
between any two of them anybody else may move: another write, a worker, or a thread that handles what
the peers send. Of those who are not clients no more is assumed than that the longest chain keeps its
blocks and that new ones do not delete the file in question. The queue they may change as they like.

* **`Clients.Run`**: any number of such steps, in any order.
* **`Clients.Run.call_induction`**: what a write keeps through its own steps and while the chain grows
  is true of it after any run.
-/

namespace RecordChain

variable {economics : Economics} {difficulty : Difficulty} {file : FileName}

/-- To be used where the chain stands for insertions that are not to be evaluated. -/
theorem Replica.chain_with (replica : Replica) (chain : Chain) :
    { replica with chain }.chain = chain := rfl

/-! ## What others may do -/

/-- What the longest chain of a replica may come to while nobody deletes a file. -/
structure Replica.Grown (economics : Economics) (difficulty : Difficulty) (file : FileName)
    (before after : Replica) : Prop where
  /-- Blocks get into the chain by insertion only, so they are valid. -/
  built : after.chain.Built economics difficulty
  grown : ∃ added, after.chain.longest = before.chain.longest ++ added
    ∧ deletedIn file added = false

namespace Replica.Grown

variable {before middle after : Replica}

theorem of_chain_eq (hbuilt : before.chain.Built economics difficulty)
    (h : after.chain = before.chain) : before.Grown economics difficulty file after :=
  ⟨h ▸ hbuilt, [], by rw [h, List.append_nil], rfl⟩

/-- What others may do they may do twice. -/
theorem trans (h : before.Grown economics difficulty file middle)
    (h' : middle.Grown economics difficulty file after) :
    before.Grown economics difficulty file after := by
  obtain ⟨added, hadded, hspared⟩ := h.grown
  obtain ⟨more, hmore, hspared'⟩ := h'.grown
  refine ⟨h'.built, added ++ more, by rw [hmore, hadded, List.append_assoc], ?_⟩
  rw [deletedIn, List.any_append]
  exact Bool.or_eq_false_iff.mpr ⟨hspared, hspared'⟩

/-- A record that is in its place stays there. -/
theorem slot? {number : RecordNumber} {record : Record}
    (h : before.Grown economics difficulty file after)
    (hslot : RecordChain.slot? before.chain.longest file number = some record) :
    RecordChain.slot? after.chain.longest file number = some record := by
  obtain ⟨added, hadded, hspared⟩ := h.grown
  obtain ⟨ledger, hreplay⟩ := h.built.exists_replay_longest
  rw [hadded] at hreplay ⊢
  exact slot?_append hreplay hspared hslot

end Replica.Grown

/-! ## Steps of a write -/

/-- To queue an operation leaves the chain alone. -/
@[simp] theorem chain_submitJob (replica : Replica) (op : Operation) :
    (replica.submitJob op).1.chain = replica.chain := by
  unfold Replica.submitJob
  split <;> rfl

/-- No step of a write touches the chain. -/
theorem Call.chain_step (call : Call) (token : Token) (replica : Replica) (stage : Call.Stage) :
    (call.step token replica stage).1.chain = replica.chain := by
  cases stage with
  | waiting job =>
    rw [step]
    split
    · rfl
    · unfold poll
      split <;> try rfl
      dsimp only
      split
      · rfl
      · exact chain_submitJob replica job
  | submitting job => exact chain_submitJob replica job
  | _ => rfl

/-- A call that has answered is finished with this answer. -/
theorem ActiveCall.stage_eq (active : ActiveCall) {answer : Call.Answer}
    (h : active.answer? = some answer) : active.stage = .finished answer := by
  rw [answer?] at h
  split at h
  · next hstage => rw [hstage, Option.some.inj h]
  · cases h

/-! ## Runs -/

/-- Writes on one replica, in the order in which they began. -/
structure Clients where
  replica : Replica
  calls : List ActiveCall

namespace Clients

/-- A new write begins. -/
def begin (clients : Clients) (call : Call) (token : Token) : Clients :=
  { clients with calls := clients.calls ++ [.start call token] }

/-- A write takes its next step. -/
def act (clients : Clients) (id : Nat) : Clients :=
  match clients.calls[id]? with
  | none => clients
  | some active =>
    let (replica, active) := active.step clients.replica
    ⟨replica, clients.calls.set id active⟩

/-- What can happen next. -/
inductive Step (economics : Economics) (difficulty : Difficulty) (file : FileName) :
    Clients → Clients → Prop
  | begin {clients : Clients} (call : Call) (token : Token) :
    Step economics difficulty file clients (clients.begin call token)
  | act {clients : Clients} (id : Nat) : Step economics difficulty file clients (clients.act id)
  | others {clients : Clients} {replica : Replica}
    (grown : clients.replica.Grown economics difficulty file replica) :
    Step economics difficulty file clients { clients with replica }

/-- Any number of steps. -/
abbrev Run (economics : Economics) (difficulty : Difficulty) (file : FileName) :
    Clients → Clients → Prop :=
  Relation.ReflTransGen (Step economics difficulty file)

/-- The clients may come to be so: they started without any write, on a chain of valid blocks. -/
def Reached (economics : Economics) (difficulty : Difficulty) (file : FileName)
    (clients : Clients) : Prop :=
  ∃ replica, replica.chain.Built economics difficulty
    ∧ Run economics difficulty file ⟨replica, []⟩ clients

variable {clients s t : Clients} {id : Nat} {active : ActiveCall}

/-- After a call has begun, each call is one of those before or the new one. -/
theorem getElem?_begin {call : Call} {token : Token}
    (h : (clients.begin call token).calls[id]? = some active) :
    clients.calls[id]? = some active ∨ active = .start call token := by
  have h : (clients.calls ++ [ActiveCall.start call token])[id]? = some active := h
  rw [List.getElem?_append] at h
  split at h
  · exact Or.inl h
  · exact Or.inr (List.mem_singleton.mp (List.mem_of_getElem? h))

/-- After a call has acted, each call is where it was, or has taken its step. -/
theorem getElem?_act {actor : Nat} (h : (clients.act actor).calls[id]? = some active) :
    clients.calls[id]? = some active
      ∨ ∃ before, clients.calls[id]? = some before ∧ active = (before.step clients.replica).2 := by
  rw [act] at h
  split at h
  · exact Or.inl h
  · next before hbefore =>
    rw [List.getElem?_set] at h
    split at h
    · next hid =>
      subst hid
      rw [if_pos (List.getElem?_eq_some_iff.mp hbefore).1] at h
      exact Or.inr ⟨before, hbefore, (Option.some.inj h).symm⟩
    · exact Or.inl h

/-- No act of a client touches the chain. -/
theorem chain_act (clients : Clients) (id : Nat) :
    (clients.act id).replica.chain = clients.replica.chain := by
  rw [act]
  split
  · rfl
  · next active _ => exact active.call.chain_step active.token clients.replica active.stage

/-- For everybody else a step is something that others may do. -/
theorem Step.grown (h : Step economics difficulty file s t)
    (hs : s.replica.chain.Built economics difficulty) :
    s.replica.Grown economics difficulty file t.replica := by
  cases h with
  | begin => exact .of_chain_eq hs rfl
  | act id => exact .of_chain_eq hs (s.chain_act id)
  | others grown => exact grown

/-- For everybody else a run is something that others may do. Induction on its steps. -/
theorem Run.grown (h : Run economics difficulty file s t)
    (hs : s.replica.chain.Built economics difficulty) :
    s.replica.Grown economics difficulty file t.replica := by
  induction h with
  | refl => exact .of_chain_eq hs rfl
  | tail _ hstep ih => exact ih.trans (hstep.grown ih.built)

/-- In all that is reached the chain was built. -/
theorem Reached.built (h : Reached economics difficulty file clients) :
    clients.replica.chain.Built economics difficulty := by
  obtain ⟨replica, hreplica, hrun⟩ := h
  exact (hrun.grown hreplica).built

theorem Reached.run (h : Reached economics difficulty file s)
    (hrun : Run economics difficulty file s t) : Reached economics difficulty file t := by
  obtain ⟨replica, hreplica, hbefore⟩ := h
  exact ⟨replica, hreplica, hbefore.trans hrun⟩

/-- **What a write keeps through its own steps and while the chain grows is true of it after a
run**, whatever the others do. -/
theorem Run.call_induction {motive : Replica → ActiveCall → Prop}
    (start : ∀ replica call token, s.replica.Grown economics difficulty file replica →
      motive replica (.start call token))
    (step : ∀ replica active, s.replica.Grown economics difficulty file replica →
      motive replica active → motive replica (active.step replica).2)
    (grown : ∀ replica after active, replica.Grown economics difficulty file after →
      motive replica active → motive after active)
    (h : Run economics difficulty file s t) (hs : s.replica.chain.Built economics difficulty)
    (hid : ∀ active, s.calls[id]? = some active → motive s.replica active) :
    ∀ active, t.calls[id]? = some active → motive t.replica active := by
  induction h with
  | refl => exact hid
  | @tail u v hrun hstep ih =>
    intro active hactive
    have hu := Run.grown hrun hs
    refine grown u.replica v.replica active (hstep.grown hu.built) ?_
    cases hstep with
    | begin call token =>
      rcases getElem?_begin hactive with hold | rfl
      · exact ih active hold
      · exact start u.replica call token hu
    | act actor =>
      rcases getElem?_act hactive with hold | ⟨before, hbefore, rfl⟩
      · exact ih active hold
      · exact step u.replica before hu (ih before hbefore)
    | others => exact ih active hactive

end Clients
end RecordChain
