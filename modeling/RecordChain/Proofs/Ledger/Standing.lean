import Mathlib.Data.List.Basic
import RecordChain.Proofs.Ledger.Confirmation

/-!
# Operations that stand

What an operation of a chain has done to its file can be seen at the end of the chain, unless a later
operation has taken it back: deleted what was created or appended to, or created what was deleted.

* **`Stands`**: an operation stands among some others if none after it takes it back.
* **`shown_of_stands`**: an operation that stands can be seen in the file.
-/

namespace RecordChain

/-- Whether an operation creates the file of some name. -/
def Operation.creates (name : FileName) : Operation → Bool
  | .create _ file => file = name
  | .append .. | .delete .. => false

/-- Whether an operation takes back what an earlier one has done. -/
def Operation.undoes (later : Operation) : Operation → Bool
  | .create _ file | .append _ file _ _ => later.deletes file
  | .delete _ file => later.creates file

/-- An operation is among some others, and none after it takes it back. -/
def Stands (op : Operation) (ops : List (Nat × Operation)) : Prop :=
  ∃ before height rest, ops = before ++ (height, op) :: rest
    ∧ ∀ entry ∈ rest, entry.2.undoes op = false

/-- What an operation leaves to be seen of its file. -/
def Operation.Shown : Operation → Option File → Prop
  | .create creator _, file? => ∃ file, file? = some file ∧ file.creator = creator
  | .append _ _ number data, file? =>
    (file?.bind fun file => file.records[number.toNat]?.map (·.2)) = some data
  | .delete .., file? => file? = none

theorem stands_concat {op : Operation} {done : List (Nat × Operation)} {entry : Nat × Operation}
    (h : Stands op (done ++ [entry])) :
    entry.2 = op ∨ Stands op done ∧ entry.2.undoes op = false := by
  obtain ⟨before, height, rest, hsplit, hkept⟩ := h
  -- The last operation is the one that stands, or it comes after it.
  rcases List.eq_nil_or_concat' rest with rfl | ⟨rest, last, rfl⟩
  · obtain ⟨-, hentry⟩ := List.append_inj' hsplit rfl
    rw [List.singleton_inj.mp hentry]
    exact Or.inl rfl
  · rw [← List.cons_append, ← List.append_assoc] at hsplit
    obtain ⟨hdone, hentry⟩ := List.append_inj' hsplit rfl
    obtain rfl := List.singleton_inj.mp hentry
    refine Or.inr ⟨⟨before, height, rest, hdone, fun other hother => ?_⟩, ?_⟩
    · exact hkept other (List.mem_append_left _ hother)
    · exact hkept entry (List.mem_append_right _ List.mem_cons_self)

namespace Operation.Shown

variable {op other : Operation} {height : Nat} {first second : Option File}

theorem of_step (h : FileStep op.file height op first second) : op.Shown second := by
  cases op with
  | create creator file =>
    cases h with
    | elsewhere hother => exact absurd rfl hother
    | create => exact ⟨_, rfl, rfl⟩
  | append creator file number data =>
    cases h with
    | elsewhere hother => exact absurd rfl hother
    | append room next => simp [Shown, next]
  | delete creator file =>
    cases h with
    | elsewhere hother => exact absurd rfl hother
    | delete => rfl

theorem step (h : op.Shown first) (hstep : FileStep op.file height other first second)
    (hkept : other.undoes op = false) : op.Shown second := by
  cases op with
  | create creator file =>
    obtain ⟨entry, rfl, hcreator⟩ := h
    cases hstep with
    | elsewhere => exact ⟨entry, rfl, hcreator⟩
    | append => exact ⟨_, rfl, hcreator⟩
    | delete => exact absurd hkept (by simp [undoes, deletes, Operation.file])
  | append creator file number data =>
    cases hstep with
    | elsewhere => exact h
    | create => cases h
    | append =>
      -- A record keeps its place when others are appended behind it.
      obtain ⟨place, hplace, -⟩ := Option.map_eq_some_iff.mp h
      have hlt := (Array.getElem?_eq_some_iff.mp hplace).1
      rw [Shown, Option.bind_some, Array.getElem?_push_lt hlt, ← h]
      simp [hlt]
    | delete => exact absurd hkept (by simp [undoes, deletes, Operation.file])
  | delete creator file =>
    obtain rfl : first = none := h
    cases hstep with
    | elsewhere => rfl
    | create => exact absurd hkept (by simp [undoes, creates, Operation.file])

end Operation.Shown

/-- **An operation that stands can be seen in the file.** -/
theorem shown_of_stands {economics : Option Economics} {path : List Block} {ledger : Ledger}
    {op : Operation} (h : Ledger.replay economics path = .ok ledger)
    (hstands : Stands op (timeline 0 path)) : op.Shown ledger.files[op.file]? := by
  refine Ledger.file_induction op.file
    (motive := fun done file? => Stands op done → op.Shown file?) ?_ h ?_ hstands
  · intro done level other first second _ _ hstep hdone hstands
    rcases stands_concat hstands with rfl | ⟨hearlier, hkept⟩
    · exact .of_step hstep
    · exact (hdone hearlier).step hstep hkept
  · rintro ⟨before, height, rest, hsplit, -⟩
    simp at hsplit

end RecordChain
