import RecordChain.Cancellation

/-!
# The flags of tokens

Each token has a flag of its own, which says whether a stop was requested on the token itself. To
write the flag of one token leaves those of all others as they are, and so does making new tokens.

* **`isRaised_set_of_ne`**, **`isRaised_stop`**, **`isRaised_clear`**: what writing one flag does.
* **`isRaised_fresh`**, **`fresh_ne`**: a new token is a new flag.
* **`parent?_set`**, **`parent?_fresh`**: a token stays below the one it was made below.
* **`isRaised_stopAll_of_mem`**, **`isRaised_stopAll_of_not_mem`**: what stopping several tokens
  does.
-/

namespace RecordChain.Cancellation

/-- Whether a token is in use. -/
def InUse (tokens : Cancellation) (token : Token) : Prop := token.index < tokens.flags.size

/-- Requests a stop on each of some tokens. -/
def stopAll (tokens : Cancellation) (stopped : List Token) : Cancellation :=
  stopped.foldl stop tokens

variable {tokens : Cancellation} {token other : Token} {parent : Option Token} {raised : Bool}

/-! ## Writing one flag -/

/-- Writing a flag gives no token away and takes none. -/
theorem inUse_set : (tokens.set other raised).InUse token ↔ tokens.InUse token := by
  rw [InUse, set, Array.size_modify]
  rfl

/-- Writing a flag leaves the others as they are. -/
theorem isRaised_set_of_ne (h : other ≠ token) :
    (tokens.set other raised).isRaised token = tokens.isRaised token := by
  have hindex : other.index ≠ token.index := fun heq => h (congrArg Token.mk heq)
  rw [isRaised, set, Array.getElem?_modify, if_neg hindex]
  rfl

/-- A request that was withdrawn is not there, whether the token was in use or not. -/
theorem isRaised_clear (tokens : Cancellation) (token : Token) :
    (tokens.clear token).isRaised token = false := by
  rw [isRaised, clear, set, Array.getElem?_modify, if_pos rfl]
  cases tokens.flags[token.index]? <;> rfl

/-- The flag of a token in use is as it was written last. -/
theorem isRaised_set_self (h : tokens.InUse token) :
    (tokens.set token raised).isRaised token = raised := by
  rw [isRaised, set, Array.getElem?_modify, if_pos rfl, Array.getElem?_eq_getElem h]
  rfl

/-- A token in use can be stopped. -/
theorem isRaised_stop (h : tokens.InUse token) : (tokens.stop token).isRaised token = true :=
  isRaised_set_self h

/-- Writing a flag changes nobody's parent. -/
theorem parent?_set (tokens : Cancellation) (other token : Token) (raised : Bool) :
    (tokens.set other raised).parent? token = tokens.parent? token := by
  rw [parent?, set, Array.getElem?_modify, parent?]
  split
  · cases tokens.flags[token.index]? <;> rfl
  · rfl

/-! ## New tokens -/

theorem inUse_fresh (h : tokens.InUse token) : (tokens.fresh parent).1.InUse token := by
  rw [InUse, fresh, Array.size_push]
  exact Nat.lt_succ_of_lt h

/-- A new token leaves the flags as they are. -/
theorem isRaised_fresh (h : tokens.InUse token) :
    (tokens.fresh parent).1.isRaised token = tokens.isRaised token := by
  rw [isRaised, fresh, Array.getElem?_push_lt h, isRaised, Array.getElem?_eq_getElem h]

/-- A new token leaves the parents as they are. -/
theorem parent?_fresh (h : tokens.InUse token) :
    (tokens.fresh parent).1.parent? token = tokens.parent? token := by
  rw [parent?, fresh, Array.getElem?_push_lt h, parent?, Array.getElem?_eq_getElem h]

theorem inUse_fresh_self (tokens : Cancellation) (parent : Option Token) :
    (tokens.fresh parent).1.InUse (tokens.fresh parent).2 := by
  rw [InUse, fresh, Array.size_push]
  exact Nat.lt_succ_self _

theorem isRaised_fresh_self (tokens : Cancellation) (parent : Option Token) :
    (tokens.fresh parent).1.isRaised (tokens.fresh parent).2 = false := by
  rw [isRaised, fresh, Array.getElem?_push_size]
  rfl

/-- The parent of a new token is the one that was given. -/
theorem parent?_fresh_self (tokens : Cancellation) (parent : Option Token) :
    (tokens.fresh parent).1.parent? (tokens.fresh parent).2 = parent := by
  rw [parent?, fresh, Array.getElem?_push_size]
  rfl

/-- A new token is none of those in use. -/
theorem fresh_ne (h : tokens.InUse token) : (tokens.fresh parent).2 ≠ token := by
  rintro rfl
  exact Nat.lt_irrefl _ h

/-! ## Looking upward -/

/-- Without a parent a token is stopped by its own flag only. -/
theorem isStopped_of_top (h : tokens.parent? token = none) :
    tokens.isStopped token = tokens.isRaised token := by
  rw [isStopped, h, Bool.or_false]

/-- Below a parent a token is stopped by its own flag or with the parent. -/
theorem isStopped_of_below {above : Token} (h : tokens.parent? token = some above)
    (holder : above.index < token.index) :
    tokens.isStopped token = (tokens.isRaised token || tokens.isStopped above) := by
  rw [isStopped, h]
  dsimp only
  rw [if_pos holder]

/-! ## Stopping several tokens -/

/-- Stopping several tokens gives none away and takes none. -/
theorem inUse_stopAll (stopped : List Token) :
    (tokens.stopAll stopped).InUse token ↔ tokens.InUse token := by
  induction stopped generalizing tokens with
  | nil => rfl
  | cons first rest ih => exact ih.trans inUse_set

/-- Stopping several tokens leaves all others as they are. -/
theorem isRaised_stopAll_of_not_mem (tokens : Cancellation) {stopped : List Token}
    (h : token ∉ stopped) : (tokens.stopAll stopped).isRaised token = tokens.isRaised token := by
  induction stopped generalizing tokens with
  | nil => rfl
  | cons first rest ih =>
    rw [List.mem_cons, not_or] at h
    exact (ih (tokens.stop first) h.2).trans (isRaised_set_of_ne (Ne.symm h.1))

/-- Each of the tokens is stopped. -/
theorem isRaised_stopAll_of_mem {stopped : List Token} (hused : tokens.InUse token)
    (h : token ∈ stopped) : (tokens.stopAll stopped).isRaised token = true := by
  induction stopped generalizing tokens with
  | nil => cases h
  | cons first rest ih =>
    by_cases hrest : token ∈ rest
    · exact ih (inUse_set.mpr hused) hrest
    -- If it is not stopped again later, it stays as its own stop has left it.
    · obtain rfl := (List.mem_cons.mp h).resolve_right hrest
      exact (isRaised_stopAll_of_not_mem (tokens.stop token) hrest).trans (isRaised_stop hused)

end RecordChain.Cancellation
