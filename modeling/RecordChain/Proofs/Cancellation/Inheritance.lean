import Mathlib.Data.List.Induction
import RecordChain.Proofs.Cancellation

/-!
# How requests to stop are inherited

Whoever holds a token can clone it, make tokens below it, and request or withdraw a stop. This is
about all that can be done so, in any order and with any number of tokens, and says who is stopped in
the end by what was done alone.

* **`Act`**, **`Holders.act?`**: what can be done, and what it does to the tokens.
* **`lines`**: the flags that each token looks at, from its own one upward. They are fixed when the
  token is made.
* **`LastRequested`**: whether a request was the last thing that was done to a flag.
* **`inherits_after`**: a token is stopped if that is so of a flag in its line. So a request reaches all
  that is below, and nothing else.
-/

namespace RecordChain.Cancellation

/-- What can be done with tokens. Tokens are numbered in the order in which they are made. -/
inductive Act
  /-- A token with none above it is made. -/
  | root
  /-- A token is made below another one. -/
  | child (token : Nat)
  /-- One more token is made for the same requests as another one. -/
  | clone (token : Nat)
  /-- A stop is requested. -/
  | stop (token : Nat)
  /-- The request is withdrawn. -/
  | clear (token : Nat)
deriving DecidableEq

/-- The token that something is done with. -/
def Act.token? : Act → Option Nat
  | root => none
  | child token | clone token | stop token | clear token => some token

/-- The requests, and the tokens made so far in order. -/
structure Holders where
  tokens : Cancellation
  held : List Token

namespace Holders

/-- Takes in a token that was made. -/
def receive (holders : Holders) (made : Cancellation × Token) : Holders :=
  ⟨made.1, holders.held ++ [made.2]⟩

/-- What an act does, if there is the token that it is done with. -/
def act? (holders : Holders) : Act → Option Holders
  | .root => some (holders.receive holders.tokens.root)
  | .child token => holders.held[token]?.map fun parent =>
    holders.receive (holders.tokens.child parent)
  | .clone token => holders.held[token]?.map fun token => holders.receive (holders.tokens, token)
  | .stop token => holders.held[token]?.map fun token =>
    { holders with tokens := holders.tokens.stop token }
  | .clear token => holders.held[token]?.map fun token =>
    { holders with tokens := holders.tokens.clear token }

/-- What is there after some acts, if each is done with a token that is there. -/
def after? (acts : List Act) : Option Holders := acts.foldlM act? ⟨.empty, []⟩

/-- Whether the token with some number counts as stopped. -/
def isStopped (holders : Holders) (i : Nat) : Bool :=
  holders.held[i]?.any holders.tokens.isStopped

end Holders

/-! ## What was done -/

/-- The lines of tokens after one more act. A token below another one has a flag of its own and looks
at those of the other one too. A clone looks at the very same flags. -/
def Act.extend (lines : List (List Nat)) : Act → List (List Nat)
  | root => lines ++ [[lines.length]]
  | child token => lines ++ [lines.length :: lines.getD token []]
  | clone token => lines ++ [lines.getD token []]
  | stop _ | clear _ => lines

/-- The flags that each token looks at, its own one first and then those of the tokens above it. A
flag is named by the token that it was made with. -/
def lines (acts : List Act) : List (List Nat) := acts.foldl Act.extend []

/-- Whether a request with some token is one on the flag. -/
def Writes (lines : List (List Nat)) (token flag : Nat) : Prop :=
  ∃ above, lines[token]? = some (flag :: above)

/-- Whether a stop was requested on a flag, with whichever token, and has not been withdrawn since. -/
def LastRequested (acts : List Act) (flag : Nat) : Prop :=
  ∃ before token after, acts = before ++ .stop token :: after ∧ Writes (lines acts) token flag
    ∧ ∀ other, .clear other ∈ after → ¬ Writes (lines acts) other flag

/-- Whether a token was made from another one, as a clone or as a token below it, and so on. -/
inductive Derived (acts : List Act) (first : Nat) : Nat → Prop
  | self : Derived acts first first
  | child {before after : List Act} {token : Nat} (split : acts = before ++ .child token :: after)
    (rest : Derived acts first token) : Derived acts first (lines before).length
  | clone {before after : List Act} {token : Nat} (split : acts = before ++ .clone token :: after)
    (rest : Derived acts first token) : Derived acts first (lines before).length

/-! ## Lines -/

/-- What lines are like: a token has a flag of its own, and from any flag of its line on it is the line
of the token that this flag was made with. -/
structure Lined (lines : List (List Nat)) : Prop where
  own : ∀ (i : Nat) line, lines[i]? = some line → ∃ flag, Writes lines i flag
  upward : ∀ (i : Nat) line, lines[i]? = some line → ∀ flag above, flag :: above <:+ line →
    lines[flag]? = some (flag :: above)

section Lines

variable {acts : List Act} {act : Act} {all : List (List Nat)} {line above : List Nat}
  {token flag other : Nat}

/-- One more act extends the lines of the acts before. -/
theorem lines_concat (acts : List Act) (act : Act) :
    lines (acts ++ [act]) = act.extend (lines acts) :=
  List.foldl_append

/-- An act adds a line at most, and changes none. -/
theorem prefix_extend (all : List (List Nat)) (act : Act) : all <+: act.extend all := by
  cases act with
  | stop | clear => exact List.prefix_rfl
  | root | child | clone => exact List.prefix_append ..

/-- Lines stay as they are, whatever is done later. -/
theorem prefix_lines (before after : List Act) : lines before <+: lines (before ++ after) := by
  induction after using List.reverseRecOn with
  | nil => exact (List.append_nil before).symm ▸ List.prefix_rfl
  | append_singleton after act ih =>
    rw [← List.append_assoc, lines_concat]
    exact ih.trans (prefix_extend _ act)

theorem Writes.unique (h : Writes all token flag) (hother : Writes all token other) :
    flag = other := by
  obtain ⟨above, habove⟩ := h
  obtain ⟨above', habove'⟩ := hother
  exact (List.cons.inj (Option.some.inj (habove.symm.trans habove'))).1

/-- What a prefix holds is held in the same place by the whole. -/
theorem getElem?_mono {α : Type} {l m : List α} (h : l <+: m) {i : Nat} {x : α}
    (hx : l[i]? = some x) : m[i]? = some x := by
  obtain ⟨rest, rfl⟩ := h
  rw [List.getElem?_append_left (List.getElem?_eq_some_iff.mp hx).1]
  exact hx

theorem getElem?_eq_getD (h : token < all.length) : all[token]? = some (all.getD token []) := by
  rw [List.getD_eq_getElem?_getD, List.getElem?_eq_getElem h, Option.getD_some]

/-- What stands in a list is one of the earlier entries or the last one. -/
theorem getElem?_concat_cases {α : Type} {l : List α} {last x : α} {i : Nat}
    (h : (l ++ [last])[i]? = some x) : l[i]? = some x ∨ i = l.length ∧ x = last := by
  rcases Nat.lt_or_ge i l.length with hlt | hge
  · rw [List.getElem?_append_left hlt] at h
    exact Or.inl h
  · rw [List.getElem?_append_right hge, List.getElem?_singleton] at h
    split at h
    · next hzero => exact Or.inr ⟨by omega, (Option.some.inj h).symm⟩
    · cases h

namespace Lined

theorem nil : Lined [] := ⟨nofun, nofun⟩

/-- One more line, which goes on upward as the lines before it do. -/
theorem concat (h : Lined all) (hown : ∃ first rest, line = first :: rest)
    (hline : ∀ flag above, flag :: above <:+ line →
      (all ++ [line])[flag]? = some (flag :: above)) : Lined (all ++ [line]) := by
  refine ⟨fun i old hold => ?_, fun i old hold flag above hsuffix => ?_⟩
  · rcases getElem?_concat_cases hold with hi | ⟨rfl, rfl⟩
    · obtain ⟨flag, above, habove⟩ := h.own i old hi
      exact ⟨flag, above, getElem?_mono (List.prefix_append ..) habove⟩
    · obtain ⟨first, rest, rfl⟩ := hown
      exact ⟨first, rest, hold⟩
  · rcases getElem?_concat_cases hold with hi | ⟨rfl, rfl⟩
    · exact getElem?_mono (List.prefix_append ..) (h.upward i old hi flag above hsuffix)
    · exact hline flag above hsuffix

/-- Every act on tokens that are there keeps the lines well-formed. -/
theorem extend (h : Lined all) (hact : ∀ token ∈ act.token?, token < all.length) :
    Lined (act.extend all) := by
  cases act with
  | stop | clear => exact h
  | root =>
    refine h.concat ⟨_, [], rfl⟩ fun flag above hsuffix => ?_
    obtain ⟨rfl, rfl⟩ : flag = all.length ∧ above = [] := by
      simpa [List.suffix_cons_iff] using hsuffix
    exact List.getElem?_concat_length
  | child token =>
    have hparent := getElem?_eq_getD (hact token rfl)
    refine h.concat ⟨_, _, rfl⟩ fun flag above hsuffix => ?_
    rcases List.suffix_cons_iff.mp hsuffix with heq | hbelow
    · obtain ⟨rfl, rfl⟩ := List.cons.inj heq
      exact List.getElem?_concat_length
    · exact getElem?_mono (List.prefix_append ..) (h.upward token _ hparent flag above hbelow)
  | clone token =>
    have hsame := getElem?_eq_getD (hact token rfl)
    obtain ⟨flag, above, habove⟩ := h.own token _ hsame
    refine h.concat ⟨flag, above, Option.some.inj (hsame.symm.trans habove)⟩ ?_
    intro flag above hsuffix
    exact getElem?_mono (List.prefix_append ..) (h.upward token _ hsame flag above hsuffix)

/-- From a flag of a line on it is the line that the flag was made with. -/
theorem suffix_of_mem (h : Lined all) {i : Nat} (hline : all[i]? = some line) (hflag : flag ∈ line) :
    ∃ above, all[flag]? = some (flag :: above) ∧ flag :: above <:+ line := by
  obtain ⟨below, above, rfl⟩ := List.append_of_mem hflag
  have hsuffix := List.suffix_append below (flag :: above)
  exact ⟨above, h.upward i _ hline flag above hsuffix, hsuffix⟩

/-- Nothing above a flag looks at it. -/
theorem not_mem_above (h : Lined all) (hown : all[flag]? = some (flag :: above)) :
    flag ∉ above := by
  intro hmem
  obtain ⟨below, rest, rfl⟩ := List.append_of_mem hmem
  have hline := h.upward flag _ hown flag rest
    ((List.suffix_append below _).trans (List.suffix_cons ..))
  have hlength := congrArg List.length (Option.some.inj (hown.symm.trans hline))
  simp only [List.length_cons, List.length_append] at hlength
  omega

/-- Nor does what lies beside it, below the same tokens. -/
theorem not_mem_beside (h : Lined all) (hown : all[flag]? = some (flag :: above)) {i : Nat}
    (hline : all[i]? = some line) (hbeside : other :: above <:+ line) (hne : other ≠ flag) :
    flag ∉ line := by
  intro hmem
  obtain ⟨rest, hrest, hsuffix⟩ := h.suffix_of_mem hline hmem
  obtain rfl : rest = above := (List.cons.inj (Option.some.inj (hrest.symm.trans hown))).2
  -- Both are the end of the line and equally long.
  have heq := (List.suffix_of_suffix_length_le hbeside hsuffix (by simp)).eq_of_length (by simp)
  exact hne (List.cons.inj heq).1

end Lined

/-! ## The last thing done to a flag -/

/-- Whether an act is done with tokens that there are. -/
def Named (acts : List Act) : Prop :=
  ∀ act ∈ acts, ∀ token ∈ act.token?, token < (lines acts).length

/-- Which flag a token has does not change once the token is there. -/
theorem writes_prefix {more : List (List Nat)} (h : all <+: more) (htoken : token < all.length) :
    Writes more token flag ↔ Writes all token flag := by
  obtain ⟨rest, rfl⟩ := h
  unfold Writes
  rw [List.getElem?_append_left htoken]

/-- One of some acts is the last one or is among those before it. -/
theorem concat_eq_cases {before after done : List Act} {last some : Act}
    (h : done ++ [last] = before ++ some :: after) :
    (done = before ∧ last = some ∧ after = [])
      ∨ ∃ rest, after = rest ++ [last] ∧ done = before ++ some :: rest := by
  induction after using List.reverseRecOn with
  | nil =>
    obtain ⟨hbefore, hlast⟩ := List.append_inj' h rfl
    exact Or.inl ⟨hbefore, List.singleton_inj.mp hlast, rfl⟩
  | append_singleton rest final =>
    rw [← List.cons_append, ← List.append_assoc] at h
    obtain ⟨hbefore, hlast⟩ := List.append_inj' h rfl
    exact Or.inr ⟨rest, by rw [List.singleton_inj.mp hlast], hbefore⟩

/-- What is not done to a flag leaves the last thing done to it as it is. -/
theorem lastRequested_concat (hnamed : Named acts)
    (hact : ∀ token, act = .stop token ∨ act = .clear token →
      ¬ Writes (lines (acts ++ [act])) token flag) :
    LastRequested (acts ++ [act]) flag ↔ LastRequested acts flag := by
  have hwrites : ∀ done ∈ acts, ∀ token ∈ done.token?,
      (Writes (lines (acts ++ [act])) token flag ↔ Writes (lines acts) token flag) :=
    fun done hdone token htoken =>
      writes_prefix (prefix_lines acts [act]) (hnamed done hdone token htoken)
  constructor
  · rintro ⟨before, token, after, hsplit, htoken, hafter⟩
    rcases concat_eq_cases hsplit with ⟨-, rfl, -⟩ | ⟨rest, rfl, rfl⟩
    · exact absurd htoken (hact token (Or.inl rfl))
    · refine ⟨before, token, rest, rfl, (hwrites (.stop token) (by simp) token rfl).mp htoken, ?_⟩
      intro other hother
      rw [← hwrites (.clear other) (by simp [hother]) other rfl]
      exact hafter other (List.mem_append_left _ hother)
  · rintro ⟨before, token, after, rfl, htoken, hafter⟩
    refine ⟨before, token, after ++ [act], by simp,
      (hwrites (.stop token) (by simp) token rfl).mpr htoken, fun other hother => ?_⟩
    rcases List.mem_append.mp hother with hold | hnew
    · rw [hwrites (.clear other) (by simp [hold]) other rfl]
      exact hafter other hold
    · exact hact other (Or.inr (List.mem_singleton.mp hnew).symm)

/-- After a request to stop, the flag is requested. -/
theorem lastRequested_stop (h : Writes (lines acts) token flag) :
    LastRequested (acts ++ [.stop token]) flag :=
  ⟨acts, token, [], rfl, by rwa [lines_concat], nofun⟩

/-- After its request was withdrawn it is not. -/
theorem not_lastRequested_clear (h : Writes (lines acts) token flag) :
    ¬ LastRequested (acts ++ [.clear token]) flag := by
  rintro ⟨before, other, after, hsplit, -, hafter⟩
  rcases concat_eq_cases hsplit with ⟨-, ⟨⟩, -⟩ | ⟨rest, rfl, -⟩
  exact hafter token (by simp) (by rwa [lines_concat])

/-- Nothing was done to a flag that is not there. -/
theorem not_lastRequested_fresh (hlined : Lined (lines acts))
    (hflag : (lines acts).length ≤ flag) : ¬ LastRequested acts flag := by
  rintro ⟨before, token, after, rfl, ⟨above, hline⟩, -⟩
  have hown := hlined.upward token _ hline flag above List.suffix_rfl
  exact Nat.not_lt.mpr hflag (List.getElem?_eq_some_iff.mp hown).1

end Lines

/-! ## The tokens that are there -/

/-- A token has a line: going upward from it one meets the tokens of the flags in turn. -/
inductive Hangs (holders : Holders) : List Nat → Token → Prop
  | root {flag : Nat} {token : Token} (own : holders.held[flag]? = some token)
    (top : holders.tokens.parent? token = none) : Hangs holders [flag] token
  | child {flag : Nat} {above : List Nat} {token parent : Token}
    (own : holders.held[flag]? = some token) (below : holders.tokens.parent? token = some parent)
    (older : parent.index < token.index) (rest : Hangs holders above parent) :
    Hangs holders (flag :: above) token

namespace Hangs

variable {holders after : Holders} {line above : List Nat} {token : Token} {flag : Nat}

/-- A line still hangs on a token if the tokens of its flags and their parents are the same. -/
theorem mono (h : Hangs holders line token)
    (hheld : ∀ (i : Nat) token, holders.held[i]? = some token →
      after.held[i]? = some token ∧ after.tokens.parent? token = holders.tokens.parent? token) :
    Hangs after line token := by
  induction h with
  | root own top =>
    obtain ⟨hown, hparent⟩ := hheld _ _ own
    exact .root hown (hparent.trans top)
  | child own below older _ ih =>
    obtain ⟨hown, hparent⟩ := hheld _ _ own
    exact .child hown (hparent.trans below) older ih

/-- The first flag of a line is that of the token itself. -/
theorem own (h : Hangs holders (flag :: above) token) : holders.held[flag]? = some token := by
  cases h with
  | root own => exact own
  | child own => exact own

/-- A token counts as stopped if one of the flags in its line is set. -/
theorem isStopped_iff (h : Hangs holders line token) :
    holders.tokens.isStopped token
      ↔ ∃ flag ∈ line, ∃ owner, holders.held[flag]? = some owner ∧ holders.tokens.isRaised owner := by
  induction h with
  | root own top => simp [isStopped_of_top top, own]
  | child own below older _ ih =>
    rw [isStopped_of_below below older, Bool.or_eq_true, ih]
    simp [own]

end Hangs

/-- How the tokens that are there stand to what was done. -/
structure Kept (acts : List Act) (holders : Holders) : Prop where
  named : Named acts
  lined : Lined (lines acts)
  length_eq : holders.held.length = (lines acts).length
  inUse : ∀ (i : Nat) token, holders.held[i]? = some token → holders.tokens.InUse token
  hangs : ∀ (i : Nat) token line, holders.held[i]? = some token → (lines acts)[i]? = some line →
    Hangs holders line token
  /-- Different flags are flags of different tokens. -/
  distinct : ∀ flag other token, Writes (lines acts) flag flag → Writes (lines acts) other other →
    holders.held[flag]? = some token → holders.held[other]? = some token → flag = other
  /-- A flag is what the last thing done to it has made of it. -/
  raised_iff : ∀ flag token, Writes (lines acts) flag flag → holders.held[flag]? = some token →
    (holders.tokens.isRaised token ↔ LastRequested acts flag)

section Kept

variable {acts : List Act} {holders next : Holders} {act : Act} {i : Nat} {token : Token}

theorem kept_nil : Kept [] ⟨.empty, []⟩ where
  named := nofun
  lined := .nil
  length_eq := rfl
  inUse := nofun
  hangs := nofun
  distinct := nofun
  raised_iff := nofun

namespace Kept

/-- A token that somebody holds has a line. -/
theorem token_lt (h : Kept acts holders) (hi : holders.held[i]? = some token) :
    i < (lines acts).length :=
  h.length_eq ▸ (List.getElem?_eq_some_iff.mp hi).1

/-- A token has the flag that it writes. -/
theorem held_eq (h : Kept acts holders) {flag : Nat} (hwrites : Writes (lines acts) i flag)
    (hi : holders.held[i]? = some token) :
    holders.held[flag]? = some token ∧ Writes (lines acts) flag flag := by
  obtain ⟨above, hline⟩ := hwrites
  exact ⟨(h.hangs i token _ hi hline).own, above, h.lined.upward i _ hline flag above List.suffix_rfl⟩

/-- An act on tokens that are there names no others. -/
theorem named_concat (h : Kept acts holders)
    (hact : ∀ token ∈ act.token?, token < (lines acts).length) : Named (acts ++ [act]) := by
  intro done hdone token htoken
  refine Nat.lt_of_lt_of_le ?_ (prefix_lines acts [act]).length_le
  rcases List.mem_append.mp hdone with hold | hnew
  · exact h.named done hold token htoken
  · exact hact token (List.mem_singleton.mp hnew ▸ htoken)

/-- The tokens that write a flag are one and the same. -/
theorem writes_of_held (h : Kept acts holders) {flag : Nat} (hflag : Writes (lines acts) flag flag)
    (hheld : holders.held[flag]? = some token) (hi : holders.held[i]? = some token) :
    Writes (lines acts) i flag := by
  obtain ⟨own, above, hline⟩ := h.lined.own i _ (List.getElem?_eq_getElem (h.token_lt hi))
  obtain ⟨hown, hself⟩ := h.held_eq ⟨above, hline⟩ hi
  exact h.distinct flag own token hflag hself hheld hown ▸ ⟨above, hline⟩

/-- A request is made or withdrawn. -/
theorem write (h : Kept acts holders) (hi : holders.held[i]? = some token) {raised : Bool}
    (hact : act = if raised then .stop i else .clear i) :
    Kept (acts ++ [act]) { holders with tokens := holders.tokens.set token raised } := by
  have hlines : lines (acts ++ [act]) = lines acts := by
    rw [lines_concat, hact]
    cases raised <;> rfl
  have hnamed : ∀ token ∈ act.token?, token < (lines acts).length := by
    intro other hother
    obtain rfl : i = other := by
      rw [hact] at hother
      cases raised <;> exact Option.some.inj hother
    exact h.token_lt hi
  refine ⟨h.named_concat hnamed, hlines ▸ h.lined, h.length_eq.trans (by rw [hlines]), ?_, ?_, ?_, ?_⟩
  · exact fun other held hheld => inUse_set.mpr (h.inUse other held hheld)
  · intro other held line hheld hline
    rw [hlines] at hline
    exact (h.hangs other held line hheld hline).mono fun _ _ hsame => ⟨hsame, parent?_set ..⟩
  · rw [hlines]
    exact h.distinct
  · intro flag held hflag hheld
    rw [hlines] at hflag
    by_cases hwrites : Writes (lines acts) i flag
    -- The token has this flag itself, and the act is the last thing done to it.
    · obtain rfl : held = token := Option.some.inj (hheld.symm.trans (h.held_eq hwrites hi).1)
      rw [isRaised_set_self (h.inUse i held hi), hact]
      cases raised with
      | true => exact iff_of_true rfl (lastRequested_stop hwrites)
      | false => exact iff_of_false nofun (not_lastRequested_clear hwrites)
    · have hne : token ≠ held := by
        rintro rfl
        exact hwrites (h.writes_of_held hflag hheld hi)
      have hother : ∀ token, act = .stop token ∨ act = .clear token →
          ¬ Writes (lines (acts ++ [act])) token flag := by
        intro other hother
        obtain rfl : i = other := by
          rw [hact] at hother
          cases raised <;> simpa using hother
        rwa [hlines]
      rw [isRaised_set_of_ne hne, lastRequested_concat h.named hother]
      exact h.raised_iff flag held hflag hheld

/-- A token and its line were there before, or are the new ones. -/
theorem receive_cases (h : Kept acts holders) {received held : Token} {newLine line : List Nat}
    (hheld : (holders.held ++ [received])[i]? = some held)
    (hline : (lines acts ++ [newLine])[i]? = some line) :
    (holders.held[i]? = some held ∧ (lines acts)[i]? = some line)
      ∨ (i = (lines acts).length ∧ held = received ∧ line = newLine) := by
  rcases getElem?_concat_cases hheld with hold | ⟨hi, rfl⟩
  · rw [List.getElem?_append_left (h.token_lt hold)] at hline
    exact Or.inl ⟨hold, hline⟩
  · rw [h.length_eq] at hi
    rw [hi, List.getElem?_concat_length] at hline
    exact Or.inr ⟨hi, rfl, (Option.some.inj hline).symm⟩

/-- A flag and its token were there before, or are the new ones. -/
theorem receive_cases_own (h : Kept acts holders) {received held : Token} {newLine : List Nat}
    {flag : Nat} (hwrites : Writes (lines acts ++ [newLine]) flag flag)
    (hheld : (holders.held ++ [received])[flag]? = some held) :
    (Writes (lines acts) flag flag ∧ holders.held[flag]? = some held)
      ∨ (flag = (lines acts).length ∧ held = received
        ∧ ∃ above, newLine = (lines acts).length :: above) := by
  obtain ⟨above, habove⟩ := hwrites
  rcases h.receive_cases hheld habove with ⟨hbefore, hsame⟩ | ⟨rfl, hsame, hline⟩
  · exact Or.inl ⟨⟨above, hsame⟩, hbefore⟩
  · exact Or.inr ⟨rfl, hsame, above, hline.symm⟩

/-- A token is taken in that has some line. Either it is a clone and has no flag of its own, or it is new
and nothing has been done to its flag. -/
theorem receive (h : Kept acts holders) {tokens : Cancellation} {received : Token}
    {newLine : List Nat} (hlines : act.extend (lines acts) = lines acts ++ [newLine])
    (hnamed : ∀ token ∈ act.token?, token < (lines acts).length)
    (hact : ∀ token, ¬ (act = .stop token ∨ act = .clear token))
    (hkept : ∀ (j : Nat) held, holders.held[j]? = some held → tokens.InUse held
      ∧ tokens.parent? held = holders.tokens.parent? held
      ∧ tokens.isRaised held = holders.tokens.isRaised held)
    (hused : tokens.InUse received)
    (hhangs : Hangs (holders.receive (tokens, received)) newLine received)
    (hnew : ∀ above, newLine = (lines acts).length :: above →
      tokens.isRaised received = false ∧ ∀ j : Nat, holders.held[j]? ≠ some received) :
    Kept (acts ++ [act]) (holders.receive (tokens, received)) := by
  have hlined := lines_concat acts act ▸ h.lined.extend hnamed
  rw [← lines_concat] at hlines
  refine ⟨h.named_concat hnamed, hlined, ?_, ?_, ?_, ?_, ?_⟩
  · rw [hlines, Holders.receive, List.length_append, List.length_append, h.length_eq]
    rfl
  · intro j held hheld
    rcases getElem?_concat_cases hheld with hbefore | ⟨-, rfl⟩
    · exact (hkept j held hbefore).1
    · exact hused
  · intro j held line hheld hline
    rw [hlines] at hline
    rcases h.receive_cases hheld hline with ⟨hbefore, hsame⟩ | ⟨-, rfl, rfl⟩
    · exact (h.hangs j held line hbefore hsame).mono fun k token htoken =>
        ⟨getElem?_mono (List.prefix_append ..) htoken, (hkept k token htoken).2.1⟩
    · exact hhangs
  · intro flag other held hflag hother hflagHeld hotherHeld
    rw [hlines] at hflag hother
    rcases h.receive_cases_own hflag hflagHeld with ⟨hflag, hbefore⟩ | ⟨rfl, rfl, above, hline⟩
    · rcases h.receive_cases_own hother hotherHeld with ⟨hother, hsame⟩ | ⟨-, rfl, above, hline⟩
      · exact h.distinct flag other held hflag hother hbefore hsame
      · exact absurd hbefore ((hnew above hline).2 flag)
    · rcases h.receive_cases_own hother hotherHeld with ⟨-, hsame⟩ | ⟨rfl, -⟩
      · exact absurd hsame ((hnew above hline).2 other)
      · rfl
  · intro flag held hflag hheld
    rw [hlines] at hflag
    rw [lastRequested_concat h.named fun token h => absurd h (hact token)]
    rcases h.receive_cases_own hflag hheld with ⟨hflag, hbefore⟩ | ⟨rfl, rfl, above, hline⟩
    · exact (hkept flag held hbefore).2.2 ▸ h.raised_iff flag held hflag hbefore
    · refine iff_of_false ?_ (not_lastRequested_fresh h.lined (Nat.le_refl _))
      exact Bool.eq_false_iff.mp (hnew above hline).1

/-- A token is made, below another one or below none. -/
theorem make (h : Kept acts holders) {parent : Option Token} {above : List Nat}
    (hlines : act.extend (lines acts) = lines acts ++ [(lines acts).length :: above])
    (hnamed : ∀ token ∈ act.token?, token < (lines acts).length)
    (hact : ∀ token, ¬ (act = .stop token ∨ act = .clear token))
    (habove : (parent = none ∧ above = [])
      ∨ ∃ token, parent = some token ∧ holders.tokens.InUse token ∧ Hangs holders above token) :
    Kept (acts ++ [act]) (holders.receive (holders.tokens.fresh parent)) := by
  have hkept : ∀ (j : Nat) held, holders.held[j]? = some held →
      (holders.tokens.fresh parent).1.InUse held
        ∧ (holders.tokens.fresh parent).1.parent? held = holders.tokens.parent? held
        ∧ (holders.tokens.fresh parent).1.isRaised held = holders.tokens.isRaised held := by
    intro j held hheld
    have hused := h.inUse j held hheld
    exact ⟨inUse_fresh hused, parent?_fresh hused, isRaised_fresh hused⟩
  refine h.receive hlines hnamed hact hkept (inUse_fresh_self ..) ?_ fun _ _ =>
    ⟨isRaised_fresh_self .., fun j hj =>
      fresh_ne (h.inUse j _ hj) (rfl : (holders.tokens.fresh parent).2 = _)⟩
  have hown : (holders.held ++ [(holders.tokens.fresh parent).2])[(lines acts).length]?
      = some (holders.tokens.fresh parent).2 := by
    rw [← h.length_eq]
    exact List.getElem?_concat_length
  have hself := parent?_fresh_self holders.tokens parent
  rcases habove with ⟨rfl, rfl⟩ | ⟨token, rfl, hused, hrest⟩
  · exact .root hown hself
  · exact .child hown hself hused (hrest.mono fun j held hheld =>
      ⟨getElem?_mono (List.prefix_append ..) hheld, (hkept j held hheld).2.1⟩)

/-- A token is cloned. -/
theorem clone (h : Kept acts holders) (hi : holders.held[i]? = some token) :
    Kept (acts ++ [.clone i]) (holders.receive (holders.tokens, token)) := by
  have hline := getElem?_eq_getD (h.token_lt hi)
  refine h.receive rfl ?_ (by simp)
    (fun j held hheld => ⟨h.inUse j held hheld, rfl, rfl⟩) (h.inUse i token hi) ?_ ?_
  · rintro _ ⟨⟩
    exact h.token_lt hi
  · exact (h.hangs i token _ hi hline).mono fun j held hheld =>
      ⟨getElem?_mono (List.prefix_append ..) hheld, rfl⟩
  · -- It has the flag of the token that it is a clone of.
    intro above heq
    rw [heq] at hline
    have hflag := h.lined.upward i _ hline _ above List.suffix_rfl
    exact absurd (List.getElem?_eq_some_iff.mp hflag).1 (Nat.lt_irrefl _)

/-- Whatever is done next. -/
theorem step (h : Kept acts holders) (hact : holders.act? act = some next) :
    Kept (acts ++ [act]) next := by
  cases act with
  | root =>
    obtain rfl := Option.some.inj hact
    exact h.make rfl nofun (by simp) (Or.inl ⟨rfl, rfl⟩)
  | child i =>
    obtain ⟨parent, hi, rfl⟩ := Option.map_eq_some_iff.mp hact
    refine h.make rfl (fun _ htoken => ?_) (by simp) (Or.inr ⟨parent, rfl, h.inUse i parent hi,
      h.hangs i parent _ hi (getElem?_eq_getD (h.token_lt hi))⟩)
    exact Option.some.inj htoken ▸ h.token_lt hi
  | clone i =>
    obtain ⟨token, hi, rfl⟩ := Option.map_eq_some_iff.mp hact
    exact h.clone hi
  | stop i =>
    obtain ⟨token, hi, rfl⟩ := Option.map_eq_some_iff.mp hact
    exact h.write hi rfl
  | clear i =>
    obtain ⟨token, hi, rfl⟩ := Option.map_eq_some_iff.mp hact
    exact h.write hi rfl

end Kept

/-- One more act is done to what the acts before have made. -/
theorem after?_concat (acts : List Act) (act : Act) :
    Holders.after? (acts ++ [act]) = (Holders.after? acts).bind (·.act? act) := by
  simp [Holders.after?, List.foldlM_append]

/-- What the acts tell of the tokens is kept by all of them. Induction on the acts. -/
theorem kept_after (h : Holders.after? acts = some holders) : Kept acts holders := by
  induction acts using List.reverseRecOn generalizing holders with
  | nil =>
    obtain rfl := Option.some.inj h
    exact kept_nil
  | append_singleton acts act ih =>
    rw [after?_concat] at h
    obtain ⟨before, hbefore, hact⟩ := Option.bind_eq_some_iff.mp h
    exact (ih hbefore).step hact

/-! ## Who is stopped -/

/-- A token is stopped if a request was the last thing done to a flag of its line. -/
theorem Kept.isStopped_iff (h : Kept acts holders) (i : Nat) :
    holders.isStopped i
      ↔ ∃ line, (lines acts)[i]? = some line ∧ ∃ flag ∈ line, LastRequested acts flag := by
  unfold Holders.isStopped
  cases hi : holders.held[i]? with
  | none =>
    have hline : (lines acts)[i]? = none := by
      rw [List.getElem?_eq_none_iff, ← h.length_eq]
      exact List.getElem?_eq_none_iff.mp hi
    simp [hline]
  | some token =>
    have hline := getElem?_eq_getD (h.token_lt hi)
    rw [Option.any_some, (h.hangs i token _ hi hline).isStopped_iff]
    -- Each flag of the line has a token of its own, and is what was last done to it.
    have hflag : ∀ flag ∈ (lines acts).getD i [], ((∃ owner, holders.held[flag]? = some owner
        ∧ holders.tokens.isRaised owner) ↔ LastRequested acts flag) := by
      intro flag hmem
      obtain ⟨above, hown, -⟩ := h.lined.suffix_of_mem hline hmem
      have hlt : flag < holders.held.length := h.length_eq ▸ (List.getElem?_eq_some_iff.mp hown).1
      have howner := List.getElem?_eq_getElem hlt
      rw [← h.raised_iff flag _ ⟨above, hown⟩ howner]
      simp [howner]
    rw [hline]
    constructor
    · rintro ⟨flag, hmem, howner⟩
      exact ⟨_, rfl, flag, hmem, (hflag flag hmem).mp howner⟩
    · rintro ⟨_, ⟨⟩, flag, hmem, hlast⟩
      exact ⟨flag, hmem, (hflag flag hmem).mpr hlast⟩

/-- What was done up to some act left what this act was done with. -/
theorem exists_kept_before {before rest : List Act}
    (h : Holders.after? (before ++ act :: rest) = some holders) :
    ∃ mid after, Kept before mid ∧ mid.act? act = some after := by
  rw [Holders.after?, List.foldlM_append] at h
  obtain ⟨mid, hmid, h⟩ := Option.bind_eq_some_iff.mp h
  rw [List.foldlM_cons] at h
  obtain ⟨after, hafter, -⟩ := Option.bind_eq_some_iff.mp h
  exact ⟨mid, after, kept_after hmid, hafter⟩

/-- A token made from another one looks at the flags of that one, below which it may have one of its
own. -/
theorem exists_line_of_made {before rest : List Act} {origin : Nat}
    (h : Holders.after? (before ++ act :: rest) = some holders)
    (hmade : act = .child origin ∨ act = .clone origin) :
    ∃ below line, (lines (before ++ act :: rest))[origin]? = some line
      ∧ (lines (before ++ act :: rest))[(lines before).length]? = some (below ++ line) := by
  obtain ⟨mid, after, hkept, hact⟩ := exists_kept_before h
  have hlt : origin < (lines before).length := by
    rcases hmade with rfl | rfl <;>
      exact hkept.token_lt (Option.map_eq_some_iff.mp hact).choose_spec.1
  have hprefix : lines (before ++ [act]) <+: lines (before ++ act :: rest) := by
    simpa using prefix_lines (before ++ [act]) rest
  rw [lines_concat] at hprefix
  have horigin := getElem?_mono ((prefix_extend _ act).trans hprefix) (getElem?_eq_getD hlt)
  rcases hmade with rfl | rfl
  · exact ⟨[_], _, horigin, getElem?_mono hprefix List.getElem?_concat_length⟩
  · exact ⟨[], _, horigin, getElem?_mono hprefix List.getElem?_concat_length⟩

/-- All that was derived from a token has the flag of the token in its line. -/
theorem mem_line_of_derived (h : Holders.after? acts = some holders) {first : Nat}
    (hfirst : Writes (lines acts) first first) (hderived : Derived acts first i) :
    ∃ line, (lines acts)[i]? = some line ∧ first ∈ line := by
  have hmade : ∀ {act : Act} {before rest : List Act} {origin : Nat},
      acts = before ++ act :: rest → (act = .child origin ∨ act = .clone origin) →
      (∃ line, (lines acts)[origin]? = some line ∧ first ∈ line) →
      ∃ line, (lines acts)[(lines before).length]? = some line ∧ first ∈ line := by
    rintro act before rest origin rfl hact ⟨line, hline, hmem⟩
    obtain ⟨below, above, horigin, hnew⟩ := exists_line_of_made h hact
    obtain rfl := Option.some.inj (hline.symm.trans horigin)
    exact ⟨_, hnew, List.mem_append_right _ hmem⟩
  induction hderived with
  | self =>
    obtain ⟨above, hown⟩ := hfirst
    exact ⟨_, hown, List.mem_cons_self⟩
  | child split _ ih => exact hmade split (Or.inl rfl) ih
  | clone split _ ih => exact hmade split (Or.inr rfl) ih

/-- What stands beside a flag, which has the flags `above` over it: the tokens above it, and those that
have another flag below the same tokens, with all that is below them. -/
inductive Beside (flag : Nat) (above : List Nat) : List Nat → Prop
  | upward {line : List Nat} (suffix : line <:+ above) : Beside flag above line
  | sideways {line : List Nat} {sibling : Nat} (ne : sibling ≠ flag)
    (suffix : sibling :: above <:+ line) : Beside flag above line

/-- A line beside a flag does not have it. -/
theorem Lined.not_mem_of_beside {all : List (List Nat)} (h : Lined all) {flag : Nat}
    {line above : List Nat} (hown : all[flag]? = some (flag :: above))
    (hline : all[i]? = some line) (hbeside : Beside flag above line) : flag ∉ line := by
  cases hbeside with
  | upward suffix => exact fun hmem => h.not_mem_above hown (suffix.subset hmem)
  | sideways ne suffix => exact h.not_mem_beside hown hline suffix ne

/-- How requests are inherited. -/
structure Inherits (acts : List Act) (holders : Holders) : Prop where
  /-- Everything can be done next with a token that was made. -/
  goes_on : ∀ act, (holders.act? act).isSome ↔ ∀ token ∈ act.token?, token < (lines acts).length
  /-- A token is stopped if a request was the last thing done to its own flag or to that of a token
  above it. -/
  stopped_iff : ∀ i, holders.isStopped i
    ↔ ∃ line, (lines acts)[i]? = some line ∧ ∃ flag ∈ line, LastRequested acts flag
  /-- As long as a request stands, all tokens are stopped that were or are made from the one that it was
  made on. -/
  below : ∀ first i, LastRequested acts first → Derived acts first i → holders.isStopped i
  /-- Whatever is done next changes nothing for tokens that do not look at the flag of the token that it
  is done with. -/
  apart : ∀ act next, holders.act? act = some next → ∀ i line, (lines acts)[i]? = some line →
    (∀ token ∈ act.token?, ∀ flag, Writes (lines acts) token flag → flag ∉ line) →
    next.isStopped i = holders.isStopped i
  /-- The tokens above and those beside, with all that is below them, are such tokens. -/
  beside : ∀ act next, holders.act? act = some next → ∀ token ∈ act.token?, ∀ flag above,
    (lines acts)[token]? = some (flag :: above) → ∀ i line, (lines acts)[i]? = some line →
    Beside flag above line → next.isStopped i = holders.isStopped i

/-- An act can be done if the tokens that it names are there. -/
theorem Kept.isSome_act? (h : Kept acts holders) (act : Act) :
    (holders.act? act).isSome ↔ ∀ token ∈ act.token?, token < (lines acts).length := by
  rw [← h.length_eq]
  cases act <;> simp [Holders.act?, Act.token?]

/-- An act leaves all alone that have none of the flags it writes in their line. -/
theorem Kept.apart (h : Kept acts holders) (hact : holders.act? act = some next)
    {line : List Nat} (hline : (lines acts)[i]? = some line)
    (hline' : ∀ token ∈ act.token?, ∀ flag, Writes (lines acts) token flag → flag ∉ line) :
    next.isStopped i = holders.isStopped i := by
  have hsame : (lines (acts ++ [act]))[i]? = some line :=
    getElem?_mono (prefix_lines acts [act]) hline
  have hlast : ∀ flag ∈ line,
      (LastRequested (acts ++ [act]) flag ↔ LastRequested acts flag) := by
    intro flag hmem
    refine lastRequested_concat h.named ?_
    rintro token (rfl | rfl) hwrites
    all_goals
      rw [lines_concat] at hwrites
      exact hline' token rfl flag hwrites hmem
  rw [Bool.eq_iff_iff, (h.step hact).isStopped_iff, h.isStopped_iff, hsame, hline]
  constructor
  · rintro ⟨_, ⟨⟩, flag, hmem, hflag⟩
    exact ⟨line, rfl, flag, hmem, (hlast flag hmem).mp hflag⟩
  · rintro ⟨_, ⟨⟩, flag, hmem, hflag⟩
    exact ⟨line, rfl, flag, hmem, (hlast flag hmem).mpr hflag⟩

/-- **Requests to stop are inherited downward, and nowhere else.** -/
theorem inherits_after (h : Holders.after? acts = some holders) : Inherits acts holders := by
  have hkept := kept_after h
  refine ⟨hkept.isSome_act?, hkept.isStopped_iff, ?_,
    fun act next hact i line => hkept.apart hact, ?_⟩
  · intro first i hfirst hderived
    have hrequested := hfirst
    obtain ⟨before, token, after, -, ⟨above, htoken⟩, -⟩ := hrequested
    have hown : Writes (lines acts) first first :=
      ⟨above, hkept.lined.upward token _ htoken first above List.suffix_rfl⟩
    obtain ⟨line, hline, hmem⟩ := mem_line_of_derived h hown hderived
    exact (hkept.isStopped_iff i).mpr ⟨line, hline, first, hmem, hfirst⟩
  · intro act next hact token htoken flag above hown i line hline hbeside
    refine hkept.apart hact hline fun other hother own hwrites => ?_
    obtain rfl := Option.some.inj (Option.mem_def.mp htoken ▸ hother)
    obtain rfl := hwrites.unique ⟨above, hown⟩
    exact hkept.lined.not_mem_of_beside
      (hkept.lined.upward _ _ hown _ above List.suffix_rfl) hline hbeside

end Kept

/-- A stop is requested with a clone of a first token and withdrawn from the token below, and then a
token is made below that. -/
def family : List Act := [.root, .child 0, .clone 0, .stop 2, .clear 1, .child 1]

/-- A family of tokens in which a request to stop reaches a grandchild. -/
theorem inherits_after_family :
    ∃ holders, Holders.after? family = some holders ∧ Inherits family holders
      ∧ holders.isStopped 3 := by
  obtain ⟨holders, hafter⟩ : ∃ holders, Holders.after? family = some holders := ⟨_, rfl⟩
  have hinherits := inherits_after hafter
  have hrequested : LastRequested family 0 :=
    ⟨[.root, .child 0, .clone 0], 2, [.clear 1, .child 1], rfl, ⟨[], rfl⟩, by
      simp [Writes, lines, family, Act.extend]⟩
  have hchild : Derived family 0 1 := @Derived.child _ _ [.root] _ _ rfl .self
  have hderived : Derived family 0 3 :=
    @Derived.child _ _ [.root, .child 0, .clone 0, .stop 2, .clear 1] _ _ rfl hchild
  exact ⟨holders, hafter, hinherits, hinherits.below 0 3 hrequested hderived⟩

end RecordChain.Cancellation
