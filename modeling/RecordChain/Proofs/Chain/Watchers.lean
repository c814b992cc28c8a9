import RecordChain.Proofs.Cancellation
import RecordChain.Proofs.Chain.HeadHistory

/-!
# Who watches the head

Whoever mines on a head wants to hear of it when the head moves. The chain takes a token for that,
but only if the head is still the one that the caller has seen, and stops the token with the next
block that moves the head. As the chain forgets its tokens then, those that it holds are always the
ones that were registered on the present head.

* **`Chain.Move`**, **`Chain.run`**: the calls that change a chain, in any order.
* **`Chain.Steady`**: the head stays what it is during some calls.
* **`Chain.Sound.insert_watchers`**: an insertion stops all watchers if it moves the head, and else
  none.
* **`Chain.Built.steady_run`**: as long as the head stays nobody is stopped, and who registers is
  added.
* **`watched_run`**: every call is answered rightly, every watcher is stopped when the head moves
  and not before, and the chain holds the watchers of its head.
-/

namespace RecordChain

open ForkTree Validator

variable {economics : Economics} {difficulty : Difficulty}

namespace Chain

/-! ## Calls -/

/-- A call that may change a chain. -/
inductive Move
  /-- Somebody inserts a block. -/
  | insert (block : Block)
  /-- Somebody wants a token to be stopped when the head moves. -/
  | watch (head : Option Nat) (token : Token)

def play (chain : Chain) : Move → Chain
  | .insert block => (chain.insert block).chain
  | .watch head token => (chain.stopOnHeadChange head token).1

def run (chain : Chain) (moves : List Move) : Chain := moves.foldl play chain

/-- The tokens that an insertion stops, in that order. -/
def Insertion.stops (insertion : Insertion) : List Token :=
  insertion.effects.filterMap Effect.stopped?

/-- The tokens that are stopped during some calls. -/
def stopped (chain : Chain) : List Move → List Token
  | [] => []
  | .insert block :: rest => (chain.insert block).stops ++ (chain.play (.insert block)).stopped rest
  | .watch head token :: rest => (chain.play (.watch head token)).stopped rest

/-- The tokens that are registered during some calls. -/
def registered (chain : Chain) : List Move → List Token
  | [] => []
  | .insert block :: rest => (chain.play (.insert block)).registered rest
  | .watch head token :: rest =>
    let later := (chain.play (.watch head token)).registered rest
    if (chain.stopOnHeadChange head token).2 then token :: later else later

/-- The head stays what it is during some calls. -/
def Steady (chain : Chain) (moves : List Move) : Prop :=
  ∀ done, done <+: moves → (chain.run done).tree.head = chain.tree.head

variable {chain : Chain} {block : Block} {move : Move} {moves rest : List Move}

theorem run_append (chain : Chain) (moves rest : List Move) :
    chain.run (moves ++ rest) = (chain.run moves).run rest :=
  List.foldl_append

theorem Built.play (h : chain.Built economics difficulty) (move : Move) :
    (chain.play move).Built economics difficulty := by
  cases move with
  | insert block => exact h.insert block
  | watch head token =>
    obtain ⟨htree, hvalidator⟩ := chain.stopOnHeadChange_tree head token
    rw [Chain.play, Built, htree, hvalidator]
    exact h

theorem Built.run (h : chain.Built economics difficulty) (moves : List Move) :
    (chain.run moves).Built economics difficulty := by
  induction moves generalizing chain with
  | nil => exact h
  | cons move rest ih => exact ih (h.play move)

/-- The head stays through some moves if it stays through the first and through the rest. -/
theorem steady_cons : chain.Steady (move :: rest)
    ↔ (chain.play move).tree.head = chain.tree.head ∧ (chain.play move).Steady rest := by
  constructor
  · intro h
    have hfirst := h [move] (List.prefix_append [move] rest)
    refine ⟨hfirst, fun done hdone => ?_⟩
    exact (h (move :: done) (List.cons_prefix_cons.mpr ⟨rfl, hdone⟩)).trans hfirst.symm
  · rintro ⟨hfirst, hrest⟩ done hdone
    rcases List.prefix_cons_iff.mp hdone with rfl | ⟨later, rfl, hlater⟩
    · rfl
    · exact (hrest later hlater).trans hfirst

/-! ## One call -/

/-- A token that names the head is taken in. -/
theorem stopOnHeadChange_of_eq {head : Option Nat} (h : chain.tree.head = head) (token : Token) :
    chain.stopOnHeadChange head token
      = ({ chain with watchers := chain.watchers ++ [token] }, true) :=
  if_pos h

/-- A token that names another head is refused at once. -/
theorem stopOnHeadChange_of_ne {head : Option Nat} (h : chain.tree.head ≠ head) (token : Token) :
    chain.stopOnHeadChange head token = (chain, false) :=
  if_neg h

theorem watchers_stopOnHeadChange_subset (chain : Chain) (head : Option Nat) (token : Token) :
    (chain.stopOnHeadChange head token).1.watchers ⊆ chain.watchers ++ [token] := by
  unfold stopOnHeadChange
  split
  · exact List.Subset.refl _
  · exact List.subset_append_left _ _

/-- A refused block stops no watcher. -/
theorem watchers_of_error {e : ValidationError} (h : (chain.insert block).result = .error e) :
    (chain.insert block).chain.watchers = chain.watchers := by
  unfold insert at h ⊢
  split at h
  split at h
  · rfl
  · split at h <;> cases h

/-- An admitted block stops and forgets all watchers if its node is the head then. -/
theorem watchers_of_ok {place : Inserted} (h : (chain.insert block).result = .ok place) :
    ∃ id, (chain.validator.validateAndInsert chain.tree block).result = .ok id
      ∧ ((chain.insert block).stops, (chain.insert block).chain.watchers)
        = if (chain.insert block).chain.tree.head = some id then (chain.watchers, [])
          else ([], chain.watchers) := by
  have hstops : ∀ watchers : List Token,
      (watchers.map Effect.stop).filterMap Effect.stopped? = watchers := by
    intro watchers
    simp [List.filterMap_map, Function.comp_def, Effect.stopped?]
  obtain ⟨tree, validator, watchers⟩ := chain
  rcases hverdict : validator.validateAndInsert tree block with ⟨validator', tree', e | id⟩
  · simp only [insert, hverdict, reduceCtorEq] at h
  · refine ⟨id, rfl, ?_⟩
    simp only [Insertion.stops, insert, hverdict]
    split
    · simp only [List.filterMap_append, hstops]
      exact congrArg (·, []) (List.append_nil watchers)
    · rfl

/-- Only watchers are stopped, and there are no others afterwards. -/
theorem stops_subset (chain : Chain) (block : Block) :
    (chain.insert block).stops ⊆ chain.watchers
      ∧ (chain.insert block).chain.watchers ⊆ chain.watchers := by
  cases hresult : (chain.insert block).result with
  | error e =>
    rw [Insertion.stops, effects_of_error hresult, watchers_of_error hresult]
    exact ⟨List.nil_subset _, List.Subset.refl _⟩
  | ok place =>
    obtain ⟨id, -, hwatchers⟩ := watchers_of_ok hresult
    split at hwatchers <;> obtain ⟨hstops, hkept⟩ := Prod.mk.inj hwatchers <;> rw [hstops, hkept]
    · exact ⟨List.Subset.refl _, List.nil_subset _⟩
    · exact ⟨List.nil_subset _, List.Subset.refl _⟩

/-- An insertion stops and forgets all watchers if it moves the head, and else it does nothing to
them. -/
theorem Sound.insert_watchers (h : chain.Sound economics difficulty) (block : Block) :
    ((chain.insert block).stops, (chain.insert block).chain.watchers)
      = if (chain.insert block).chain.tree.head = chain.tree.head then ([], chain.watchers)
        else (chain.watchers, []) := by
  cases hjudge : judge economics difficulty chain.tree block with
  | error e =>
    obtain ⟨hresult, htree⟩ := h.insert_of_error hjudge
    rw [htree, if_pos rfl, watchers_of_error hresult, Insertion.stops, effects_of_error hresult]
    rfl
  | ok parent? =>
    obtain ⟨hresult, hadds⟩ := h.insert_of_ok hjudge
    obtain ⟨id, hid, hwatchers⟩ := watchers_of_ok hresult
    obtain rfl := h.node_of_ok hid
    -- The new node is the head, or the head is an older one and stays.
    have hold : chain.tree.head ≠ some chain.tree.size :=
      fun hsize => Nat.lt_irrefl _ (h.valid.head_lt _ hsize)
    have hcases : (chain.insert block).chain.tree.head = some chain.tree.size
        ∨ (chain.insert block).chain.tree.head = chain.tree.head := by
      rw [hadds.head_eq]
      split
      · exact Or.inl rfl
      · exact Or.inr rfl
    rw [hwatchers]
    rcases hcases with hnew | hsame
    · rw [hnew, if_pos rfl, if_neg hold.symm]
    · rw [hsame, if_neg hold, if_pos rfl]

/-! ## Many calls -/

/-- As long as the head stays nobody is stopped, and who registers is added behind the others. -/
theorem Built.steady_run (h : chain.Built economics difficulty) (hsteady : chain.Steady moves) :
    chain.stopped moves = []
      ∧ (chain.run moves).watchers = chain.watchers ++ chain.registered moves := by
  induction moves generalizing chain with
  | nil => exact ⟨rfl, (List.append_nil _).symm⟩
  | cons move rest ih =>
    obtain ⟨hhead, hrest⟩ := steady_cons.mp hsteady
    obtain ⟨hstopped, hwatchers⟩ := ih (h.play move) hrest
    cases move with
    | insert block =>
      obtain ⟨hstops, hkept⟩ := Prod.mk.inj ((h.sound.insert_watchers block).trans (if_pos hhead))
      refine ⟨?_, ?_⟩
      · rw [stopped, hstops, hstopped]
        rfl
      · exact hwatchers.trans (congrArg (· ++ _) hkept)
    | watch head token =>
      refine ⟨hstopped, hwatchers.trans ?_⟩
      by_cases hsame : chain.tree.head = head
      · rw [registered, Chain.play, stopOnHeadChange_of_eq hsame, if_pos rfl, List.append_assoc]
        rfl
      · rw [registered, Chain.play, stopOnHeadChange_of_ne hsame]
        rfl

/-- The head is what it is since the last call of `before`, and has stayed so during all of `since`.
-/
structure HeadSince (start : Chain) (before since : List Move) : Prop where
  became : ∀ earlier last, before = earlier ++ [last] →
    (start.run earlier).tree.head ≠ (start.run before).tree.head
  stayed : (start.run before).Steady since

/-- Any moves split where the head became what it is. -/
theorem exists_headSince (start : Chain) (moves : List Move) :
    ∃ before since, moves = before ++ since ∧ start.HeadSince before since := by
  induction moves using List.reverseRecOn with
  | nil =>
    refine ⟨[], [], rfl, fun earlier last hsplit => ?_, fun done hdone => ?_⟩
    · simp at hsplit
    · rw [List.prefix_nil.mp hdone]
      rfl
  | append_singleton moves last ih =>
    obtain ⟨before, since, rfl, hbecame, hstayed⟩ := ih
    by_cases hhead : (start.run (before ++ since)).tree.head
        = (start.run (before ++ since ++ [last])).tree.head
    · -- The head stays once more.
      refine ⟨before, since ++ [last], List.append_assoc .., hbecame, fun done hdone => ?_⟩
      rcases List.prefix_concat_iff.mp hdone with rfl | hdone
      · rw [← run_append, ← List.append_assoc, ← hhead, run_append]
        exact hstayed since (List.prefix_refl since)
      · exact hstayed done hdone
    · -- The last call moves the head, so all begins anew.
      refine ⟨before ++ since ++ [last], [], (List.append_nil _).symm, ?_, fun done hdone => ?_⟩
      · intro earlier last' hsplit
        obtain ⟨rfl, -⟩ := List.append_inj' hsplit rfl
        exact hhead
      · rw [List.prefix_nil.mp hdone]
        rfl

/-- After the call that moved the head there are no watchers left. -/
theorem HeadSince.watchers_eq_nil {start : Chain} {before since : List Move}
    (hbuilt : start.Built economics difficulty) (hfirst : start.watchers = [])
    (h : start.HeadSince before since) : (start.run before).watchers = [] := by
  rcases List.eq_nil_or_concat' before with rfl | ⟨earlier, last, rfl⟩
  · exact hfirst
  have hmoved := h.became earlier last rfl
  rw [run_append] at hmoved ⊢
  have hbuilt := hbuilt.run earlier
  generalize start.run earlier = chain at hmoved hbuilt ⊢
  cases last with
  | insert block =>
    exact (Prod.mk.inj ((hbuilt.sound.insert_watchers block).trans (if_neg hmoved.symm))).2
  | watch head token =>
    exact absurd (congrArg ForkTree.head (chain.stopOnHeadChange_tree head token).1).symm hmoved

/-! ## Watchers and the head -/

/-- What a chain does for those who watch its head. -/
structure Watched (chain : Chain) : Prop where
  /-- The caller has to know the head, if there is one. -/
  answer_iff : ∀ head token, (chain.stopOnHeadChange head token).2 = true ↔ chain.tree.head = head
  refused : ∀ head token, (chain.stopOnHeadChange head token).2 = false →
    (chain.stopOnHeadChange head token).1 = chain
  /-- A token that has been registered is not stopped while the head stays, whatever is called, and
  is stopped with the first block that moves the head. -/
  told : ∀ head token later, (chain.stopOnHeadChange head token).2 = true →
    chain.Steady (.watch head token :: later) →
      chain.stopped (.watch head token :: later) = []
      ∧ ∀ block, ((chain.run (.watch head token :: later)).insert block).chain.tree.head
          ≠ chain.tree.head →
        token ∈ ((chain.run (.watch head token :: later)).insert block).stops
  /-- To stop tokens is to make the request on the tokens themselves, and on no others. -/
  raised : ∀ block (tokens : Cancellation) token, tokens.InUse token →
    (tokens.stopAll (chain.insert block).stops).isRaised token
      = (tokens.isRaised token || decide (token ∈ (chain.insert block).stops))

/-- Whatever has built a chain, it does so for all who watch its head. -/
theorem Built.watched (h : chain.Built economics difficulty) : chain.Watched := by
  constructor
  case answer_iff =>
    intro head token
    by_cases hhead : chain.tree.head = head
    · simp [stopOnHeadChange_of_eq hhead, hhead]
    · simp [stopOnHeadChange_of_ne hhead, hhead]
  case refused =>
    intro head token hrefused
    by_cases hhead : chain.tree.head = head
    · rw [stopOnHeadChange_of_eq hhead] at hrefused
      cases hrefused
    · rw [stopOnHeadChange_of_ne hhead]
  case told =>
    intro head token later haccepted hsteady
    obtain ⟨hstopped, hwatchers⟩ := h.steady_run hsteady
    have hstill := hsteady _ (List.prefix_refl _)
    have hsound := (h.run (.watch head token :: later)).sound
    refine ⟨hstopped, fun block hmoved => ?_⟩
    have hinsert := (hsound.insert_watchers block).trans (if_neg (hstill ▸ hmoved))
    -- It is one of the watchers, and these are all stopped.
    rw [(Prod.mk.inj hinsert).1, hwatchers, registered, if_pos haccepted]
    exact List.mem_append_right _ List.mem_cons_self
  case raised =>
    intro block tokens token hused
    by_cases hmem : token ∈ (chain.insert block).stops
    · rw [Cancellation.isRaised_stopAll_of_mem hused hmem, decide_eq_true hmem, Bool.or_true]
    · rw [Cancellation.isRaised_stopAll_of_not_mem tokens hmem, decide_eq_false hmem, Bool.or_false]

end Chain

/-- **Those who watch the head miss no change of it and hear of no other one**, in every sequence of
insertions and registrations. At any time the chain holds those tokens that were registered since
its head became the head, in that order, and no others. -/
theorem watched_run (economics : Economics) (difficulty : Difficulty) (moves : List Chain.Move) :
    ((Chain.new economics difficulty).run moves).Watched
      ∧ ∃ before since, moves = before ++ since
        ∧ (Chain.new economics difficulty).HeadSince before since
        ∧ ((Chain.new economics difficulty).run moves).watchers
            = ((Chain.new economics difficulty).run before).registered since := by
  have hbuilt : (Chain.new economics difficulty).Built economics difficulty :=
    Chain.built_ofBlocks economics difficulty []
  obtain ⟨before, since, rfl, hsince⟩ :=
    (Chain.new economics difficulty).exists_headSince moves
  refine ⟨(hbuilt.run _).watched, before, since, rfl, hsince, ?_⟩
  rw [Chain.run_append, ((hbuilt.run before).steady_run hsince.stayed).2,
    hsince.watchers_eq_nil hbuilt rfl, List.nil_append]

/-- Three who watch what is the head at the time, and one who comes too late. The block that starts
a fork tells nobody. -/
example :
    let root := Block.genesis "miner" 0
    let left := Block.noOp root.hash "ann" 0
    let right := Block.noOp root.hash "bob" 0
    (Chain.new ⟨9, 1, 2, 1⟩ ⟨0, 0⟩).stopped
      [.watch none ⟨0⟩, .insert root, .watch (some 0) ⟨1⟩, .insert left, .watch (some 0) ⟨2⟩,
        .watch (some 1) ⟨3⟩, .insert right, .insert (.noOp right.hash "bob" 0)]
      = [⟨0⟩, ⟨1⟩, ⟨3⟩] := by
  decide +kernel

end RecordChain
