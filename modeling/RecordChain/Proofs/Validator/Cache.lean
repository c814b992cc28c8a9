import RecordChain.Proofs.Validator.Judgement

/-!
# The kept ledger changes no answer

A validator keeps the ledger after the last block it accepted on top of another one, gives it up on
a failed check, and takes it for the ledger of whatever node it was kept for. Trees also grow by raw
insertions that the validator never hears of.

* **`Coherent`**: the kept ledger is the one after its node. Growth of the tree keeps this true,
  since chains that lead to old nodes do not change.
* **`validateAndInsert_eq`**: on a well-formed tree a coherent validator does what `judge` says.
* **`history`**, **`plainHistory`**: what a sequence of calls answers, with a validator and with a
  judge that keeps nothing. They are equal (`history_eq_plainHistory`).
-/

namespace RecordChain.Validator

open ForkTree

/-- The kept ledger is the one that a replay up to its node gives. -/
def Coherent (validator : Validator) (tree : ForkTree) : Prop :=
  ∀ id ledger, validator.cache = some (id, ledger) →
    id < tree.size ∧ Ledger.replay (some validator.economics) (tree.chainTo id) = .ok ledger

theorem Coherent.of_cache_eq_none {validator : Validator} {tree : ForkTree}
    (h : validator.cache = none) : validator.Coherent tree := by
  intro id ledger hcache
  rw [h] at hcache
  cases hcache

/-- The kept ledger stays right while the tree grows. -/
theorem Coherent.growsTo {validator : Validator} {before after : ForkTree}
    (h : validator.Coherent before) (hgrows : before.GrowsTo after) :
    validator.Coherent after := by
  intro id ledger hcache
  obtain ⟨hid, hreplay⟩ := h id ledger hcache
  exact ⟨Nat.lt_of_lt_of_le hid hgrows.size_le, by rw [hgrows.chainTo hid, hreplay]⟩

/-- With a right ledger kept, the ledger at a node is what a replay gives. -/
theorem ledgerAt_eq {validator : Validator} {tree : ForkTree} (h : validator.Coherent tree)
    (id : Nat) :
    validator.ledgerAt tree id
      = Ledger.replay (some validator.economics) (tree.chainTo id) := by
  rw [ledgerAt]
  split
  · next cached ledger hcache =>
    split
    · next heq =>
      subst heq
      exact (h cached ledger hcache).2.symm
    · rfl
  · rfl

/-! ## One check -/

/-- The validator finds a first block in rooted trees only, and in all of them. -/
theorem hasGenesis_iff {tree : ForkTree} (hwf : tree.WellFormed) :
    hasGenesis tree ↔ tree.Rooted := by
  unfold hasGenesis blocks Rooted
  rw [List.any_eq_true, hwf.roots_eq]
  constructor
  · rintro ⟨block, hblock, hkind⟩
    obtain ⟨id, hid, hat⟩ := List.mem_filterMap.mp hblock
    rw [block?_eq] at hat
    obtain ⟨node, hnode, rfl⟩ := Option.map_eq_some_iff.mp hat
    have hparent : tree.parent? id = none := by simpa using (List.mem_filter.mp hid).2
    rw [parent?_eq, hnode] at hparent
    exact ⟨node, List.mem_of_getElem? hnode, hparent, by simpa using hkind⟩
  · rintro ⟨node, hnode, hparent, hkind⟩
    obtain ⟨id, hid⟩ := List.mem_iff_getElem?.mp hnode
    have hlt : id < tree.size := by
      rw [← length_fixed]
      exact (List.getElem?_eq_some_iff.mp hid).1
    refine ⟨node.block, List.mem_filterMap.mpr ⟨id, ?_, ?_⟩, by simpa using hkind⟩
    · refine List.mem_filter.mpr ⟨List.mem_range.mpr hlt, ?_⟩
      rw [parent?_eq, hid]
      simpa using hparent
    · rw [block?_eq, hid]
      rfl

/-- To extend an empty ledger by a first block is to replay this block. -/
theorem extend_empty_eq (economics : Economics) (block : Block) :
    extend (.empty (some economics)) block 0 = Ledger.replay (some economics) [block] :=
  (Ledger.applyChain_singleton _ 0 block).symm

/-- Taking the ledger after a node one block further is a replay of the longer chain, since the
height of a node is its place in the chain. -/
theorem ledgerAt_bind_extend {validator : Validator} {tree : ForkTree} (hwf : tree.WellFormed)
    (h : validator.Coherent tree) {parent : Nat} (hparent : parent < tree.size) (block : Block) :
    ((validator.ledgerAt tree parent).bind fun ledger =>
        extend ledger block (tree.heightAt parent + 1))
      = Ledger.replay (some validator.economics) (tree.chainTo parent ++ [block]) := by
  rw [ledgerAt_eq h, Ledger.replay_concat, hwf.length_chainTo hparent]
  rfl

/-- What a check leaves beside the tree and the answer: the same rules, and a ledger that is right
for the new tree. -/
structure Keeps (before : Validator) (verdict : Verdict) : Prop where
  economics_eq : verdict.validator.economics = before.economics
  difficulty_eq : verdict.validator.difficulty = before.difficulty
  coherent : verdict.validator.Coherent verdict.tree

theorem Keeps.of_unchanged {validator : Validator} {tree : ForkTree}
    (h : validator.Coherent tree) {after : ForkTree} (hgrows : tree.GrowsTo after)
    (result : Except ValidationError Nat) : validator.Keeps ⟨validator, after, result⟩ :=
  ⟨rfl, rfl, h.growsTo hgrows⟩

section Check

variable {validator : Validator} {tree : ForkTree} {block : Block}

/-- Blocks in the tree are in its index. -/
theorem not_contains_of_fresh (hwf : tree.WellFormed) {hash : BlockHash} (h : hash ∉ tree.hashes) :
    ¬ tree.contains hash :=
  mt (hwf.contains_iff hash).mp h

/-- What a check comes to for a first block. -/
theorem validateAndInsert_of_genesis (hwf : tree.WellFormed)
    (hpresentable : Presentable validator.difficulty tree block) (hkind : block.kind = .genesis) :
    validator.validateAndInsert tree block
      = if tree.Rooted then ⟨validator, tree, .error (.duplicateGenesis block.hash)⟩
        else match Ledger.replay (some validator.economics) [block] with
          | .error e => ⟨validator, tree, .error (.badState e)⟩
          | .ok _ => ⟨validator, (tree.insertRoot block).1, .ok tree.size⟩ := by
  rw [validateAndInsert, if_neg (not_contains_of_fresh hwf hpresentable.fresh),
    if_neg (Nat.not_lt.mpr hpresentable.work), if_pos hkind, extend_empty_eq]
  exact if_congr (hasGenesis_iff hwf) rfl rfl

/-- What a check comes to for a block on top of a node. The kept ledger is used up, and only a success
puts the next one in its place. -/
theorem validateAndInsert_of_first? (hwf : tree.WellFormed) (h : validator.Coherent tree)
    (hpresentable : Presentable validator.difficulty tree block) (hkind : block.kind ≠ .genesis)
    {parent : Nat} (hfound : tree.first? block.previous = some parent) :
    validator.validateAndInsert tree block
      = match Ledger.replay (some validator.economics) (tree.chainTo parent ++ [block]) with
        | .error e => ⟨{ validator with cache := none }, tree, .error (.badState e)⟩
        | .ok ledger =>
          ⟨{ validator with cache := some (tree.size, ledger) }, (tree.insertChild block parent).1,
            .ok tree.size⟩ := by
  obtain ⟨rest, hfind⟩ : ∃ rest, tree.find block.previous = parent :: rest :=
    List.head?_eq_some_iff.mp ((hwf.head?_find _).trans hfound)
  rw [validateAndInsert, if_neg (not_contains_of_fresh hwf hpresentable.fresh),
    if_neg (Nat.not_lt.mpr hpresentable.work), if_neg hkind, hfind,
    ← ledgerAt_bind_extend hwf h (lt_size_of_first? hfound)]
  -- A replay fails where the ledger after the parent fails, or else at the block itself.
  dsimp only
  cases validator.ledgerAt tree parent with
  | error e => rfl
  | ok before =>
    dsimp only [Except.bind]
    cases extend before block (tree.heightAt parent + 1) with
    | error e => rfl
    | ok ledger => simp only [insertChild_snd]

/-- **A coherent validator does what is judged from the tree alone.** -/
theorem validateAndInsert_eq (hwf : tree.WellFormed) (h : validator.Coherent tree) (block : Block) :
    ((validator.validateAndInsert tree block).tree,
        (validator.validateAndInsert tree block).result)
        = settle tree block (judge validator.economics validator.difficulty tree block)
      ∧ validator.Keeps (validator.validateAndInsert tree block) := by
  -- Most failures leave the validator as it was.
  have hsame := fun result => Keeps.of_unchanged h (.refl tree) result
  generalize hjudge : judge validator.economics validator.difficulty tree block = judgement
  cases judged_of_judge hjudge with
  | duplicate hash =>
    rw [validateAndInsert, if_pos ((hwf.contains_iff _).mpr hash)]
    exact ⟨rfl, hsame _⟩
  | idle fresh work =>
    rw [validateAndInsert, if_neg (not_contains_of_fresh hwf fresh), if_pos work]
    exact ⟨rfl, hsame _⟩
  | secondRoot presentable kind rooted =>
    rw [validateAndInsert_of_genesis hwf presentable kind, if_pos rooted]
    exact ⟨rfl, hsame _⟩
  | badRoot e presentable kind rooted replay =>
    rw [validateAndInsert_of_genesis hwf presentable kind, if_neg rooted, replay]
    exact ⟨rfl, hsame _⟩
  | root ledger presentable kind rooted replay =>
    rw [validateAndInsert_of_genesis hwf presentable kind, if_neg rooted, replay]
    exact ⟨rfl, Keeps.of_unchanged h (adds_insertRoot tree block).growsTo _⟩
  | orphan presentable kind missing =>
    have hfind : tree.find block.previous = [] := by
      rw [← List.head?_eq_none_iff, hwf.head?_find]
      exact first?_eq_none_iff.mpr missing
    rw [validateAndInsert, if_neg (not_contains_of_fresh hwf presentable.fresh),
      if_neg (Nat.not_lt.mpr presentable.work), if_neg kind, hfind]
    exact ⟨rfl, hsame _⟩
  | badChild parent e presentable kind found replay =>
    rw [validateAndInsert_of_first? hwf h presentable kind found, replay]
    exact ⟨rfl, rfl, rfl, .of_cache_eq_none rfl⟩
  | child parent ledger presentable kind found replay =>
    rw [validateAndInsert_of_first? hwf h presentable kind found, replay]
    refine ⟨rfl, rfl, rfl, ?_⟩
    -- The ledger now kept is that of the new node.
    intro id kept hcache
    cases hcache
    have hadds := adds_insertChild tree block parent
    refine ⟨?_, ?_⟩
    · rw [hadds.size_eq]
      exact Nat.lt_succ_self _
    · rw [hadds.chainTo_new_child rfl (lt_size_of_first? found)]
      exact replay

end Check

/-! ## Any sequence of calls -/

/-- A call on a tree and the validator that guards it. Raw insertions go past the validator. -/
inductive Action
  | insertRoot (block : Block)
  | insertChild (block : Block) (parent : Nat)
  | validateAndInsert (block : Block)
  | ledgerAt (id : Nat)

/-- What a call answers. -/
inductive Answer
  | inserted (id : Nat)
  | checked (result : Except ValidationError Nat)
  | ledger (result : Except LedgerError Ledger)

/-- What a call leaves and answers. A number that no node of the tree has cannot be passed to a call,
so there is nothing to answer then. -/
def act (validator : Validator) (tree : ForkTree) :
    Action → Option (Validator × ForkTree × Answer)
  | .insertRoot block =>
    some (validator, (tree.insertRoot block).1, .inserted (tree.insertRoot block).2)
  | .insertChild block parent =>
    if parent < tree.size then
      some (validator, (tree.insertChild block parent).1,
        .inserted (tree.insertChild block parent).2)
    else none
  | .validateAndInsert block =>
    let verdict := validator.validateAndInsert tree block
    some (verdict.validator, verdict.tree, .checked verdict.result)
  | .ledgerAt id =>
    if id < tree.size then some (validator, tree, .ledger (validator.ledgerAt tree id)) else none

/-- The tree and the answer after each of some calls, up to the first that cannot be made. -/
def history (validator : Validator) (tree : ForkTree) : List Action → List (ForkTree × Answer)
  | [] => []
  | action :: rest =>
    match validator.act tree action with
    | none => []
    | some (validator, tree, answer) => (tree, answer) :: history validator tree rest

/-- What a call leaves and answers if nothing is kept: blocks are judged from the tree and ledgers
are replayed from the root. -/
def plainAct (economics : Economics) (difficulty : Difficulty) (tree : ForkTree) :
    Action → Option (ForkTree × Answer)
  | .insertRoot block => some ((tree.insertRoot block).1, .inserted (tree.insertRoot block).2)
  | .insertChild block parent =>
    if parent < tree.size then
      some ((tree.insertChild block parent).1, .inserted (tree.insertChild block parent).2)
    else none
  | .validateAndInsert block =>
    let settled := settle tree block (judge economics difficulty tree block)
    some (settled.1, .checked settled.2)
  | .ledgerAt id =>
    if id < tree.size then
      some (tree, .ledger (Ledger.replay (some economics) (tree.chainTo id)))
    else none

/-- The tree and the answer after each of some calls, up to the first that cannot be made, if nothing
is kept. -/
def plainHistory (economics : Economics) (difficulty : Difficulty) (tree : ForkTree) :
    List Action → List (ForkTree × Answer)
  | [] => []
  | action :: rest =>
    match plainAct economics difficulty tree action with
    | none => []
    | some (tree, answer) => (tree, answer) :: plainHistory economics difficulty tree rest

/-- A validator with its rules and a ledger that is right for a well-formed tree. -/
structure Guards (economics : Economics) (difficulty : Difficulty) (validator : Validator)
    (tree : ForkTree) : Prop where
  wellFormed : tree.WellFormed
  economics_eq : validator.economics = economics
  difficulty_eq : validator.difficulty = difficulty
  coherent : validator.Coherent tree

section Guards

variable {economics : Economics} {difficulty : Difficulty} {validator : Validator}
  {tree : ForkTree}

theorem guards_new (economics : Economics) (difficulty : Difficulty) :
    Guards economics difficulty (.new economics difficulty) .empty :=
  ⟨.empty, rfl, rfl, .of_cache_eq_none rfl⟩

/-- At every node a guarding validator gets the ledger of a replay. -/
theorem Guards.ledgerAt_eq (h : Guards economics difficulty validator tree) (id : Nat) :
    validator.ledgerAt tree id = Ledger.replay (some economics) (tree.chainTo id) := by
  rw [Validator.ledgerAt_eq h.coherent, h.economics_eq]

/-- A guarding validator checks blocks as they are judged. -/
theorem Guards.settle_eq (h : Guards economics difficulty validator tree) (block : Block) :
    settle tree block (judge economics difficulty tree block)
      = ((validator.validateAndInsert tree block).tree,
          (validator.validateAndInsert tree block).result) := by
  have heq := (validateAndInsert_eq h.wellFormed h.coherent block).1
  rw [h.economics_eq, h.difficulty_eq] at heq
  exact heq.symm

/-- What is judged keeps the tree well-formed: a block joins on top of a node only where there is
one. -/
theorem wellFormed_settle (economics : Economics) (difficulty : Difficulty)
    (hwf : tree.WellFormed) (block : Block) :
    (settle tree block (judge economics difficulty tree block)).1.WellFormed := by
  generalize hjudge : judge economics difficulty tree block = judgement
  cases judged_of_judge hjudge with
  | root => exact hwf.insertRoot block
  | child parent ledger presentable kind found replay =>
    exact hwf.insertChild block (lt_size_of_first? found)
  | _ => exact hwf

/-- A validator that guards a tree guards what a check makes of it. -/
theorem Guards.validateAndInsert (h : Guards economics difficulty validator tree)
    (block : Block) :
    Guards economics difficulty (validator.validateAndInsert tree block).validator
      (validator.validateAndInsert tree block).tree := by
  obtain ⟨-, heconomics, hdifficulty, hcoherent⟩ :=
    validateAndInsert_eq h.wellFormed h.coherent block
  refine ⟨?_, heconomics.trans h.economics_eq, hdifficulty.trans h.difficulty_eq, hcoherent⟩
  have hwf := wellFormed_settle economics difficulty h.wellFormed block
  rwa [h.settle_eq block] at hwf

/-- A guarding validator answers every action as plain replay does. -/
theorem Guards.plainAct_eq (h : Guards economics difficulty validator tree) (action : Action) :
    plainAct economics difficulty tree action = (validator.act tree action).map (·.2) := by
  cases action with
  | insertRoot block => rfl
  | insertChild block parent =>
    rw [plainAct, act]
    split <;> rfl
  | validateAndInsert block =>
    rw [plainAct, h.settle_eq block]
    rfl
  | ledgerAt id =>
    rw [plainAct, act, h.ledgerAt_eq id]
    split <;> rfl

/-- A guarding validator guards what an action makes of the tree. -/
theorem Guards.of_act (h : Guards economics difficulty validator tree) {action : Action}
    {next : Validator × ForkTree × Answer} (hact : validator.act tree action = some next) :
    Guards economics difficulty next.1 next.2.1 := by
  cases action with
  | insertRoot block =>
    cases hact
    exact ⟨h.wellFormed.insertRoot block, h.economics_eq, h.difficulty_eq,
      h.coherent.growsTo (adds_insertRoot tree block).growsTo⟩
  | insertChild block parent =>
    rw [act] at hact
    split at hact
    · next hparent =>
      cases hact
      exact ⟨h.wellFormed.insertChild block hparent, h.economics_eq, h.difficulty_eq,
        h.coherent.growsTo (adds_insertChild tree block parent).growsTo⟩
    · cases hact
  | validateAndInsert block =>
    cases hact
    exact h.validateAndInsert block
  | ledgerAt id =>
    rw [act] at hact
    split at hact
    · cases hact
      exact h
    · cases hact

/-- A guarding validator answers any history as plain replay does. Induction on the actions. -/
theorem Guards.history_eq (h : Guards economics difficulty validator tree)
    (actions : List Action) :
    history validator tree actions = plainHistory economics difficulty tree actions := by
  induction actions generalizing validator tree with
  | nil => rfl
  | cons action rest ih =>
    rw [history, plainHistory, h.plainAct_eq]
    cases hact : validator.act tree action with
    | none => rfl
    | some next =>
      have hnext := h.of_act hact
      dsimp only [Option.map_some]
      rw [ih hnext]

end Guards

/-- **The kept ledger is unobservable.** Whatever calls are made on a new tree and its validator, raw
insertions, checks that fail or succeed and questions for ledgers in any order: every ledger is the
replay of the chain to its node, every check gives what is judged from the tree at that time, and the
tree is the one that such judgements build. -/
theorem history_eq_plainHistory (economics : Economics) (difficulty : Difficulty)
    (actions : List Action) :
    history (.new economics difficulty) .empty actions
      = plainHistory economics difficulty .empty actions :=
  (guards_new economics difficulty).history_eq actions

end RecordChain.Validator
