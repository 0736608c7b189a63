import Stegos.Lib.Run
import Stegos.Consensus.State

/-!
# Validators running the consensus over a network

The validators of an epoch, each running its `Consensus` the way the node
drives it (`node/src/lib.rs`): a message from the network is fed and then the
consensus events are handled (`handle_consensus_message`,
`handle_consensus_events`: a proposal to vote on is validated against the
validator's blockchain, then pre-voted or reset); the leader's `Propose` timer
makes it propose a block (`propose_macro_block`); the `ViewChange` timer moves
it to the next round (`handle_macro_block_viewchange_timer`).

The network keeps every message published: any of them may be delivered to
any validator, at any time, any number of times, or never; so messages are
delayed, reordered, duplicated and dropped, and timers fire in any order with
the deliveries.

* `World.Agreement`: no two validators in `Commit` with different block hashes.
* `agreement_violated`: a run of four validators that breaks it. A validator
  commits the block of round 0. The others lock on it; in round 1 the locked
  leader proposes it again, and the proposal takes the lock of the other two
  (`self.locked_round.take()`), which then time out in `Prevote` and are
  reset without a lock. In round 2 they commit another block.
-/

namespace Stegos

/-- `MacroBlockTimer`. -/
inductive MacroBlockTimer
  | None
  | Propose
  | ViewChange
  deriving DecidableEq, Repr

/-- `Validation::MacroBlockValidator`: the consensus of a validator, its timer
    and its autocommit counter. -/
structure MacroBlockValidator (N H B P : Type) [Ord N] where
  consensus : Consensus N H B P
  blockTimer : MacroBlockTimer
  autocommitCounter : ℕ
  /-- `commit_proposed_block` has run: the validator has left the consensus
      with its block. -/
  committed : Bool

/-- What the consensus reads of the blockchain of each validator. -/
structure Chain (N H B P : Type) where
  /-- `create_macro_block`: the block a validator proposes at a view change,
      and its proposal (header and transactions). -/
  createMacroBlock : N → ℕ → B × P
  /-- `validate_proposed_macro_block(view_change, block_hash, header, txs)`,
      run by a validator: the block, or `none` for an error. -/
  validateProposedMacroBlock : N → ℕ → H → P → Option B
  /-- `election_result.validators`, in order: who sends an autocommitted block. -/
  relays : List N

namespace MacroBlockValidator

variable {N H B P : Type} [Ord N] [Std.TransOrd N] [DecidableEq N] [DecidableEq H]
  [DecidableEq P] [Digest B H] [Digest P H]

open Digest

/-- `on_macro_block_leader_changed`: the leader that should propose sets its
    `Propose` timer, a locked leader none, the others their `ViewChange` timer. -/
def onMacroBlockLeaderChanged (v : MacroBlockValidator N H B P) : MacroBlockValidator N H B P :=
  { v with
    autocommitCounter := 0
    blockTimer :=
      if v.consensus.isLeader then
        if v.consensus.shouldPropose then .Propose else .None
      else .ViewChange }

/-- `handle_consensus_events`: a proposal not yet voted on is validated, then
    pre-voted or reset; a leader in `Commit` commits the block; else the
    outbox is published. Returns the messages published. -/
def handleConsensusEvents (chain : Chain N H B P) (v : MacroBlockValidator N H B P) :
    Except (Failure N H) (MacroBlockValidator N H B P × List (ConsensusMessage N H P)) := do
  let c := v.consensus
  let c ← if c.shouldPrevote then do
      let (blockHash, blockProposal, viewChange) ← c.getProposal
      match chain.validateProposedMacroBlock c.pkey viewChange blockHash blockProposal with
      | some block => c.prevote block
      | none => c.reset
    else pure c
  if c.isLeader && c.shouldCommit then pure ({ v with consensus := c, committed := true }, [])
  else pure ({ v with consensus := { c with outbox := [] } }, c.outbox)

/-- `handle_consensus_message`. -/
def handleConsensusMessage (chain : Chain N H B P) (v : MacroBlockValidator N H B P)
    (msg : ConsensusMessage N H P) :
    Except (Failure N H) (MacroBlockValidator N H B P × List (ConsensusMessage N H P)) := do
  let c ← v.consensus.feedMessage msg
  handleConsensusEvents chain { v with consensus := c }

/-- `propose_macro_block`: the leader proposes its block and pre-votes it. -/
def proposeMacroBlock (chain : Chain N H B P) (v : MacroBlockValidator N H B P) :
    Except (Failure N H) (MacroBlockValidator N H B P × List (ConsensusMessage N H P)) := do
  let c := v.consensus
  if !c.shouldPropose then throw (.panic "assertion failed: consensus.should_propose()")
  let (block, blockProposal) := chain.createMacroBlock c.pkey c.round
  let c ← c.propose (digest block) blockProposal
  let c ← c.prevote block
  handleConsensusEvents chain { v with consensus := c, blockTimer := .ViewChange }

/-- `handle_macro_block_viewchange_timer`: a validator in `Commit` commits the
    block when it is its turn to send it; any other goes to the next round. -/
def handleMacroBlockViewchangeTimer (chain : Chain N H B P) (v : MacroBlockValidator N H B P) :
    Except (Failure N H) (MacroBlockValidator N H B P × List (ConsensusMessage N H P)) := do
  let c := v.consensus
  if c.shouldCommit then
    if c.isLeader then throw (.panic "never happens on leader")
    match chain.relays[v.autocommitCounter]? with
    | none => throw (.panic "to find our node in consensus group before overflow counter.")
    | some relay =>
      if relay = c.pkey then pure ({ v with committed := true }, [])
      else pure ({ v with autocommitCounter := v.autocommitCounter + 1,
                          blockTimer := .ViewChange }, [])
  else do
    let c ← c.nextRound
    handleConsensusEvents chain (onMacroBlockLeaderChanged { v with consensus := c })

end MacroBlockValidator

/-- The validators of the epoch (`none` for a node that is not one) and the
    messages published so far. -/
structure World (N H B P : Type) [Ord N] where
  validators : N → Option (MacroBlockValidator N H B P)
  sent : List (ConsensusMessage N H P)

/-- What happens next: a message delivered, or a timer firing. -/
inductive Event (N H P : Type)
  | deliver (node : N) (msg : ConsensusMessage N H P)
  | proposeTimer (node : N)
  | viewChangeTimer (node : N)

namespace World

variable {N H B P : Type} [Ord N] [Std.TransOrd N] [DecidableEq N] [DecidableEq H]
  [DecidableEq P] [Digest B H] [Digest P H]

open MacroBlockValidator

/-- The validators when the consensus starts (`on_facilitator_changed`); no
    message is out yet, so handling the events changes nothing. -/
def start (epoch : ℕ) (selectLeader : ℕ → N) (validators : Std.ExtTreeMap N ℤ compare) :
    World N H B P where
  validators i :=
    match Consensus.new epoch i selectLeader validators with
    | .ok c => some (onMacroBlockLeaderChanged ⟨c, .None, 0, false⟩)
    | .error _ => none
  sent := []

/-- The validator `i` handles an event with `handle`: its new state is kept and
    its messages are published; an error is logged and changes nothing; a
    panic stops the run. -/
def act (w : World N H B P) (i : N)
    (handle : MacroBlockValidator N H B P →
      Except (Failure N H) (MacroBlockValidator N H B P × List (ConsensusMessage N H P))) :
    Except String (World N H B P) :=
  match w.validators i with
  | none => .error "not a validator"
  | some v =>
    if v.committed then .error "left the consensus"
    else match handle v with
      | .ok (v', out) => .ok { validators := Function.update w.validators i (some v'),
                               sent := w.sent ++ out }
      | .error (.error _) => .ok w
      | .error (.panic text) => .error text
      | .error .exhausted => .error "nesting exhausted"

/-- A step of the validators. -/
def step (chain : Chain N H B P) (w : World N H B P) : Event N H P → Except String (World N H B P)
  | .deliver i msg =>
    if msg ∈ w.sent then w.act i fun v => handleConsensusMessage chain v msg
    else .error "not sent"
  | .proposeTimer i =>
    w.act i fun v =>
      if v.blockTimer = .Propose then proposeMacroBlock chain v else .error (.panic "no timer")
  | .viewChangeTimer i =>
    w.act i fun v =>
      if v.blockTimer = .ViewChange then handleMacroBlockViewchangeTimer chain v
      else .error (.panic "no timer")

/-- Agreement: no two validators in `Commit` with different block hashes. -/
def Agreement (w : World N H B P) : Prop :=
  ∀ i j (vi vj : MacroBlockValidator N H B P), w.validators i = some vi → w.validators j = some vj →
    vi.consensus.state = .Commit → vj.consensus.state = .Commit →
    vi.consensus.blockHash = vj.consensus.blockHash

end World

/-! ### A run that breaks agreement -/

section Disagreement

/-- Blocks, proposals and hashes are numbers, a block being its own hash. -/
instance digestNat : Digest ℕ ℕ := ⟨id⟩

/-- Four validators: `0` and `1` with one slot, `2` and `3` with three. A
    supermajority is six of the eight slots. -/
def slotsOfFour : Std.ExtTreeMap ℕ ℤ compare :=
  ((((∅ : Std.ExtTreeMap ℕ ℤ compare).insert 0 1).insert 1 1).insert 2 3).insert 3 3

/-- The leaders of rounds 0, 1, 2: validators `0`, `1`, `2`. -/
def leaderOfRound (round : ℕ) : ℕ := if round = 0 then 0 else if round = 1 then 1 else 2

/-- A leader proposes block `100 + round`; a proposal is valid when its hash is right. -/
def honestChain : Chain ℕ ℕ ℕ ℕ where
  createMacroBlock _ round := (100 + round, 100 + round)
  validateProposedMacroBlock _ _ blockHash proposal :=
    if blockHash = proposal then some proposal else none
  relays := [0, 1, 2, 3]

/-- The proposal of block `b` at round `r` by `from`, epoch 7. -/
def proposalMsg (r b sender : ℕ) : ConsensusMessage ℕ ℕ ℕ :=
  ConsensusMessage.new 7 r b sender (.Proposal b)

/-- The pre-vote of block `b` at round `r`. -/
def prevoteMsg (r b sender : ℕ) : ConsensusMessage ℕ ℕ ℕ :=
  ConsensusMessage.new 7 r b sender .Prevote

/-- The pre-commit of block `b` at round `r`. -/
def precommitMsg (r b sender : ℕ) : ConsensusMessage ℕ ℕ ℕ :=
  ConsensusMessage.new 7 r b sender (.Precommit ⟨sender, b⟩)

/-- The run. Round 0: `0` proposes block 100, all pre-vote it, all pre-commit
    it, and `0` commits it with the pre-commits of `2` and `3`; the others see
    no pre-commit but their own. They time out in `Precommit` and lock. Round
    1: `1` proposes block 100 again and `2`, `3` take their lock back to
    pre-vote it; no pre-vote is delivered, `2` and `3` time out in `Prevote`
    and are reset, unlocked. Round 2: `2` proposes block 102, and `2`, `3`
    pre-vote, pre-commit and commit it. -/
def disagreementRun : List (Event ℕ ℕ ℕ) :=
  [.proposeTimer 0,
   .deliver 1 (proposalMsg 0 100 0), .deliver 2 (proposalMsg 0 100 0),
   .deliver 3 (proposalMsg 0 100 0),
   .deliver 0 (prevoteMsg 0 100 2), .deliver 0 (prevoteMsg 0 100 3),
   .deliver 2 (prevoteMsg 0 100 3), .deliver 3 (prevoteMsg 0 100 2),
   .deliver 1 (prevoteMsg 0 100 2), .deliver 1 (prevoteMsg 0 100 3),
   .deliver 0 (precommitMsg 0 100 2), .deliver 0 (precommitMsg 0 100 3),
   .viewChangeTimer 1, .viewChangeTimer 2, .viewChangeTimer 3,
   .deliver 2 (proposalMsg 1 100 1), .deliver 3 (proposalMsg 1 100 1),
   .viewChangeTimer 2, .viewChangeTimer 3,
   .proposeTimer 2,
   .deliver 3 (proposalMsg 2 102 2), .deliver 3 (prevoteMsg 2 102 2),
   .deliver 2 (prevoteMsg 2 102 3),
   .deliver 3 (precommitMsg 2 102 2), .deliver 2 (precommitMsg 2 102 3)]

/-- Validators `i` and `j` are both in `Commit`, with different block hashes. -/
def World.disagree (w : World ℕ ℕ ℕ ℕ) (i j : ℕ) : Bool :=
  match w.validators i, w.validators j with
  | some vi, some vj =>
    vi.consensus.state = .Commit && vj.consensus.state = .Commit &&
      vi.consensus.blockHash ≠ vj.consensus.blockHash
  | _, _ => false

theorem World.not_agreement_of_disagree {w : World ℕ ℕ ℕ ℕ} (i j : ℕ)
    (h : w.disagree i j = true) : ¬w.Agreement := by
  intro hagree
  unfold World.disagree at h
  split at h
  · rename_i vi vj hi hj
    simp only [Bool.and_eq_true, decide_eq_true_eq] at h
    exact h.2 (hagree i j vi vj hi hj h.1.1 h.1.2)
  · cases h

theorem agreement_violated :
    ∃ w, Transition.Reachable (· = World.start 7 leaderOfRound slotsOfFour)
      (World.step honestChain) w ∧ ¬w.Agreement := by
  have hrun : (Transition.run (World.step honestChain) (World.start 7 leaderOfRound slotsOfFour)
      disagreementRun).toOption.map (World.disagree · 0 2) = some true := by
    decide
  cases hw : Transition.run (World.step honestChain) (World.start 7 leaderOfRound slotsOfFour)
      disagreementRun with
  | error e => rw [hw] at hrun; cases hrun
  | ok w =>
    rw [hw] at hrun
    have h₀ : Transition.Reachable (· = World.start 7 leaderOfRound slotsOfFour)
        (World.step honestChain) (World.start 7 leaderOfRound slotsOfFour) := .init rfl
    refine ⟨w, h₀.run hw, World.not_agreement_of_disagree 0 2 ?_⟩
    simpa [Except.toOption] using hrun

end Disagreement

end Stegos
