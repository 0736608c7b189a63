import Stegos.Lib.Except
import Stegos.Consensus.Network

/-!
# The lock of one validator

The consensus of one validator, called by its node: `feed_message`,
`next_round`, `propose` and `prevote`, the last two failing unless
`should_propose` and `should_prevote` allow them, and the outbox published and
cleared after every call (`handle_consensus_events`).

A validator that times out in `Precommit` locks on its block (`next_round`,
`lock`), and the lock is to keep its later votes of the epoch on that block.

* `Consensus.call_unlocked`: an unlocked validator is locked by no call but a
  `next_round` from `Precommit`, the one place a lock is taken;
* `Consensus.feedMessage_takes_lock`: a proposal of the locked block, in
  `Propose`, takes the lock (`self.locked_round.take()`) for the pre-vote it
  repeats. A validator that then times out in `Prevote` is reset without it;
* `Consensus.run_unlocked`, `Consensus.lock_released`: from then on, through
  every run of calls without a `next_round` from `Precommit`, the validator
  stays unlocked, and its `prevote` refuses no block for a lock;
* `lock_lost`: so a validator pre-commits block 100 in round 0 and pre-votes
  block 102 in round 2 of the same epoch.
-/

namespace Stegos

/-- A call of the node on the consensus of its validator. -/
inductive ConsensusCall (N H B P : Type)
  | feedMessage (msg : ConsensusMessage N H P)
  | nextRound
  | propose (blockHash : H) (blockProposal : P)
  | prevote (block : B)

/-- Validator `2` of the four of `slotsOfFour`, alone. Round 0: it pre-votes the
    proposal of block 100, and with the pre-vote of `3` pre-commits it; it
    times out in `Precommit` and locks. Round 1: the proposal of block 100
    again takes the lock, and it times out in `Prevote`. Round 2: it leads,
    proposes block 102 and pre-votes it. -/
def lockRun : List (ConsensusCall ℕ ℕ ℕ ℕ) :=
  [.feedMessage (proposalMsg 0 100 0), .prevote 100, .feedMessage (prevoteMsg 0 100 3),
   .nextRound,
   .feedMessage (proposalMsg 1 100 1), .nextRound,
   .propose 102 102, .prevote 102]

namespace Consensus

variable {N H B P : Type} [Ord N] [Std.TransOrd N] [DecidableEq N] [DecidableEq H]
  [DecidableEq P] [Digest B H] [Digest P H]

open Digest

/-- A call on the consensus. `propose` and `prevote` check `should_propose` and
    `should_prevote` themselves, and fail when their guard does not hold. -/
def call (self : Consensus N H B P) :
    ConsensusCall N H B P → Except (Failure N H) (Consensus N H B P)
  | .feedMessage msg => self.feedMessage msg
  | .nextRound => self.nextRound
  | .propose blockHash blockProposal => self.propose blockHash blockProposal
  | .prevote block => self.prevote block

/-- A call, and then the outbox published and cleared, as the node does after
    every call (`handle_consensus_events`): the validator, and the messages it
    has emitted so far. -/
def emit (s : Consensus N H B P × List (ConsensusMessage N H P)) (c : ConsensusCall N H B P) :
    Except (Failure N H) (Consensus N H B P × List (ConsensusMessage N H P)) :=
  (fun self => ({ self with outbox := [] }, s.2 ++ self.outbox)) <$> s.1.call c

omit [Ord N] [Std.TransOrd N] [DecidableEq N] [DecidableEq H] in
/-- `expect` on a feed: success is the feed's. -/
theorem expectValid_eq_ok {α : Type} {r : Except (Failure N H) α} {a : α}
    (h : expectValid r = .ok a) : r = .ok a := by
  unfold expectValid at h
  split at h <;> simp_all

section Unlocked

variable {feed : Consensus N H B P → ConsensusMessage N H P →
    Except (Failure N H) (Consensus N H B P)}
  {self self' : Consensus N H B P}

/-- A nested feed that never locks an unlocked validator. -/
def KeepsUnlocked (feed : Consensus N H B P → ConsensusMessage N H P →
    Except (Failure N H) (Consensus N H B P)) : Prop :=
  ∀ self msg self', self.lockedRound = none → feed self msg = .ok self' →
    self'.lockedRound = none

omit [Std.TransOrd N] [DecidableEq N] [DecidableEq H] [DecidableEq P] [Digest B H] [Digest P H] in
theorem processInboxWith_unlocked (hf : KeepsUnlocked feed) (h : self.lockedRound = none)
    (hp : processInboxWith feed self = .ok self') : self'.lockedRound = none := by
  refine List.foldlM_except_induction (fun s : Consensus N H B P => s.lockedRound = none) ?_ hp h
  intro msg _ x y hx hy
  split at hy
  · cases hy; exact hx
  · exact hf x msg y hx hy

omit [Std.TransOrd N] [DecidableEq N] [DecidableEq H] [DecidableEq P] [Digest B H] [Digest P H] in
theorem proposeUncheckedWith_unlocked (hf : KeepsUnlocked feed) (h : self.lockedRound = none)
    {blockHash : H} {blockProposal : P}
    (hp : proposeUncheckedWith feed self blockHash blockProposal = .ok self') :
    self'.lockedRound = none := by
  dsimp only [proposeUncheckedWith] at hp
  exact hf _ _ _ (by exact h) (expectValid_eq_ok hp)

omit [DecidableEq N] [DecidableEq P] in
theorem prevoteWith_unlocked (hf : KeepsUnlocked feed) (h : self.lockedRound = none) {block : B}
    (hp : prevoteWith feed self block = .ok self') : self'.lockedRound = none := by
  simp only [prevoteWith, differsFromLocked, h, Except.ite_throw_bind_eq_ok, Except.bind_eq_ok,
    Except.ok.injEq, exists_eq_left', Bool.false_eq_true, if_false] at hp
  obtain ⟨-, -, -, -, hfeed⟩ := hp
  exact hf _ _ _ rfl (expectValid_eq_ok hfeed)

omit [Std.TransOrd N] [DecidableEq N] [DecidableEq H] [DecidableEq P] [Digest B H] [Digest P H] in
theorem precommitWith_unlocked (hf : KeepsUnlocked feed) (h : self.lockedRound = none)
    (hp : precommitWith feed self = .ok self') : self'.lockedRound = none := by
  simp only [precommitWith, Except.ite_throw_bind_eq_ok, Except.bind_eq_ok] at hp
  obtain ⟨-, -, _, -, hfeed⟩ := hp
  exact hf _ _ _ (by exact h) (expectValid_eq_ok hfeed)

omit [DecidableEq P] in
theorem onProposalWith_unlocked (hf : KeepsUnlocked feed) (h : self.lockedRound = none)
    {msg : ConsensusMessage N H P} {blockProposal : P}
    (hp : onProposalWith feed self msg blockProposal = .ok self') : self'.lockedRound = none := by
  simp only [onProposalWith, h, Except.ite_throw_bind_eq_ok, Except.bind_eq_ok, pure, Except.pure,
    Except.ok.injEq, exists_eq_left'] at hp
  obtain ⟨-, -, -, -, -, hinbox⟩ := hp
  exact processInboxWith_unlocked hf rfl hinbox

omit [DecidableEq P] [Digest B H] [Digest P H] in
/-- A vote collected leaves the lock as it was. -/
theorem collect_lockedRound {msg : ConsensusMessage N H P} (hp : self.collect msg = .ok self') :
    self'.lockedRound = self.lockedRound := by
  unfold collect at hp
  split at hp
  · cases hp; rfl
  · split at hp
    · cases hp
    · cases hp; rfl
  · split at hp
    · cases hp
    · split at hp
      · cases hp
      · split at hp
        · cases hp; rfl
        · cases hp

omit [DecidableEq N] [DecidableEq H] [DecidableEq P] [Digest B H] [Digest P H] in
theorem checkVotesWith_unlocked (hf : KeepsUnlocked feed) (h : self.lockedRound = none)
    (hp : checkVotesWith feed self = .ok self') : self'.lockedRound = none := by
  unfold checkVotesWith at hp
  split_ifs at hp
  · obtain ⟨⟨superMajority, _⟩, -, hrest⟩ := Except.bind_eq_ok.1 hp
    dsimp only at hrest
    split_ifs at hrest
    · cases hrest; exact h
    · exact precommitWith_unlocked hf (by exact h) hrest
    · cases hrest; exact h
  · obtain ⟨⟨superMajority, _⟩, -, hrest⟩ := Except.bind_eq_ok.1 hp
    dsimp only at hrest
    split_ifs at hrest <;> (cases hrest; exact h)
  · cases hp; exact h

omit [DecidableEq P] in
/-- A message taken once its epoch, round and hash are checked (the end of
    `feed_message`) keeps the validator unlocked. -/
theorem feedAdmitted_unlocked (hf : KeepsUnlocked feed) (h : self.lockedRound = none)
    {msg : ConsensusMessage N H P}
    (hp : (if self.state = .Commit then pure self
      else match admission msg.body self.state with
        | .early => pure (self.queue msg)
        | .unexpected => throw (Failure.error (.InvalidMessage self.state.name msg.name))
        | .accept => do
          let self ← match msg.body with
            | .Proposal blockProposal => onProposalWith feed self msg blockProposal
            | _ => self.collect msg
          checkVotesWith feed self) = .ok self') :
    self'.lockedRound = none := by
  split_ifs at hp
  · cases hp; exact h
  split at hp
  · cases hp; exact h
  · exact absurd hp Except.throw_ne_ok
  · split at hp
    · obtain ⟨self₁, h₁, hp⟩ := Except.bind_eq_ok.1 hp
      exact checkVotesWith_unlocked hf (onProposalWith_unlocked hf h h₁) hp
    · obtain ⟨self₁, h₁, hp⟩ := Except.bind_eq_ok.1 hp
      exact checkVotesWith_unlocked hf ((collect_lockedRound h₁).trans h) hp

theorem feedMessageWith_unlocked (hf : KeepsUnlocked feed) (h : self.lockedRound = none)
    {msg : ConsensusMessage N H P} (hp : feedMessageWith feed self msg = .ok self') :
    self'.lockedRound = none := by
  simp only [feedMessageWith, Except.bind_eq_ok, Except.ite_throw_bind_eq_ok] at hp
  obtain ⟨_, -, -, hp⟩ := hp
  -- a message of another epoch or round is dropped or queued; the others are
  -- checked against the block hash in every state but `Propose`
  split at hp
  · cases hp; exact h
  split at hp
  · cases hp; exact h
  split at hp
  · cases hp; exact h
  split at hp
  · obtain ⟨expected, -, hp⟩ := Except.bind_eq_ok.1 hp
    split at hp
    · exact absurd hp (by simp [throw, throwThe, MonadExceptOf.throw, bind, Except.bind])
    · exact feedAdmitted_unlocked hf h hp
  · exact feedAdmitted_unlocked hf h hp

omit [Std.TransOrd N] [DecidableEq H] [DecidableEq P] [Digest P H] in
theorem resetWith_unlocked (hf : KeepsUnlocked feed) (h : self.lockedRound = none)
    (hp : resetWith feed self = .ok self') : self'.lockedRound = none := by
  unfold resetWith at hp
  dsimp only at hp
  rw [h] at hp
  -- leader or not, an unlocked validator proposes nothing again
  split_ifs at hp <;> exact processInboxWith_unlocked hf rfl hp

omit [Std.TransOrd N] [DecidableEq H] [DecidableEq P] [Digest P H] in
theorem nextRoundWith_unlocked (hf : KeepsUnlocked feed) (h : self.lockedRound = none)
    (hs : self.state ≠ .Precommit) (hp : nextRoundWith feed self = .ok self') :
    self'.lockedRound = none := by
  unfold nextRoundWith at hp
  by_cases hc : self.state = .Commit
  · rw [if_pos hc] at hp
    cases hp
  · rw [if_neg hc] at hp
    dsimp only at hp
    rw [if_neg hs] at hp
    exact resetWith_unlocked hf (by exact h) hp

omit [Std.TransOrd N] [DecidableEq H] [DecidableEq P] [Digest B H] [Digest P H] in
theorem proposeWith_unlocked (hf : KeepsUnlocked feed) (h : self.lockedRound = none)
    {blockHash : H} {blockProposal : P}
    (hp : proposeWith feed self blockHash blockProposal = .ok self') :
    self'.lockedRound = none := by
  unfold proposeWith at hp
  split_ifs at hp
  exact proposeUncheckedWith_unlocked hf h hp

omit [DecidableEq P] in
/-- A proposal of the locked block, in `Propose`, takes the lock
    (`self.locked_round.take()`): the validator is left unlocked. -/
theorem onProposalWith_takes_lock (hf : KeepsUnlocked feed) {locked : LockedRound N H B P}
    (hl : self.lockedRound = some locked) {msg : ConsensusMessage N H P} {blockProposal : P}
    (hhash : msg.blockHash = digest locked.block)
    (hprop : digest locked.blockProposal = digest blockProposal)
    (hp : onProposalWith feed self msg blockProposal = .ok self') : self'.lockedRound = none := by
  simp only [onProposalWith, Except.ite_throw_bind_eq_ok, Except.bind_eq_ok, hl, hhash, hprop,
    and_self, if_true] at hp
  obtain ⟨-, -, -, -, -, self₁, h₁, hp⟩ := hp
  exact processInboxWith_unlocked hf (prevoteWith_unlocked hf rfl h₁) hp

end Unlocked

/-- `feed_message`, at every nesting, keeps a validator unlocked. -/
theorem feedMessageN_keepsUnlocked : ∀ n, KeepsUnlocked (feedMessageN n : Consensus N H B P → _)
  | 0 => fun _ _ _ _ hp => by cases hp
  | n + 1 => fun _ _ _ h hp => feedMessageWith_unlocked (feedMessageN_keepsUnlocked n) h hp

section Locks

variable {self self' : Consensus N H B P}

/-- `feed_message` of a proposal of the locked block, in `Propose`, at the
    validator's epoch and round: the lock is taken. -/
theorem feedMessageWith_takes_lock
    {feed : Consensus N H B P → ConsensusMessage N H P →
      Except (Failure N H) (Consensus N H B P)}
    (hf : KeepsUnlocked feed) {locked : LockedRound N H B P} (hl : self.lockedRound = some locked)
    (hs : self.state = .Propose) {msg : ConsensusMessage N H P} {blockProposal : P}
    (hbody : msg.body = .Proposal blockProposal) (hepoch : msg.epoch = self.epoch)
    (hround : msg.round = self.round) (hhash : msg.blockHash = digest locked.block)
    (hprop : digest locked.blockProposal = digest blockProposal)
    (hp : feedMessageWith feed self msg = .ok self') : self'.lockedRound = none := by
  simp only [feedMessageWith, Except.bind_eq_ok, Except.ite_throw_bind_eq_ok, hepoch, hround, hs,
    hbody, Nat.lt_irrefl, ne_eq, not_true_eq_false, reduceCtorEq, if_false, admission] at hp
  obtain ⟨_, -, -, self₁, h₁, hp⟩ := hp
  exact checkVotesWith_unlocked hf (onProposalWith_takes_lock hf hl hhash hprop h₁) hp

/-- A proposal of the locked block, fed in `Propose` at the validator's epoch
    and round, leaves it unlocked. -/
theorem feedMessage_takes_lock {locked : LockedRound N H B P} (hl : self.lockedRound = some locked)
    (hs : self.state = .Propose) {msg : ConsensusMessage N H P} {blockProposal : P}
    (hbody : msg.body = .Proposal blockProposal) (hepoch : msg.epoch = self.epoch)
    (hround : msg.round = self.round) (hhash : msg.blockHash = digest locked.block)
    (hprop : digest locked.blockProposal = digest blockProposal)
    (hp : self.feedMessage msg = .ok self') : self'.lockedRound = none :=
  feedMessageWith_takes_lock (feedMessageN_keepsUnlocked 2) hl hs hbody hepoch hround hhash hprop hp

/-- An unlocked validator is locked by no call but a `next_round` from `Precommit`. -/
theorem call_unlocked (h : self.lockedRound = none) {c : ConsensusCall N H B P}
    (hc : self.call c = .ok self') (hlock : ¬(c = .nextRound ∧ self.state = .Precommit)) :
    self'.lockedRound = none := by
  have hf : KeepsUnlocked (feedMessageN feedDepth : Consensus N H B P → _) :=
    feedMessageN_keepsUnlocked feedDepth
  cases c with
  | feedMessage msg => exact hf self msg self' h hc
  | nextRound => exact nextRoundWith_unlocked hf h (fun hs => hlock ⟨rfl, hs⟩) hc
  | propose blockHash blockProposal => exact proposeWith_unlocked hf h hc
  | prevote block => exact prevoteWith_unlocked hf h hc

/-- An unlocked validator stays unlocked through a run of calls none of which
    is a `next_round` from `Precommit`. -/
theorem run_unlocked (h : self.lockedRound = none) {calls : List (ConsensusCall N H B P)}
    (hcalls : Transition.Allowed call (fun s c => ¬(c = .nextRound ∧ s.state = .Precommit))
      self calls)
    (hrun : Transition.run call self calls = .ok self') : self'.lockedRound = none :=
  Transition.run_induction (P := fun s => s.lockedRound = none)
    (fun _ _ _ hs hc hcall => call_unlocked hs hcall hc) h hcalls hrun

/-- The lock is lost: a validator locked on a block, in `Propose`, that is fed
    at its epoch and round a proposal of the locked block gives up its lock,
    and stays unlocked through every later run of calls without a
    `next_round` from `Precommit`; its `prevote` then refuses no block for a
    lock. -/
theorem lock_released {locked : LockedRound N H B P} (hl : self.lockedRound = some locked)
    (hs : self.state = .Propose) {msg : ConsensusMessage N H P} {blockProposal : P}
    (hbody : msg.body = .Proposal blockProposal) (hepoch : msg.epoch = self.epoch)
    (hround : msg.round = self.round) (hhash : msg.blockHash = digest locked.block)
    (hprop : digest locked.blockProposal = digest blockProposal) {self₁ : Consensus N H B P}
    (hfeed : self.feedMessage msg = .ok self₁) {calls : List (ConsensusCall N H B P)}
    (hcalls : Transition.Allowed call (fun s c => ¬(c = .nextRound ∧ s.state = .Precommit))
      self₁ calls)
    (hrun : Transition.run call self₁ calls = .ok self') :
    self'.lockedRound = none ∧ ∀ blockHash, self'.differsFromLocked blockHash = .ok false := by
  have hunlocked : self'.lockedRound = none :=
    run_unlocked (feedMessage_takes_lock hl hs hbody hepoch hround hhash hprop hfeed) hcalls hrun
  exact ⟨hunlocked, fun blockHash => by rw [differsFromLocked, hunlocked]⟩

/-- Validator `2`, locked on block 100 after the first four calls of
    `lockRun`, is fed the proposal of block 100 of round 1, times out in
    `Prevote`, and proposes block 102 in round 2. -/
theorem lock_released_lockRun :
    ∃ (c₀ self self₁ self' : Consensus ℕ ℕ ℕ ℕ) (locked : LockedRound ℕ ℕ ℕ ℕ),
      Consensus.new 7 2 leaderOfRound slotsOfFour = .ok c₀ ∧
      Transition.run call c₀ (lockRun.take 4) = .ok self ∧
      self.lockedRound = some locked ∧ self.state = .Propose ∧
      (proposalMsg 1 100 1).body = .Proposal 100 ∧ (proposalMsg 1 100 1).epoch = self.epoch ∧
      (proposalMsg 1 100 1).round = self.round ∧
      (proposalMsg 1 100 1).blockHash = digest locked.block ∧
      digest locked.blockProposal = digest (100 : ℕ) ∧
      self.feedMessage (proposalMsg 1 100 1) = .ok self₁ ∧
      Transition.Allowed call (fun s c => ¬(c = .nextRound ∧ s.state = .Precommit)) self₁
        [.nextRound, .propose 102 102] ∧
      Transition.run call self₁ [.nextRound, .propose 102 102] = .ok self' ∧
      self'.lockedRound = none ∧ ∀ blockHash, self'.differsFromLocked blockHash = .ok false := by
  have htest : (do
      let c₀ ← (Consensus.new 7 2 leaderOfRound slotsOfFour : Except String (Consensus ℕ ℕ ℕ ℕ)).toOption
      let self ← (Transition.run call c₀ (lockRun.take 4)).toOption
      let locked ← self.lockedRound
      let self₁ ← (self.feedMessage (proposalMsg 1 100 1)).toOption
      let self' ← (Transition.run call self₁ [.nextRound, .propose 102 102]).toOption
      pure (decide (self.state = .Propose ∧ (proposalMsg 1 100 1).epoch = self.epoch ∧
        (proposalMsg 1 100 1).round = self.round ∧
        (proposalMsg 1 100 1).blockHash = digest locked.block ∧
        digest locked.blockProposal = digest (100 : ℕ) ∧ self₁.state ≠ .Precommit)) :
      Option Bool) = some true := by
    decide
  obtain ⟨c₀, h₀, htest⟩ := Option.bind_eq_some_iff.1 htest
  obtain ⟨self, h₁, htest⟩ := Option.bind_eq_some_iff.1 htest
  obtain ⟨locked, hl, htest⟩ := Option.bind_eq_some_iff.1 htest
  obtain ⟨self₁, h₂, htest⟩ := Option.bind_eq_some_iff.1 htest
  obtain ⟨self', h₃, htest⟩ := Option.bind_eq_some_iff.1 htest
  obtain ⟨hs, hepoch, hround, hhash, hprop, hprevote⟩ := of_decide_eq_true (Option.some.inj htest)
  -- after the proposal the validator is in `Prevote`; the calls after it are allowed
  have hcalls : Transition.Allowed call (fun s c => ¬(c = .nextRound ∧ s.state = .Precommit)) self₁
      [.nextRound, .propose 102 102] := by
    simpa [Transition.Allowed] using hprevote
  have hfeed := Except.toOption_eq_some.1 h₂
  have hrun := Except.toOption_eq_some.1 h₃
  exact ⟨c₀, self, self₁, self', locked, Except.toOption_eq_some.1 h₀, Except.toOption_eq_some.1 h₁,
    hl, hs, rfl, hepoch, hround, hhash, hprop, hfeed, hcalls, hrun,
    lock_released hl hs rfl hepoch hround hhash hprop hfeed hcalls hrun⟩

end Locks

end Consensus

/-- Run through `lockRun`, validator `2` emits a pre-commit of block 100 in
    round 0 and a pre-vote of block 102 in round 2, both of epoch 7. -/
theorem lock_lost :
    ∃ (c₀ : Consensus ℕ ℕ ℕ ℕ) (s : Consensus ℕ ℕ ℕ ℕ × List (ConsensusMessage ℕ ℕ ℕ)),
      Consensus.new 7 2 leaderOfRound slotsOfFour = .ok c₀ ∧
      Transition.Reachable (· = (c₀, [])) Consensus.emit s ∧
      precommitMsg 0 100 2 ∈ s.2 ∧ prevoteMsg 2 102 2 ∈ s.2 := by
  have htest : ((Prod.mk · []) <$> ((Consensus.new 7 2 leaderOfRound slotsOfFour).mapError .panic :
        Except (Failure ℕ ℕ) (Consensus ℕ ℕ ℕ ℕ))).toOption.bind (fun s₀ =>
      ((Transition.run Consensus.emit s₀ lockRun).toOption.map fun s =>
        decide (precommitMsg 0 100 2 ∈ s.2 ∧ prevoteMsg 2 102 2 ∈ s.2))) = some true := by
    decide
  obtain ⟨s₀, s, h₀, hs, h⟩ := Transition.Reachable.of_run_test htest
  obtain ⟨c₀, hc₀, rfl⟩ := Except.map_eq_ok.1 h₀
  exact ⟨c₀, s, Except.mapError_eq_ok.1 hc₀, hs, of_decide_eq_true h⟩

end Stegos
