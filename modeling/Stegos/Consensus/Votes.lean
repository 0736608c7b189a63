import Stegos.Lib.TreeMap
import Stegos.Consensus.Lock

/-!
# The votes of one validator

The invariants of the state of one validator (`Consensus`) against the
messages sent: `M`, those of the network, and its own outbox. Every transition
of `consensus/src/state.rs` keeps them.

* `Inv`: past `Propose` the validator holds the hash of a proposal of its
  round; the pre-votes it holds are messages of its round on that hash, its
  pre-commits signatures of it; its outbox holds its own messages, its votes
  on that hash.
* `Recorded`: its own messages agree with its state. Once it has pre-voted it
  is past `Propose` and holds its pre-vote; once it has pre-committed it is in
  `Precommit` or `Commit`; in `Precommit` or `Commit` it has pre-committed, or
  has seen a supermajority of pre-votes of others without its own
  (`SkipWitness`), and then never pre-commits in the round.
* `Settled`: at the end of `feed_message` the votes are checked, so no
  supermajority is left unheeded.
* `Moves`: how a validator moves within its round: forward through the
  states, its votes and outbox only growing.

`feed_message` calls itself. `FeedsWell` says what a nested feed keeps, of a
message from the network and of the validator's own message just sent;
`feedMessageN_feedsWell` proves it of every nesting, by induction on it, from
what one level does (`feedMessageWith_net`, `feedMessageWith_own`). The
other transitions keep the invariants given a feed that does
(`proposeWith_kept`, `prevoteWith_kept`, `resetWith_kept`, `nextRoundWith_kept`).
The supermajority of `check_supermajority` is `Quorum`, a sum of slots.

* `reachable_kept`: in every run of a validator from `Consensus::new`, over
  validators of positive slots, whose node calls it with messages of a
  network `M` that holds none of its key (`callFrom`), `Inv` and `Settled`
  hold: `Consensus::new` sets them up (`new_kept`), and each call keeps them
  (`callFrom_kept`).
-/

namespace Stegos

namespace Consensus

variable {N H B P : Type} [Ord N]

section Messages

/-- The pre-vote of `pk` on the hash `h`, at the validator's epoch and round. -/
def prevoteOf (self : Consensus N H B P) (pk : N) (h : H) : ConsensusMessage N H P :=
  ConsensusMessage.new self.epoch self.round h pk .Prevote

/-- The pre-commit of `pk` on the hash `h`, signing it, at the validator's epoch and round. -/
def precommitOf (self : Consensus N H B P) (pk : N) (h : H) : ConsensusMessage N H P :=
  ConsensusMessage.new self.epoch self.round h pk (.Precommit ⟨pk, h⟩)

/-- The proposal of `h` and `q` by the leader of the validator's round. -/
def proposalOf (self : Consensus N H B P) (h : H) (q : P) : ConsensusMessage N H P :=
  ConsensusMessage.new self.epoch self.round h (self.selectLeader self.round) (.Proposal q)

section Fields

variable (c : Consensus N H B P) (pk : N) (h : H) (q : P)

@[simp] theorem prevoteOf_body : (c.prevoteOf pk h).body = .Prevote := rfl
@[simp] theorem prevoteOf_pkey : (c.prevoteOf pk h).pkey = pk := rfl
@[simp] theorem prevoteOf_blockHash : (c.prevoteOf pk h).blockHash = h := rfl
@[simp] theorem precommitOf_body : (c.precommitOf pk h).body = .Precommit ⟨pk, h⟩ := rfl
@[simp] theorem precommitOf_pkey : (c.precommitOf pk h).pkey = pk := rfl
@[simp] theorem precommitOf_blockHash : (c.precommitOf pk h).blockHash = h := rfl
@[simp] theorem proposalOf_body : (c.proposalOf h q).body = .Proposal q := rfl
@[simp] theorem proposalOf_blockHash : (c.proposalOf h q).blockHash = h := rfl

end Fields

variable [Std.TransOrd N]

/-- The slots of the validators `T`. -/
def slots (self : Consensus N H B P) (T : Finset N) : ℤ := ∑ j ∈ T, (self.validators[j]?).getD 0

/-- Validators `T` with a supermajority of the slots, as `check_supermajority` counts it. -/
def Quorum (self : Consensus N H B P) (T : Finset N) : Prop :=
  (self.totalSlots * 2 + 3) / 3 ≤ self.slots T

end Messages

variable [Std.TransOrd N] [DecidableEq N] [DecidableEq H] [DecidableEq P] [Digest B H] [Digest P H]

open Digest

variable {self self' : Consensus N H B P} {msg : ConsensusMessage N H P}

omit [DecidableEq H] [DecidableEq P] [Digest B H] [Digest P H] in
/-- `check_supermajority` of the voters of `accepts`: whether they are a supermajority. -/
theorem checkSupermajority_eq_ok {α : Type} {accepts : Std.ExtTreeMap N α compare} {sm : Bool}
    {stake : ℤ} (h : self.checkSupermajority accepts = .ok (sm, stake)) :
    sm = true ↔ self.Quorum accepts.keys.toFinset := by
  unfold checkSupermajority at h
  obtain ⟨got, hgot, h⟩ := Except.bind_eq_ok.1 h
  obtain ⟨superMajority, hsm, h⟩ := Except.bind_eq_ok.1 h
  simp only [pure, Except.pure, Except.ok.injEq, Prod.mk.injEq] at h
  obtain ⟨rfl, -⟩ := h
  have hsum : got = self.slots accepts.keys.toFinset := by
    rw [Std.ExtTreeMap.foldlM_except_sum_keys (w := fun j => (self.validators[j]?).getD 0) _ hgot,
      Int.zero_add, slots]
    intro s j r hr
    split at hr
    · rename_i slots hslots
      simp only [Except.ok.injEq] at hr
      rw [← hr, hslots, Option.getD_some]
    · cases hr
  rw [Except.mapError_eq_ok, Stegos.checkSupermajority] at hsm
  split_ifs at hsm
  simp only [Except.ok.injEq] at hsm
  rw [← hsm, decide_eq_true_iff, Quorum, hsum]


omit [DecidableEq P] [Digest B H] [Digest P H] in
/-- What `collect` does: a pre-vote kept with its signature, a pre-commit kept
    once it signs the block hash; outside `Propose`. -/
theorem collect_eq_ok (h : self.collect msg = .ok self') :
    (∃ q, msg.body = .Proposal q ∧ self' = self) ∨
    (msg.body = .Prevote ∧ self.state ≠ .Propose ∧
      self' = { self with prevotes := self.prevotes.insert msg.pkey msg.sig }) ∨
    (∃ hash, msg.body = .Precommit ⟨msg.pkey, hash⟩ ∧ self.state ≠ .Propose ∧
      self.blockHash = some hash ∧
      self' = { self with precommits := self.precommits.insert msg.pkey ⟨msg.pkey, hash⟩ }) := by
  unfold collect at h
  split at h
  · rename_i q hq
    exact .inl ⟨q, hq, (Except.ok.inj h).symm⟩
  · split at h
    · cases h
    · rename_i hb hs
      exact .inr (.inl ⟨hb, hs, (Except.ok.inj h).symm⟩)
  · rename_i sig hb
    split at h
    · cases h
    · rename_i hs
      split at h
      · cases h
      · rename_i hash hhash
        split at h
        · rename_i hsig
          subst hsig
          exact .inr (.inr ⟨hash, hb, hs, hhash, (Except.ok.inj h).symm⟩)
        · cases h


section Outcomes

variable (feed : Consensus N H B P → ConsensusMessage N H P → Except (Failure N H) (Consensus N H B P))

/-- What `checkVotesWith` does: nothing without a supermajority; with one of
    the pre-votes, `Prevote` moves to `Precommit` and pre-commits if the
    validator has pre-voted; with one of the pre-commits, `Precommit` moves
    to `Commit`. -/
inductive VotesChecked (self : Consensus N H B P) : Consensus N H B P → Prop
  | stay : (self.state = .Prevote → ¬self.Quorum self.prevotes.keys.toFinset) →
      (self.state = .Precommit → ¬self.Quorum self.precommits.keys.toFinset) →
      VotesChecked self self
  | precommit {self' : Consensus N H B P} : self.state = .Prevote →
      self.Quorum self.prevotes.keys.toFinset → self.pkey ∈ self.prevotes →
      precommitWith feed { self with state := .Precommit } = .ok self' → VotesChecked self self'
  | skip : self.state = .Prevote → self.Quorum self.prevotes.keys.toFinset →
      self.pkey ∉ self.prevotes → VotesChecked self { self with state := .Precommit }
  | commit : self.state = .Precommit → self.Quorum self.precommits.keys.toFinset →
      VotesChecked self { self with state := .Commit }

/-- What `feedMessageWith` does with a message that passes its signature and
    sender checks: one of another epoch or a past round is dropped, one of a
    later round kept in the inbox; one of the current round is ignored in
    `Commit`, kept in the inbox as an early vote in `Propose`, taken as the
    proposal in `Propose`, or collected as a vote on the block hash. -/
inductive Fed (self : Consensus N H B P) (msg : ConsensusMessage N H P) :
    Consensus N H B P → Prop
  | discard : msg.epoch ≠ self.epoch ∨ msg.round < self.round → Fed self msg self
  | later : msg.epoch = self.epoch → self.round < msg.round → Fed self msg (self.queue msg)
  | ignore : msg.epoch = self.epoch → msg.round = self.round → self.state = .Commit →
      Fed self msg self
  | early : msg.epoch = self.epoch → msg.round = self.round → self.state = .Propose →
      (∀ q, msg.body ≠ .Proposal q) → Fed self msg (self.queue msg)
  | proposal {q : P} {self₁ self' : Consensus N H B P} : msg.epoch = self.epoch →
      msg.round = self.round → self.state = .Propose → msg.body = .Proposal q →
      onProposalWith feed self msg q = .ok self₁ → checkVotesWith feed self₁ = .ok self' →
      Fed self msg self'
  | vote {self₁ self' : Consensus N H B P} : msg.epoch = self.epoch → msg.round = self.round →
      (self.state = .Prevote ∨ self.state = .Precommit) → self.blockHash = some msg.blockHash →
      (∀ q, msg.body ≠ .Proposal q) → self.collect msg = .ok self₁ →
      checkVotesWith feed self₁ = .ok self' → Fed self msg self'

variable {feed}

omit [DecidableEq H] [DecidableEq P] [Digest B H] [Digest P H] in
theorem checkVotesWith_eq_ok (h : checkVotesWith feed self = .ok self') :
    VotesChecked feed self self' := by
  unfold checkVotesWith at h
  split_ifs at h with hprevote hprecommit
  · obtain ⟨⟨superMajority, stake⟩, hsm, h⟩ := Except.bind_eq_ok.1 h
    have hq := checkSupermajority_eq_ok hsm
    dsimp only at h
    split_ifs at h with hnot hmem
    · cases h
      exact .stay (fun _ hq' => by simp_all) (fun h' => absurd (hprevote.symm.trans h') (by decide))
    · exact .precommit hprevote (hq.1 (by simpa using hnot))
        (Std.ExtTreeMap.mem_iff_contains.2 hmem) h
    · cases h
      exact .skip hprevote (hq.1 (by simpa using hnot))
        (fun hm => hmem (Std.ExtTreeMap.mem_iff_contains.1 hm))
  · obtain ⟨⟨superMajority, stake⟩, hsm, h⟩ := Except.bind_eq_ok.1 h
    have hq := checkSupermajority_eq_ok hsm
    dsimp only at h
    split_ifs at h with hyes
    · cases h
      exact .commit hprecommit (hq.1 hyes)
    · cases h
      exact .stay (fun h' => absurd h' hprevote) (fun _ hq' => hyes (hq.2 hq'))
  · cases h
    exact .stay (fun h' => absurd h' hprevote) (fun h' => absurd h' hprecommit)


omit [Ord N] [Std.TransOrd N] [DecidableEq N] [DecidableEq H] [DecidableEq P] [Digest B H] [Digest P H] in
theorem admission_eq_early {b : ConsensusMessageBody N H P} {s : ConsensusState}
    (h : admission b s = .early) : s = .Propose ∧ ∀ q, b ≠ .Proposal q := by
  cases b <;> cases s <;> (try cases h) <;> exact ⟨rfl, fun q hq => by cases hq⟩

omit [Ord N] [Std.TransOrd N] [DecidableEq N] [DecidableEq H] [DecidableEq P] [Digest B H] [Digest P H] in
theorem admission_eq_accept {b : ConsensusMessageBody N H P} {s : ConsensusState}
    (h : admission b s = .accept) :
    (∃ q, b = .Proposal q) ∧ s = .Propose ∨
      (∀ q, b ≠ .Proposal q) ∧ (s = .Prevote ∨ s = .Precommit ∨ s = .Commit) := by
  cases b <;> cases s <;> (try cases h) <;> first
    | exact .inl ⟨⟨_, rfl⟩, rfl⟩
    | exact .inr ⟨fun q hq => (by cases hq), by simp⟩

omit [DecidableEq P] in
/-- The end of `feedMessageWith`, for a message of the current epoch and round
    whose hash is checked outside `Propose`. -/
theorem fed_of_admitted (he : msg.epoch = self.epoch) (hr : msg.round = self.round)
    (hhash : self.state ≠ .Propose → self.blockHash = some msg.blockHash)
    (h : (if self.state = .Commit then pure self
      else match admission msg.body self.state with
        | .early => pure (self.queue msg)
        | .unexpected => throw (Failure.error (.InvalidMessage self.state.name msg.name))
        | .accept => do
          let self ← match msg.body with
            | .Proposal blockProposal => onProposalWith feed self msg blockProposal
            | _ => self.collect msg
          checkVotesWith feed self) = .ok self') :
    Fed feed self msg self' := by
  split_ifs at h with hc
  · cases h
    exact .ignore he hr hc
  split at h
  · rename_i hadm
    cases h
    obtain ⟨hs, hb⟩ := admission_eq_early hadm
    exact .early he hr hs hb
  · exact absurd h Except.throw_ne_ok
  · rename_i hadm
    split at h
    · rename_i q hq
      obtain ⟨self₁, h₁, h⟩ := Except.bind_eq_ok.1 h
      have hs : self.state = .Propose := by
        rcases admission_eq_accept hadm with ⟨-, hs⟩ | ⟨hb, -⟩
        · exact hs
        · exact absurd (hq.symm ▸ rfl : msg.body = .Proposal q) (hb q)
      exact .proposal he hr hs hq h₁ h
    · rename_i hnp
      obtain ⟨self₁, h₁, h⟩ := Except.bind_eq_ok.1 h
      rcases admission_eq_accept hadm with ⟨⟨q, hq⟩, -⟩ | ⟨hb, hs⟩
      · exact absurd hq (hnp q)
      · have hs' : self.state = .Prevote ∨ self.state = .Precommit := by
          rcases hs with hs | hs | hs
          · exact .inl hs
          · exact .inr hs
          · exact absurd hs hc
        have hne : self.state ≠ .Propose := by rcases hs' with hs' | hs' <;> rw [hs'] <;> decide
        exact .vote he hr hs' (hhash hne) hb h₁ h

theorem feedMessageWith_eq_ok (h : feedMessageWith feed self msg = .ok self') :
    msg.sig = ⟨msg.pkey, (msg.epoch, msg.round, msg.blockHash, msg.body)⟩ ∧
      msg.pkey ∈ self.validators ∧ Fed feed self msg self' := by
  simp only [feedMessageWith, Except.bind_eq_ok, Except.ite_throw_bind_eq_ok] at h
  obtain ⟨_, hvalid, hcontains, h⟩ := h
  refine ⟨?_, ?_, ?_⟩
  · rw [Except.mapError_eq_ok, ConsensusMessage.validate] at hvalid
    split_ifs at hvalid with hsig
    exact hsig
  · exact Std.ExtTreeMap.mem_iff_contains.2 (by simpa using hcontains)
  -- a message of another epoch or of a past round is dropped, one of a later round kept
  split at h
  · cases h
    exact .discard (.inl ‹_›)
  rename_i hepoch
  split at h
  · cases h
    exact .discard (.inr ‹_›)
  rename_i hpast
  split at h
  · cases h
    exact .later (not_not.1 hepoch) ‹_›
  have hr : msg.round = self.round := by omega
  split at h
  · -- outside `Propose` the hash is checked first
    obtain ⟨expected, hexp, h⟩ := Except.bind_eq_ok.1 h
    split at h
    · exact absurd h (by simp [throw, throwThe, MonadExceptOf.throw, bind, Except.bind])
    · rename_i hne
      refine fed_of_admitted (not_not.1 hepoch) hr (fun _ => ?_) h
      unfold expectBlockHash at hexp
      split at hexp
      · rename_i hh
        cases hexp
        rw [hh, not_not.1 hne]
      · cases hexp
  · rename_i hprop
    exact fed_of_admitted (not_not.1 hepoch) hr (fun hs => absurd (not_not.1 hprop) hs) h

end Outcomes


section Invariants

/-- The messages a validator sends in its round: its proposal when it leads
    the round, its pre-vote and its pre-commit. -/
inductive Own (c : Consensus N H B P) : ConsensusMessage N H P → Prop
  | proposal (h : H) (q : P) : c.selectLeader c.round = c.pkey →
      Own c (c.proposalOf h q)
  | prevote (h : H) : Own c (c.prevoteOf c.pkey h)
  | precommit (h : H) : Own c (c.precommitOf c.pkey h)

/-- A message the validator has just sent and now feeds to itself: the
    proposal of the leader, in `Propose`; a pre-vote on the block hash; a
    pre-commit of it, in `Precommit`, after the validator's own pre-vote. -/
inductive Sending (c : Consensus N H B P) : ConsensusMessage N H P → Prop
  | proposal (h : H) (q : P) : c.state = .Propose → c.selectLeader c.round = c.pkey →
      Sending c (c.proposalOf h q)
  | prevote (h : H) : c.state ≠ .Propose → c.blockHash = some h →
      Sending c (c.prevoteOf c.pkey h)
  | precommit (h : H) : c.state = .Precommit → c.blockHash = some h →
      c.pkey ∈ c.prevotes → Sending c (c.precommitOf c.pkey h)

/-- What a validator keeps through a reset: its key among the validators,
    their positive slots and their total, the pre-commits of its lock signing
    the locked block, and an inbox of messages from the network `M`. -/
structure Basis (M : List (ConsensusMessage N H P)) (c : Consensus N H B P) : Prop where
  mem : c.pkey ∈ c.validators
  slots_pos : ∀ (j : N) (s : ℤ), c.validators[j]? = some s → 0 < s
  totalSlots : c.totalSlots = c.slots c.validators.keys.toFinset
  locked : ∀ L, c.lockedRound = some L →
    ∀ (pk : N) (sig : Signed N H), L.precommits[pk]? = some sig → sig = ⟨pk, digest L.block⟩
  inbox : ∀ m ∈ c.inbox, m ∈ M

/-- The state of a validator against the messages sent, `M` from the network
    and its own outbox: past `Propose` it holds the hash of a proposal of its
    round; its pre-votes are messages of its round on that hash, its
    pre-commits signatures of it, its block hashes to it; its outbox holds
    its own messages of the round. -/
structure Inv (M : List (ConsensusMessage N H P)) (c : Consensus N H B P) : Prop
    extends Basis M c where
  propose : c.state = .Propose → c.blockHash = none
  proposal : c.state ≠ .Propose → ∃ h q, c.blockHash = some h ∧
    c.blockProposal = some q ∧ c.proposalOf h q ∈ M ++ c.outbox
  prevotes : ∀ pk ∈ c.prevotes, ∃ h, c.blockHash = some h ∧ c.prevoteOf pk h ∈ M ++ c.outbox
  precommits : ∀ (pk : N) (sig : Signed N H), c.precommits[pk]? = some sig →
    ∃ h, c.blockHash = some h ∧ sig = ⟨pk, h⟩
  block : ∀ b, c.block = some b → c.blockHash = some (digest b)
  outbox : ∀ m ∈ c.outbox, c.Own m
  votes : ∀ h, c.prevoteOf c.pkey h ∈ c.outbox ∨ c.precommitOf c.pkey h ∈ c.outbox →
    c.blockHash = some h

/-- Validators holding a supermajority of the slots whose pre-votes on the
    block hash, other than the validator's own, are in `M` or the outbox:
    what a validator has seen when it goes to `Precommit` without pre-voting. -/
def SkipWitness (M : List (ConsensusMessage N H P)) (c : Consensus N H B P) : Prop :=
  ∃ T : Finset N, c.Quorum T ∧ ∀ j ∈ T, j ≠ c.pkey ∧
    ∃ h, c.blockHash = some h ∧ c.prevoteOf j h ∈ M ++ c.outbox

/-- The validator's own messages agree with its state. Once it has pre-voted it
    is past `Propose` and holds its own pre-vote, unless in `Commit`; once it
    has pre-committed it is in `Precommit` or `Commit`, after its pre-vote; in
    `Precommit` or `Commit` it has pre-committed, or gone there on a
    supermajority of pre-votes without its own; once the leader has proposed
    it is past `Propose`. The messages `p` are sent but not yet fed back. -/
structure Recorded (M p : List (ConsensusMessage N H P)) (c : Consensus N H B P) : Prop where
  prevoted : ∀ h, c.prevoteOf c.pkey h ∈ M ++ c.outbox → c.prevoteOf c.pkey h ∉ p →
    c.state ≠ .Propose ∧ (c.pkey ∈ c.prevotes ∨ c.state = .Commit)
  precommitted : ∀ h, c.precommitOf c.pkey h ∈ M ++ c.outbox →
    c.precommitOf c.pkey h ∉ p →
    (c.state = .Precommit ∨ c.state = .Commit) ∧ c.pkey ∈ c.prevotes
  skipped : c.state = .Precommit ∨ c.state = .Commit →
    (∃ h, c.precommitOf c.pkey h ∈ M ++ c.outbox) ∨ c.SkipWitness M
  proposed : c.selectLeader c.round = c.pkey → ∀ h q, c.proposalOf h q ∈ M ++ c.outbox →
    c.proposalOf h q ∉ p → c.state ≠ .Propose ∧ c.blockHash = some h

/-- The votes are checked (the end of every `feed_message`): in `Prevote` the
    pre-votes are no supermajority, and in `Precommit`, once the validator's
    own pre-vote is in and its pre-commit fed back, neither are the pre-commits. -/
structure Settled (M p : List (ConsensusMessage N H P)) (c : Consensus N H B P) : Prop
    extends Recorded M p c where
  prevoteQuorum : c.state = .Prevote → ¬c.Quorum c.prevotes.keys.toFinset
  precommitQuorum : c.state = .Precommit → c.pkey ∈ c.prevotes →
    (∀ h, c.precommitOf c.pkey h ∉ p) → ¬c.Quorum c.precommits.keys.toFinset

/-- How a validator moves within its round: its key, epoch, validators and
    round stay; it never goes back to `Propose`, nor leaves `Commit`; its block
    hash, pre-votes, pre-commits (past `Propose`) and outbox only grow; its
    lock stays or is given up; in `Propose` its inbox only grows; and once it
    has pre-voted in `Prevote` it stays there or pre-commits. -/
structure Moves (c c' : Consensus N H B P) : Prop where
  pkey : c'.pkey = c.pkey
  epoch : c'.epoch = c.epoch
  validators : c'.validators = c.validators
  totalSlots : c'.totalSlots = c.totalSlots
  selectLeader : c'.selectLeader = c.selectLeader
  round : c'.round = c.round
  blockHash : ∀ h, c.blockHash = some h → c'.blockHash = some h
  state : c.state ≠ .Propose → c'.state ≠ .Propose
  commit : c.state = .Commit → c'.state = .Commit
  prevotes : ∀ pk ∈ c.prevotes, pk ∈ c'.prevotes
  precommits : c.state ≠ .Propose → ∀ pk ∈ c.precommits, pk ∈ c'.precommits
  outbox : c.outbox <+: c'.outbox
  lockedRound : c'.lockedRound = c.lockedRound ∨ c'.lockedRound = none
  inbox : c'.state = .Propose → c.inbox <+: c'.inbox
  precommitted : c.state = .Prevote → c.pkey ∈ c.prevotes →
    c'.state = .Prevote ∨
      ∃ h, c'.blockHash = some h ∧ c'.precommitOf c'.pkey h ∈ c'.outbox

end Invariants

omit [Std.TransOrd N] [DecidableEq N] [DecidableEq H] [DecidableEq P] [Digest B H] [Digest P H] in
/-- Whose messages are the validator's own depends on its key, epoch, round
    and leaders only. -/
theorem Own.of_eq {c c' : Consensus N H B P} {m : ConsensusMessage N H P} (hm : c.Own m)
    (hk : c'.pkey = c.pkey) (he : c'.epoch = c.epoch) (hr : c'.round = c.round)
    (hl : c'.selectLeader = c.selectLeader) : c'.Own m := by
  have hmsg : ∀ pk h, c'.prevoteOf pk h = c.prevoteOf pk h ∧ c'.precommitOf pk h = c.precommitOf pk h ∧
      ∀ q, c'.proposalOf h q = c.proposalOf h q := by
    intro pk h
    simp only [prevoteOf, precommitOf, proposalOf, he, hr, hl, and_self, implies_true]
  rcases hm with ⟨h, q, hlead⟩ | ⟨h⟩ | ⟨h⟩
  · rw [← (hmsg c.pkey h).2.2 q]
    exact .proposal h q (by rw [hl, hr, hk]; exact hlead)
  · rw [← (hmsg c.pkey h).1, ← hk]
    exact .prevote h
  · rw [← (hmsg c.pkey h).2.1, ← hk]
    exact .precommit h

namespace Moves

variable {c₁ c₂ c₃ : Consensus N H B P}

omit [DecidableEq N] [DecidableEq H] [DecidableEq P] [Digest B H] [Digest P H] in
@[refl]
theorem refl (c : Consensus N H B P) : Moves c c :=
  ⟨rfl, rfl, rfl, rfl, rfl, rfl, fun _ h => h, id, id, fun _ h => h, fun _ _ h => h,
    List.prefix_refl _, .inl rfl, fun _ => List.prefix_refl _, fun hs _ => .inl hs⟩

omit [DecidableEq N] [DecidableEq H] [DecidableEq P] [Digest B H] [Digest P H] in
theorem prevoteOf_eq (h : Moves c₁ c₂) : c₂.prevoteOf = c₁.prevoteOf := by
  funext pk hash
  rw [prevoteOf, prevoteOf, h.epoch, h.round]

omit [DecidableEq N] [DecidableEq H] [DecidableEq P] [Digest B H] [Digest P H] in
theorem precommitOf_eq (h : Moves c₁ c₂) : c₂.precommitOf = c₁.precommitOf := by
  funext pk hash
  rw [precommitOf, precommitOf, h.epoch, h.round]

omit [DecidableEq N] [DecidableEq H] [DecidableEq P] [Digest B H] [Digest P H] in
theorem proposalOf_eq (h : Moves c₁ c₂) : c₂.proposalOf = c₁.proposalOf := by
  funext hash q
  rw [proposalOf, proposalOf, h.epoch, h.round, h.selectLeader]

omit [DecidableEq N] [DecidableEq H] [DecidableEq P] [Digest B H] [Digest P H] in
theorem trans (h₁ : Moves c₁ c₂) (h₂ : Moves c₂ c₃) : Moves c₁ c₃ where
  pkey := h₂.pkey.trans h₁.pkey
  epoch := h₂.epoch.trans h₁.epoch
  validators := h₂.validators.trans h₁.validators
  totalSlots := h₂.totalSlots.trans h₁.totalSlots
  selectLeader := h₂.selectLeader.trans h₁.selectLeader
  round := h₂.round.trans h₁.round
  blockHash h hh := h₂.blockHash h (h₁.blockHash h hh)
  state hs := h₂.state (h₁.state hs)
  commit hs := h₂.commit (h₁.commit hs)
  prevotes pk hpk := h₂.prevotes pk (h₁.prevotes pk hpk)
  precommits hs pk hpk := h₂.precommits (h₁.state hs) pk (h₁.precommits hs pk hpk)
  outbox := h₁.outbox.trans h₂.outbox
  lockedRound := by
    rcases h₂.lockedRound with h | h
    · rcases h₁.lockedRound with h' | h'
      · exact .inl (h.trans h')
      · exact .inr (h.trans h')
    · exact .inr h
  inbox hs := by
    -- a validator back in `Propose` at the end was there all along
    have hs₂ : c₂.state = .Propose := by
      by_contra hne
      exact h₂.state hne hs
    exact (h₁.inbox hs₂).trans (h₂.inbox hs)
  precommitted hs hmem := by
    rcases h₁.precommitted hs hmem with hs₂ | ⟨h, hh, hout⟩
    · exact h₂.precommitted hs₂ (by rw [h₁.pkey]; exact h₁.prevotes _ hmem)
    · -- pre-committed in the first part: the message stays in the outbox
      refine .inr ⟨h, h₂.blockHash h hh, ?_⟩
      rw [h₂.precommitOf_eq, h₂.pkey]
      exact h₂.outbox.subset hout

omit [DecidableEq N] [DecidableEq H] [DecidableEq P] [Digest B H] [Digest P H] in
/-- A validator's own messages stay its own as it moves within the round. -/
theorem own (h : Moves c₁ c₂) {m : ConsensusMessage N H P} (hm : c₁.Own m) : c₂.Own m :=
  hm.of_eq h.pkey h.epoch h.round h.selectLeader

end Moves

section Basics

variable {M p : List (ConsensusMessage N H P)} {c c' : Consensus N H B P}

omit [DecidableEq H] [DecidableEq P] [Digest P H] in
theorem Basis.slots_nonneg (hc : Basis M c) (j : N) : 0 ≤ (c.validators[j]?).getD 0 := by
  cases hj : c.validators[j]? with
  | none => exact le_refl 0
  | some s => exact (hc.slots_pos j s hj).le

omit [DecidableEq H] [DecidableEq P] [Digest P H] in
theorem Basis.slots_mono (hc : Basis M c) {T T' : Finset N} (h : T ⊆ T') :
    c.slots T ≤ c.slots T' :=
  Finset.sum_le_sum_of_subset_of_nonneg h fun j _ _ => hc.slots_nonneg j

omit [DecidableEq H] [DecidableEq P] [Digest P H] in
/-- No validator at all is never a supermajority: the slots are positive. -/
theorem Basis.not_quorum_empty (hc : Basis M c) : ¬c.Quorum ∅ := by
  have htotal : 0 ≤ c.totalSlots := by
    rw [hc.totalSlots]
    exact Finset.sum_nonneg fun j _ => hc.slots_nonneg j
  unfold Quorum slots
  rw [Finset.sum_empty]
  omega

omit [DecidableEq H] [DecidableEq P] [Digest P H] in
theorem Basis.quorum_mono (hc : Basis M c) {T T' : Finset N} (h : T ⊆ T') (hq : c.Quorum T) :
    c.Quorum T' :=
  le_trans hq (hc.slots_mono h)

omit [Ord N] [Std.TransOrd N] [DecidableEq N] [DecidableEq H] [DecidableEq P] [Digest P H] in
/-- A message that passes `ConsensusMessage::validate` is the one `ConsensusMessage::new` makes of its fields. -/
theorem eq_new_of_sig {m : ConsensusMessage N H P}
    (hsig : m.sig = ⟨m.pkey, (m.epoch, m.round, m.blockHash, m.body)⟩) :
    m = ConsensusMessage.new m.epoch m.round m.blockHash m.pkey m.body := by
  cases m
  simp only at hsig
  simp [ConsensusMessage.new, hsig]

end Basics



section Collect

variable [Std.LawfulEqOrd N] {M p : List (ConsensusMessage N H P)} {c c' : Consensus N H B P}
  {msg : ConsensusMessage N H P}

omit [DecidableEq N] [DecidableEq H] [DecidableEq P] [Digest B H] [Digest P H] [Std.LawfulEqOrd N] in
/-- Moving within the round by collecting pre-votes. -/
theorem moves_prevotes {P' : Std.ExtTreeMap N (Signed N (ℕ × ℕ × H × ConsensusMessageBody N H P)) compare}
    (h : ∀ pk ∈ c.prevotes, pk ∈ P') : Moves c { c with prevotes := P' } :=
  ⟨rfl, rfl, rfl, rfl, rfl, rfl, fun _ h => h, id, id, h, fun _ _ h => h,
    List.prefix_refl _, .inl rfl, fun _ => List.prefix_refl _, fun hs _ => .inl hs⟩

omit [DecidableEq N] [DecidableEq H] [DecidableEq P] [Digest B H] [Digest P H] [Std.LawfulEqOrd N] in
/-- Moving within the round by collecting pre-commits. -/
theorem moves_precommits {P' : Std.ExtTreeMap N (Signed N H) compare}
    (h : ∀ pk ∈ c.precommits, pk ∈ P') : Moves c { c with precommits := P' } :=
  ⟨rfl, rfl, rfl, rfl, rfl, rfl, fun _ h => h, id, id, fun _ h => h, fun _ => h,
    List.prefix_refl _, .inl rfl, fun _ => List.prefix_refl _, fun hs _ => .inl hs⟩

omit [Digest P H] in
/-- A vote of the round on the block hash, collected, is recorded, and the
    invariants hold. The messages `p` are the vote itself when the validator
    feeds back its own vote, and none for a vote from the network. -/
theorem collect_kept (hc : Inv M c) (hr : Recorded M p c) (hp : ∀ m ∈ p, m = msg ∧ c.Sending msg)
    (hmsg : msg ∈ M ++ c.outbox)
    (hsig : msg.sig = ⟨msg.pkey, (msg.epoch, msg.round, msg.blockHash, msg.body)⟩)
    (he : msg.epoch = c.epoch) (hround : msg.round = c.round)
    (hhash : c.blockHash = some msg.blockHash) (hnp : ∀ q, msg.body ≠ .Proposal q)
    (h : c.collect msg = .ok c') : Inv M c' ∧ Recorded M [] c' ∧ Moves c c' := by
  have hnew : ConsensusMessage.new c.epoch c.round msg.blockHash msg.pkey msg.body = msg := by
    rw [← he, ← hround]
    exact (eq_new_of_sig hsig).symm
  rcases collect_eq_ok h with ⟨q, hq, -⟩ | ⟨hb, hs, rfl⟩ | ⟨hash, hb, hs, hbh, rfl⟩
  · exact absurd hq (hnp q)
  · -- a pre-vote, kept under its sender
    have hpv : c.prevoteOf msg.pkey msg.blockHash = msg := by rw [prevoteOf, ← hb, hnew]
    have hmv : Moves c { c with prevotes := c.prevotes.insert msg.pkey msg.sig } :=
      moves_prevotes fun pk hpk => Std.ExtTreeMap.mem_insert_iff.2 (.inr hpk)
    refine ⟨{ hc with prevotes := fun pk hpk => ?_, outbox := fun m hm => hmv.own (hc.outbox m hm) },
      ⟨fun h' hmem _ => ?_, fun h' hmem _ => ?_, hr.skipped, fun hl h q hm _ =>
        ⟨hs, (hr.proposed hl h q hm fun hin => hnp q (by rw [← (hp _ hin).1]; rfl)).2⟩⟩, hmv⟩
    · rcases Std.ExtTreeMap.mem_insert_iff.1 hpk with rfl | hpk
      · exact ⟨msg.blockHash, hhash, hpv ▸ hmsg⟩
      · exact hc.prevotes pk hpk
    · by_cases hin : c.prevoteOf c.pkey h' ∈ p
      · -- the validator's own pre-vote, just fed back
        have hown := (hp _ hin).1
        refine ⟨hs, .inl (Std.ExtTreeMap.mem_insert_iff.2 (.inl ?_))⟩
        rw [← hown, prevoteOf_pkey]
      · obtain ⟨hs', hv⟩ := hr.prevoted h' hmem hin
        exact ⟨hs', hv.imp_left fun hv => Std.ExtTreeMap.mem_insert_iff.2 (.inr hv)⟩
    · have hin : c.precommitOf c.pkey h' ∉ p := fun hin => by
        have hown := congrArg ConsensusMessage.body (hp _ hin).1
        rw [precommitOf_body, hb] at hown
        cases hown
      obtain ⟨hs', hv⟩ := hr.precommitted h' hmem hin
      exact ⟨hs', Std.ExtTreeMap.mem_insert_iff.2 (.inr hv)⟩
  · -- a pre-commit, kept with its signature of the block hash
    have hmh : hash = msg.blockHash := Option.some.inj (hbh.symm.trans hhash)
    subst hmh
    have hmv : Moves c { c with precommits := c.precommits.insert msg.pkey ⟨msg.pkey, msg.blockHash⟩ } :=
      moves_precommits fun pk hpk => Std.ExtTreeMap.mem_insert_iff.2 (.inr hpk)
    refine ⟨{ hc with precommits := fun pk sig hpk => ?_, outbox := fun m hm => hmv.own (hc.outbox m hm) },
      ⟨fun h' hmem _ => ?_, fun h' hmem _ => ?_, hr.skipped, fun hl h q hm _ =>
        ⟨hs, (hr.proposed hl h q hm fun hin => hnp q (by rw [← (hp _ hin).1]; rfl)).2⟩⟩, hmv⟩
    · rw [Std.ExtTreeMap.getElem?_insert_eq_some] at hpk
      rcases hpk with ⟨rfl, rfl⟩ | ⟨-, hpk⟩
      · exact ⟨_, hbh, rfl⟩
      · exact hc.precommits pk sig hpk
    · have hin : c.prevoteOf c.pkey h' ∉ p := fun hin => by
        have hown := congrArg ConsensusMessage.body (hp _ hin).1
        rw [prevoteOf_body, hb] at hown
        cases hown
      exact hr.prevoted h' hmem hin
    · by_cases hin : c.precommitOf c.pkey h' ∈ p
      · -- the validator's own pre-commit, just fed back: it is in `Precommit`
        obtain ⟨hown, hsend⟩ := hp _ hin
        rw [← hown] at hsend
        cases hsend with
        | precommit _ hs' _ hv => exact ⟨.inl hs', hv⟩
      · exact hr.precommitted h' hmem hin

end Collect

section Steps

variable [Std.LawfulEqOrd N] {M p : List (ConsensusMessage N H P)} {c c' : Consensus N H B P}
  {m : ConsensusMessage N H P}
  {feed : Consensus N H B P → ConsensusMessage N H P → Except (Failure N H) (Consensus N H B P)}

omit [Std.LawfulEqOrd N] [Ord N] [Std.TransOrd N] [DecidableEq N] [DecidableEq H] [DecidableEq P]
  [Digest P H] in
theorem mem_send {x : ConsensusMessage N H P} {o : List (ConsensusMessage N H P)} :
    x ∈ M ++ (o ++ [m]) ↔ x ∈ M ++ o ∨ x = m := by
  simp only [List.mem_append, List.mem_singleton, or_assoc]

omit [Std.LawfulEqOrd N] [Ord N] [Std.TransOrd N] [DecidableEq N] [DecidableEq H] [DecidableEq P]
  [Digest P H] in
theorem mem_of_send {x : ConsensusMessage N H P} {o : List (ConsensusMessage N H P)}
    (hx : x ∈ M ++ (o ++ [m])) (hp : x ∉ p ++ [m]) : x ∈ M ++ o :=
  (mem_send.1 hx).resolve_right fun h => hp (List.mem_append_right _ (List.mem_singleton.2 h))

omit [Std.LawfulEqOrd N] [DecidableEq N] [DecidableEq H] [DecidableEq P] [Digest B H] [Digest P H] in
/-- Sending a message only grows the outbox. -/
theorem moves_send : Moves c { c with outbox := c.outbox ++ [m] } :=
  ⟨rfl, rfl, rfl, rfl, rfl, rfl, fun _ h => h, id, id, fun _ h => h, fun _ _ h => h,
    List.prefix_append _ _, .inl rfl, fun _ => List.prefix_refl _, fun hs _ => .inl hs⟩

omit [Std.LawfulEqOrd N] [DecidableEq N] [DecidableEq H] [DecidableEq P] [Digest B H] [Digest P H] in
/-- Moving to a state past `Propose`, on from `Commit`, and from `Prevote`
    after pre-voting only by pre-committing. -/
theorem moves_advance {s : ConsensusState} (hs' : s ≠ .Propose)
    (hc : c.state = .Commit → s = .Commit)
    (hpc : c.state = .Prevote → c.pkey ∈ c.prevotes → s = .Prevote ∨
      ∃ h, c.blockHash = some h ∧ c.precommitOf c.pkey h ∈ c.outbox) :
    Moves c { c with state := s } :=
  ⟨rfl, rfl, rfl, rfl, rfl, rfl, fun _ h => h, fun _ => hs', hc, fun _ h => h, fun _ _ h => h,
    List.prefix_refl _, .inl rfl, fun h => absurd h hs', hpc⟩

omit [Std.LawfulEqOrd N] [DecidableEq N] [DecidableEq H] [DecidableEq P] [Digest B H] [Digest P H] in
theorem Sending.own (hm : c.Sending m) : c.Own m := by
  rcases hm with ⟨h, q, -, hl⟩ | ⟨h, -, -⟩ | ⟨h, -, -, -⟩
  · exact .proposal h q hl
  · exact .prevote h
  · exact .precommit h

omit [Std.LawfulEqOrd N] [DecidableEq N] [DecidableEq H] [DecidableEq P] [Digest B H] [Digest P H] in
/-- A vote the validator sends is on its block hash. -/
theorem Sending.votes (hm : c.Sending m) (h : H)
    (hv : m = c.prevoteOf c.pkey h ∨ m = c.precommitOf c.pkey h) : c.blockHash = some h := by
  rcases hm with ⟨h', q, -, -⟩ | ⟨h', -, hh⟩ | ⟨h', -, hh, -⟩
  · rcases hv with hv | hv <;> simpa using congrArg ConsensusMessage.body hv
  · rcases hv with hv | hv
    · have : h' = h := by simpa using congrArg ConsensusMessage.blockHash hv
      rw [hh, this]
    · simpa using congrArg ConsensusMessage.body hv
  · rcases hv with hv | hv
    · simpa using congrArg ConsensusMessage.body hv
    · have : h' = h := by simpa using congrArg ConsensusMessage.blockHash hv
      rw [hh, this]

omit [Std.LawfulEqOrd N] [DecidableEq H] [DecidableEq P] [Digest P H] in
theorem Inv.send (hc : Inv M c) (hm : c.Sending m) : Inv M { c with outbox := c.outbox ++ [m] } :=
  { hc with
    proposal := fun hs => by
      obtain ⟨h, q, hh, hq, hmem⟩ := hc.proposal hs
      exact ⟨h, q, hh, hq, mem_send.2 (.inl hmem)⟩
    prevotes := fun pk hpk => by
      obtain ⟨h, hh, hmem⟩ := hc.prevotes pk hpk
      exact ⟨h, hh, mem_send.2 (.inl hmem)⟩
    outbox := fun m' hm' => by
      rcases List.mem_append.1 hm' with hm' | hm'
      · exact moves_send.own (hc.outbox m' hm')
      · rw [List.mem_singleton.1 hm']
        exact moves_send.own hm.own
    votes := fun h hv => by
      rcases hv with hv | hv <;> rcases List.mem_append.1 hv with hv | hv
      · exact hc.votes h (.inl hv)
      · exact hm.votes h (.inl (List.mem_singleton.1 hv).symm)
      · exact hc.votes h (.inr hv)
      · exact hm.votes h (.inr (List.mem_singleton.1 hv).symm) }

omit [Std.LawfulEqOrd N] [DecidableEq H] [DecidableEq P] [Digest P H] in
theorem Inv.advance (hc : Inv M c) (hs : c.state ≠ .Propose) {s : ConsensusState}
    (hs' : s ≠ .Propose) : Inv M { c with state := s } :=
  { hc with
    propose := fun h => absurd h hs'
    proposal := fun _ => hc.proposal hs
    outbox := fun m' hm' => (hc.outbox m' hm').of_eq rfl rfl rfl rfl }

omit [Std.LawfulEqOrd N] [Digest B H] [DecidableEq N] [DecidableEq H] [DecidableEq P] [Digest P H] in
theorem Recorded.send (hr : Recorded M p c) :
    Recorded M (p ++ [m]) { c with outbox := c.outbox ++ [m] } where
  prevoted h hmem hp := hr.prevoted h (mem_of_send hmem hp) fun h' => hp (List.mem_append_left _ h')
  precommitted h hmem hp :=
    hr.precommitted h (mem_of_send hmem hp) fun h' => hp (List.mem_append_left _ h')
  skipped hs := by
    rcases hr.skipped hs with ⟨h, hh⟩ | ⟨T, hT, hj⟩
    · exact .inl ⟨h, mem_send.2 (.inl hh)⟩
    · refine .inr ⟨T, hT, fun j hjT => ?_⟩
      obtain ⟨hne, h, hh, hmem⟩ := hj j hjT
      exact ⟨hne, h, hh, mem_send.2 (.inl hmem)⟩
  proposed hl h q hmem hp :=
    hr.proposed hl h q (mem_of_send hmem hp) fun h' => hp (List.mem_append_left _ h')

omit [Std.LawfulEqOrd N] [Digest B H] [DecidableEq H] [DecidableEq P] [Digest P H] in
theorem Settled.send (hs : Settled M p c) :
    Settled M (p ++ [m]) { c with outbox := c.outbox ++ [m] } :=
  { hs.toRecorded.send with
    prevoteQuorum := hs.prevoteQuorum
    precommitQuorum := fun h₁ h₂ h₃ =>
      hs.precommitQuorum h₁ h₂ fun h h' => h₃ h (List.mem_append_left _ h') }

omit [Std.LawfulEqOrd N] [DecidableEq H] [DecidableEq P] [Digest B H] [Digest P H] [Std.TransOrd N]
  [DecidableEq N] in
theorem expectBlockHash_eq_ok {h : H} (hh : c.expectBlockHash = .ok h) : c.blockHash = some h := by
  unfold expectBlockHash at hh
  split at hh
  · rename_i h' hh'
    cases hh
    exact hh'
  · cases hh

omit [Std.LawfulEqOrd N] [DecidableEq P] [Digest B H] [Digest P H] [DecidableEq H] [Std.TransOrd N]
  [DecidableEq N] in
/-- `precommit`: the pre-commit of the block hash, sent and fed, in `Precommit`. -/
theorem precommitWith_eq_ok (h : precommitWith feed c = .ok c') :
    ∃ hash, c.state = .Precommit ∧ c.blockHash = some hash ∧
      feed { c with outbox := c.outbox ++ [c.precommitOf c.pkey hash] }
        (c.precommitOf c.pkey hash) = .ok c' := by
  simp only [precommitWith, Except.ite_throw_bind_eq_ok, Except.bind_eq_ok] at h
  obtain ⟨hs, -, hash, hhash, hfeed⟩ := h
  exact ⟨hash, not_not.1 hs, expectBlockHash_eq_ok hhash, expectValid_eq_ok hfeed⟩

omit [Std.LawfulEqOrd N] in
/-- A nested feed that keeps the invariants, with the validator moving within
    its round: of a message from the network, and of the validator's own
    message just sent. -/
structure FeedsWell (M : List (ConsensusMessage N H P))
    (feed : Consensus N H B P → ConsensusMessage N H P →
      Except (Failure N H) (Consensus N H B P)) : Prop where
  net : ∀ {c m c'}, Inv M c → Settled M [] c → m ∈ M → feed c m = .ok c' →
    Inv M c' ∧ Settled M [] c' ∧ Moves c c'
  own : ∀ {c m c'}, Inv M c → Settled M [m] c → c.Sending m → m ∈ c.outbox →
    feed c m = .ok c' → Inv M c' ∧ Settled M [] c' ∧ Moves c c'

omit [Std.LawfulEqOrd N] [Std.TransOrd N] [DecidableEq N] [DecidableEq H] [DecidableEq P]
  [Digest B H] [Digest P H] in
theorem not_prevote_of_advanced (hs : c.state = .Prevote)
    (h : c.state = .Precommit ∨ c.state = .Commit) : False := by
  rcases h with h | h <;> rw [hs] at h <;> cases h

omit [Std.LawfulEqOrd N] [DecidableEq H] [DecidableEq P] [Digest P H] in
/-- `precommit` from `Prevote` after the validator's pre-vote: its pre-commit,
    fed back, keeps the invariants. -/
theorem precommitWith_kept (hf : FeedsWell M feed) (hc : Inv M c) (hr : Recorded M [] c)
    (hs : c.state = .Prevote) (hmem : c.pkey ∈ c.prevotes)
    (h : precommitWith feed { c with state := .Precommit } = .ok c') :
    Inv M c' ∧ Settled M [] c' ∧ Moves c c' := by
  obtain ⟨hash, -, hhash, hfeed⟩ := precommitWith_eq_ok h
  have hne : c.state ≠ .Propose := by rw [hs]; decide
  have hpre : c.state ≠ .Precommit := by rw [hs]; decide
  -- the validator in `Precommit`, its pre-commit sent
  have hmv : Moves c { c with state := .Precommit, outbox := c.outbox ++ [c.precommitOf c.pkey hash] } :=
    ⟨rfl, rfl, rfl, rfl, rfl, rfl, fun _ h => h, (fun _ h => by cases h),
      fun h => absurd (hs.symm.trans h) (by decide), fun _ h => h, fun _ _ h => h,
      List.prefix_append _ _, .inl rfl, (fun h => by cases h),
      fun _ _ => .inr ⟨hash, hhash, List.mem_append_right _ (List.mem_singleton_self _)⟩⟩
  have hc₁ := (hc.advance hne (s := .Precommit) (by decide)).send
    (m := c.precommitOf c.pkey hash) (.precommit hash rfl hhash hmem)
  have hs₁ : Settled M [c.precommitOf c.pkey hash]
      { c with state := .Precommit, outbox := c.outbox ++ [c.precommitOf c.pkey hash] } :=
    { prevoted := fun h hm hp => ⟨(fun h => by cases h),
        .inl ((hr.prevoted h (mem_of_send (p := []) hm hp) List.not_mem_nil).2.resolve_right
          fun h => absurd (hs.symm.trans h) (by decide))⟩
      precommitted := fun h hm hp => absurd
        (hr.precommitted h (mem_of_send (p := []) hm hp) List.not_mem_nil).1
        fun h => not_prevote_of_advanced hs h
      skipped := fun _ => .inl ⟨hash, mem_send.2 (.inr rfl)⟩
      proposed := fun hl h q hm hp => ⟨(fun h => by cases h),
        (hr.proposed hl h q (mem_of_send (p := []) hm hp) List.not_mem_nil).2⟩
      prevoteQuorum := fun h => by cases h
      precommitQuorum := fun _ _ h => absurd (List.mem_singleton_self _) (h hash) }
  obtain ⟨hi, hs', hm'⟩ := hf.own hc₁ hs₁ (.precommit hash rfl hhash hmem)
    (List.mem_append_right _ (List.mem_singleton_self _)) hfeed
  exact ⟨hi, hs', hmv.trans hm'⟩

omit [DecidableEq H] [DecidableEq P] [Digest P H] in
/-- The end of every `feed_message`, checking the votes, keeps the invariants
    and settles them. -/
theorem checkVotes_kept (hf : FeedsWell M feed) (hc : Inv M c) (hr : Recorded M [] c)
    (h : checkVotesWith feed c = .ok c') : Inv M c' ∧ Settled M [] c' ∧ Moves c c' := by
  rcases checkVotesWith_eq_ok h with ⟨hpv, hpc⟩ | ⟨hs, hq, hmem, hpre⟩ | ⟨hs, hq, hmem⟩ | ⟨hs, hq⟩
  · exact ⟨hc, ⟨hr, hpv, fun hs _ _ => hpc hs⟩, Moves.refl c⟩
  · exact precommitWith_kept hf hc hr hs hmem hpre
  · -- a supermajority of pre-votes without the validator's own: `Precommit`
    -- on their witness, never to pre-commit
    have hne : c.state ≠ .Propose := by rw [hs]; decide
    refine ⟨hc.advance hne (by decide), ⟨⟨fun h hm hp => ?_, fun h hm hp => ?_, fun _ => .inr ?_,
      fun hl h q hm hp => ⟨(fun h => by cases h), (hr.proposed hl h q hm hp).2⟩⟩, (fun h => by cases h), fun _ h => absurd h hmem⟩,
      moves_advance (by decide) (fun h => absurd (hs.symm.trans h) (by decide))
        fun _ h => absurd h hmem⟩
    · exact absurd ((hr.prevoted h hm hp).2.resolve_left hmem) fun h => by rw [hs] at h; cases h
    · exact absurd (hr.precommitted h hm hp).1 fun h => not_prevote_of_advanced hs h
    · refine ⟨c.prevotes.keys.toFinset, hq, fun j hj => ?_⟩
      have hj : j ∈ c.prevotes := Std.ExtTreeMap.mem_keys.1 (List.mem_toFinset.1 hj)
      exact ⟨fun hjk => hmem (hjk ▸ hj), hc.prevotes j hj⟩
  · -- a supermajority of pre-commits: `Commit`
    have hne : c.state ≠ .Propose := by rw [hs]; decide
    refine ⟨hc.advance hne (by decide), ⟨⟨fun h hm hp => ?_, fun h hm hp => ?_, fun _ => ?_,
      fun hl h q hm hp => ⟨(fun h => by cases h), (hr.proposed hl h q hm hp).2⟩⟩, (fun h => by cases h), (fun h => by cases h)⟩,
      moves_advance (by decide) (fun _ => rfl) fun h => absurd (hs.symm.trans h) (by decide)⟩
    · obtain ⟨-, hv⟩ := hr.prevoted h hm hp
      exact ⟨(fun h => by cases h), hv.imp_right fun _ => rfl⟩
    · exact ⟨.inr rfl, (hr.precommitted h hm hp).2⟩
    · exact hr.skipped (.inl hs)

end Steps

section Feed

variable [Std.LawfulEqOrd N] {M p : List (ConsensusMessage N H P)} {c c' : Consensus N H B P}
  {msg : ConsensusMessage N H P}
  {feed : Consensus N H B P → ConsensusMessage N H P → Except (Failure N H) (Consensus N H B P)}

omit [Std.LawfulEqOrd N] [DecidableEq N] [DecidableEq H] [DecidableEq P] [Digest B H] [Digest P H] in
/-- A validator's own messages are of its epoch and round. -/
theorem Sending.epoch_round (h : c.Sending msg) : msg.epoch = c.epoch ∧ msg.round = c.round := by
  rcases h with ⟨⟩ | ⟨⟩ | ⟨⟩ <;> exact ⟨rfl, rfl⟩

omit [Std.LawfulEqOrd N] [DecidableEq H] [DecidableEq P] [Digest P H] in
/-- A message kept in the inbox for later. -/
theorem queue_kept (hc : Inv M c) (hs : Settled M [] c) (hm : msg ∈ M) :
    Inv M (c.queue msg) ∧ Settled M [] (c.queue msg) ∧ Moves c (c.queue msg) := by
  refine ⟨{ hc with
      inbox := fun m' hm' => ?_
      outbox := fun m' hm' => (hc.outbox m' hm').of_eq rfl rfl rfl rfl }, { hs with },
    ⟨rfl, rfl, rfl, rfl, rfl, rfl, fun _ h => h, id, id, fun _ h => h, fun _ _ h => h,
      List.prefix_refl _, .inl rfl, fun _ => List.prefix_append _ _, fun hs _ => .inl hs⟩⟩
  rcases List.mem_append.1 hm' with hm' | hm'
  · exact hc.inbox m' hm'
  · rw [List.mem_singleton.1 hm']
    exact hm

omit [Std.LawfulEqOrd N] [Digest B H] [Digest P H] in
/-- In `Commit` a message is ignored, the validator's own pre-vote too. -/
theorem Settled.of_commit (hs : Settled M p c) (hcommit : c.state = .Commit)
    (hp : ∀ m ∈ p, m = msg ∧ c.Sending msg) : Settled M [] c where
  prevoted h hm _ := by
    by_cases hin : c.prevoteOf c.pkey h ∈ p
    · exact ⟨by rw [hcommit]; decide, .inr hcommit⟩
    · exact hs.prevoted h hm hin
  precommitted h hm _ := by
    by_cases hin : c.precommitOf c.pkey h ∈ p
    · -- a pre-commit is sent in `Precommit` only
      obtain ⟨hown, hsend⟩ := hp _ hin
      rw [← hown] at hsend
      cases hsend with
      | precommit _ hs' _ _ => exact absurd (hcommit.symm.trans hs') (by decide)
    · exact hs.precommitted h hm hin
  skipped := hs.skipped
  proposed hl h q hm _ := by
    by_cases hin : c.proposalOf h q ∈ p
    · -- a proposal is sent in `Propose` only
      obtain ⟨hown, hsend⟩ := hp _ hin
      rw [← hown] at hsend
      cases hsend with
      | proposal _ _ hs' _ => exact absurd (hcommit.symm.trans hs') (by decide)
    · exact hs.proposed hl h q hm hin
  prevoteQuorum h := by rw [hcommit] at h; cases h
  precommitQuorum h := by rw [hcommit] at h; cases h

omit [Std.LawfulEqOrd N] [DecidableEq N] [DecidableEq H] [DecidableEq P] [Digest B H] [Digest P H] in
/-- A validator in `Propose` has sent no pre-vote or pre-commit of its round. -/
theorem Recorded.propose (hr : Recorded M [] c) (hs : c.state = .Propose) :
    (∀ h, c.prevoteOf c.pkey h ∉ M ++ c.outbox) ∧ ∀ h, c.precommitOf c.pkey h ∉ M ++ c.outbox := by
  refine ⟨fun h hm => (hr.prevoted h hm List.not_mem_nil).1 hs, fun h hm => ?_⟩
  rcases (hr.precommitted h hm List.not_mem_nil).1 with h' | h' <;> rw [hs] at h' <;> cases h'

omit [Std.LawfulEqOrd N] [DecidableEq H] [DecidableEq P] [Digest P H] in
/-- In `Propose` the validator holds no pre-commit. -/
theorem Inv.precommits_eq_none (hc : Inv M c) (hs : c.state = .Propose) (pk : N) :
    c.precommits[pk]? = none := by
  cases hpk : c.precommits[pk]? with
  | none => rfl
  | some sig =>
    obtain ⟨h, hh, -⟩ := hc.precommits pk sig hpk
    rw [hc.propose hs] at hh
    cases hh

omit [Std.LawfulEqOrd N] [DecidableEq N] [DecidableEq H] [DecidableEq P] [Digest B H] [Digest P H] in
/-- `should_prevote`: past `Propose`, without the validator's own pre-vote. -/
theorem shouldPrevote_eq_true :
    c.shouldPrevote = true ↔ c.state ≠ .Propose ∧ c.pkey ∉ c.prevotes := by
  rw [shouldPrevote]
  have hmem : c.prevotes.contains c.pkey = false ↔ c.pkey ∉ c.prevotes := by
    rw [Bool.eq_false_iff, Ne, Std.ExtTreeMap.contains_iff_mem]
  cases c.state <;> simp +decide [hmem]

omit [Std.LawfulEqOrd N] [DecidableEq P] in
/-- `prevote`: the block kept, and the pre-vote sent and fed back, keep the
    invariants. -/
theorem prevoteWith_kept (hf : FeedsWell M feed) (hc : Inv M c) (hs : Settled M [] c) {block : B}
    (h : prevoteWith feed c block = .ok c') : Inv M c' ∧ Settled M [] c' ∧ Moves c c' := by
  simp only [prevoteWith, Except.ite_throw_bind_eq_ok, Except.bind_eq_ok] at h
  obtain ⟨hshould, expected, hexp, hdigest, differs, -, h⟩ := h
  have hhash : c.blockHash = some (digest block) := by
    rw [expectBlockHash_eq_ok hexp, not_not.1 hdigest]
  have hne : c.state ≠ .Propose := (shouldPrevote_eq_true.1 (by simpa using hshould)).1
  -- the block kept
  have hc₁ : Inv M { c with block := some block } :=
    { hc with
      block := fun b hb => by cases hb; exact hhash
      outbox := fun m' hm' => (hc.outbox m' hm').of_eq rfl rfl rfl rfl }
  have hm₁ : Moves c { c with block := some block } :=
    ⟨rfl, rfl, rfl, rfl, rfl, rfl, fun _ h => h, id, id, fun _ h => h, fun _ _ h => h,
      List.prefix_refl _, .inl rfl, fun _ => List.prefix_refl _, fun hs _ => .inl hs⟩
  split at h
  · cases h
    exact ⟨hc₁, { hs with }, hm₁⟩
  · -- the pre-vote, sent and fed back
    obtain ⟨hi, hs', hm'⟩ := hf.own (hc₁.send (.prevote _ hne hhash))
      (Settled.send (p := []) { hs with }) (.prevote _ hne hhash)
      (List.mem_append_right _ (List.mem_singleton_self _)) (expectValid_eq_ok h)
    exact ⟨hi, hs', (hm₁.trans moves_send).trans hm'⟩

omit [Std.LawfulEqOrd N] [DecidableEq H] [DecidableEq P] [Digest P H] in
/-- `process_inbox`: each message of the inbox, from the network, fed in turn
    or dropped with its error. -/
theorem processInboxWith_kept (hf : FeedsWell M feed) (hc : Inv M c) (hs : Settled M [] c)
    (h : processInboxWith feed c = .ok c') :
    Inv M c' ∧ Settled M [] c' ∧ Moves { c with inbox := [] } c' := by
  have h₀ : Inv M { c with inbox := [] } ∧ Settled M [] { c with inbox := [] } :=
    ⟨{ hc with
        inbox := fun _ hm => absurd hm List.not_mem_nil
        outbox := fun m' hm' => (hc.outbox m' hm').of_eq rfl rfl rfl rfl }, { hs with }⟩
  refine List.foldlM_except_induction
    (fun s : Consensus N H B P => Inv M s ∧ Settled M [] s ∧ Moves { c with inbox := [] } s) ?_ h
    ⟨h₀.1, h₀.2, Moves.refl _⟩
  intro m hm x y ⟨hx, hsx, hmx⟩ hy
  split at hy
  · cases hy
    exact ⟨hx, hsx, hmx⟩
  · obtain ⟨hy, hsy, hmy⟩ := hf.net hx hsx (hc.inbox m hm) hy
    exact ⟨hy, hsy, hmx.trans hmy⟩

omit [Std.LawfulEqOrd N] [DecidableEq N] [DecidableEq H] [DecidableEq P] [Digest B H] [Digest P H] in
/-- Past `Propose`, emptying the inbox to feed it is a move within the round. -/
theorem moves_clearInbox (hne : c.state ≠ .Propose) : Moves c { c with inbox := [] } :=
  ⟨rfl, rfl, rfl, rfl, rfl, rfl, fun _ h => h, id, id, fun _ h => h, fun _ _ h => h,
    List.prefix_refl _, .inl rfl, fun h => absurd h hne, fun hs _ => .inl hs⟩

/-- A proposal from the leader, in `Propose`: the validator goes to `Prevote`
    on its hash; with the lock on its block, takes the lock and pre-votes
    again; then feeds its inbox. -/
theorem onProposalWith_kept (hf : FeedsWell M feed) (hc : Inv M c) (hr : Recorded M p c)
    (hp : ∀ m ∈ p, m = msg) (hmsg : msg ∈ M ++ c.outbox)
    (hsig : msg.sig = ⟨msg.pkey, (msg.epoch, msg.round, msg.blockHash, msg.body)⟩)
    (he : msg.epoch = c.epoch) (hround : msg.round = c.round) {q : P}
    (hq : msg.body = .Proposal q) (h : onProposalWith feed c msg q = .ok c') :
    Inv M c' ∧ Settled M [] c' ∧ Moves c c' := by
  simp only [onProposalWith, Except.ite_throw_bind_eq_ok] at h
  obtain ⟨hs, hlead, hempty, -, -, h⟩ := h
  have hs : c.state = .Propose := not_not.1 hs
  have hempty : c.prevotes = ∅ := Std.ExtTreeMap.isEmpty_iff.1 (by simpa using hempty)
  have hprop : c.proposalOf msg.blockHash q = msg := by
    rw [proposalOf, show c.selectLeader c.round = msg.pkey from (not_not.1 hlead).symm, ← he,
      ← hround, ← hq]
    exact (eq_new_of_sig hsig).symm
  -- the validator has sent no vote of its round yet
  have hnotin : ∀ x : ConsensusMessage N H P, (∀ q', x.body ≠ .Proposal q') → x ∉ p :=
    fun x hx hin => hx q (by rw [hp x hin, hq])
  have hc₁ : Inv M
      { c with state := .Prevote, block := none, blockHash := some msg.blockHash, blockProposal := some q } :=
    { hc with
      propose := fun h => by cases h
      proposal := fun _ => ⟨msg.blockHash, q, rfl, rfl,
        (by rw [hprop]; exact hmsg : c.proposalOf msg.blockHash q ∈ M ++ c.outbox)⟩
      prevotes := fun pk hpk => absurd (hempty ▸ hpk) Std.ExtTreeMap.not_mem_empty
      precommits := fun pk sig hpk => by rw [hc.precommits_eq_none hs pk] at hpk; cases hpk
      block := fun b hb => by cases hb
      outbox := fun m' hm' => (hc.outbox m' hm').of_eq rfl rfl rfl rfl
      votes := fun h hv => by
        rcases hv with hv | hv
        · exact absurd hs (hr.prevoted h (List.mem_append_right _ hv)
            (hnotin _ fun q' hq' => by cases hq')).1
        · exact absurd (hr.precommitted h (List.mem_append_right _ hv)
            (hnotin _ fun q' hq' => by cases hq')).1
            fun h => by rcases h with h | h <;> rw [hs] at h <;> cases h }
  have hnq : ¬c.Quorum c.prevotes.keys.toFinset := by
    rw [Std.ExtTreeMap.keys_eq_nil_iff.2 hempty, List.toFinset_nil]
    exact hc.not_quorum_empty
  have hs₁ : Settled M []
      { c with state := .Prevote, block := none, blockHash := some msg.blockHash, blockProposal := some q } :=
    { prevoted := fun h hm _ =>
        absurd hs (hr.prevoted h hm (hnotin _ fun q' hq' => by cases hq')).1
      precommitted := fun h hm _ => absurd (hr.precommitted h hm
        (hnotin _ fun q' hq' => by cases hq')).1 fun h => by rcases h with h | h <;> rw [hs] at h <;> cases h
      skipped := fun h => by rcases h with h | h <;> cases h
      proposed := fun hl h q' hm _ => by
        by_cases hin : c.proposalOf h q' ∈ p
        · -- the proposal being taken
          have hh : msg.blockHash = h := by
            simpa using (congrArg ConsensusMessage.blockHash (hp _ hin)).symm
          exact ⟨(fun h => by cases h), by rw [hh]⟩
        · exact absurd hs (hr.proposed hl h q' hm hin).1
      prevoteQuorum := fun _ => hnq
      precommitQuorum := fun h => by cases h }
  have hm₁ : Moves c
      { c with state := .Prevote, block := none, blockHash := some msg.blockHash, blockProposal := some q } :=
    ⟨rfl, rfl, rfl, rfl, rfl, rfl, (fun _ hh => by rw [hc.propose hs] at hh; cases hh),
      fun h => absurd hs h, fun h => absurd (hs.symm.trans h) (by decide), fun _ h => h,
      fun h => absurd hs h, List.prefix_refl _, .inl rfl, (fun h => by cases h),
      fun h => absurd (hs.symm.trans h) (by decide)⟩
  -- with the lock on this block, the lock taken and the pre-vote repeated
  obtain ⟨c₂, ⟨hc₂, hs₂, hm₂⟩, hinbox⟩ : ∃ c₂, (Inv M c₂ ∧ Settled M [] c₂ ∧ Moves
      { c with state := .Prevote, block := none, blockHash := some msg.blockHash, blockProposal := some q } c₂) ∧ processInboxWith feed c₂ = .ok c' := by
    split at h
    · rename_i L hL
      split at h
      · rename_i hmatch
        obtain ⟨c₂, h₂, hinbox⟩ := Except.bind_eq_ok.1 h
        have hc₃ : Inv M
            { c with
              state := .Prevote, block := none, blockHash := some msg.blockHash,
              blockProposal := some q, lockedRound := none, precommits := L.precommits } :=
          { hc₁ with
            locked := fun _ hL' => by cases hL'
            precommits := fun pk sig hpk => ⟨msg.blockHash, rfl, by
              rw [hc.locked L hL pk sig hpk, hmatch.1]⟩
            outbox := fun m' hm' => (hc.outbox m' hm').of_eq rfl rfl rfl rfl }
        have hm₃ : Moves
            { c with state := .Prevote, block := none, blockHash := some msg.blockHash, blockProposal := some q }
            { c with
              state := .Prevote, block := none, blockHash := some msg.blockHash,
              blockProposal := some q, lockedRound := none, precommits := L.precommits } :=
          ⟨rfl, rfl, rfl, rfl, rfl, rfl, fun _ h => h, id, id, fun _ h => h,
            fun _ pk hpk => absurd (Std.ExtTreeMap.mem_iff_isSome_getElem?.1 hpk)
              (by rw [hc.precommits_eq_none hs pk]; simp),
            List.prefix_refl _, .inr rfl, (fun h => by cases h), fun hs _ => .inl hs⟩
        obtain ⟨hi, hs', hm'⟩ := prevoteWith_kept hf hc₃
          { hs₁ with precommitQuorum := fun h => by cases h } h₂
        exact ⟨c₂, ⟨hi, hs', hm₃.trans hm'⟩, hinbox⟩
      · exact ⟨_, ⟨hc₁, hs₁, Moves.refl _⟩, h⟩
    · exact ⟨_, ⟨hc₁, hs₁, Moves.refl _⟩, h⟩
  obtain ⟨hi, hs', hm'⟩ := processInboxWith_kept hf hc₂ hs₂ hinbox
  exact ⟨hi, hs', hm₁.trans (hm₂.trans ((moves_clearInbox (hm₂.state fun h => by cases h)).trans hm'))⟩

/-- The leader's proposal taken in `Propose`, then the votes checked. -/
theorem proposal_kept (hf : FeedsWell M feed) (hc : Inv M c) (hr : Recorded M p c)
    (hp : ∀ m ∈ p, m = msg) (hmsg : msg ∈ M ++ c.outbox)
    (hsig : msg.sig = ⟨msg.pkey, (msg.epoch, msg.round, msg.blockHash, msg.body)⟩)
    (he : msg.epoch = c.epoch) (hround : msg.round = c.round) {q : P} {c₁ : Consensus N H B P}
    (hq : msg.body = .Proposal q) (h₁ : onProposalWith feed c msg q = .ok c₁)
    (h₂ : checkVotesWith feed c₁ = .ok c') : Inv M c' ∧ Settled M [] c' ∧ Moves c c' := by
  obtain ⟨hc₁, hs₁, hm₁⟩ := onProposalWith_kept hf hc hr hp hmsg hsig he hround hq h₁
  obtain ⟨hi, hs', hm'⟩ := checkVotes_kept hf hc₁ hs₁.toRecorded h₂
  exact ⟨hi, hs', hm₁.trans hm'⟩

omit [Digest P H] in
/-- A vote on the block hash collected, then the votes checked. -/
theorem vote_kept (hf : FeedsWell M feed) (hc : Inv M c) (hr : Recorded M p c)
    (hp : ∀ m ∈ p, m = msg ∧ c.Sending msg) (hmsg : msg ∈ M ++ c.outbox)
    (hsig : msg.sig = ⟨msg.pkey, (msg.epoch, msg.round, msg.blockHash, msg.body)⟩)
    (he : msg.epoch = c.epoch) (hround : msg.round = c.round)
    (hhash : c.blockHash = some msg.blockHash) (hnp : ∀ q, msg.body ≠ .Proposal q)
    {c₁ : Consensus N H B P} (h₁ : c.collect msg = .ok c₁) (h₂ : checkVotesWith feed c₁ = .ok c') :
    Inv M c' ∧ Settled M [] c' ∧ Moves c c' := by
  obtain ⟨hc₁, hr₁, hm₁⟩ := collect_kept hc hr hp hmsg hsig he hround hhash hnp h₁
  obtain ⟨hi, hs', hm'⟩ := checkVotes_kept hf hc₁ hr₁ h₂
  exact ⟨hi, hs', hm₁.trans hm'⟩

/-- `feed_message` of a message from the network keeps the invariants. -/
theorem feedMessageWith_net (hf : FeedsWell M feed) (hc : Inv M c) (hs : Settled M [] c)
    (hm : msg ∈ M) (h : feedMessageWith feed c msg = .ok c') :
    Inv M c' ∧ Settled M [] c' ∧ Moves c c' := by
  obtain ⟨hsig, -, hfed⟩ := feedMessageWith_eq_ok h
  have hmsg : msg ∈ M ++ c.outbox := List.mem_append_left _ hm
  rcases hfed with _ | ⟨-, -⟩ | ⟨-, -, -⟩ | ⟨-, -, -, -⟩ | ⟨he, hround, -, hq, h₁, h₂⟩ |
    ⟨he, hround, -, hhash, hnp, h₁, h₂⟩
  · exact ⟨hc, hs, Moves.refl c⟩
  · exact queue_kept hc hs hm
  · exact ⟨hc, hs, Moves.refl c⟩
  · exact queue_kept hc hs hm
  · exact proposal_kept hf hc hs.toRecorded (fun _ h => absurd h List.not_mem_nil) hmsg hsig he
      hround hq h₁ h₂
  · exact vote_kept hf hc hs.toRecorded (fun _ h => absurd h List.not_mem_nil) hmsg hsig he
      hround hhash hnp h₁ h₂

/-- `feed_message` of the validator's own message, just sent, keeps the invariants. -/
theorem feedMessageWith_own (hf : FeedsWell M feed) (hc : Inv M c) (hs : Settled M [msg] c)
    (hsend : c.Sending msg) (hm : msg ∈ c.outbox) (h : feedMessageWith feed c msg = .ok c') :
    Inv M c' ∧ Settled M [] c' ∧ Moves c c' := by
  obtain ⟨hsig, -, hfed⟩ := feedMessageWith_eq_ok h
  obtain ⟨he, hround⟩ := hsend.epoch_round
  have hmsg : msg ∈ M ++ c.outbox := List.mem_append_right _ hm
  have hp : ∀ m ∈ [msg], m = msg ∧ c.Sending msg := fun m h => ⟨List.mem_singleton.1 h, hsend⟩
  rcases hfed with hne | ⟨-, hlt⟩ | ⟨-, -, hcommit⟩ | ⟨-, -, hs', hnp⟩ | ⟨-, -, -, hq, h₁, h₂⟩ |
    ⟨-, -, -, hhash, hnp, h₁, h₂⟩
  · -- the validator's own message is of its epoch and round
    omega
  · omega
  · exact ⟨hc, hs.of_commit hcommit hp, Moves.refl c⟩
  · -- in `Propose` the validator sends its proposal only
    rcases hsend with ⟨h, q, -, -⟩ | ⟨h, hne, -⟩ | ⟨h, hpc, -, -⟩
    · exact absurd rfl (hnp q)
    · exact absurd hs' hne
    · rw [hs'] at hpc
      cases hpc
  · exact proposal_kept hf hc hs.toRecorded (fun m h => (hp m h).1) hmsg hsig he hround hq h₁ h₂
  · exact vote_kept hf hc hs.toRecorded hp hmsg hsig he hround hhash hnp h₁ h₂

/-- `feed_message`, at every nesting, keeps the invariants. -/
theorem feedMessageN_feedsWell (M : List (ConsensusMessage N H P)) :
    ∀ n, FeedsWell M (feedMessageN n : Consensus N H B P → _)
  | 0 => ⟨(fun _ _ _ h => by cases h), fun _ _ _ _ h => by cases h⟩
  | n + 1 => ⟨feedMessageWith_net (feedMessageN_feedsWell M n),
      feedMessageWith_own (feedMessageN_feedsWell M n)⟩

end Feed

section Rounds

variable [Std.LawfulEqOrd N] {M : List (ConsensusMessage N H P)} {c c' : Consensus N H B P}
  {feed : Consensus N H B P → ConsensusMessage N H P → Except (Failure N H) (Consensus N H B P)}

omit [Std.LawfulEqOrd N] in
/-- What a validator keeps across its rounds: its key, epoch, validators, slots
    and leaders. -/
structure Keeps (c c' : Consensus N H B P) : Prop where
  pkey : c'.pkey = c.pkey
  epoch : c'.epoch = c.epoch
  validators : c'.validators = c.validators
  totalSlots : c'.totalSlots = c.totalSlots
  selectLeader : c'.selectLeader = c.selectLeader

omit [Std.LawfulEqOrd N] [DecidableEq N] [DecidableEq H] [DecidableEq P] [Digest B H] [Digest P H] in
theorem Moves.keeps (h : Moves c c') : Keeps c c' :=
  ⟨h.pkey, h.epoch, h.validators, h.totalSlots, h.selectLeader⟩

omit [Std.LawfulEqOrd N] in
/-- The validator has sent nothing of its round yet: what a reset needs. -/
structure Fresh (M : List (ConsensusMessage N H P)) (c : Consensus N H B P) : Prop where
  prevote : ∀ h, c.prevoteOf c.pkey h ∉ M
  precommit : ∀ h, c.precommitOf c.pkey h ∉ M
  proposal : c.selectLeader c.round = c.pkey → ∀ h q, c.proposalOf h q ∉ M

omit [Std.LawfulEqOrd N] [DecidableEq H] [DecidableEq P] [Digest B H] [Digest P H] [Std.TransOrd N] in
theorem isLeader_eq_true : c.isLeader = true ↔ c.selectLeader c.round = c.pkey := by
  rw [isLeader, leader, decide_eq_true_iff, eq_comm]

omit [Std.LawfulEqOrd N] [DecidableEq H] [DecidableEq P] [Digest P H] in
/-- `propose_unchecked` by the leader in `Propose`: its proposal sent and fed back. -/
theorem proposeUncheckedWith_kept (hf : FeedsWell M feed) (hc : Inv M c) (hs : Settled M [] c)
    (hprop : c.state = .Propose) (hl : c.selectLeader c.round = c.pkey) {h : H} {q : P}
    (hp : proposeUncheckedWith feed c h q = .ok c') :
    Inv M c' ∧ Settled M [] c' ∧ Moves c c' := by
  have hmsg : ConsensusMessage.new c.epoch c.round h c.pkey (.Proposal q) = c.proposalOf h q := by
    rw [proposalOf, hl]
  dsimp only [proposeUncheckedWith] at hp
  rw [hmsg] at hp
  obtain ⟨hi, hs', hm'⟩ := hf.own (hc.send (.proposal h q hprop hl)) (Settled.send (p := []) hs)
    (.proposal h q hprop hl) (List.mem_append_right _ (List.mem_singleton_self _))
    (expectValid_eq_ok hp)
  exact ⟨hi, hs', moves_send.trans hm'⟩

omit [Std.LawfulEqOrd N] [DecidableEq H] [DecidableEq P] [Digest P H] in
/-- `propose`: the leader that should propose sends its proposal. -/
theorem proposeWith_kept (hf : FeedsWell M feed) (hc : Inv M c) (hs : Settled M [] c) {h : H}
    {q : P} (hp : proposeWith feed c h q = .ok c') : Inv M c' ∧ Settled M [] c' ∧ Moves c c' := by
  unfold proposeWith at hp
  split_ifs at hp with hshould
  simp only [shouldPropose, Bool.and_eq_true, decide_eq_true_eq] at hshould
  exact proposeUncheckedWith_kept hf hc hs hshould.1.1 (isLeader_eq_true.1 hshould.1.2) hp

omit [Std.LawfulEqOrd N] [DecidableEq H] [DecidableEq P] [Digest P H] in
/-- `reset`: back to `Propose` with nothing of the round, the locked leader
    proposing its block again, then the inbox fed. -/
theorem resetWith_kept (hf : FeedsWell M feed) (hb : Basis M c) (hfresh : Fresh M c)
    (hp : resetWith feed c = .ok c') :
    Inv M c' ∧ Settled M [] c' ∧ Keeps c c' ∧ c'.round = c.round := by
  unfold resetWith at hp
  dsimp only at hp
  have hc₀ : Inv M
      { c with
        state := .Propose, prevotes := ∅, precommits := ∅, block := none, blockHash := none,
        blockProposal := none, outbox := [] } :=
    { hb with
      propose := fun _ => rfl
      proposal := fun h => absurd rfl h
      prevotes := fun _ hpk => absurd hpk Std.ExtTreeMap.not_mem_empty
      precommits := fun pk sig hpk => by simp at hpk
      block := fun _ hb => by cases hb
      outbox := fun _ hm => absurd hm List.not_mem_nil
      votes := fun _ hv => by simp at hv }
  have hs₀ : Settled M []
      { c with
        state := .Propose, prevotes := ∅, precommits := ∅, block := none, blockHash := none,
        blockProposal := none, outbox := [] } :=
    { prevoted := fun h hm _ => absurd (by rw [List.append_nil] at hm; exact hm) (hfresh.prevote h)
      precommitted := fun h hm _ =>
        absurd (by rw [List.append_nil] at hm; exact hm) (hfresh.precommit h)
      skipped := fun h => by rcases h with h | h <;> cases h
      proposed := fun hl h q hm _ =>
        absurd (by rw [List.append_nil] at hm; exact hm) (hfresh.proposal hl h q)
      prevoteQuorum := fun h => by cases h
      precommitQuorum := fun h => by cases h }
  obtain ⟨c₁, ⟨hc₁, hs₁, hm₁⟩, hinbox⟩ : ∃ c₁, (Inv M c₁ ∧ Settled M [] c₁ ∧
      Moves
        { c with
          state := .Propose, prevotes := ∅, precommits := ∅, block := none, blockHash := none,
          blockProposal := none, outbox := [] } c₁) ∧
      processInboxWith feed c₁ = .ok c' := by
    split at hp
    · rename_i hlead
      split at hp
      · -- the locked leader proposes its block again
        obtain ⟨c₁, h₁, hinbox⟩ := Except.bind_eq_ok.1 hp
        exact ⟨c₁, proposeUncheckedWith_kept hf hc₀ hs₀ rfl (isLeader_eq_true.1 hlead) h₁, hinbox⟩
      · exact ⟨_, ⟨hc₀, hs₀, Moves.refl _⟩, hp⟩
    · exact ⟨_, ⟨hc₀, hs₀, Moves.refl _⟩, hp⟩
  obtain ⟨hi, hs', hm'⟩ := processInboxWith_kept hf hc₁ hs₁ hinbox
  exact ⟨hi, hs', ⟨hm'.pkey.trans hm₁.pkey, hm'.epoch.trans hm₁.epoch,
    hm'.validators.trans hm₁.validators, hm'.totalSlots.trans hm₁.totalSlots,
    hm'.selectLeader.trans hm₁.selectLeader⟩, hm'.round.trans hm₁.round⟩

omit [Std.LawfulEqOrd N] [DecidableEq H] [DecidableEq P] [Digest P H] in
/-- `lock`: the block locked with its pre-commits, then the reset. -/
theorem lockWith_kept (hf : FeedsWell M feed) (hb : Basis M c)
    (hpc : ∀ (pk : N) (sig : Signed N H), c.precommits[pk]? = some sig →
      ∃ h, c.blockHash = some h ∧ sig = ⟨pk, h⟩)
    (hblock : ∀ b, c.block = some b → c.blockHash = some (digest b)) (hfresh : Fresh M c)
    (hp : lockWith feed c = .ok c') :
    Inv M c' ∧ Settled M [] c' ∧ Keeps c c' ∧ c'.round = c.round := by
  simp only [lockWith, Except.ite_throw_bind_eq_ok] at hp
  obtain ⟨-, hp⟩ := hp
  split at hp
  · rename_i b hb'
    split at hp
    · rename_i q hq
      -- the pre-commits of the lock sign the locked block
      have hlocked : Basis M
          { c with
            block := none, blockProposal := none, precommits := ∅,
            lockedRound := some ⟨c.precommits, b, q⟩ } :=
        { hb with
          locked := fun L hL pk sig hpk => by
            cases hL
            obtain ⟨h, hh, rfl⟩ := hpc pk sig hpk
            rw [hblock b hb'] at hh
            cases hh
            rfl }
      obtain ⟨hi, hs', hk, hr⟩ :=
        resetWith_kept hf hlocked ⟨hfresh.prevote, hfresh.precommit, hfresh.proposal⟩ hp
      exact ⟨hi, hs', ⟨hk.pkey, hk.epoch, hk.validators, hk.totalSlots, hk.selectLeader⟩, hr⟩
    · exact absurd hp Except.throw_ne_ok
  · exact absurd hp Except.throw_ne_ok

omit [Std.LawfulEqOrd N] [DecidableEq H] [DecidableEq P] [Digest P H] in
/-- `next_round`: the next round, locked on leaving `Precommit`, reset otherwise. -/
theorem nextRoundWith_kept (hf : FeedsWell M feed) (hc : Inv M c)
    (hfresh : Fresh M { c with round := c.round + 1 }) (hp : nextRoundWith feed c = .ok c') :
    Inv M c' ∧ Settled M [] c' ∧ Keeps c c' ∧ c'.round = c.round + 1 := by
  unfold nextRoundWith at hp
  dsimp only at hp
  split_ifs at hp
  · obtain ⟨hi, hs', hk, hr⟩ := lockWith_kept (c := { c with round := c.round + 1 }) hf
      { hc.toBasis with } hc.precommits hc.block hfresh hp
    exact ⟨hi, hs', ⟨hk.pkey, hk.epoch, hk.validators, hk.totalSlots, hk.selectLeader⟩, hr⟩
  · obtain ⟨hi, hs', hk, hr⟩ := resetWith_kept (c := { c with round := c.round + 1 }) hf
      { hc.toBasis with } hfresh hp
    exact ⟨hi, hs', ⟨hk.pkey, hk.epoch, hk.validators, hk.totalSlots, hk.selectLeader⟩, hr⟩

end Rounds

/-! ### Runs of a validator -/

section Runs

variable [Std.LawfulEqOrd N] {M : List (ConsensusMessage N H P)} {c c' : Consensus N H B P}

/-- A call of the node whose message, if any, is one of the network's `M`. -/
def FromNetwork (M : List (ConsensusMessage N H P)) : ConsensusCall N H B P → Prop
  | .feedMessage msg => msg ∈ M
  | _ => True

/-- A call of the node on the validator, with a message of the network `M`. -/
def callFrom (M : List (ConsensusMessage N H P)) (self : Consensus N H B P)
    (c : {c : ConsensusCall N H B P // FromNetwork M c}) : Except (Failure N H) (Consensus N H B P) :=
  self.call c.1

omit [DecidableEq H] [DecidableEq P] [Digest B H] [Digest P H] in
/-- The slots `Consensus::new` adds up are those of the validators. -/
theorem foldl_slots (validators : Std.ExtTreeMap N ℤ compare) :
    validators.foldl (fun s _ v => s + v) 0 =
      ∑ j ∈ validators.keys.toFinset, (validators[j]?).getD 0 := by
  rw [← Std.ExtTreeMap.sum_toList_filter, Std.ExtTreeMap.foldl_eq_foldl_toList]
  have hall : (validators.toList.filter fun e => e.1 ∈ validators.keys.toFinset) =
      validators.toList := by
    refine List.filter_eq_self.2 fun e he => ?_
    rw [decide_eq_true_iff, List.mem_toFinset, ← Std.ExtTreeMap.map_fst_toList_eq_keys]
    exact List.mem_map_of_mem he
  rw [hall, List.sum_eq_foldl, List.foldl_map]

omit [DecidableEq H] [DecidableEq P] [Digest P H] in
/-- A validator fresh from `Consensus::new`, over validators of positive slots,
    keeps the invariants against a network without messages of its key, which
    is the key it is made with. -/
theorem new_kept {epoch : ℕ} {pkey : N} {selectLeader : ℕ → N}
    {validators : Std.ExtTreeMap N ℤ compare} (hpos : ∀ (j : N) (s : ℤ), validators[j]? = some s → 0 < s)
    (hM : ∀ m ∈ M, m.pkey ≠ pkey) (h : Consensus.new epoch pkey selectLeader validators = .ok c) :
    Inv M c ∧ Settled M [] c ∧ c.pkey = pkey := by
  unfold Consensus.new at h
  split_ifs at h with hmem
  cases h
  -- nothing of the validator's own is in `M`
  have hown : ∀ m ∈ M ++ [], m.pkey = pkey → False := fun m hm hk =>
    hM m (List.append_nil M ▸ hm) hk
  refine ⟨{ mem := Std.ExtTreeMap.contains_iff_mem.1 hmem
            slots_pos := hpos
            totalSlots := foldl_slots validators
            locked := fun _ hL => by cases hL
            inbox := fun _ hm => absurd hm List.not_mem_nil
            propose := fun _ => rfl
            proposal := fun h => absurd rfl h
            prevotes := fun _ hpk => absurd hpk Std.ExtTreeMap.not_mem_empty
            precommits := fun pk sig hpk => by simp at hpk
            block := fun _ hb => by cases hb
            outbox := fun _ hm => absurd hm List.not_mem_nil
            votes := fun _ hv => by simp at hv },
    { prevoted := fun h hm _ => (hown _ hm rfl).elim
      precommitted := fun h hm _ => (hown _ hm rfl).elim
      skipped := fun h => by rcases h with h | h <;> cases h
      proposed := fun hl h q hm _ => (hown _ hm hl).elim
      prevoteQuorum := fun h => by cases h
      precommitQuorum := fun h => by cases h }, rfl⟩

/-- A call with a message of the network, which holds none of the validator's
    key, keeps the invariants and the key. -/
theorem callFrom_kept (hM : ∀ m ∈ M, m.pkey ≠ c.pkey) (hc : Inv M c) (hs : Settled M [] c)
    {a : {a : ConsensusCall N H B P // FromNetwork M a}} (h : callFrom M c a = .ok c') :
    Inv M c' ∧ Settled M [] c' ∧ c'.pkey = c.pkey := by
  obtain ⟨a, ha⟩ := a
  cases a with
  | feedMessage msg =>
    obtain ⟨hi, hs', hm⟩ := feedMessageWith_net (feedMessageN_feedsWell M 2) hc hs ha h
    exact ⟨hi, hs', hm.pkey⟩
  | nextRound =>
    -- the validator has sent nothing of the next round: `M` holds nothing of its key
    have hfresh : Fresh M { c with round := c.round + 1 } :=
      ⟨fun h hm => hM _ hm rfl, fun h hm => hM _ hm rfl, fun hl h q hm => hM _ hm hl⟩
    obtain ⟨hi, hs', hk, -⟩ := nextRoundWith_kept (feedMessageN_feedsWell M feedDepth) hc hfresh h
    exact ⟨hi, hs', hk.pkey⟩
  | propose blockHash blockProposal =>
    obtain ⟨hi, hs', hm⟩ := proposeWith_kept (feedMessageN_feedsWell M feedDepth) hc hs h
    exact ⟨hi, hs', hm.pkey⟩
  | prevote block =>
    obtain ⟨hi, hs', hm⟩ := prevoteWith_kept (feedMessageN_feedsWell M feedDepth) hc hs h
    exact ⟨hi, hs', hm.pkey⟩

/-- In every run of a validator from `Consensus::new`, over validators of
    positive slots, whose node feeds it messages of a network `M` that holds
    none of its key, the invariants hold. -/
theorem reachable_kept {epoch : ℕ} {pkey : N} {selectLeader : ℕ → N}
    {validators : Std.ExtTreeMap N ℤ compare} (hpos : ∀ (j : N) (s : ℤ), validators[j]? = some s → 0 < s)
    (hM : ∀ m ∈ M, m.pkey ≠ pkey)
    (hc : Transition.Reachable (Consensus.new epoch pkey selectLeader validators = .ok ·)
      (callFrom M) c) :
    Inv M c ∧ Settled M [] c := by
  -- the key stays that of `Consensus::new`, so `M` never holds the validator's messages
  have hrun : Inv M c ∧ Settled M [] c ∧ c.pkey = pkey := by
    refine hc.induction (P := fun c => Inv M c ∧ Settled M [] c ∧ c.pkey = pkey)
      (fun c₀ h => ?_) (fun c₁ a c₂ ⟨hi, hs, hk⟩ h => ?_)
    · exact new_kept hpos hM h
    · obtain ⟨hi', hs', hk'⟩ := callFrom_kept (fun m hm => hk ▸ hM m hm) hi hs h
      exact ⟨hi', hs', hk'.trans hk⟩
  exact ⟨hrun.1, hrun.2.1⟩

end Runs

end Consensus
end Stegos
