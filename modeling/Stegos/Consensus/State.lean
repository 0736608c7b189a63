import Stegos.Crypto

/-!
# pBFT consensus: states and transitions

The state of one validator in the agreement on a macro block (`Consensus` of
`consensus/src/state.rs`) and the functions that move it: `feed_message`,
`propose`, `prevote`, `precommit`, `lock`, `reset`, `next_round`.

A validator goes from `Propose` to `Prevote` when the leader's proposal
arrives, to `Precommit` when validators holding a supermajority of the slots
(`check_supermajority`, of `blockchain/src/multisignature.rs`) have prevoted,
and to `Commit` when such a supermajority has precommitted. A validator that
times out in `Precommit` locks on its block: when it is the leader it proposes
that block again, and a proposal of it takes the lock back.

* A call returns the new state, or fails (`Failure`): with a panic and its
  text, or with the `ConsensusError` the source returns. Every error is
  returned before the state is changed, so a failed call leaves it as it was.
* `feed_message` calls itself, through `prevote`, `precommit` and
  `process_inbox`. The functions of this module take the call for a nested
  message as an argument (`feed`), and `feedMessageN` ties the knot with a
  bound on the nesting: three levels, a proposal whose own prevote yields a
  precommit, are all the code can reach.
* The election result is read only through `select_leader`: the model keeps
  its values, `selectLeader round`.
-/

namespace Stegos

/-- `ConsensusState`, ordered as declared. -/
inductive ConsensusState
  | Propose
  | Prevote
  | Precommit
  | Commit
  deriving DecidableEq, Repr, Ord

/-- `ConsensusState::name`. -/
def ConsensusState.name : ConsensusState → String
  | .Propose => "Propose"
  | .Prevote => "Prevote"
  | .Precommit => "Precommit"
  | .Commit => "Commit"

/-- `ConsensusMessageBody`. A pre-commit carries the signature of the block hash. -/
inductive ConsensusMessageBody (N H P : Type)
  | Proposal (blockProposal : P)
  | Prevote
  | Precommit (blockHashSig : Signed N H)
  deriving DecidableEq, Repr

/-- `ConsensusMessage`: signed by its sender over its epoch, round, block hash and body. -/
structure ConsensusMessage (N H P : Type) where
  round : ℕ
  epoch : ℕ
  blockHash : H
  body : ConsensusMessageBody N H P
  pkey : N
  sig : Signed N (ℕ × ℕ × H × ConsensusMessageBody N H P)
  deriving DecidableEq, Repr

/-- The errors of `ConsensusError` that the modelled functions return. -/
inductive ConsensusError (N H : Type)
  | UnknownMessagePeer (pkey : N)
  | InvalidMessageSignature
  | InvalidRequestHash (expected got : H) (pkey : N)
  | InvalidMessage (state msg : String)
  | ProposalFromNonLeader (requestHash : H) (expected got : N)
  | InvalidRequestSignature (request : H)
  deriving DecidableEq, Repr

/-- How a call ends when it does not return a new state. -/
inductive Failure (N H : Type)
  /-- A panic, with its text. -/
  | panic (text : String)
  /-- The error the call returns. -/
  | error (e : ConsensusError N H)
  /-- The nesting of `feed_message` went past the bound of the model. -/
  | exhausted
  deriving DecidableEq, Repr

namespace Failure

/-- The text of a failed `assert_eq!`. -/
def assertEq : String := "assertion failed: `(left == right)`"

/-- The text of a failed `assert_ne!`. -/
def assertNe : String := "assertion failed: `(left != right)`"

/-- The text of `Option::unwrap` on `None`. -/
def unwrapNone : String := "called `Option::unwrap()` on a `None` value"

end Failure

section Messages

variable {N H P : Type}

/-- `ConsensusMessage::name`. -/
def ConsensusMessage.name (msg : ConsensusMessage N H P) : String :=
  match msg.body with
  | .Proposal _ => "Proposal"
  | .Prevote => "Prevote"
  | .Precommit _ => "Precommit"

/-- `ConsensusMessage::new`: the message signed by `pkey`. -/
def ConsensusMessage.new (epoch round : ℕ) (blockHash : H) (pkey : N)
    (body : ConsensusMessageBody N H P) : ConsensusMessage N H P :=
  { round, epoch, blockHash, body, pkey, sig := ⟨pkey, (epoch, round, blockHash, body)⟩ }

variable [DecidableEq N] [DecidableEq H] [DecidableEq P]

/-- `ConsensusMessage::validate`: the signature is its sender's, over its contents. -/
def ConsensusMessage.validate (msg : ConsensusMessage N H P) : Except (ConsensusError N H) Unit :=
  if msg.sig = ⟨msg.pkey, (msg.epoch, msg.round, msg.blockHash, msg.body)⟩ then .ok ()
  else .error .InvalidMessageSignature

end Messages

/-- `check_supermajority` (`blockchain/src/multisignature.rs`): the votes of more
    than two thirds of the slots. -/
def checkSupermajority (gotVotes totalVotes : ℤ) : Except String Bool :=
  if ¬gotVotes ≤ totalVotes then .error "assertion failed: got_votes <= total_votes"
  else if ¬0 ≤ gotVotes then .error "assertion failed: got_votes >= 0"
  else if ¬0 < totalVotes then .error "assertion failed: total_votes > 0"
  else .ok (decide ((totalVotes * 2 + 3) / 3 ≤ gotVotes))

/-- `LockedRound`: the block of a round left in `Precommit`, with its pre-commits. -/
structure LockedRound (N H B P : Type) [Ord N] where
  precommits : Std.ExtTreeMap N (Signed N H) compare
  block : B
  blockProposal : P

/-- `Consensus`: the state of one validator. The secret key is the one of
    `pkey`; the metrics and the start time are left out. -/
structure Consensus (N H B P : Type) [Ord N] where
  pkey : N
  /-- The slots of each validator. -/
  validators : Std.ExtTreeMap N ℤ compare
  totalSlots : ℤ
  epoch : ℕ
  /-- `election_result.select_leader`: the leader of each round. -/
  selectLeader : ℕ → N
  state : ConsensusState
  round : ℕ
  block : Option B
  blockHash : Option H
  blockProposal : Option P
  lockedRound : Option (LockedRound N H B P)
  prevotes : Std.ExtTreeMap N (Signed N (ℕ × ℕ × H × ConsensusMessageBody N H P)) compare
  precommits : Std.ExtTreeMap N (Signed N H) compare
  /-- Messages of later rounds, and early votes, kept for later. -/
  inbox : List (ConsensusMessage N H P)
  outbox : List (ConsensusMessage N H P)

namespace Consensus

variable {N H B P : Type} [Ord N] [Std.TransOrd N] [DecidableEq N] [DecidableEq H]
  [DecidableEq P] [Digest B H] [Digest P H]

open Digest

/-- `Consensus::new`: a validator at round 0 of the epoch, in `Propose`. -/
def new (epoch : ℕ) (pkey : N) (selectLeader : ℕ → N) (validators : Std.ExtTreeMap N ℤ compare) :
    Except String (Consensus N H B P) :=
  if validators.contains pkey then
    .ok { pkey, validators, totalSlots := validators.foldl (fun s _ v => s + v) 0, epoch,
          selectLeader, state := .Propose, round := 0, block := none, blockHash := none,
          blockProposal := none, lockedRound := none, prevotes := ∅, precommits := ∅,
          inbox := [], outbox := [] }
  else .error "assertion failed: validators.contains_key(&pkey)"

/-- `Consensus::leader`. -/
def leader (self : Consensus N H B P) : N := self.selectLeader self.round

/-- `Consensus::is_leader`. -/
def isLeader (self : Consensus N H B P) : Bool := self.pkey = self.leader

/-- `Consensus::should_propose`. -/
def shouldPropose (self : Consensus N H B P) : Bool :=
  self.state = .Propose && self.isLeader && self.lockedRound.isNone

/-- `Consensus::should_prevote`. -/
def shouldPrevote (self : Consensus N H B P) : Bool :=
  (compare self.state .Prevote).isGE && !self.prevotes.contains self.pkey

/-- `Consensus::should_commit`. -/
def shouldCommit (self : Consensus N H B P) : Bool := self.state = .Commit

/-- `Consensus::get_proposal`: the hash and the proposal to validate, and the round. -/
def getProposal (self : Consensus N H B P) : Except (Failure N H) (H × P × ℕ) :=
  if self.state = .Propose then .error (.panic "Have no proposal")
  else match self.blockHash, self.blockProposal with
    | some h, some p => .ok (h, p, self.round)
    | _, _ => .error (.panic Failure.unwrapNone)

/-- `Consensus::check_supermajority`: the slots of the validators in `accepts`,
    and whether they are a supermajority. -/
def checkSupermajority {α : Type} (self : Consensus N H B P) (accepts : Std.ExtTreeMap N α compare) :
    Except (Failure N H) (Bool × ℤ) := do
  let stake ← accepts.foldlM (fun stake pk _ =>
    match self.validators[pk]? with
    | some slots => .ok (stake + slots)
    | none => .error (.panic "vote from validator")) 0
  let superMajority ← (Stegos.checkSupermajority stake self.totalSlots).mapError .panic
  pure (superMajority, stake)

/-- The message `msg` kept in the inbox for later. -/
def queue (self : Consensus N H B P) (msg : ConsensusMessage N H P) : Consensus N H B P :=
  { self with inbox := self.inbox ++ [msg] }

/-- `self.block_hash.as_ref().unwrap()`. -/
def expectBlockHash (self : Consensus N H B P) : Except (Failure N H) H :=
  match self.blockHash with
  | some h => .ok h
  | none => .error (.panic Failure.unwrapNone)

end Consensus

/-- `feed_message(msg).expect("message is valid")`: an error is a panic. -/
def expectValid {N H α : Type} : Except (Failure N H) α → Except (Failure N H) α
  | .error (.error _) => .error (.panic "message is valid")
  | r => r

/-- How `feed_message` takes a message, after its round and hash are checked. -/
inductive Admission
  /-- A transition of the current state: processed now. -/
  | accept
  /-- An early vote in `Propose`: kept in the inbox. -/
  | early
  /-- A message unexpected in the current state. -/
  | unexpected
  deriving DecidableEq, Repr

/-- The check of valid transitions of `feed_message`. -/
def admission {N H P : Type} : ConsensusMessageBody N H P → ConsensusState → Admission
  | .Proposal _, .Propose => .accept
  | .Prevote, .Prevote => .accept
  | .Precommit _, .Precommit => .accept
  -- early pre-commits in `Prevote`, late pre-votes in `Precommit`, late pre-commits in `Commit`
  | .Precommit _, .Prevote => .accept
  | .Prevote, .Precommit => .accept
  | .Precommit _, .Commit => .accept
  | _, .Propose => .early
  | _, _ => .unexpected

namespace Consensus

variable {N H B P : Type} [Ord N] [Std.TransOrd N] [DecidableEq N] [DecidableEq H]
  [DecidableEq P] [Digest B H] [Digest P H]

open Digest

section Transitions

/-! ### Transitions, given how a nested message is fed -/

variable (feed : Consensus N H B P → ConsensusMessage N H P →
  Except (Failure N H) (Consensus N H B P))

/-- `Consensus::process_inbox`: the pending messages fed in order; an error is
    logged and the next message taken. -/
def processInboxWith (self : Consensus N H B P) : Except (Failure N H) (Consensus N H B P) :=
  self.inbox.foldlM (fun s msg =>
    match feed s msg with
    | .error (.error _) => .ok s
    | r => r) { self with inbox := [] }

/-- `Consensus::propose_unchecked`: the proposal sent and fed. -/
def proposeUncheckedWith (self : Consensus N H B P) (blockHash : H) (blockProposal : P) :
    Except (Failure N H) (Consensus N H B P) :=
  let msg := ConsensusMessage.new self.epoch self.round blockHash self.pkey (.Proposal blockProposal)
  expectValid (feed { self with outbox := self.outbox ++ [msg] } msg)

/-- Whether the proposal differs from the locked one (the test of `prevote`;
    the current proposal is read only when the block hashes agree). -/
def differsFromLocked (self : Consensus N H B P) (blockHash : H) :
    Except (Failure N H) Bool :=
  match self.lockedRound with
  | none => .ok false
  | some locked =>
    if blockHash ≠ digest locked.block then .ok true
    else match self.blockProposal with
      | some p => .ok (digest locked.blockProposal ≠ digest p)
      | none => .error (.panic Failure.unwrapNone)

/-- `Consensus::prevote`: the validated block kept, and a pre-vote sent and fed,
    unless the validator is locked on another proposal. -/
def prevoteWith (self : Consensus N H B P) (block : B) :
    Except (Failure N H) (Consensus N H B P) := do
  if !self.shouldPrevote then throw (.panic "assertion failed: self.should_prevote()")
  let blockHash := digest block
  let expected ← self.expectBlockHash
  if blockHash ≠ expected then throw (.panic Failure.assertEq)
  let self := { self with block := some block }
  let differs ← self.differsFromLocked blockHash
  if differs then pure self
  else
    let msg := ConsensusMessage.new self.epoch self.round blockHash self.pkey .Prevote
    expectValid (feed { self with outbox := self.outbox ++ [msg] } msg)

/-- `Consensus::precommit`: a pre-commit of the block hash sent and fed. -/
def precommitWith (self : Consensus N H B P) : Except (Failure N H) (Consensus N H B P) := do
  if self.state ≠ .Precommit then throw (.panic Failure.assertEq)
  if self.block.isNone then throw (.panic "assertion failed: self.block.is_some()")
  let blockHash ← self.expectBlockHash
  let msg := ConsensusMessage.new self.epoch self.round blockHash self.pkey
    (.Precommit ⟨self.pkey, blockHash⟩)
  expectValid (feed { self with outbox := self.outbox ++ [msg] } msg)

/-- A proposal received in `Propose` (`feed_message`): from the leader, it moves
    the validator to `Prevote`; a proposal of the locked block takes the lock
    and repeats its pre-vote. -/
def onProposalWith (self : Consensus N H B P) (msg : ConsensusMessage N H P) (blockProposal : P) :
    Except (Failure N H) (Consensus N H B P) := do
  if self.state ≠ .Propose then throw (.panic Failure.assertEq)
  if msg.pkey ≠ self.leader then
    throw (.error (.ProposalFromNonLeader msg.blockHash self.leader msg.pkey))
  if !self.prevotes.isEmpty then throw (.panic "assertion failed: self.prevotes.is_empty()")
  if self.blockHash.isSome then throw (.panic "assertion failed: self.block_hash.is_none()")
  if self.blockProposal.isSome then
    throw (.panic "assertion failed: self.block_proposal.is_none()")
  let self := { self with state := .Prevote, block := none, blockHash := some msg.blockHash,
                          blockProposal := some blockProposal }
  let self ← match self.lockedRound with
    | some locked =>
      if msg.blockHash = digest locked.block ∧ digest locked.blockProposal = digest blockProposal then
        -- `self.locked_round.take()`: the lock is given up for the repeated vote
        prevoteWith feed { self with lockedRound := none, precommits := locked.precommits }
          locked.block
      else pure self
    | none => pure self
  processInboxWith feed self

/-- A vote collected (`feed_message`): a pre-vote with the message's signature,
    a pre-commit once its signature of the block hash is checked. -/
def collect (self : Consensus N H B P) (msg : ConsensusMessage N H P) :
    Except (Failure N H) (Consensus N H B P) :=
  match msg.body with
  | .Proposal _ => .ok self
  | .Prevote =>
    if self.state = .Propose then .error (.panic Failure.assertNe)
    else .ok { self with prevotes := self.prevotes.insert msg.pkey msg.sig }
  | .Precommit blockHashSig =>
    if self.state = .Propose then .error (.panic Failure.assertNe)
    else match self.blockHash with
      | none => .error (.panic Failure.unwrapNone)
      | some blockHash =>
        if blockHashSig = ⟨msg.pkey, blockHash⟩ then
          .ok { self with precommits := self.precommits.insert msg.pkey blockHashSig }
        else .error (.error (.InvalidRequestSignature blockHash))

/-- The end of `feed_message`: with a supermajority of pre-votes, `Prevote`
    moves to `Precommit` (and pre-commits, if the validator pre-voted); with a
    supermajority of pre-commits, `Precommit` moves to `Commit`. -/
def checkVotesWith (self : Consensus N H B P) : Except (Failure N H) (Consensus N H B P) :=
  if self.state = .Prevote then do
    let (superMajority, _) ← self.checkSupermajority self.prevotes
    if !superMajority then pure self
    else
      let self := { self with state := .Precommit }
      if self.prevotes.contains self.pkey then precommitWith feed self else pure self
  else if self.state = .Precommit then do
    let (superMajority, _) ← self.checkSupermajority self.precommits
    if superMajority then pure { self with state := .Commit } else pure self
  else pure self

/-- `Consensus::feed_message`, with `feed` for the nested messages. -/
def feedMessageWith (self : Consensus N H B P) (msg : ConsensusMessage N H P) :
    Except (Failure N H) (Consensus N H B P) := do
  msg.validate.mapError .error
  if !self.validators.contains msg.pkey then throw (.error (.UnknownMessagePeer msg.pkey))
  -- a message of another epoch, or of a past round, is discarded
  if msg.epoch ≠ self.epoch then pure self
  else if msg.round < self.round then pure self
  else if self.round < msg.round then pure (self.queue msg)
  else
    if self.state ≠ .Propose then
      let expected ← self.expectBlockHash
      if expected ≠ msg.blockHash then
        throw (.error (.InvalidRequestHash expected msg.blockHash msg.pkey))
    if self.state = .Commit then pure self
    else match admission msg.body self.state with
      | .early => pure (self.queue msg)
      | .unexpected => throw (.error (.InvalidMessage self.state.name msg.name))
      | .accept => do
        let self ← match msg.body with
          | .Proposal blockProposal => onProposalWith feed self msg blockProposal
          | _ => self.collect msg
        checkVotesWith feed self

/-- `Consensus::reset`: back to `Propose`; a locked leader proposes its locked
    block again. -/
def resetWith (self : Consensus N H B P) : Except (Failure N H) (Consensus N H B P) := do
  let self := { self with state := .Propose, prevotes := ∅, precommits := ∅, block := none,
                          blockHash := none, blockProposal := none, outbox := [] }
  let self ← if self.isLeader then
      match self.lockedRound with
      | some locked => proposeUncheckedWith feed self (digest locked.block) locked.blockProposal
      | none => pure self
    else pure self
  processInboxWith feed self

/-- `Consensus::lock`: the block of this round locked, with its pre-commits. -/
def lockWith (self : Consensus N H B P) : Except (Failure N H) (Consensus N H B P) := do
  if self.state ≠ .Precommit then throw (.panic Failure.assertEq)
  let some block := self.block | throw (.panic "expected some block")
  let some blockProposal := self.blockProposal | throw (.panic "expected some block_proposal")
  resetWith feed { self with block := none, blockProposal := none, precommits := ∅,
                             lockedRound := some ⟨self.precommits, block, blockProposal⟩ }

/-- `Consensus::next_round`: the next round; a validator leaving `Precommit` locks. -/
def nextRoundWith (self : Consensus N H B P) : Except (Failure N H) (Consensus N H B P) :=
  if self.state = .Commit then .error (.panic Failure.assertNe)
  else
    let self := { self with round := self.round + 1 }
    if self.state = .Precommit then lockWith feed self else resetWith feed self

/-- `Consensus::propose`. -/
def proposeWith (self : Consensus N H B P) (blockHash : H) (blockProposal : P) :
    Except (Failure N H) (Consensus N H B P) :=
  if self.shouldPropose then proposeUncheckedWith feed self blockHash blockProposal
  else .error (.panic "invalid state")

end Transitions

/-! ### The recursion tied -/

/-- `feed_message`, with at most `n` levels of nested messages. -/
def feedMessageN : ℕ → Consensus N H B P → ConsensusMessage N H P →
    Except (Failure N H) (Consensus N H B P)
  | 0, _, _ => .error .exhausted
  | n + 1, self, msg => feedMessageWith (feedMessageN n) self msg

/-- The nesting that the calls of the code reach: a proposal, the pre-vote it
    makes, and the pre-commit that this pre-vote completes. -/
def feedDepth : ℕ := 3

/-- `Consensus::feed_message`. -/
def feedMessage (self : Consensus N H B P) (msg : ConsensusMessage N H P) :
    Except (Failure N H) (Consensus N H B P) :=
  feedMessageN feedDepth self msg

/-- `Consensus::prevote`. -/
def prevote (self : Consensus N H B P) (block : B) : Except (Failure N H) (Consensus N H B P) :=
  prevoteWith (feedMessageN feedDepth) self block

/-- `Consensus::propose`. -/
def propose (self : Consensus N H B P) (blockHash : H) (blockProposal : P) :
    Except (Failure N H) (Consensus N H B P) :=
  proposeWith (feedMessageN feedDepth) self blockHash blockProposal

/-- `Consensus::reset`. -/
def reset (self : Consensus N H B P) : Except (Failure N H) (Consensus N H B P) :=
  resetWith (feedMessageN feedDepth) self

/-- `Consensus::next_round`. -/
def nextRound (self : Consensus N H B P) : Except (Failure N H) (Consensus N H B P) :=
  nextRoundWith (feedMessageN feedDepth) self

end Consensus

end Stegos
