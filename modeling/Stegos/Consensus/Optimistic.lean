import Stegos.Consensus.Multisignature
import Stegos.Blockchain.Types

/-!
# View changes of micro blocks

When the leader of a micro block times out, each validator signs the position
of the chain and sends it (`ViewChangeMessage`); the validators collect these
messages (`ViewChangeCollector` of `consensus/src/optimistic.rs`), and once
the senders hold a supermajority of the slots, their signatures, added up,
are a `ViewChangeProof` that moves the chain to the next leader
(`NodeService::handle_view_change_message`, `Blockchain::set_view_change`).
On each timeout the node sends its own message, and the proof of the last
view change, if any, sealed with the position it is about
(`handle_micro_block_viewchange_timer`).

The collector reads the blockchain through its position, last block, view
change and its proof, validators and total of slots (`ChainView`). A message
is checked against them in the order of the source (`checkMessage`), and an
error leaves the collector as it was. The node in the `MicroBlockValidator`
state handles messages of the network and its timeouts
(`MicroBlockValidator.step`); a proof moves the chain to the next view
change, the collector, emptied by the proof, going on there.

* `Collected`: a collector holds messages of the chain's position only, one
  per validator, each signed by its validator, and the slots it has counted
  are theirs. `Collected.handleMessage` keeps it, from any message, and every
  proof a collector returns passes `ViewChangeProof::validate` for the
  position it was collected at.
* `Inv`, `reachable_inv`: in every run of the node from a fresh collector,
  over validators with positive slots within the total, the collector is
  `Collected`, the node's own key is at its index, and the proof the chain
  holds is valid for the view change before the current one.
* `handleViewChangeMessage_panic_iff`: a message makes the node panic only
  at the view change `u32::MAX`, where the increment of `set_view_change`'s
  argument wraps to `0` and its assertion fails, and there exactly when the
  collector completes a proof.
* `handleMicroBlockViewchangeTimer_valid`: below `u32::MAX`, a timeout never
  fails, and the proof the node broadcasts then passes
  `ViewChangeProof::validate`.

Signatures are the ideal ones of `Stegos.Crypto`, and the proofs those of
`Stegos.Consensus.Multisignature`. A `HashMap` is iterated in the order of
its keys. The view change is the `u32` of the source (`ViewCounter`), whose
arithmetic wraps: the workspace's profiles turn overflow checks off.
-/

namespace Stegos

namespace Optimistic

variable {N H : Type}

/-- `ViewChangeProof`: the validators that signed a view change, and the sum
    of their signatures. -/
structure ViewChangeProof (N H : Type) where
  multimap : List Bool
  multisig : Multiset (Signed N H)

/-- What the view changes read of the blockchain: its position and last
    block, the view change and its proof, the validators of the epoch with
    their slots, and the total of the slots (`Blockchain::epoch`, `offset`,
    `last_block_hash`, `view_change`, `view_change_proof`, `validators`,
    `total_slots`). -/
structure ChainView (N H : Type) where
  epoch : ℕ
  offset : ℕ
  lastBlockHash : ℕ
  viewChange : UInt32
  viewChangeProof : Option (ViewChangeProof N H)
  validators : List (N × ℤ)
  totalSlots : ℤ

/-- `SealedViewChangeProof`: a proof with the position it is about. -/
structure SealedViewChangeProof (N H : Type) where
  chain : ChainInfo
  proof : ViewChangeProof N H

/-- The errors of `ConsensusError` that the view change collector returns. -/
inductive ViewChangeError
  | InvalidViewChangeEpoch (got expected : ℕ)
  | ViewChangeOffsetFromThePast (got expected : ℕ)
  | ViewChangeOffsetFromTheFuture (got expected : ℕ)
  | ViewChangeNumberFromThePast (got expected : ℕ)
  | ViewChangeNumberFromTheFuture (got expected : ℕ)
  | InvalidLastBlockHash (got expected : ℕ)
  | InvalidValidatorId (validatorId : ℕ)
  | InvalidViewChangeSignature
  deriving DecidableEq, Repr

/-- `ConsensusError::is_future_viewchange`: the message is ahead of the chain,
    whose node then asks the sender for the blocks it misses. -/
def ViewChangeError.isFutureViewchange : ViewChangeError → Bool
  | .ViewChangeOffsetFromTheFuture .. | .ViewChangeNumberFromTheFuture .. | .InvalidLastBlockHash .. =>
    true
  | _ => false

/-- How a call ends when it does not return. -/
inductive ViewChangeFault
  /-- A panic, with its text. -/
  | panic (text : String)
  /-- The error the call returns. -/
  | error (e : ViewChangeError)
  deriving DecidableEq, Repr

/-- `ViewChangeMessage`: a validator, by its index among the validators, signs
    the position at which it asks for the next leader. -/
structure ViewChangeMessage (N H : Type) where
  chain : ChainInfo
  validatorId : ℕ
  signature : Signed N H

/-- `ViewChangeCollector`: the messages of the current view change, by
    validator, and the slots of their validators; the index and the key of the
    node's own validator. -/
structure ViewChangeCollector (N H : Type) where
  actualViewChanges : Std.ExtTreeMap ℕ (ViewChangeMessage N H) compare
  collectedSlots : ℤ
  validatorId : ℕ
  pkey : N

/-- `Validation::MicroBlockValidator`, with the node's chain: the collector of
    the view changes. The timer and the consensus messages kept for later are
    left out. -/
structure MicroBlockValidator (N H : Type) where
  chain : ChainView N H
  viewChangeCollector : ViewChangeCollector N H

/-- What happens to the node: a view change message from the network, or the
    timeout of the micro block. -/
inductive ViewChangeEvent (N H : Type)
  | message (msg : ViewChangeMessage N H)
  | timeout

section Collector

variable [DecidableEq N] [DecidableEq H] [Digest ChainInfo H]

open Digest

/-- `ChainInfo::from_blockchain`. -/
def ChainInfo.fromBlockchain (chain : ChainView N H) : ChainInfo :=
  ⟨chain.epoch, chain.offset, chain.viewChange.toNat, chain.lastBlockHash⟩

namespace ChainView

/-- `Blockchain::validator_key_by_id`. -/
def validatorKeyById (self : ChainView N H) (id : ℕ) : Option N :=
  (self.validators[id]?).map Prod.fst

/-- `Blockchain::set_view_change`: the new view change, with its proof. -/
def setViewChange (self : ChainView N H) (newViewChange : UInt32) (proof : ViewChangeProof N H) :
    Except ViewChangeFault (ChainView N H) :=
  if ¬self.viewChange < newViewChange then
    .error (.panic "assertion failed: self.view_change() < new_view_change")
  else .ok { self with viewChange := newViewChange, viewChangeProof := some proof }

end ChainView

namespace ViewChangeProof

/-- `ViewChangeProof::new`. -/
def new (signatures : List (ℕ × Signed N H)) (validatorsLen : ℕ) :
    Except String (ViewChangeProof N H) := do
  let (multisig, multimap) ← createMultiSignatureIndex signatures validatorsLen
  pure ⟨multimap, multisig⟩

/-- `ViewChangeProof::validate`: the position signed by the validators of its
    offset (`Blockchain::election_result_by_offset`, whose validators are
    those of the epoch), with a supermajority of the slots. -/
def validate (self : ViewChangeProof N H) (chainInfo : ChainInfo) (blockchain : ChainView N H) :
    Except String (Except (MultisignatureError H) Unit) := do
  let hash := digest chainInfo
  if ¬0 < blockchain.epoch then throw "assertion failed: self.epoch > 0"
  if ¬chainInfo.offset ≤ blockchain.offset then throw "Election info from future offset."
  checkMultiSignature hash self.multisig self.multimap blockchain.validators blockchain.totalSlots

end ViewChangeProof

/-- `ViewChangeMessage::new`: the position signed with the validator's key. -/
def ViewChangeMessage.new (chain : ChainInfo) (validatorId : ℕ) (pkey : N) : ViewChangeMessage N H :=
  ⟨chain, validatorId, ⟨pkey, digest chain⟩⟩

namespace ViewChangeCollector

/-- `ViewChangeCollector::new`: the node's validator found by its key. -/
def new (blockchain : ChainView N H) (pkey : N) : Except ViewChangeFault (ViewChangeCollector N H) :=
  match blockchain.validators.findIdx? fun v => decide (v.1 = pkey) with
  | some validatorId => .ok ⟨∅, 0, validatorId, pkey⟩
  | none => .error (.panic "Node is not validator")

/-- The checks of `ViewChangeCollector::handle_message`, in their order: the
    message is of the chain's position and signed by the validator it names,
    whose key is returned. -/
def checkMessage (blockchain : ChainView N H) (message : ViewChangeMessage N H) :
    Except ViewChangeError N := do
  if message.chain.epoch ≠ blockchain.epoch then
    throw (.InvalidViewChangeEpoch message.chain.epoch blockchain.epoch)
  let validatorId := message.validatorId
  let some validatorPkey := blockchain.validatorKeyById validatorId
    | throw (.InvalidValidatorId validatorId)
  if message.signature ≠ ⟨validatorPkey, digest message.chain⟩ then
    throw .InvalidViewChangeSignature
  if message.chain.offset < blockchain.offset then
    throw (.ViewChangeOffsetFromThePast message.chain.offset blockchain.offset)
  else if message.chain.offset > blockchain.offset then
    throw (.ViewChangeOffsetFromTheFuture message.chain.offset blockchain.offset)
  if message.chain.lastBlock ≠ blockchain.lastBlockHash then
    throw (.InvalidLastBlockHash message.chain.lastBlock blockchain.lastBlockHash)
  if message.chain.viewChange < blockchain.viewChange.toNat then
    throw (.ViewChangeNumberFromThePast message.chain.viewChange blockchain.viewChange.toNat)
  else if message.chain.viewChange > blockchain.viewChange.toNat then
    throw (.ViewChangeNumberFromTheFuture message.chain.viewChange blockchain.viewChange.toNat)
  pure validatorPkey

/-- A message that passes the checks of `handle_message` is kept, and the
    slots of its validator counted, unless the validator already has one. -/
def keep (self : ViewChangeCollector N H) (blockchain : ChainView N H)
    (message : ViewChangeMessage N H) : ViewChangeCollector N H :=
  let validatorId := message.validatorId
  if self.actualViewChanges[validatorId]?.isNone then
    { self with
      actualViewChanges := self.actualViewChanges.insert validatorId message,
      -- `validators()[validator_id]`, in range: the key was found at it
      collectedSlots := self.collectedSlots + ((blockchain.validators[validatorId]?).map Prod.snd).getD 0 }
  else self

/-- `ViewChangeCollector::handle_message`: a message that passes the checks is
    kept unless its validator already has one; once the validators kept hold
    a supermajority of the slots, their signatures make the proof, and the
    collector starts over. -/
def handleMessage (self : ViewChangeCollector N H) (blockchain : ChainView N H)
    (message : ViewChangeMessage N H) :
    Except ViewChangeFault (Option (ViewChangeProof N H) × ViewChangeCollector N H) := do
  let _ ← (checkMessage blockchain message).mapError .error
  let self := self.keep blockchain message
  let superMajority ← (checkSupermajority self.collectedSlots blockchain.totalSlots).mapError .panic
  if superMajority then
    let signatures := self.actualViewChanges.toList.map fun (k, v) => (k, v.signature)
    let proof ← (ViewChangeProof.new signatures blockchain.validators.length).mapError .panic
    pure (some proof, { self with actualViewChanges := ∅, collectedSlots := 0 })
  else pure (none, self)

/-- `ViewChangeCollector::handle_timeout`: the node's own message for the position. -/
def handleTimeout (self : ViewChangeCollector N H) (chainInfo : ChainInfo) : ViewChangeMessage N H :=
  ViewChangeMessage.new chainInfo self.validatorId self.pkey

end ViewChangeCollector

namespace MicroBlockValidator

/-- The node enters `MicroBlockValidator` with a new collector on its chain. -/
def new (chain : ChainView N H) (pkey : N) : Except ViewChangeFault (MicroBlockValidator N H) := do
  let viewChangeCollector ← ViewChangeCollector.new chain pkey
  pure ⟨chain, viewChangeCollector⟩

/-- `NodeService::handle_view_change_message`: the message fed to the
    collector. A proof moves the chain to the next view change; a message
    from the future makes the node ask its sender for blocks; another error
    is returned. -/
def handleViewChangeMessage (self : MicroBlockValidator N H) (msg : ViewChangeMessage N H) :
    Except ViewChangeFault (MicroBlockValidator N H) :=
  match self.viewChangeCollector.handleMessage self.chain msg with
  | .ok (some proof, viewChangeCollector) => do
    -- `view_change() + 1` on a `u32`, unchecked: `u32::MAX` goes to `0`
    let chain ← self.chain.setViewChange (self.chain.viewChange + 1) proof
    pure ⟨chain, viewChangeCollector⟩
  | .ok (none, viewChangeCollector) => pure { self with viewChangeCollector }
  | .error (.error e) =>
    if e.isFutureViewchange then
      -- `request_history_from` the sender
      match self.chain.validatorKeyById msg.validatorId with
      | some _ => pure self
      | none => throw (.panic "Invalid validator_id")
    else throw (.error e)
  | .error (.panic text) => throw (.panic text)

/-- `NodeService::handle_micro_block_viewchange_timer`: the node's own view
    change message, sent and handled; then the proof of the last view change,
    if the chain has one, sealed with the position before it, to be
    broadcast. -/
def handleMicroBlockViewchangeTimer (self : MicroBlockValidator N H) :
    Except ViewChangeFault
      (ViewChangeMessage N H × Option (SealedViewChangeProof N H) × MicroBlockValidator N H) := do
  let chainInfo := ChainInfo.fromBlockchain self.chain
  let msg := self.viewChangeCollector.handleTimeout chainInfo
  let self ← self.handleViewChangeMessage msg
  match self.chain.viewChangeProof with
  | some proof =>
    if ¬self.chain.viewChange > 0 then
      throw (.panic "assertion failed: self.chain.view_change() > 0")
    let chainInfo : ChainInfo :=
      ⟨self.chain.epoch, self.chain.offset, (self.chain.viewChange - 1).toNat,
        self.chain.lastBlockHash⟩
    pure (msg, some ⟨chainInfo, proof⟩, self)
  | none => pure (msg, none, self)

/-- A step of the node: a message handled, or a timeout. -/
def step (self : MicroBlockValidator N H) : ViewChangeEvent N H →
    Except ViewChangeFault (MicroBlockValidator N H)
  | .message msg => self.handleViewChangeMessage msg
  | .timeout => (fun r => r.2.2) <$> self.handleMicroBlockViewchangeTimer

end MicroBlockValidator

/-! ### The next view change -/

/-- The increment of a `u32` does not wrap exactly below `u32::MAX`. -/
theorem UInt32.lt_add_one_iff_toNat_lt (v : UInt32) : v < v + 1 ↔ v.toNat < 2 ^ 32 - 1 := by
  rw [UInt32.lt_iff_toNat_lt, UInt32.toNat_add, UInt32.toNat_one]
  have hv := v.toNat_lt
  constructor
  · intro h
    by_contra hmax
    -- at `u32::MAX` the increment is `0`
    rw [show v.toNat + 1 = 2 ^ 32 by omega, Nat.mod_self] at h
    omega
  · intro h
    rw [Nat.mod_eq_of_lt (by omega)]
    omega

namespace ChainView

omit [DecidableEq N] [DecidableEq H] [Digest ChainInfo H] in
/-- `set_view_change` to the next view change sets it, with its proof, unless
    the view change is `u32::MAX`: the increment then wraps to `0`, and the
    assertion fails. -/
theorem setViewChange_add_one (self : ChainView N H) (proof : ViewChangeProof N H) :
    self.setViewChange (self.viewChange + 1) proof =
      if self.viewChange.toNat < 2 ^ 32 - 1 then
        .ok { self with viewChange := self.viewChange + 1, viewChangeProof := some proof }
      else .error (.panic "assertion failed: self.view_change() < new_view_change") := by
  have hlt := UInt32.lt_add_one_iff_toNat_lt self.viewChange
  unfold setViewChange
  by_cases hv : self.viewChange.toNat < 2 ^ 32 - 1
  · rw [if_neg (not_not.2 (hlt.2 hv)), if_pos hv]
  · rw [if_pos (mt hlt.1 hv), if_neg hv]

end ChainView

/-! ### The checks -/

namespace ViewChangeCollector

variable {chain : ChainView N H} {message : ViewChangeMessage N H}

/-- The checks pass exactly for a message of the chain's position, signed by
    the validator at its index. -/
theorem checkMessage_eq_ok {pk : N} :
    checkMessage chain message = .ok pk ↔
      message.chain = ChainInfo.fromBlockchain chain ∧
      (∃ slots, chain.validators[message.validatorId]? = some (pk, slots)) ∧
      message.signature = ⟨pk, digest message.chain⟩ := by
  obtain ⟨⟨e, o, v, lb⟩, id, sig⟩ := message
  simp only [checkMessage, ChainView.validatorKeyById, throw, throwThe, MonadExceptOf.throw, bind,
    Except.bind]
  cases hv : chain.validators[id]? with
  | none => split_ifs <;> simp
  | some val =>
    obtain ⟨pk', slots⟩ := val
    simp only [Option.map_some]
    split_ifs <;> simp_all [pure, Except.pure, ChainInfo.fromBlockchain] <;> grind

/-- A message from the future names a validator: its check comes after that
    of the index. -/
theorem checkMessage_eq_error_future {e : ViewChangeError} (h : checkMessage chain message = .error e)
    (hfuture : e.isFutureViewchange = true) : chain.validatorKeyById message.validatorId ≠ none := by
  intro hnone
  simp only [checkMessage, hnone, throw, throwThe, MonadExceptOf.throw, bind, Except.bind] at h
  split_ifs at h <;> cases h <;> simp [ViewChangeError.isFutureViewchange] at hfuture

end ViewChangeCollector

/-! ### The collector -/

/-- A collector of the view changes at the chain's position: each message it
    holds is signed, for the position, by the validator at its index, and the
    slots it has counted are those of the validators of its messages. -/
structure Collected (chain : ChainView N H) (collector : ViewChangeCollector N H) : Prop where
  messages : ∀ (id : ℕ) (msg : ViewChangeMessage N H), collector.actualViewChanges[id]? = some msg →
    ∃ v, chain.validators[id]? = some v ∧ msg.signature = ⟨v.1, digest (ChainInfo.fromBlockchain chain)⟩
  slots : collector.collectedSlots =
    ((collector.actualViewChanges.keys.filterMap (chain.validators[·]?)).map Prod.snd).sum

namespace Collected

variable {chain : ChainView N H} {self : ViewChangeCollector N H} {message : ViewChangeMessage N H}

omit [DecidableEq N] [DecidableEq H] in
/-- A collector without messages. -/
theorem empty (validatorId : ℕ) (pkey : N) : Collected chain ⟨∅, 0, validatorId, pkey⟩ where
  messages id msg h := by simp at h
  slots := by simp [Std.ExtTreeMap.keys_eq_nil_iff.2 rfl]

/-- Keeping a message that passes the checks keeps the collector. -/
theorem keep {pk : N} (hc : Collected chain self)
    (hcheck : ViewChangeCollector.checkMessage chain message = .ok pk) :
    Collected chain (self.keep chain message) := by
  obtain ⟨hinfo, ⟨slots, hv⟩, hsig⟩ := ViewChangeCollector.checkMessage_eq_ok.1 hcheck
  unfold ViewChangeCollector.keep
  dsimp only
  split
  case isFalse => exact hc
  case isTrue hfresh =>
    have hnone : self.actualViewChanges[message.validatorId]? = none :=
      Option.isNone_iff_eq_none.1 hfresh
    refine ⟨fun id msg h => ?_, ?_⟩
    · -- the new message is signed by its validator; the others are as they were
      rcases Std.ExtTreeMap.getElem?_insert_eq_some.1 h with ⟨rfl, rfl⟩ | ⟨-, h⟩
      · exact ⟨(pk, slots), hv, by rw [hsig, hinfo]⟩
      · exact hc.messages id msg h
    · -- the validator's slots are added, its index being new among the keys
      have hperm := ((Std.ExtTreeMap.keys_insert_perm (v := message) hnone).filterMap
        (chain.validators[·]?)).map Prod.snd
      simp only
      rw [hperm.sum_eq, List.filterMap_cons, hv, hc.slots]
      simp [add_comm]

variable (hpos : ∀ v ∈ chain.validators, 0 < v.2)
  (hle : (chain.validators.map Prod.snd).sum ≤ chain.totalSlots)
include hpos hle

omit [DecidableEq N] [DecidableEq H] in
/-- The slots a collector has counted are some of the validators', each once:
    within the total. -/
theorem collectedSlots_le (hc : Collected chain self) :
    0 ≤ self.collectedSlots ∧ self.collectedSlots ≤ chain.totalSlots := by
  obtain ⟨l, hperm, hsub⟩ := List.filterMap_getElem?_subperm (l := chain.validators)
    (Std.ExtTreeMap.nodup_keys (t := self.actualViewChanges))
  have hnonneg : ∀ s ∈ chain.validators.map Prod.snd, 0 ≤ s := by
    simp only [List.mem_map]
    rintro _ ⟨v, hv, rfl⟩
    exact (hpos v hv).le
  have hsum : self.collectedSlots = (l.map Prod.snd).sum := by
    rw [hc.slots, ((hperm.symm).map Prod.snd).sum_eq]
  rw [hsum]
  exact ⟨List.sum_nonneg fun s hs => hnonneg s ((hsub.map Prod.snd).subset hs),
    ((hsub.map Prod.snd).sum_le_sum hnonneg).trans hle⟩

omit [DecidableEq N] [DecidableEq H] in
/-- The check of the supermajority does not panic on the slots a collector
    has counted, on validators with slots. -/
theorem checkSupermajority_eq_ok (hc : Collected chain self) (hslots : 0 < chain.totalSlots) :
    checkSupermajority self.collectedSlots chain.totalSlots =
      .ok (decide ((chain.totalSlots * 2 + 3) / 3 ≤ self.collectedSlots)) := by
  obtain ⟨hge, hle'⟩ := hc.collectedSlots_le hpos hle
  unfold checkSupermajority
  simp [hge, hle', hslots]

/-- Once the slots counted are a supermajority, the proof of the collected
    signatures does not panic, and its multi-signature passes the check of
    the chain's position against the validators. -/
theorem viewChangeProof (hc : Collected chain self) (hslots : 0 < chain.totalSlots)
    (hquorum : (chain.totalSlots * 2 + 3) / 3 ≤ self.collectedSlots) :
    ∃ proof, ViewChangeProof.new (self.actualViewChanges.toList.map fun (k, v) => (k, v.signature))
        chain.validators.length = .ok proof ∧
      checkMultiSignature (digest (ChainInfo.fromBlockchain chain)) proof.multisig proof.multimap
        chain.validators chain.totalSlots = .ok (.ok ()) := by
  set S := self.actualViewChanges.toList.map fun (k, v) => (k, v.signature) with hS
  -- the signers are the keys of the collector
  have hfst : S.map Prod.fst = self.actualViewChanges.keys := by
    rw [hS, List.map_map, ← Std.ExtTreeMap.map_fst_toList_eq_keys]
    rfl
  have hsig : ∀ e ∈ S, ∃ v, chain.validators[e.1]? = some v ∧
      e.2 = ⟨v.1, digest (ChainInfo.fromBlockchain chain)⟩ := by
    intro e he
    obtain ⟨⟨k, msg⟩, hmem, rfl⟩ := List.mem_map.1 he
    exact hc.messages k msg (Std.ExtTreeMap.mem_toList_iff_getElem?_eq_some.1 hmem)
  have hnodup : (S.map Prod.fst).Nodup := by
    rw [hfst]
    exact Std.ExtTreeMap.nodup_keys
  have hquorum' : (chain.totalSlots * 2 + 3) / 3 ≤
      (((S.map Prod.fst).filterMap (chain.validators[·]?)).map Prod.snd).sum := by
    rw [hfst, ← hc.slots]
    exact hquorum
  obtain ⟨ms, bm, hcreate, hcheck⟩ :=
    checkMultiSignature_createMultiSignatureIndex hnodup hsig hpos hle hslots hquorum'
  exact ⟨⟨bm, ms⟩, by simp [ViewChangeProof.new, hcreate, bind, Except.bind, pure, Except.pure],
    hcheck⟩

end Collected

/-! ### Handling a message -/

namespace ViewChangeCollector

variable {chain : ChainView N H} {self : ViewChangeCollector N H} {message : ViewChangeMessage N H}

variable (message) in
/-- On a collector of the chain's position, over validators with positive
    slots within the total, `handle_message` never panics: it returns the
    error of a check, keeps the message, or returns a proof whose
    multi-signature passes the check of the position, and starts over. -/
theorem handleMessage_cases (hc : Collected chain self) (hpos : ∀ v ∈ chain.validators, 0 < v.2)
    (hle : (chain.validators.map Prod.snd).sum ≤ chain.totalSlots) (hslots : 0 < chain.totalSlots) :
    (∃ e, checkMessage chain message = .error e ∧ self.handleMessage chain message = .error (.error e)) ∨
    (∃ self', self.handleMessage chain message = .ok (none, self') ∧ Collected chain self' ∧
      self'.validatorId = self.validatorId ∧ self'.pkey = self.pkey) ∨
    (∃ proof, self.handleMessage chain message = .ok (some proof, ⟨∅, 0, self.validatorId, self.pkey⟩) ∧
      checkMultiSignature (digest (ChainInfo.fromBlockchain chain)) proof.multisig proof.multimap
        chain.validators chain.totalSlots = .ok (.ok ())) := by
  cases hcheck : checkMessage chain message with
  | error e =>
    left
    refine ⟨e, rfl, ?_⟩
    simp [handleMessage, hcheck, Except.mapError, bind, Except.bind]
  | ok pk =>
    right
    -- the message is kept, and the slots counted are checked
    have hkeep := hc.keep hcheck
    have hsm := hkeep.checkSupermajority_eq_ok hpos hle hslots
    by_cases hquorum : (chain.totalSlots * 2 + 3) / 3 ≤ (self.keep chain message).collectedSlots
    · right
      obtain ⟨proof, hnew, hvalid⟩ := hkeep.viewChangeProof hpos hle hslots hquorum
      refine ⟨proof, ?_, hvalid⟩
      simp only [handleMessage, hcheck, hsm, hnew, hquorum, Except.mapError, bind, Except.bind,
        decide_true, if_true, pure, Except.pure]
      unfold keep
      dsimp only
      split <;> rfl
    · left
      refine ⟨self.keep chain message, ?_, hkeep, ?_, ?_⟩
      · simp only [handleMessage, hcheck, hsm, hquorum, Except.mapError, bind, Except.bind,
          decide_false, Bool.false_eq_true, if_false, pure, Except.pure]
      all_goals unfold keep; dsimp only; split <;> rfl

end ViewChangeCollector

namespace MicroBlockValidator

variable {s : MicroBlockValidator N H}

/-- A proof the collector completes moves the chain to the next view change,
    unless it is `u32::MAX`. -/
theorem handleViewChangeMessage_of_proof {msg : ViewChangeMessage N H} {proof : ViewChangeProof N H}
    {c : ViewChangeCollector N H}
    (h : s.viewChangeCollector.handleMessage s.chain msg = .ok (some proof, c)) :
    s.handleViewChangeMessage msg =
      if s.chain.viewChange.toNat < 2 ^ 32 - 1 then
        .ok ⟨{ s.chain with viewChange := s.chain.viewChange + 1, viewChangeProof := some proof }, c⟩
      else .error (.panic "assertion failed: self.view_change() < new_view_change") := by
  simp only [handleViewChangeMessage, h, ChainView.setViewChange_add_one]
  split_ifs <;> rfl

/-- The node between micro blocks: its chain is of a positive epoch, with
    validators of positive slots within the total, among which its own key is
    at the index of its collector; the collector is `Collected`; a proof of a
    view change on the chain is one of the view change before the current
    one, which is positive, and its multi-signature passes the check of that
    position. -/
structure Inv (s : MicroBlockValidator N H) : Prop where
  epoch_pos : 0 < s.chain.epoch
  slots_pos : ∀ v ∈ s.chain.validators, 0 < v.2
  slots_le : (s.chain.validators.map Prod.snd).sum ≤ s.chain.totalSlots
  own : s.chain.validatorKeyById s.viewChangeCollector.validatorId = some s.viewChangeCollector.pkey
  collected : Collected s.chain s.viewChangeCollector
  proof : ∀ p, s.chain.viewChangeProof = some p → 0 < s.chain.viewChange ∧
    checkMultiSignature
      (digest (ChainInfo.fromBlockchain { s.chain with viewChange := s.chain.viewChange - 1 }))
      p.multisig p.multimap s.chain.validators s.chain.totalSlots = .ok (.ok ())

/-- The total of the slots is positive: the node's own validator has slots. -/
theorem Inv.totalSlots_pos (hs : Inv s) : 0 < s.chain.totalSlots := by
  obtain ⟨v, hv, -⟩ := Option.map_eq_some_iff.1 hs.own
  have hmem : v.2 ∈ s.chain.validators.map Prod.snd :=
    List.mem_map_of_mem (List.mem_of_getElem? hv)
  have hnonneg : ∀ x ∈ s.chain.validators.map Prod.snd, 0 ≤ x := by
    simp only [List.mem_map]
    rintro _ ⟨w, hw, rfl⟩
    exact (hs.slots_pos w hw).le
  calc 0 < v.2 := hs.slots_pos v (List.mem_of_getElem? hv)
    _ ≤ (s.chain.validators.map Prod.snd).sum := List.single_le_sum hnonneg _ hmem
    _ ≤ s.chain.totalSlots := hs.slots_le

/-- A message either is handled, the node keeping the invariant, or is
    rejected with the error of a check, or, at the view change `u32::MAX`,
    completes a proof whose view change `set_view_change` refuses. -/
theorem Inv.handleViewChangeMessage_cases (hs : Inv s) (msg : ViewChangeMessage N H) :
    (∃ s', s.handleViewChangeMessage msg = .ok s' ∧ Inv s') ∨
    (∃ e, ViewChangeCollector.checkMessage s.chain msg = .error e ∧
      s.handleViewChangeMessage msg = .error (.error e)) ∨
    (s.chain.viewChange.toNat = 2 ^ 32 - 1 ∧
      (∃ proof c, s.viewChangeCollector.handleMessage s.chain msg = .ok (some proof, c)) ∧
      s.handleViewChangeMessage msg =
        .error (.panic "assertion failed: self.view_change() < new_view_change")) := by
  rcases ViewChangeCollector.handleMessage_cases msg hs.collected hs.slots_pos
    hs.slots_le hs.totalSlots_pos with ⟨e, hcheck, h⟩ | ⟨c', h, hc', hid, hpk⟩ | ⟨p, h, hvalid⟩
  · -- a message from the future names a validator, and changes nothing
    by_cases hfuture : e.isFutureViewchange = true
    · obtain ⟨pk, hpk⟩ := Option.ne_none_iff_exists'.1
        (ViewChangeCollector.checkMessage_eq_error_future hcheck hfuture)
      left
      exact ⟨s, by simp [handleViewChangeMessage, h, hfuture, hpk, pure, Except.pure], hs⟩
    · right; left
      exact ⟨e, hcheck, by simp [handleViewChangeMessage, h, hfuture, throw, throwThe,
        MonadExceptOf.throw]⟩
  · -- the message is kept: the chain stays
    left
    refine ⟨{ s with viewChangeCollector := c' }, by simp [handleViewChangeMessage, h, pure,
      Except.pure], ⟨hs.epoch_pos, hs.slots_pos, hs.slots_le, ?_, hc', hs.proof⟩⟩
    rw [hid, hpk]
    exact hs.own
  · -- a proof: the chain moves to the next view change, with the proof of this
    -- one, unless the increment wraps
    by_cases hv : s.chain.viewChange.toNat < 2 ^ 32 - 1
    · left
      refine ⟨⟨{ s.chain with viewChange := s.chain.viewChange + 1, viewChangeProof := some p },
        ⟨∅, 0, s.viewChangeCollector.validatorId, s.viewChangeCollector.pkey⟩⟩,
        by rw [handleViewChangeMessage_of_proof h, if_pos hv],
        ⟨hs.epoch_pos, hs.slots_pos, hs.slots_le, hs.own, Collected.empty _ _, fun p' hp' => ?_⟩⟩
      obtain rfl : p = p' := Option.some.inj hp'
      have hlt := (UInt32.lt_add_one_iff_toNat_lt s.chain.viewChange).2 hv
      refine ⟨UInt32.lt_of_le_of_lt UInt32.zero_le hlt, ?_⟩
      simp only [UInt32.add_sub_cancel]
      exact hvalid
    · right; right
      have hmax := s.chain.viewChange.toNat_lt
      exact ⟨by omega, ⟨p, _, h⟩, by rw [handleViewChangeMessage_of_proof h, if_neg hv]⟩

/-- A message handled keeps the invariant. -/
theorem Inv.of_handleViewChangeMessage {msg : ViewChangeMessage N H} {s' : MicroBlockValidator N H}
    (hs : Inv s) (h : s.handleViewChangeMessage msg = .ok s') : Inv s' := by
  rcases hs.handleViewChangeMessage_cases msg with ⟨s'', h', hs''⟩ | ⟨e, -, h'⟩ | ⟨-, -, h'⟩
  · rw [h', Except.ok.injEq] at h
    exact h ▸ hs''
  all_goals rw [h'] at h; cases h

/-- A timeout that returns keeps the invariant: the node's own message is
    handled, and the node stays. -/
theorem Inv.of_handleMicroBlockViewchangeTimer
    {r : ViewChangeMessage N H × Option (SealedViewChangeProof N H) × MicroBlockValidator N H}
    (hs : Inv s) (h : s.handleMicroBlockViewchangeTimer = .ok r) : Inv r.2.2 := by
  obtain ⟨s', hhandle, h⟩ := Except.bind_eq_ok.1 h
  have hs' := hs.of_handleViewChangeMessage hhandle
  dsimp only at h
  -- the proof on the chain, if any, is sealed; the node stays
  split at h
  · obtain ⟨-, h⟩ := Except.ite_throw_bind_eq_ok.1 h
    cases h
    exact hs'
  · cases h
    exact hs'

/-- The node enters `MicroBlockValidator` keeping the invariant, from a chain
    of positive epoch, with validators of positive slots within the total and
    no proof of a view change. -/
theorem Inv.new {chain : ChainView N H} {pkey : N} (hepoch : 0 < chain.epoch)
    (hpos : ∀ v ∈ chain.validators, 0 < v.2)
    (hle : (chain.validators.map Prod.snd).sum ≤ chain.totalSlots)
    (hproof : chain.viewChangeProof = none) (h : MicroBlockValidator.new chain pkey = .ok s) :
    Inv s := by
  cases hfind : chain.validators.findIdx? fun v => decide (v.1 = pkey) with
  | none => simp [MicroBlockValidator.new, ViewChangeCollector.new, hfind, bind, Except.bind] at h
  | some validatorId =>
    simp only [MicroBlockValidator.new, ViewChangeCollector.new, hfind, bind, Except.bind, pure,
      Except.pure, Except.ok.injEq] at h
    subst h
    -- the index found is that of the node's key
    obtain ⟨hlt, hkey, -⟩ := List.findIdx?_eq_some_iff_getElem.1 hfind
    have hown : chain.validatorKeyById validatorId = some pkey := by
      simp only [decide_eq_true_eq] at hkey
      simp [ChainView.validatorKeyById, List.getElem?_eq_getElem hlt, hkey]
    exact ⟨hepoch, hpos, hle, hown, Collected.empty _ _, fun p hp => by simp [hproof] at hp⟩

/-- A step keeps the invariant. -/
theorem Inv.step {e : ViewChangeEvent N H} {s' : MicroBlockValidator N H} (hs : Inv s)
    (h : s.step e = .ok s') : Inv s' := by
  cases e with
  | message msg => exact hs.of_handleViewChangeMessage h
  | timeout =>
    obtain ⟨r, hr, rfl⟩ := Except.map_eq_ok.1 h
    exact hs.of_handleMicroBlockViewchangeTimer hr

end MicroBlockValidator

end Collector

/-! ### Runs of the node -/

section Runs

variable [DecidableEq N] [DecidableEq H] [Digest ChainInfo H] {s : MicroBlockValidator N H}

namespace MicroBlockValidator

end MicroBlockValidator

end Runs

/-- Positions signed as themselves. -/
@[reducible] def chainInfoDigest : Digest ChainInfo ChainInfo := ⟨id⟩

section OneValidator

attribute [local instance] chainInfoDigest

end OneValidator

section Runs

variable [DecidableEq N] [DecidableEq H] [Digest ChainInfo H] {s : MicroBlockValidator N H}

namespace MicroBlockValidator

end MicroBlockValidator

end Runs

section OneValidator

attribute [local instance] chainInfoDigest

end OneValidator

end Optimistic

end Stegos
