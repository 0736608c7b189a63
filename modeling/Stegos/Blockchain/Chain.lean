import Stegos.Blockchain.Election
import Stegos.Blockchain.Escrow

/-!
# The state of the blockchain

`Blockchain` (`blockchain.rs`): the blocks on the disk, by position, and the
in-memory indexes built from them, six of which are multi-versioned maps
written at the position (`LSN`) of the block that changes them: the block of
each hash, the unspent outputs (by the position of the output in its block),
the monetary balance, the stakes (`Escrow`), the election result of the
epoch, and the activity of the validators over the epoch.

This module holds the state and what reads it: an output resolved through its
block, the election result and its leaders, the election result at an earlier
offset of the epoch (a rollback of a copy), and the two ways the service award
of an epoch is computed: by the proposer of the macro block from the activity
of the current validators (`awards_from_active_epoch`), and by the validators
of the block from its activity map (`epoch_activity_from_macro_block`).

* The disk is a map from positions to blocks; reading it never fails but for
  the code's own panics. The cache of macro blocks is left out: it returns
  the blocks of the disk.
* A `HashMap` is iterated in the order of its keys.
-/

namespace Stegos

/-- `Blockchain`. The maps whose field shares its name with a method are named
    after their types (`BalanceMap`, `OutputByHashMap`, `ElectionResultList`). -/
structure Blockchain (Fr Pt : Type) where
  cfg : ChainConfig
  consistencyCheck : ConsistencyCheck
  /-- The blocks on the disk, by position. -/
  database : Std.ExtTreeMap LSN (Block Fr Pt) compare
  blockByHash : MultiVersionedMap ℕ LSN LSN
  outputByHashMap : MultiVersionedMap ℕ OutputKey LSN
  balanceMap : MultiVersionedMap Unit (Balance Fr Pt) LSN
  escrow : Escrow
  difficulty : ℕ
  epoch : ℕ
  offset : ℕ
  electionResultList : MultiVersionedMap Unit ElectionResult LSN
  viewChangeProof : Option ViewChangeProof
  lastMacroBlockTimestamp : ℕ
  lastMacroBlockHash : ℕ
  lastMacroBlockRandom : ℕ
  lastBlockTimestamp : ℕ
  lastBlockHash : ℕ
  awards : Awards
  epochActivity : MultiVersionedMap ℕ ValidatorAwardState LSN

/-- The position of the block before `(epoch, offset)`: the macro block of the
    previous epoch at offset `0`. -/
def lsnBefore (epoch offset : ℕ) : LSN :=
  if offset = 0 then ⟨epoch - 1, macroBlockOffset⟩ else ⟨epoch, offset - 1⟩

theorem lsnBefore_succ (epoch offset : ℕ) : lsnBefore epoch (offset + 1) = ⟨epoch, offset⟩ := by
  simp [lsnBefore]

/-- After the first epoch, the block before a position is before it. -/
theorem lsnBefore_lt {epoch offset : ℕ} (h : 0 < epoch) :
    lsnBefore epoch offset < ⟨epoch, offset⟩ := by
  unfold lsnBefore
  split_ifs with h0 <;> simp [LSN.lt_iff] <;> omega

theorem lsnBefore_mono {epoch offset offset' : ℕ} (he : 0 < epoch) (h : offset ≤ offset') :
    lsnBefore epoch offset ≤ lsnBefore epoch offset' := by
  unfold lsnBefore
  split_ifs with h0 h0' h0' <;> simp [LSN.le_iff] <;> omega

namespace Blockchain

variable {Fr Pt : Type} [AddCommGroup Fr] [AddCommGroup Pt] (κ : Crypto Fr Pt)

/-! ### Blocks and outputs -/

/-- `Blockchain::block`: the block at a position. -/
def block (self : Blockchain Fr Pt) (lsn : LSN) : Except Fault (Block Fr Pt) :=
  expect "Block must exists" self.database[lsn]?

/-- `Blockchain::micro_block`. -/
def microBlock (self : Blockchain Fr Pt) (epoch offset : ℕ) : Except Fault (MicroBlock Fr Pt) := do
  match ← self.block ⟨epoch, offset⟩ with
  | .MicroBlock b => pure b
  | .MacroBlock b =>
    let epoch := b.header.epoch
    let hash := κ.hashMacroBlockHeader b.header
    throw (.panic s!"Expected a micro block: epoch={epoch}, block={hash}")

/-- `Blockchain::macro_block`. (The code's panic text says "micro".) -/
def macroBlock (self : Blockchain Fr Pt) (epoch : ℕ) : Except Fault (MacroBlock Fr Pt) := do
  match ← self.block ⟨epoch, macroBlockOffset⟩ with
  | .MacroBlock b => pure b
  | .MicroBlock b =>
    let epoch := b.header.epoch
    let offset := b.header.offset
    let hash := κ.hashMicroBlockHeader b.header
    throw (.panic s!"Expected a micro block: epoch={epoch}, offset={offset}, block={hash}")

/-- `Blockchain::output_by_hash`: an unspent output, read from its block. An
    output of a macro block that is not there has been pruned. -/
def outputByHash (self : Blockchain Fr Pt) (outputHash : ℕ) : Except Fault (Option (Output Pt)) :=
  match self.outputByHashMap.get outputHash with
  | some (.MacroBlock epoch outputId) => do
    let block ← self.macroBlock κ epoch
    check (block.header.epoch = epoch) "assertion failed: `(left == right)`"
    pure block.outputs[outputId]?
  | some (.MicroBlock epoch offset txId txoutId) => do
    let block ← self.microBlock κ epoch offset
    let tx ← expect "Corrupted outputs_by_hash (Micro-2)" block.transactions[txId]?
    let output ← expect "Corrupted outputs_by_hash (Micro-3)" tx.txouts[txoutId]?
    pure (some output)
  | none => pure none

/-- `Blockchain::contains_output`. -/
def containsOutput (self : Blockchain Fr Pt) (outputHash : ℕ) : Bool :=
  (self.outputByHashMap.get outputHash).isSome

/-- `Blockchain::contains_block`. -/
def containsBlock (self : Blockchain Fr Pt) (blockHash : ℕ) : Bool :=
  (self.blockByHash.get blockHash).isSome

/-- `Blockchain::blocks_starting`: the blocks from a position on, in order. -/
def blocksStarting (self : Blockchain Fr Pt) (epoch offset : ℕ) : List (Block Fr Pt) :=
  (self.database.toList.filter fun (lsn, _) => (⟨epoch, offset⟩ : LSN) ≤ lsn).map Prod.snd

/-! ### Election -/

/-- `Blockchain::election_result`. -/
def electionResult (self : Blockchain Fr Pt) : Except Fault ElectionResult :=
  unwrap (self.electionResultList.get ())

/-- `Blockchain::validators`. -/
def validators (self : Blockchain Fr Pt) : Except Fault StakersGroup :=
  (·.validators) <$> self.electionResult

/-- `Blockchain::view_change`. -/
def viewChange (self : Blockchain Fr Pt) : Except Fault ℕ :=
  (·.viewChange) <$> self.electionResult

/-- `Blockchain::last_random`. -/
def lastRandom (self : Blockchain Fr Pt) : Except Fault ℕ :=
  (·.random.rand) <$> self.electionResult

/-- `Blockchain::select_leader`. -/
def selectLeader (self : Blockchain Fr Pt) (viewChange : ℕ) : Except Fault ℕ := do
  (← self.electionResult).selectLeader κ viewChange

/-- `Blockchain::leader`: the leader of the current view change. -/
def leader (self : Blockchain Fr Pt) : Except Fault ℕ := do
  self.selectLeader κ (← self.viewChange)

/-- `Blockchain::is_validator`. -/
def isValidator (self : Blockchain Fr Pt) (peer : ℕ) : Except Fault Bool :=
  (·.isValidator peer) <$> self.electionResult

/-- `Blockchain::balance`. -/
def balance (self : Blockchain Fr Pt) : Except Fault (Balance Fr Pt) :=
  unwrap (self.balanceMap.get ())

/-- `Blockchain::is_epoch_full`. -/
def isEpochFull (self : Blockchain Fr Pt) : Bool :=
  self.cfg.microBlocksInEpoch ≤ self.offset

/-- `Blockchain::total_slots`. -/
def totalSlots (self : Blockchain Fr Pt) : ℤ := self.cfg.maxSlotCount

/-- `Blockchain::validate_stakes`. -/
def validateStakes (self : Blockchain Fr Pt) (inputs outputs : List (Output Pt)) :
    Except Fault Unit :=
  self.escrow.validateStakes κ inputs outputs self.epoch

/-- `Blockchain::account_by_network_key`. -/
def accountByNetworkKey (self : Blockchain Fr Pt) (validatorPkey : ℕ) : Option ℕ :=
  self.escrow.accountByNetworkKey validatorPkey

/-- `Blockchain::next_election_result`: the election of the next epoch among
    the stakes active then. -/
def nextElectionResult (self : Blockchain Fr Pt) (random : VRF) : Except Fault ElectionResult :=
  selectValidatorsSlots κ (self.escrow.getStakersMajority (self.epoch + 1) self.cfg.minStakeAmount)
    random self.cfg.maxSlotCount

/-- `Blockchain::set_view_change`: the view change of the election result,
    written at the current position. -/
def setViewChange (self : Blockchain Fr Pt) (newViewChange : ℕ) (proof : ViewChangeProof) :
    Except Fault (Blockchain Fr Pt) := do
  check ((← self.viewChange) < newViewChange)
    "assertion failed: self.view_change() < new_view_change"
  let lsn : LSN := ⟨self.epoch, self.offset⟩
  let electionResult ← self.electionResult
  let (_, electionResultList) ← (self.electionResultList.insert lsn ()
    { electionResult with viewChange := newViewChange }).mapError .panic
  pure { self with electionResultList, viewChangeProof := some proof }

/-- `Blockchain::reset_view_change`. -/
def resetViewChange (self : Blockchain Fr Pt) : Except Fault (Blockchain Fr Pt) := do
  let lsn : LSN := ⟨self.epoch, self.offset⟩
  let electionResult ← self.electionResult
  let (_, electionResultList) ← (self.electionResultList.insert lsn ()
    { electionResult with viewChange := 0 }).mapError .panic
  pure { self with electionResultList, viewChangeProof := none }

/-- `Blockchain::election_result_by_offset`: the election result as it was
    before the block at `offset` of the epoch, from a copy rolled back to the
    block before it. -/
def electionResultByOffset (self : Blockchain Fr Pt) (offset : ℕ) :
    Except Fault ElectionResult := do
  check (0 < self.epoch) "assertion failed: self.epoch > 0"
  check (offset ≤ self.offset) "Election info from future offset."
  let lsn := lsnBefore self.epoch offset
  let election ← (self.electionResultList.rollbackToLsn lsn).mapError .panic
  check (election.currentLsn ≤ lsn) "assertion failed: election.current_lsn() <= lsn"
  unwrap (election.get ())

/-- `Blockchain::validators_at_epoch_start`. -/
def validatorsAtEpochStart (self : Blockchain Fr Pt) : Except Fault StakersGroup :=
  (·.validators) <$> self.electionResultByOffset 0

/-! ### Service awards of the epoch -/

/-- The activity of the current validators, by network key: an unknown one is
    active (`awards_from_active_epoch`). Slashed cheaters are no longer
    validators, so they are left out. -/
def currentActivity (self : Blockchain Fr Pt) :
    Except Fault (Std.ExtTreeMap ℕ ValidatorAwardState compare) := do
  let validators ← self.validators
  pure <| validators.foldl (fun activity (k, _) =>
    activity.insert k ((self.epochActivity.get k).getD .Active)) ∅

/-- `Blockchain::awards_from_active_epoch`: the activity map of the validators
    at the start of the epoch (active ones set), and the winner of the service
    award drawn by `random`, on a copy of the awards finalized with the activity
    of the current validators, by account. -/
def awardsFromActiveEpoch (self : Blockchain Fr Pt) (random : VRF) :
    Except Fault (List Bool × Option (ℕ × ℤ)) := do
  let epochActivity ← self.currentActivity
  let epochValidators ← self.validatorsAtEpochStart
  -- each validator's bit is set once, so the code's assertion that it was unset holds
  let activityMap := epochValidators.map fun (validator, _) =>
    decide (epochActivity[validator]? = some .Active)
  let validatorsActivity ← epochActivity.toList.mapM fun (k, v) => do
    let account ← expect "validator has account key" (self.escrow.accountByNetworkKey k)
    pure (account, v)
  let serviceAwards ← self.awards.finalizeEpoch self.cfg.serviceAwardPerEpoch validatorsActivity
  pure (activityMap, (serviceAwards.checkWinners κ random.rand).2)

/-- `Blockchain::epoch_activity_from_macro_block`: the activity of the
    accounts of the validators at the start of the epoch, from the bits of an
    activity map: a validator without a stake is skipped, and an account that
    failed once stays failed. -/
def epochActivityFromMacroBlock (self : Blockchain Fr Pt) (activityMap : List Bool) :
    Except Fault (Std.ExtTreeMap ℕ ValidatorAwardState compare) := do
  let validators ← self.validatorsAtEpochStart
  if validators.length < activityMap.length then
    throw (.block (.TooBigActivitymap activityMap.length validators.length))
  pure <| validators.zipIdx.foldl (fun validatorsActivity ((validator, _), id) =>
    match self.escrow.accountByNetworkKey validator with
    | none => validatorsActivity
    | some validatorAccount =>
      let activity : ValidatorAwardState :=
        if activityMap.getD id false then .Active else .Failed self.epoch self.offset
      match validatorsActivity[validatorAccount]? with
      | some (.Failed _ _) => validatorsActivity
      | _ => validatorsActivity.insert validatorAccount activity) ∅

end Blockchain

end Stegos
