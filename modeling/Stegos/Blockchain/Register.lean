import Stegos.Blockchain.Validation

/-!
# Applying blocks

How a block changes the blockchain (`blockchain.rs`): a micro block is pushed
(`push_micro_block`, `register_micro_block`) and popped (`pop_micro_block`), a
macro block is pushed (`push_macro_block`, `register_macro_block`) after the
micro blocks of its epoch are popped, and the leader builds the macro block
of a full epoch from their transactions (`create_macro_block`). The genesis
block starts the chain (`Blockchain::new` on an empty disk).

Every update of an index is written at the position of the block
(`LSN(epoch, offset)`, or `LSN(epoch, MACRO_BLOCK_OFFSET)` for a macro block);
popping a micro block rolls the indexes back to the position of the block
before it. A macro block checkpoints the indexes: the micro blocks of the next
epoch can be popped down to it, not past it.

* The code's `u32` bounds on lengths and indexes are left out.
* Metrics and log lines are left out, as are the writes of the metadata to
  the disk: nothing reads them back but the recovery.
-/

namespace Stegos

variable {Fr Pt : Type} [AddCommGroup Fr] [AddCommGroup Pt] [DecidableEq Fr] [DecidableEq Pt]
  (κ : Crypto Fr Pt)

namespace Blockchain

/-- `Blockchain::write_block`: the block stored at its position. -/
def writeBlock (self : Blockchain Fr Pt) (lsn : LSN) (block : Block Fr Pt) : Blockchain Fr Pt :=
  { self with database := self.database.insert lsn block }

/-! ### Indexes -/

/-- One input of `register_inputs_and_outputs`: the output is no longer
    unspent, its stake (of a stake) leaves the escrow, and its commitment is
    burned. -/
def spendInput (epoch : ℕ) (lsn : LSN) (blockHash : ℕ)
    (acc : MultiVersionedMap ℕ OutputKey LSN × Escrow × Pt) (inputHash : ℕ) (input : Output Pt) :
    Except Fault (MultiVersionedMap ℕ OutputKey LSN × Escrow × Pt) := do
  let (outputByHash, escrow, burned) := acc
  let (prev, outputByHash) ← (outputByHash.remove lsn inputHash).mapError .panic
  if prev.isNone then
    throw (.panic s!"Missing input UTXO: epoch={epoch}, block={blockHash}, utxo={inputHash}")
  let burned := burned + input.pedersenCommitment κ
  match input with
  | .StakeOutput o =>
    let escrow ← escrow.unstake lsn o.validator inputHash
    check (escrow.currentLsn = lsn) "assertion failed: `(left == right)`"
    pure (outputByHash, escrow, burned)
  | _ => pure (outputByHash, escrow, burned)

/-- One output of `register_inputs_and_outputs`: the output is unspent at its
    key, its stake (of a stake) enters the escrow, and its commitment is
    created. -/
def createOutput (epoch stakeEpochs : ℕ) (lsn : LSN) (blockHash : ℕ)
    (acc : MultiVersionedMap ℕ OutputKey LSN × Escrow × Pt) (outputHash : ℕ)
    (entry : Output Pt × OutputKey) :
    Except Fault (MultiVersionedMap ℕ OutputKey LSN × Escrow × Pt) := do
  let (outputByHash, escrow, created) := acc
  let (output, outputKey) := entry
  let (prev, outputByHash) ← (outputByHash.insert lsn outputHash outputKey).mapError .panic
  if prev.isSome then
    throw (.panic s!"UTXO hash collision: epoch={epoch}, block={blockHash}, utxo={outputHash}")
  check (outputByHash.currentLsn = lsn) "assertion failed: `(left == right)`"
  let created := created + output.pedersenCommitment κ
  match output with
  | .StakeOutput o =>
    let escrow ← escrow.stake lsn o.validator o.recipient outputHash epoch stakeEpochs o.amount
    check (escrow.currentLsn = lsn) "assertion failed: `(left == right)`"
    pure (outputByHash, escrow, created)
  | _ => pure (outputByHash, escrow, created)

/-- `Blockchain::register_inputs_and_outputs`: the block hash, the spent and
    the created outputs, the stakes, and the monetary balance, of the block and
    global, written at `lsn`. -/
def registerInputsAndOutputs (self : Blockchain Fr Pt) (lsn : LSN) (blockHash : ℕ)
    (inputs : Std.ExtTreeMap ℕ (Output Pt) compare)
    (outputs : Std.ExtTreeMap ℕ (Output Pt × OutputKey) compare) (gamma : Fr) (blockReward : ℤ) :
    Except Fault (Blockchain Fr Pt) := do
  let epoch := self.epoch
  let (prev, blockByHash) ← (self.blockByHash.insert lsn blockHash lsn).mapError .panic
  if prev.isSome then throw (.panic s!"Block hash collision: epoch={epoch}, block={blockHash}")
  check (blockByHash.currentLsn = lsn) "assertion failed: `(left == right)`"
  let (outputByHash, escrow, burned) ←
    inputs.foldlM (spendInput κ epoch lsn blockHash) (self.outputByHashMap, self.escrow, 0)
  let (outputByHash, escrow, created) ←
    outputs.foldlM (createOutput κ epoch self.cfg.stakeEpochs lsn blockHash) (outputByHash, escrow, 0)
  if κ.feeA blockReward + burned - created ≠ κ.gammaG gamma then
    throw (.panic s!"Invalid block monetary balance: epoch={epoch}, block={blockHash}")
  let origBalance ← self.balance
  let balance : Balance Fr Pt :=
    { created := origBalance.created + created, burned := origBalance.burned + burned,
      gamma := origBalance.gamma + gamma, blockReward := origBalance.blockReward + blockReward }
  if κ.feeA balance.blockReward + balance.burned - balance.created ≠ κ.gammaG balance.gamma then
    throw (.panic s!"Invalid global monetary balance: epoch={epoch}, block={blockHash}")
  let (_, balanceMap) ← (self.balanceMap.insert lsn () balance).mapError .panic
  check (balanceMap.currentLsn = lsn) "assertion failed: `(left == right)`"
  pure { self with blockByHash, outputByHashMap := outputByHash, escrow, balanceMap }

/-! ### Micro blocks -/

/-- What `register_micro_block` collects from the transactions of a block: the
    spent outputs, the created outputs with their keys, the blinding factor,
    the block reward, and the transactions by hash. -/
structure MicroBlockParts (Fr Pt : Type) where
  inputs : Std.ExtTreeMap ℕ (Output Pt) compare
  outputs : Std.ExtTreeMap ℕ (Output Pt × OutputKey) compare
  gamma : Fr
  blockReward : ℤ
  txs : Std.ExtTreeMap ℕ (Transaction Fr Pt) compare

/-- The parts of no transaction. -/
def MicroBlockParts.empty : MicroBlockParts Fr Pt := ⟨∅, ∅, 0, 0, ∅⟩

/-- One transaction of `register_micro_block`: its inputs resolved (none an
    output of the block, none twice), its outputs keyed by their position,
    its reward and blinding factor added; a slashing transaction removes the
    cheater from the validators of the epoch. -/
def registerMicroBlockTx (lsn : LSN) (epoch offset : ℕ)
    (acc : MicroBlockParts Fr Pt × Blockchain Fr Pt) (entry : Transaction Fr Pt × ℕ) :
    Except Fault (MicroBlockParts Fr Pt × Blockchain Fr Pt) := do
  let (parts, self) := acc
  let (tx, txId) := entry
  let txHash := κ.hashTransaction tx
  let inputs ← tx.txins.foldlM (fun (inputs : Std.ExtTreeMap ℕ (Output Pt) compare) inputHash => do
    check (inputHash ∉ parts.outputs) "annihilation in micro block"
    let input ← expect "Missing output" (← self.outputByHash κ inputHash)
    if inputHash ∈ inputs then throw (.panic "duplicate input")
    pure (inputs.insert inputHash input)) parts.inputs
  let outputs ← tx.txouts.zipIdx.foldlM
    (fun (outputs : Std.ExtTreeMap ℕ (Output Pt × OutputKey) compare) (output, txoutId) => do
      let outputHash := κ.hashOutput output
      if outputHash ∈ outputs then throw (.panic "duplicate output")
      pure (outputs.insert outputHash (output, .MicroBlock epoch offset txId txoutId))) parts.outputs
  let (gamma, blockReward, self) ← match tx with
    | .CoinbaseTransaction tx => pure (parts.gamma + tx.gamma, parts.blockReward + tx.blockReward, self)
    | .PaymentTransaction tx => pure (parts.gamma + tx.gamma, parts.blockReward, self)
    | .RestakeTransaction _ => pure (parts.gamma, parts.blockReward, self)
    | .SlashingTransaction tx => do
      let cheater := tx.proof.block1.header.pkey
      let electionResult ← self.electionResult
      let newValidators := electionResult.validators.filter fun (k, _) => k ≠ cheater
      let (_, electionResultList) ← (self.electionResultList.insert lsn ()
        { electionResult with validators := newValidators }).mapError .panic
      pure (parts.gamma, parts.blockReward, { self with electionResultList })
    | .ServiceAwardTransaction _ => throw (.panic "Found a ServiceAward transaction inside a MicroBlock")
  check (txHash ∉ parts.txs) "assertion failed: txs.insert(tx_hash, tx).is_none()"
  pure (⟨inputs, outputs, gamma, blockReward, parts.txs.insert txHash tx⟩, self)

/-- The leaders of the view changes a block skipped are failed, and its own
    leader active unless known (`register_micro_block`). -/
def registerLeaders (self : Blockchain Fr Pt) (lsn : LSN) (viewChange : ℕ) :
    Except Fault (Blockchain Fr Pt) := do
  let self ← (List.range viewChange).foldlM (fun (self : Blockchain Fr Pt) skipped => do
    let leader ← self.selectLeader κ skipped
    let (_, epochActivity) ← (self.epochActivity.insert lsn leader
      (.Failed self.epoch self.offset)).mapError .panic
    pure { self with epochActivity }) self
  let leader ← self.selectLeader κ viewChange
  if (self.epochActivity.get leader).isNone then
    let (_, epochActivity) ← (self.epochActivity.insert lsn leader .Active).mapError .panic
    pure { self with epochActivity }
  else pure self

/-- `Blockchain::register_micro_block`: the block applied at `lsn`. Returns
    the spent output hashes, the created outputs and the transactions. -/
def registerMicroBlock (self : Blockchain Fr Pt) (lsn : LSN) (block : MicroBlock Fr Pt) :
    Except Fault ((List ℕ × Std.ExtTreeMap ℕ (Output Pt) compare ×
      Std.ExtTreeMap ℕ (Transaction Fr Pt) compare) × Blockchain Fr Pt) := do
  check (block.header.version = version) "assertion failed: `(left == right)`"
  check (self.epoch = block.header.epoch) "assertion failed: `(left == right)`"
  check (self.offset = block.header.offset) "assertion failed: `(left == right)`"
  check (block.header.previous = self.lastBlockHash) "assertion failed: `(left == right)`"
  check (self.lastBlockTimestamp < block.header.timestamp)
    "assertion failed: block.header.timestamp > self.last_block_timestamp"
  check (!self.isEpochFull) "assertion failed: !self.is_epoch_full()"
  let blockHash := κ.hashMicroBlockHeader block.header
  let (parts, self) ← block.transactions.zipIdx.foldlM
    (registerMicroBlockTx κ lsn self.epoch self.offset) (MicroBlockParts.empty, self)
  let self ← self.registerLeaders κ lsn block.header.viewChange
  let self ← self.registerInputsAndOutputs κ lsn blockHash parts.inputs parts.outputs parts.gamma
    parts.blockReward
  let self := { self with
    lastBlockTimestamp := block.header.timestamp, lastBlockHash := blockHash,
    offset := self.offset + 1 }
  let electionResult ← self.electionResult
  let (_, electionResultList) ← (self.electionResultList.insert lsn ()
    { electionResult with viewChange := 0, random := block.header.random }).mapError .panic
  let self := { self with electionResultList, viewChangeProof := none }
  pure ((parts.inputs.keys, parts.outputs.map fun _ e => e.1, parts.txs), self)

/-- `Blockchain::push_micro_block`: the block stored at the next position of
    the epoch and registered; with a consistency check, validated first. -/
def pushMicroBlock (self : Blockchain Fr Pt) (block : MicroBlock Fr Pt) (timestamp : ℕ) :
    Except Fault ((List ℕ × Std.ExtTreeMap ℕ (Output Pt) compare ×
      Std.ExtTreeMap ℕ (Transaction Fr Pt) compare) × Blockchain Fr Pt) := do
  check (self.epoch = block.header.epoch) "assertion failed: `(left == right)`"
  check (self.offset = block.header.offset) "assertion failed: `(left == right)`"
  if (compare self.consistencyCheck .Incoming).isGE then
    expectOk "block is valid" (self.validateMicroBlock κ block timestamp true)
  let lsn : LSN := ⟨self.epoch, self.offset⟩
  let self := self.writeBlock lsn (.MicroBlock block)
  self.registerMicroBlock κ lsn block

/-- The previous block of `pop_micro_block`: its hash, position and timestamp. -/
def previousBlock (self : Blockchain Fr Pt) (offset : ℕ) : Except Fault (ℕ × LSN × ℕ) := do
  if offset = 0 then
    let block ← self.macroBlock κ (self.epoch - 1)
    pure (κ.hashMacroBlockHeader block.header, ⟨self.epoch - 1, macroBlockOffset⟩,
      block.header.timestamp)
  else
    let block ← self.microBlock κ self.epoch (offset - 1)
    pure (κ.hashMicroBlockHeader block.header, ⟨self.epoch, offset - 1⟩, block.header.timestamp)

/-- The indexes of `pop_micro_block` rolled back to `lsn`, with the code's
    assertions on their positions. -/
def rollbackIndexes (self : Blockchain Fr Pt) (lsn : LSN) : Except Fault (Blockchain Fr Pt) := do
  let blockByHash ← (self.blockByHash.rollbackToLsn lsn).mapError .panic
  let outputByHashMap ← (self.outputByHashMap.rollbackToLsn lsn).mapError .panic
  let balanceMap ← (self.balanceMap.rollbackToLsn lsn).mapError .panic
  let escrow ← self.escrow.rollbackToLsn lsn
  let epochActivity ← (self.epochActivity.rollbackToLsn lsn).mapError .panic
  let electionResultList ← (self.electionResultList.rollbackToLsn lsn).mapError .panic
  check (blockByHash.currentLsn = lsn) "assertion failed: `(left == right)`"
  check (electionResultList.currentLsn = lsn) "assertion failed: `(left == right)`"
  check (epochActivity.currentLsn ≤ lsn) "assertion failed: self.epoch_activity.current_lsn() <= lsn"
  check (outputByHashMap.currentLsn ≤ lsn) "assertion failed: self.output_by_hash.current_lsn() <= lsn"
  check (balanceMap.currentLsn ≤ lsn) "assertion failed: self.balance.current_lsn() <= lsn"
  check (escrow.currentLsn ≤ lsn) "assertion failed: self.escrow.current_lsn() <= lsn"
  pure { self with
    blockByHash, outputByHashMap, balanceMap, escrow, epochActivity, electionResultList }

/-- What `pop_micro_block` returns of the transactions of the popped block: the
    hashes of its outputs (`pruned`), its inputs, resolved again
    (`recovered`), and its payments and re-stakes (`removed`). -/
def revertTransactions (self : Blockchain Fr Pt) (transactions : List (Transaction Fr Pt)) :
    Except Fault (List ℕ × Std.ExtTreeMap ℕ (Output Pt) compare × List (Transaction Fr Pt)) :=
  transactions.foldlM (fun (pruned, recovered, removed) tx => do
    let recovered ← tx.txins.foldlM (fun (recovered : Std.ExtTreeMap ℕ (Output Pt) compare)
        inputHash => do
      let input ← expect "exists" (← self.outputByHash κ inputHash)
      pure (recovered.insert inputHash input)) recovered
    let pruned := pruned ++ tx.txouts.map κ.hashOutput
    match tx with
    | .PaymentTransaction _ | .RestakeTransaction _ => pure (pruned, recovered, removed ++ [tx])
    | _ => pure (pruned, recovered, removed)) ([], ∅, [])

/-- `Blockchain::pop_micro_block`: the last micro block removed from the disk,
    the indexes rolled back to the block before it, and the view change reset.
    Returns the pruned output hashes, the recovered inputs, the reverted
    payments and re-stakes, and the block. -/
def popMicroBlock (self : Blockchain Fr Pt) :
    Except Fault ((List ℕ × Std.ExtTreeMap ℕ (Output Pt) compare × List (Transaction Fr Pt) ×
      MicroBlock Fr Pt) × Blockchain Fr Pt) := do
  check (0 < self.epoch) "doesn't work for genesis"
  check (0 < self.offset) "attempt to revert the macro block"
  let offset := self.offset - 1
  let block ← self.microBlock κ self.epoch offset
  let (previous, lsn, lastBlockTimestamp) ← self.previousBlock κ offset
  let self := { self with database := self.database.erase ⟨self.epoch, offset⟩ }
  let self ← self.rollbackIndexes lsn
  let self := { self with offset, lastBlockHash := previous, lastBlockTimestamp }
  let self ← self.resetViewChange
  let (pruned, recovered, removed) ← self.revertTransactions κ block.transactions
  pure ((pruned, recovered, removed, block), self)

/-! ### Macro blocks -/

/-- The outputs of a macro block by hash, with their keys (`register_macro_block`). -/
def macroBlockOutputs (epoch : ℕ) (outputs : List (Output Pt)) :
    Except Fault (Std.ExtTreeMap ℕ (Output Pt × OutputKey) compare) :=
  outputs.zipIdx.foldlM (fun (outputs : Std.ExtTreeMap ℕ (Output Pt × OutputKey) compare)
      (output, outputId) => do
    let outputHash := κ.hashOutput output
    if outputHash ∈ outputs then throw (.panic "duplicate output")
    pure (outputs.insert outputHash (output, .MacroBlock epoch outputId))) ∅

/-- The inputs of a macro block (`register_macro_block`): an input that is an
    output of the block annihilates with it (compacted); any other is an
    unspent output. -/
def macroBlockSpent (self : Blockchain Fr Pt) (inputs : List ℕ)
    (outputs : Std.ExtTreeMap ℕ (Output Pt × OutputKey) compare) :
    Except Fault (Std.ExtTreeMap ℕ (Output Pt) compare ×
      Std.ExtTreeMap ℕ (Output Pt × OutputKey) compare × Std.ExtTreeMap ℕ (Output Pt) compare) :=
  inputs.foldlM (fun (inputs, outputs, compacted) inputHash =>
    match outputs[inputHash]? with
    | some (output, _) => do
      if inputHash ∈ compacted then throw (.panic "duplicate output")
      pure (inputs, outputs.erase inputHash, compacted.insert inputHash output)
    | none => do
      let input ← expect "Missing input" (← self.outputByHash κ inputHash)
      if inputHash ∈ inputs then throw (.panic "duplicate input")
      pure (inputs.insert inputHash input, outputs, compacted)) (∅, outputs, ∅)

/-- The service award of `register_macro_block` (but of the genesis): the
    awards finalized with the block's activity map, the winner drawn by the
    block's random, and the block reward checked against it. -/
def registerAwards (self : Blockchain Fr Pt) (block : MacroBlock Fr Pt) :
    Except Fault (Blockchain Fr Pt × Awards × Option (ℕ × ℤ)) := do
  if 0 < block.header.epoch then
    let validatorsActivity ← self.epochActivityFromMacroBlock block.header.activityMap
    let awards ← self.awards.finalizeEpoch self.cfg.serviceAwardPerEpoch validatorsActivity.toList
    let (awards', winner) := awards.checkWinners κ block.header.random.rand
    check (block.header.blockReward = fullReward self.cfg winner) "Invalid macro block reward"
    pure ({ self with awards := awards' }, awards, winner)
  else pure (self, self.awards, none)

/-- `Blockchain::register_macro_block`: the block applied at `lsn`, the next
    epoch started with the validators it elects, and the indexes
    checkpointed. Returns the block's inputs and its outputs, the compacted
    ones included. -/
def registerMacroBlock (self : Blockchain Fr Pt) (lsn : LSN) (block : MacroBlock Fr Pt) :
    Except Fault ((List ℕ × Std.ExtTreeMap ℕ (Output Pt) compare) × Blockchain Fr Pt) := do
  check (block.header.version = version) "assertion failed: `(left == right)`"
  check (self.epoch = block.header.epoch) "assertion failed: `(left == right)`"
  check (self.offset = 0) "assertion failed: `(left == right)`"
  check (block.header.previous = self.lastMacroBlockHash) "assertion failed: `(left == right)`"
  check (self.lastMacroBlockTimestamp < block.header.timestamp)
    "assertion failed: block.header.timestamp > self.last_macro_block_timestamp"
  check (self.lastBlockTimestamp < block.header.timestamp)
    "assertion failed: block.header.timestamp > self.last_block_timestamp"
  let epoch := block.header.epoch
  let blockHash := κ.hashMacroBlockHeader block.header
  check (block.header.inputsLen = block.inputs.length) "assertion failed: `(left == right)`"
  check (block.header.outputsLen = block.outputs.length) "assertion failed: `(left == right)`"
  let outputs ← macroBlockOutputs κ epoch block.outputs
  let (inputs, outputs, compacted) ← self.macroBlockSpent κ block.inputs outputs
  let (self, _, _) ← self.registerAwards κ block
  let self ← self.registerInputsAndOutputs κ lsn blockHash inputs outputs block.header.gamma
    block.header.blockReward
  let electionResult ← self.nextElectionResult κ block.header.random
  let validatorsLen := electionResult.validators.length
  let got := block.header.validatorsLen
  if got ≠ validatorsLen then
    throw (.panic s!"Invalid validators_len: expected={validatorsLen}, got={got}")
  let validatorsRangeHash := κ.merkleValidators electionResult.validators
  let got := block.header.validatorsRangeHash
  if got ≠ validatorsRangeHash then
    throw (.panic s!"Invalid validators_range_hash: expected={validatorsRangeHash}, got={got}")
  let (_, electionResultList) ← (self.electionResultList.insert lsn () electionResult).mapError .panic
  let self : Blockchain Fr Pt :=
    { self with
      epoch := self.epoch + 1, offset := 0,
      lastBlockTimestamp := block.header.timestamp, lastBlockHash := blockHash,
      lastMacroBlockTimestamp := block.header.timestamp,
      lastMacroBlockRandom := block.header.random.rand, lastMacroBlockHash := blockHash,
      electionResultList, difficulty := block.header.difficulty }
  let self : Blockchain Fr Pt :=
    { self with
      blockByHash := self.blockByHash.checkpoint.2,
      outputByHashMap := self.outputByHashMap.checkpoint.2,
      escrow := self.escrow.checkpoint.2,
      electionResultList := self.electionResultList.checkpoint.2,
      balanceMap := self.balanceMap.checkpoint.2 }
  -- the epoch info saved with the block needs the account of every validator
  let validators ← self.validators
  let _ ← validators.mapM fun (networkPkey, _) =>
    expect "Validator should have wallet key at start of epoch" (self.accountByNetworkKey networkPkey)
  let self := { self with epochActivity := self.epochActivity.reset }
  let outputs := compacted.foldl (fun (outputs : Std.ExtTreeMap ℕ (Output Pt) compare) h o =>
    outputs.insert h o) (outputs.map fun _ e => e.1)
  pure ((block.inputs, outputs), self)

/-- `Blockchain::push_macro_block`: the block stored at the macro position of
    the epoch and registered; with a consistency check, validated first. -/
def pushMacroBlock (self : Blockchain Fr Pt) (block : MacroBlock Fr Pt) (timestamp : ℕ) :
    Except Fault ((List ℕ × Std.ExtTreeMap ℕ (Output Pt) compare) × Blockchain Fr Pt) := do
  check (self.epoch = block.header.epoch) "assertion failed: `(left == right)`"
  check (self.offset = 0) "assertion failed: `(left == right)`"
  if (compare self.consistencyCheck .Incoming).isGE then
    expectOk "block is valid" (self.validateMacroBlock κ block timestamp)
  let lsn : LSN := ⟨self.epoch, macroBlockOffset⟩
  let self := self.writeBlock lsn (.MacroBlock block)
  self.registerMacroBlock κ lsn block

/-- `Blockchain::create_macro_block`: the macro block of a full epoch, from a
    coinbase of the block reward, the service award if the draw has a
    winner, and the transactions of the epoch. The code draws the coinbase
    output and its blinding factor (`coinbase`, `coinbaseGamma`) and the
    serial number of the award (`awardSerno`) at random. Returns the block and
    the leader's own transactions. -/
def createMacroBlock (self : Blockchain Fr Pt) (viewChange networkSkey networkPkey timestamp : ℕ)
    (coinbase : PaymentOutput Pt) (coinbaseGamma : Fr) (awardSerno : ℤ) :
    Except Fault (MacroBlock Fr Pt × List (Transaction Fr Pt)) := do
  check self.isEpochFull "assertion failed: self.is_epoch_full()"
  let epoch := self.epoch
  let previous := self.lastMacroBlockHash
  let seed := κ.mix self.lastMacroBlockRandom viewChange
  let random := κ.makeVRF networkSkey seed
  let difficulty := self.difficulty
  let coinbaseTx : Transaction Fr Pt := .CoinbaseTransaction
    { blockReward := self.cfg.blockReward, blockFee := 0, gamma := -coinbaseGamma,
      txouts := [.PaymentOutput coinbase] }
  let (activityMap, winner) ← self.awardsFromActiveEpoch κ random
  let transactions := match winner with
    | some (k, reward) =>
      [coinbaseTx, .ServiceAwardTransaction ⟨[.PublicPaymentOutput ⟨k, awardSerno, reward⟩]⟩]
    | none => [coinbaseTx]
  let fullReward := fullReward self.cfg winner
  let extraTransactions := transactions
  let transactions := transactions ++ (← self.epochTransactions epoch)
  let validators := (← self.nextElectionResult κ random).validators
  match MacroBlock.fromTransactions κ previous epoch viewChange networkPkey random difficulty
      timestamp fullReward activityMap validators transactions with
  | .ok block => pure (block, extraTransactions)
  | .error _ => throw (.panic "Transactions are valid")

/-- `Blockchain::new` on an empty disk: the initial balance, and the genesis
    block pushed. -/
def new (cfg : ChainConfig) (consistencyCheck : ConsistencyCheck) (genesis : MacroBlock Fr Pt)
    (timestamp : ℕ) : Except Fault (Blockchain Fr Pt) := do
  let (_, balanceMap) ← (MultiVersionedMap.new.insert initialLsn ()
    ({ created := 0, burned := 0, gamma := 0, blockReward := 0 } : Balance Fr Pt)).mapError .panic
  let awards ← Awards.new cfg.awardsDifficulty
  let chain : Blockchain Fr Pt :=
    { cfg, consistencyCheck, database := ∅, blockByHash := .new, outputByHashMap := .new,
      balanceMap, escrow := .new, difficulty := genesis.header.difficulty, epoch := 0, offset := 0,
      electionResultList := .new, viewChangeProof := none, lastMacroBlockTimestamp := 0,
      lastMacroBlockHash := κ.genesisHash, lastMacroBlockRandom := κ.genesisHash,
      lastBlockTimestamp := 0, lastBlockHash := κ.genesisHash, awards, epochActivity := .new }
  let (_, chain) ← chain.pushMacroBlock κ genesis timestamp
  pure chain

end Blockchain

end Stegos
