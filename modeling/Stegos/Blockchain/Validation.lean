import Stegos.Blockchain.Chain
import Stegos.Blockchain.Transaction

/-!
# Validation of blocks

The checks a block passes before it is applied (`validation.rs`,
`slashing.rs`, `view_changes.rs`): a slashing proof and the transaction that
confiscates the cheater's stakes, each transaction of a micro block against
the unspent outputs and the escrow, the header of a micro block (order,
leader, signature, reward, timestamp, random, VDF, range hashes) and its
fees, and a macro block, as read from the network (`validate_macro_block`) or
proposed by the leader (`validate_proposed_macro_block`).

* A check that `stegos_crypto` makes is an oracle of `Crypto`; a failed
  `pbc::check_hash` is a `CryptoError`.
* Outputs are validated one after the other where the code does it in
  parallel: the first invalid one is reported, not any.
-/

namespace Stegos

variable {Fr Pt : Type} [AddCommGroup Fr] [AddCommGroup Pt] [DecidableEq Fr] [DecidableEq Pt]
  (κ : Crypto Fr Pt)

/-! ### Slashing -/

/-- `SlashingProof::validate`: two blocks of one leader at one position of the
    current epoch, with different hashes, both signed by the leader the
    election at that offset selects. -/
def SlashingProof.validate (self : SlashingProof) (blockchain : Blockchain Fr Pt) :
    Except Fault Unit := do
  let h1 := self.block1.header
  let h2 := self.block2.header
  let epoch := h1.epoch
  let offset := h1.offset
  if h1.epoch ≠ h2.epoch then throw (.slashing (.DifferentEpoch h1.epoch h2.epoch))
  if h1.offset ≠ h2.offset then throw (.slashing (.DifferentOffset h1.offset h2.offset))
  if epoch ≠ blockchain.epoch then throw (.slashing (.InvalidProofEpoch epoch blockchain.epoch))
  if h1.previous ≠ h2.previous then throw (.slashing (.DifferentHistory h1.previous h2.previous))
  if h1.viewChange ≠ h2.viewChange then
    throw (.slashing (.DifferentLeader h1.viewChange h2.viewChange))
  let block1Hash := κ.hashMicroBlockHeader h1
  let block2Hash := κ.hashMicroBlockHeader h2
  if block1Hash = block2Hash then throw (.slashing (.BlockWithoutConflicts epoch offset block1Hash))
  let electionResult ← blockchain.electionResultByOffset offset
  let leaderPk ← electionResult.selectLeader κ h1.viewChange
  if self.block1.sig ≠ ⟨leaderPk, block1Hash⟩ then throw (.error .CryptoError)
  if self.block2.sig ≠ ⟨leaderPk, block2Hash⟩ then throw (.error .CryptoError)

/-- The active stakes of a validator and their sum (the fold of `confiscate_tx`). -/
def activeStakes (stakes : List (ℕ × ℤ × ℕ × ℕ)) (epoch : ℕ) : List ℕ × ℤ :=
  stakes.foldl (fun (result, stake) (hash, amount, _, activeUntilEpoch) =>
    if epoch ≤ activeUntilEpoch then (result ++ [hash], stake + amount) else (result, stake))
    ([], 0)

/-- `confiscate_tx`: the active stakes of the cheater, shared among the other
    validators, the remainder to `ourKey`. The serial numbers of the outputs
    are random in the code (`serno`). -/
def confiscateTx (chain : Blockchain Fr Pt) (ourKey : ℕ) (proof : SlashingProof)
    (serno : ℕ → ℤ) : Except Fault (SlashingTransaction Pt) := do
  check (proof.block1.header.pkey = proof.block2.header.pkey)
    "assertion failed: `(left == right)`"
  let cheater := proof.block1.header.pkey
  let epoch := chain.epoch
  let (inputs, stake) := activeStakes (chain.escrow.iterValidatorStakes cheater) epoch
  let validators := ((← chain.validators).map Prod.fst).filter (· ≠ cheater)
  if validators = [] then throw (.slashing (.LastValidator cheater))
  if inputs = [] then throw (.slashing (.NotValidator cheater))
  proof.validate κ chain
  check (0 < stake) "assertion failed: stake > 0"
  let piece := stake / validators.length
  let change := stake % validators.length
  let outputs ← validators.zipIdx.mapM fun (validator, i) => do
    let key ← expect "validator has account key" (chain.accountByNetworkKey validator)
    let amount := if validator = ourKey then piece + change else piece
    pure (Output.PublicPaymentOutput ⟨key, serno i, amount⟩)
  pure ⟨proof, inputs, outputs⟩

/-- One pair of outputs of `SlashingTransaction::validate`, the expected and
    the given: recipient and amount are compared, not the serial number. -/
def compareSlashingOutput (txHash : ℕ) : Output Pt × Output Pt → Except Fault Unit
  | (.PublicPaymentOutput o1, .PublicPaymentOutput o2) =>
    if o1.recipient ≠ o2.recipient ∨ o1.amount ≠ o2.amount then
      throw (.slashing (.IncorrectTxins txHash))
    else pure ()
  | _ => throw (.slashing (.IncorrectTxouts txHash))

/-- The comparison of `SlashingTransaction::validate` of the expected and the
    given outputs, pair by pair (`zip`). Pairs past the shorter list are not
    compared. -/
def compareSlashingOutputs (txHash : ℕ) (expected given : List (Output Pt)) : Except Fault Unit :=
  (expected.zip given).forM (compareSlashingOutput txHash)

/-- `SlashingTransaction::validate`: the proof, and the transaction that
    `confiscate_tx` makes for the leader. -/
def SlashingTransaction.validate (self : SlashingTransaction Pt) (blockchain : Blockchain Fr Pt)
    (leader : ℕ) : Except Fault Unit := do
  self.proof.validate κ blockchain
  -- the serial numbers of the recreated outputs are not compared
  let tx ← confiscateTx κ blockchain leader self.proof fun _ => 0
  let txHash := κ.hashTransaction (.SlashingTransaction self : Transaction Fr Pt)
  if tx.txins ≠ self.txins then throw (.slashing (.IncorrectTxins txHash))
  compareSlashingOutputs txHash tx.txouts self.txouts

/-- `ViewChangeProof::validate`: the position is signed by the validators of
    its offset. The error is the code's `failure::Error`, here a `CryptoError`. -/
def ViewChangeProof.validate (self : ViewChangeProof) (chainInfo : ChainInfo)
    (blockchain : Blockchain Fr Pt) : Except Fault Unit := do
  let hash := κ.hashChainInfo chainInfo
  let validators ← blockchain.electionResultByOffset chainInfo.offset
  if !κ.checkMultiSignature hash self.multisig self.multimap validators.validators
      blockchain.totalSlots then
    throw (.error .CryptoError)

/-- `ChainInfo::from_micro_block`: the view change the block's proof is about. -/
def ChainInfo.fromMicroBlock (block : MicroBlock Fr Pt) : Except Fault ChainInfo := do
  check (block.header.viewChange ≠ 0) "assertion failed: `(left != right)`"
  pure ⟨block.header.epoch, block.header.offset, block.header.viewChange - 1,
    block.header.previous⟩

namespace Blockchain

/-! ### Micro blocks -/

/-- The inputs of a transaction resolved against the unspent outputs, none
    claimed by an earlier transaction of the block (`validate_micro_block_tx`). -/
def resolveInputs (self : Blockchain Fr Pt) (txHash : ℕ) (txins : List ℕ)
    (inputsSet : Std.ExtTreeSet ℕ compare) :
    Except Fault (Std.ExtTreeSet ℕ compare × List (Output Pt)) :=
  txins.foldlM (fun (inputsSet, inputs) inputHash => do
    let some input ← self.outputByHash κ inputHash
      | throw (.tx (.MissingInput txHash inputHash))
    if inputHash ∈ inputsSet then throw (.tx (.DuplicateInput txHash inputHash))
    pure (inputsSet.insert inputHash, inputs ++ [input])) (inputsSet, [])

/-- The outputs of a transaction, none an unspent output or an output of an
    earlier transaction of the block (`validate_micro_block_tx`). -/
def claimOutputs (self : Blockchain Fr Pt) (txHash : ℕ) (txouts : List (Output Pt))
    (outputsSet : Std.ExtTreeMap ℕ (Output Pt) compare) :
    Except Fault (Std.ExtTreeMap ℕ (Output Pt) compare) :=
  txouts.foldlM (fun outputsSet output => do
    let outputHash := κ.hashOutput output
    if outputHash ∈ outputsSet ∨ self.containsOutput outputHash then
      throw (.tx (.OutputHashCollision txHash outputHash))
    pure (outputsSet.insert outputHash output)) outputsSet

/-- `Blockchain::validate_micro_block_tx`: the inputs and outputs against the
    chain and the block so far, the stakes (but of a slashing), and the
    transaction's own checks. -/
def validateMicroBlockTx (self : Blockchain Fr Pt) (tx : Transaction Fr Pt) (leader : ℕ)
    (inputsSet : Std.ExtTreeSet ℕ compare) (outputsSet : Std.ExtTreeMap ℕ (Output Pt) compare) :
    Except Fault (Std.ExtTreeSet ℕ compare × Std.ExtTreeMap ℕ (Output Pt) compare) := do
  let txHash := κ.hashTransaction tx
  let (inputsSet, inputs) ← self.resolveInputs κ txHash tx.txins inputsSet
  let outputsSet ← self.claimOutputs κ txHash tx.txouts outputsSet
  match tx with
  -- the staking balance of a cheater is validated by the slashing itself
  | .SlashingTransaction _ => pure ()
  | _ => self.validateStakes κ inputs tx.txouts
  match tx with
  | .CoinbaseTransaction tx =>
    check (inputs.length = 0) "assertion failed: `(left == right)`"
    tx.validate κ
  | .PaymentTransaction tx => tx.validate κ inputs
  | .RestakeTransaction tx => tx.validate κ inputs
  | .SlashingTransaction tx => tx.validate κ self leader
  | .ServiceAwardTransaction _ => throw (.tx .UnexpectedTxType)
  pure (inputsSet, outputsSet)

/-- `Blockchain::validate_block_timestamp`: after the last block, and not too
    far after the local time. -/
def validateBlockTimestamp (self : Blockchain Fr Pt) (epoch blockHash blockTimestamp timestamp : ℕ) :
    Except Fault Unit := do
  let lastBlockTimestamp := self.lastBlockTimestamp
  if blockTimestamp ≤ lastBlockTimestamp then
    throw (.block (.OutdatedBlock epoch blockHash blockTimestamp lastBlockTimestamp))
  if timestamp ≤ blockTimestamp then
    if self.cfg.vettedTimestampDelta < blockTimestamp - timestamp then
      throw (.block (.OutOfSyncTimestamp epoch blockHash blockTimestamp timestamp))

/-- The header checks of `validate_micro_block`, up to the range hashes. -/
def validateMicroBlockHeader (self : Blockchain Fr Pt) (block : MicroBlock Fr Pt)
    (timestamp : ℕ) : Except Fault Unit := do
  let epoch := block.header.epoch
  let offset := block.header.offset
  let blockHash := κ.hashMicroBlockHeader block.header
  if block.header.version ≠ version then
    throw (.block (.InvalidBlockVersion epoch blockHash block.header.version version))
  if self.isEpochFull then throw (.error (.ExpectedMacroBlock self.epoch self.offset blockHash))
  if epoch ≠ self.epoch ∨ offset ≠ self.offset then
    throw (.block (.OutOfOrderMicroBlock blockHash epoch offset self.epoch self.offset))
  if self.containsBlock blockHash then throw (.block (.MicroBlockHashCollision epoch offset blockHash))
  let previousHash := self.lastBlockHash
  if previousHash ≠ block.header.previous then
    throw (.block (.InvalidMicroBlockPreviousHash epoch offset blockHash block.header.previous
      previousHash))
  let viewChange ← self.viewChange
  if block.header.viewChange < viewChange then
    throw (.block (.InvalidViewChange epoch blockHash block.header.viewChange viewChange))
  else if 0 < block.header.viewChange then
    match block.header.viewChangeProof with
    | some proof =>
      let chain ← ChainInfo.fromMicroBlock block
      -- an error of the proof is reported as such; a panic is a panic
      match proof.validate κ chain self with
      | .ok () => pure ()
      | .error (.panic text) => throw (.panic text)
      | .error (.error _) => throw (.block (.InvalidViewChangeProof epoch proof.multisig))
    | none =>
      throw (.block (.NoProofWasFound epoch offset blockHash block.header.viewChange viewChange))
  let leader ← self.selectLeader κ block.header.viewChange
  if leader ≠ block.header.pkey then throw (.block (.DifferentPublicKey leader block.header.pkey))
  if block.sig ≠ ⟨leader, blockHash⟩ then throw (.block (.InvalidLeaderSignature epoch blockHash))
  match block.transactions.head? with
  | some (.CoinbaseTransaction tx) =>
    if tx.blockReward ≠ self.cfg.blockReward then
      throw (.block (.InvalidMicroBlockReward epoch offset blockHash tx.blockReward
        self.cfg.blockReward))
  | _ => throw (.block (.CoinbaseMustBeFirst blockHash))
  self.validateBlockTimestamp epoch blockHash block.header.timestamp timestamp
  let lastRandom ← self.lastRandom
  let seed := κ.mix lastRandom block.header.viewChange
  if !κ.validateVRFSource block.header.random leader seed then
    throw (.block (.IncorrectRandom epoch blockHash))
  if !κ.verifyVDF lastRandom self.difficulty block.header.solution then
    throw (.block (.InvalidVDFProof epoch blockHash))

/-- The range hash checks of `validate_micro_block`. -/
def validateMicroBlockRanges (block : MicroBlock Fr Pt) : Except Fault Unit := do
  let epoch := block.header.epoch
  let offset := block.header.offset
  let blockHash := κ.hashMicroBlockHeader block.header
  let h := block.header
  if h.transactionsLen ≠ block.transactions.length then
    throw (.block (.InvalidMicroBlockTransactionsLen epoch offset blockHash h.transactionsLen
      block.transactions.length))
  let r := MicroBlock.calculateRangeHashes κ block.transactions
  if h.transactionsRangeHash ≠ r.transactionsRangeHash then
    throw (.block (.InvalidMicroBlockTransactionsHash epoch offset blockHash
      r.transactionsRangeHash h.transactionsRangeHash))
  if h.inputsLen ≠ r.inputHashes.length then
    throw (.block (.InvalidMicroBlockInputsLen epoch offset blockHash h.inputsLen
      r.inputHashes.length))
  if h.inputsRangeHash ≠ r.inputsRangeHash then
    throw (.block (.InvalidMicroBlockInputsHash epoch offset blockHash r.inputsRangeHash
      h.inputsRangeHash))
  if h.outputsLen ≠ r.outputHashes.length then
    throw (.block (.InvalidMicroBlockOutputsLen epoch offset blockHash h.outputsLen
      r.outputHashes.length))
  if h.outputsRangeHash ≠ r.outputsRangeHash then
    throw (.block (.InvalidMicroBlockOutputsHash epoch offset blockHash r.outputsRangeHash
      h.outputsRangeHash))
  if h.canariesRangeHash ≠ r.canariesRangeHash then
    throw (.block (.InvalidMicroBlockCanariesHash epoch offset blockHash r.canariesRangeHash
      h.canariesRangeHash))

/-- The transactions of `validate_micro_block`, in turn: a coinbase only
    first; the sets of claimed inputs and outputs; the fees of the
    transactions and the fee the coinbase claims. -/
def validateMicroBlockTxs (self : Blockchain Fr Pt) (block : MicroBlock Fr Pt) :
    Except Fault (Std.ExtTreeSet ℕ compare × Std.ExtTreeMap ℕ (Output Pt) compare × ℤ × ℤ) :=
  let blockHash := κ.hashMicroBlockHeader block.header
  block.transactions.zipIdx.foldlM (fun (inputsSet, outputsSet, fee, coinbaseFee) (tx, i) => do
    let coinbaseFee ← match tx with
      | .CoinbaseTransaction tx => do
        if 0 < i then throw (.block (.CoinbaseMustBeFirst blockHash))
        pure (coinbaseFee + tx.blockFee)
      | _ => pure coinbaseFee
    let (inputsSet, outputsSet) ←
      self.validateMicroBlockTx κ tx block.header.pkey inputsSet outputsSet
    pure (inputsSet, outputsSet, fee + tx.fee, coinbaseFee)) (∅, ∅, 0, 0)

/-- `Blockchain::validate_micro_block`. -/
def validateMicroBlock (self : Blockchain Fr Pt) (block : MicroBlock Fr Pt) (timestamp : ℕ)
    (validateUtxo : Bool) : Except Fault Unit := do
  let epoch := block.header.epoch
  let offset := block.header.offset
  let blockHash := κ.hashMicroBlockHeader block.header
  self.validateMicroBlockHeader κ block timestamp
  validateMicroBlockRanges κ block
  let (_, outputsSet, fee, coinbaseFee) ← self.validateMicroBlockTxs κ block
  if coinbaseFee ≠ fee then
    throw (.block (.InvalidMicroBlockFee epoch offset blockHash fee coinbaseFee))
  if validateUtxo then
    outputsSet.values.forM (Output.validate κ)

/-! ### Macro blocks -/

/-- `Blockchain::validate_macro_block_basic`: version, order, hash, previous
    block, timestamp, difficulty and random of a macro block header. -/
def validateMacroBlockBasic (self : Blockchain Fr Pt) (blockHash : ℕ) (header : MacroBlockHeader Fr)
    (timestamp : ℕ) : Except Fault Unit := do
  let epoch := header.epoch
  if header.version ≠ version then
    throw (.block (.InvalidBlockVersion epoch blockHash header.version version))
  if epoch ≠ self.epoch then throw (.block (.OutOfOrderMacroBlock blockHash epoch self.epoch))
  if self.containsBlock blockHash then throw (.block (.MacroBlockHashCollision epoch blockHash))
  let previousHash := self.lastMacroBlockHash
  if previousHash ≠ header.previous then
    throw (.block (.InvalidMacroBlockPreviousHash epoch blockHash header.previous previousHash))
  self.validateBlockTimestamp epoch blockHash header.timestamp timestamp
  if 0 < epoch ∧ header.difficulty ≠ self.difficulty then
    throw (.block (.UnexpectedVDFComplexity epoch blockHash self.difficulty header.difficulty))
  let seed := κ.mix self.lastMacroBlockRandom header.viewChange
  if !κ.validateVRFSource header.random header.pkey seed then
    throw (.block (.IncorrectRandom epoch blockHash))

/-- The reward a macro block must carry: the block reward of every block of
    the epoch and of the macro block, and the service award if it is won. -/
def fullReward (cfg : ChainConfig) (winner : Option (ℕ × ℤ)) : ℤ :=
  cfg.blockReward * ((cfg.microBlocksInEpoch : ℤ) + 1) + (winner.map Prod.snd).getD 0

/-- The inputs of a macro block: its own outputs first, then the unspent ones. -/
def macroBlockInputs (self : Blockchain Fr Pt) (block : MacroBlock Fr Pt) :
    Except Fault (List (Output Pt)) := do
  let blockHash := κ.hashMacroBlockHeader block.header
  let outputs : Std.ExtTreeMap ℕ (Output Pt) compare :=
    block.outputs.foldl (fun outputs o => outputs.insert (κ.hashOutput o) o) ∅
  block.inputs.mapM fun inputHash =>
    match outputs[inputHash]? with
    | some input => pure input
    | none => do
      let some r ← self.outputByHash κ inputHash
        | throw (.block (.MissingBlockInput block.header.epoch blockHash inputHash))
      pure r

/-- `Blockchain::validate_macro_block`: the multi-signature of the validators
    of the epoch, the header, the service award, the outputs and inputs, and the
    monetary balance. -/
def validateMacroBlock (self : Blockchain Fr Pt) (block : MacroBlock Fr Pt) (timestamp : ℕ) :
    Except Fault Unit := do
  let blockHash := κ.hashMacroBlockHeader block.header
  check (self.epoch = block.header.epoch) "assertion failed: `(left == right)`"
  let epoch := block.header.epoch
  check (self.offset = 0) "assertion failed: `(left == right)`"
  if 0 < epoch then
    if !κ.checkMultiSignature blockHash block.multisig block.multisigmap
        (← self.validatorsAtEpochStart) self.totalSlots then
      throw (.block (.InvalidBlockSignature epoch blockHash))
  self.validateMacroBlockBasic κ blockHash block.header timestamp
  if 0 < epoch then
    let validatorsActivity ← self.epochActivityFromMacroBlock block.header.activityMap
    let serviceAwards ← self.awards.finalizeEpoch self.cfg.serviceAwardPerEpoch
      validatorsActivity.toList
    let winner := (serviceAwards.checkWinners κ block.header.random.rand).2
    let fullReward := fullReward self.cfg winner
    if block.header.blockReward ≠ fullReward then
      throw (.block (.InvalidMacroBlockReward epoch blockHash block.header.blockReward fullReward))
  if block.header.outputsLen ≠ block.outputs.length then
    throw (.block (.InvalidMacroBlockInputsLen epoch blockHash block.header.outputsLen
      block.inputs.length))
  let outputsRangeHash := κ.merkle (block.outputs.map κ.hashOutput)
  if block.header.outputsRangeHash ≠ outputsRangeHash then
    throw (.block (.InvalidMacroBlockOutputsHash epoch blockHash outputsRangeHash
      block.header.outputsRangeHash))
  let canariesRangeHash := κ.merkle (block.outputs.map κ.hashCanary)
  if block.header.canariesRangeHash ≠ canariesRangeHash then
    throw (.block (.InvalidMacroBlockCanariesHash epoch blockHash canariesRangeHash
      block.header.canariesRangeHash))
  block.outputs.forM (Output.validate κ)
  if block.header.inputsLen ≠ block.inputs.length then
    throw (.block (.InvalidMacroBlockInputsLen epoch blockHash block.header.inputsLen
      block.inputs.length))
  let inputsRangeHash := κ.merkle block.inputs
  if block.header.inputsRangeHash ≠ inputsRangeHash then
    throw (.block (.InvalidMacroBlockInputsHash epoch blockHash inputsRangeHash
      block.header.inputsRangeHash))
  let inputs ← self.macroBlockInputs κ block
  block.validateBalance κ inputs

/-- The transactions the leader adds to the epoch's (`validate_proposed_macro_block`):
    a coinbase of the block reward without fee, then the service award if the
    draw has a winner, and nothing else. Returns the reward of the block. -/
def validateProposedTxs (self : Blockchain Fr Pt) (blockHash epoch : ℕ)
    (winner : Option (ℕ × ℤ)) (transactions : List (Transaction Fr Pt)) : Except Fault ℤ := do
  match transactions.head? with
  | some (.CoinbaseTransaction tx) =>
    tx.validate κ
    if tx.blockReward ≠ self.cfg.blockReward then
      throw (.block (.InvalidMacroBlockReward epoch blockHash tx.blockReward self.cfg.blockReward))
    if tx.blockFee ≠ 0 then throw (.block (.InvalidMacroBlockFee epoch blockHash tx.blockFee 0))
  | _ => throw (.block (.CoinbaseMustBeFirst blockHash))
  let txLen := if winner.isSome then 2 else 1
  match winner with
  | some (k, reward) =>
    match (transactions[1]? : Option (Transaction Fr Pt)) with
    | some (.ServiceAwardTransaction tx) =>
      if tx.winnerReward.length ≠ 1 then
        throw (.block (.AwardMoreThanOneWinner blockHash tx.winnerReward.length))
      match (tx.winnerReward[0]? : Option (Output Pt)) with
      | some (.PublicPaymentOutput out) =>
        if out.recipient ≠ k then throw (.block (.AwardDifferentWinner blockHash out.recipient k))
        if out.amount ≠ reward then
          throw (.block (.AwardDifferentReward blockHash out.amount reward))
      | _ => throw (.block (.AwardDifferentOutputType blockHash))
    | _ => throw (.block (.NoServiceAwardTx blockHash))
  | none => pure ()
  if txLen < transactions.length then throw (.block (.InvalidBlockBalance epoch blockHash))
  pure (fullReward self.cfg winner)

/-- The transactions of the micro blocks of an epoch, in order
    (`validate_proposed_macro_block`, `create_macro_block`). -/
def epochTransactions (self : Blockchain Fr Pt) (epoch : ℕ) :
    Except Fault (List (Transaction Fr Pt)) :=
  ((self.blocksStarting epoch 0).take self.cfg.microBlocksInEpoch).zipIdx.foldlM
    (fun transactions (block, offset) =>
      match block with
      | .MicroBlock block => pure (transactions ++ block.transactions)
      | .MacroBlock _ => throw (.panic s!"Expected micro block: epoch={epoch}, offset={offset}"))
    []

/-- `Blockchain::validate_proposed_macro_block`: the block the leader proposes,
    rebuilt from the transactions of the epoch and the leader's, must have the
    proposed hash. `now` is the local time. -/
def validateProposedMacroBlock (self : Blockchain Fr Pt) (viewChange blockHash : ℕ)
    (header : MacroBlockHeader Fr) (transactions : List (Transaction Fr Pt)) (now : ℕ) :
    Except Fault (MacroBlock Fr Pt) := do
  if header.epoch ≠ self.epoch then throw (.block (.InvalidBlockEpoch header.epoch self.epoch))
  check self.isEpochFull "assertion failed: self.is_epoch_full()"
  let epoch := header.epoch
  if viewChange < header.viewChange then
    throw (.block (.OutOfSyncViewChange epoch blockHash header.viewChange viewChange))
  let validatorsAtStart ← self.validatorsAtEpochStart
  if header.activityMap.length ≠ validatorsAtStart.length then
    throw (.block (.TooBigActivitymap header.activityMap.length validatorsAtStart.length))
  self.validateMacroBlockBasic κ blockHash header now
  let (activityMap, winner) ← self.awardsFromActiveEpoch κ header.random
  let fullReward ← self.validateProposedTxs κ blockHash epoch winner transactions
  let transactions := transactions ++ (← self.epochTransactions epoch)
  let validators := (← self.nextElectionResult κ header.random).validators
  let block ← (MacroBlock.fromTransactions κ header.previous epoch header.viewChange header.pkey
    header.random header.difficulty header.timestamp fullReward activityMap validators
    transactions).mapError Fault.tx
  let expectedBlockHash := κ.hashMacroBlockHeader block.header
  if blockHash ≠ expectedBlockHash then
    throw (.block (.InvalidBlockProposal block.header.epoch expectedBlockHash blockHash))
  pure block

end Blockchain

end Stegos
