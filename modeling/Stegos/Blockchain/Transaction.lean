import Stegos.Blockchain.Error
import Stegos.Blockchain.Types

/-!
# Outputs, transactions and the blocks made of them

The checks that a single output or transaction passes on its own
(`Output::validate`, `CoinbaseTransaction::validate`,
`PaymentTransaction::validate`, `RestakeTransaction::validate`), the
commitments that the monetary balance sums, and the blocks built from
transactions (`MacroBlock::from_transactions`, `MacroBlock::new`,
`MicroBlock::calculate_range_hashes`, `MacroBlock::validate_balance`).

* `cfg!(debug_assertions)` checks are left out: the model is the release build.
* A loop that stops at the first bad element is a fold in `Except`.
-/

namespace Stegos

variable {Fr Pt : Type} [AddCommGroup Fr] [AddCommGroup Pt] [DecidableEq Fr] [DecidableEq Pt]

namespace Output

variable (κ : Crypto Fr Pt)

/-- `Output::validate`. -/
def validate (output : Output Pt) : Except Fault Unit :=
  let h := κ.hashOutput output
  match output with
  | .PaymentOutput o =>
    if !κ.validateRangeProof o.proof then .error (.output (.InvalidBulletProof h))
    else if o.payloadLen ≠ paymentPayloadLen then
      .error (.output (.InvalidPayloadLength h paymentPayloadLen o.payloadLen))
    else .ok ()
  | .PublicPaymentOutput o =>
    if o.amount ≤ 0 then .error (.output (.InvalidAmount h o.amount)) else .ok ()
  | .StakeOutput o =>
    if o.amount ≤ 0 then .error (.output (.InvalidAmount h o.amount))
    else if o.signature ≠ ⟨o.validator, h⟩ then .error (.output (.InvalidStakeSignature h))
    else .ok ()

/-- `Output::pedersen_commitment`: the commitment of the amount. -/
def pedersenCommitment : Output Pt → Pt
  | .PaymentOutput o => o.proof.vcmt
  | .PublicPaymentOutput o => κ.feeA o.amount
  | .StakeOutput o => κ.feeA o.amount

/-- `Output::recipient_pkey`. -/
def recipientPkey : Output Pt → Pt
  | .PaymentOutput o => κ.pkeyPoint o.recipient
  | .PublicPaymentOutput o => κ.pkeyPoint o.recipient
  | .StakeOutput o => κ.pkeyPoint o.recipient

end Output

namespace Transaction

/-- `Transaction::gamma`. -/
def gamma : Transaction Fr Pt → Fr
  | .CoinbaseTransaction tx => tx.gamma
  | .PaymentTransaction tx => tx.gamma
  | _ => 0

/-- `Transaction::fee`. -/
def fee : Transaction Fr Pt → ℤ
  | .PaymentTransaction tx => tx.fee
  | _ => 0

/-- `Transaction::txins`. -/
def txins : Transaction Fr Pt → List ℕ
  | .PaymentTransaction tx => tx.txins
  | .RestakeTransaction tx => tx.txins
  | .SlashingTransaction tx => tx.txins
  | _ => []

/-- `Transaction::txouts`. -/
def txouts : Transaction Fr Pt → List (Output Pt)
  | .CoinbaseTransaction tx => tx.txouts
  | .PaymentTransaction tx => tx.txouts
  | .RestakeTransaction tx => tx.txouts
  | .SlashingTransaction tx => tx.txouts
  | .ServiceAwardTransaction tx => tx.winnerReward

/-- `Transaction::to_type_str`. -/
def toTypeStr : Transaction Fr Pt → String
  | .CoinbaseTransaction _ => "CoinbaseTransaction"
  | .PaymentTransaction _ => "PaymentTransaction"
  | .RestakeTransaction _ => "RestakeTransaction"
  | .SlashingTransaction _ => "SlashingTransaction"
  | .ServiceAwardTransaction _ => "ServiceAwardTransaction"

/-- `Transaction::is_restaking`. -/
def isRestaking : Transaction Fr Pt → Bool
  | .RestakeTransaction _ => true
  | _ => false

end Transaction

section Validate

variable (κ : Crypto Fr Pt)

/-- `CoinbaseTransaction::validate`: non-negative reward and fee, payment
    outputs only, and the outputs commit to the reward and the fee. -/
def CoinbaseTransaction.validate (tx : CoinbaseTransaction Fr Pt) : Except Fault Unit := do
  let txHash := κ.hashTransaction (.CoinbaseTransaction tx)
  if tx.blockReward < 0 then throw (.tx (.NegativeReward txHash))
  if tx.blockFee < 0 then throw (.tx (.NegativeFee txHash))
  let mined ← tx.txouts.foldlM (fun (mined : Pt) output =>
    match output with
    | .PaymentOutput _ => do
      output.validate κ
      pure (mined + output.pedersenCommitment κ)
    | _ => throw (.tx (.NonPaymentOutputInCoinbase txHash (κ.hashOutput output)))) 0
  if mined + κ.gammaG tx.gamma ≠ κ.feeA (tx.blockReward + tx.blockFee) then
    throw (.tx (.InvalidMonetaryBalance txHash))

/-- One input of a transaction with its hash, in turn: the hash is the
    input's, and no input is taken twice. -/
def checkInput (txHash : ℕ) (seen : List ℕ) (entry : ℕ × Output Pt) : Except Fault (List ℕ) := do
  let (txinHash, txin) := entry
  check (κ.hashOutput txin = txinHash) "assertion failed: `(left == right)`"
  if txinHash ∈ seen then throw (.tx (.DuplicateInput txHash txinHash))
  pure (txinHash :: seen)

/-- The inputs of a transaction with their hashes (`self.txins.iter().zip(inputs)`). -/
def checkInputs (txHash : ℕ) (txins : List ℕ) (inputs : List (Output Pt)) :
    Except Fault (List ℕ) :=
  (txins.zip inputs).foldlM (checkInput κ txHash) []

/-- One output of a transaction: not created twice. -/
def checkOutput (txHash : ℕ) (seen : List ℕ) (txout : Output Pt) : Except Fault (List ℕ) := do
  let txoutHash := κ.hashOutput txout
  if txoutHash ∈ seen then throw (.tx (.DuplicateOutput txHash txoutHash))
  pure (txoutHash :: seen)

/-- No output is created twice in a transaction. -/
def checkOutputs (txHash : ℕ) (txouts : List (Output Pt)) : Except Fault (List ℕ) :=
  txouts.foldlM (checkOutput κ txHash) []

/-- The sum of the commitments of outputs. -/
def sumCommitments (outputs : List (Output Pt)) : Pt :=
  (outputs.map (Output.pedersenCommitment κ)).sum

/-- `PaymentTransaction::validate`: inputs, unique inputs and outputs, the
    monetary balance `Σ C_in = Σ C_out + fee * A + gamma * G`, and the
    signature by the effective key. -/
def PaymentTransaction.validate (tx : PaymentTransaction Fr Pt) (inputs : List (Output Pt)) :
    Except Fault Unit := do
  let txHash := κ.hashTransaction (.PaymentTransaction tx)
  check (tx.txins.length = inputs.length) "assertion failed: `(left == right)`"
  if tx.txins = [] then throw (.tx (.NoInputs txHash))
  if tx.fee < 0 then throw (.tx (.NegativeFee txHash))
  let _ ← checkInputs κ txHash tx.txins inputs
  let _ ← checkOutputs κ txHash tx.txouts
  let txinSum := sumCommitments κ inputs
  let txoutSum := sumCommitments κ tx.txouts
  let adj := κ.gammaG tx.gamma + κ.feeA tx.fee
  if txinSum ≠ txoutSum + adj then throw (.tx (.InvalidMonetaryBalance txHash))
  let effPkey := (inputs.map (Output.recipientPkey κ)).sum + txinSum - txoutSum - adj
  if !κ.validateSig txHash tx.sig effPkey then throw (.tx (.InvalidSignature txHash))

/-- The stake of one input or output of a re-stake, in turn: of the validator
    of those before it, whose key is kept, its amount added. Another kind of
    output is the error `invalid`. -/
def restakeStake (txHash hash : ℕ) (invalid : TransactionError) (acc : Option ℕ × ℤ) :
    Output Pt → Except Fault (Option ℕ × ℤ)
  | .StakeOutput o =>
    match acc.1 with
    | none => pure (some o.validator, acc.2 + o.amount)
    | some v =>
      if v ≠ o.validator then throw (.tx (.MixedRestakingOwners txHash hash))
      else pure (acc.1, acc.2 + o.amount)
  | _ => throw (.tx invalid)

/-- One input of a re-stake with its hash, in turn (the loop over
    `self.txins.iter().zip(inputs)`): the checks of `checkInput`, then its
    stake. -/
def restakeInput (txHash : ℕ) (acc : List ℕ × Option ℕ × ℤ) (entry : ℕ × Output Pt) :
    Except Fault (List ℕ × Option ℕ × ℤ) := do
  let seen ← checkInput κ txHash acc.1 entry
  let stake ← restakeStake txHash entry.1 (.InvalidRestakingInput txHash entry.1) acc.2 entry.2
  pure (seen, stake)

/-- One output of a re-stake, in turn (the loop over `self.txouts`): the check
    of `checkOutput`, `Output::validate`, then its stake. -/
def restakeOutput (txHash : ℕ) (acc : List ℕ × Option ℕ × ℤ) (txout : Output Pt) :
    Except Fault (List ℕ × Option ℕ × ℤ) := do
  let seen ← checkOutput κ txHash acc.1 txout
  txout.validate κ
  let txoutHash := κ.hashOutput txout
  let stake ← restakeStake txHash txoutHash (.InvalidRestakingOutput txHash txoutHash) acc.2 txout
  pure (seen, stake)

/-- `RestakeTransaction::validate`: stakes of one validator in, stakes of one
    validator out, equal amounts, and the signature of the validator of the
    inputs. -/
def RestakeTransaction.validate (tx : RestakeTransaction Pt) (inputs : List (Output Pt)) :
    Except Fault Unit := do
  let txHash := κ.hashTransaction (.RestakeTransaction tx : Transaction Fr Pt)
  check (tx.txins.length = inputs.length) "assertion failed: `(left == right)`"
  if tx.txins = [] then throw (.tx (.NoInputs txHash))
  let (_, effVkey, txinSum) ← (tx.txins.zip inputs).foldlM (restakeInput κ txHash) ([], none, 0)
  let some effVkey := effVkey | throw (.tx (.NoRestakingTxins txHash))
  let (_, _, txoutSum) ← tx.txouts.foldlM (restakeOutput κ txHash) ([], none, 0)
  if txinSum ≠ txoutSum then throw (.tx (.InvalidMonetaryBalance txHash))
  if tx.sig ≠ ⟨effVkey, txHash⟩ then throw (.tx (.InvalidSignature txHash))

end Validate

/-! ### Blocks of transactions -/

section Blocks

variable (κ : Crypto Fr Pt)

/-- The header hashes of `MicroBlock::calculate_range_hashes`, with the input
    and output hashes they are computed from. -/
structure RangeHashes where
  transactionsRangeHash : ℕ
  inputsRangeHash : ℕ
  outputsRangeHash : ℕ
  canariesRangeHash : ℕ
  inputHashes : List ℕ
  outputHashes : List ℕ

/-- `MicroBlock::calculate_range_hashes`. -/
def MicroBlock.calculateRangeHashes (transactions : List (Transaction Fr Pt)) : RangeHashes :=
  let inputHashes := transactions.flatMap Transaction.txins
  let outputs := transactions.flatMap Transaction.txouts
  let outputHashes := outputs.map κ.hashOutput
  { transactionsRangeHash := κ.merkle (transactions.map κ.fullhashTransaction)
    inputsRangeHash := κ.merkle inputHashes
    outputsRangeHash := κ.merkle outputHashes
    canariesRangeHash := κ.merkle (outputs.map κ.hashCanary)
    inputHashes, outputHashes }

/-- `MicroBlock::new`: the header over the transactions, not signed yet
    (`pbc::Signature::zero()`, here a signature of key `0` on hash `0`). -/
def MicroBlock.new (previous epoch offset viewChange : ℕ) (viewChangeProof : Option ViewChangeProof)
    (pkey : ℕ) (random : VRF) (solution timestamp : ℕ) (transactions : List (Transaction Fr Pt)) :
    MicroBlock Fr Pt :=
  let r := MicroBlock.calculateRangeHashes κ transactions
  { header :=
      { version, previous, epoch, offset, viewChange, viewChangeProof, pkey, random, solution,
        timestamp, transactionsLen := transactions.length,
        transactionsRangeHash := r.transactionsRangeHash,
        inputsLen := r.inputHashes.length, inputsRangeHash := r.inputsRangeHash,
        outputsLen := r.outputHashes.length, outputsRangeHash := r.outputsRangeHash,
        canariesRangeHash := r.canariesRangeHash }
    sig := ⟨0, 0⟩, transactions }

/-- `MicroBlock::sign`: the hash of the header signed by the leader. -/
def MicroBlock.sign (self : MicroBlock Fr Pt) (networkPkey : ℕ) : MicroBlock Fr Pt :=
  { self with sig := ⟨networkPkey, κ.hashMicroBlockHeader self.header⟩ }

/-- `MacroBlock::new`: the header over the sorted inputs and outputs. The
    inputs come sorted and the outputs sorted by hash (`from_transactions`). -/
def MacroBlock.new (previous epoch viewChange pkey : ℕ) (random : VRF) (difficulty timestamp : ℕ)
    (blockReward : ℤ) (gamma : Fr) (activityMap : List Bool) (validators : StakersGroup)
    (inputs : List ℕ) (outputs : List (Output Pt)) : MacroBlock Fr Pt :=
  { header :=
      { version, previous, epoch, viewChange, pkey, random, difficulty, timestamp, blockReward,
        gamma, activityMap, validatorsLen := validators.length,
        validatorsRangeHash := κ.merkleValidators validators,
        inputsLen := inputs.length, inputsRangeHash := κ.merkle inputs,
        outputsLen := outputs.length, outputsRangeHash := κ.merkle (outputs.map κ.hashOutput),
        canariesRangeHash := κ.merkle (outputs.map κ.hashCanary) }
    multisig := 0, multisigmap := [], inputs, outputs }

/-- One input of a transaction `txHash` in `from_transactions`: an input
    already collected is an error. -/
def collectInput (txHash : ℕ) (inputs : Std.ExtTreeSet ℕ compare) (inputHash : ℕ) :
    Except TransactionError (Std.ExtTreeSet ℕ compare) :=
  if inputHash ∈ inputs then throw (.DuplicateInput txHash inputHash)
  else pure (inputs.insert inputHash)

/-- One output of a transaction `txHash` in `from_transactions`: an output
    hash already collected is an error. -/
def collectOutput (txHash : ℕ) (outputs : Std.ExtTreeMap ℕ (Output Pt) compare) (output : Output Pt) :
    Except TransactionError (Std.ExtTreeMap ℕ (Output Pt) compare) :=
  let outputHash := κ.hashOutput output
  if outputHash ∈ outputs then throw (.DuplicateOutput txHash outputHash)
  else pure (outputs.insert outputHash output)

/-- One transaction of `from_transactions`: its inputs added to those of the
    transactions before it, and its outputs by hash. -/
def collectTransaction
    (acc : Std.ExtTreeSet ℕ compare × Std.ExtTreeMap ℕ (Output Pt) compare × Fr)
    (tx : Transaction Fr Pt) :
    Except TransactionError (Std.ExtTreeSet ℕ compare × Std.ExtTreeMap ℕ (Output Pt) compare × Fr) := do
  let (inputs, outputs, gamma) := acc
  let txHash := κ.hashTransaction tx
  let inputs ← tx.txins.foldlM (collectInput txHash) inputs
  let outputs ← tx.txouts.foldlM (collectOutput κ txHash) outputs
  pure (inputs, outputs, gamma + tx.gamma)

/-- The inputs, outputs and blinding factor of a list of transactions, as
    `from_transactions` collects them. -/
def collectTransactions (transactions : List (Transaction Fr Pt)) :
    Except TransactionError (Std.ExtTreeSet ℕ compare × Std.ExtTreeMap ℕ (Output Pt) compare × Fr) :=
  transactions.foldlM (collectTransaction κ) (∅, ∅, 0)

/-- `MacroBlock::from_transactions`. -/
def MacroBlock.fromTransactions (previous epoch viewChange pkey : ℕ) (random : VRF)
    (difficulty timestamp : ℕ) (blockReward : ℤ) (activityMap : List Bool)
    (validators : StakersGroup) (transactions : List (Transaction Fr Pt)) :
    Except TransactionError (MacroBlock Fr Pt) := do
  let (inputs, outputs, gamma) ← collectTransactions κ transactions
  pure (MacroBlock.new κ previous epoch viewChange pkey random difficulty timestamp blockReward
    gamma activityMap validators inputs.toList outputs.values)

/-- `MacroBlock::validate_balance`: `fee_a(block_reward) + Σ C_in - Σ C_out = gamma * G`,
    every output valid. -/
def MacroBlock.validateBalance (block : MacroBlock Fr Pt) (inputs : List (Output Pt)) :
    Except Fault Unit := do
  let _ ← (block.inputs.zip inputs).foldlM (fun (_ : Unit) (txinHash, txin) =>
    check (κ.hashOutput txin = txinHash) "assertion failed: `(left == right)`") ()
  let _ ← block.outputs.foldlM (fun (_ : Unit) txout => txout.validate κ) ()
  let diff := κ.feeA block.header.blockReward + sumCommitments κ ((block.inputs.zip inputs).map Prod.snd)
    - sumCommitments κ block.outputs
  if diff ≠ κ.gammaG block.header.gamma then
    throw (.block (.InvalidBlockBalance block.header.epoch (κ.hashMacroBlockHeader block.header)))

end Blocks

end Stegos
