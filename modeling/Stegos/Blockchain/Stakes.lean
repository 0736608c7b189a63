import Stegos.Blockchain.Step
import Stegos.Lib.Except

/-!
# One account per validator

The rule `Escrow::validate_stakes` documents as "Validate that staker has only
one key": every stake of a validator pays back to one account
(`Escrow.OneAccount`). `account_by_network_key` reads the account of a
validator's first stake, so under the rule it is the account of any of them
(`accountByNetworkKey_of_oneAccount`).

What `validate_stakes` checks is that a stake output pays back to the account
the escrow already has for its validator (`validateStakes_recipient`): under
the rule, to the account of every stake of that validator
(`validateStakes_pays_account`). A validator without a stake has no account
yet, and the outputs of one transaction are not compared with each other: a
payment that stakes twice for a new validator, to two accounts, is valid, and
applying it breaks the rule (`oneAccount_broken`).

The last section is the chain the scenarios of the following modules start
from: a cryptography whose checks all pass and whose hashes read the serial
number of an output and the timestamp of a block, a configuration, and a
genesis block with one validator.
-/

namespace Stegos

namespace Escrow

/-- Every stake of a validator pays back to one account. -/
def OneAccount (e : Escrow) : Prop :=
  ∀ s₁ ∈ e.escrow.map.toList, ∀ s₂ ∈ e.escrow.map.toList,
    s₁.1.validatorPkey = s₂.1.validatorPkey → s₁.2.accountPkey = s₂.2.accountPkey

instance : DecidablePred OneAccount := fun e =>
  inferInstanceAs (Decidable (∀ s₁ ∈ e.escrow.map.toList, ∀ s₂ ∈ e.escrow.map.toList,
    s₁.1.validatorPkey = s₂.1.validatorPkey → s₁.2.accountPkey = s₂.2.accountPkey))

/-- The stakes `iter_validator_stakes` lists are the escrow's entries of that validator. -/
theorem mem_iterValidatorStakes {e : Escrow} {validatorPkey : ℕ} {s : ℕ × ℤ × ℕ × ℕ} :
    s ∈ e.iterValidatorStakes validatorPkey ↔ ∃ k v, (k, v) ∈ e.escrow.map.toList ∧
      k.validatorPkey = validatorPkey ∧ s = (k.outputHash, v.amount, v.accountPkey, v.activeUntilEpoch) := by
  simp only [iterValidatorStakes, List.mem_map, List.mem_filter, decide_eq_true_eq, Prod.exists]
  grind

/-- Under the rule, the account of a validator is the account of any of its stakes. -/
theorem accountByNetworkKey_of_oneAccount {e : Escrow} (h : e.OneAccount) {k : EscrowKey}
    {val : EscrowValue} (hk : e.escrow.map[k]? = some val) :
    e.accountByNetworkKey k.validatorPkey = some val.accountPkey := by
  have hmem : (k, val) ∈ e.escrow.map.toList := Std.ExtTreeMap.mem_toList_iff_getElem?_eq_some.2 hk
  -- the stakes of the validator, of which `(k, val)` is one, start with some stake
  have hin := mem_iterValidatorStakes.2 ⟨k, val, hmem, rfl, rfl⟩
  obtain ⟨s, rest, hcons⟩ := List.exists_cons_of_ne_nil (List.ne_nil_of_mem hin)
  obtain ⟨k', val', hmem', hk', rfl⟩ := mem_iterValidatorStakes.1 (hcons ▸ List.mem_cons_self)
  have hacc : val'.accountPkey = val.accountPkey := h _ hmem' _ hmem hk'
  simp only [accountByNetworkKey, hcons, List.head?_cons, Option.map_some, hacc]

variable {Fr Pt : Type} [AddCommGroup Fr] [AddCommGroup Pt] {κ : Crypto Fr Pt}

/-- A stake output that the staking balance takes pays back to the account
    the escrow has for its validator, if any. -/
theorem stakingBalance_recipient {e : Escrow} {inputs outputs : List (Output Pt)}
    {b : Std.ExtTreeMap ℕ ℤ compare} (h : e.stakingBalance κ inputs outputs = .ok b)
    {o : StakeOutput} (ho : Output.StakeOutput o ∈ outputs) {a : ℕ}
    (ha : e.accountByNetworkKey o.validator = some a) : o.recipient = a := by
  rw [stakingBalance] at h
  obtain ⟨x, y, -, hxy⟩ :=
    List.foldlM_except_step_of_mem (fun _ => True) (fun _ _ _ _ _ _ => trivial) h trivial _ ho
  simp only [ha] at hxy
  by_contra hne
  -- a different account is the error of the step
  simp only [ne_eq, Ne.symm hne, not_false_eq_true, if_true] at hxy
  cases hxy

/-- `validate_stakes` checks every stake output against the escrow: it pays
    back to the account the escrow has for its validator. -/
theorem validateStakes_recipient {e : Escrow} {inputs outputs : List (Output Pt)} {epoch : ℕ}
    (h : e.validateStakes κ inputs outputs epoch = .ok ()) {o : StakeOutput}
    (ho : Output.StakeOutput o ∈ outputs) {a : ℕ} (ha : e.accountByNetworkKey o.validator = some a) :
    o.recipient = a := by
  obtain ⟨b, hb, -⟩ := Except.bind_eq_ok.1 h
  exact stakingBalance_recipient hb ho ha

/-- Under the rule, a stake output of a transaction that passes
    `validate_stakes` pays back to the account of every stake its validator
    already has. -/
theorem validateStakes_pays_account {e : Escrow} (hone : e.OneAccount)
    {inputs outputs : List (Output Pt)} {epoch : ℕ}
    (h : e.validateStakes κ inputs outputs epoch = .ok ()) {o : StakeOutput}
    (ho : Output.StakeOutput o ∈ outputs) {k : EscrowKey} {val : EscrowValue}
    (hk : e.escrow.map[k]? = some val) (hv : k.validatorPkey = o.validator) :
    o.recipient = val.accountPkey :=
  validateStakes_recipient h ho (hv ▸ accountByNetworkKey_of_oneAccount hone hk)

end Escrow

/-! ### The chain of the scenarios -/

namespace Scenario

/-- The serial number of an output, which is its hash here. -/
def outputId : Output ℤ → ℕ
  | .PaymentOutput o => o.proof.proof
  | .PublicPaymentOutput o => o.serno.toNat
  | .StakeOutput o => o.serno.toNat

/-- A cryptography whose checks all pass: outputs hash to their serial
    numbers, blocks to their timestamps (even for macro blocks, odd for micro
    blocks), transactions to their inputs and outputs; commitments are the
    amounts and the blinding factors themselves. -/
def crypto : Crypto ℤ ℤ where
  hashOutput := outputId
  hashCanary := outputId
  hashTransaction tx := 10000 + 100 * (tx.txouts.map outputId).sum + tx.txins.sum
  fullhashTransaction tx := 10000 + 100 * (tx.txouts.map outputId).sum + tx.txins.sum
  hashMicroBlockHeader h := 2 * h.timestamp + 1
  hashMacroBlockHeader h := 2 * h.timestamp
  merkle := List.sum
  merkleValidators := List.length
  genesisHash := 0
  validateRangeProof _ := true
  validateSig _ _ _ := true
  pkeyPoint _ := 0
  validateVRFSource _ _ _ := true
  verifyVDF _ _ _ := true
  checkMultiSignature _ _ _ _ _ := true
  hashChainInfo _ := 0
  makeVRF skey seed := ⟨seed, skey⟩
  mix random round := random + round
  shrinkHash n := n
  facilitatorSeed n := n
  chkbits _ _ := true
  feeA := AddMonoidHom.id ℤ
  gammaG := AddMonoidHom.id ℤ

/-- One slot, three micro blocks an epoch, stakes active for ten epochs. -/
def config : ChainConfig where
  maxSlotCount := 1
  minStakeAmount := 1
  stakeEpochs := 10
  microBlocksInEpoch := 3
  awardsDifficulty := 0
  blockReward := 10
  serviceAwardPerEpoch := 1
  vettedTimestampDelta := 1000

/-- A stake of `amount` for `validator`, signed by it, paying back to `recipient`. -/
def stake (recipient validator : ℕ) (amount : ℤ) (id : ℕ) : Output ℤ :=
  .StakeOutput ⟨recipient, validator, amount, id, ⟨validator, id⟩⟩

/-- A payment of `amount` to `recipient`. -/
def payment (recipient : ℕ) (amount : ℤ) (id : ℕ) : Output ℤ :=
  .PaymentOutput ⟨recipient, ⟨amount, id⟩, paymentPayloadLen⟩

/-- The genesis block: validator `1` stakes `50` for account `100`, and
    account `200` holds `500`. -/
def genesis : MacroBlock ℤ ℤ :=
  MacroBlock.new crypto 0 0 0 1 ⟨7, 0⟩ 0 1 0 (-550) [] [(1, 1)] []
    [stake 100 1 50 1, payment 200 500 2]

/-- The chain of the genesis block. -/
def start : Except Fault (Blockchain ℤ ℤ) := Blockchain.new crypto config .None genesis 1

/-- A micro block of `leader` at view change `0` over `transactions`, its
    header computed and signed. -/
def microBlock (leader previous epoch offset timestamp : ℕ)
    (transactions : List (Transaction ℤ ℤ)) : MicroBlock ℤ ℤ :=
  let r := MicroBlock.calculateRangeHashes crypto transactions
  let header : MicroBlockHeader :=
    { version, previous, epoch, offset, viewChange := 0, viewChangeProof := none, pkey := leader,
      random := ⟨0, 0⟩, solution := 0, timestamp,
      transactionsLen := transactions.length, transactionsRangeHash := r.transactionsRangeHash,
      inputsLen := r.inputHashes.length, inputsRangeHash := r.inputsRangeHash,
      outputsLen := r.outputHashes.length, outputsRangeHash := r.outputsRangeHash,
      canariesRangeHash := r.canariesRangeHash }
  { header, sig := ⟨leader, crypto.hashMicroBlockHeader header⟩, transactions }

/-- The coinbase of a micro block: the block reward to account `100`. -/
def coinbase (id : ℕ) : Transaction ℤ ℤ :=
  .CoinbaseTransaction ⟨config.blockReward, 0, 0, [payment 100 config.blockReward id]⟩

/-- Account `200` stakes its `500` for the new validator `9`, in two stakes
    paying back to two accounts, `300` and `301`. -/
def splitStake : Transaction ℤ ℤ :=
  .PaymentTransaction ⟨[2], [stake 300 9 200 4, stake 301 9 300 5], 0, 0, 0⟩

/-- The first micro block of epoch `1`, with the split stake. -/
def splitStakeBlock : MicroBlock ℤ ℤ := microBlock 1 2 1 0 2 [coinbase 3, splitStake]

end Scenario

/-- From a genesis that keeps the rule, one validated micro block with a
    payment that stakes twice for a new validator breaks it. -/
theorem oneAccount_broken :
    ∃ s₀ s, Scenario.start = .ok s₀ ∧
      Transition.Reachable (· = s₀) (Blockchain.validatedStep Scenario.crypto) s ∧
      s₀.escrow.OneAccount ∧ ¬ s.escrow.OneAccount := by
  have htest : (Scenario.start.toOption.bind fun s₀ =>
      (Transition.run (Blockchain.validatedStep Scenario.crypto) s₀
        [.pushMicroBlock Scenario.splitStakeBlock 2]).toOption.map
        fun s => decide (s₀.escrow.OneAccount ∧ ¬ s.escrow.OneAccount)) = some true := by
    decide +kernel
  obtain ⟨s₀, s, h₀, hs, h⟩ := Transition.Reachable.of_run_test htest
  exact ⟨s₀, s, h₀, hs, of_decide_eq_true h⟩

end Stegos
