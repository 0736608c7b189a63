import Stegos.Crypto
import Stegos.Lib.TreeMap

/-!
# The data of the blockchain

The values the blockchain stores and exchanges (`output.rs`, `transaction.rs`,
`block.rs`, `election.rs`, `awards.rs`, `escrow.rs`, `config.rs` of
`blockchain/src`), and the cryptography they rest on.

* Hashes, network keys (`pbc::PublicKey`) and account keys
  (`scc::PublicKey`) are numbers; hashing is a set of functions given by
  `Crypto`, so two values hash apart unless the functions say otherwise.
* Amounts are committed to in an abelian group `Pt` (Pedersen commitments):
  `fee_a` and `gamma * Pt::one()` are additive maps into it from the amounts
  and from the blinding factors `Fr`. Bulletproofs, Schnorr signatures, VRF,
  VDF and multi-signatures are Boolean oracles of `Crypto`; BLS signatures
  are ideal (`Signed`).
* The blocks of a slashing proof are kept as their signed headers: the
  proof reads nothing else of them (the hash of a micro block is the hash of
  its header).
-/

namespace Stegos

/-! ### Positions -/

/-- `LSN`: the position of a block, ordered by epoch, then offset. -/
structure LSN where
  epoch : ℕ
  offset : ℕ
  deriving DecidableEq, Repr, Inhabited

/-- The lexicographic pair of an `LSN`. -/
def LSN.asLex (l : LSN) : ℕ ×ₗ ℕ := toLex (l.epoch, l.offset)

theorem LSN.asLex_injective : Function.Injective LSN.asLex := by
  intro a b h
  cases a
  cases b
  simp_all [LSN.asLex]

instance : LinearOrder LSN := LinearOrder.lift' LSN.asLex LSN.asLex_injective

instance : Std.LawfulEqOrd LSN := LinearOrder.lawfulEqOrd LSN

/-- The order of the keys of the maps by LSN, named so that the maps' terms refer to it. -/
instance transCmpLSN : Std.TransCmp (compare : LSN → LSN → Ordering) := inferInstance

theorem LSN.lt_iff {a b : LSN} :
    a < b ↔ a.epoch < b.epoch ∨ a.epoch = b.epoch ∧ a.offset < b.offset :=
  Prod.Lex.toLex_lt_toLex

theorem LSN.le_iff {a b : LSN} :
    a ≤ b ↔ a.epoch < b.epoch ∨ a.epoch = b.epoch ∧ a.offset ≤ b.offset :=
  Prod.Lex.toLex_le_toLex

/-- The default position, of a new map, is the first. -/
theorem LSN.default_le (a : LSN) : default ≤ a := by
  show (⟨0, 0⟩ : LSN) ≤ a
  rw [LSN.le_iff]
  dsimp only
  omega

/-- `MACRO_BLOCK_OFFSET`: the offset of a macro block, `u32::max_value()`. -/
def macroBlockOffset : ℕ := 4294967295

/-- `INITIAL_LSN`. -/
def initialLsn : LSN := ⟨0, 0⟩

/-- `OutputKey`: where an unspent output is stored. -/
inductive OutputKey
  | MacroBlock (epoch outputId : ℕ)
  | MicroBlock (epoch offset txId txoutId : ℕ)
  deriving DecidableEq, Repr

/-! ### Outputs -/

/-- `BulletProof`: the Pedersen commitment of the amount, and the rest of the
    range proof. -/
structure BulletProof (Pt : Type) where
  vcmt : Pt
  proof : ℕ
  deriving DecidableEq, Repr

/-- `PaymentOutput`: a cloaked amount. The payload is kept by its length. -/
structure PaymentOutput (Pt : Type) where
  recipient : ℕ
  proof : BulletProof Pt
  payloadLen : ℕ
  deriving DecidableEq, Repr

/-- `PublicPaymentOutput`. -/
structure PublicPaymentOutput where
  recipient : ℕ
  serno : ℤ
  amount : ℤ
  deriving DecidableEq, Repr

/-- `StakeOutput`: a stake of `amount` for the validator `validator`, paid
    back to the account `recipient`. -/
structure StakeOutput where
  recipient : ℕ
  validator : ℕ
  amount : ℤ
  serno : ℤ
  signature : Signed ℕ ℕ
  deriving DecidableEq, Repr

/-- `Output`. -/
inductive Output (Pt : Type)
  | PaymentOutput (o : PaymentOutput Pt)
  | PublicPaymentOutput (o : PublicPaymentOutput)
  | StakeOutput (o : StakeOutput)
  deriving DecidableEq, Repr

/-- `PAYMENT_PAYLOAD_LEN`. -/
def paymentPayloadLen : ℕ := 1024

/-! ### Blocks and transactions -/

/-- `pbc::VRF`: a random value and its proof. -/
structure VRF where
  rand : ℕ
  proof : ℕ
  deriving DecidableEq, Repr

/-- `VERSION`. -/
def version : ℕ := 1

/-- `ViewChangeProof`: the validators that signed a view change, and their
    multi-signature. -/
structure ViewChangeProof where
  multimap : List Bool
  multisig : ℕ
  deriving DecidableEq, Repr

/-- `MicroBlockHeader`. -/
structure MicroBlockHeader where
  version : ℕ
  previous : ℕ
  epoch : ℕ
  offset : ℕ
  viewChange : ℕ
  viewChangeProof : Option ViewChangeProof
  pkey : ℕ
  random : VRF
  solution : ℕ
  timestamp : ℕ
  transactionsLen : ℕ
  transactionsRangeHash : ℕ
  inputsLen : ℕ
  inputsRangeHash : ℕ
  outputsLen : ℕ
  outputsRangeHash : ℕ
  canariesRangeHash : ℕ
  deriving DecidableEq, Repr

/-- A block of a `SlashingProof`: its header, signed by its leader. -/
structure SignedHeader where
  header : MicroBlockHeader
  sig : Signed ℕ ℕ
  deriving DecidableEq, Repr

/-- `SlashingProof`: two blocks of one leader at one position. -/
structure SlashingProof where
  block1 : SignedHeader
  block2 : SignedHeader
  deriving DecidableEq, Repr

/-- `CoinbaseTransaction`. -/
structure CoinbaseTransaction (Fr Pt : Type) where
  blockReward : ℤ
  blockFee : ℤ
  gamma : Fr
  txouts : List (Output Pt)
  deriving DecidableEq, Repr

/-- `PaymentTransaction`; the Schnorr signature is checked by `Crypto.validateSig`. -/
structure PaymentTransaction (Fr Pt : Type) where
  txins : List ℕ
  txouts : List (Output Pt)
  gamma : Fr
  fee : ℤ
  sig : ℕ
  deriving DecidableEq, Repr

/-- `RestakeTransaction`, signed by the validator. -/
structure RestakeTransaction (Pt : Type) where
  txins : List ℕ
  txouts : List (Output Pt)
  sig : Signed ℕ ℕ
  deriving DecidableEq, Repr

/-- `SlashingTransaction`. -/
structure SlashingTransaction (Pt : Type) where
  proof : SlashingProof
  txins : List ℕ
  txouts : List (Output Pt)
  deriving DecidableEq, Repr

/-- `ServiceAwardTransaction`. -/
structure ServiceAwardTransaction (Pt : Type) where
  winnerReward : List (Output Pt)
  deriving DecidableEq, Repr

/-- `Transaction`. -/
inductive Transaction (Fr Pt : Type)
  | CoinbaseTransaction (tx : CoinbaseTransaction Fr Pt)
  | PaymentTransaction (tx : PaymentTransaction Fr Pt)
  | RestakeTransaction (tx : RestakeTransaction Pt)
  | SlashingTransaction (tx : SlashingTransaction Pt)
  | ServiceAwardTransaction (tx : ServiceAwardTransaction Pt)
  deriving DecidableEq, Repr

/-- `MicroBlock`. -/
structure MicroBlock (Fr Pt : Type) where
  header : MicroBlockHeader
  sig : Signed ℕ ℕ
  transactions : List (Transaction Fr Pt)
  deriving DecidableEq, Repr

/-- `MacroBlockHeader`. -/
structure MacroBlockHeader (Fr : Type) where
  version : ℕ
  previous : ℕ
  epoch : ℕ
  viewChange : ℕ
  pkey : ℕ
  random : VRF
  difficulty : ℕ
  timestamp : ℕ
  blockReward : ℤ
  gamma : Fr
  activityMap : List Bool
  validatorsLen : ℕ
  validatorsRangeHash : ℕ
  inputsLen : ℕ
  inputsRangeHash : ℕ
  outputsLen : ℕ
  outputsRangeHash : ℕ
  canariesRangeHash : ℕ
  deriving DecidableEq, Repr

/-- `MacroBlock`. The multi-signature is checked by `Crypto.checkMultiSignature`. -/
structure MacroBlock (Fr Pt : Type) where
  header : MacroBlockHeader Fr
  multisig : ℕ
  multisigmap : List Bool
  inputs : List ℕ
  outputs : List (Output Pt)
  deriving DecidableEq, Repr

/-- `Block`. -/
inductive Block (Fr Pt : Type)
  | MacroBlock (block : MacroBlock Fr Pt)
  | MicroBlock (block : MicroBlock Fr Pt)
  deriving DecidableEq, Repr

/-! ### Election, awards, escrow -/

/-- `StakersGroup`: validators and their slots, in order. -/
abbrev StakersGroup := List (ℕ × ℤ)

/-- `ElectionResult`. -/
structure ElectionResult where
  random : VRF
  viewChange : ℕ
  validators : StakersGroup
  facilitator : ℕ
  deriving DecidableEq, Repr

/-- `ValidatorAwardState`. -/
inductive ValidatorAwardState
  | Failed (epoch offset : ℕ)
  | Active
  deriving DecidableEq, Repr

/-- `Awards`: the budget of the service award, and the activity of each account. -/
structure Awards where
  budget : ℤ
  difficulty : ℕ
  validatorsActivity : Std.ExtTreeMap ℕ ValidatorAwardState compare

/-- `EscrowKey`: a stake, by validator, then output hash. -/
structure EscrowKey where
  validatorPkey : ℕ
  outputHash : ℕ
  deriving DecidableEq, Repr

/-- The lexicographic pair of an `EscrowKey`. -/
def EscrowKey.asLex (k : EscrowKey) : ℕ ×ₗ ℕ := toLex (k.validatorPkey, k.outputHash)

theorem EscrowKey.asLex_injective : Function.Injective EscrowKey.asLex := by
  intro a b h
  cases a
  cases b
  simp_all [EscrowKey.asLex]

instance : LinearOrder EscrowKey := LinearOrder.lift' EscrowKey.asLex EscrowKey.asLex_injective

instance : Std.LawfulEqOrd EscrowKey := LinearOrder.lawfulEqOrd EscrowKey

instance transCmpEscrowKey : Std.TransCmp (compare : EscrowKey → EscrowKey → Ordering) :=
  inferInstance

/-- The key of the maps that hold one value (`MultiVersionedMap<(), _, _>`). -/
instance lawfulEqOrdUnit : Std.LawfulEqOrd Unit := LinearOrder.lawfulEqOrd Unit

instance transCmpUnit : Std.TransCmp (compare : Unit → Unit → Ordering) := inferInstance

/-- `EscrowValue`. -/
structure EscrowValue where
  accountPkey : ℕ
  activeUntilEpoch : ℕ
  amount : ℤ
  deriving DecidableEq, Repr

/-- `Balance`: the money created and burned, the blinding factors, and the
    block rewards, since genesis. -/
structure Balance (Fr Pt : Type) where
  created : Pt
  burned : Pt
  gamma : Fr
  blockReward : ℤ
  deriving DecidableEq, Repr

/-! ### Configuration and cryptography -/

/-- `ChainConfig`; the timestamp delta is in the unit of timestamps. -/
structure ChainConfig where
  maxSlotCount : ℤ
  minStakeAmount : ℤ
  stakeEpochs : ℕ
  microBlocksInEpoch : ℕ
  awardsDifficulty : ℕ
  blockReward : ℤ
  serviceAwardPerEpoch : ℤ
  vettedTimestampDelta : ℕ

/-- `ConsistencyCheck`, ordered as declared. -/
inductive ConsistencyCheck
  | None
  | LoadChain
  | Incoming
  | Full
  deriving DecidableEq, Repr, Ord

/-- `ChainInfo`: the position a view change is about. -/
structure ChainInfo where
  epoch : ℕ
  offset : ℕ
  viewChange : ℕ
  lastBlock : ℕ
  deriving DecidableEq, Repr

/-- The hash functions and the checks of `stegos_crypto` that the blockchain
    calls. -/
structure Crypto (Fr Pt : Type) [AddCommGroup Fr] [AddCommGroup Pt] where
  /-- `Hash::digest` of an output. -/
  hashOutput : Output Pt → ℕ
  /-- `Hash::digest(&output.canary())`. -/
  hashCanary : Output Pt → ℕ
  /-- `Hash::digest` of a transaction. -/
  hashTransaction : Transaction Fr Pt → ℕ
  /-- `Transaction::fullhash`: the hash with the signature. -/
  fullhashTransaction : Transaction Fr Pt → ℕ
  /-- `Hash::digest` of a micro block, which is the hash of its header. -/
  hashMicroBlockHeader : MicroBlockHeader → ℕ
  /-- `Hash::digest` of a macro block, which is the hash of its header. -/
  hashMacroBlockHeader : MacroBlockHeader Fr → ℕ
  /-- `Merkle::root_hash_from_array` of hashes. -/
  merkle : List ℕ → ℕ
  /-- `Merkle::root_hash_from_array` of validators. -/
  merkleValidators : StakersGroup → ℕ
  /-- `Hash::digest("genesis")`. -/
  genesisHash : ℕ
  /-- `validate_range_proof`. -/
  validateRangeProof : BulletProof Pt → Bool
  /-- `scc::validate_sig(hash, sig, pkey)`. -/
  validateSig : ℕ → ℕ → Pt → Bool
  /-- `Pt::from(PublicKey)`. -/
  pkeyPoint : ℕ → Pt
  /-- `pbc::validate_VRF_source(random, pkey, seed)`. -/
  validateVRFSource : VRF → ℕ → ℕ → Bool
  /-- `VDF::verify(challenge, difficulty, solution)`. -/
  verifyVDF : ℕ → ℕ → ℕ → Bool
  /-- `check_multi_signature(hash, multisig, multisigmap, validators, total_slots)`. -/
  checkMultiSignature : ℕ → ℕ → List Bool → StakersGroup → ℤ → Bool
  /-- `Hash::digest` of a `ChainInfo`, which a view change proof signs. -/
  hashChainInfo : ChainInfo → ℕ
  /-- `pbc::make_VRF(skey, seed)`. -/
  makeVRF : ℕ → ℕ → VRF
  /-- `election::mix`: a hash of a random and a round. -/
  mix : ℕ → ℕ → ℕ
  /-- `election::shrink_hash`. -/
  shrinkHash : ℕ → ℤ
  /-- The hash of a seed and `"facilitator"` (`select_validators_slots`). -/
  facilitatorSeed : ℕ → ℕ
  /-- `awards::chkbits(random, difficulty)`. -/
  chkbits : ℕ → ℕ → Bool
  /-- `fee_a`: the commitment of a public amount. -/
  feeA : ℤ →+ Pt
  /-- `gamma * Pt::one()`. -/
  gammaG : Fr →+ Pt

end Stegos
