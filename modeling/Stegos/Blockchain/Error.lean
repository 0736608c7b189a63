import Mathlib

/-!
# Errors of the blockchain

The errors that the modelled functions of `blockchain/src` return
(`error.rs`, `OutputError` of `output.rs`), with their fields, and `Fault`: how
a call of the blockchain ends when it does not return, with a panic and its
text or with an error. Variants that no modelled function returns are left
out.
-/

namespace Stegos

/-- `OutputError`. -/
inductive OutputError
  | InvalidBulletProof (output : ℕ)
  | InvalidPayloadLength (output expected got : ℕ)
  | InvalidAmount (output : ℕ) (amount : ℤ)
  | InvalidStakeSignature (output : ℕ)
  deriving DecidableEq, Repr

/-- `SlashingError`. -/
inductive SlashingError
  | InvalidProofEpoch (proof current : ℕ)
  | DifferentLeader (viewChange1 viewChange2 : ℕ)
  | BlockWithoutConflicts (epoch offset block : ℕ)
  | LastValidator (cheater : ℕ)
  | NotValidator (cheater : ℕ)
  | DifferentHistory (previous1 previous2 : ℕ)
  | DifferentEpoch (epoch1 epoch2 : ℕ)
  | DifferentOffset (offset1 offset2 : ℕ)
  | IncorrectTxins (tx : ℕ)
  | IncorrectTxouts (tx : ℕ)
  deriving DecidableEq, Repr

/-- `TransactionError`. -/
inductive TransactionError
  | InvalidSignature (tx : ℕ)
  | InvalidMonetaryBalance (tx : ℕ)
  | NegativeFee (tx : ℕ)
  | NegativeReward (tx : ℕ)
  | NoInputs (tx : ℕ)
  | MissingInput (tx input : ℕ)
  | DuplicateInput (tx input : ℕ)
  | DuplicateOutput (tx output : ℕ)
  | OutputHashCollision (tx output : ℕ)
  | ReceivedInvalidTransaction (txType : String)
  | NonPaymentOutputInCoinbase (tx output : ℕ)
  | InvalidRestakingInput (tx input : ℕ)
  | MixedRestakingOwners (tx utxo : ℕ)
  | NoRestakingTxins (tx : ℕ)
  | InvalidRestakingOutput (tx output : ℕ)
  | UnexpectedTxType
  | SlashingError (e : SlashingError)
  deriving DecidableEq, Repr

/-- `BlockError`. -/
inductive BlockError
  | InvalidMicroBlockPreviousHash (epoch offset block previous expected : ℕ)
  | InvalidMacroBlockPreviousHash (epoch block previous expected : ℕ)
  | MicroBlockHashCollision (epoch offset block : ℕ)
  | MacroBlockHashCollision (epoch block : ℕ)
  | OutOfOrderMacroBlock (block epoch expected : ℕ)
  | OutOfOrderMicroBlock (block epoch offset expectedEpoch expectedOffset : ℕ)
  | InvalidMicroBlockFee (epoch offset block : ℕ) (fee coinbaseFee : ℤ)
  | InvalidMacroBlockFee (epoch block : ℕ) (got expected : ℤ)
  | CoinbaseMustBeFirst (block : ℕ)
  | NoServiceAwardTx (block : ℕ)
  | AwardMoreThanOneWinner (block count : ℕ)
  | AwardDifferentWinner (block actual award : ℕ)
  | AwardDifferentOutputType (block : ℕ)
  | AwardDifferentReward (block : ℕ) (actual award : ℤ)
  | InvalidBlockBalance (epoch block : ℕ)
  | InvalidMacroBlockInputsHash (epoch block expected got : ℕ)
  | InvalidMacroBlockOutputsHash (epoch block expected got : ℕ)
  | InvalidMacroBlockCanariesHash (epoch block expected got : ℕ)
  | InvalidMacroBlockInputsLen (epoch block expected got : ℕ)
  | InvalidMicroBlockTransactionsHash (epoch offset block expected got : ℕ)
  | InvalidMicroBlockInputsHash (epoch offset block expected got : ℕ)
  | InvalidMicroBlockOutputsHash (epoch offset block expected got : ℕ)
  | InvalidMicroBlockCanariesHash (epoch offset block expected got : ℕ)
  | InvalidMicroBlockTransactionsLen (epoch offset block expected got : ℕ)
  | InvalidMicroBlockInputsLen (epoch offset block expected got : ℕ)
  | InvalidMicroBlockOutputsLen (epoch offset block expected got : ℕ)
  | MissingBlockInput (epoch block input : ℕ)
  | DifferentPublicKey (leader pkey : ℕ)
  | InvalidLeaderSignature (epoch block : ℕ)
  | InvalidBlockSignature (epoch block : ℕ)
  | InvalidBlockVersion (epoch block got expected : ℕ)
  | IncorrectRandom (epoch block : ℕ)
  | InvalidVDFProof (epoch block : ℕ)
  | UnexpectedVDFComplexity (epoch block expected got : ℕ)
  | InvalidViewChange (epoch block got expected : ℕ)
  | InvalidViewChangeProof (epoch proof : ℕ)
  | NoProofWasFound (epoch offset block got expected : ℕ)
  | InvalidMacroBlockReward (epoch block : ℕ) (got expected : ℤ)
  | InvalidMicroBlockReward (epoch offset block : ℕ) (got expected : ℤ)
  | TooBigActivitymap (got expected : ℕ)
  | OutdatedBlock (epoch block timestamp last : ℕ)
  | OutOfSyncTimestamp (epoch block timestamp now : ℕ)
  | InvalidBlockProposal (epoch expected got : ℕ)
  | InvalidBlockEpoch (got expected : ℕ)
  | OutOfSyncViewChange (epoch block got expected : ℕ)
  deriving DecidableEq, Repr

/-- `BlockchainError`. A failed `pbc::check_hash` is a `CryptoError`. -/
inductive BlockchainError
  | ExpectedMacroBlock (epoch offset block : ℕ)
  | StakeOutputWithDifferentAccountKey (accountBefore accountAfter utxo : ℕ)
  | StakeIsLocked (validator : ℕ) (expected active : ℤ)
  | TransactionError (e : TransactionError)
  | BlockError (e : BlockError)
  | OutputError (e : OutputError)
  | CryptoError
  deriving DecidableEq, Repr

/-- How a call of the blockchain ends when it does not return. -/
inductive Fault
  /-- A panic, with its text. -/
  | panic (text : String)
  /-- The error the call returns. -/
  | error (e : BlockchainError)
  deriving DecidableEq, Repr

namespace Fault

/-- An error of a transaction. -/
def tx (e : TransactionError) : Fault := .error (.TransactionError e)

/-- An error of a block. -/
def block (e : BlockError) : Fault := .error (.BlockError e)

/-- An error of an output. -/
def output (e : OutputError) : Fault := .error (.OutputError e)

/-- An error of a slashing transaction. -/
def slashing (e : SlashingError) : Fault := .error (.TransactionError (.SlashingError e))

end Fault

/-- `assert!(cond, text)`: a panic with `text` unless `cond`. -/
def check (cond : Prop) [Decidable cond] (text : String) : Except Fault Unit :=
  if cond then .ok () else .error (.panic text)

theorem check_eq_ok {cond : Prop} [Decidable cond] {text : String} {u : Unit} :
    check cond text = .ok u ↔ cond := by
  by_cases h : cond <;> simp [check, h]

/-- `option.expect(text)`. -/
def expect {α : Type} (text : String) : Option α → Except Fault α
  | some a => .ok a
  | none => .error (.panic text)

theorem expect_eq_ok {α : Type} {text : String} {o : Option α} {a : α} :
    expect text o = .ok a ↔ o = some a := by
  cases o <;> simp [expect]

/-- `result.expect(text)`: an error returned becomes a panic with `text`. -/
def expectOk {α : Type} (text : String) : Except Fault α → Except Fault α
  | .error (.error _) => .error (.panic text)
  | r => r

/-- An error unless `cond`. -/
def ensure (cond : Prop) [Decidable cond] (e : Fault) : Except Fault Unit :=
  if cond then .ok () else .error e

end Stegos
