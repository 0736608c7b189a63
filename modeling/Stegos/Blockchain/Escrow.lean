import Stegos.Blockchain.Mvcc
import Stegos.Blockchain.Transaction

/-!
# The escrow

`Escrow` (`escrow.rs`): the stakes of the validators, a multi-versioned map
from a validator and the hash of its stake output to the account the stake
pays back to, the last epoch it is active in, and its amount. The functions
that read it go through the stakes of one validator in the order of their
output hashes (`iter_validator_stakes`), so `account_by_network_key` is the
account of the stake with the least hash.
-/

namespace Stegos

/-- `Escrow`. -/
structure Escrow where
  escrow : MultiVersionedMap EscrowKey EscrowValue LSN

namespace Escrow

/-- `Escrow::new`. -/
def new : Escrow := ⟨MultiVersionedMap.new⟩

/-- `Escrow::stake`: a stake active until `epoch + stakes_epoch`; a stake of
    the same output is a panic. -/
def stake (self : Escrow) (lsn : LSN) (validatorPkey accountPkey outputHash epoch stakesEpoch : ℕ)
    (amount : ℤ) : Except Fault Escrow := do
  let key : EscrowKey := ⟨validatorPkey, outputHash⟩
  let value : EscrowValue := ⟨accountPkey, epoch + stakesEpoch, amount⟩
  let (prev, escrow) ← (self.escrow.insert lsn key value).mapError .panic
  match prev with
  | some _ => throw (.panic "Stake already exists")
  | none => pure ⟨escrow⟩

/-- `Escrow::unstake`: the stake removed; a missing stake is a panic. -/
def unstake (self : Escrow) (lsn : LSN) (validatorPkey outputHash : ℕ) : Except Fault Escrow := do
  let (prev, escrow) ← (self.escrow.remove lsn ⟨validatorPkey, outputHash⟩).mapError .panic
  let _ ← expect "stake exists" prev
  pure ⟨escrow⟩

/-- `Escrow::iter_validator_stakes`: the output hash, amount, account and last
    active epoch of each stake of a validator, by output hash. -/
def iterValidatorStakes (self : Escrow) (validatorPkey : ℕ) : List (ℕ × ℤ × ℕ × ℕ) :=
  (self.escrow.map.toList.filter fun (k, _) => k.validatorPkey = validatorPkey).map
    fun (k, v) => (k.outputHash, v.amount, v.accountPkey, v.activeUntilEpoch)

/-- `Escrow::validator_balance`: the active and the expired stake of a validator. -/
def validatorBalance (self : Escrow) (validatorPkey epoch : ℕ) : ℤ × ℤ :=
  (self.iterValidatorStakes validatorPkey).foldl
    (fun (active, expired) (_, amount, _, activeUntilEpoch) =>
      if epoch ≤ activeUntilEpoch then (active + amount, expired) else (active, expired + amount))
    (0, 0)

/-- `Escrow::account_by_network_key`: the account of the first stake of a validator. -/
def accountByNetworkKey (self : Escrow) (validatorPkey : ℕ) : Option ℕ :=
  (self.iterValidatorStakes validatorPkey).head?.map fun (_, _, accountPkey, _) => accountPkey

/-- The active stake of each validator, by validator (`get_stakers`). -/
def getStakers (self : Escrow) (epoch : ℕ) : Std.ExtTreeMap ℕ ℤ compare :=
  self.escrow.map.foldl (fun stakes k v =>
    if v.activeUntilEpoch < epoch then stakes
    else stakes.insert k.validatorPkey ((stakes[k.validatorPkey]?.getD 0) + v.amount)) ∅

/-- `Escrow::get_stakers_majority`: the validators with an active stake of at
    least `minStakeAmount`, by key. -/
def getStakersMajority (self : Escrow) (epoch : ℕ) (minStakeAmount : ℤ) : StakersGroup :=
  (self.getStakers epoch).toList.filter fun (_, amount) => minStakeAmount ≤ amount

variable {Fr Pt : Type} [AddCommGroup Fr] [AddCommGroup Pt] (κ : Crypto Fr Pt)

/-- The staking balance of each validator that the inputs and outputs change,
    by validator; a stake output for a validator with stakes must pay back to
    its account (the first check of `validate_stakes`). -/
def stakingBalance (self : Escrow) (inputs outputs : List (Output Pt)) :
    Except Fault (Std.ExtTreeMap ℕ ℤ compare) := do
  let balance := inputs.foldl (fun (balance : Std.ExtTreeMap ℕ ℤ compare) input =>
    match input with
    | .StakeOutput o => balance.insert o.validator ((balance[o.validator]?.getD 0) - o.amount)
    | _ => balance) ∅
  outputs.foldlM (fun (balance : Std.ExtTreeMap ℕ ℤ compare) output =>
    match output with
    | .StakeOutput o => do
      if let some accountPkey := self.accountByNetworkKey o.validator then
        if accountPkey ≠ o.recipient then
          throw (.error (.StakeOutputWithDifferentAccountKey accountPkey o.recipient
            (κ.hashOutput output)))
      pure (balance.insert o.validator ((balance[o.validator]?.getD 0) + o.amount))
    | _ => pure balance) balance

/-- `Escrow::validate_stakes`: a stake output pays back to the account of the
    validator's stakes, and no validator spends active stake. Each stake
    output is checked against the escrow only, not against the other outputs. -/
def validateStakes (self : Escrow) (inputs outputs : List (Output Pt)) (epoch : ℕ) :
    Except Fault Unit := do
  let balance ← self.stakingBalance κ inputs outputs
  balance.toList.forM fun (validatorPkey, b) => do
    let (active, expired) := self.validatorBalance validatorPkey epoch
    let expected := active + expired + b
    if expected < active then throw (.error (.StakeIsLocked validatorPkey expected active))

/-- `Escrow::current_lsn`. -/
def currentLsn (self : Escrow) : LSN := self.escrow.currentLsn

/-- `Escrow::checkpoint`. -/
def checkpoint (self : Escrow) : Std.ExtTreeMap EscrowKey (Option EscrowValue) compare × Escrow :=
  let (patch, escrow) := self.escrow.checkpoint
  (patch, ⟨escrow⟩)

/-- `Escrow::rollback_to_lsn`. -/
def rollbackToLsn (self : Escrow) (toLsn : LSN) : Except Fault Escrow := do
  let escrow ← (self.escrow.rollbackToLsn toLsn).mapError .panic
  pure ⟨escrow⟩

end Escrow

end Stegos
