import Stegos.Blockchain.Step
import Stegos.Lib.Fresh

/-!
# The memory pool of transactions

The node keeps the transactions that wait for a block in a pool, by hash,
with two indexes: the transaction that claims each input, and the transaction
that creates each output (`mempool.rs`). A transaction enters the pool by
`push_tx`, which asserts that its hash, its inputs and its outputs are all new
to the pool and to the indexes; it leaves by `prune` (its inputs or outputs
were taken by a block) and comes back by `pop_micro_block` (its block was
reverted). The leader builds a micro block from the pool (`create_block`).

`push_tx` keeps its assertions exactly when the inputs and the output hashes
of the transaction are distinct, none is in the indexes, and the hash is not
in the pool (`pushTx_ok_iff`).

The `HashMap`s and `HashSet`s of the code are ordered maps and sets here: the
code iterates them in an order it does not fix, and the model takes the order
of the keys.
-/

namespace Stegos

/-- `Mempool`: the pool of transactions by hash, the transaction that claims
    each input, and the transaction that creates each output. -/
structure Mempool (Fr Pt : Type) where
  pool : Std.ExtTreeMap ℕ (Transaction Fr Pt) compare
  inputs : Std.ExtTreeMap ℕ ℕ compare
  outputs : Std.ExtTreeMap ℕ ℕ compare

namespace Mempool

variable {Fr Pt : Type} [AddCommGroup Fr] [AddCommGroup Pt] (κ : Crypto Fr Pt)

/-- `Mempool::new`. -/
def new : Mempool Fr Pt := ⟨∅, ∅, ∅⟩

/-- `Mempool::contains_input`. -/
def containsInput (self : Mempool Fr Pt) (inputHash : ℕ) : Bool := inputHash ∈ self.inputs

/-- `Mempool::contains_output`. -/
def containsOutput (self : Mempool Fr Pt) (outputHash : ℕ) : Bool := outputHash ∈ self.outputs

/-- `Mempool::contains_tx`. -/
def containsTx (self : Mempool Fr Pt) (txHash : ℕ) : Bool := txHash ∈ self.pool

/-- One input of `push_tx`: claimed by the transaction `txHash`, no claim
    there before (`assert!(exists.is_none())`). -/
def claimInput (txHash : ℕ) (inputs : Std.ExtTreeMap ℕ ℕ compare) (inputHash : ℕ) :
    Except Fault (Std.ExtTreeMap ℕ ℕ compare) :=
  if inputHash ∈ inputs then throw (.panic "assertion failed: exists.is_none()")
  else pure (inputs.insert inputHash txHash)

/-- One output of `push_tx`: created by the transaction `txHash`, by no
    transaction before. -/
def claimOutput (txHash : ℕ) (outputs : Std.ExtTreeMap ℕ ℕ compare) (output : Output Pt) :
    Except Fault (Std.ExtTreeMap ℕ ℕ compare) :=
  let outputHash := κ.hashOutput output
  if outputHash ∈ outputs then throw (.panic "assertion failed: exists.is_none()")
  else pure (outputs.insert outputHash txHash)

/-- `Mempool::push_tx`: the transaction queued with its inputs and outputs.
    (The `debug_assert_eq!` on the hash is left out: the callers pass the hash.) -/
def pushTx (self : Mempool Fr Pt) (txHash : ℕ) (tx : Transaction Fr Pt) :
    Except Fault (Mempool Fr Pt) := do
  let inputs ← tx.txins.foldlM (claimInput txHash) self.inputs
  let outputs ← tx.txouts.foldlM (claimOutput κ txHash) self.outputs
  if txHash ∈ self.pool then throw (.panic "assertion failed: exists.is_none()")
  pure { pool := self.pool.insert txHash tx, inputs, outputs }

theorem claimInput_eq (txHash : ℕ) (inputs : Std.ExtTreeMap ℕ ℕ compare) (inputHash : ℕ) :
    claimInput txHash inputs inputHash =
      if inputHash ∈ inputs then .error (.panic "assertion failed: exists.is_none()")
      else .ok (inputs.insert inputHash txHash) :=
  rfl

theorem claimOutput_eq (txHash : ℕ) (outputs : Std.ExtTreeMap ℕ ℕ compare) (output : Output Pt) :
    claimOutput κ txHash outputs output =
      if κ.hashOutput output ∈ outputs then .error (.panic "assertion failed: exists.is_none()")
      else .ok (outputs.insert (κ.hashOutput output) txHash) :=
  rfl

/-- `push_tx` keeps its assertions exactly when the inputs of the
    transaction are distinct and claimed by no transaction of the pool, its
    output hashes are distinct and created by none, and its hash is new. -/
theorem pushTx_ok_iff {self : Mempool Fr Pt} {txHash : ℕ} {tx : Transaction Fr Pt} :
    (∃ m, self.pushTx κ txHash tx = .ok m) ↔
      tx.txins.Nodup ∧ (∀ i ∈ tx.txins, i ∉ self.inputs) ∧
        (tx.txouts.map κ.hashOutput).Nodup ∧ (∀ o ∈ tx.txouts, κ.hashOutput o ∉ self.outputs) ∧
          txHash ∉ self.pool := by
  constructor
  · rintro ⟨m, h⟩
    obtain ⟨inputs, hI, h⟩ := Except.bind_eq_ok.1 h
    obtain ⟨outputs, hO, h⟩ := Except.bind_eq_ok.1 h
    obtain ⟨hInodup, hIfresh, -⟩ :=
      List.foldlM_fresh_ok (List.fresh_ok_of_eq_ite (claimInput_eq txHash))
        (fun _ _ _ => Std.ExtTreeMap.mem_insert_iff) hI
    obtain ⟨hOnodup, hOfresh, -⟩ :=
      List.foldlM_fresh_ok (List.fresh_ok_of_eq_ite (claimOutput_eq κ txHash))
        (fun _ _ _ => Std.ExtTreeMap.mem_insert_iff) hO
    -- the last assertion, on the pool
    have hpool : txHash ∉ self.pool := by
      intro hmem
      simp [hmem, throw, throwThe, MonadExceptOf.throw, bind, Except.bind] at h
    simp only [List.map_id'] at hInodup
    exact ⟨hInodup, hIfresh, hOnodup, hOfresh, hpool⟩
  · rintro ⟨hInodup, hIfresh, hOnodup, hOfresh, hpool⟩
    obtain ⟨inputs, hI⟩ :=
      List.foldlM_fresh_exists (List.fresh_exists_of_eq_ite (claimInput_eq txHash))
        (fun _ _ _ => Std.ExtTreeMap.mem_insert_iff) (by simpa using hInodup) hIfresh
    obtain ⟨outputs, hO⟩ :=
      List.foldlM_fresh_exists (List.fresh_exists_of_eq_ite (claimOutput_eq κ txHash))
        (fun _ _ _ => Std.ExtTreeMap.mem_insert_iff) hOnodup hOfresh
    exact ⟨⟨self.pool.insert txHash tx, inputs, outputs⟩,
      by simp [pushTx, hI, hO, hpool, bind, Except.bind, pure, Except.pure]⟩

/-- The claims of `hashes` removed from an index, with the transactions that
    made them (the first loops of `prune` and `pop_micro_block`). -/
def unclaim (index : Std.ExtTreeMap ℕ ℕ compare) (txHashes : Std.ExtTreeSet ℕ compare)
    (hashes : List ℕ) : Std.ExtTreeMap ℕ ℕ compare × Std.ExtTreeSet ℕ compare :=
  hashes.foldl (fun (index, txHashes) hash =>
    match index[hash]? with
    | some txHash => (index.erase hash, txHashes.insert txHash)
    | none => (index, txHashes)) (index, txHashes)

/-- The claims of a pruned transaction removed from an index: a claim left
    must be its own (`assert_eq!(tx_hash2, tx_hash)`). -/
def releaseClaims (txHash : ℕ) (index : Std.ExtTreeMap ℕ ℕ compare) (hashes : List ℕ) :
    Except Fault (Std.ExtTreeMap ℕ ℕ compare) :=
  hashes.foldlM (fun (index : Std.ExtTreeMap ℕ ℕ compare) hash => do
    if let some txHash2 := index[hash]? then
      check (txHash2 = txHash) "assertion failed: `(left == right)`"
    pure (index.erase hash)) index

/-- One transaction of `prune_txs`: out of the pool with its claims. -/
def pruneTx (acc : Mempool Fr Pt × Std.ExtTreeMap ℕ (Transaction Fr Pt) compare) (txHash : ℕ) :
    Except Fault (Mempool Fr Pt × Std.ExtTreeMap ℕ (Transaction Fr Pt) compare) := do
  let (self, txs) := acc
  let tx ← expect "transaction exists" self.pool[txHash]?
  let pool := self.pool.erase txHash
  let inputs ← releaseClaims txHash self.inputs tx.txins
  let outputs ← releaseClaims txHash self.outputs (tx.txouts.map κ.hashOutput)
  check (txHash ∉ txs) "assertion failed: txs.insert(tx_hash, tx).is_none()"
  pure (⟨pool, inputs, outputs⟩, txs.insert txHash tx)

/-- `Mempool::prune_txs`: the transactions removed, by hash. -/
def pruneTxs (self : Mempool Fr Pt) (txHashes : Std.ExtTreeSet ℕ compare) :
    Except Fault (Std.ExtTreeMap ℕ (Transaction Fr Pt) compare × Mempool Fr Pt) := do
  let (self, txs) ← txHashes.toList.foldlM (pruneTx κ) (self, ∅)
  pure (txs, self)

/-- `Mempool::prune`: the transactions that claim one of `inputHashes` or
    create one of `outputHashes` removed; each returned with whether all its
    inputs and outputs are among them (`full`). -/
def prune (self : Mempool Fr Pt) (inputHashes outputHashes : List ℕ) :
    Except Fault (Std.ExtTreeMap ℕ (Transaction Fr Pt × Bool) compare × Mempool Fr Pt) := do
  let inputSet : Std.ExtTreeSet ℕ compare := Std.ExtTreeSet.ofList inputHashes
  let outputSet : Std.ExtTreeSet ℕ compare := Std.ExtTreeSet.ofList outputHashes
  let (inputs, txHashes) := unclaim self.inputs ∅ inputSet.toList
  let (outputs, txHashes) := unclaim self.outputs txHashes outputSet.toList
  let (txs, self) ← pruneTxs κ { self with inputs, outputs } txHashes
  let statuses ← txs.toList.foldlM
    (fun (statuses : Std.ExtTreeMap ℕ (Transaction Fr Pt × Bool) compare) (hash, tx) => do
      let full := tx.txins.all (· ∈ inputSet) && tx.txouts.all (κ.hashOutput · ∈ outputSet)
      check (hash ∉ statuses) "assertion failed: statuses.insert(hash, (tx, full)).is_none()"
      pure (statuses.insert hash (tx, full))) ∅
  pure (statuses, self)

/-- `Mempool::pop_micro_block`: the transactions of a reverted block queued
    again, after the transactions that spend their outputs are removed. -/
def popMicroBlock (self : Mempool Fr Pt) (txs : List (Transaction Fr Pt)) :
    Except Fault (Mempool Fr Pt) := do
  let (inputs, txHashes) :=
    unclaim self.inputs ∅ ((txs.flatMap Transaction.txouts).map κ.hashOutput)
  let (_, self) ← pruneTxs κ { self with inputs } txHashes
  txs.foldlM (fun (self : Mempool Fr Pt) tx => self.pushTx κ (κ.hashTransaction tx) tx) self

/-! ### Micro blocks from the pool -/

/-- The priority of a transaction in `create_block`: re-stakes first
    (`i64::max_value()`), then by fee. -/
def priority : Transaction Fr Pt → ℤ
  | .RestakeTransaction _ => 2 ^ 63 - 1
  | tx => tx.fee

/-- The transactions of `create_block`, in order of priority, while the block
    has room for their inputs and outputs (the coinbase has one output); and
    their fees. -/
def selectTransactions (maxInputsInBlock maxOutputsInBlock : ℕ) :
    List (ℕ × Transaction Fr Pt) → ℕ → ℕ → ℤ → List (Transaction Fr Pt) →
      Except Fault (List (Transaction Fr Pt) × ℤ)
  | [], _, _, blockFee, transactions => pure (transactions, blockFee)
  | (txHash, tx) :: pool, inputsInBlock, outputsInBlock, blockFee, transactions =>
    match tx with
    | .CoinbaseTransaction _ | .ServiceAwardTransaction _ =>
      throw (.panic s!"Invalid transaction type in mempool: tx={txHash}")
    | _ =>
      if maxInputsInBlock ≤ inputsInBlock + tx.txins.length ∨
          maxOutputsInBlock ≤ outputsInBlock + tx.txouts.length then
        pure (transactions, blockFee)
      else
        selectTransactions maxInputsInBlock maxOutputsInBlock pool
          (inputsInBlock + tx.txins.length) (outputsInBlock + tx.txouts.length)
          (blockFee + tx.fee) (transactions ++ [tx])

/-- `Mempool::create_block`: a micro block of the pool's transactions, most
    valuable first (a stable sort), after a coinbase that pays the reward and
    the fees to `recipientPkey`. `withPayload` makes the payment output of an
    amount and its blinding factor (`PaymentOutput::with_payload`, random in
    the code). The block is not signed yet. -/
def createBlock (self : Mempool Fr Pt) (previous epoch offset viewChange : ℕ)
    (viewChangeProof : Option ViewChangeProof) (lastRandom solution : ℕ) (blockReward : ℤ)
    (recipientPkey networkSkey networkPkey maxInputsInBlock maxOutputsInBlock timestamp : ℕ)
    (withPayload : ℕ → ℤ → PaymentOutput Pt × Fr) : Except Fault (MicroBlock Fr Pt) := do
  let seed := κ.mix lastRandom viewChange
  let random := κ.makeVRF networkSkey seed
  let pool := self.pool.toList.insertionSort fun a b => priority b.2 ≤ priority a.2
  let (transactions, blockFee) ← selectTransactions maxInputsInBlock maxOutputsInBlock pool 0 1 0 []
  let amount := blockReward + blockFee
  let (txouts, gamma) :=
    if amount ≤ 0 then ([], (0 : Fr))
    else
      let (outputFee, gammaFee) := withPayload recipientPkey amount
      ([Output.PaymentOutput outputFee], -gammaFee)
  let coinbase : Transaction Fr Pt := .CoinbaseTransaction { blockReward, blockFee, gamma, txouts }
  pure (MicroBlock.new κ previous epoch offset viewChange viewChangeProof networkPkey random solution
    timestamp (coinbase :: transactions))

end Mempool

end Stegos
