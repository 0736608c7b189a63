import Stegos.Node.Mempool
import Stegos.Blockchain.Slashing

/-!
# The node

The node (`NodeService`, `node/src/lib.rs`) keeps the blockchain and the pool
of transactions, and changes them on its handlers: a transaction from the
network (`handle_transaction`, checked by `validate_external_transaction`), a
block applied (`apply_micro_block`, `apply_macro_block`), the last micro block
reverted (`pop_micro_block`), a cheating leader detected (`resolve_fork`
keeps the two blocks as a slashing proof), and, when the node leads, a new
micro block (`create_micro_block`). A handler that returns an error or panics
is not a step.

`push_tx` is called from three places. A transaction from the network is
checked against the pool first (`handleTransaction_pushTx_ok`: its push keeps
the assertions). A reverted transaction comes back after the transactions
that spend it are removed. A slashing transaction is made by the leader from
a proof, and pushed unchecked: when a transaction of the pool already spends
a stake of the cheater, `create_micro_block` panics on `push_tx`
(`createMicroBlock_pushTx_panics`).

A transaction of the pool is validated once, when it enters it, and later
only pruned when a block spends its inputs or creates its outputs. A stake
for a validator that a later block gives another account stays in the pool,
and the leader's next block fails `validate_stakes`: `create_micro_block`
panics on its own block (`createMicroBlock_stakes_diverge`).

* The validation state of the node (`MicroBlockValidator` and the others),
  its clocks, timers, metrics and messages are left out; `is_synchronized` is
  a field set by the environment.
* A handler that returns an error leaves the node as it found it here; the
  code keeps what it changed before the error.
-/

namespace Stegos

/-- `NodeTransactionError`. -/
inductive NodeTransactionError
  | InvalidType (tx : ℕ)
  | TooLowFee (tx : ℕ) (min got : ℤ)
  | AlreadyExists (tx : ℕ)
  | TooManyInputs (tx got max : ℕ)
  | TooManyOutputs (tx got max : ℕ)
  | MempoolIsFull (tx : ℕ)
  | NotSynchronized (tx : ℕ)
  deriving DecidableEq, Repr

/-- How a handler of the node ends when it does not return: a fault of the
    blockchain (a panic included), or an error of the node. -/
inductive NodeFault
  | fault (f : Fault)
  | node (e : NodeTransactionError)
  deriving DecidableEq, Repr

/-- The limits of the node that the handlers read (`NodeConfig`). -/
structure NodeConfig where
  minPaymentFee : ℤ
  minStakeFee : ℤ
  maxInputsInTx : ℕ
  maxOutputsInTx : ℕ
  maxInputsInMempool : ℕ
  maxOutputsInMempool : ℕ
  maxInputsInBlock : ℕ
  maxOutputsInBlock : ℕ

/-- `NodeService`: the parts of its state that the handlers read and change. -/
structure NodeService (Fr Pt : Type) where
  cfg : NodeConfig
  networkPkey : ℕ
  networkSkey : ℕ
  chain : Blockchain Fr Pt
  mempool : Mempool Fr Pt
  cheatingProofs : Std.ExtTreeMap ℕ SlashingProof compare
  synchronized : Bool

variable {Fr Pt : Type} [AddCommGroup Fr] [AddCommGroup Pt] [DecidableEq Fr] [DecidableEq Pt]
  (κ : Crypto Fr Pt)

/-- The fee `validate_external_transaction` asks for an output. -/
def minOutputFee (paymentFee stakeFee : ℤ) : Output Pt → ℤ
  | .PaymentOutput _ | .PublicPaymentOutput _ => paymentFee
  | .StakeOutput _ => stakeFee

/-- `validate_external_transaction`: a transaction from the network is new to
    the pool, pays the fee, spends unspent outputs that no transaction of the
    pool claims, creates outputs new to the pool and the chain, and is a valid
    payment or re-stake. -/
def validateExternalTransaction (tx : Transaction Fr Pt) (mempool : Mempool Fr Pt)
    (chain : Blockchain Fr Pt) (paymentFee stakeFee : ℤ) : Except NodeFault Unit := do
  let txHash := κ.hashTransaction tx
  if mempool.containsTx txHash then throw (.node (.AlreadyExists txHash))
  let minFee := (tx.txouts.map (minOutputFee paymentFee stakeFee)).sum
  if tx.fee < minFee then throw (.node (.TooLowFee txHash minFee tx.fee))
  let inputs ← tx.txins.mapM fun inputHash => do
    let some input ← (chain.outputByHash κ inputHash).mapError .fault
      | throw (.fault (.tx (.MissingInput txHash inputHash)))
    if mempool.containsInput inputHash then throw (.fault (.tx (.MissingInput txHash inputHash)))
    pure input
  tx.txouts.forM fun output => do
    let outputHash := κ.hashOutput output
    if mempool.containsOutput outputHash || chain.containsOutput outputHash then
      throw (.fault (.tx (.OutputHashCollision txHash outputHash)))
    (output.validate κ).mapError .fault
  match tx with
  -- the staking balance of a cheater is validated by the slashing itself
  | .SlashingTransaction _ => pure ()
  | _ => (chain.validateStakes κ inputs tx.txouts).mapError .fault
  match tx with
  | .RestakeTransaction tx => (tx.validate κ inputs).mapError .fault
  | .PaymentTransaction tx => (tx.validate κ inputs).mapError .fault
  | _ => throw (.fault (.tx (.ReceivedInvalidTransaction tx.toTypeStr)))

/-! ### Transactions from the network -/

section External

variable {κ}

omit [DecidableEq Fr] [DecidableEq Pt] in
theorem checkInput_ok {txHash : ℕ} {seen seen' : List ℕ} {entry : ℕ × Output Pt}
    (h : checkInput κ txHash seen entry = .ok seen') : entry.1 ∉ seen ∧ seen' = entry.1 :: seen := by
  obtain ⟨txinHash, txin⟩ := entry
  obtain ⟨⟨⟩, -, h⟩ := Except.bind_eq_ok.1 h
  by_cases hmem : txinHash ∈ seen
  · simp [hmem, throw, throwThe, MonadExceptOf.throw, bind, Except.bind] at h
  · simp only [hmem, if_false] at h
    exact ⟨hmem, (Except.ok.inj h).symm⟩

omit [DecidableEq Fr] [DecidableEq Pt] in
theorem checkOutput_ok {txHash : ℕ} {seen seen' : List ℕ} {txout : Output Pt}
    (h : checkOutput κ txHash seen txout = .ok seen') :
    κ.hashOutput txout ∉ seen ∧ seen' = κ.hashOutput txout :: seen := by
  by_cases hmem : κ.hashOutput txout ∈ seen
  · simp [checkOutput, hmem, throw, throwThe, MonadExceptOf.throw, bind, Except.bind] at h
  · simp only [checkOutput, hmem, if_false] at h
    exact ⟨hmem, (Except.ok.inj h).symm⟩

omit [DecidableEq Fr] [DecidableEq Pt] in
/-- The inputs of a transaction that passes `checkInputs` are distinct. -/
theorem checkInputs_nodup {txHash : ℕ} {txins : List ℕ} {inputs : List (Output Pt)}
    {seen : List ℕ} (h : checkInputs κ txHash txins inputs = .ok seen)
    (hlen : txins.length = inputs.length) : txins.Nodup := by
  have hok : ∀ (s : List ℕ) (a : ℕ × Output Pt) s', checkInput κ txHash s a = .ok s' →
      a.1 ∉ s ∧ s' = a.1 :: s := fun _ _ _ => checkInput_ok
  rw [checkInputs] at h
  have hnodup := (List.foldlM_fresh_ok hok (fun _ _ _ => List.mem_cons) h).1
  rwa [List.map_fst_zip hlen.le] at hnodup

omit [DecidableEq Fr] [DecidableEq Pt] in
/-- The output hashes of a transaction that passes `checkOutputs` are distinct. -/
theorem checkOutputs_nodup {txHash : ℕ} {txouts : List (Output Pt)} {seen : List ℕ}
    (h : checkOutputs κ txHash txouts = .ok seen) : (txouts.map κ.hashOutput).Nodup := by
  have hok : ∀ (s : List ℕ) (a : Output Pt) s', checkOutput κ txHash s a = .ok s' →
      κ.hashOutput a ∉ s ∧ s' = κ.hashOutput a :: s := fun _ _ _ => checkOutput_ok
  exact (List.foldlM_fresh_ok hok (fun _ _ _ => List.mem_cons) h).1

omit [DecidableEq Fr] in
/-- A valid payment spends distinct inputs and creates distinct outputs. -/
theorem PaymentTransaction.validate_nodup {tx : PaymentTransaction Fr Pt} {inputs : List (Output Pt)}
    (h : tx.validate κ inputs = .ok ()) : tx.txins.Nodup ∧ (tx.txouts.map κ.hashOutput).Nodup := by
  dsimp only [PaymentTransaction.validate] at h
  obtain ⟨⟨⟩, hlen, h⟩ := Except.bind_eq_ok.1 h
  obtain ⟨-, h⟩ := Except.ite_throw_bind_eq_ok.1 h
  obtain ⟨-, h⟩ := Except.ite_throw_bind_eq_ok.1 h
  obtain ⟨_, hin, h⟩ := Except.bind_eq_ok.1 h
  obtain ⟨_, hout, -⟩ := Except.bind_eq_ok.1 h
  exact ⟨checkInputs_nodup hin (by simpa [check] using hlen), checkOutputs_nodup hout⟩

omit [DecidableEq Fr] [DecidableEq Pt] in
/-- The hashes a step of the inputs of a re-stake keeps are those of `checkInput`. -/
theorem restakeInput_fst {txHash : ℕ} {seen : List ℕ} {acc : Option ℕ × ℤ} {entry : ℕ × Output Pt}
    {r : List ℕ × Option ℕ × ℤ} (h : restakeInput κ txHash (seen, acc) entry = .ok r) :
    checkInput κ txHash seen entry = .ok r.1 := by
  obtain ⟨seen', hseen, h⟩ := Except.bind_eq_ok.1 h
  obtain ⟨_, -, h⟩ := Except.bind_eq_ok.1 h
  cases h
  exact hseen

omit [DecidableEq Fr] [DecidableEq Pt] in
/-- The hashes a step of the outputs of a re-stake keeps are those of `checkOutput`. -/
theorem restakeOutput_fst {txHash : ℕ} {seen : List ℕ} {acc : Option ℕ × ℤ} {txout : Output Pt}
    {r : List ℕ × Option ℕ × ℤ} (h : restakeOutput κ txHash (seen, acc) txout = .ok r) :
    checkOutput κ txHash seen txout = .ok r.1 := by
  obtain ⟨seen', hseen, h⟩ := Except.bind_eq_ok.1 h
  obtain ⟨⟨⟩, -, h⟩ := Except.bind_eq_ok.1 h
  obtain ⟨_, -, h⟩ := Except.bind_eq_ok.1 h
  cases h
  exact hseen

omit [DecidableEq Fr] [DecidableEq Pt] in
/-- A valid re-stake spends distinct inputs and creates distinct outputs: its
    loops check them as `checkInputs` and `checkOutputs` do. -/
theorem RestakeTransaction.validate_nodup {tx : RestakeTransaction Pt} {inputs : List (Output Pt)}
    (h : tx.validate κ inputs = .ok ()) : tx.txins.Nodup ∧ (tx.txouts.map κ.hashOutput).Nodup := by
  dsimp only [RestakeTransaction.validate] at h
  obtain ⟨⟨⟩, hlen, h⟩ := Except.bind_eq_ok.1 h
  obtain ⟨-, h⟩ := Except.ite_throw_bind_eq_ok.1 h
  obtain ⟨⟨seen, owner, _⟩, hin, h⟩ := Except.bind_eq_ok.1 h
  cases owner
  · exact absurd h Except.throw_ne_ok
  · obtain ⟨⟨seen', _⟩, hout, -⟩ := Except.bind_eq_ok.1 h
    have hin' : checkInputs κ _ tx.txins inputs = .ok seen :=
      List.foldlM_except_fst (fun _ _ _ _ => restakeInput_fst) hin
    have hout' : checkOutputs κ _ tx.txouts = .ok seen' :=
      List.foldlM_except_fst (fun _ _ _ _ => restakeOutput_fst) hout
    exact ⟨checkInputs_nodup hin' (by simpa [check] using hlen), checkOutputs_nodup hout'⟩

omit [DecidableEq Fr] in
/-- What a transaction from the network that `validate_external_transaction`
    accepts is: new to the pool, its inputs claimed by no transaction of the
    pool, its outputs created by none, and a payment or re-stake, so with
    distinct inputs and outputs. -/
theorem validateExternalTransaction_ok {tx : Transaction Fr Pt} {mempool : Mempool Fr Pt}
    {chain : Blockchain Fr Pt} {paymentFee stakeFee : ℤ}
    (h : validateExternalTransaction κ tx mempool chain paymentFee stakeFee = .ok ()) :
    mempool.containsTx (κ.hashTransaction tx) = false ∧
      (∀ i ∈ tx.txins, mempool.containsInput i = false) ∧
      (∀ o ∈ tx.txouts, mempool.containsOutput (κ.hashOutput o) = false) ∧
      tx.txins.Nodup ∧ (tx.txouts.map κ.hashOutput).Nodup := by
  dsimp only [validateExternalTransaction] at h
  obtain ⟨hnew, h⟩ := Except.ite_throw_bind_eq_ok.1 h
  obtain ⟨-, h⟩ := Except.ite_throw_bind_eq_ok.1 h
  obtain ⟨inputs, hinputs, h⟩ := Except.bind_eq_ok.1 h
  obtain ⟨⟨⟩, houtputs, h⟩ := Except.bind_eq_ok.1 h
  refine ⟨by simpa using hnew, fun i hi => ?_, fun o ho => ?_, ?_⟩
  · -- an input that the pool claims is reported missing
    obtain ⟨_, hi⟩ := List.mapM_except_step_of_mem hinputs i hi
    obtain ⟨input?, -, hi⟩ := Except.bind_eq_ok.1 hi
    cases input?
    · exact absurd hi Except.throw_ne_ok
    · simpa using (Except.ite_throw_bind_eq_ok.1 hi).1
  · have ho := (Except.ite_throw_bind_eq_ok.1 (List.forM_except_ok_iff.1 houtputs o ho)).1
    simp only [Bool.or_eq_true, not_or, Bool.not_eq_true] at ho
    exact ho.1
  · -- only a payment or a re-stake gets past the last match
    cases tx with
    | PaymentTransaction tx =>
      obtain ⟨⟨⟩, -, h⟩ := Except.bind_eq_ok.1 h
      exact PaymentTransaction.validate_nodup (Except.mapError_eq_ok.1 h)
    | RestakeTransaction tx =>
      obtain ⟨⟨⟩, -, h⟩ := Except.bind_eq_ok.1 h
      exact RestakeTransaction.validate_nodup (Except.mapError_eq_ok.1 h)
    | SlashingTransaction tx => exact absurd h Except.throw_ne_ok
    | CoinbaseTransaction tx | ServiceAwardTransaction tx =>
      obtain ⟨⟨⟩, -, h⟩ := Except.bind_eq_ok.1 h
      exact absurd h Except.throw_ne_ok

omit [DecidableEq Fr] in
/-- The push of `handle_transaction` keeps the assertions of `push_tx`: what
    `validate_external_transaction` accepts can be queued. -/
theorem handleTransaction_pushTx_ok {tx : Transaction Fr Pt} {mempool : Mempool Fr Pt}
    {chain : Blockchain Fr Pt} {paymentFee stakeFee : ℤ}
    (h : validateExternalTransaction κ tx mempool chain paymentFee stakeFee = .ok ()) :
    ∃ m, mempool.pushTx κ (κ.hashTransaction tx) tx = .ok m := by
  obtain ⟨hnew, hin, hout, hInodup, hOnodup⟩ := validateExternalTransaction_ok h
  refine (Mempool.pushTx_ok_iff κ).2 ⟨hInodup, fun i hi => ?_, hOnodup, fun o ho => ?_, ?_⟩
  · simpa [Mempool.containsInput] using hin i hi
  · simpa [Mempool.containsOutput] using hout o ho
  · simpa [Mempool.containsTx] using hnew

end External

namespace NodeService

/-- `NodeService::handle_transaction`: a payment or a re-stake from the
    network, within the limits of the node (a re-stake without limits), is
    validated and queued. A node out of sync queues re-stakes only, and drops
    the invalid ones silently. -/
def handleTransaction (self : NodeService Fr Pt) (tx : Transaction Fr Pt) :
    Except NodeFault (NodeService Fr Pt) := do
  let txHash := κ.hashTransaction tx
  if !tx.isRestaking && !self.synchronized then throw (.node (.NotSynchronized txHash))
  let checkLimits ← match tx with
    | .PaymentTransaction _ => pure true
    | .RestakeTransaction _ => pure false
    | _ => throw (.node (.InvalidType txHash))
  if checkLimits then
    if self.cfg.maxInputsInTx < tx.txins.length then
      throw (.node (.TooManyInputs txHash tx.txins.length self.cfg.maxInputsInTx))
    if self.cfg.maxOutputsInTx < tx.txouts.length then
      throw (.node (.TooManyOutputs txHash tx.txouts.length self.cfg.maxOutputsInTx))
    if self.cfg.maxInputsInMempool < self.mempool.inputs.size ∨
        self.cfg.maxOutputsInMempool < self.mempool.outputs.size then
      throw (.node (.MempoolIsFull txHash))
  match validateExternalTransaction κ tx self.mempool self.chain self.cfg.minPaymentFee
      self.cfg.minStakeFee with
  | .error e => if !self.synchronized then pure self else throw e
  | .ok () =>
    let mempool ← (self.mempool.pushTx κ txHash tx).mapError .fault
    pure { self with mempool }

/-- `NodeService::apply_micro_block`: the outputs of the transactions not in
    the pool validated, the block validated and pushed, and the transactions
    that conflict with it pruned from the pool. -/
def applyMicroBlock (self : NodeService Fr Pt) (block : MicroBlock Fr Pt) (timestamp : ℕ) :
    Except NodeFault (NodeService Fr Pt) := do
  -- a transaction of the pool was validated when it entered it
  let outputs := block.transactions.flatMap fun tx =>
    match self.mempool.pool[κ.hashTransaction tx]? with
    | some tx2 =>
      if tx.txins.length = tx2.txins.length ∧ tx.txouts.length = tx2.txouts.length then []
      else tx.txouts
    | none => tx.txouts
  (outputs.forM (Output.validate κ)).mapError .fault
  (self.chain.validateMicroBlock κ block timestamp false).mapError .fault
  let ((inputs, outputs, _), chain) ← (self.chain.pushMicroBlock κ block timestamp).mapError .fault
  let (_, mempool) ← (self.mempool.prune κ inputs outputs.keys).mapError .fault
  pure { self with chain, mempool }

/-- `NodeService::pop_micro_block`: the last micro block reverted, its
    payments and re-stakes queued again. -/
def popMicroBlock (self : NodeService Fr Pt) : Except NodeFault (NodeService Fr Pt) := do
  let ((_, _, txs, _), chain) ← (self.chain.popMicroBlock κ).mapError .fault
  let mempool ← (self.mempool.popMicroBlock κ txs).mapError .fault
  pure { self with chain, mempool }

/-- `NodeService::apply_macro_block`: the multi-signature checked, the micro
    blocks of the epoch reverted, the block pushed, the pool pruned, and the
    cheating proofs of the epoch forgotten. -/
def applyMacroBlock (self : NodeService Fr Pt) (block : MacroBlock Fr Pt) (timestamp : ℕ) :
    Except NodeFault (NodeService Fr Pt) := do
  let hash := κ.hashMacroBlockHeader block.header
  let validators ← (self.chain.validatorsAtEpochStart).mapError .fault
  if !κ.checkMultiSignature hash block.multisig block.multisigmap validators
      self.chain.totalSlots then
    throw (.fault (.block (.InvalidBlockSignature block.header.epoch hash)))
  -- every pop reverts one micro block of the epoch
  let self ← (List.range self.chain.offset).foldlM (fun (self : NodeService Fr Pt) _ =>
    self.popMicroBlock κ) self
  (check (0 = self.chain.offset) "assertion failed: `(left == right)`").mapError .fault
  let ((inputs, outputs), chain) ← (self.chain.pushMacroBlock κ block timestamp).mapError .fault
  let (_, mempool) ← (self.mempool.prune κ inputs outputs.keys).mapError .fault
  pure { self with chain, mempool, cheatingProofs := ∅ }

/-- The slashing transactions of `create_micro_block`: for each cheater that
    is still a validator, the transaction that `confiscate_tx` makes is pushed
    to the pool. `serno` draws the serial numbers of its outputs (random in
    the code). -/
def pushSlashingTransactions (self : NodeService Fr Pt) (serno : ℕ → ℕ → ℤ) :
    Except NodeFault (Mempool Fr Pt) :=
  self.cheatingProofs.toList.foldlM (fun (mempool : Mempool Fr Pt) (cheater, proof) => do
    if !(← (self.chain.isValidator cheater).mapError .fault) then pure mempool
    else
      let slashTx ← (confiscateTx κ self.chain self.networkPkey proof (serno cheater)).mapError .fault
      let tx : Transaction Fr Pt := .SlashingTransaction slashTx
      (mempool.pushTx κ (κ.hashTransaction tx) tx).mapError .fault) self.mempool

/-- `NodeService::create_micro_block`: the leader's block, made of the pool
    with the slashing transactions of its cheating proofs, signed and applied.
    `timestamp` is the node's next block timestamp, `withPayload` and `serno`
    its random outputs. -/
def createMicroBlock (self : NodeService Fr Pt) (solution timestamp : ℕ)
    (withPayload : ℕ → ℤ → PaymentOutput Pt × Fr) (serno : ℕ → ℕ → ℤ) :
    Except NodeFault (NodeService Fr Pt) := do
  let leader ← (self.chain.leader κ).mapError .fault
  (check (leader = self.networkPkey) "assertion failed: `(left == right)`").mapError .fault
  (check (!self.chain.isEpochFull) "assertion failed: !self.chain.is_epoch_full()").mapError .fault
  let viewChange ← (self.chain.viewChange).mapError .fault
  let mempool ← self.pushSlashingTransactions κ serno
  let recipientPkey ← (expect "Staked" (self.chain.accountByNetworkKey self.networkPkey)).mapError .fault
  let lastRandom ← (self.chain.lastRandom).mapError .fault
  let block ← (mempool.createBlock κ self.chain.lastBlockHash self.chain.epoch self.chain.offset
    viewChange self.chain.viewChangeProof lastRandom solution self.chain.cfg.blockReward recipientPkey
    self.networkSkey self.networkPkey self.cfg.maxInputsInBlock self.cfg.maxOutputsInBlock
    timestamp withPayload).mapError .fault
  let block := block.sign κ self.networkPkey
  match { self with mempool }.applyMicroBlock κ block timestamp with
  | .ok self => pure self
  | .error (.fault (.panic text)) => throw (.fault (.panic text))
  | .error _ => throw (.fault (.panic "created a valid block"))

end NodeService

/-- The handlers of the node. -/
inductive NodeEvent (Fr Pt : Type)
  | handleTransaction (tx : Transaction Fr Pt)
  /-- `resolve_fork` found two blocks of one leader at one position. -/
  | detectCheater (proof : SlashingProof)
  | createMicroBlock (solution timestamp : ℕ) (withPayload : ℕ → ℤ → PaymentOutput Pt × Fr)
      (serno : ℕ → ℕ → ℤ)
  | applyMicroBlock (block : MicroBlock Fr Pt) (timestamp : ℕ)
  | popMicroBlock
  | applyMacroBlock (block : MacroBlock Fr Pt) (timestamp : ℕ)

namespace NodeService

/-- A handler of the node. A cheating proof is kept under the leader of its
    blocks; the proofs the node keeps are valid ones. -/
def step (self : NodeService Fr Pt) : NodeEvent Fr Pt → Except NodeFault (NodeService Fr Pt)
  | .handleTransaction tx => self.handleTransaction κ tx
  | .detectCheater proof => do
    (proof.validate κ self.chain).mapError .fault
    pure { self with
      cheatingProofs := self.cheatingProofs.insert proof.block1.header.pkey proof }
  | .createMicroBlock solution timestamp withPayload serno =>
    self.createMicroBlock κ solution timestamp withPayload serno
  | .applyMicroBlock block timestamp => self.applyMicroBlock κ block timestamp
  | .popMicroBlock => self.popMicroBlock κ
  | .applyMacroBlock block timestamp => self.applyMacroBlock κ block timestamp

end NodeService

/-! ### A slashing transaction that spends a stake the pool claims -/

namespace Scenario

/-- Limits that the scenario stays within. -/
def nodeConfig : NodeConfig := ⟨1, 0, 10, 10, 100, 100, 100, 100⟩

/-- The node of validator `1`, on the chain of the two validators. -/
def nodeStart : Except NodeFault (NodeService ℤ ℤ) :=
  (fun chain => ⟨nodeConfig, 1, 1, chain, .new, ∅, true⟩) <$> twoValidatorsStart.mapError .fault

/-- Validator `2` stakes its `50` again, spending its stake, output `2`. -/
def restakeTx : Transaction ℤ ℤ := .RestakeTransaction ⟨[2], [stake 101 2 50 20], ⟨2, 12002⟩⟩

/-- The payment output of the leader's block, with its random parts fixed. -/
def blockPayload : ℕ → ℤ → PaymentOutput ℤ × ℤ := fun r a => (⟨r, ⟨a, 30⟩, paymentPayloadLen⟩, 0)

end Scenario

/-- The node of validator `1` applies the block of validator `2`, learns that
    `2` cheated, and queues the re-stake of `2`, which spends the stake that
    the slashing transaction spends. Then its micro block panics on the
    assertion of `push_tx`, where it pushes the slashing transaction. -/
theorem createMicroBlock_pushTx_panics :
    ∃ n₀ n, Scenario.nodeStart = .ok n₀ ∧
      Transition.Reachable (· = n₀) (NodeService.step Scenario.crypto) n ∧
      (fun _ => ()) <$> n.pushSlashingTransactions Scenario.crypto (fun _ _ => 31) =
        .error (.fault (.panic "assertion failed: exists.is_none()")) ∧
      n.createMicroBlock Scenario.crypto 0 3 Scenario.blockPayload (fun _ _ => 31) =
        .error (.fault (.panic "assertion failed: exists.is_none()")) := by
  have htest : (Scenario.nodeStart.toOption.bind fun n₀ =>
      (Transition.run (NodeService.step Scenario.crypto) n₀
        [.applyMicroBlock Scenario.cheaterBlock 2, .detectCheater Scenario.cheaterProof,
          .handleTransaction Scenario.restakeTx]).toOption.map fun n =>
        decide ((fun _ => ()) <$> n.pushSlashingTransactions Scenario.crypto (fun _ _ => 31) =
            .error (.fault (.panic "assertion failed: exists.is_none()")) ∧
          (fun _ => ()) <$> n.createMicroBlock Scenario.crypto 0 3 Scenario.blockPayload
            (fun _ _ => 31) = .error (.fault (.panic "assertion failed: exists.is_none()")))) =
        some true := by
    decide +kernel
  obtain ⟨n₀, n, h₀, hn, h⟩ := Transition.Reachable.of_run_test htest
  obtain ⟨hpush, hcreate⟩ := of_decide_eq_true h
  exact ⟨n₀, n, h₀, hn, hpush, Except.map_eq_error.1 hcreate⟩

/-! ### A pooled stake that a block makes invalid -/

namespace Scenario

/-- The genesis block: validator `1` stakes `50` for account `100`; accounts
    `200` and `201` hold `500` each. -/
def twoPaymentsGenesis : MacroBlock ℤ ℤ :=
  MacroBlock.new crypto 0 0 0 1 ⟨7, 0⟩ 0 1 0 (-1050) [] [(1, 1)] []
    [stake 100 1 50 1, payment 200 500 2, payment 201 500 3]

/-- The node of validator `1`, the only validator, on the chain of
    `twoPaymentsGenesis`, with room for one transaction in a block. -/
def stakeRaceStart : Except NodeFault (NodeService ℤ ℤ) :=
  (fun chain => ⟨{ nodeConfig with maxOutputsInBlock := 3 }, 1, 1, chain, .new, ∅, true⟩) <$>
    (Blockchain.new crypto config .None twoPaymentsGenesis 1).mapError .fault

/-- Account `200` stakes `499` for the new validator `9`, paying back to
    account `301`, with a fee of `1`. -/
def stakeFor301 : Transaction ℤ ℤ := .PaymentTransaction ⟨[2], [stake 301 9 499 4], 0, 1, 0⟩

/-- Account `201` stakes `500` for validator `9`, paying back to account `300`. -/
def stakeFor300 : Transaction ℤ ℤ := .PaymentTransaction ⟨[3], [stake 300 9 500 5], 0, 0, 0⟩

/-- The payment output of the leader's block, with its random parts fixed to `id`. -/
def payloadWith (id : ℕ) : ℕ → ℤ → PaymentOutput ℤ × ℤ :=
  fun r a => (⟨r, ⟨a, id⟩, paymentPayloadLen⟩, 0)

end Scenario

/-- The node of the only validator queues two stakes for validator `9`
    with different accounts, both valid against its chain. Its first block
    takes one of them, and the pool keeps the other, which shares no input or
    output with it. The second block fails `validate_stakes`
    (`StakeOutputWithDifferentAccountKey`), and `create_micro_block` panics. -/
theorem createMicroBlock_stakes_diverge :
    ∃ n₀ n, Scenario.stakeRaceStart = .ok n₀ ∧
      Transition.Reachable (· = n₀) (NodeService.step Scenario.crypto) n ∧
      n.createMicroBlock Scenario.crypto 0 3 (Scenario.payloadWith 31) (fun _ _ => 0) =
        .error (.fault (.panic "created a valid block")) := by
  have htest : (Scenario.stakeRaceStart.toOption.bind fun n₀ =>
      (Transition.run (NodeService.step Scenario.crypto) n₀
        [.handleTransaction Scenario.stakeFor301, .handleTransaction Scenario.stakeFor300,
          .createMicroBlock 0 2 (Scenario.payloadWith 30) (fun _ _ => 0)]).toOption.map fun n =>
        decide ((fun _ => ()) <$> n.createMicroBlock Scenario.crypto 0 3 (Scenario.payloadWith 31)
            (fun _ _ => 0) = .error (.fault (.panic "created a valid block")))) =
        some true := by
    decide +kernel
  obtain ⟨n₀, n, h₀, hn, h⟩ := Transition.Reachable.of_run_test htest
  exact ⟨n₀, n, h₀, hn, Except.map_eq_error.1 (of_decide_eq_true h)⟩

end Stegos
