import Stegos.Blockchain.Register
import Stegos.Lib.Except
import Stegos.Lib.Fresh

/-!
# What applying a block writes

The blockchain writes its six multi-versioned maps at the position of the
block it applies, and keeps the rest of its state but for the fields the
block moves. This module says so of each step of `register_micro_block` and
`register_inputs_and_outputs` (`IndexesWrittenAt`: every map written at the
position, every other field kept), and reads back what the steps read and
collect: the inputs a block spends are read from the unspent outputs, and
the outputs it creates are stored under keys at which its block holds them.

The outputs are read by key (`outputByKey`, the body of `output_by_hash`),
from the block at the key's position only (`outputByKey_congr`).
-/

namespace Stegos

open MultiVersionedMap

/-- The position of the block that holds the output under a key. -/
def OutputKey.lsn : OutputKey → LSN
  | .MacroBlock epoch _ => ⟨epoch, macroBlockOffset⟩
  | .MicroBlock epoch offset _ _ => ⟨epoch, offset⟩

/-! ### The escrow -/

namespace Escrow

variable {self self' : Escrow} {lsn : LSN} {validatorPkey accountPkey outputHash epoch stakesEpoch : ℕ}
  {amount : ℤ}

/-- A stake is a write at `lsn` of a key that was not there. -/
theorem stake_eq_ok
    (h : self.stake lsn validatorPkey accountPkey outputHash epoch stakesEpoch amount = .ok self') :
    WrittenAt lsn self.escrow self'.escrow ∧ self.escrow.map[(⟨validatorPkey, outputHash⟩ : EscrowKey)]? = none ∧
      self'.escrow.map = self.escrow.map.insert ⟨validatorPkey, outputHash⟩
        ⟨accountPkey, epoch + stakesEpoch, amount⟩ := by
  obtain ⟨⟨prev, escrow⟩, hins, h⟩ := Except.bind_eq_ok.1 h
  have hins := Except.mapError_eq_ok.1 hins
  obtain ⟨-, hprev, rfl⟩ := insert_eq_ok hins
  cases prev with
  | some _ => exact absurd h Except.throw_ne_ok
  | none =>
    cases h
    exact ⟨WrittenAt.of_insert hins, hprev.symm, rfl⟩

/-- An unstake is a write at `lsn` that erases a key that was there. -/
theorem unstake_eq_ok (h : self.unstake lsn validatorPkey outputHash = .ok self') :
    WrittenAt lsn self.escrow self'.escrow ∧ (⟨validatorPkey, outputHash⟩ : EscrowKey) ∈ self.escrow.map ∧
      self'.escrow.map = self.escrow.map.erase ⟨validatorPkey, outputHash⟩ := by
  obtain ⟨⟨prev, escrow⟩, hrem, h⟩ := Except.bind_eq_ok.1 h
  have hrem := Except.mapError_eq_ok.1 hrem
  obtain ⟨-, hprev, rfl⟩ := remove_eq_ok hrem
  obtain ⟨x, hx, h⟩ := Except.bind_eq_ok.1 h
  cases h
  refine ⟨WrittenAt.of_remove hrem, ?_, rfl⟩
  cases prev with
  | none => cases hx
  | some v => exact Std.ExtTreeMap.mem_iff_isSome_getElem?.2 (by simp [← hprev])

end Escrow

/-! ### The unspent outputs and the stakes of a block -/

namespace Blockchain

section Indexes

variable {Fr Pt : Type} {lsn : LSN} {s s' s'' : Blockchain Fr Pt}

/-- `s'` is `s` with its six multi-versioned maps written at `lsn`; every other
    field is kept. -/
structure IndexesWrittenAt (lsn : LSN) (s s' : Blockchain Fr Pt) : Prop where
  eq : s' = { s with
    blockByHash := s'.blockByHash
    outputByHashMap := s'.outputByHashMap
    balanceMap := s'.balanceMap
    escrow := s'.escrow
    electionResultList := s'.electionResultList
    epochActivity := s'.epochActivity }
  blockByHash : WrittenAt lsn s.blockByHash s'.blockByHash
  outputByHashMap : WrittenAt lsn s.outputByHashMap s'.outputByHashMap
  balanceMap : WrittenAt lsn s.balanceMap s'.balanceMap
  escrow : WrittenAt lsn s.escrow.escrow s'.escrow.escrow
  electionResultList : WrittenAt lsn s.electionResultList s'.electionResultList
  epochActivity : WrittenAt lsn s.epochActivity s'.epochActivity

namespace IndexesWrittenAt

@[refl]
theorem refl (lsn : LSN) (s : Blockchain Fr Pt) : IndexesWrittenAt lsn s s :=
  ⟨rfl, .refl _ _, .refl _ _, .refl _ _, .refl _ _, .refl _ _, .refl _ _⟩

theorem trans (h₁ : IndexesWrittenAt lsn s s') (h₂ : IndexesWrittenAt lsn s' s'') :
    IndexesWrittenAt lsn s s'' where
  eq := by conv_lhs => rw [h₂.eq, h₁.eq]
  blockByHash := h₁.blockByHash.trans h₂.blockByHash
  outputByHashMap := h₁.outputByHashMap.trans h₂.outputByHashMap
  balanceMap := h₁.balanceMap.trans h₂.balanceMap
  escrow := h₁.escrow.trans h₂.escrow
  electionResultList := h₁.electionResultList.trans h₂.electionResultList
  epochActivity := h₁.epochActivity.trans h₂.epochActivity

/-- Only the election result written. -/
theorem of_electionResultList
    (heq : s' = { s with electionResultList := s'.electionResultList })
    (h : WrittenAt lsn s.electionResultList s'.electionResultList) : IndexesWrittenAt lsn s s' := by
  rw [heq]
  exact ⟨rfl, .refl _ _, .refl _ _, .refl _ _, .refl _ _, h, .refl _ _⟩

/-- Only the activity of the epoch written. -/
theorem of_epochActivity (heq : s' = { s with epochActivity := s'.epochActivity })
    (h : WrittenAt lsn s.epochActivity s'.epochActivity) : IndexesWrittenAt lsn s s' := by
  rw [heq]
  exact ⟨rfl, .refl _ _, .refl _ _, .refl _ _, .refl _ _, .refl _ _, h⟩

theorem database (h : IndexesWrittenAt lsn s s') : s'.database = s.database := by rw [h.eq]

theorem epoch (h : IndexesWrittenAt lsn s s') : s'.epoch = s.epoch := by rw [h.eq]

theorem offset (h : IndexesWrittenAt lsn s s') : s'.offset = s.offset := by rw [h.eq]

theorem cfg (h : IndexesWrittenAt lsn s s') : s'.cfg = s.cfg := by rw [h.eq]

end IndexesWrittenAt

end Indexes

section Spend

variable {Fr Pt : Type} [AddCommGroup Fr] [AddCommGroup Pt] {κ : Crypto Fr Pt} {epoch stakeEpochs blockHash : ℕ} {lsn : LSN}
  {U U' : MultiVersionedMap ℕ OutputKey LSN} {E E' : Escrow} {c c' : Pt}

/-- A spent input: its output was unspent and no longer is, and the stake of a
    stake output leaves the escrow. -/
theorem spendInput_eq_ok {inputHash : ℕ} {input : Output Pt}
    (h : spendInput κ epoch lsn blockHash (U, E, c) inputHash input = .ok (U', E', c')) :
    inputHash ∈ U.map ∧ WrittenAt lsn U U' ∧ U'.map = U.map.erase inputHash ∧
      match input with
      | .StakeOutput o =>
        WrittenAt lsn E.escrow E'.escrow ∧ (⟨o.validator, inputHash⟩ : EscrowKey) ∈ E.escrow.map ∧
          E'.escrow.map = E.escrow.map.erase ⟨o.validator, inputHash⟩
      | _ => E' = E := by
  obtain ⟨⟨prev, U₁⟩, hrem, h⟩ := Except.bind_eq_ok.1 h
  have hrem := Except.mapError_eq_ok.1 hrem
  obtain ⟨-, hprev, rfl⟩ := remove_eq_ok hrem
  obtain ⟨hsome, h⟩ := Except.ite_throw_bind_eq_ok.1 h
  have hmem : inputHash ∈ U.map := by
    rw [Std.ExtTreeMap.mem_iff_isSome_getElem?, ← hprev, Option.isSome_iff_ne_none]
    simpa using hsome
  cases input with
  | StakeOutput o =>
    obtain ⟨E₁, hun, h⟩ := Except.bind_eq_ok.1 h
    obtain ⟨⟨⟩, -, h⟩ := Except.bind_eq_ok.1 h
    cases h
    exact ⟨hmem, WrittenAt.of_remove hrem, rfl, Escrow.unstake_eq_ok hun⟩
  | PaymentOutput o | PublicPaymentOutput o =>
    cases h
    exact ⟨hmem, WrittenAt.of_remove hrem, rfl, rfl⟩

/-- A created output: it was not unspent and now is, at its key, and the stake
    of a stake output enters the escrow. -/
theorem createOutput_eq_ok {outputHash : ℕ} {output : Output Pt} {key : OutputKey}
    (h : createOutput κ epoch stakeEpochs lsn blockHash (U, E, c) outputHash (output, key) =
      .ok (U', E', c')) :
    outputHash ∉ U.map ∧ WrittenAt lsn U U' ∧ U'.map = U.map.insert outputHash key ∧
      match output with
      | .StakeOutput o =>
        WrittenAt lsn E.escrow E'.escrow ∧
          E'.escrow.map = E.escrow.map.insert ⟨o.validator, outputHash⟩
            ⟨o.recipient, epoch + stakeEpochs, o.amount⟩
      | _ => E' = E := by
  obtain ⟨⟨prev, U₁⟩, hins, h⟩ := Except.bind_eq_ok.1 h
  have hins := Except.mapError_eq_ok.1 hins
  obtain ⟨-, hprev, rfl⟩ := insert_eq_ok hins
  obtain ⟨hnone, h⟩ := Except.ite_throw_bind_eq_ok.1 h
  obtain ⟨⟨⟩, -, h⟩ := Except.bind_eq_ok.1 h
  have hfresh : outputHash ∉ U.map := by
    rw [Std.ExtTreeMap.mem_iff_isSome_getElem?, ← hprev]
    simpa using hnone
  cases output with
  | StakeOutput o =>
    obtain ⟨E₁, hst, h⟩ := Except.bind_eq_ok.1 h
    obtain ⟨⟨⟩, -, h⟩ := Except.bind_eq_ok.1 h
    cases h
    obtain ⟨hw, -, hmap⟩ := Escrow.stake_eq_ok hst
    exact ⟨hfresh, WrittenAt.of_insert hins, rfl, hw, hmap⟩
  | PaymentOutput o | PublicPaymentOutput o =>
    cases h
    exact ⟨hfresh, WrittenAt.of_insert hins, rfl, rfl⟩

theorem spendInput_writes {inputHash : ℕ} {input : Output Pt}
    (h : spendInput κ epoch lsn blockHash (U, E, c) inputHash input = .ok (U', E', c')) :
    WrittenAt lsn U U' ∧ WrittenAt lsn E.escrow E'.escrow := by
  obtain ⟨-, hU, -, hE⟩ := spendInput_eq_ok h
  cases input with
  | StakeOutput o => exact ⟨hU, hE.1⟩
  | PaymentOutput o | PublicPaymentOutput o => rw [hE]; exact ⟨hU, .refl _ _⟩

theorem createOutput_writes {outputHash : ℕ} {output : Output Pt} {key : OutputKey}
    (h : createOutput κ epoch stakeEpochs lsn blockHash (U, E, c) outputHash (output, key) =
      .ok (U', E', c')) :
    WrittenAt lsn U U' ∧ WrittenAt lsn E.escrow E'.escrow := by
  obtain ⟨-, hU, -, hE⟩ := createOutput_eq_ok h
  cases output with
  | StakeOutput o => exact ⟨hU, hE.1⟩
  | PaymentOutput o | PublicPaymentOutput o => rw [hE]; exact ⟨hU, .refl _ _⟩

/-- The inputs of a block are spent by writes at its position. -/
theorem foldlM_spendInput_writes {inputs : Std.ExtTreeMap ℕ (Output Pt) compare}
    (h : inputs.foldlM (spendInput κ epoch lsn blockHash) (U, E, c) = .ok (U', E', c')) :
    WrittenAt lsn U U' ∧ WrittenAt lsn E.escrow E'.escrow := by
  rw [Std.ExtTreeMap.foldlM_eq_foldlM_toList] at h
  refine List.foldlM_except_induction
    (fun acc => WrittenAt lsn U acc.1 ∧ WrittenAt lsn E.escrow acc.2.1.escrow) ?_ h
    ⟨.refl _ _, .refl _ _⟩
  rintro ⟨inputHash, input⟩ - ⟨U₁, E₁, c₁⟩ ⟨U₂, E₂, c₂⟩ ⟨hU, hE⟩ hstep
  obtain ⟨hU', hE'⟩ := spendInput_writes hstep
  exact ⟨hU.trans hU', hE.trans hE'⟩

/-- The outputs of a block are created by writes at its position. -/
theorem foldlM_createOutput_writes {outputs : Std.ExtTreeMap ℕ (Output Pt × OutputKey) compare}
    (h : outputs.foldlM (createOutput κ epoch stakeEpochs lsn blockHash) (U, E, c) = .ok (U', E', c')) :
    WrittenAt lsn U U' ∧ WrittenAt lsn E.escrow E'.escrow := by
  rw [Std.ExtTreeMap.foldlM_eq_foldlM_toList] at h
  refine List.foldlM_except_induction
    (fun acc => WrittenAt lsn U acc.1 ∧ WrittenAt lsn E.escrow acc.2.1.escrow) ?_ h
    ⟨.refl _ _, .refl _ _⟩
  rintro ⟨outputHash, output, key⟩ - ⟨U₁, E₁, c₁⟩ ⟨U₂, E₂, c₂⟩ ⟨hU, hE⟩ hstep
  obtain ⟨hU', hE'⟩ := createOutput_writes hstep
  exact ⟨hU.trans hU', hE.trans hE'⟩

/-- Spending inputs leaves unspent only outputs that were. -/
theorem foldlM_spendInput_getElem? {inputs : Std.ExtTreeMap ℕ (Output Pt) compare}
    (h : inputs.foldlM (spendInput κ epoch lsn blockHash) (U, E, c) = .ok (U', E', c'))
    {outputHash : ℕ} {key : OutputKey} (hk : U'.map[outputHash]? = some key) :
    U.map[outputHash]? = some key := by
  rw [Std.ExtTreeMap.foldlM_eq_foldlM_toList] at h
  refine List.foldlM_except_induction
    (fun acc => ∀ outputHash key, acc.1.map[outputHash]? = some key → U.map[outputHash]? = some key)
    ?_ h (fun _ _ => id) outputHash key hk
  rintro ⟨inputHash, input⟩ - ⟨U₁, E₁, c₁⟩ ⟨U₂, E₂, c₂⟩ hsub hstep outputHash key hk
  obtain ⟨-, -, hU, -⟩ := spendInput_eq_ok hstep
  rw [hU, Std.ExtTreeMap.getElem?_erase_eq_some] at hk
  exact hsub _ _ hk.2

/-- Creating outputs leaves unspent the outputs that were, and the created
    ones under their keys. -/
theorem foldlM_createOutput_getElem? {outputs : Std.ExtTreeMap ℕ (Output Pt × OutputKey) compare}
    (h : outputs.foldlM (createOutput κ epoch stakeEpochs lsn blockHash) (U, E, c) = .ok (U', E', c'))
    {outputHash : ℕ} {key : OutputKey} (hk : U'.map[outputHash]? = some key) :
    U.map[outputHash]? = some key ∨ ∃ output, outputs[outputHash]? = some (output, key) := by
  rw [Std.ExtTreeMap.foldlM_eq_foldlM_toList] at h
  refine List.foldlM_except_induction
    (fun acc => ∀ outputHash key, acc.1.map[outputHash]? = some key →
      U.map[outputHash]? = some key ∨ ∃ output, outputs[outputHash]? = some (output, key))
    ?_ h (fun _ _ => .inl) outputHash key hk
  rintro ⟨outputHash', output, key'⟩ hmem ⟨U₁, E₁, c₁⟩ ⟨U₂, E₂, c₂⟩ hsub hstep outputHash key hk
  obtain ⟨-, -, hU, -⟩ := createOutput_eq_ok hstep
  rw [hU, Std.ExtTreeMap.getElem?_insert_eq_some] at hk
  rcases hk with ⟨rfl, rfl⟩ | ⟨-, hk⟩
  · exact .inr ⟨output, Std.ExtTreeMap.mem_toList_iff_getElem?_eq_some.1 hmem⟩
  · exact hsub _ _ hk

end Spend

/-! ### Reading the unspent outputs -/

section Read

variable {Fr Pt : Type} [AddCommGroup Fr] [AddCommGroup Pt] (κ : Crypto Fr Pt)

/-- The output stored under a key of the unspent outputs, read from its block
    as `output_by_hash` reads it. -/
def outputByKey (self : Blockchain Fr Pt) : OutputKey → Except Fault (Option (Output Pt))
  | .MacroBlock epoch outputId => do
    let block ← self.macroBlock κ epoch
    check (block.header.epoch = epoch) "assertion failed: `(left == right)`"
    pure block.outputs[outputId]?
  | .MicroBlock epoch offset txId txoutId => do
    let block ← self.microBlock κ epoch offset
    let tx ← expect "Corrupted outputs_by_hash (Micro-2)" block.transactions[txId]?
    let output ← expect "Corrupted outputs_by_hash (Micro-3)" tx.txouts[txoutId]?
    pure (some output)

variable {κ} {s s' : Blockchain Fr Pt} {key : OutputKey}

theorem outputByHash_eq (s : Blockchain Fr Pt) (outputHash : ℕ) :
    s.outputByHash κ outputHash = match s.outputByHashMap.map[outputHash]? with
      | some key => s.outputByKey κ key
      | none => pure none := by
  cases hk : s.outputByHashMap.map[outputHash]? with
  | none => simp [outputByHash, MultiVersionedMap.get, hk]
  | some key => cases key <;> simp [outputByHash, outputByKey, MultiVersionedMap.get, hk]

/-- A key is read from the block at its position only. -/
theorem outputByKey_congr (h : s'.database[key.lsn]? = s.database[key.lsn]?) :
    s'.outputByKey κ key = s.outputByKey κ key := by
  cases key <;> simp_all [outputByKey, OutputKey.lsn, macroBlock, microBlock, block]

/-- A key that is read has a block at its position. -/
theorem outputByKey_mem {x : Option (Output Pt)} (h : s.outputByKey κ key = .ok x) :
    key.lsn ∈ s.database := by
  rw [Std.ExtTreeMap.mem_iff_isSome_getElem?]
  cases key <;>
  · cases hb : s.database[OutputKey.lsn _]? with
    | none => simp_all [outputByKey, OutputKey.lsn, macroBlock, microBlock, block, expect, bind,
        Except.bind]
    | some _ => rfl

/-- An output of a micro block on the disk is read under its key. -/
theorem outputByKey_micro {epoch offset txId txoutId : ℕ} {b : MicroBlock Fr Pt}
    {tx : Transaction Fr Pt} {output : Output Pt}
    (hb : s.database[(⟨epoch, offset⟩ : LSN)]? = some (.MicroBlock b))
    (htx : b.transactions[txId]? = some tx) (ho : tx.txouts[txoutId]? = some output) :
    s.outputByKey κ (.MicroBlock epoch offset txId txoutId) = .ok (some output) := by
  simp [outputByKey, microBlock, block, hb, htx, ho, expect, bind, Except.bind, pure, Except.pure]

/-- An output of a macro block on the disk is read under its key. -/
theorem outputByKey_macro {epoch outputId : ℕ} {b : MacroBlock Fr Pt}
    (hb : s.database[(⟨epoch, macroBlockOffset⟩ : LSN)]? = some (.MacroBlock b))
    (he : b.header.epoch = epoch) :
    s.outputByKey κ (.MacroBlock epoch outputId) = .ok b.outputs[outputId]? := by
  simp [outputByKey, macroBlock, block, hb, he, check, expect, bind, Except.bind, pure, Except.pure]

/-- Storing a block at a free position changes no read of a key that points
    at a stored block. -/
theorem outputByKey_writeBlock {lsn : LSN} {blk : Block Fr Pt} (hfree : s.database[lsn]? = none)
    (hkey : key.lsn ∈ s.database) : (s.writeBlock lsn blk).outputByKey κ key = s.outputByKey κ key := by
  apply outputByKey_congr
  have hne : lsn ≠ key.lsn := by
    rintro rfl
    rw [Std.ExtTreeMap.mem_iff_isSome_getElem?, hfree] at hkey
    cases hkey
  simp [writeBlock, Std.ExtTreeMap.getElem?_insert, hne]

end Read

section Steps

variable {Fr Pt : Type} [AddCommGroup Fr] [AddCommGroup Pt] {κ : Crypto Fr Pt} {lsn : LSN}
  {s s' : Blockchain Fr Pt}

/-- The leaders of `register_micro_block` write the activity of the epoch, at
    `lsn`, and nothing else. -/
theorem registerLeaders_eq_ok {viewChange : ℕ} (h : s.registerLeaders κ lsn viewChange = .ok s') :
    s' = { s with epochActivity := s'.epochActivity } ∧
      WrittenAt lsn s.epochActivity s'.epochActivity := by
  obtain ⟨s₁, hfold, h⟩ := Except.bind_eq_ok.1 h
  -- the skipped leaders: each a write of the activity
  have h₁ : s₁ = { s with epochActivity := s₁.epochActivity } ∧
      WrittenAt lsn s.epochActivity s₁.epochActivity := by
    refine List.foldlM_except_induction (fun x : Blockchain Fr Pt =>
      x = { s with epochActivity := x.epochActivity } ∧ WrittenAt lsn s.epochActivity x.epochActivity)
      ?_ hfold ⟨rfl, .refl _ _⟩
    rintro _ - x y ⟨hx, hwx⟩ hstep
    obtain ⟨leader, -, hstep⟩ := Except.bind_eq_ok.1 hstep
    obtain ⟨⟨r, epochActivity⟩, hins, hstep⟩ := Except.bind_eq_ok.1 hstep
    cases hstep
    exact ⟨by rw [hx], hwx.trans (.of_insert (Except.mapError_eq_ok.1 hins))⟩
  obtain ⟨leader, -, h⟩ := Except.bind_eq_ok.1 h
  split at h
  · obtain ⟨⟨r, epochActivity⟩, hins, h⟩ := Except.bind_eq_ok.1 h
    cases h
    exact ⟨by rw [h₁.1], h₁.2.trans (.of_insert (Except.mapError_eq_ok.1 hins))⟩
  · cases h
    exact h₁

/-- The outputs of a macro block, keyed by their position in it. -/
theorem macroBlockOutputs_eq_ok {epoch : ℕ} {outs : List (Output Pt)}
    {outputs : Std.ExtTreeMap ℕ (Output Pt × OutputKey) compare}
    (h : macroBlockOutputs κ epoch outs = .ok outputs) {outputHash : ℕ} {output : Output Pt}
    {key : OutputKey} (ho : outputs[outputHash]? = some (output, key)) :
    ∃ outputId, key = .MacroBlock epoch outputId ∧ outs[outputId]? = some output := by
  obtain ⟨-, hnew, -⟩ := List.foldlM_insert_values (fun e : Output Pt × ℕ => κ.hashOutput e.1)
    (fun _ (e : Output Pt × OutputKey) =>
      ∃ outputId, e.2 = .MacroBlock epoch outputId ∧ outs[outputId]? = some e.1)
    (fun ⟨output, outputId⟩ ha m m' hm => by
      obtain ⟨hfresh, hm⟩ := Except.ite_throw_bind_eq_ok.1 hm
      cases hm
      exact ⟨_, Std.ExtTreeMap.getElem?_eq_none hfresh,
        ⟨outputId, rfl, List.mem_zipIdx_iff_getElem?.1 ha⟩, rfl⟩) h
  rcases hnew outputHash (output, key) ho with ho | ho
  · simp at ho
  · exact ho

/-- The inputs of a macro block: the ones it spends are read from the unspent
    outputs, and the outputs it keeps are among its own. -/
theorem macroBlockSpent_eq_ok {ins : List ℕ}
    {outputs outputs' : Std.ExtTreeMap ℕ (Output Pt × OutputKey) compare}
    {inputs compacted : Std.ExtTreeMap ℕ (Output Pt) compare}
    (h : s.macroBlockSpent κ ins outputs = .ok (inputs, outputs', compacted)) :
    (∀ (inputHash : ℕ) input, inputs[inputHash]? = some input →
      s.outputByHash κ inputHash = .ok (some input)) ∧
    ∀ (outputHash : ℕ) e, outputs'[outputHash]? = some e → outputs[outputHash]? = some e := by
  refine List.foldlM_except_induction (fun acc : Std.ExtTreeMap ℕ (Output Pt) compare ×
      Std.ExtTreeMap ℕ (Output Pt × OutputKey) compare × Std.ExtTreeMap ℕ (Output Pt) compare =>
    (∀ (inputHash : ℕ) input, acc.1[inputHash]? = some input →
      s.outputByHash κ inputHash = .ok (some input)) ∧
      ∀ (outputHash : ℕ) e, acc.2.1[outputHash]? = some e → outputs[outputHash]? = some e)
    ?_ h ⟨by simp, fun _ _ => id⟩
  rintro inputHash - ⟨I, O, C⟩ ⟨I', O', C'⟩ ⟨hI, hO⟩ hstep
  dsimp only at hstep
  split at hstep
  · -- an output of the block: compacted, and no longer kept
    obtain ⟨-, hstep⟩ := Except.ite_throw_bind_eq_ok.1 hstep
    cases hstep
    exact ⟨hI, fun outputHash e he => hO outputHash e (Std.ExtTreeMap.getElem?_erase_eq_some.1 he).2⟩
  · -- an unspent output: read
    obtain ⟨x, hx, hstep⟩ := Except.bind_eq_ok.1 hstep
    obtain ⟨input, hexp, hstep⟩ := Except.bind_eq_ok.1 hstep
    obtain ⟨-, hstep⟩ := Except.ite_throw_bind_eq_ok.1 hstep
    cases hstep
    rw [expect_eq_ok] at hexp
    subst hexp
    refine ⟨fun inputHash' input' hi => ?_, hO⟩
    rcases Std.ExtTreeMap.getElem?_insert_eq_some.1 hi with ⟨rfl, rfl⟩ | ⟨-, hi⟩
    · exact hx
    · exact hI _ _ hi

/-- The service award of `register_macro_block` changes the awards only. -/
theorem registerAwards_eq_ok {B : MacroBlock Fr Pt} {awards : Awards} {winner : Option (ℕ × ℤ)}
    (h : s.registerAwards κ B = .ok (s', awards, winner)) : s' = { s with awards := s'.awards } := by
  unfold registerAwards at h
  split at h
  · obtain ⟨_, -, h⟩ := Except.bind_eq_ok.1 h
    obtain ⟨_, -, h⟩ := Except.bind_eq_ok.1 h
    obtain ⟨⟨⟩, -, h⟩ := Except.bind_eq_ok.1 h
    cases h
    rfl
  · cases h
    rfl

end Steps

section Register

variable {Fr Pt : Type} [AddCommGroup Fr] [AddCommGroup Pt] [DecidableEq Pt]
  {κ : Crypto Fr Pt} {lsn : LSN} {s s' : Blockchain Fr Pt} {blockHash : ℕ}

/-- What `register_inputs_and_outputs` does when it does not panic: the block
    hash is new, the inputs are spent and the outputs created from the
    current unspent outputs and stakes, and the balance is written. -/
theorem registerInputsAndOutputs_eq_ok {inputs : Std.ExtTreeMap ℕ (Output Pt) compare}
    {outputs : Std.ExtTreeMap ℕ (Output Pt × OutputKey) compare} {gamma : Fr} {blockReward : ℤ}
    (h : s.registerInputsAndOutputs κ lsn blockHash inputs outputs gamma blockReward = .ok s') :
    ∃ blockByHash U₁ E₁ burned U₂ E₂ created balanceMap,
      s.blockByHash.insert lsn blockHash lsn = .ok (none, blockByHash) ∧
      blockByHash.currentLsn = lsn ∧
      inputs.foldlM (spendInput κ s.epoch lsn blockHash) (s.outputByHashMap, s.escrow, 0) =
        .ok (U₁, E₁, burned) ∧
      outputs.foldlM (createOutput κ s.epoch s.cfg.stakeEpochs lsn blockHash) (U₁, E₁, 0) =
        .ok (U₂, E₂, created) ∧
      (∃ r balance, s.balanceMap.insert lsn () balance = .ok (r, balanceMap)) ∧
      s' = { s with blockByHash, outputByHashMap := U₂, escrow := E₂, balanceMap } := by
  obtain ⟨⟨prev, blockByHash⟩, hbbh, h⟩ := Except.bind_eq_ok.1 h
  have hbbh := Except.mapError_eq_ok.1 hbbh
  obtain ⟨hprev, h⟩ := Except.ite_throw_bind_eq_ok.1 h
  obtain ⟨⟨⟩, hcur, h⟩ := Except.bind_eq_ok.1 h
  obtain ⟨⟨U₁, E₁, burned⟩, hspend, h⟩ := Except.bind_eq_ok.1 h
  obtain ⟨⟨U₂, E₂, created⟩, hcreate, h⟩ := Except.bind_eq_ok.1 h
  obtain ⟨-, h⟩ := Except.ite_throw_bind_eq_ok.1 h
  obtain ⟨orig, -, h⟩ := Except.bind_eq_ok.1 h
  obtain ⟨-, h⟩ := Except.ite_throw_bind_eq_ok.1 h
  obtain ⟨⟨r, balanceMap⟩, hbal, h⟩ := Except.bind_eq_ok.1 h
  obtain ⟨⟨⟩, -, h⟩ := Except.bind_eq_ok.1 h
  cases h
  simp only [Option.isSome_iff_ne_none, ne_eq, not_not] at hprev
  subst hprev
  exact ⟨blockByHash, U₁, E₁, burned, U₂, E₂, created, balanceMap, hbbh, by simpa [check] using hcur,
    hspend, hcreate, ⟨r, _, Except.mapError_eq_ok.1 hbal⟩, rfl⟩

/-- `register_inputs_and_outputs` writes its maps at `lsn`, the block hash last
    of all in its map. -/
theorem registerInputsAndOutputs_writes {inputs : Std.ExtTreeMap ℕ (Output Pt) compare}
    {outputs : Std.ExtTreeMap ℕ (Output Pt × OutputKey) compare} {gamma : Fr} {blockReward : ℤ}
    (h : s.registerInputsAndOutputs κ lsn blockHash inputs outputs gamma blockReward = .ok s') :
    IndexesWrittenAt lsn s s' ∧ s'.blockByHash.currentLsn = lsn := by
  obtain ⟨blockByHash, U₁, E₁, burned, U₂, E₂, created, balanceMap, hbbh, hcur, hspend, hcreate,
    ⟨r, balance, hbal⟩, rfl⟩ := registerInputsAndOutputs_eq_ok h
  obtain ⟨hU₁, hE₁⟩ := foldlM_spendInput_writes hspend
  obtain ⟨hU₂, hE₂⟩ := foldlM_createOutput_writes hcreate
  exact ⟨⟨rfl, .of_insert hbbh, hU₁.trans hU₂, .of_insert hbal, hE₁.trans hE₂, .refl _ _, .refl _ _⟩,
    hcur⟩

/-- After `register_inputs_and_outputs`, an unspent output was unspent before
    or is one of the block's, under its key. -/
theorem registerInputsAndOutputs_getElem? {inputs : Std.ExtTreeMap ℕ (Output Pt) compare}
    {outputs : Std.ExtTreeMap ℕ (Output Pt × OutputKey) compare} {gamma : Fr} {blockReward : ℤ}
    (h : s.registerInputsAndOutputs κ lsn blockHash inputs outputs gamma blockReward = .ok s')
    {outputHash : ℕ} {key : OutputKey} (hk : s'.outputByHashMap.map[outputHash]? = some key) :
    s.outputByHashMap.map[outputHash]? = some key ∨
      ∃ output, outputs[outputHash]? = some (output, key) := by
  obtain ⟨_, U₁, E₁, _, U₂, E₂, _, _, -, -, hspend, hcreate, -, rfl⟩ :=
    registerInputsAndOutputs_eq_ok h
  exact (foldlM_createOutput_getElem? hcreate hk).imp_left (foldlM_spendInput_getElem? hspend)

omit [DecidableEq Pt] in
/-- What one transaction of `register_micro_block` does when it does not panic:
    only a slashing transaction writes, the election result at `lsn`; every
    input it spends is read from the unspent outputs; and each entry it adds
    is an input with the output read for it, or an output of the transaction
    under its key in the block. -/
theorem registerMicroBlockTx_eq_ok {epoch offset txId : ℕ} {parts parts' : MicroBlockParts Fr Pt}
    {self self' : Blockchain Fr Pt} {tx : Transaction Fr Pt}
    (h : registerMicroBlockTx κ lsn epoch offset (parts, self) (tx, txId) = .ok (parts', self')) :
    (self' = { self with electionResultList := self'.electionResultList } ∧
      WrittenAt lsn self.electionResultList self'.electionResultList) ∧
    (∀ inputHash ∈ tx.txins, ∃ input, self.outputByHash κ inputHash = .ok (some input)) ∧
    (∀ (inputHash : ℕ) input, parts'.inputs[inputHash]? = some input →
      parts.inputs[inputHash]? = some input ∨ self.outputByHash κ inputHash = .ok (some input)) ∧
    (∀ (outputHash : ℕ) output (key : OutputKey), parts'.outputs[outputHash]? = some (output, key) →
      parts.outputs[outputHash]? = some (output, key) ∨
        ∃ txoutId, key = .MicroBlock epoch offset txId txoutId ∧ tx.txouts[txoutId]? = some output) := by
  obtain ⟨inputs, hin, h⟩ := Except.bind_eq_ok.1 h
  obtain ⟨outputs, hout, h⟩ := Except.bind_eq_ok.1 h
  -- each input is read from the unspent outputs and inserted fresh
  obtain ⟨-, hinNew, hinAll⟩ := List.foldlM_insert_values id
    (fun inputHash input => self.outputByHash κ inputHash = .ok (some input)) (fun a _ m m' hm => by
      obtain ⟨⟨⟩, -, hm⟩ := Except.bind_eq_ok.1 hm
      obtain ⟨x, hx, hm⟩ := Except.bind_eq_ok.1 hm
      obtain ⟨input, hexp, hm⟩ := Except.bind_eq_ok.1 hm
      obtain ⟨hfresh, hm⟩ := Except.ite_throw_bind_eq_ok.1 hm
      cases hm
      rw [expect_eq_ok] at hexp
      subst hexp
      exact ⟨input, Std.ExtTreeMap.getElem?_eq_none hfresh, hx, rfl⟩) hin
  -- each output is inserted fresh, under its position in the transaction
  obtain ⟨-, houtNew, -⟩ := List.foldlM_insert_values (fun e => κ.hashOutput e.1)
    (fun _ (e : Output Pt × OutputKey) =>
      ∃ txoutId, e.2 = .MicroBlock epoch offset txId txoutId ∧ tx.txouts[txoutId]? = some e.1)
    (fun ⟨output, txoutId⟩ ha m m' hm => by
      obtain ⟨hfresh, hm⟩ := Except.ite_throw_bind_eq_ok.1 hm
      cases hm
      exact ⟨_, Std.ExtTreeMap.getElem?_eq_none hfresh,
        ⟨txoutId, rfl, List.mem_zipIdx_iff_getElem?.1 ha⟩, rfl⟩) hout
  -- only a slashing transaction writes the chain, its election result
  have hself : parts'.inputs = inputs ∧ parts'.outputs = outputs ∧
      self' = { self with electionResultList := self'.electionResultList } ∧
      WrittenAt lsn self.electionResultList self'.electionResultList := by
    cases tx with
    | CoinbaseTransaction t | PaymentTransaction t | RestakeTransaction t =>
      simp only [pure_bind] at h
      obtain ⟨⟨⟩, -, h⟩ := Except.bind_eq_ok.1 h
      cases h
      exact ⟨rfl, rfl, rfl, .refl _ _⟩
    | SlashingTransaction t =>
      obtain ⟨er, -, h⟩ := Except.bind_eq_ok.1 h
      obtain ⟨⟨r, electionResultList⟩, hins, h⟩ := Except.bind_eq_ok.1 h
      simp only [pure_bind] at h
      obtain ⟨⟨⟩, -, h⟩ := Except.bind_eq_ok.1 h
      cases h
      exact ⟨rfl, rfl, rfl, .of_insert (Except.mapError_eq_ok.1 hins)⟩
    | ServiceAwardTransaction t => exact absurd h (by simp [throw, throwThe, MonadExceptOf.throw, bind, Except.bind])
  obtain ⟨rfl, rfl, hself⟩ := hself
  refine ⟨hself, fun a ha => ?_, fun a input hi => (hinNew a input hi).imp_right id,
    fun o output key ho => ?_⟩
  · obtain ⟨input, -, hread⟩ := hinAll a ha
    exact ⟨input, hread⟩
  · rcases houtNew o (output, key) ho with ho | ⟨txoutId, hkey, htx⟩
    · exact .inl ho
    · exact .inr ⟨txoutId, hkey, htx⟩

omit [DecidableEq Pt] in
/-- The leaders of `register_micro_block` write the indexes at `lsn`. -/
theorem registerLeaders_writes {viewChange : ℕ} (h : s.registerLeaders κ lsn viewChange = .ok s') :
    IndexesWrittenAt lsn s s' :=
  have ⟨heq, hw⟩ := registerLeaders_eq_ok h
  .of_epochActivity heq hw

/-- What `register_micro_block` does when it does not panic: its checks, its
    transactions collected, its leaders registered, its inputs and outputs
    registered, and the election result of the next block written. -/
theorem registerMicroBlock_eq_ok {b : MicroBlock Fr Pt} {r}
    (h : s.registerMicroBlock κ lsn b = .ok (r, s')) :
    s.epoch = b.header.epoch ∧ s.offset = b.header.offset ∧ s.isEpochFull = false ∧
    ∃ parts sT sL sR electionResultList,
      b.transactions.zipIdx.foldlM (registerMicroBlockTx κ lsn s.epoch s.offset)
        (MicroBlockParts.empty, s) = .ok (parts, sT) ∧
      sT.registerLeaders κ lsn b.header.viewChange = .ok sL ∧
      sL.registerInputsAndOutputs κ lsn (κ.hashMicroBlockHeader b.header) parts.inputs parts.outputs
        parts.gamma parts.blockReward = .ok sR ∧
      (∃ er x, sR.electionResult = .ok er ∧ sR.electionResultList.insert lsn ()
        { er with viewChange := 0, random := b.header.random } = .ok (x, electionResultList)) ∧
      s' = { sR with
        lastBlockTimestamp := b.header.timestamp
        lastBlockHash := κ.hashMicroBlockHeader b.header
        offset := sR.offset + 1
        electionResultList
        viewChangeProof := none } := by
  obtain ⟨⟨⟩, -, h⟩ := Except.bind_eq_ok.1 h
  obtain ⟨⟨⟩, hepoch, h⟩ := Except.bind_eq_ok.1 h
  obtain ⟨⟨⟩, hoffset, h⟩ := Except.bind_eq_ok.1 h
  obtain ⟨⟨⟩, -, h⟩ := Except.bind_eq_ok.1 h
  obtain ⟨⟨⟩, -, h⟩ := Except.bind_eq_ok.1 h
  obtain ⟨⟨⟩, hfull, h⟩ := Except.bind_eq_ok.1 h
  obtain ⟨⟨parts, sT⟩, hfold, h⟩ := Except.bind_eq_ok.1 h
  obtain ⟨sL, hL, h⟩ := Except.bind_eq_ok.1 h
  obtain ⟨sR, hR, h⟩ := Except.bind_eq_ok.1 h
  obtain ⟨er, her, h⟩ := Except.bind_eq_ok.1 h
  obtain ⟨⟨x, electionResultList⟩, hins, h⟩ := Except.bind_eq_ok.1 h
  cases h
  refine ⟨check_eq_ok.1 hepoch, check_eq_ok.1 hoffset, by simpa using check_eq_ok.1 hfull,
    parts, sT, sL, sR, electionResultList, hfold, hL, hR, ⟨er, x, her, Except.mapError_eq_ok.1 hins⟩,
    rfl⟩

omit [DecidableEq Pt] in
/-- The transactions of `register_micro_block`: they write the election
    result only, read each input they spend from the unspent outputs, and
    collect outputs of the block under their keys. -/
theorem foldlM_registerMicroBlockTx {epoch offset : ℕ} {b : MicroBlock Fr Pt}
    {parts : MicroBlockParts Fr Pt}
    (h : b.transactions.zipIdx.foldlM (registerMicroBlockTx κ lsn epoch offset)
      (MicroBlockParts.empty, s) = .ok (parts, s')) :
    (s' = { s with electionResultList := s'.electionResultList } ∧
      WrittenAt lsn s.electionResultList s'.electionResultList) ∧
    (∀ tx ∈ b.transactions, ∀ inputHash ∈ tx.txins, ∃ input, s.outputByHash κ inputHash = .ok (some input)) ∧
    (∀ (inputHash : ℕ) input, parts.inputs[inputHash]? = some input →
      s.outputByHash κ inputHash = .ok (some input)) ∧
    (∀ (outputHash : ℕ) output (key : OutputKey), parts.outputs[outputHash]? = some (output, key) →
      ∃ txId tx txoutId, key = .MicroBlock epoch offset txId txoutId ∧
        b.transactions[txId]? = some tx ∧ tx.txouts[txoutId]? = some output) := by
  -- the chain differs from `s` in its election result only; the parts hold
  -- read inputs and outputs of the block
  let P : MicroBlockParts Fr Pt × Blockchain Fr Pt → Prop := fun acc =>
    (acc.2 = { s with electionResultList := acc.2.electionResultList } ∧
      WrittenAt lsn s.electionResultList acc.2.electionResultList) ∧
    (∀ (inputHash : ℕ) input, acc.1.inputs[inputHash]? = some input →
      s.outputByHash κ inputHash = .ok (some input)) ∧
    (∀ (outputHash : ℕ) output (key : OutputKey), acc.1.outputs[outputHash]? = some (output, key) →
      ∃ txId tx txoutId, key = .MicroBlock epoch offset txId txoutId ∧
        b.transactions[txId]? = some tx ∧ tx.txouts[txoutId]? = some output)
  have hread : ∀ x : Blockchain Fr Pt, x = { s with electionResultList := x.electionResultList } →
      ∀ inputHash, x.outputByHash κ inputHash = s.outputByHash κ inputHash := by
    intro x hx inputHash
    rw [hx]
    rfl
  have hstep : ∀ a ∈ b.transactions.zipIdx, ∀ x y, P x → registerMicroBlockTx κ lsn epoch offset x a = .ok y → P y := by
    rintro ⟨tx, txId⟩ ha ⟨px, sx⟩ ⟨py, sy⟩ ⟨⟨hsx, hwx⟩, hin, hout⟩ hxy
    obtain ⟨⟨hsy, hwy⟩, -, hinNew, houtNew⟩ := registerMicroBlockTx_eq_ok hxy
    dsimp only at hsx hwx hin hout ⊢
    refine ⟨⟨?_, hwx.trans hwy⟩, fun inputHash input hi => ?_, fun outputHash output key ho => ?_⟩
    · rw [hsy, hsx]
    · rcases hinNew inputHash input hi with hi | hi
      · exact hin inputHash input hi
      · rwa [hread sx hsx] at hi
    · rcases houtNew outputHash output key ho with ho | ⟨txoutId, hkey, htx⟩
      · exact hout outputHash output key ho
      · exact ⟨txId, tx, txoutId, hkey, List.mem_zipIdx_iff_getElem?.1 ha, htx⟩
  have hinit : P (MicroBlockParts.empty, s) :=
    ⟨⟨rfl, .refl _ _⟩, fun _ _ hi => by simp [MicroBlockParts.empty] at hi,
      fun _ _ _ ho => by simp [MicroBlockParts.empty] at ho⟩
  obtain ⟨hs', hin, hout⟩ := List.foldlM_except_induction P hstep h hinit
  refine ⟨hs', fun tx htx inputHash hi => ?_, hin, hout⟩
  obtain ⟨txId, htxId⟩ := List.mem_iff_getElem?.1 htx
  obtain ⟨⟨px, sx⟩, ⟨py, sy⟩, ⟨⟨hsx, -⟩, -⟩, hxy⟩ := List.foldlM_except_step_of_mem P hstep h hinit
    (tx, txId) (List.mem_zipIdx_iff_getElem?.2 htxId)
  obtain ⟨input, hinput⟩ := (registerMicroBlockTx_eq_ok hxy).2.1 inputHash hi
  exact ⟨input, by rwa [hread sx hsx] at hinput⟩

/-- `register_micro_block` writes the maps at `lsn`, the block hash and the
    election result of the next block last, and moves to the next offset. -/
theorem registerMicroBlock_writes {b : MicroBlock Fr Pt} {r}
    (h : s.registerMicroBlock κ lsn b = .ok (r, s')) :
    ∃ s₁, IndexesWrittenAt lsn s s₁ ∧ s₁.blockByHash.currentLsn = lsn ∧
      s₁.electionResultList.currentLsn = lsn ∧ (s₁.electionResultList.get ()).isSome ∧
      s' = { s₁ with
        lastBlockTimestamp := b.header.timestamp
        lastBlockHash := κ.hashMicroBlockHeader b.header
        offset := s.offset + 1
        viewChangeProof := none } := by
  obtain ⟨-, -, -, parts, sT, sL, sR, electionResultList, hfold, hL, hR, ⟨er, x, -, hins⟩, rfl⟩ :=
    registerMicroBlock_eq_ok h
  obtain ⟨⟨hT, hwT⟩, -⟩ := foldlM_registerMicroBlockTx hfold
  obtain ⟨hR, hcur⟩ := registerInputsAndOutputs_writes hR
  have hw : IndexesWrittenAt lsn s { sR with electionResultList } :=
    (((IndexesWrittenAt.of_electionResultList hT hwT).trans (registerLeaders_writes hL)).trans hR).trans
      (.of_electionResultList rfl (.of_insert hins))
  refine ⟨{ sR with electionResultList }, hw, hcur, insert_currentLsn hins, ?_, ?_⟩
  · obtain ⟨-, -, rfl⟩ := insert_eq_ok hins
    simp [MultiVersionedMap.get]
  · rw [← hw.offset]

/-- What `register_macro_block` does when it does not panic: its checks, the
    block's outputs keyed and its inputs resolved, the awards, the inputs and
    outputs registered, the election result of the next epoch written, and
    the indexes checkpointed at the start of the next epoch, its activity
    reset. -/
theorem registerMacroBlock_eq_ok {B : MacroBlock Fr Pt} {r}
    (h : s.registerMacroBlock κ lsn B = .ok (r, s')) :
    s.epoch = B.header.epoch ∧ s.offset = 0 ∧
    ∃ outputs inputs outputs' compacted, ∃ sA sR : Blockchain Fr Pt, ∃ electionResult x electionResultList,
      macroBlockOutputs κ B.header.epoch B.outputs = .ok outputs ∧
      s.macroBlockSpent κ B.inputs outputs = .ok (inputs, outputs', compacted) ∧
      sA = { s with awards := sA.awards } ∧
      sA.registerInputsAndOutputs κ lsn (κ.hashMacroBlockHeader B.header) inputs outputs'
        B.header.gamma B.header.blockReward = .ok sR ∧
      sR.electionResultList.insert lsn () electionResult = .ok (x, electionResultList) ∧
      s' = { sR with
        epoch := sR.epoch + 1, offset := 0
        lastBlockTimestamp := B.header.timestamp, lastBlockHash := κ.hashMacroBlockHeader B.header
        lastMacroBlockTimestamp := B.header.timestamp, lastMacroBlockRandom := B.header.random.rand
        lastMacroBlockHash := κ.hashMacroBlockHeader B.header, difficulty := B.header.difficulty
        blockByHash := sR.blockByHash.checkpoint.2
        outputByHashMap := sR.outputByHashMap.checkpoint.2
        escrow := ⟨sR.escrow.escrow.checkpoint.2⟩
        electionResultList := electionResultList.checkpoint.2
        balanceMap := sR.balanceMap.checkpoint.2
        epochActivity := sR.epochActivity.reset } := by
  obtain ⟨⟨⟩, -, h⟩ := Except.bind_eq_ok.1 h
  obtain ⟨⟨⟩, hepoch, h⟩ := Except.bind_eq_ok.1 h
  obtain ⟨⟨⟩, hoffset, h⟩ := Except.bind_eq_ok.1 h
  obtain ⟨⟨⟩, -, h⟩ := Except.bind_eq_ok.1 h
  obtain ⟨⟨⟩, -, h⟩ := Except.bind_eq_ok.1 h
  obtain ⟨⟨⟩, -, h⟩ := Except.bind_eq_ok.1 h
  obtain ⟨⟨⟩, -, h⟩ := Except.bind_eq_ok.1 h
  obtain ⟨⟨⟩, -, h⟩ := Except.bind_eq_ok.1 h
  obtain ⟨outputs, hout, h⟩ := Except.bind_eq_ok.1 h
  obtain ⟨⟨inputs, outputs', compacted⟩, hspent, h⟩ := Except.bind_eq_ok.1 h
  obtain ⟨⟨sA, awards, winner⟩, hA, h⟩ := Except.bind_eq_ok.1 h
  obtain ⟨sR, hR, h⟩ := Except.bind_eq_ok.1 h
  obtain ⟨electionResult, -, h⟩ := Except.bind_eq_ok.1 h
  obtain ⟨-, h⟩ := Except.ite_throw_bind_eq_ok.1 h
  obtain ⟨-, h⟩ := Except.ite_throw_bind_eq_ok.1 h
  obtain ⟨⟨x, electionResultList⟩, hins, h⟩ := Except.bind_eq_ok.1 h
  -- the checks on the validators of the next epoch change nothing
  obtain ⟨validators, -, h⟩ := Except.bind_eq_ok.1 h
  obtain ⟨_, -, h⟩ := Except.bind_eq_ok.1 h
  cases h
  exact ⟨check_eq_ok.1 hepoch, check_eq_ok.1 hoffset, outputs, inputs, outputs', compacted, sA, sR,
    electionResult, x, electionResultList, hout, hspent, registerAwards_eq_ok hA, hR,
    Except.mapError_eq_ok.1 hins, rfl⟩

end Register

end Blockchain

end Stegos
