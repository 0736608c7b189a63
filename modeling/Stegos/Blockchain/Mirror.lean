import Stegos.Blockchain.Writes

/-!
# The escrow mirrors the staked outputs

The escrow (`escrow.rs`) and the unspent outputs (`output_by_hash`) are two
multi-versioned maps that the blockchain writes side by side: a stake output
enters the escrow when it is created, under its validator and its hash, with
its recipient and amount, and leaves it when it is spent. The escrow mirrors
the stakes (`StakesMirrored`) when its entries are exactly those of the
unspent stake outputs, each output read from the block its key points at.

Each step of `register_inputs_and_outputs` keeps the mirror
(`StakesMirrored.spendInput`, `StakesMirrored.createOutput`), as long as a
spent input is the output read for its hash and a created output is read
under its key; so does the whole (`registerInputsAndOutputs_stakes`).
`register_micro_block` and `register_macro_block` are, on the unspent outputs
and the escrow, that register of the block's inputs and outputs
(`registerMicroBlock_registerInputsAndOutputs`,
`registerMacroBlock_registerInputsAndOutputs`), so they keep the mirror of a
chain with the block stored at its position (`registerMicroBlock_stakes`,
`registerMacroBlock_stakes`), and leave unspent only outputs that were, or
outputs of the block (`registerMicroBlock_getElem?`,
`registerMacroBlock_getElem?`).
-/
namespace Stegos

open MultiVersionedMap

section Mirror

variable {Pt : Type}

/-- The escrow `E` mirrors the stake outputs among the unspent outputs `U`,
    each read from its key by `read`: an entry of the escrow is under the
    validator and the hash of an unspent stake output, with its recipient and
    amount, and every unspent stake output has its entry. -/
structure StakesMirrored (read : OutputKey → Except Fault (Option (Output Pt)))
    (U : Std.ExtTreeMap ℕ OutputKey compare) (E : Std.ExtTreeMap EscrowKey EscrowValue compare) :
    Prop where
  escrow : ∀ (k : EscrowKey) (v : EscrowValue), E[k]? = some v →
    ∃ key o, U[k.outputHash]? = some key ∧ read key = .ok (some (.StakeOutput o)) ∧
      o.validator = k.validatorPkey ∧ o.recipient = v.accountPkey ∧ o.amount = v.amount
  unspent : ∀ (outputHash : ℕ) (key : OutputKey) (o : StakeOutput), U[outputHash]? = some key →
    read key = .ok (some (.StakeOutput o)) →
    ∃ activeUntilEpoch, E[(⟨o.validator, outputHash⟩ : EscrowKey)]? =
      some ⟨o.recipient, activeUntilEpoch, o.amount⟩

namespace StakesMirrored

variable {read read' : OutputKey → Except Fault (Option (Output Pt))}
  {U : Std.ExtTreeMap ℕ OutputKey compare} {E : Std.ExtTreeMap EscrowKey EscrowValue compare}

theorem empty : StakesMirrored read ∅ ∅ :=
  ⟨fun _ _ h => by simp at h, fun _ _ _ h => by simp at h⟩

/-- The mirror depends on the reads of the unspent outputs' keys only. -/
theorem congr (h : StakesMirrored read U E)
    (hread : ∀ (outputHash : ℕ) key, U[outputHash]? = some key → read' key = read key) :
    StakesMirrored read' U E where
  escrow k v hk := by
    obtain ⟨key, o, hkey, ho, hv⟩ := h.escrow k v hk
    exact ⟨key, o, hkey, (hread _ _ hkey).trans ho, hv⟩
  unspent outputHash key o hkey ho := h.unspent outputHash key o hkey ((hread _ _ hkey).symm.trans ho)

/-- An entry of the escrow under an unspent output's hash is the stake of that
    output. -/
theorem escrow_of_getElem? (h : StakesMirrored read U E) {k : EscrowKey} {v : EscrowValue}
    {key : OutputKey} {output : Output Pt} (hk : E[k]? = some v) (hkey : U[k.outputHash]? = some key)
    (hread : read key = .ok (some output)) :
    ∃ o, output = .StakeOutput o ∧ k = ⟨o.validator, k.outputHash⟩ := by
  obtain ⟨key', o, hkey', ho, hval, -⟩ := h.escrow k v hk
  rw [hkey] at hkey'
  cases hkey'
  rw [hread] at ho
  cases ho
  exact ⟨o, rfl, by rw [hval]⟩

variable {Fr : Type} [AddCommGroup Fr] [AddCommGroup Pt] {κ : Crypto Fr Pt}
  {epoch stakeEpochs blockHash : ℕ} {lsn : LSN}
  {U₁ U₂ : MultiVersionedMap ℕ OutputKey LSN} {E₁ E₂ : Escrow} {c₁ c₂ : Pt}

/-- Spending an unspent output, read as `input`, keeps the mirror: the output
    leaves the unspent outputs, and its stake, if it is one, the escrow. -/
theorem spendInput {inputHash : ℕ} {input : Output Pt} {key : OutputKey}
    (h : StakesMirrored read U₁.map E₁.escrow.map)
    (hkey : U₁.map[inputHash]? = some key) (hread : read key = .ok (some input))
    (hs : Blockchain.spendInput κ epoch lsn blockHash (U₁, E₁, c₁) inputHash input = .ok (U₂, E₂, c₂)) :
    StakesMirrored read U₂.map E₂.escrow.map := by
  obtain ⟨-, -, hU, hE⟩ := Blockchain.spendInput_eq_ok hs
  rw [hU]
  -- the unspent outputs left are those of another hash
  have hleft : ∀ outputHash key', (U₁.map.erase inputHash)[outputHash]? = some key' →
      outputHash ≠ inputHash ∧ U₁.map[outputHash]? = some key' := fun _ _ h =>
    Std.ExtTreeMap.getElem?_erase_eq_some.1 h
  cases input with
  | StakeOutput o =>
    obtain ⟨-, -, hE⟩ := hE
    rw [hE]
    constructor
    · intro k v hk
      obtain ⟨hne, hk⟩ := Std.ExtTreeMap.getElem?_erase_eq_some.1 hk
      obtain ⟨key', o', hkey', ho', hval⟩ := h.escrow k v hk
      -- an entry under the spent hash would be the spent stake's
      have hother : k.outputHash ≠ inputHash := by
        intro heq
        obtain ⟨o'', ho'', hk'⟩ := h.escrow_of_getElem? hk (heq ▸ hkey) hread
        cases ho''
        exact hne (by rw [hk', heq])
      exact ⟨key', o', Std.ExtTreeMap.getElem?_erase_eq_some.2 ⟨hother, hkey'⟩, ho', hval⟩
    · intro outputHash key' o' hkey' ho'
      obtain ⟨hne, hkey'⟩ := hleft _ _ hkey'
      obtain ⟨au, hau⟩ := h.unspent outputHash key' o' hkey' ho'
      refine ⟨au, Std.ExtTreeMap.getElem?_erase_eq_some.2 ⟨fun heq => hne ?_, hau⟩⟩
      exact congrArg EscrowKey.outputHash heq
  | PaymentOutput o | PublicPaymentOutput o =>
    rw [hE]
    constructor
    · intro k v hk
      obtain ⟨key', o', hkey', ho', hval⟩ := h.escrow k v hk
      -- no entry is under the spent hash, whose output is no stake
      have hother : k.outputHash ≠ inputHash := by
        intro heq
        obtain ⟨o'', ho'', -⟩ := h.escrow_of_getElem? hk (heq ▸ hkey) hread
        cases ho''
      exact ⟨key', o', Std.ExtTreeMap.getElem?_erase_eq_some.2 ⟨hother, hkey'⟩, ho', hval⟩
    · intro outputHash key' o' hkey' ho'
      exact h.unspent outputHash key' o' (hleft _ _ hkey').2 ho'

/-- Creating an output stored under `key` keeps the mirror: the output is
    unspent, and its stake, if it is one, enters the escrow. -/
theorem createOutput {outputHash : ℕ} {output : Output Pt} {key : OutputKey}
    (h : StakesMirrored read U₁.map E₁.escrow.map)
    (hread : read key = .ok (some output))
    (hs : Blockchain.createOutput κ epoch stakeEpochs lsn blockHash (U₁, E₁, c₁) outputHash (output, key) =
      .ok (U₂, E₂, c₂)) :
    StakesMirrored read U₂.map E₂.escrow.map := by
  obtain ⟨hfresh, -, hU, hE⟩ := Blockchain.createOutput_eq_ok hs
  rw [hU]
  -- no entry of the escrow is under the new hash, which was not unspent
  have hold : ∀ (k : EscrowKey) v, E₁.escrow.map[k]? = some v → k.outputHash ≠ outputHash := by
    intro k v hk heq
    obtain ⟨key', -, hkey', -⟩ := h.escrow k v hk
    rw [heq] at hkey'
    exact hfresh (Std.ExtTreeMap.mem_iff_isSome_getElem?.2 (by simp [hkey']))
  have hkept : ∀ (k : EscrowKey) v, E₁.escrow.map[k]? = some v →
      ∃ key' o, (U₁.map.insert outputHash key)[k.outputHash]? = some key' ∧
        read key' = .ok (some (.StakeOutput o)) ∧
        o.validator = k.validatorPkey ∧ o.recipient = v.accountPkey ∧ o.amount = v.amount := by
    intro k v hk
    obtain ⟨key', o, hkey', ho, hval⟩ := h.escrow k v hk
    exact ⟨key', o, Std.ExtTreeMap.getElem?_insert_eq_some.2 (.inr ⟨hold k v hk, hkey'⟩), ho, hval⟩
  cases output with
  | StakeOutput o =>
    obtain ⟨-, hE⟩ := hE
    rw [hE]
    constructor
    · intro k v hk
      rcases Std.ExtTreeMap.getElem?_insert_eq_some.1 hk with ⟨rfl, rfl⟩ | ⟨-, hk⟩
      · exact ⟨key, o, by simp, hread, rfl, rfl, rfl⟩
      · exact hkept k v hk
    · intro outputHash' key' o' hkey' ho'
      rcases Std.ExtTreeMap.getElem?_insert_eq_some.1 hkey' with ⟨rfl, rfl⟩ | ⟨hne, hkey'⟩
      · rw [hread] at ho'
        cases ho'
        exact ⟨epoch + stakeEpochs, by simp⟩
      · obtain ⟨au, hau⟩ := h.unspent outputHash' key' o' hkey' ho'
        refine ⟨au, Std.ExtTreeMap.getElem?_insert_eq_some.2 (.inr ⟨fun heq => hne ?_, hau⟩)⟩
        exact congrArg EscrowKey.outputHash heq
  | PaymentOutput o | PublicPaymentOutput o =>
    rw [hE]
    constructor
    · exact hkept
    · intro outputHash' key' o' hkey' ho'
      rcases Std.ExtTreeMap.getElem?_insert_eq_some.1 hkey' with ⟨rfl, rfl⟩ | ⟨-, hkey'⟩
      · rw [hread] at ho'
        cases ho'
      · exact h.unspent outputHash' key' o' hkey' ho'

/-- Spending the inputs of a block, each read from its unspent key, keeps the
    mirror. -/
theorem foldlM_spendInput {inputs : Std.ExtTreeMap ℕ (Output Pt) compare}
    (h : StakesMirrored read U₁.map E₁.escrow.map)
    (hin : ∀ (inputHash : ℕ) input key, inputs[inputHash]? = some input →
      U₁.map[inputHash]? = some key → read key = .ok (some input))
    (hs : inputs.foldlM (Blockchain.spendInput κ epoch lsn blockHash) (U₁, E₁, c₁) = .ok (U₂, E₂, c₂)) :
    StakesMirrored read U₂.map E₂.escrow.map := by
  rw [Std.ExtTreeMap.foldlM_eq_foldlM_toList] at hs
  -- the unspent outputs only shrink, so an input is still under the key it was read under
  refine (List.foldlM_except_induction (fun acc => StakesMirrored read acc.1.map acc.2.1.escrow.map ∧
      ∀ (outputHash : ℕ) key, acc.1.map[outputHash]? = some key → U₁.map[outputHash]? = some key)
    ?_ hs ⟨h, fun _ _ => id⟩).1
  rintro ⟨inputHash, input⟩ hmem ⟨U, E, c⟩ ⟨U', E', c'⟩ ⟨hm, hsub⟩ hstep
  obtain ⟨hmem', -, hU', -⟩ := Blockchain.spendInput_eq_ok hstep
  obtain ⟨key, hkey⟩ := Option.isSome_iff_exists.1 (Std.ExtTreeMap.mem_iff_isSome_getElem?.1 hmem')
  have hread := hin _ _ _ (Std.ExtTreeMap.mem_toList_iff_getElem?_eq_some.1 hmem) (hsub _ _ hkey)
  refine ⟨hm.spendInput hkey hread hstep, fun outputHash key' hk => hsub _ _ ?_⟩
  rw [hU'] at hk
  exact (Std.ExtTreeMap.getElem?_erase_eq_some.1 hk).2

/-- Creating the outputs of a block, each read from its key, keeps the
    mirror. -/
theorem foldlM_createOutput {outputs : Std.ExtTreeMap ℕ (Output Pt × OutputKey) compare}
    (h : StakesMirrored read U₁.map E₁.escrow.map)
    (hout : ∀ (outputHash : ℕ) output key, outputs[outputHash]? = some (output, key) →
      read key = .ok (some output))
    (hs : outputs.foldlM (Blockchain.createOutput κ epoch stakeEpochs lsn blockHash) (U₁, E₁, c₁) =
      .ok (U₂, E₂, c₂)) :
    StakesMirrored read U₂.map E₂.escrow.map := by
  rw [Std.ExtTreeMap.foldlM_eq_foldlM_toList] at hs
  refine List.foldlM_except_induction (fun acc => StakesMirrored read acc.1.map acc.2.1.escrow.map)
    ?_ hs h
  rintro ⟨outputHash, output, key⟩ hmem ⟨U, E, c⟩ ⟨U', E', c'⟩ hm hstep
  exact hm.createOutput (hout _ _ _ (Std.ExtTreeMap.mem_toList_iff_getElem?_eq_some.1 hmem)) hstep

end StakesMirrored

end Mirror

namespace Blockchain

variable {Fr Pt : Type} [AddCommGroup Fr] [AddCommGroup Pt] {κ : Crypto Fr Pt} {s s' : Blockchain Fr Pt}

/-- The outputs are read from the disk only. -/
theorem outputByKey_eq_of_database (h : s'.database = s.database) : s'.outputByKey κ = s.outputByKey κ :=
  funext fun _ => outputByKey_congr (by rw [h])

/-- `output_by_hash` reads the unspent outputs and the disk only. -/
theorem outputByHash_congr (hU : s'.outputByHashMap.map = s.outputByHashMap.map)
    (hdb : s'.database = s.database) (outputHash : ℕ) :
    s'.outputByHash κ outputHash = s.outputByHash κ outputHash := by
  rw [outputByHash_eq, outputByHash_eq, hU, outputByKey_eq_of_database hdb]

/-- Storing a block at a free position keeps the mirror of a chain whose
    unspent outputs' keys point at stored blocks. -/
theorem stakes_writeBlock {lsn : LSN} {blk : Block Fr Pt}
    (hm : StakesMirrored (s.outputByKey κ) s.outputByHashMap.map s.escrow.escrow.map)
    (hfree : s.database[lsn]? = none)
    (hkeys : ∀ (h : ℕ) (key : OutputKey), s.outputByHashMap.map[h]? = some key → key.lsn ∈ s.database) :
    StakesMirrored ((s.writeBlock lsn blk).outputByKey κ) s.outputByHashMap.map s.escrow.escrow.map :=
  hm.congr fun outputHash key hkey => outputByKey_writeBlock hfree (hkeys outputHash key hkey)

section Register

variable [DecidableEq Pt] {lsn : LSN} {blockHash : ℕ}

/-- `register_inputs_and_outputs` keeps the mirror when each input is the
    output read for its hash, and each output is read under its key. -/
theorem registerInputsAndOutputs_stakes {inputs : Std.ExtTreeMap ℕ (Output Pt) compare}
    {outputs : Std.ExtTreeMap ℕ (Output Pt × OutputKey) compare} {gamma : Fr} {blockReward : ℤ}
    (hm : StakesMirrored (s.outputByKey κ) s.outputByHashMap.map s.escrow.escrow.map)
    (hin : ∀ (inputHash : ℕ) input, inputs[inputHash]? = some input →
      s.outputByHash κ inputHash = .ok (some input))
    (hout : ∀ (outputHash : ℕ) output key, outputs[outputHash]? = some (output, key) →
      s.outputByKey κ key = .ok (some output))
    (h : s.registerInputsAndOutputs κ lsn blockHash inputs outputs gamma blockReward = .ok s') :
    StakesMirrored (s'.outputByKey κ) s'.outputByHashMap.map s'.escrow.escrow.map := by
  obtain ⟨_, U₁, E₁, _, U₂, E₂, _, _, -, -, hspend, hcreate, -, rfl⟩ := registerInputsAndOutputs_eq_ok h
  -- an input is read under its unspent key
  have hin' : ∀ (inputHash : ℕ) input key, inputs[inputHash]? = some input →
      s.outputByHashMap.map[inputHash]? = some key → s.outputByKey κ key = .ok (some input) := by
    intro inputHash input key hi hkey
    have hread := hin inputHash input hi
    rwa [outputByHash_eq, hkey] at hread
  exact (hm.foldlM_spendInput hin' hspend).foldlM_createOutput hout hcreate

/-- `register_micro_block` is the register of the block's inputs and outputs
    over the chain's unspent outputs, escrow and disk: its transactions and
    its leaders write none of them. -/
theorem registerMicroBlock_registerInputsAndOutputs {b : MicroBlock Fr Pt} {r}
    (h : s.registerMicroBlock κ lsn b = .ok (r, s')) :
    ∃ (parts : MicroBlockParts Fr Pt) (sL sR : Blockchain Fr Pt),
      sL.outputByHashMap = s.outputByHashMap ∧ sL.escrow = s.escrow ∧ sL.database = s.database ∧
      sL.registerInputsAndOutputs κ lsn (κ.hashMicroBlockHeader b.header) parts.inputs parts.outputs
        parts.gamma parts.blockReward = .ok sR ∧
      (∀ (inputHash : ℕ) input, parts.inputs[inputHash]? = some input →
        s.outputByHash κ inputHash = .ok (some input)) ∧
      (∀ (outputHash : ℕ) output (key : OutputKey), parts.outputs[outputHash]? = some (output, key) →
        ∃ txId tx txoutId, key = .MicroBlock s.epoch s.offset txId txoutId ∧
          b.transactions[txId]? = some tx ∧ tx.txouts[txoutId]? = some output) ∧
      s'.outputByHashMap = sR.outputByHashMap ∧ s'.escrow = sR.escrow ∧ s'.database = sR.database := by
  obtain ⟨-, -, -, parts, sT, sL, sR, electionResultList, hfold, hL, hR, -, rfl⟩ :=
    registerMicroBlock_eq_ok h
  obtain ⟨⟨hT, -⟩, -, hin, hout⟩ := foldlM_registerMicroBlockTx hfold
  obtain ⟨hL, -⟩ := registerLeaders_eq_ok hL
  exact ⟨parts, sL, sR, by rw [hL, hT], by rw [hL, hT], by rw [hL, hT], hR, hin, hout, rfl, rfl, rfl⟩

/-- After `register_micro_block`, an unspent output was unspent before or is
    one of the block's. -/
theorem registerMicroBlock_getElem? {b : MicroBlock Fr Pt} {r}
    (h : s.registerMicroBlock κ lsn b = .ok (r, s')) {outputHash : ℕ} {key : OutputKey}
    (hk : s'.outputByHashMap.map[outputHash]? = some key) :
    s.outputByHashMap.map[outputHash]? = some key ∨ key.lsn = ⟨s.epoch, s.offset⟩ := by
  obtain ⟨parts, sL, sR, hU, -, -, hR, -, hout, hU', -, -⟩ := registerMicroBlock_registerInputsAndOutputs h
  rw [hU'] at hk
  rcases registerInputsAndOutputs_getElem? hR hk with hk | ⟨output, ho⟩
  · exact .inl (hU ▸ hk)
  · obtain ⟨txId, tx, txoutId, rfl, -⟩ := hout outputHash output key ho
    exact .inr rfl

/-- `register_micro_block` keeps the mirror, on a chain with the block
    stored at its position. -/
theorem registerMicroBlock_stakes {b : MicroBlock Fr Pt} {r}
    (hm : StakesMirrored (s.outputByKey κ) s.outputByHashMap.map s.escrow.escrow.map)
    (hb : s.database[(⟨s.epoch, s.offset⟩ : LSN)]? = some (.MicroBlock b))
    (h : s.registerMicroBlock κ lsn b = .ok (r, s')) :
    StakesMirrored (s'.outputByKey κ) s'.outputByHashMap.map s'.escrow.escrow.map := by
  obtain ⟨parts, sL, sR, hU, hE, hdb, hR, hin, hout, hU', hE', hdb'⟩ :=
    registerMicroBlock_registerInputsAndOutputs h
  have hm' : StakesMirrored (sL.outputByKey κ) sL.outputByHashMap.map sL.escrow.escrow.map := by
    rwa [hU, hE, outputByKey_eq_of_database hdb]
  -- an output of the block is read from the block on the disk
  have hout' : ∀ (outputHash : ℕ) output key, parts.outputs[outputHash]? = some (output, key) →
      sL.outputByKey κ key = .ok (some output) := by
    intro outputHash output key ho
    obtain ⟨txId, tx, txoutId, rfl, htx, hto⟩ := hout outputHash output key ho
    exact outputByKey_micro (hdb ▸ hb) htx hto
  have hsR := registerInputsAndOutputs_stakes hm'
    (fun inputHash input hi => (outputByHash_congr (by rw [hU]) hdb inputHash).trans (hin _ _ hi)) hout' hR
  rwa [hU', hE', outputByKey_eq_of_database hdb']

/-- `register_macro_block` is the register of the block's inputs and outputs
    over the chain's unspent outputs, escrow and disk, checkpointed after:
    its inputs are read from the unspent outputs, and its outputs are the
    block's, under their positions in it. -/
theorem registerMacroBlock_registerInputsAndOutputs {B : MacroBlock Fr Pt} {r}
    (h : s.registerMacroBlock κ lsn B = .ok (r, s')) :
    s.epoch = B.header.epoch ∧
    ∃ inputs outputs, ∃ sA sR : Blockchain Fr Pt,
      sA.outputByHashMap = s.outputByHashMap ∧ sA.escrow = s.escrow ∧ sA.database = s.database ∧
      sA.registerInputsAndOutputs κ lsn (κ.hashMacroBlockHeader B.header) inputs outputs
        B.header.gamma B.header.blockReward = .ok sR ∧
      (∀ (inputHash : ℕ) input, inputs[inputHash]? = some input →
        s.outputByHash κ inputHash = .ok (some input)) ∧
      (∀ (outputHash : ℕ) output (key : OutputKey), outputs[outputHash]? = some (output, key) →
        ∃ outputId, key = .MacroBlock B.header.epoch outputId ∧ B.outputs[outputId]? = some output) ∧
      s'.outputByHashMap.map = sR.outputByHashMap.map ∧ s'.escrow.escrow.map = sR.escrow.escrow.map ∧
      s'.database = sR.database := by
  obtain ⟨hepoch, -, outputs, inputs, outputs', compacted, sA, sR, electionResult, x,
    electionResultList, hout, hspent, hA, hR, -, rfl⟩ := registerMacroBlock_eq_ok h
  obtain ⟨hin, hkept⟩ := macroBlockSpent_eq_ok hspent
  exact ⟨hepoch, inputs, outputs', sA, sR, by rw [hA], by rw [hA], by rw [hA], hR, hin,
    fun outputHash output key ho => macroBlockOutputs_eq_ok hout (hkept _ _ ho), rfl, rfl, rfl⟩

/-- After `register_macro_block`, an unspent output was unspent before or is
    one of the block's. -/
theorem registerMacroBlock_getElem? {B : MacroBlock Fr Pt} {r}
    (h : s.registerMacroBlock κ lsn B = .ok (r, s')) {outputHash : ℕ} {key : OutputKey}
    (hk : s'.outputByHashMap.map[outputHash]? = some key) :
    s.outputByHashMap.map[outputHash]? = some key ∨ key.lsn = ⟨s.epoch, macroBlockOffset⟩ := by
  obtain ⟨hepoch, inputs, outputs, sA, sR, hU, -, -, hR, -, hout, hU', -, -⟩ :=
    registerMacroBlock_registerInputsAndOutputs h
  rw [hU'] at hk
  rcases registerInputsAndOutputs_getElem? hR hk with hk | ⟨output, ho⟩
  · exact .inl (hU ▸ hk)
  · obtain ⟨outputId, rfl, -⟩ := hout outputHash output key ho
    exact .inr (by rw [hepoch]; rfl)

/-- `register_macro_block` keeps the mirror, on a chain with the block stored
    at its position. -/
theorem registerMacroBlock_stakes {B : MacroBlock Fr Pt} {r}
    (hm : StakesMirrored (s.outputByKey κ) s.outputByHashMap.map s.escrow.escrow.map)
    (hb : s.database[(⟨s.epoch, macroBlockOffset⟩ : LSN)]? = some (.MacroBlock B))
    (h : s.registerMacroBlock κ lsn B = .ok (r, s')) :
    StakesMirrored (s'.outputByKey κ) s'.outputByHashMap.map s'.escrow.escrow.map := by
  obtain ⟨hepoch, inputs, outputs, sA, sR, hU, hE, hdb, hR, hin, hout, hU', hE', hdb'⟩ :=
    registerMacroBlock_registerInputsAndOutputs h
  have hm' : StakesMirrored (sA.outputByKey κ) sA.outputByHashMap.map sA.escrow.escrow.map := by
    rwa [hU, hE, outputByKey_eq_of_database hdb]
  -- an output of the block is read from the block on the disk
  have hout' : ∀ (outputHash : ℕ) output key, outputs[outputHash]? = some (output, key) →
      sA.outputByKey κ key = .ok (some output) := by
    intro outputHash output key ho
    obtain ⟨outputId, rfl, hid⟩ := hout outputHash output key ho
    have hread : sA.outputByKey κ (.MacroBlock B.header.epoch outputId) = .ok B.outputs[outputId]? :=
      outputByKey_macro (hdb ▸ hepoch ▸ hb) rfl
    rw [hread, hid]
  have hsR := registerInputsAndOutputs_stakes hm'
    (fun inputHash input hi => (outputByHash_congr (by rw [hU]) hdb inputHash).trans (hin _ _ hi)) hout' hR
  rwa [hU', hE', outputByKey_eq_of_database hdb']

end Register

end Blockchain

end Stegos
