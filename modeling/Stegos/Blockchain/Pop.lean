import Stegos.Blockchain.Writes

/-!
# Popping a micro block after pushing it

`pop_micro_block` takes the last micro block off the disk, rolls the six
indexes back to the position of the block before it (`lsnBefore`), resets
the view change, and reads the block's transactions back: the hashes of their
outputs are pruned, their inputs recovered from the unspent outputs.

The spec lemma of each part (`previousBlock_congr`, `rollbackIndexes_eq_ok`,
`resetViewChange_eq_ok`, `revertTransactions_eq`) and of the whole
(`popMicroBlock_eq_ok`) gives the result from facts about the chain it runs
on. On the chain a micro block was just pushed on, these facts follow from
the chain before the push, when its indexes were last written at or before
`lsnBefore` (`popMicroBlock_pushMicroBlock`): the block's writes all are at
its own position, after that, so the rollback undoes exactly them.
-/

namespace Stegos

open MultiVersionedMap

namespace Blockchain

section Revert

variable {Pt γ : Type}

/-- A loop over transactions that prunes the outputs of each and recovers its
    inputs: the outputs of all pruned in order, and the inputs of all
    recovered. -/
theorem foldlM_revert (ins outs : γ → List ℕ) (read : ℕ → Except Fault (Option (Output Pt)))
    {F : List ℕ × Std.ExtTreeMap ℕ (Output Pt) compare × List γ → γ →
      Except Fault (List ℕ × Std.ExtTreeMap ℕ (Output Pt) compare × List γ)}
    (hF : ∀ x pruned rec₀ removed,
      (∀ inputHash ∈ ins x, ∃ input, read inputHash = .ok (some input)) →
      ∃ rec removed', F (pruned, rec₀, removed) x = .ok (pruned ++ outs x, rec, removed') ∧
        ∀ (inputHash : ℕ) (input : Output Pt), rec[inputHash]? = some input ↔
          (rec₀[inputHash]? = some input ∧ inputHash ∉ ins x) ∨
            (inputHash ∈ ins x ∧ read inputHash = .ok (some input))) :
    ∀ (l : List γ) pruned rec₀ removed,
      (∀ x ∈ l, ∀ inputHash ∈ ins x, ∃ input, read inputHash = .ok (some input)) →
      ∃ rec removed', l.foldlM F (pruned, rec₀, removed) =
          .ok (pruned ++ l.flatMap outs, rec, removed') ∧
        ∀ (inputHash : ℕ) (input : Output Pt), rec[inputHash]? = some input ↔
          (rec₀[inputHash]? = some input ∧ inputHash ∉ l.flatMap ins) ∨
            (inputHash ∈ l.flatMap ins ∧ read inputHash = .ok (some input))
  | [], pruned, rec₀, removed, _ => ⟨rec₀, removed, by simp [pure, Except.pure], by simp⟩
  | x :: l, pruned, rec₀, removed, hread => by
    obtain ⟨rec₁, removed₁, hx, hiff₁⟩ := hF x pruned rec₀ removed (hread x List.mem_cons_self)
    obtain ⟨rec, removed', hl, hiff⟩ :=
      foldlM_revert ins outs read hF l (pruned ++ outs x) rec₁ removed₁
        (fun y hy => hread y (List.mem_cons_of_mem x hy))
    refine ⟨rec, removed', ?_, fun h o => ?_⟩
    · rw [List.foldlM_cons, hx]
      simpa [bind, Except.bind] using hl
    · rw [hiff, hiff₁]
      simp only [List.flatMap_cons, List.mem_append, not_or]
      tauto

end Revert

variable {Fr Pt : Type} [AddCommGroup Fr] [AddCommGroup Pt] {κ : Crypto Fr Pt}
  {s s' : Blockchain Fr Pt}

/-- The block before an offset is read at its position only. -/
theorem previousBlock_congr {offset : ℕ} (he : s'.epoch = s.epoch)
    (hdb : s'.database[lsnBefore s.epoch offset]? = s.database[lsnBefore s.epoch offset]?) :
    s'.previousBlock κ offset = s.previousBlock κ offset := by
  by_cases h0 : offset = 0 <;>
    simp_all [previousBlock, lsnBefore, macroBlock, microBlock, block]

omit [AddCommGroup Fr] [AddCommGroup Pt] in
/-- The rollback of `pop_micro_block`, when every index rolls back and the
    code's assertions on their positions hold. -/
theorem rollbackIndexes_eq_ok {lsn : LSN} {blockByHash : MultiVersionedMap ℕ LSN LSN}
    {outputByHashMap : MultiVersionedMap ℕ OutputKey LSN}
    {balanceMap : MultiVersionedMap Unit (Balance Fr Pt) LSN}
    {escrow : MultiVersionedMap EscrowKey EscrowValue LSN}
    {epochActivity : MultiVersionedMap ℕ ValidatorAwardState LSN}
    {electionResultList : MultiVersionedMap Unit ElectionResult LSN}
    (hb : s.blockByHash.rollbackToLsn lsn = .ok blockByHash)
    (ho : s.outputByHashMap.rollbackToLsn lsn = .ok outputByHashMap)
    (hm : s.balanceMap.rollbackToLsn lsn = .ok balanceMap)
    (he : s.escrow.escrow.rollbackToLsn lsn = .ok escrow)
    (ha : s.epochActivity.rollbackToLsn lsn = .ok epochActivity)
    (hr : s.electionResultList.rollbackToLsn lsn = .ok electionResultList)
    (hbc : blockByHash.currentLsn = lsn) (hrc : electionResultList.currentLsn = lsn) :
    s.rollbackIndexes lsn = .ok { s with
      blockByHash, outputByHashMap, balanceMap, escrow := ⟨escrow⟩, epochActivity,
      electionResultList } := by
  -- the other assertions hold of any rollback that does not panic
  have hoc := (rollbackToLsn_eq_ok ho).2.2
  have hmc := (rollbackToLsn_eq_ok hm).2.2
  have hec := (rollbackToLsn_eq_ok he).2.2
  have hac := (rollbackToLsn_eq_ok ha).2.2
  simp [rollbackIndexes, Escrow.rollbackToLsn, Escrow.currentLsn, hb, ho, hm, he, ha, hr, hbc, hrc,
    hoc, hmc, hec, hac, check, Except.mapError, bind, Except.bind, pure, Except.pure]

omit [AddCommGroup Fr] [AddCommGroup Pt] in
/-- `reset_view_change` writes the election result with no view change at the
    current position. -/
theorem resetViewChange_eq_ok {er : ElectionResult} {x}
    {electionResultList : MultiVersionedMap Unit ElectionResult LSN}
    (her : s.electionResultList.get () = some er)
    (hins : s.electionResultList.insert ⟨s.epoch, s.offset⟩ () { er with viewChange := 0 } =
      .ok (x, electionResultList)) :
    s.resetViewChange = .ok { s with electionResultList, viewChangeProof := none } := by
  simp [resetViewChange, electionResult, unwrap, expect, her, hins, Except.mapError, bind,
    Except.bind, pure, Except.pure]

/-- The transactions reverted by `pop_micro_block`: the hashes of their
    outputs pruned in order, and their inputs recovered with the outputs read
    for them. -/
theorem revertTransactions_eq (s : Blockchain Fr Pt) {txs : List (Transaction Fr Pt)}
    (hread : ∀ tx ∈ txs, ∀ inputHash ∈ tx.txins,
      ∃ input, s.outputByHash κ inputHash = .ok (some input)) :
    ∃ recovered removed, s.revertTransactions κ txs =
      .ok (txs.flatMap (fun tx => tx.txouts.map κ.hashOutput), recovered, removed) ∧
      ∀ inputHash input, recovered[inputHash]? = some input ↔
        inputHash ∈ txs.flatMap Transaction.txins ∧ s.outputByHash κ inputHash = .ok (some input) := by
  rw [revertTransactions]
  refine (foldlM_revert Transaction.txins (fun tx => tx.txouts.map κ.hashOutput) (s.outputByHash κ)
    ?step txs [] ∅ [] hread).imp fun rec => Exists.imp fun removed =>
      And.imp_right fun hiff inputHash input => by simpa using hiff inputHash input
  case step =>
    -- one transaction: its inputs recovered, its outputs pruned
    intro tx pruned rec₀ removed hr
    obtain ⟨rec, hrec, hiff⟩ := List.foldlM_insert_read
      (fun (recovered : Std.ExtTreeMap ℕ (Output Pt) compare) inputHash => do
        let input ← expect "exists" (← s.outputByHash κ inputHash)
        pure (recovered.insert inputHash input))
      (fun rec a o ha => by simp [ha, expect, bind, Except.bind, pure, Except.pure])
      tx.txins rec₀ hr
    dsimp only
    rw [hrec]
    cases tx <;> exact ⟨_, _, rfl, hiff⟩

/-- `pop_micro_block`, from the block before the last, the rollbacks of the
    indexes to it, and the election result reset: the chain with the last
    block taken off the disk, the rolled back indexes, the position and the
    hash of the block before, and the reset election result. -/
theorem popMicroBlock_eq_ok {b : MicroBlock Fr Pt} {previous : ℕ} {lsn : LSN} {timestamp : ℕ}
    {blockByHash : MultiVersionedMap ℕ LSN LSN}
    {outputByHashMap : MultiVersionedMap ℕ OutputKey LSN}
    {balanceMap : MultiVersionedMap Unit (Balance Fr Pt) LSN}
    {escrow : MultiVersionedMap EscrowKey EscrowValue LSN}
    {epochActivity : MultiVersionedMap ℕ ValidatorAwardState LSN}
    {ER₀ electionResultList : MultiVersionedMap Unit ElectionResult LSN} {er : ElectionResult} {x}
    {res : List ℕ × Std.ExtTreeMap ℕ (Output Pt) compare × List (Transaction Fr Pt)}
    (he : 0 < s.epoch) (ho : 0 < s.offset)
    (hb : s.microBlock κ s.epoch (s.offset - 1) = .ok b)
    (hprev : s.previousBlock κ (s.offset - 1) = .ok (previous, lsn, timestamp))
    (hbh : s.blockByHash.rollbackToLsn lsn = .ok blockByHash)
    (hoh : s.outputByHashMap.rollbackToLsn lsn = .ok outputByHashMap)
    (hbal : s.balanceMap.rollbackToLsn lsn = .ok balanceMap)
    (hesc : s.escrow.escrow.rollbackToLsn lsn = .ok escrow)
    (hact : s.epochActivity.rollbackToLsn lsn = .ok epochActivity)
    (her : s.electionResultList.rollbackToLsn lsn = .ok ER₀)
    (hbc : blockByHash.currentLsn = lsn) (hrc : ER₀.currentLsn = lsn)
    (hget : ER₀.get () = some er)
    (hins : ER₀.insert ⟨s.epoch, s.offset - 1⟩ () { er with viewChange := 0 } =
      .ok (x, electionResultList))
    {s₂ : Blockchain Fr Pt}
    (hs₂ : { s with
      database := s.database.erase ⟨s.epoch, s.offset - 1⟩
      blockByHash, outputByHashMap, balanceMap, escrow := ⟨escrow⟩, epochActivity,
      offset := s.offset - 1, lastBlockHash := previous, lastBlockTimestamp := timestamp,
      electionResultList, viewChangeProof := none } = s₂)
    (hrev : s₂.revertTransactions κ b.transactions = .ok res) :
    s.popMicroBlock κ = .ok ((res.1, res.2.1, res.2.2, b), s₂) := by
  subst hs₂
  have hidx : ({ s with database := s.database.erase ⟨s.epoch, s.offset - 1⟩ } :
      Blockchain Fr Pt).rollbackIndexes lsn = .ok { s with
        database := s.database.erase ⟨s.epoch, s.offset - 1⟩
        blockByHash, outputByHashMap, balanceMap, escrow := ⟨escrow⟩, epochActivity,
        electionResultList := ER₀ } :=
    rollbackIndexes_eq_ok hbh hoh hbal hesc hact her hbc hrc
  have hreset : ({ s with
      database := s.database.erase ⟨s.epoch, s.offset - 1⟩
      blockByHash, outputByHashMap, balanceMap, escrow := ⟨escrow⟩, epochActivity,
      offset := s.offset - 1, lastBlockHash := previous, lastBlockTimestamp := timestamp,
      electionResultList := ER₀ } : Blockchain Fr Pt).resetViewChange = .ok { s with
        database := s.database.erase ⟨s.epoch, s.offset - 1⟩
        blockByHash, outputByHashMap, balanceMap, escrow := ⟨escrow⟩, epochActivity,
        offset := s.offset - 1, lastBlockHash := previous, lastBlockTimestamp := timestamp,
        electionResultList, viewChangeProof := none } :=
    resetViewChange_eq_ok hget hins
  simp only [popMicroBlock, check, he, ho, if_true, hb, hprev, bind, Except.bind]
  rw [hidx]
  dsimp only
  rw [hreset]
  dsimp only
  rw [hrev]
  rfl

/-- The chain as its last block left it, before the position
    `⟨epoch, offset⟩` of the next one: nothing is stored from that position
    on; the last block is read back as the one before it, at
    `lsnBefore epoch offset`; every index was written last at or before that
    position, the block hashes exactly there, and the election result there
    too but for a view change written at the current position; and the key of
    every unspent output points at a stored block. -/
structure Settled (κ : Crypto Fr Pt) (s : Blockchain Fr Pt) : Prop where
  epoch_pos : 0 < s.epoch
  database_none : ∀ lsn : LSN, ⟨s.epoch, s.offset⟩ ≤ lsn → s.database[lsn]? = none
  previousBlock_eq : s.previousBlock κ s.offset =
    .ok (s.lastBlockHash, lsnBefore s.epoch s.offset, s.lastBlockTimestamp)
  blockByHash : UpTo (lsnBefore s.epoch s.offset) s.blockByHash
  blockByHash_currentLsn : s.blockByHash.currentLsn = lsnBefore s.epoch s.offset
  outputByHashMap : UpTo (lsnBefore s.epoch s.offset) s.outputByHashMap
  balanceMap : UpTo (lsnBefore s.epoch s.offset) s.balanceMap
  escrow : UpTo (lsnBefore s.epoch s.offset) s.escrow.escrow
  epochActivity : UpTo (lsnBefore s.epoch s.offset) s.epochActivity
  electionResultList : ∃ ER₀, s.electionResultList.rollbackToLsn (lsnBefore s.epoch s.offset) =
      .ok ER₀ ∧ ER₀.currentLsn = lsnBefore s.epoch s.offset ∧
    ∃ er₀ n, ER₀.get () = some er₀ ∧ s.electionResultList.get () = some { er₀ with viewChange := n }
  keys_mem : ∀ (h : ℕ) (key : OutputKey), s.outputByHashMap.map[h]? = some key → key.lsn ∈ s.database

/-- Storing a block at a free position changes no read of an unspent output
    whose key points at a stored block. -/
theorem outputByHash_writeBlock {lsn : LSN} {blk : Block Fr Pt} (hfree : s.database[lsn]? = none)
    (hkeys : ∀ (h : ℕ) (key : OutputKey), s.outputByHashMap.map[h]? = some key → key.lsn ∈ s.database)
    (outputHash : ℕ) :
    (s.writeBlock lsn blk).outputByHash κ outputHash = s.outputByHash κ outputHash := by
  rw [outputByHash_eq, outputByHash_eq]
  dsimp only [writeBlock]
  cases hk : s.outputByHashMap.map[outputHash]? with
  | none => rfl
  | some key => exact outputByKey_writeBlock hfree (hkeys _ _ hk)

section PushPop

variable [DecidableEq Pt]

theorem pushMicroBlock_eq_ok {b : MicroBlock Fr Pt} {timestamp : ℕ} {r}
    (h : s.pushMicroBlock κ b timestamp = .ok (r, s')) :
    s.epoch = b.header.epoch ∧ s.offset = b.header.offset ∧
      (s.writeBlock ⟨s.epoch, s.offset⟩ (.MicroBlock b)).registerMicroBlock κ ⟨s.epoch, s.offset⟩ b =
        .ok (r, s') := by
  obtain ⟨⟨⟩, he, h⟩ := Except.bind_eq_ok.1 h
  obtain ⟨⟨⟩, ho, h⟩ := Except.bind_eq_ok.1 h
  refine ⟨check_eq_ok.1 he, check_eq_ok.1 ho, ?_⟩
  -- the consistency check validates the block and changes nothing
  dsimp only at h
  split at h
  · obtain ⟨⟨⟩, -, h⟩ := Except.bind_eq_ok.1 h
    exact h
  · exact h

/-- Popping the micro block just pushed on a settled chain gives the chain
    back, with the view change of its election result reset; the block's
    outputs are pruned, and its inputs recovered as they were read before. -/
theorem popMicroBlock_pushMicroBlock {b : MicroBlock Fr Pt} {timestamp : ℕ} {r}
    {ER₀ : MultiVersionedMap Unit ElectionResult LSN} {er₀ : ElectionResult}
    (hs : s.Settled κ)
    (her : s.electionResultList.rollbackToLsn (lsnBefore s.epoch s.offset) = .ok ER₀)
    (hget : ER₀.get () = some er₀)
    (h : s.pushMicroBlock κ b timestamp = .ok (r, s')) :
    ∃ x electionResultList recovered removed,
      ER₀.insert ⟨s.epoch, s.offset⟩ () { er₀ with viewChange := 0 } = .ok (x, electionResultList) ∧
      s'.popMicroBlock κ = .ok ((b.transactions.flatMap (fun tx => tx.txouts.map κ.hashOutput),
        recovered, removed, b), { s with electionResultList, viewChangeProof := none }) ∧
      ∀ inputHash input, recovered[inputHash]? = some input ↔
        inputHash ∈ b.transactions.flatMap Transaction.txins ∧
          s.outputByHash κ inputHash = .ok (some input) := by
  obtain ⟨-, -, hreg⟩ := pushMicroBlock_eq_ok h
  have hlt : lsnBefore s.epoch s.offset < ⟨s.epoch, s.offset⟩ := lsnBefore_lt hs.epoch_pos
  have hfree : s.database[(⟨s.epoch, s.offset⟩ : LSN)]? = none := hs.database_none _ le_rfl
  -- the inputs of the block were read on the chain with the block stored
  have hread : ∀ tx ∈ b.transactions, ∀ inputHash ∈ tx.txins,
      ∃ input, s.outputByHash κ inputHash = .ok (some input) := by
    obtain ⟨-, -, -, parts, sT, -, -, -, hfold, -⟩ := registerMicroBlock_eq_ok hreg
    intro tx htx inputHash hi
    obtain ⟨input, hinput⟩ := (foldlM_registerMicroBlockTx hfold).2.1 tx htx inputHash hi
    exact ⟨input, by rwa [outputByHash_writeBlock hfree hs.keys_mem] at hinput⟩
  have hER₀ : ER₀.currentLsn = lsnBefore s.epoch s.offset := by
    obtain ⟨ER₀', her', hcur, -⟩ := hs.electionResultList
    rw [her] at her'
    cases her'
    exact hcur
  obtain ⟨erl, hins⟩ : ∃ m', ER₀.insert ⟨s.epoch, s.offset⟩ () { er₀ with viewChange := 0 } =
      .ok (ER₀.map[()]?, m') := insert_ok (le_of_lt (hER₀ ▸ hlt))
  obtain ⟨recovered, removed, hrev, hiff⟩ :=
    revertTransactions_eq { s with electionResultList := erl, viewChangeProof := none } hread
  obtain ⟨s₁, hw, -, -, -, hs'⟩ := registerMicroBlock_writes hreg
  obtain ⟨blockByHash, outputByHashMap, balanceMap, escrow, electionResultList, epochActivity, rfl⟩ :
      ∃ bbh U M E R A, s₁ = { s.writeBlock ⟨s.epoch, s.offset⟩ (.MicroBlock b) with
        blockByHash := bbh, outputByHashMap := U, balanceMap := M, escrow := E,
        electionResultList := R, epochActivity := A } :=
    ⟨_, _, _, _, _, _, hw.eq⟩
  -- the pushed chain: the block stored at the position of `s`, the next offset
  have hepoch : s'.epoch = s.epoch := by rw [hs']; rfl
  have hoffset : s'.offset - 1 = s.offset := by rw [hs']; rfl
  have hdatabase : s'.database = s.database.insert ⟨s.epoch, s.offset⟩ (.MicroBlock b) := by
    rw [hs']; rfl
  have hb : s'.microBlock κ s'.epoch (s'.offset - 1) = .ok b := by
    rw [hepoch, hoffset]
    simp [microBlock, block, hdatabase, expect, bind, Except.bind, pure, Except.pure]
  have hprev : s'.previousBlock κ (s'.offset - 1) =
      .ok (s.lastBlockHash, lsnBefore s.epoch s.offset, s.lastBlockTimestamp) := by
    rw [hoffset, previousBlock_congr hepoch (by simp [hdatabase, Std.ExtTreeMap.getElem?_insert, hlt.ne'])]
    exact hs.previousBlock_eq
  -- every index rolls back to what it was before the push
  have hbh : s'.blockByHash.rollbackToLsn (lsnBefore s.epoch s.offset) = .ok s.blockByHash := by
    rw [hs']; exact hs.blockByHash.rollbackToLsn_eq_ok hw.blockByHash hlt
  have hoh : s'.outputByHashMap.rollbackToLsn (lsnBefore s.epoch s.offset) = .ok s.outputByHashMap := by
    rw [hs']; exact hs.outputByHashMap.rollbackToLsn_eq_ok hw.outputByHashMap hlt
  have hbal : s'.balanceMap.rollbackToLsn (lsnBefore s.epoch s.offset) = .ok s.balanceMap := by
    rw [hs']; exact hs.balanceMap.rollbackToLsn_eq_ok hw.balanceMap hlt
  have hesc : s'.escrow.escrow.rollbackToLsn (lsnBefore s.epoch s.offset) = .ok s.escrow.escrow := by
    rw [hs']; exact hs.escrow.rollbackToLsn_eq_ok hw.escrow hlt
  have hact : s'.epochActivity.rollbackToLsn (lsnBefore s.epoch s.offset) = .ok s.epochActivity := by
    rw [hs']; exact hs.epochActivity.rollbackToLsn_eq_ok hw.epochActivity hlt
  have her' : s'.electionResultList.rollbackToLsn (lsnBefore s.epoch s.offset) = .ok ER₀ := by
    rw [hs', ← her]; exact hw.electionResultList.rollbackToLsn_eq _ hlt
  have hins' : ER₀.insert ⟨s'.epoch, s'.offset - 1⟩ () { er₀ with viewChange := 0 } =
      .ok (ER₀.map[()]?, erl) := by
    rw [hepoch, hoffset]; exact hins
  have hoffset' : 0 < s'.offset := by rw [hs']; exact Nat.succ_pos _
  refine ⟨_, erl, recovered, removed, hins, popMicroBlock_eq_ok (hs.epoch_pos.trans_eq hepoch.symm)
    hoffset' hb hprev hbh hoh hbal hesc hact her' hs.blockByHash_currentLsn hER₀ hget hins' ?_ hrev,
    hiff⟩
  -- what the pop rebuilds is the chain before the push
  rw [hs']
  simp [writeBlock, Std.ExtTreeMap.erase_insert_of_getElem?_eq_none hfree]

end PushPop

end Blockchain

end Stegos
