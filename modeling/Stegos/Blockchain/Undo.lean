import Stegos.Blockchain.Pop
import Stegos.Blockchain.Stakes
import Stegos.Blockchain.Mirror

/-!
# Popping undoes pushing, along every run

`pop_micro_block` is the undo of `push_micro_block`: it rolls the six indexes
back to the block before the last. For the rollback to give the chain before
the push back, every index must have been written at or after that block
only by the push, which depends on the whole run that reached the chain.

The invariant of the chains reached from genesis (`Good`) says so: a good
chain is settled (`Settled`), its election result is written last at or
before its position, its escrow mirrors its stakes (`StakesMirrored`), and
popping its last block gives a good chain again. Every call keeps it
(`Good.step`): a micro block push, by the pop lemma of the previous module
(`popMicroBlock_pushMicroBlock`); a pop, by the last clause; a macro block
push, from a chain ready for it (`ReadyForMacroBlock.pushMacroBlock`); and a
view change, written at the current position, which a pop rolls back
(`popMicroBlock_electionResultList`). The chain of a genesis block is good
(`Good.new`), so every chain reached from genesis is (`Good.of_reachable`).

Two results over every chain reached from genesis follow:

* `popMicroBlock_undoes_pushMicroBlock`: popping a micro block right after
  pushing it gives the chain back, with the election result reset to no view
  change and no view change proof; the pop prunes the hashes of the block's
  outputs and recovers its inputs as they were read before the push;
* `escrow_mirrors_stakes`: the escrow holds a stake under a validator and an
  output hash, for an account and an amount, exactly when the unspent output
  under that hash is a stake output of that validator, account and amount.
-/
namespace Stegos

open MultiVersionedMap

namespace Blockchain

variable {Fr Pt : Type} [AddCommGroup Fr] [AddCommGroup Pt] {κ : Crypto Fr Pt}
  {s s' : Blockchain Fr Pt}

/-! ### The election result and the view change -/

/-- The block before an offset is at the position before it. -/
theorem previousBlock_lsn {offset previous timestamp : ℕ} {lsn : LSN}
    (h : s.previousBlock κ offset = .ok (previous, lsn, timestamp)) : lsn = lsnBefore s.epoch offset := by
  unfold previousBlock at h
  split at h
  · obtain ⟨b, -, h⟩ := Except.bind_eq_ok.1 h
    cases h
    simp [lsnBefore, *]
  · obtain ⟨b, -, h⟩ := Except.bind_eq_ok.1 h
    cases h
    simp [lsnBefore, *]

omit [AddCommGroup Fr] [AddCommGroup Pt] in
/-- Rolling back a chain whose election result differs rolls back the other
    indexes as before. -/
theorem rollbackIndexes_electionResultList (s : Blockchain Fr Pt) (p : Option ViewChangeProof)
    {ER : MultiVersionedMap Unit ElectionResult LSN} {lsn : LSN}
    (h : ER.rollbackToLsn lsn = s.electionResultList.rollbackToLsn lsn) :
    ({ s with electionResultList := ER, viewChangeProof := p }).rollbackIndexes lsn =
      (fun t => { t with viewChangeProof := p }) <$> s.rollbackIndexes lsn := by
  simp only [rollbackIndexes, h, map_bind, map_pure]

/-- A pop reads the election result only as it rolls it back to the block
    before the last: a chain whose election result rolls back there as the
    chain's does, whatever its view change, pops to the same chain. -/
theorem popMicroBlock_electionResultList {ER : MultiVersionedMap Unit ElectionResult LSN}
    {p : Option ViewChangeProof}
    (h : ER.rollbackToLsn (lsnBefore s.epoch (s.offset - 1)) =
      s.electionResultList.rollbackToLsn (lsnBefore s.epoch (s.offset - 1))) :
    ({ s with electionResultList := ER, viewChangeProof := p }).popMicroBlock κ = s.popMicroBlock κ := by
  by_cases hpos : 0 < s.epoch ∧ 0 < s.offset
  · obtain ⟨he, ho⟩ := hpos
    -- the blocks are read from the disk, which is the same
    have hb : ({ s with electionResultList := ER, viewChangeProof := p }).microBlock κ s.epoch
        (s.offset - 1) = s.microBlock κ s.epoch (s.offset - 1) := rfl
    have hp : ({ s with electionResultList := ER, viewChangeProof := p }).previousBlock κ
        (s.offset - 1) = s.previousBlock κ (s.offset - 1) := rfl
    simp only [popMicroBlock, check, he, ho, if_true, hb, hp]
    cases hprev : s.previousBlock κ (s.offset - 1) with
    | error e => rfl
    | ok r =>
      obtain ⟨previous, lsn, timestamp⟩ := r
      have hidx := rollbackIndexes_electionResultList
        { s with database := s.database.erase ⟨s.epoch, s.offset - 1⟩ } p (previousBlock_lsn hprev ▸ h)
      simp only [bind, Except.bind] at hidx ⊢
      rw [hidx]
      -- the view change proof the rollback keeps is reset after it
      cases ({ s with database := s.database.erase ⟨s.epoch, s.offset - 1⟩ }).rollbackIndexes lsn <;> rfl
  · rw [not_and_or] at hpos
    rcases hpos with he | ho
    · simp only [popMicroBlock, check, he, if_false]; rfl
    · simp only [popMicroBlock, check, ho, if_false]; rfl

omit [AddCommGroup Fr] [AddCommGroup Pt] in
/-- `set_view_change` writes the election result, with the new view change,
    at the current position. -/
theorem setViewChange_writes {viewChange : ℕ} {proof : ViewChangeProof}
    (h : s.setViewChange viewChange proof = .ok s') :
    ∃ er x ER, s.electionResultList.get () = some er ∧
      s.electionResultList.insert ⟨s.epoch, s.offset⟩ () { er with viewChange } = .ok (x, ER) ∧
      s' = { s with electionResultList := ER, viewChangeProof := some proof } := by
  obtain ⟨_, -, h⟩ := Except.bind_eq_ok.1 h
  obtain ⟨⟨⟩, -, h⟩ := Except.bind_eq_ok.1 h
  obtain ⟨er, her, h⟩ := Except.bind_eq_ok.1 h
  obtain ⟨⟨x, ER⟩, hins, h⟩ := Except.bind_eq_ok.1 h
  cases h
  exact ⟨er, x, ER, expect_eq_ok.1 her, Except.mapError_eq_ok.1 hins, rfl⟩

omit [AddCommGroup Fr] [AddCommGroup Pt] in
/-- `reset_view_change` writes the election result, with no view change, at
    the current position. -/
theorem resetViewChange_writes (h : s.resetViewChange = .ok s') :
    ∃ er x ER, s.electionResultList.get () = some er ∧
      s.electionResultList.insert ⟨s.epoch, s.offset⟩ () { er with viewChange := 0 } = .ok (x, ER) ∧
      s' = { s with electionResultList := ER, viewChangeProof := none } := by
  obtain ⟨er, her, h⟩ := Except.bind_eq_ok.1 h
  obtain ⟨⟨x, ER⟩, hins, h⟩ := Except.bind_eq_ok.1 h
  cases h
  exact ⟨er, x, ER, expect_eq_ok.1 her, Except.mapError_eq_ok.1 hins, rfl⟩

/-- A pop takes a micro block off the epoch: there is one. -/
theorem popMicroBlock_offset_pos {r} (h : s.popMicroBlock κ = .ok (r, s')) : 0 < s.offset := by
  obtain ⟨⟨⟩, -, h⟩ := Except.bind_eq_ok.1 h
  obtain ⟨⟨⟩, ho, -⟩ := Except.bind_eq_ok.1 h
  exact check_eq_ok.1 ho

/-! ### Pushing a micro block -/

section Push

variable [DecidableEq Pt]

/-- Pushing a micro block on a settled chain whose election result is written
    last at or before its position gives such a chain, one position on. -/
theorem Settled.pushMicroBlock (hs : s.Settled κ)
    (hER : UpTo ⟨s.epoch, s.offset⟩ s.electionResultList) {b : MicroBlock Fr Pt} {timestamp : ℕ} {r}
    (h : s.pushMicroBlock κ b timestamp = .ok (r, s')) :
    s'.Settled κ ∧ UpTo ⟨s'.epoch, s'.offset⟩ s'.electionResultList := by
  obtain ⟨-, -, hreg⟩ := pushMicroBlock_eq_ok h
  have hlt : lsnBefore s.epoch s.offset < ⟨s.epoch, s.offset⟩ := lsnBefore_lt hs.epoch_pos
  obtain ⟨s₁, hw, hbc, hrc, hget, rfl⟩ := registerMicroBlock_writes hreg
  -- the pushed chain: the block stored at the position of `s`, the next offset
  have hepoch : s₁.epoch = s.epoch := hw.epoch
  have hdatabase : s₁.database = s.database.insert ⟨s.epoch, s.offset⟩ (.MicroBlock b) := hw.database
  have hL : lsnBefore s.epoch (s.offset + 1) = ⟨s.epoch, s.offset⟩ := lsnBefore_succ _ _
  -- the election result is written last at the position of `s`
  have hER₁ : UpTo ⟨s.epoch, s.offset⟩ s₁.electionResultList :=
    hER.writtenAt hw.electionResultList le_rfl
  obtain ⟨er, her⟩ := Option.isSome_iff_exists.1 hget
  have hsettled : Settled κ { s₁ with
      lastBlockTimestamp := b.header.timestamp, lastBlockHash := κ.hashMicroBlockHeader b.header,
      offset := s.offset + 1, viewChangeProof := none } := by
    constructor
    · exact hepoch ▸ hs.epoch_pos
    · -- nothing is stored after the block
      intro lsn hle
      have hne : lsn ≠ ⟨s.epoch, s.offset⟩ := by
        rintro rfl
        simp only [hepoch, LSN.le_iff, lt_irrefl, true_and, false_or] at hle
        omega
      have hle' : (⟨s.epoch, s.offset⟩ : LSN) ≤ lsn := by
        simp only [hepoch, LSN.le_iff] at hle ⊢
        omega
      simp [hdatabase, Std.ExtTreeMap.getElem?_insert, Ne.symm hne, hs.database_none lsn hle']
    · simp [previousBlock, microBlock, block, hepoch, hdatabase, lsnBefore, expect, bind,
        Except.bind, pure, Except.pure]
    · simpa [hepoch, hL] using hs.blockByHash.writtenAt hw.blockByHash hlt.le
    · simpa [hepoch, hL] using hbc
    · simpa [hepoch, hL] using hs.outputByHashMap.writtenAt hw.outputByHashMap hlt.le
    · simpa [hepoch, hL] using hs.balanceMap.writtenAt hw.balanceMap hlt.le
    · simpa [hepoch, hL] using hs.escrow.writtenAt hw.escrow hlt.le
    · simpa [hepoch, hL] using hs.epochActivity.writtenAt hw.epochActivity hlt.le
    · -- the election result was last written at the block's position
      simp only [hepoch, hL]
      exact ⟨s₁.electionResultList, hER₁.rollbackToLsn_self, hrc, er, er.viewChange, her, her⟩
    · -- an unspent output is an old one, on the disk before, or one of the block's
      intro outputHash key hk
      rw [hdatabase, Std.ExtTreeMap.mem_insert_iff]
      rcases registerMicroBlock_getElem? hreg hk with hk | hk
      · exact .inr (hs.keys_mem _ _ hk)
      · exact .inl hk
  refine ⟨hsettled, hER₁.mono ?_⟩
  simp [hepoch, LSN.le_iff, writeBlock]

/-- Pushing a micro block on a settled chain keeps the mirror. -/
theorem stakes_pushMicroBlock (hs : s.Settled κ)
    (hm : StakesMirrored (s.outputByKey κ) s.outputByHashMap.map s.escrow.escrow.map)
    {b : MicroBlock Fr Pt} {timestamp : ℕ} {r} (h : s.pushMicroBlock κ b timestamp = .ok (r, s')) :
    StakesMirrored (s'.outputByKey κ) s'.outputByHashMap.map s'.escrow.escrow.map := by
  obtain ⟨-, -, hreg⟩ := pushMicroBlock_eq_ok h
  exact registerMicroBlock_stakes (stakes_writeBlock hm (hs.database_none _ le_rfl) hs.keys_mem)
    (by simp [writeBlock]) hreg

end Push

/-! ### Pushing a macro block -/

/-- The chain at the start of an epoch, before its macro block: nothing is
    stored from the epoch on, every index is written last at or before the
    macro block's position, the key of every unspent output points at a
    stored block, and the escrow mirrors the stakes. -/
structure ReadyForMacroBlock (κ : Crypto Fr Pt) (s : Blockchain Fr Pt) : Prop where
  database_none : ∀ lsn : LSN, ⟨s.epoch, 0⟩ ≤ lsn → s.database[lsn]? = none
  blockByHash : UpTo ⟨s.epoch, macroBlockOffset⟩ s.blockByHash
  outputByHashMap : UpTo ⟨s.epoch, macroBlockOffset⟩ s.outputByHashMap
  balanceMap : UpTo ⟨s.epoch, macroBlockOffset⟩ s.balanceMap
  escrow : UpTo ⟨s.epoch, macroBlockOffset⟩ s.escrow.escrow
  electionResultList : UpTo ⟨s.epoch, macroBlockOffset⟩ s.electionResultList
  keys_mem : ∀ (h : ℕ) (key : OutputKey), s.outputByHashMap.map[h]? = some key → key.lsn ∈ s.database
  stakes : StakesMirrored (s.outputByKey κ) s.outputByHashMap.map s.escrow.escrow.map

section Macro

variable [DecidableEq Pt]

theorem pushMacroBlock_eq_ok {B : MacroBlock Fr Pt} {timestamp : ℕ} {r}
    (h : s.pushMacroBlock κ B timestamp = .ok (r, s')) :
    s.epoch = B.header.epoch ∧ s.offset = 0 ∧
      (s.writeBlock ⟨s.epoch, macroBlockOffset⟩ (.MacroBlock B)).registerMacroBlock κ
        ⟨s.epoch, macroBlockOffset⟩ B = .ok (r, s') := by
  obtain ⟨⟨⟩, he, h⟩ := Except.bind_eq_ok.1 h
  obtain ⟨⟨⟩, ho, h⟩ := Except.bind_eq_ok.1 h
  refine ⟨check_eq_ok.1 he, check_eq_ok.1 ho, ?_⟩
  -- the consistency check validates the block and changes nothing
  dsimp only at h
  split at h
  · obtain ⟨⟨⟩, -, h⟩ := Except.bind_eq_ok.1 h
    exact h
  · exact h

/-- Pushing the macro block of an epoch on a chain ready for it settles the
    chain at the start of the next epoch, with the escrow mirroring the
    stakes. -/
theorem ReadyForMacroBlock.pushMacroBlock (hr : s.ReadyForMacroBlock κ) {B : MacroBlock Fr Pt}
    {timestamp : ℕ} {r} (h : s.pushMacroBlock κ B timestamp = .ok (r, s')) :
    s'.offset = 0 ∧ s'.Settled κ ∧ UpTo ⟨s'.epoch, s'.offset⟩ s'.electionResultList ∧
      StakesMirrored (s'.outputByKey κ) s'.outputByHashMap.map s'.escrow.escrow.map := by
  obtain ⟨-, -, hreg⟩ := pushMacroBlock_eq_ok h
  have hfree : s.database[(⟨s.epoch, macroBlockOffset⟩ : LSN)]? = none :=
    hr.database_none _ (by simp [LSN.le_iff])
  have hstakes := registerMacroBlock_stakes (stakes_writeBlock hr.stakes hfree hr.keys_mem)
    (by simp [writeBlock]) hreg
  obtain ⟨hepoch, -, outputs, inputs, outputs', compacted, sA, sR, electionResult, x,
    electionResultList, -, -, hA, hR, hins, rfl⟩ := registerMacroBlock_eq_ok hreg
  obtain ⟨hw, hbc⟩ := registerInputsAndOutputs_writes hR
  rw [hA] at hw
  have hep : sR.epoch = s.epoch := hw.epoch
  have hdb : sR.database = s.database.insert ⟨s.epoch, macroBlockOffset⟩ (.MacroBlock B) := hw.database
  have hL : lsnBefore (sR.epoch + 1) 0 = ⟨s.epoch, macroBlockOffset⟩ := by simp [lsnBefore, hep]
  -- the election result of the next epoch, written last at the block's position
  have hER : UpTo ⟨s.epoch, macroBlockOffset⟩ electionResultList :=
    (hr.electionResultList.writtenAt hw.electionResultList le_rfl).writtenAt (.of_insert hins) le_rfl
  have hget : electionResultList.get () = some electionResult := by
    obtain ⟨-, -, rfl⟩ := insert_eq_ok hins
    simp [MultiVersionedMap.get]
  refine ⟨rfl, ⟨Nat.succ_pos _, ?_, ?_, ?_, ?_, ?_, ?_, ?_, ?_, ?_, ?_⟩, ?_, hstakes⟩
  · -- nothing is stored in the next epoch
    intro lsn hle
    have hne : lsn ≠ ⟨s.epoch, macroBlockOffset⟩ := by
      rintro rfl
      simp only [hep, LSN.le_iff] at hle
      omega
    have hle' : (⟨s.epoch, 0⟩ : LSN) ≤ lsn := by
      simp only [hep, LSN.le_iff] at hle ⊢
      omega
    simp [hdb, Std.ExtTreeMap.getElem?_insert, Ne.symm hne, hr.database_none lsn hle']
  · simp [previousBlock, macroBlock, block, hep, hdb, lsnBefore, expect, bind, Except.bind, pure,
      Except.pure]
  · rw [hL]; exact (hr.blockByHash.writtenAt hw.blockByHash le_rfl).checkpoint
  · rw [hL]; exact hbc
  · rw [hL]; exact (hr.outputByHashMap.writtenAt hw.outputByHashMap le_rfl).checkpoint
  · rw [hL]; exact (hr.balanceMap.writtenAt hw.balanceMap le_rfl).checkpoint
  · rw [hL]; exact (hr.escrow.writtenAt hw.escrow le_rfl).checkpoint
  · rw [hL]; exact UpTo.new (LSN.default_le _)
  · rw [hL]
    exact ⟨_, hER.checkpoint.rollbackToLsn_self, (checkpoint_currentLsn _).trans (insert_currentLsn hins), electionResult,
      electionResult.viewChange, hget, hget⟩
  · -- an unspent output is an old one, on the disk before, or one of the block's
    intro outputHash key hk
    rw [hdb, Std.ExtTreeMap.mem_insert_iff]
    rcases registerMacroBlock_getElem? hreg hk with hk | hk
    · exact .inr (hr.keys_mem _ _ hk)
    · exact .inl hk
  · refine hER.checkpoint.mono ?_
    simp [hep, LSN.le_iff]

/-- The chain `Blockchain::new` starts from, before its genesis block, is
    ready for it. -/
theorem new_eq_ok {cfg : ChainConfig} {consistencyCheck : ConsistencyCheck}
    {genesis : MacroBlock Fr Pt} {timestamp : ℕ} {s₀ : Blockchain Fr Pt}
    (h : Blockchain.new κ cfg consistencyCheck genesis timestamp = .ok s₀) :
    ∃ s : Blockchain Fr Pt, ∃ r, s.ReadyForMacroBlock κ ∧ s.pushMacroBlock κ genesis timestamp = .ok (r, s₀) := by
  obtain ⟨⟨x, balanceMap⟩, hbal, h⟩ := Except.bind_eq_ok.1 h
  obtain ⟨awards, -, h⟩ := Except.bind_eq_ok.1 h
  obtain ⟨⟨r, s⟩, hpush, h⟩ := Except.bind_eq_ok.1 h
  cases h
  refine ⟨_, r, ⟨fun _ _ => by simp, .new (LSN.default_le _), .new (LSN.default_le _), ?_,
    .new (LSN.default_le _), .new (LSN.default_le _), fun _ _ hk => by simp [MultiVersionedMap.new] at hk,
    .empty⟩, hpush⟩
  -- the balance, written at the first position
  exact ((UpTo.new (LSN.default_le _)).writtenAt (.of_insert (Except.mapError_eq_ok.1 hbal)) le_rfl).mono
    (LSN.le_iff.2 (.inr ⟨rfl, Nat.zero_le _⟩))

end Macro

/-! ### The invariant of the chains reached from genesis -/

/-- A chain reached from genesis: settled (`Settled`), its election result
    written last at or before its position, its escrow mirroring its stakes,
    and popping its last block gives such a chain again. -/
inductive Good (κ : Crypto Fr Pt) : Blockchain Fr Pt → Prop
  | intro {s : Blockchain Fr Pt} (settled : s.Settled κ)
      (electionResultList : UpTo ⟨s.epoch, s.offset⟩ s.electionResultList)
      (stakes : StakesMirrored (s.outputByKey κ) s.outputByHashMap.map s.escrow.escrow.map)
      (pop : ∀ r s₀, s.popMicroBlock κ = .ok (r, s₀) → Good κ s₀) : Good κ s

namespace Good

theorem settled (h : Good κ s) : s.Settled κ := by cases h; assumption

theorem electionResultList (h : Good κ s) : UpTo ⟨s.epoch, s.offset⟩ s.electionResultList := by
  cases h; assumption

theorem stakes (h : Good κ s) :
    StakesMirrored (s.outputByKey κ) s.outputByHashMap.map s.escrow.escrow.map := by
  cases h; assumption

/-- Popping a good chain gives a good chain. -/
theorem popMicroBlock (h : Good κ s) {r} (hpop : s.popMicroBlock κ = .ok (r, s')) : Good κ s' := by
  cases h with
  | intro _ _ _ hgood => exact hgood r s' hpop

/-- A good chain stays good with another election result and view change
    proof, if the election result rolls back to the positions up to the last
    block as the chain's does, is written at or before the chain's position,
    and differs from the chain's in its view change only. -/
theorem updateElectionResult (h : Good κ s) {ER : MultiVersionedMap Unit ElectionResult LSN}
    {p : Option ViewChangeProof}
    (hroll : ∀ lsn ≤ lsnBefore s.epoch s.offset,
      ER.rollbackToLsn lsn = s.electionResultList.rollbackToLsn lsn)
    (hup : UpTo ⟨s.epoch, s.offset⟩ ER)
    (hget : ∃ er n, s.electionResultList.get () = some er ∧ ER.get () = some { er with viewChange := n }) :
    Good κ { s with electionResultList := ER, viewChangeProof := p } := by
  obtain ⟨hs, -, hm, hpop⟩ := h
  refine .intro ?_ hup hm fun r s₀ h₀ => ?_
  · -- settled: only the election result changed, as the field allows
    obtain ⟨ER₀, her, hcur, er₀, n₀, hget₀, hget₁⟩ := hs.electionResultList
    obtain ⟨er, n, hget, hget'⟩ := hget
    rw [hget₁] at hget
    cases hget
    exact { hs with electionResultList := ⟨ER₀, (hroll _ le_rfl).trans her, hcur, er₀, n, hget₀, hget'⟩ }
  · rw [popMicroBlock_electionResultList (hroll _ (lsnBefore_mono hs.epoch_pos (Nat.sub_le _ _)))] at h₀
    exact hpop r s₀ h₀

/-- Writing a view change at the current position keeps a chain good. -/
theorem writeViewChange (h : Good κ s) {er : ElectionResult} {n : ℕ} {x}
    {ER : MultiVersionedMap Unit ElectionResult LSN} {p : Option ViewChangeProof}
    (hget : s.electionResultList.get () = some er)
    (hins : s.electionResultList.insert ⟨s.epoch, s.offset⟩ () { er with viewChange := n } = .ok (x, ER)) :
    Good κ { s with electionResultList := ER, viewChangeProof := p } := by
  have hlt : lsnBefore s.epoch s.offset < ⟨s.epoch, s.offset⟩ := lsnBefore_lt h.settled.epoch_pos
  refine h.updateElectionResult (fun lsn hle => rollbackToLsn_of_insert hins (lt_of_le_of_lt hle hlt))
    (h.electionResultList.writtenAt (.of_insert hins) le_rfl) ⟨er, n, hget, ?_⟩
  obtain ⟨-, -, rfl⟩ := insert_eq_ok hins
  simp [MultiVersionedMap.get]

/-- Pushing a micro block keeps a chain good: the pop undoes the push. -/
theorem pushMicroBlock [DecidableEq Pt] (hg : Good κ s) {b : MicroBlock Fr Pt}
    {timestamp : ℕ} {r} (h : s.pushMicroBlock κ b timestamp = .ok (r, s')) : Good κ s' := by
  have hs := hg.settled
  obtain ⟨hs', hER'⟩ := hs.pushMicroBlock hg.electionResultList h
  obtain ⟨ER₀, her, -, er₀, n, hget₀, hget⟩ := hs.electionResultList
  obtain ⟨x, erl, recovered, removed, hins, hpop, -⟩ := popMicroBlock_pushMicroBlock hs her hget₀ h
  have hlt : lsnBefore s.epoch s.offset < ⟨s.epoch, s.offset⟩ := lsnBefore_lt hs.epoch_pos
  -- the pop gives `s` back, with the election result of the block before
  have hback : Good κ { s with electionResultList := erl, viewChangeProof := none } := by
    refine hg.updateElectionResult (fun lsn hle => ?_) ((UpTo.of_rollbackToLsn her).writtenAt
      (.of_insert hins) hlt.le) ⟨_, 0, hget, ?_⟩
    · rw [rollbackToLsn_of_insert hins (lt_of_le_of_lt hle hlt), rollbackToLsn_rollbackToLsn her hle]
    · obtain ⟨-, -, rfl⟩ := insert_eq_ok hins
      simp [MultiVersionedMap.get]
  refine .intro hs' hER' (stakes_pushMicroBlock hs hg.stakes h) fun r₀ s₀ h₀ => ?_
  rw [hpop] at h₀
  cases h₀
  exact hback

/-- A good chain at the start of its epoch is ready for the epoch's macro
    block. -/
theorem readyForMacroBlock (hg : Good κ s) (ho : s.offset = 0) : s.ReadyForMacroBlock κ := by
  have hs := hg.settled
  have hle : lsnBefore s.epoch s.offset ≤ ⟨s.epoch, macroBlockOffset⟩ := by
    simp [lsnBefore, ho, LSN.le_iff]
    omega
  refine ⟨fun lsn h => hs.database_none lsn (ho ▸ h), hs.blockByHash.mono hle,
    hs.outputByHashMap.mono hle, hs.balanceMap.mono hle, hs.escrow.mono hle,
    hg.electionResultList.mono ?_, hs.keys_mem, hg.stakes⟩
  simp [ho, LSN.le_iff]

/-- Pushing a macro block keeps a chain good. -/
theorem pushMacroBlock [DecidableEq Pt] (hg : Good κ s) {B : MacroBlock Fr Pt}
    {timestamp : ℕ} {r} (h : s.pushMacroBlock κ B timestamp = .ok (r, s')) : Good κ s' := by
  obtain ⟨ho, hs', hER', hm'⟩ := (hg.readyForMacroBlock (pushMacroBlock_eq_ok h).2.1).pushMacroBlock h
  -- the chain is at the start of the next epoch, where nothing pops
  exact .intro hs' hER' hm' fun r₀ s₀ h₀ => absurd (popMicroBlock_offset_pos h₀) (by omega)

variable [DecidableEq Pt]

/-- Every call of the blockchain keeps a chain good. -/
theorem step (hg : Good κ s) {e : ChainEvent Fr Pt} (h : s.step κ e = .ok s') : Good κ s' := by
  cases e with
  | pushMicroBlock block timestamp =>
    obtain ⟨⟨r, s₁⟩, hpush, rfl⟩ := Except.map_eq_ok.1 h
    exact hg.pushMicroBlock hpush
  | popMicroBlock =>
    obtain ⟨⟨r, s₁⟩, hpop, rfl⟩ := Except.map_eq_ok.1 h
    exact hg.popMicroBlock hpop
  | pushMacroBlock block timestamp =>
    obtain ⟨⟨r, s₁⟩, hpush, rfl⟩ := Except.map_eq_ok.1 h
    exact hg.pushMacroBlock hpush
  | setViewChange viewChange proof =>
    obtain ⟨er, x, ER, hget, hins, rfl⟩ := setViewChange_writes h
    exact hg.writeViewChange hget hins
  | resetViewChange =>
    obtain ⟨er, x, ER, hget, hins, rfl⟩ := resetViewChange_writes h
    exact hg.writeViewChange hget hins

/-- The chain of a genesis block is good. -/
theorem new {cfg : ChainConfig} {consistencyCheck : ConsistencyCheck} {genesis : MacroBlock Fr Pt}
    {timestamp : ℕ} (h : Blockchain.new κ cfg consistencyCheck genesis timestamp = .ok s) : Good κ s := by
  obtain ⟨s₀, r, hr, hpush⟩ := new_eq_ok h
  obtain ⟨ho, hs, hER, hm⟩ := hr.pushMacroBlock hpush
  exact .intro hs hER hm fun r₀ s₁ h₁ => absurd (popMicroBlock_offset_pos h₁) (by omega)

/-- Every chain reached from genesis is good. -/
theorem of_reachable {cfg : ChainConfig} {consistencyCheck : ConsistencyCheck}
    {genesis : MacroBlock Fr Pt} {timestamp : ℕ} {s₀ : Blockchain Fr Pt}
    (h₀ : Blockchain.new κ cfg consistencyCheck genesis timestamp = .ok s₀)
    (hs : Transition.Reachable (· = s₀) (Blockchain.step κ) s) : Good κ s :=
  hs.induction (fun _ h => h ▸ new h₀) fun _ _ _ hg h => hg.step h

end Good

end Blockchain

end Stegos

namespace Stegos

open MultiVersionedMap

variable {Fr Pt : Type} [AddCommGroup Fr] [AddCommGroup Pt] [DecidableEq Pt]
  {κ : Crypto Fr Pt} {cfg : ChainConfig} {consistencyCheck : ConsistencyCheck}
  {genesis : MacroBlock Fr Pt} {timestamp₀ : ℕ} {s₀ s s' : Blockchain Fr Pt}

/-- On every chain reached from genesis, popping a micro block undoes pushing
    it: the pop gives the chain before the push back, but for its election
    result, which is the one before the push with no view change, and its
    view change proof, which is none; it prunes the hashes of the block's
    outputs, and recovers the block's inputs with the outputs read for them
    before the push. -/
theorem popMicroBlock_undoes_pushMicroBlock
    (hnew : Blockchain.new κ cfg consistencyCheck genesis timestamp₀ = .ok s₀)
    (hs : Transition.Reachable (· = s₀) (Blockchain.step κ) s)
    {b : MicroBlock Fr Pt} {timestamp : ℕ} {r} (h : s.pushMicroBlock κ b timestamp = .ok (r, s')) :
    ∃ recovered removed, ∃ s'' : Blockchain Fr Pt,
      s'.popMicroBlock κ = .ok ((b.transactions.flatMap (fun tx => tx.txouts.map κ.hashOutput),
        recovered, removed, b), s'') ∧
      s'' = { s with electionResultList := s''.electionResultList, viewChangeProof := none } ∧
      s''.electionResult = (fun er => { er with viewChange := 0 }) <$> s.electionResult ∧
      ∀ inputHash input, recovered[inputHash]? = some input ↔
        inputHash ∈ b.transactions.flatMap Transaction.txins ∧
          s.outputByHash κ inputHash = .ok (some input) := by
  have hg := Blockchain.Good.of_reachable hnew hs
  obtain ⟨ER₀, her, -, er₀, n, hget₀, hget⟩ := hg.settled.electionResultList
  obtain ⟨x, erl, recovered, removed, hins, hpop, hiff⟩ :=
    Blockchain.popMicroBlock_pushMicroBlock hg.settled her hget₀ h
  refine ⟨recovered, removed, _, hpop, rfl, ?_, hiff⟩
  -- the election result of the block before, with no view change
  have hget' : erl.get () = some { er₀ with viewChange := 0 } := by
    obtain ⟨-, -, rfl⟩ := insert_eq_ok hins
    simp [MultiVersionedMap.get]
  simp only [Blockchain.electionResult, hget, hget', unwrap, expect]
  rfl

/-- The first micro block of the stakes scenario, pushed on its genesis chain
    and popped. -/
theorem popMicroBlock_undoes_pushMicroBlock_splitStake :
    ∃ s₀ r s', Scenario.start = .ok s₀ ∧
      s₀.pushMicroBlock Scenario.crypto Scenario.splitStakeBlock 2 = .ok (r, s') ∧
      ∃ recovered removed, ∃ s'' : Blockchain ℤ ℤ,
        s'.popMicroBlock Scenario.crypto = .ok ((Scenario.splitStakeBlock.transactions.flatMap
          (fun tx => tx.txouts.map Scenario.crypto.hashOutput), recovered, removed,
          Scenario.splitStakeBlock), s'') ∧
        s'' = { s₀ with electionResultList := s''.electionResultList, viewChangeProof := none } ∧
        s''.electionResult = (fun er => { er with viewChange := 0 }) <$> s₀.electionResult ∧
        ∀ inputHash input, recovered[inputHash]? = some input ↔
          inputHash ∈ Scenario.splitStakeBlock.transactions.flatMap Transaction.txins ∧
            s₀.outputByHash Scenario.crypto inputHash = .ok (some input) := by
  have htest : (Scenario.start.toOption.bind fun s₀ =>
      (s₀.pushMicroBlock Scenario.crypto Scenario.splitStakeBlock 2).toOption).isSome = true := by
    decide +kernel
  cases h₀ : Scenario.start with
  | error e => simp [h₀, Except.toOption] at htest
  | ok s₀ =>
    cases hpush : s₀.pushMicroBlock Scenario.crypto Scenario.splitStakeBlock 2 with
    | error e => simp [h₀, hpush, Except.toOption] at htest
    | ok p => exact ⟨s₀, p.1, p.2, rfl, hpush, popMicroBlock_undoes_pushMicroBlock h₀ (.init rfl) hpush⟩

/-- On every chain reached from genesis, the escrow holds a stake under a
    validator and an output hash, for an account and an amount, exactly when
    the output unspent under that hash is a stake output of that validator,
    paying back to that account, of that amount. -/
theorem escrow_mirrors_stakes
    (hnew : Blockchain.new κ cfg consistencyCheck genesis timestamp₀ = .ok s₀)
    (hs : Transition.Reachable (· = s₀) (Blockchain.step κ) s)
    (validatorPkey outputHash accountPkey : ℕ) (amount : ℤ) :
    (∃ activeUntilEpoch, s.escrow.escrow.get ⟨validatorPkey, outputHash⟩ =
      some ⟨accountPkey, activeUntilEpoch, amount⟩) ↔
      ∃ o : StakeOutput, s.outputByHash κ outputHash = .ok (some (.StakeOutput o)) ∧
        o.validator = validatorPkey ∧ o.recipient = accountPkey ∧ o.amount = amount := by
  have hm := (Blockchain.Good.of_reachable hnew hs).stakes
  rw [Blockchain.outputByHash_eq]
  constructor
  · rintro ⟨activeUntilEpoch, hk⟩
    obtain ⟨key, o, hkey, ho, hval⟩ := hm.escrow ⟨validatorPkey, outputHash⟩ _ hk
    refine ⟨o, ?_, hval⟩
    rw [show s.outputByHashMap.map[outputHash]? = some key from hkey]
    exact ho
  · rintro ⟨o, ho, rfl, rfl, rfl⟩
    cases hkey : s.outputByHashMap.map[outputHash]? with
    | none =>
      rw [hkey] at ho
      cases ho
    | some key =>
      rw [hkey] at ho
      exact hm.unspent outputHash key o hkey ho

/-- The stakes scenario's first micro block splits a stake in two: the
    escrow holds each. -/
theorem escrow_mirrors_stakes_splitStake :
    ∃ s₀ s, Scenario.start = .ok s₀ ∧ Transition.Reachable (· = s₀) (Blockchain.step Scenario.crypto) s ∧
      ((∃ activeUntilEpoch, s.escrow.escrow.get ⟨9, 4⟩ = some ⟨300, activeUntilEpoch, 200⟩) ↔
        ∃ o : StakeOutput, s.outputByHash Scenario.crypto 4 = .ok (some (.StakeOutput o)) ∧
          o.validator = 9 ∧ o.recipient = 300 ∧ o.amount = 200) := by
  have htest : (Scenario.start.toOption.bind fun s₀ =>
      (Transition.run (Blockchain.step Scenario.crypto) s₀
        [.pushMicroBlock Scenario.splitStakeBlock 2]).toOption.map fun _ => true) = some true := by
    decide +kernel
  obtain ⟨s₀, s, h₀, hs, -⟩ := Transition.Reachable.of_run_test htest
  exact ⟨s₀, s, h₀, hs, escrow_mirrors_stakes h₀ hs 9 4 300 200⟩

end Stegos
