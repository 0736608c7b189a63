import Stegos.Blockchain.Stakes

/-!
# Slashing transactions

A leader who signs two blocks at one position is a cheater: any leader after
it may put the two headers in a slashing transaction, which spends the active
stakes of the cheater and pays them out to the other validators. The block is
checked by recomputing that transaction (`confiscate_tx`) and comparing it
with the given one.

* `SlashingTransaction.validate_ok_iff`: what the check is. The inputs are
  compared as lists, but the outputs pair by pair over the shorter list: a
  given output past the expected ones, or an expected one past the given
  ones, is never looked at;
* `SlashingTransaction.validate_take`: so any prefix of the outputs of a valid
  slashing transaction is valid, none at all included. The stakes it spends
  are then burned and nothing is created for them;
* `registerMicroBlock_unbalanced`: a validated block with such a transaction
  breaks the block's monetary balance, which `register_micro_block` asserts;
* `slashingTransaction_validate_unpaid`: the transaction alone is valid
  although it pays nothing for the stake it spends.
-/

namespace Stegos

section Compare

variable {Pt : Type}

/-- Two outputs, the expected and the given, agree as `SlashingTransaction::validate`
    compares them: both public payments, to one recipient, of one amount. -/
def SlashingOutputsAgree : Output Pt × Output Pt → Prop
  | (.PublicPaymentOutput o1, .PublicPaymentOutput o2) =>
    o1.recipient = o2.recipient ∧ o1.amount = o2.amount
  | _ => False

theorem compareSlashingOutput_ok_iff {txHash : ℕ} {p : Output Pt × Output Pt} :
    compareSlashingOutput txHash p = .ok () ↔ SlashingOutputsAgree p := by
  rcases p with ⟨o1 | o1 | o1, o2 | o2 | o2⟩ <;>
    simp [compareSlashingOutput, SlashingOutputsAgree, throw, throwThe, MonadExceptOf.throw,
      pure, Except.pure, or_iff_not_imp_left]

/-- The comparison of the outputs holds exactly of the pairs of the shorter list. -/
theorem compareSlashingOutputs_ok_iff {txHash : ℕ} {expected given : List (Output Pt)} :
    compareSlashingOutputs txHash expected given = .ok () ↔
      ∀ p ∈ expected.zip given, SlashingOutputsAgree p := by
  rw [compareSlashingOutputs, List.forM_except_ok_iff]
  exact forall₂_congr fun _ _ => compareSlashingOutput_ok_iff

end Compare

theorem List.mem_zip_of_mem_zip_take {α β : Type} :
    ∀ {l₁ : List α} {l₂ : List β} {n : ℕ} {p : α × β}, p ∈ l₁.zip (l₂.take n) → p ∈ l₁.zip l₂
  | [], _, _, _, h => by simp at h
  | _ :: _, [], _, _, h => by simp at h
  | _ :: _, _ :: _, 0, _, h => by simp at h
  | _ :: _, _ :: _, _ + 1, _, h => by
    rw [List.take_succ_cons, List.zip_cons_cons, List.mem_cons] at h
    rcases h with rfl | h
    · exact List.mem_cons_self
    · exact List.mem_cons_of_mem _ (mem_zip_of_mem_zip_take h)

namespace SlashingTransaction

variable {Fr Pt : Type} [AddCommGroup Fr] [AddCommGroup Pt] {κ : Crypto Fr Pt}
  {self : SlashingTransaction Pt} {chain : Blockchain Fr Pt} {leader : ℕ}

/-- `SlashingTransaction::validate` accepts a transaction exactly when its
    proof is valid, `confiscate_tx` makes a transaction of it with the same
    inputs, and the outputs of the two agree pair by pair. -/
theorem validate_ok_iff :
    self.validate κ chain leader = .ok () ↔
      self.proof.validate κ chain = .ok () ∧
        ∃ tx, confiscateTx κ chain leader self.proof (fun _ => 0) = .ok tx ∧
          tx.txins = self.txins ∧ ∀ p ∈ tx.txouts.zip self.txouts, SlashingOutputsAgree p := by
  simp only [validate, Except.bind_eq_ok]
  constructor
  · rintro ⟨⟨⟩, hproof, tx, htx, hrest⟩
    refine ⟨hproof, tx, htx, ?_⟩
    -- the comparison of the inputs throws unless they are equal
    by_cases hin : tx.txins = self.txins
    · simp only [hin, ne_eq, not_true_eq_false, if_false] at hrest
      exact ⟨hin, compareSlashingOutputs_ok_iff.1 hrest⟩
    · simp only [ne_eq, hin, not_false_eq_true, if_true] at hrest
      cases hrest
  · rintro ⟨hproof, tx, htx, hin, hout⟩
    refine ⟨(), hproof, tx, htx, ?_⟩
    simp only [hin, ne_eq, not_true_eq_false, if_false]
    exact compareSlashingOutputs_ok_iff.2 hout

/-- A prefix of the outputs of a valid slashing transaction is valid, none
    included: the outputs are compared over the shorter list only. -/
theorem validate_take (h : self.validate κ chain leader = .ok ()) (n : ℕ) :
    { self with txouts := self.txouts.take n }.validate κ chain leader = .ok () := by
  obtain ⟨hproof, tx, htx, hin, hout⟩ := validate_ok_iff.1 h
  exact validate_ok_iff.2 ⟨hproof, tx, htx, hin, fun p hp => hout p (List.mem_zip_of_mem_zip_take hp)⟩

end SlashingTransaction

/-! ### A slashing transaction without outputs -/

namespace Scenario

/-- Two slots. -/
def twoSlots : ChainConfig := { config with maxSlotCount := 2 }

/-- The genesis block of two validators: `1` stakes `50` for account `100`, `2`
    stakes `50` for account `101`. Its random draws one slot for each, and
    makes `2` the leader of the first block. -/
def twoValidatorsGenesis : MacroBlock ℤ ℤ :=
  MacroBlock.new crypto 0 0 0 1 ⟨49, 0⟩ 0 1 0 (-100) [] [(1, 1), (2, 1)] []
    [stake 100 1 50 1, stake 101 2 50 2]

/-- The chain of the two validators. -/
def twoValidatorsStart : Except Fault (Blockchain ℤ ℤ) :=
  Blockchain.new crypto twoSlots .None twoValidatorsGenesis 1

/-- The first block of epoch `1`, by validator `2`. -/
def cheaterBlock : MicroBlock ℤ ℤ := microBlock 2 2 1 0 2 [coinbase 3]

/-- Another block at the same position, also by validator `2`. -/
def conflictingBlock : MicroBlock ℤ ℤ := microBlock 2 2 1 0 9 [coinbase 4]

/-- The proof that validator `2` cheated. -/
def cheaterProof : SlashingProof :=
  ⟨⟨cheaterBlock.header, cheaterBlock.sig⟩, ⟨conflictingBlock.header, conflictingBlock.sig⟩⟩

/-- The next block, by validator `1`: it spends the stake of the cheater and
    pays nothing out. -/
def slashingBlock : MicroBlock ℤ ℤ :=
  microBlock 1 5 1 1 3 [coinbase 6, .SlashingTransaction ⟨cheaterProof, [2], []⟩]

end Scenario

/-- After a validated block of validator `2`, the block of validator `1` that
    slashes `2` without paying the stake out is valid, and pushing it panics
    on the block's monetary balance. -/
theorem registerMicroBlock_unbalanced :
    ∃ s₀ s, Scenario.twoValidatorsStart = .ok s₀ ∧
      Transition.Reachable (· = s₀) (Blockchain.validatedStep Scenario.crypto) s ∧
      s.validateMicroBlock Scenario.crypto Scenario.slashingBlock 3 true = .ok () ∧
      s.pushMicroBlock Scenario.crypto Scenario.slashingBlock 3 =
        .error (.panic "Invalid block monetary balance: epoch=1, block=7") := by
  have htest : (Scenario.twoValidatorsStart.toOption.bind fun s₀ =>
      (Transition.run (Blockchain.validatedStep Scenario.crypto) s₀
        [.pushMicroBlock Scenario.cheaterBlock 2]).toOption.map fun s =>
        decide (s.validateMicroBlock Scenario.crypto Scenario.slashingBlock 3 true = .ok () ∧
          (fun _ => ()) <$> s.pushMicroBlock Scenario.crypto Scenario.slashingBlock 3 =
            .error (.panic "Invalid block monetary balance: epoch=1, block=7"))) = some true := by
    decide +kernel
  obtain ⟨s₀, s, h₀, hs, h⟩ := Transition.Reachable.of_run_test htest
  obtain ⟨hvalid, hpush⟩ := of_decide_eq_true h
  exact ⟨s₀, s, h₀, hs, hvalid, Except.map_eq_error.1 hpush⟩

/-- At the same chain, the slashing transaction of validator `1` that spends
    the stake of `50` of the cheater and pays nothing out passes
    `SlashingTransaction::validate`: its outputs sum to `0`, and the other
    current validator, `1`, is paid nothing. -/
theorem slashingTransaction_validate_unpaid :
    ∃ s₀ s, Scenario.twoValidatorsStart = .ok s₀ ∧
      Transition.Reachable (· = s₀) (Blockchain.validatedStep Scenario.crypto) s ∧
      (⟨Scenario.cheaterProof, [2], []⟩ : SlashingTransaction ℤ).validate Scenario.crypto s 1 = .ok () ∧
      s.outputByHash Scenario.crypto 2 = .ok (some (Scenario.stake 101 2 50 2)) ∧
      (List.map Prod.fst <$> s.validators) = .ok [1, 2] := by
  have htest : (Scenario.twoValidatorsStart.toOption.bind fun s₀ =>
      (Transition.run (Blockchain.validatedStep Scenario.crypto) s₀
        [.pushMicroBlock Scenario.cheaterBlock 2]).toOption.map fun s =>
        decide ((⟨Scenario.cheaterProof, [2], []⟩ : SlashingTransaction ℤ).validate Scenario.crypto s 1 = .ok () ∧
          s.outputByHash Scenario.crypto 2 = .ok (some (Scenario.stake 101 2 50 2)) ∧
          (List.map Prod.fst <$> s.validators) = .ok [1, 2])) = some true := by
    decide +kernel
  obtain ⟨s₀, s, h₀, hs, h⟩ := Transition.Reachable.of_run_test htest
  exact ⟨s₀, s, h₀, hs, of_decide_eq_true h⟩

end Stegos
