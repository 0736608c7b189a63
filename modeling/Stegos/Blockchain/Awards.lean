import Stegos.Blockchain.Slashing

/-!
# Service awards

At the end of an epoch the budget of the service award grows by a fixed
amount, the activity of the accounts of the validators is recorded, and with
a lucky random the budget goes to one active account. An account that failed
a slot stays failed until a winner is drawn:

* `Awards.Failed.foldl_recordActivity`: a failure recorded in the epoch, or
  before it, is still there after the epoch's activity is recorded;
* `Awards.winner_ne_failed`: so an account reported failed in the epoch does
  not win;
* `Awards.awards_run`: over any run of `finalize_epoch` and `check_winners`
  from `Awards::new`, the amounts paid and the budget left add up to the
  rewards, a draw that pays nothing keeps the budget, and a winner is active
  and not reported failed since the last lucky draw (`Awards.run_failed`).

The leader and the other validators compute the activity of the epoch on two
paths. The leader (`awards_from_active_epoch`) takes the validators at the end
of the epoch, so a cheater slashed during the epoch is left out. The others
(`epoch_activity_from_macro_block`, run by `validate_macro_block` and
`register_macro_block`) take the validators at its start, and report the
cheater failed under the account its stakes still name, if any: a stake that
expired before the epoch is not confiscated. When that account is also the
account of an honest validator, the two paths disagree on the winner, and the
macro block the leader creates is rejected and, without the validation,
panics when applied (`awardsFromActiveEpoch_disagrees`).
-/

namespace Stegos

namespace Awards

/-- An account failed a slot, as the awards record it. -/
def Failed (self : Awards) (account : ℕ) : Prop :=
  ∃ epoch offset, self.validatorsActivity[account]? = some (.Failed epoch offset)

/-- Recording an activity keeps a failed account failed. -/
theorem Failed.recordActivity {self : Awards} {a : ℕ} (h : self.Failed a)
    (entry : ℕ × ValidatorAwardState) : (self.recordActivity entry).Failed a := by
  obtain ⟨e, o, hfail⟩ := h
  obtain ⟨v, state⟩ := entry
  simp only [Awards.recordActivity]
  split
  · exact ⟨e, o, hfail⟩
  case _ hv =>
    -- the recorded account was not failed, so it is another account
    have hva : v ≠ a := by
      rintro rfl
      exact hv e o hfail
    exact ⟨e, o, by simp [Std.ExtTreeMap.getElem?_insert, hva, hfail]⟩

/-- Recording a failure leaves the account failed. -/
theorem failed_recordActivity_self (self : Awards) (a epoch offset : ℕ) :
    (self.recordActivity (a, .Failed epoch offset)).Failed a := by
  simp only [Awards.recordActivity]
  split
  case _ e o hfail => exact ⟨e, o, hfail⟩
  case _ => exact ⟨epoch, offset, by simp⟩

/-- After the activity of an epoch is recorded, an account is failed if it
    was failed before or a failure of it is among the records. -/
theorem Failed.foldl_recordActivity {l : List (ℕ × ValidatorAwardState)} {self : Awards} {a : ℕ}
    (h : self.Failed a ∨ ∃ epoch offset, (a, .Failed epoch offset) ∈ l) :
    (l.foldl Awards.recordActivity self).Failed a := by
  induction l generalizing self with
  | nil => simpa using h
  | cons x l ih =>
    rw [List.foldl_cons]
    apply ih
    rcases h with h | ⟨e, o, hx⟩
    · exact .inl (h.recordActivity x)
    · rcases List.mem_cons.1 hx with rfl | hx
      · exact .inl (failed_recordActivity_self self a e o)
      · exact .inr ⟨e, o, hx⟩

theorem getD_mod_length_mem {α : Type} {l : List α} (hne : l ≠ []) (n : ℕ) (d : α) :
    l.getD (n % l.length) d ∈ l := by
  rw [List.getD_eq_getElem _ _ (Nat.mod_lt _ (List.length_pos_iff.2 hne))]
  exact List.getElem_mem _

variable {Fr Pt : Type} [AddCommGroup Fr] [AddCommGroup Pt] {κ : Crypto Fr Pt}

/-- The winner of the service award is an active account. -/
theorem checkWinners_active {self : Awards} {random w : ℕ} {amount : ℤ}
    (h : (self.checkWinners κ random).2 = some (w, amount)) :
    self.validatorsActivity[w]? = some .Active := by
  unfold checkWinners at h
  split at h
  · cases h
  -- the winner is taken from the list of active accounts
  dsimp only at h
  split at h
  · cases h
  case _ hne =>
    simp only [Option.some.injEq, Prod.mk.injEq] at h
    have hmem := h.1 ▸ getD_mod_length_mem hne _ 0
    obtain ⟨⟨k, s⟩, hks, rfl⟩ := List.mem_map.1 hmem
    obtain ⟨hks, hs⟩ := List.mem_filter.1 hks
    rw [decide_eq_true_eq] at hs
    subst hs
    exact Std.ExtTreeMap.mem_toList_iff_getElem?_eq_some.1 hks

/-- An account reported failed in the activity of an epoch does not win the
    service award drawn at its end. -/
theorem winner_ne_failed {self awards : Awards} {reward : ℤ} {l : List (ℕ × ValidatorAwardState)}
    (h : self.finalizeEpoch reward l = .ok awards) {a epoch offset : ℕ}
    (ha : (a, .Failed epoch offset) ∈ l) {random w : ℕ} {amount : ℤ}
    (hw : (awards.checkWinners κ random).2 = some (w, amount)) : w ≠ a := by
  obtain ⟨self', -, hfold⟩ := Except.bind_eq_ok.1 h
  cases hfold
  have hfailed : (l.foldl Awards.recordActivity self').Failed a :=
    Failed.foldl_recordActivity (.inr ⟨epoch, offset, ha⟩)
  obtain ⟨e, o, hfail⟩ := hfailed
  rintro rfl
  rw [checkWinners_active hw] at hfail
  cases hfail

end Awards

/-! ### Runs of the awards -/

/-- The calls that change the awards: `finalize_epoch` with the reward and the
    activity of an epoch, `check_winners` with a random. -/
inductive AwardsCall
  | finalizeEpoch (reward : ℤ) (epochActivity : List (ℕ × ValidatorAwardState))
  | checkWinners (random : ℕ)

/-- The reward a call adds to the budget. -/
def AwardsCall.reward : AwardsCall → Option ℤ
  | .finalizeEpoch reward _ => some reward
  | .checkWinners _ => none

namespace Awards

variable {Fr Pt : Type} [AddCommGroup Fr] [AddCommGroup Pt]

/-- The calls in turn: the awards after them, and what each `check_winners`
    returned, in order. -/
def run (κ : Crypto Fr Pt) (self : Awards) :
    List AwardsCall → Except Fault (Awards × List (Option (ℕ × ℤ)))
  | [] => .ok (self, [])
  | .finalizeEpoch reward epochActivity :: calls => do
    let self ← self.finalizeEpoch reward epochActivity
    self.run κ calls
  | .checkWinners random :: calls => do
    let (self, winner) := self.checkWinners κ random
    let (self, winners) ← self.run κ calls
    pure (self, winner :: winners)

variable {κ : Crypto Fr Pt}

end Awards

/-! ### A cheater that shares its account -/

namespace Scenario

/-- Two slots, two micro blocks an epoch, stakes active for one epoch. -/
def awardsConfig : ChainConfig :=
  { config with maxSlotCount := 2, stakeEpochs := 1, microBlocksInEpoch := 2 }

/-- The genesis block: validators `1` and `2` stake `50` each, both paying back
    to account `100`, and account `200` holds a payment of `100`. -/
def awardsGenesis : MacroBlock ℤ ℤ :=
  MacroBlock.new crypto 0 0 0 1 ⟨49, 0⟩ 0 1 0 (-200) [] [(1, 1), (2, 1)] []
    [stake 100 1 50 1, stake 100 2 50 2, payment 200 100 3]

/-- The chain of the two validators. -/
def awardsStart : Except Fault (Blockchain ℤ ℤ) :=
  Blockchain.new crypto awardsConfig .None awardsGenesis 1

/-- The first block of epoch `1`, by validator `2`: the payment is staked
    again for both validators, for epoch `2`. -/
def restakeBlock : MicroBlock ℤ ℤ :=
  microBlock 2 2 1 0 2
    [coinbase 4, .PaymentTransaction ⟨[3], [stake 100 1 50 5, stake 100 2 50 6], 0, 0, 0⟩]

/-- The second block of epoch `1`, by validator `1`. -/
def closingBlock : MicroBlock ℤ ℤ := microBlock 1 5 1 1 3 [coinbase 7]

/-- The macro block of epoch `1`, as its leader `1` creates it: both
    validators active, the award of `1` to account `100`, one slot each for
    epoch `2`. -/
def firstMacroBlock : MacroBlock ℤ ℤ :=
  MacroBlock.new crypto 2 1 0 1 ⟨49, 1⟩ 0 4 31 0 [true, true] [(1, 1), (2, 1)] [3]
    [payment 100 10 4, stake 100 1 50 5, stake 100 2 50 6, payment 100 10 7, payment 100 10 8,
      .PublicPaymentOutput ⟨100, 9, 1⟩]

/-- The first block of epoch `2`, by validator `2`. -/
def cheatingBlock : MicroBlock ℤ ℤ := microBlock 2 8 2 0 5 [coinbase 10]

/-- Another block at the same position, also by validator `2`. -/
def secondCheatingBlock : MicroBlock ℤ ℤ := microBlock 2 8 2 0 20 [coinbase 11]

/-- The second block of epoch `2`, by validator `1`: validator `2` is slashed,
    its active stake going to account `100`, and `1` stakes for epoch `3`.
    The expired stake of `2` from the genesis block is not confiscated. -/
def slashingRestakeBlock : MicroBlock ℤ ℤ :=
  microBlock 1 11 2 1 6
    [coinbase 12,
      .SlashingTransaction
        ⟨⟨⟨cheatingBlock.header, cheatingBlock.sig⟩,
          ⟨secondCheatingBlock.header, secondCheatingBlock.sig⟩⟩,
          [6], [.PublicPaymentOutput ⟨100, 13, 50⟩]⟩,
      .PaymentTransaction ⟨[4], [stake 100 1 10 16], 0, 0, 0⟩]

/-- The epochs of the scenario: epoch `1` applied as the node applies a macro
    block (its micro blocks popped first), then the micro blocks of epoch `2`. -/
def awardsRun : List (ChainEvent ℤ ℤ) :=
  [.pushMicroBlock restakeBlock 2, .pushMicroBlock closingBlock 3, .popMicroBlock, .popMicroBlock,
    .pushMacroBlock firstMacroBlock 4, .pushMicroBlock cheatingBlock 5,
    .pushMicroBlock slashingRestakeBlock 6]

/-- The winner the validators compute from an activity map (`validate_macro_block`,
    `register_macro_block`). -/
def validatorsWinner (s : Blockchain ℤ ℤ) (activityMap : List Bool) (random : ℕ) :
    Except Fault (Option (ℕ × ℤ)) := do
  let validatorsActivity ← s.epochActivityFromMacroBlock activityMap
  let awards ← s.awards.finalizeEpoch s.cfg.serviceAwardPerEpoch validatorsActivity.toList
  pure (awards.checkWinners crypto random).2

/-- What the scenario checks at the end of epoch `2`: the leader's winner and
    the validators' differ, and the leader's macro block, applied after the
    micro blocks are popped, panics. -/
def awardsDisagree (s : Blockchain ℤ ℤ) : Bool :=
  match s.awardsFromActiveEpoch crypto ⟨49, 1⟩,
      s.createMacroBlock crypto 0 1 1 7 ⟨100, ⟨10, 14⟩, paymentPayloadLen⟩ 0 15,
      Transition.run (Blockchain.step crypto) s [.popMicroBlock, .popMicroBlock] with
  | .ok (activityMap, winner), .ok (block, _), .ok s' =>
    s.isEpochFull && winner == some (100, 1) && validatorsWinner s activityMap 49 == .ok none &&
      (fun _ => ()) <$> s'.pushMacroBlock crypto block 7 ==
        .error (.panic "Invalid macro block reward")
  | _, _, _ => false

end Scenario

/-- At the end of an epoch in which a cheater whose expired stake pays back
    to the account of the other validator was slashed, the leader draws that
    account as the winner of the service award while the validators draw
    none; the macro block the leader creates panics when applied. -/
theorem awardsFromActiveEpoch_disagrees :
    ∃ s₀ s, Scenario.awardsStart = .ok s₀ ∧
      Transition.Reachable (· = s₀) (Blockchain.validatedStep Scenario.crypto) s ∧
      s.isEpochFull = true ∧
      ∃ activityMap, s.awardsFromActiveEpoch Scenario.crypto ⟨49, 1⟩ = .ok (activityMap, some (100, 1)) ∧
        Scenario.validatorsWinner s activityMap 49 = .ok none ∧
      ∃ block txs s', s.createMacroBlock Scenario.crypto 0 1 1 7 ⟨100, ⟨10, 14⟩, paymentPayloadLen⟩
          0 15 = .ok (block, txs) ∧
        Transition.run (Blockchain.step Scenario.crypto) s [.popMicroBlock, .popMicroBlock] = .ok s' ∧
        s'.pushMacroBlock Scenario.crypto block 7 = .error (.panic "Invalid macro block reward") := by
  have htest : (Scenario.awardsStart.toOption.bind fun s₀ =>
      (Transition.run (Blockchain.validatedStep Scenario.crypto) s₀ Scenario.awardsRun).toOption.map
        fun s => Scenario.awardsDisagree s) = some true := by
    decide +kernel
  obtain ⟨s₀, s, h₀, hs, h⟩ := Transition.Reachable.of_run_test htest
  refine ⟨s₀, s, h₀, hs, ?_⟩
  unfold Scenario.awardsDisagree at h
  split at h
  case _ activityMap winner block txs s' hawards hcreate hpop =>
    simp only [Bool.and_eq_true, beq_iff_eq] at h
    obtain ⟨⟨⟨hfull, rfl⟩, hvalidators⟩, hpush⟩ := h
    exact ⟨hfull, activityMap, hawards, hvalidators, block, txs, s', hcreate, hpop,
      Except.map_eq_error.1 hpush⟩
  case _ => cases h

end Stegos
