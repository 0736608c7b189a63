import Stegos.Blockchain.Error
import Stegos.Blockchain.Types

/-!
# Leader election and service awards

`election.rs`: the slots of the validators drawn by stake
(`select_validators_slots`), and the leader of a view change drawn by slots
(`select_leader`), both through `select_winner`. `awards.rs`: the budget of
the service award, the activity of the accounts over an epoch
(`finalize_epoch`), and the draw of a winner (`check_winners`).

The random numbers are hashes (`mix`, `shrink_hash` of `Crypto`); what is
computed from them is modelled as the code computes it.

The draw by stake is exact (`selectWinner_exact`): with stakes that are not
negative and a positive sum `S`, `select_winner` returns the index `i` whose
interval of the running sums holds `|r| mod S` (`DrawnBy`), so its stake is
positive and the loop never reaches its `unreachable!`; and each index is drawn
by exactly as many of the residues `0, …, S - 1` as its stake. Its one
hypothesis, `hnonneg`, is that no stake is negative. The running sums are
taken in `ℤ`: they are the `i64` sums of the source whenever `S ≤ i64::MAX`,
since no partial sum of non-negative stakes then overflows.
-/

namespace Stegos

/-- `checked_abs().unwrap_or(0)` of an `i64`. -/
def checkedAbs (x : ℤ) : ℤ := if x = -2 ^ 63 then 0 else x.natAbs

/-- The loop of `select_winner`: the first staker whose stake takes the
    running sum past `needStake`. -/
def selectWinnerLoop (needStake : ℤ) : List ℤ → ℕ → ℤ → Except Fault (Option ℕ)
  | [], _, _ =>
    .error (.panic "internal error: entered unreachable code: Validator should be found in loop.")
  | stake :: stakers, num, accumulator =>
    if stake < 0 then .error (.panic "Processing invalid validator stake < 0.")
    else if needStake < accumulator + stake then .ok (some num)
    else selectWinnerLoop needStake stakers (num + 1) (accumulator + stake)

/-- `select_winner`: the index of the staker drawn by `randomNumber`, weighted
    by stake; `none` when nobody stakes. -/
def selectWinner (stakers : List ℤ) (randomNumber : ℤ) : Except Fault (Option ℕ) :=
  let random := checkedAbs randomNumber
  let sumStakes := stakers.sum
  if sumStakes = 0 then .ok none
  else selectWinnerLoop (random % sumStakes) stakers 0 0

/-! ### The draw by stake -/

/-- The index `i` is drawn by `x`: `x` falls in its interval of the running sums
    of the stakes. -/
def DrawnBy (stakers : List ℤ) (x : ℤ) (i : ℕ) : Prop :=
  (stakers.take i).sum ≤ x ∧ x < (stakers.take (i + 1)).sum

section Draw

variable {stakers : List ℤ}

/-- The running sums of stakes that are not negative grow. -/
theorem sum_take_mono (hnonneg : ∀ s ∈ stakers, 0 ≤ s) {a b : ℕ} (h : a ≤ b) :
    (stakers.take a).sum ≤ (stakers.take b).sum := by
  obtain ⟨c, rfl⟩ := Nat.exists_eq_add_of_le h
  rw [List.take_add, List.sum_append]
  have hrest : 0 ≤ ((stakers.drop a).take c).sum :=
    List.sum_nonneg fun s hs => hnonneg s (List.mem_of_mem_drop (List.mem_of_mem_take hs))
  omega

/-- At most one index is drawn by a number. -/
theorem DrawnBy.unique (hnonneg : ∀ s ∈ stakers, 0 ≤ s) {x : ℤ} {i j : ℕ}
    (hi : DrawnBy stakers x i) (hj : DrawnBy stakers x j) : i = j := by
  by_contra hne
  rcases Nat.lt_or_gt_of_ne hne with hlt | hlt
  · have := sum_take_mono hnonneg (Nat.succ_le_of_lt hlt)
    exact absurd (lt_of_lt_of_le hi.2 this) (not_lt.2 hj.1)
  · have := sum_take_mono hnonneg (Nat.succ_le_of_lt hlt)
    exact absurd (lt_of_lt_of_le hj.2 this) (not_lt.2 hi.1)

/-- The stake of a drawn index is positive. -/
theorem DrawnBy.stake_pos {x : ℤ} {i : ℕ} (h : DrawnBy stakers x i) :
    ∃ hi : i < stakers.length, 0 < stakers[i] := by
  have hi : i < stakers.length := by
    by_contra hge
    have htake : stakers.take (i + 1) = stakers.take i := by
      rw [List.take_of_length_le (by omega), List.take_of_length_le (by omega)]
    exact absurd (htake ▸ h.2) (not_lt.2 h.1)
  refine ⟨hi, ?_⟩
  have := List.sum_take_succ stakers i hi
  have := h.1
  have := h.2
  omega

/-- The loop of `select_winner`, from a running sum at or below the stake
    needed and a total above it, returns the index of the first stake that
    takes the running sum past it. -/
theorem selectWinnerLoop_eq (needStake : ℤ) :
    ∀ (l : List ℤ) (num : ℕ) (accumulator : ℤ), (∀ s ∈ l, 0 ≤ s) →
      accumulator ≤ needStake → needStake < accumulator + l.sum →
      ∃ j, selectWinnerLoop needStake l num accumulator = .ok (some (num + j)) ∧
        accumulator + (l.take j).sum ≤ needStake ∧ needStake < accumulator + (l.take (j + 1)).sum
  | [], _, _, _, hle, hlt => by simp only [List.sum_nil] at hlt; omega
  | stake :: l, num, accumulator, hnonneg, hle, hlt => by
    have hs : 0 ≤ stake := hnonneg stake List.mem_cons_self
    by_cases hneed : needStake < accumulator + stake
    · refine ⟨0, ?_, by simpa using hle, by simpa using hneed⟩
      simp [selectWinnerLoop, not_lt.2 hs, hneed]
    · -- the running sum passes this stake, and the draw goes on with the rest
      rw [List.sum_cons] at hlt
      obtain ⟨j, hloop, hlo, hhi⟩ := selectWinnerLoop_eq needStake l (num + 1) (accumulator + stake)
        (fun s hs' => hnonneg s (List.mem_cons_of_mem _ hs')) (by omega) (by omega)
      refine ⟨j + 1, ?_, ?_, ?_⟩
      · simp only [selectWinnerLoop, not_lt.2 hs, hneed, if_false]
        rw [hloop, Nat.add_assoc, Nat.add_comm 1 j]
      · rw [List.take_succ_cons, List.sum_cons]
        omega
      · rw [List.take_succ_cons, List.sum_cons]
        omega

/-- With a positive total, `select_winner` returns the index drawn by the
    random number, made non-negative and reduced modulo the total. -/
theorem selectWinner_drawnBy (hnonneg : ∀ s ∈ stakers, 0 ≤ s) (hpos : 0 < stakers.sum)
    (randomNumber : ℤ) :
    ∃ i, selectWinner stakers randomNumber = .ok (some i) ∧
      DrawnBy stakers (checkedAbs randomNumber % stakers.sum) i := by
  have habs : 0 ≤ checkedAbs randomNumber := by
    unfold checkedAbs
    split_ifs <;> omega
  have hlo : 0 ≤ checkedAbs randomNumber % stakers.sum := Int.emod_nonneg _ (by omega)
  have hhi : checkedAbs randomNumber % stakers.sum < stakers.sum := Int.emod_lt_of_pos _ hpos
  obtain ⟨j, hloop, hj₁, hj₂⟩ := selectWinnerLoop_eq _ stakers 0 0 hnonneg hlo (by omega)
  refine ⟨j, ?_, by simpa using hj₁, by simpa using hj₂⟩
  simp only [selectWinner, hpos.ne', if_false, hloop, Nat.zero_add]

/-- A residue of the total is its own random number. -/
theorem selectWinner_residue (hnonneg : ∀ s ∈ stakers, 0 ≤ s) {x : ℤ} (hx₀ : 0 ≤ x)
    (hx : x < stakers.sum) (i : ℕ) :
    selectWinner stakers x = .ok (some i) ↔ DrawnBy stakers x i := by
  have hself : checkedAbs x % stakers.sum = x := by
    have hne : x ≠ -2 ^ 63 := by omega
    rw [checkedAbs, if_neg hne, Int.natAbs_of_nonneg hx₀]
    exact Int.emod_eq_of_lt hx₀ hx
  obtain ⟨j, hsel, hj⟩ := selectWinner_drawnBy hnonneg (by omega) x
  rw [hself] at hj
  rw [hsel]
  constructor
  · rintro h
    cases h
    exact hj
  · intro hi
    rw [DrawnBy.unique hnonneg hj hi]

/-- The draw by stake is exact. With no stake, nobody is drawn. With stakes
    that are not negative and a positive total `S`, the index returned is the
    one, and the only one, whose interval of the running sums holds
    `|r| mod S`; its stake is positive; and each index is drawn by exactly as
    many residues `0, …, S - 1` as its stake. -/
theorem selectWinner_exact (hnonneg : ∀ s ∈ stakers, 0 ≤ s) :
    (stakers.sum = 0 → ∀ randomNumber, selectWinner stakers randomNumber = .ok none) ∧
    (0 < stakers.sum → ∀ randomNumber, ∃ i, ∃ hi : i < stakers.length,
      selectWinner stakers randomNumber = .ok (some i) ∧
      DrawnBy stakers (checkedAbs randomNumber % stakers.sum) i ∧
      (∀ j, DrawnBy stakers (checkedAbs randomNumber % stakers.sum) j → j = i) ∧
      0 < stakers[i]) ∧
    (0 < stakers.sum → ∀ i (hi : i < stakers.length),
      ((Finset.Ico 0 stakers.sum).filter fun x => selectWinner stakers x = .ok (some i)).card =
        stakers[i].toNat) := by
  refine ⟨fun h0 randomNumber => by simp [selectWinner, h0], fun hpos randomNumber => ?_,
    fun hpos i hi => ?_⟩
  · obtain ⟨i, hsel, hdrawn⟩ := selectWinner_drawnBy hnonneg hpos randomNumber
    obtain ⟨hi, hstake⟩ := hdrawn.stake_pos
    exact ⟨i, hi, hsel, hdrawn, fun j hj => DrawnBy.unique hnonneg hj hdrawn, hstake⟩
  · -- the residues that draw `i` are its interval of the running sums
    have hlo : 0 ≤ (stakers.take i).sum := by
      simpa using sum_take_mono hnonneg (Nat.zero_le i)
    have hhi : (stakers.take (i + 1)).sum ≤ stakers.sum := by
      simpa using sum_take_mono hnonneg (Nat.succ_le_of_lt hi)
    have hfilter : (Finset.Ico 0 stakers.sum).filter
        (fun x => selectWinner stakers x = .ok (some i)) =
        Finset.Ico (stakers.take i).sum (stakers.take (i + 1)).sum := by
      ext x
      simp only [Finset.mem_filter, Finset.mem_Ico]
      constructor
      · rintro ⟨⟨hx₀, hx⟩, hsel⟩
        exact (selectWinner_residue hnonneg hx₀ hx i).1 hsel
      · intro hx
        have hx₀ : 0 ≤ x := le_trans hlo hx.1
        have hxS : x < stakers.sum := lt_of_lt_of_le hx.2 hhi
        exact ⟨⟨hx₀, hxS⟩, (selectWinner_residue hnonneg hx₀ hxS i).2 hx⟩
    rw [hfilter, Int.card_Ico, List.sum_take_succ stakers i hi, add_sub_cancel_left]
end Draw

/-- The stakes `1, 2, 3, 4` of the code's test of the draw (`test_probability_complex`). -/
theorem selectWinner_exact_complex :
    (∀ s ∈ [(1 : ℤ), 2, 3, 4], 0 ≤ s) ∧
    (([(1 : ℤ), 2, 3, 4].sum = 0 → ∀ randomNumber, selectWinner [1, 2, 3, 4] randomNumber = .ok none) ∧
    (0 < [(1 : ℤ), 2, 3, 4].sum → ∀ randomNumber, ∃ i, ∃ hi : i < [(1 : ℤ), 2, 3, 4].length,
      selectWinner [1, 2, 3, 4] randomNumber = .ok (some i) ∧
      DrawnBy [1, 2, 3, 4] (checkedAbs randomNumber % [(1 : ℤ), 2, 3, 4].sum) i ∧
      (∀ j, DrawnBy [1, 2, 3, 4] (checkedAbs randomNumber % [(1 : ℤ), 2, 3, 4].sum) j → j = i) ∧
      0 < [(1 : ℤ), 2, 3, 4][i]) ∧
    (0 < [(1 : ℤ), 2, 3, 4].sum → ∀ i (hi : i < [(1 : ℤ), 2, 3, 4].length),
      ((Finset.Ico 0 [(1 : ℤ), 2, 3, 4].sum).filter fun x => selectWinner [1, 2, 3, 4] x = .ok (some i)).card =
        [(1 : ℤ), 2, 3, 4][i].toNat)) :=
  ⟨by decide, selectWinner_exact (by decide)⟩


/-- `Option::unwrap`. -/
def unwrap {α : Type} : Option α → Except Fault α :=
  expect "called `Option::unwrap()` on a `None` value"

/-- Indexing a vector: a panic out of bounds. -/
def index {α : Type} (l : List α) (i : ℕ) : Except Fault α :=
  expect "index out of bounds" l[i]?

variable {Fr Pt : Type} [AddCommGroup Fr] [AddCommGroup Pt] (κ : Crypto Fr Pt)

/-- `generate_u64`. -/
def generateU64 (seed i : ℕ) : ℤ := κ.shrinkHash (κ.mix seed i)

/-- `select_validators_slots`: each of the `slotCount` slots drawn by stake;
    the validators with their slots, ordered by key, and a facilitator drawn
    by slots. The stakers are sorted (`sort()`, stable) by insertion, which
    gives the list any stable sort gives (`List.mergeSort_eq_insertionSort`). -/
def selectValidatorsSlots (stakers : StakersGroup) (random : VRF) (slotCount : ℤ) :
    Except Fault ElectionResult := do
  check (stakers ≠ []) "Have stakes"
  check (0 < slotCount) "assertion failed: slot_count > 0"
  let stakers := stakers.insertionSort fun a b => toLex a ≤ toLex b
  let seed := random.rand
  let validators ← (List.range slotCount.toNat).foldlM
    (fun (validators : Std.ExtTreeMap ℕ ℤ compare) i => do
      let winnerIndex ← unwrap (← selectWinner (stakers.map Prod.snd) (generateU64 κ seed i))
      let (winner, _) ← index stakers winnerIndex
      pure (validators.insert winner ((validators[winner]?.getD 0) + 1))) ∅
  let validators := validators.toList
  let facilitatorId ← unwrap (← selectWinner (validators.map Prod.snd)
    (κ.shrinkHash (κ.facilitatorSeed seed)))
  let (facilitator, _) ← index validators facilitatorId
  pure { validators, random, viewChange := 0, facilitator }

/-- `ElectionResult::select_leader`: the validator drawn by slots for a view change. -/
def ElectionResult.selectLeader (e : ElectionResult) (viewChange : ℕ) : Except Fault ℕ := do
  let leaderId ← unwrap (← selectWinner (e.validators.map Prod.snd)
    (generateU64 κ e.random.rand viewChange))
  let (leader, _) ← index e.validators leaderId
  pure leader

/-- `ElectionResult::is_validator`. -/
def ElectionResult.isValidator (e : ElectionResult) (peer : ℕ) : Bool :=
  e.validators.any fun v => v.1 = peer

/-! ### Service awards -/

namespace Awards

/-- `Awards::new`. -/
def new (difficulty : ℕ) : Except Fault Awards := do
  check (difficulty < 256) "assertion failed: difficulty < mem::size_of::<Hash>() * 8"
  pure { budget := 0, difficulty, validatorsActivity := ∅ }

/-- `Awards::add_reward`. -/
def addReward (self : Awards) (piece : ℤ) : Except Fault Awards := do
  check (0 < piece) "assertion failed: piece > 0"
  pure { self with budget := self.budget + piece }

/-- One account of `Awards::finalize_epoch`: its activity recorded, unless
    it already failed. -/
def recordActivity (self : Awards) (entry : ℕ × ValidatorAwardState) : Awards :=
  let (validator, state) := entry
  match self.validatorsActivity[validator]? with
  | some (.Failed _ _) => self
  | _ => { self with validatorsActivity := self.validatorsActivity.insert validator state }

/-- `Awards::finalize_epoch`: the reward added to the budget, and the activity
    of each account recorded. -/
def finalizeEpoch (self : Awards) (reward : ℤ) (epochActivity : List (ℕ × ValidatorAwardState)) :
    Except Fault Awards := do
  let self ← self.addReward reward
  pure (epochActivity.foldl recordActivity self)

/-- `Awards::check_winners`: with a lucky random, the budget goes to an active
    account drawn by the random, and the activity is cleared. -/
def checkWinners (self : Awards) (random : ℕ) : Awards × Option (ℕ × ℤ) :=
  if !κ.chkbits random self.difficulty then (self, none)
  else
    let array := (self.validatorsActivity.toList.filter fun (_, s) => s = .Active).map Prod.fst
    let self := { self with validatorsActivity := ∅ }
    match array with
    | [] => (self, none)
    | _ =>
      let winnerNum := (checkedAbs (κ.shrinkHash random)).toNat
      let winnerPk := array.getD (winnerNum % array.length) 0
      ({ self with budget := 0 }, some (winnerPk, self.budget))

end Awards

end Stegos
