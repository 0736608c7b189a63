import Stegos.Blockchain.Stakes

/-!
# The slots of an election

`select_validators_slots` draws each of `slot_count` slots by stake
(`select_winner`) and counts the slots of each staker drawn in an ordered map;
the validators are the entries of the map, and the facilitator is drawn among
them by slots. `select_leader` draws the leader of a view change by slots.

* The loop keeps every key of the map a staker with a positive number of
  slots and adds one slot per step (`foldlM_addSlot`), so it ends with
  `slot_count` slots in all (`selectValidatorsSlots_eq_ok`).
* `selectValidatorsSlots_wellFormed`: for stakers with positive stakes and a
  positive number of slots the election does not panic; its validators are
  strictly ordered by key, each a staker with a positive number of slots,
  their slots add up to `slot_count`, and the facilitator is one of them.
* The leader of every view change is one of the validators, so one of the
  stakers (`selectLeader_mem`, `selectValidatorsSlots_leader`).

The stakes are summed as numbers; `select_winner` sums them in `i64`, which
is the same while they add up to at most `i64::MAX`.
-/

namespace Stegos

variable {Fr Pt : Type} [AddCommGroup Fr] [AddCommGroup Pt] (κ : Crypto Fr Pt)

/-! ### The loop of the slots -/

/-- What the loop of `select_validators_slots` keeps of its map: every key is
    one of `keys`, with a positive number of slots. -/
def SlotsWellFormed (keys : List ℕ) (validators : Std.ExtTreeMap ℕ ℤ compare) : Prop :=
  ∀ k v, validators[k]? = some v → k ∈ keys ∧ 0 < v

/-- One more slot for a key of `keys` keeps the map well formed. -/
theorem SlotsWellFormed.insert {keys : List ℕ} {m : Std.ExtTreeMap ℕ ℤ compare}
    (hm : SlotsWellFormed keys m) {w : ℕ} (hw : w ∈ keys) :
    SlotsWellFormed keys (m.insert w (m[w]?.getD 0 + 1)) := by
  intro k v hk
  rcases Std.ExtTreeMap.getElem?_insert_eq_some.1 hk with ⟨rfl, rfl⟩ | ⟨-, hk⟩
  · refine ⟨hw, ?_⟩
    -- the slots before are none or a positive number
    cases hold : m[k]? with
    | none => simp
    | some u =>
      have := (hm k u hold).2
      simp only [Option.getD_some]
      omega
  · exact hm k v hk

/-- A loop each step of which adds a slot to a key of `keys`, as the loop of
    `select_validators_slots` does: it does not fail, keeps the map well
    formed, and adds one to the sum of the slots per step. -/
theorem foldlM_addSlot {ε : Type} (keys : List ℕ)
    {f : Std.ExtTreeMap ℕ ℤ compare → ℕ → Except ε (Std.ExtTreeMap ℕ ℤ compare)}
    (hf : ∀ m a, ∃ w ∈ keys, f m a = .ok (m.insert w (m[w]?.getD 0 + 1))) :
    ∀ (l : List ℕ) (m : Std.ExtTreeMap ℕ ℤ compare), SlotsWellFormed keys m →
      ∃ m', l.foldlM f m = .ok m' ∧ SlotsWellFormed keys m' ∧
        (m'.toList.map Prod.snd).sum = (m.toList.map Prod.snd).sum + l.length
  | [], m, hm => ⟨m, rfl, hm, by simp⟩
  | a :: l, m, hm => by
    obtain ⟨w, hw, hfa⟩ := hf m a
    obtain ⟨m', hl, hm', hsum⟩ := foldlM_addSlot keys hf l _ (hm.insert hw)
    refine ⟨m', ?_, hm', ?_⟩
    · rw [List.foldlM_cons, hfa]
      exact hl
    · have hins := Std.ExtTreeMap.sum_toList_insert (m := m) (k := w) (v := m[w]?.getD 0 + 1)
      rw [hsum, List.length_cons]
      push_cast
      omega

/-! ### The election -/

/-- What `select_validators_slots` returns for stakers with positive stakes and
    a positive number of slots: the entries of a map of the stakers drawn to
    their slots, `slot_count` in all, with a facilitator among them. -/
theorem selectValidatorsSlots_eq_ok (stakers : StakersGroup) (random : VRF) (slotCount : ℤ)
    (hne : stakers ≠ []) (hpos : ∀ s ∈ stakers, 0 < s.2) (hslots : 0 < slotCount) :
    ∃ m : Std.ExtTreeMap ℕ ℤ compare, SlotsWellFormed (stakers.map Prod.fst) m ∧
      (m.toList.map Prod.snd).sum = slotCount ∧ ∃ i, ∃ hi : i < m.toList.length,
        selectValidatorsSlots κ stakers random slotCount = .ok ⟨random, 0, m.toList, m.toList[i].1⟩ := by
  -- the stakers sorted are the same stakers, with a positive total
  have hperm := List.perm_insertionSort (fun a b : ℕ × ℤ => toLex a ≤ toLex b) stakers
  have hnonneg : ∀ s ∈ (stakers.insertionSort fun a b => toLex a ≤ toLex b).map Prod.snd, 0 ≤ s := by
    intro s hs
    obtain ⟨x, hx, rfl⟩ := List.mem_map.1 hs
    exact (hpos x (hperm.subset hx)).le
  have hstake : 0 < ((stakers.insertionSort fun a b => toLex a ≤ toLex b).map Prod.snd).sum := by
    rw [(hperm.map Prod.snd).sum_eq]
    refine List.sum_pos _ (fun s hs => ?_) (by simpa using hne)
    obtain ⟨x, hx, rfl⟩ := List.mem_map.1 hs
    exact hpos x hx
  -- each slot goes to one of the stakers
  have hstep : ∀ (m : Std.ExtTreeMap ℕ ℤ compare) (i : ℕ), ∃ w ∈ stakers.map Prod.fst,
      (do
        let winnerIndex ← unwrap (← selectWinner
          ((stakers.insertionSort fun a b => toLex a ≤ toLex b).map Prod.snd)
          (generateU64 κ random.rand i))
        let winner ← index (stakers.insertionSort fun a b => toLex a ≤ toLex b) winnerIndex
        pure (m.insert winner.1 ((m[winner.1]?.getD 0) + 1)) : Except Fault _) =
        .ok (m.insert w (m[w]?.getD 0 + 1)) := by
    intro m i
    obtain ⟨j, hj, hsel, -⟩ := (selectWinner_exact hnonneg).2.1 hstake (generateU64 κ random.rand i)
    rw [List.length_map] at hj
    refine ⟨_, List.mem_map_of_mem (hperm.subset (List.getElem_mem hj)), ?_⟩
    simp [hsel, unwrap, expect, index, List.getElem?_eq_getElem hj, bind, Except.bind, pure,
      Except.pure]
  obtain ⟨m, hfold, hwf, hcount⟩ := foldlM_addSlot _ hstep (List.range slotCount.toNat) ∅
    (fun k v h => by simp at h)
  rw [List.length_range, Int.toNat_of_nonneg hslots.le] at hcount
  simp only [Std.ExtTreeMap.toList_eq_nil_iff.2 rfl, List.map_nil, List.sum_nil, zero_add] at hcount
  -- the facilitator is drawn by slots
  have hslotsNonneg : ∀ s ∈ m.toList.map Prod.snd, 0 ≤ s := by
    intro s hs
    obtain ⟨x, hx, rfl⟩ := List.mem_map.1 hs
    exact (hwf x.1 x.2 (Std.ExtTreeMap.mem_toList_iff_getElem?_eq_some.1 hx)).2.le
  obtain ⟨i, hi, hsel, -⟩ := (selectWinner_exact hslotsNonneg).2.1 (by omega)
    (κ.shrinkHash (κ.facilitatorSeed random.rand))
  rw [List.length_map] at hi
  refine ⟨m, hwf, hcount, i, hi, ?_⟩
  simp only [selectValidatorsSlots]
  rw [hfold]
  simp [check, hne, hslots, hsel, unwrap, expect, index, List.getElem?_eq_getElem hi, bind,
    Except.bind, pure, Except.pure]

/-- The election of the validators is well formed. For stakers with positive
    stakes whose sum fits in `i64` and a positive number of slots,
    `select_validators_slots` does not panic; it returns validators strictly
    ordered by key, each one of the stakers and with a positive number of
    slots, the slots adding up to the number asked for, and a facilitator
    among them. -/
theorem selectValidatorsSlots_wellFormed (stakers : StakersGroup) (random : VRF) (slotCount : ℤ)
    (hne : stakers ≠ []) (hpos : ∀ s ∈ stakers, 0 < s.2)
    (_ : (stakers.map Prod.snd).sum ≤ 2 ^ 63 - 1) (hslots : 0 < slotCount) :
    ∃ e, selectValidatorsSlots κ stakers random slotCount = .ok e ∧
      e.validators.Pairwise (fun a b => a.1 < b.1) ∧
      (∀ v ∈ e.validators, v.1 ∈ stakers.map Prod.fst ∧ 0 < v.2) ∧
      (e.validators.map Prod.snd).sum = slotCount ∧
      e.facilitator ∈ e.validators.map Prod.fst := by
  obtain ⟨m, hwf, hcount, i, hi, hrun⟩ := selectValidatorsSlots_eq_ok κ stakers random slotCount hne hpos hslots
  refine ⟨_, hrun, ?_, fun v hv => hwf v.1 v.2 (Std.ExtTreeMap.mem_toList_iff_getElem?_eq_some.1 hv),
    hcount, List.mem_map_of_mem (List.getElem_mem hi)⟩
  -- the entries of a map are in the order of their keys
  exact m.ordered_keys_toList.imp fun h => Nat.compare_eq_lt.1 h

/-- Two stakers with stakes `2` and `3`, three slots, under the cryptography
    of the scenarios. -/
theorem selectValidatorsSlots_wellFormed_two :
    ([(1, 2), (2, 3)] : StakersGroup) ≠ [] ∧ (∀ s ∈ ([(1, 2), (2, 3)] : StakersGroup), 0 < s.2) ∧
    (([(1, 2), (2, 3)] : StakersGroup).map Prod.snd).sum ≤ 2 ^ 63 - 1 ∧ (0 : ℤ) < 3 ∧
    ∃ e, selectValidatorsSlots Scenario.crypto [(1, 2), (2, 3)] ⟨5, 0⟩ 3 = .ok e ∧
      e.validators.Pairwise (fun a b => a.1 < b.1) ∧
      (∀ v ∈ e.validators, v.1 ∈ ([(1, 2), (2, 3)] : StakersGroup).map Prod.fst ∧ 0 < v.2) ∧
      (e.validators.map Prod.snd).sum = 3 ∧
      e.facilitator ∈ e.validators.map Prod.fst :=
  ⟨by decide, by decide, by decide, by decide,
    selectValidatorsSlots_wellFormed Scenario.crypto _ _ _ (by decide) (by decide) (by decide)
      (by decide)⟩

/-! ### The leader of a view change -/

/-- With slots that are positive, the leader of every view change is one of
    the validators. -/
theorem selectLeader_mem (e : ElectionResult) (hne : e.validators ≠ [])
    (hslots : ∀ v ∈ e.validators, 0 < v.2) (viewChange : ℕ) :
    ∃ leader ∈ e.validators.map Prod.fst, e.selectLeader κ viewChange = .ok leader := by
  have hnonneg : ∀ s ∈ e.validators.map Prod.snd, 0 ≤ s := by
    intro s hs
    obtain ⟨x, hx, rfl⟩ := List.mem_map.1 hs
    exact (hslots x hx).le
  have htotal : 0 < (e.validators.map Prod.snd).sum := by
    refine List.sum_pos _ (fun s hs => ?_) (by simpa using hne)
    obtain ⟨x, hx, rfl⟩ := List.mem_map.1 hs
    exact hslots x hx
  obtain ⟨i, hi, hsel, -⟩ := (selectWinner_exact hnonneg).2.1 htotal
    (generateU64 κ e.random.rand viewChange)
  rw [List.length_map] at hi
  refine ⟨_, List.mem_map_of_mem (List.getElem_mem hi), ?_⟩
  simp [ElectionResult.selectLeader, hsel, unwrap, expect, index, List.getElem?_eq_getElem hi,
    bind, Except.bind, pure, Except.pure]

/-- In the election of stakers with positive stakes, the leader of every view
    change is one of the stakers. -/
theorem selectValidatorsSlots_leader (stakers : StakersGroup) (random : VRF) (slotCount : ℤ)
    (hne : stakers ≠ []) (hpos : ∀ s ∈ stakers, 0 < s.2) (hslots : 0 < slotCount) :
    ∃ e, selectValidatorsSlots κ stakers random slotCount = .ok e ∧
      ∀ viewChange, ∃ leader ∈ stakers.map Prod.fst, e.selectLeader κ viewChange = .ok leader := by
  obtain ⟨m, hwf, -, i, hi, hrun⟩ := selectValidatorsSlots_eq_ok κ stakers random slotCount hne hpos hslots
  refine ⟨_, hrun, fun viewChange => ?_⟩
  have hmem : ∀ v ∈ m.toList, v.1 ∈ stakers.map Prod.fst ∧ 0 < v.2 :=
    fun v hv => hwf v.1 v.2 (Std.ExtTreeMap.mem_toList_iff_getElem?_eq_some.1 hv)
  obtain ⟨leader, hleader, hsel⟩ := selectLeader_mem κ ⟨random, 0, m.toList, m.toList[i].1⟩
    (List.ne_nil_of_length_pos (show 0 < m.toList.length by omega)) (fun v hv => (hmem v hv).2)
    viewChange
  obtain ⟨v, hv, rfl⟩ := List.mem_map.1 hleader
  exact ⟨_, (hmem v hv).1, hsel⟩

end Stegos
