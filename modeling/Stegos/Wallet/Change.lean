import Stegos.Blockchain.Error
import Stegos.Lib.Largest

/-!
# Coin selection of the wallet

`find_utxo` chooses the unspent outputs that a payment of `sum` with `fee`
spends. It sorts them by amount into a deque, drops from its back the large
outputs while the one before the back still covers the target, so that the
smallest one that covers it is at the back, then spends from the back while
the target is not covered and, once it is, from the front, to consolidate
small outputs, up to `max_inputs_in_tx` outputs.

The builds compute with the overflow checks of `i64` off (`overflow-checks =
false`), so the subtractions from `change` wrap (`wrapI64`).

* `findUtxo_correct`: when the amounts total at most `i64::MAX`, the result
  is one of the three the wallet expects: the outputs spent, from the
  unspent ones, with the change they leave; `NotEnoughTokens` only when the
  outputs do not cover the target; `TooManyInputs` only when no
  `max_inputs_in_tx` of them do.
* `findUtxo_overflow`: past that total, the change wraps around, and
  `find_utxo` reports `NotEnoughTokens` for outputs that cover the target.
-/

namespace Stegos

namespace Change

/-- The errors of `find_utxo`, of the wallet's `WalletError`. -/
inductive WalletError
  | NotEnoughTokens
  | TooManyInputs
  deriving DecidableEq, Repr

/-- An `i64` result as the builds compute it, with the overflow checks off:
    wrapped into `[-2^63, 2^63)`. -/
def wrapI64 (x : ℤ) : ℤ := x.bmod (2 ^ 64)

theorem wrapI64_of_le {x : ℤ} (h₁ : -2 ^ 63 ≤ x) (h₂ : x < 2 ^ 63) : wrapI64 x = x :=
  Int.bmod_eq_of_le (by omega) (by omega)

variable {T : Type}

/-- The order of `sort_by_key` on `(amount, output)`: by amount. -/
def AmountLe (x y : ℤ × T) : Prop := x.1 ≤ y.1

instance : DecidableRel (AmountLe (T := T)) := fun x y => inferInstanceAs (Decidable (x.1 ≤ y.1))

instance : Std.Total (AmountLe (T := T)) := ⟨fun x y => le_total x.1 y.1⟩

instance : IsTrans (ℤ × T) AmountLe := ⟨fun _ _ _ => le_trans⟩

/-! ### The model

The deque `inputs` is a list read from its back: `pop_back` takes its head
and `pop_front` its last element. -/

/-- The first loop of `find_utxo`, on the inputs from the back: while the one
    before the back input covers `change`, the back one goes. -/
def dropLarge (change : ℤ) : List (ℤ × T) → List (ℤ × T)
  | last :: next :: rest =>
    if change ≤ next.1 then dropLarge change (next :: rest) else last :: next :: rest
  | inputs => inputs

/-- The second loop of `find_utxo` on (`inputs` from the back, `spent`,
    `change`): until `maxInputsInTx` are spent, the input at the back while
    `change` is positive, else the one at the front. A round spends an input
    or ends the loop, so the number of inputs is fuel enough. -/
def spendInputs (maxInputsInTx : ℕ) :
    ℕ → List (ℤ × T) → List T → ℤ → List (ℤ × T) × List T × ℤ
  | 0, inputs, spent, change => (inputs, spent, change)
  | fuel + 1, inputs, spent, change =>
    if maxInputsInTx ≤ spent.length then (inputs, spent, change)
    else if 0 < change then
      match inputs with
      | (amount, output) :: inputs =>
        spendInputs maxInputsInTx fuel inputs (spent ++ [output]) (wrapI64 (change - amount))
      | [] => ([], spent, change)
    else
      match inputs.getLast? with
      | some (amount, output) =>
        spendInputs maxInputsInTx fuel inputs.dropLast (spent ++ [output]) (wrapI64 (change - amount))
      | none => (inputs, spent, change)

/-- `find_utxo`: the outputs spent, the fee and the change, or the error.
    `sort_by_key` is a stable sort, as insertion sort is. -/
def findUtxo (unspent : List (T × ℤ)) (sum fee : ℤ) (maxInputsInTx : ℕ) :
    Except Fault (Except WalletError (List T × ℤ × ℤ)) := do
  check (sum ≥ 0) "assertion failed: sum >= 0"
  check (fee ≥ 0) "assertion failed: fee >= 0"
  let sorted := (unspent.map Prod.swap).insertionSort AmountLe
  let change := wrapI64 (sum + fee)
  let inputs := dropLarge change sorted.reverse
  let (inputs, spent, change) := spendInputs maxInputsInTx inputs.length inputs [] change
  if 0 < change then
    if !inputs.isEmpty then return .error .TooManyInputs
    return .error .NotEnoughTokens
  return .ok (spent, fee, wrapI64 (-change))

/-! ### The loops -/

/-- The first loop keeps the inputs from some point on; when it dropped any,
    the one left at the back covers `change`. -/
theorem dropLarge_spec (change : ℤ) :
    ∀ inputs : List (ℤ × T), ∃ j, dropLarge change inputs = inputs.drop j ∧
      (0 < j → ∃ a rest, inputs.drop j = a :: rest ∧ change ≤ a.1)
  | last :: next :: rest => by
    by_cases h : change ≤ next.1
    · obtain ⟨j, hj, hcover⟩ := dropLarge_spec change (next :: rest)
      refine ⟨j + 1, by rw [dropLarge, if_pos h, hj]; rfl, fun _ => ?_⟩
      -- the new back input covers `change`, or one left after it does
      rcases Nat.eq_zero_or_pos j with rfl | hj
      · exact ⟨next, rest, rfl, h⟩
      · exact hcover hj
    · exact ⟨0, by rw [dropLarge, if_neg h]; rfl, by omega⟩
  | [] => ⟨0, rfl, by omega⟩
  | [_] => ⟨0, rfl, by omega⟩

/-- `pop_front` of the deque read from its back: its last input, taken out. -/
theorem perm_cons_dropLast {inputs : List (ℤ × T)} {a : ℤ × T} (h : inputs.getLast? = some a) :
    inputs.Perm (a :: inputs.dropLast) := by
  have hperm := List.perm_append_singleton a inputs.dropLast
  rwa [List.dropLast_append_getLast? a h] at hperm

/-- The second loop spends at most `maxInputsInTx` inputs. -/
theorem spendInputs_length_le (maxInputsInTx fuel : ℕ) (inputs : List (ℤ × T)) (spent : List T)
    (change : ℤ) (h : spent.length ≤ maxInputsInTx) :
    (spendInputs maxInputsInTx fuel inputs spent change).2.1.length ≤ maxInputsInTx := by
  fun_induction spendInputs maxInputsInTx fuel inputs spent change with
  | case3 _ spent _ hmax _ _ _ _ ih =>
    exact ih (by rw [List.length_append, List.length_singleton]; omega)
  | case5 _ _ spent _ hmax _ _ _ _ ih =>
    exact ih (by rw [List.length_append, List.length_singleton]; omega)
  | _ => exact h

/-- With fuel for every input, the second loop ends as the source's does:
    with `maxInputsInTx` inputs spent, or none left. -/
theorem spendInputs_done (maxInputsInTx fuel : ℕ) (inputs : List (ℤ × T)) (spent : List T)
    (change : ℤ) (h : inputs.length ≤ fuel) :
    maxInputsInTx ≤ (spendInputs maxInputsInTx fuel inputs spent change).2.1.length ∨
      (spendInputs maxInputsInTx fuel inputs spent change).1 = [] := by
  fun_induction spendInputs maxInputsInTx fuel inputs spent change with
  | case1 => exact .inr (List.eq_nil_of_length_eq_zero (Nat.le_zero.1 h))
  | case2 _ _ _ _ hmax => exact .inl hmax
  | case3 fuel _ _ _ _ _ _ inputs ih =>
    rw [List.length_cons] at h
    exact ih (by omega)
  | case4 => exact .inr rfl
  | case5 fuel inputs _ _ _ _ _ _ _ ih => exact ih (by rw [List.length_dropLast]; omega)
  | case6 _ _ _ _ _ _ hlast => exact .inr (List.getLast?_eq_none_iff.1 hlast)

/-- The second loop computes without overflow from (`inputs`, `change`): the
    amounts are nonnegative, `change` is an `i64`, and it stays one after they
    are all taken off. -/
structure NoOverflow (inputs : List (ℤ × T)) (change : ℤ) : Prop where
  amount_nonneg : ∀ a ∈ inputs, 0 ≤ a.1
  change_lt : change < 2 ^ 63
  sum_le : (inputs.map Prod.fst).sum ≤ change + 2 ^ 63

theorem sum_amounts_nonneg {inputs : List (ℤ × T)} (h : ∀ a ∈ inputs, 0 ≤ a.1) :
    0 ≤ (inputs.map Prod.fst).sum :=
  List.sum_nonneg fun x hx => by
    obtain ⟨a, ha, rfl⟩ := List.mem_map.1 hx
    exact h a ha

/-- Spending one of the inputs: the subtraction does not wrap, and the rest
    computes without overflow. -/
theorem NoOverflow.spend {inputs rest : List (ℤ × T)} {change : ℤ} {a : ℤ × T}
    (h : NoOverflow inputs change) (hperm : inputs.Perm (a :: rest)) :
    wrapI64 (change - a.1) = change - a.1 ∧ NoOverflow rest (change - a.1) := by
  have hsum : (inputs.map Prod.fst).sum = a.1 + (rest.map Prod.fst).sum := by
    rw [(hperm.map Prod.fst).sum_eq, List.map_cons, List.sum_cons]
  have ha : 0 ≤ a.1 := h.amount_nonneg a (hperm.symm.subset List.mem_cons_self)
  have hrest : ∀ b ∈ rest, 0 ≤ b.1 := fun b hb =>
    h.amount_nonneg b (hperm.symm.subset (List.mem_cons_of_mem _ hb))
  have hrest₀ := sum_amounts_nonneg hrest
  have hlt := h.change_lt
  have hle := h.sum_le
  exact ⟨wrapI64_of_le (by omega) (by omega), hrest, by omega, by omega⟩

/-- What the second loop does when it computes without overflow: it spends
    some of the inputs, `chosen`, leaves the others, and takes their amounts
    off `change`. -/
theorem spendInputs_spec (maxInputsInTx fuel : ℕ) (inputs : List (ℤ × T)) (spent : List T)
    (change : ℤ) (h : NoOverflow inputs change) :
    ∃ chosen : List (ℤ × T),
      (chosen ++ (spendInputs maxInputsInTx fuel inputs spent change).1).Perm inputs ∧
      (spendInputs maxInputsInTx fuel inputs spent change).2.1 = spent ++ chosen.map Prod.snd ∧
      (spendInputs maxInputsInTx fuel inputs spent change).2.2 = change - (chosen.map Prod.fst).sum := by
  fun_induction spendInputs maxInputsInTx fuel inputs spent change with
  | case3 _ spent change _ _ amount output inputs ih =>
    -- from the back
    obtain ⟨hwrap, h'⟩ := h.spend (List.Perm.refl _)
    rw [hwrap] at ih ⊢
    obtain ⟨chosen, hperm, hspent, hchange⟩ := ih h'
    refine ⟨(amount, output) :: chosen, hperm.cons _, by simp [hspent], ?_⟩
    rw [hchange, List.map_cons, List.sum_cons]
    omega
  | case5 _ inputs spent change _ _ amount output hlast ih =>
    -- from the front
    have hperm₀ := perm_cons_dropLast hlast
    obtain ⟨hwrap, h'⟩ := h.spend hperm₀
    rw [hwrap] at ih ⊢
    obtain ⟨chosen, hperm, hspent, hchange⟩ := ih h'
    refine ⟨(amount, output) :: chosen, (hperm.cons _).trans hperm₀.symm, by simp [hspent], ?_⟩
    rw [hchange, List.map_cons, List.sum_cons]
    omega
  | _ => exact ⟨[], by simp, by simp, by simp⟩

/-- Without overflow, `change` only goes down. -/
theorem spendInputs_change_le (maxInputsInTx fuel : ℕ) (inputs : List (ℤ × T)) (spent : List T)
    (change : ℤ) (h : NoOverflow inputs change) :
    (spendInputs maxInputsInTx fuel inputs spent change).2.2 ≤ change := by
  obtain ⟨chosen, hperm, -, hchange⟩ := spendInputs_spec maxInputsInTx fuel inputs spent change h
  have hchosen := sum_amounts_nonneg fun a ha =>
    h.amount_nonneg a (hperm.subset (List.mem_append_left _ ha))
  omega

/-- When the second loop computes without overflow and leaves `change`
    positive, it only spent from the back: the first `j` inputs. -/
theorem spendInputs_pos (maxInputsInTx fuel : ℕ) (inputs : List (ℤ × T)) (spent : List T)
    (change : ℤ) (h : NoOverflow inputs change)
    (hpos : 0 < (spendInputs maxInputsInTx fuel inputs spent change).2.2) :
    ∃ j, (spendInputs maxInputsInTx fuel inputs spent change).1 = inputs.drop j ∧
      (spendInputs maxInputsInTx fuel inputs spent change).2.1 =
        spent ++ (inputs.take j).map Prod.snd ∧
      (spendInputs maxInputsInTx fuel inputs spent change).2.2 =
        change - ((inputs.take j).map Prod.fst).sum := by
  fun_induction spendInputs maxInputsInTx fuel inputs spent change with
  | case3 _ spent change _ _ amount output inputs ih =>
    obtain ⟨hwrap, h'⟩ := h.spend (List.Perm.refl _)
    rw [hwrap] at ih hpos ⊢
    obtain ⟨j, hrest, hspent, hchange⟩ := ih h' hpos
    refine ⟨j + 1, by simpa using hrest, by simp [hspent], ?_⟩
    rw [hchange, List.take_succ_cons, List.map_cons, List.sum_cons]
    omega
  | case5 fuel inputs spent change _ hcovered amount output hlast _ =>
    -- once `change` is covered, it stays so
    obtain ⟨hwrap, h'⟩ := h.spend (perm_cons_dropLast hlast)
    rw [hwrap] at hpos
    have hle := spendInputs_change_le maxInputsInTx fuel _ (spent ++ [output]) _ h'
    have ha := h.amount_nonneg _ (List.mem_of_getLast? hlast)
    omega
  | _ => exact ⟨0, by simp, by simp, by simp⟩

/-! ### Coin selection -/

/-- A run of `find_utxo` whose assertions hold and whose target is an `i64`:
    the outputs sorted from the back `L`, what the first loop leaves of them,
    `L.drop j`, and the state the second loop ends in, from which the result
    is read. -/
theorem findUtxo_run (unspent : List (T × ℤ)) {sum fee : ℤ} (maxInputsInTx : ℕ) (hsum : 0 ≤ sum)
    (hfee : 0 ≤ fee) (hfit : sum + fee ≤ 2 ^ 63 - 1) :
    ∃ (L : List (ℤ × T)) (j : ℕ), L.Perm (unspent.map Prod.swap) ∧ (L.map Prod.fst).Pairwise (· ≥ ·) ∧
      (0 < j → ∃ a rest, L.drop j = a :: rest ∧ sum + fee ≤ a.1) ∧
      findUtxo unspent sum fee maxInputsInTx =
        let r := spendInputs maxInputsInTx (L.drop j).length (L.drop j) [] (sum + fee)
        .ok (if 0 < r.2.2 then if !r.1.isEmpty then .error .TooManyInputs else .error .NotEnoughTokens
          else .ok (r.2.1, fee, wrapI64 (-r.2.2))) := by
  have hS : wrapI64 (sum + fee) = sum + fee := wrapI64_of_le (by omega) (by omega)
  set L := ((unspent.map Prod.swap).insertionSort AmountLe).reverse with hL
  have hperm : L.Perm (unspent.map Prod.swap) :=
    (List.reverse_perm _).trans (List.perm_insertionSort _ _)
  have hsorted : (L.map Prod.fst).Pairwise (· ≥ ·) := by
    rw [List.pairwise_map, hL, List.pairwise_reverse]
    exact List.pairwise_insertionSort _ _
  obtain ⟨j, hdrop, hcover⟩ := dropLarge_spec (sum + fee) L
  refine ⟨L, j, hperm, hsorted, hcover, ?_⟩
  rcases hr : spendInputs maxInputsInTx (L.drop j).length (L.drop j) [] (sum + fee) with
    ⟨inputs, spent, change⟩
  simp only [findUtxo, check, hsum, hfee, hS, ← hL, hdrop, hr]
  split_ifs <;> rfl

/-- The amounts of the sorted outputs, those of the unspent ones. -/
theorem sum_amounts_of_perm {L : List (ℤ × T)} {unspent : List (T × ℤ)}
    (hperm : L.Perm (unspent.map Prod.swap)) :
    (L.map Prod.fst).sum = (unspent.map Prod.snd).sum := by
  rw [(hperm.map Prod.fst).sum_eq, List.map_map]
  rfl

theorem amount_nonneg_of_perm {L : List (ℤ × T)} {unspent : List (T × ℤ)}
    (hperm : L.Perm (unspent.map Prod.swap)) (hpos : ∀ u ∈ unspent, 0 ≤ u.2) : ∀ a ∈ L, 0 ≤ a.1 := by
  intro a ha
  obtain ⟨u, hu, rfl⟩ := List.mem_map.1 (hperm.subset ha)
  exact hpos u hu

/-- What the first loop leaves of the sorted outputs, whose amounts total at
    most `i64::MAX`, the second loop runs on without overflow. -/
theorem noOverflow_drop {L : List (ℤ × T)} (hpos : ∀ a ∈ L, 0 ≤ a.1)
    (htotal : (L.map Prod.fst).sum ≤ 2 ^ 63 - 1) (change : ℤ) (h₀ : 0 ≤ change) (h₁ : change < 2 ^ 63)
    (j : ℕ) : ((L.drop j).map Prod.fst).sum ≤ (L.map Prod.fst).sum ∧ NoOverflow (L.drop j) change := by
  have hdrop : ∀ a ∈ L.drop j, 0 ≤ a.1 := fun a ha => hpos a (List.mem_of_mem_drop ha)
  have hsplit := List.sum_take_add_sum_drop (L.map Prod.fst) j
  have htake : 0 ≤ ((L.take j).map Prod.fst).sum :=
    sum_amounts_nonneg fun a ha => hpos a (List.mem_of_mem_take ha)
  rw [← List.map_take, ← List.map_drop] at hsplit
  exact ⟨by omega, hdrop, h₁, by omega⟩

/-- When the first loop dropped outputs, any outputs spent from the back
    cover `change`: the first of them does. -/
theorem le_sum_take_of_cover {D : List (ℤ × T)} {change : ℤ}
    (hD : ∃ a rest, D = a :: rest ∧ change ≤ a.1) (hpos : ∀ a ∈ D, 0 ≤ a.1) {k : ℕ} (hk : 0 < k) :
    change ≤ ((D.take k).map Prod.fst).sum := by
  obtain ⟨a, rest, rfl, ha⟩ := hD
  obtain ⟨k, rfl⟩ := Nat.exists_eq_succ_of_ne_zero (show k ≠ 0 by omega)
  have hrest : 0 ≤ ((rest.take k).map Prod.fst).sum := sum_amounts_nonneg fun b hb =>
    hpos b (List.mem_cons_of_mem _ (List.mem_of_mem_take hb))
  rw [List.take_succ_cons, List.map_cons, List.sum_cons]
  omega

section Verdicts

variable {unspent : List (T × ℤ)} {sum fee : ℤ} {maxInputsInTx : ℕ}
  (hpos : ∀ u ∈ unspent, 0 ≤ u.2) (htotal : (unspent.map Prod.snd).sum ≤ 2 ^ 63 - 1)
  (hsum : 0 ≤ sum) (hfee : 0 ≤ fee) (hfit : sum + fee ≤ 2 ^ 63 - 1)
include hpos htotal hsum hfee hfit

/-- `Ok((spent, fee, change))`: the outputs spent are some of the unspent ones,
    at most `maxInputsInTx`, and their amounts are the target and the change. -/
theorem findUtxo_ok {spent : List T} {fee' change : ℤ}
    (h : findUtxo unspent sum fee maxInputsInTx = .ok (.ok (spent, fee', change))) :
    fee' = fee ∧ 0 ≤ change ∧ spent.length ≤ maxInputsInTx ∧
      ∃ chosen : List (T × ℤ), chosen.Subperm unspent ∧ spent = chosen.map Prod.fst ∧
        (chosen.map Prod.snd).sum = sum + fee + change := by
  obtain ⟨L, j, hperm, -, -, hrun⟩ := findUtxo_run unspent maxInputsInTx hsum hfee hfit
  have hLsum := sum_amounts_of_perm hperm
  obtain ⟨hDsum, hno⟩ := noOverflow_drop (amount_nonneg_of_perm hperm hpos) (by omega)
    (sum + fee) (by omega) (by omega) j
  obtain ⟨chosen, hchosen, hspent, hchange⟩ :=
    spendInputs_spec maxInputsInTx (L.drop j).length (L.drop j) [] (sum + fee) hno
  have hlen := spendInputs_length_le maxInputsInTx (L.drop j).length (L.drop j) [] (sum + fee)
    (Nat.zero_le _)
  rcases hr : spendInputs maxInputsInTx (L.drop j).length (L.drop j) [] (sum + fee) with
    ⟨inputs', spent', change'⟩
  simp only [hr] at hchosen hspent hchange hlen hrun
  rw [hrun, Except.ok.injEq] at h
  -- the target was covered
  have hc : ¬0 < change' := by
    intro hc
    rw [if_pos hc] at h
    split at h <;> cases h
  rw [if_neg hc, Except.ok.injEq, Prod.mk.injEq, Prod.mk.injEq] at h
  obtain ⟨rfl, rfl, rfl⟩ := h
  -- the amounts chosen are at most those of all the outputs
  have hsplit := (hchosen.map Prod.fst).sum_eq
  rw [List.map_append, List.sum_append] at hsplit
  have hleft := sum_amounts_nonneg fun a ha =>
    hno.amount_nonneg a (hchosen.subset (List.mem_append_right _ ha))
  have hwrap : wrapI64 (-change') = -change' := wrapI64_of_le (by omega) (by omega)
  have hsub : chosen.Subperm (unspent.map Prod.swap) :=
    ((List.sublist_append_left chosen inputs').subperm.trans hchosen.subperm).trans
      ((List.drop_sublist j L).subperm.trans hperm.subperm)
  refine ⟨rfl, by omega, hlen, chosen.map Prod.swap, ?_, by simp [hspent], ?_⟩
  · simpa [List.map_map] using List.subperm_map Prod.swap hsub
  · rw [List.map_map, hwrap]
    change (chosen.map Prod.fst).sum = _
    omega

/-- `Err(NotEnoughTokens)`: the unspent outputs do not cover the target. -/
theorem findUtxo_notEnoughTokens
    (h : findUtxo unspent sum fee maxInputsInTx = .ok (.error .NotEnoughTokens)) :
    (unspent.map Prod.snd).sum < sum + fee := by
  obtain ⟨L, j, hperm, -, hcover, hrun⟩ := findUtxo_run unspent maxInputsInTx hsum hfee hfit
  have hLpos := amount_nonneg_of_perm hperm hpos
  have hLsum := sum_amounts_of_perm hperm
  obtain ⟨-, hno⟩ := noOverflow_drop hLpos (by omega) (sum + fee) (by omega) (by omega) j
  have hpos' := spendInputs_pos maxInputsInTx (L.drop j).length (L.drop j) [] (sum + fee) hno
  rcases hr : spendInputs maxInputsInTx (L.drop j).length (L.drop j) [] (sum + fee) with
    ⟨inputs', spent', change'⟩
  simp only [hr] at hpos' hrun
  rw [hrun, Except.ok.injEq] at h
  -- the target was not covered, and no output is left
  have hc : 0 < change' := by
    by_contra hc
    rw [if_neg hc] at h
    cases h
  rw [if_pos hc] at h
  have hempty : inputs' = [] := by
    cases inputs' with
    | nil => rfl
    | cons a rest => simp at h
  obtain ⟨k, hrest, -, hchange⟩ := hpos' hc
  have htake : (L.drop j).take k = L.drop j :=
    List.take_of_length_le (List.drop_eq_nil_iff.1 (hempty ▸ hrest).symm)
  rw [htake] at hchange
  -- so all of them were spent from the back, and none was dropped first
  have hj : j = 0 := by
    by_contra hj
    have hne : L.drop j ≠ [] := by
      obtain ⟨a, rest, hD, -⟩ := hcover (Nat.pos_of_ne_zero hj)
      simp [hD]
    have hcov := le_sum_take_of_cover (hcover (Nat.pos_of_ne_zero hj))
      (fun a ha => hLpos a (List.mem_of_mem_drop ha)) (List.length_pos_of_ne_nil hne)
    rw [List.take_length] at hcov
    omega
  subst hj
  rw [List.drop_zero] at hchange
  omega

/-- `Err(TooManyInputs)`: no `maxInputsInTx` of the unspent outputs, or
    fewer, cover the target. -/
theorem findUtxo_tooManyInputs
    (h : findUtxo unspent sum fee maxInputsInTx = .ok (.error .TooManyInputs)) :
    ∀ s : List (T × ℤ), s.Subperm unspent → s.length ≤ maxInputsInTx →
      (s.map Prod.snd).sum < sum + fee := by
  intro s hs hlen
  obtain ⟨L, j, hperm, hsorted, hcover, hrun⟩ := findUtxo_run unspent maxInputsInTx hsum hfee hfit
  have hLpos := amount_nonneg_of_perm hperm hpos
  have hLsum := sum_amounts_of_perm hperm
  obtain ⟨-, hno⟩ := noOverflow_drop hLpos (by omega) (sum + fee) (by omega) (by omega) j
  have hpos' := spendInputs_pos maxInputsInTx (L.drop j).length (L.drop j) [] (sum + fee) hno
  have hdone := spendInputs_done maxInputsInTx (L.drop j).length (L.drop j) [] (sum + fee) le_rfl
  have hle := spendInputs_length_le maxInputsInTx (L.drop j).length (L.drop j) [] (sum + fee)
    (Nat.zero_le _)
  rcases hr : spendInputs maxInputsInTx (L.drop j).length (L.drop j) [] (sum + fee) with
    ⟨inputs', spent', change'⟩
  simp only [hr] at hpos' hdone hle hrun
  rw [hrun, Except.ok.injEq] at h
  -- the target was not covered, and outputs are left
  have hc : 0 < change' := by
    by_contra hc
    rw [if_neg hc] at h
    cases h
  rw [if_pos hc] at h
  have hne : inputs' ≠ [] := by
    rintro rfl
    simp at h
  obtain ⟨k, -, hspent, hchange⟩ := hpos' hc
  -- so the loop spent `maxInputsInTx` outputs, all from the back
  have hmax : spent'.length = maxInputsInTx := le_antisymm hle (hdone.resolve_right hne)
  rw [hspent, List.nil_append, List.length_map, List.length_take] at hmax
  have htake : (L.drop j).take k = (L.drop j).take maxInputsInTx :=
    calc (L.drop j).take k = ((L.drop j).take k).take maxInputsInTx :=
          (List.take_of_length_le (by rw [List.length_take]; omega)).symm
      _ = (L.drop j).take maxInputsInTx := by rw [List.take_take, Nat.min_eq_left (by omega)]
  rw [htake] at hchange
  rcases Nat.eq_zero_or_pos maxInputsInTx with hzero | hmpos
  · -- no output may be spent
    rw [hzero, Nat.le_zero, List.length_eq_zero_iff] at hlen
    subst hlen
    simp only [hzero, List.take_zero, List.map_nil, List.sum_nil] at hchange
    simp only [List.map_nil, List.sum_nil]
    omega
  -- none was dropped first
  have hj : j = 0 := by
    by_contra hj
    have hcov := le_sum_take_of_cover (hcover (Nat.pos_of_ne_zero hj))
      (fun a ha => hLpos a (List.mem_of_mem_drop ha)) hmpos
    omega
  subst hj
  rw [List.drop_zero] at hchange
  -- the largest `maxInputsInTx` outputs cover at least as much as any others
  have hsub : (s.map Prod.snd).Subperm (L.map Prod.fst) := by
    refine (List.subperm_map Prod.snd hs).trans
      ((List.Perm.of_eq ?_).subperm.trans (hperm.map Prod.fst).symm.subperm)
    rw [List.map_map]
    rfl
  have hbound := List.sum_le_sum_take_of_subperm hsorted
    (fun x hx => by
      obtain ⟨a, ha, rfl⟩ := List.mem_map.1 hx
      exact hLpos a ha) hsub
    (show (s.map Prod.snd).length ≤ maxInputsInTx by rw [List.length_map]; exact hlen)
  rw [← List.map_take] at hbound
  omega

end Verdicts

/-- When the amounts are nonnegative and total at most `i64::MAX`, and the
    target is an `i64`, `find_utxo` does not panic and returns one of the three
    results the wallet expects. -/
theorem findUtxo_correct (unspent : List (T × ℤ)) (sum fee : ℤ) (maxInputsInTx : ℕ)
    (hpos : ∀ u ∈ unspent, 0 ≤ u.2) (htotal : (unspent.map Prod.snd).sum ≤ 2 ^ 63 - 1)
    (hsum : 0 ≤ sum) (hfee : 0 ≤ fee) (hfit : sum + fee ≤ 2 ^ 63 - 1) :
    ∃ r, findUtxo unspent sum fee maxInputsInTx = .ok r ∧
      (∀ spent fee' change, r = .ok (spent, fee', change) →
        fee' = fee ∧ 0 ≤ change ∧ spent.length ≤ maxInputsInTx ∧
        ∃ chosen : List (T × ℤ), chosen.Subperm unspent ∧ spent = chosen.map Prod.fst ∧
          (chosen.map Prod.snd).sum = sum + fee + change) ∧
      (r = .error .NotEnoughTokens → (unspent.map Prod.snd).sum < sum + fee) ∧
      (r = .error .TooManyInputs → ∀ s : List (T × ℤ), s.Subperm unspent →
        s.length ≤ maxInputsInTx → (s.map Prod.snd).sum < sum + fee) := by
  obtain ⟨L, j, -, -, -, hrun⟩ := findUtxo_run unspent maxInputsInTx hsum hfee hfit
  refine ⟨_, hrun, fun spent fee' change hr => ?_, fun hr => ?_, fun hr => ?_⟩
  · exact findUtxo_ok hpos htotal hsum hfee hfit (hrun.trans (congrArg Except.ok hr))
  · exact findUtxo_notEnoughTokens hpos htotal hsum hfee hfit (hrun.trans (congrArg Except.ok hr))
  · exact findUtxo_tooManyInputs hpos htotal hsum hfee hfit (hrun.trans (congrArg Except.ok hr))

/-- The unspent outputs of `test_find_utxo`, each named by its amount. -/
def testUnspent : List (ℕ × ℤ) := [(100, 100), (50, 50), (10, 10), (2, 2), (1, 1)]

example : findUtxo testUnspent 49 2 3 = .ok (.ok ([100, 1, 2], 2, 52)) := by decide
example : findUtxo testUnspent 5 2 3 = .ok (.ok ([10, 1, 2], 2, 6)) := by decide
example : findUtxo testUnspent 163 2 3 = .ok (.error .TooManyInputs) := by decide
example : findUtxo testUnspent 164 2 5 = .ok (.error .NotEnoughTokens) := by decide

/-- The payment of `49` with a fee of `2` from the outputs of `test_find_utxo`. -/
theorem findUtxo_correct_test :
    (∀ u ∈ testUnspent, 0 ≤ u.2) ∧ (testUnspent.map Prod.snd).sum ≤ 2 ^ 63 - 1 ∧
    ∃ r, findUtxo testUnspent 49 2 3 = .ok r ∧
      (∀ spent fee' change, r = .ok (spent, fee', change) →
        fee' = 2 ∧ 0 ≤ change ∧ spent.length ≤ 3 ∧
        ∃ chosen : List (ℕ × ℤ), chosen.Subperm testUnspent ∧ spent = chosen.map Prod.fst ∧
          (chosen.map Prod.snd).sum = 49 + 2 + change) ∧
      (r = .error .NotEnoughTokens → (testUnspent.map Prod.snd).sum < 49 + 2) ∧
      (r = .error .TooManyInputs → ∀ s : List (ℕ × ℤ), s.Subperm testUnspent →
        s.length ≤ 3 → (s.map Prod.snd).sum < 49 + 2) :=
  ⟨by decide, by decide,
    findUtxo_correct testUnspent 49 2 3 (by decide) (by decide) (by decide) (by decide) (by decide)⟩

/-- Past a total of `i64::MAX` the change wraps around. Outputs of `2^62 - 1`,
    `2^62 - 1` and `2^63 - 1` cover a payment of `2^62`, but spending the second
    small one takes the change below `i64::MIN`, it wraps to a positive value,
    and `find_utxo` reports `NotEnoughTokens`. Two outputs of `2` and one of
    `2^63 - 1` for a payment of `3` leave the change at `i64::MIN`, which the
    final negation keeps negative. -/
theorem findUtxo_overflow :
    findUtxo [((0 : ℕ), 2 ^ 62 - 1), (1, 2 ^ 62 - 1), (2, 2 ^ 63 - 1)] (2 ^ 62) 0 10 =
      .ok (.error .NotEnoughTokens) ∧
    ¬(([((0 : ℕ), 2 ^ 62 - 1), (1, 2 ^ 62 - 1), (2, 2 ^ 63 - 1)] : List (ℕ × ℤ)).map Prod.snd).sum <
      2 ^ 62 + 0 ∧
    findUtxo [((0 : ℕ), 2), (1, 2), (2, 2 ^ 63 - 1)] 3 0 10 = .ok (.ok ([2, 0, 1], 0, -2 ^ 63)) :=
  ⟨by decide, by decide, by decide⟩

end Change

end Stegos
