import Stegos.Blockchain.Stakes
import Stegos.Lib.Fresh

/-!
# The macro block of an epoch

At the end of an epoch the leader rebuilds the epoch as one macro block
(`create_macro_block`): its coinbase and service award, then every
transaction of the micro blocks, collected by `MacroBlock::from_transactions`
into the sets of inputs and outputs. The collection succeeds exactly when no
input is spent twice and no output hash occurs twice in the whole list
(`collectTransactions_ok_iff`).

A micro block checks its outputs against the unspent outputs and itself
only. An output that one block creates, a later block spends, and a third
block creates again passes every check, and then the epoch has the same
output hash twice: `create_macro_block` panics on its `expect`
(`createMacroBlock_panics`).
-/

namespace Stegos

variable {Fr Pt : Type} [AddCommGroup Fr] [AddCommGroup Pt] {κ : Crypto Fr Pt}

section Collect

variable {I I' : Std.ExtTreeSet ℕ compare} {O O' : Std.ExtTreeMap ℕ (Output Pt) compare}
  {g g' : Fr} {tx : Transaction Fr Pt}

theorem collectInput_eq (txHash : ℕ) (s : Std.ExtTreeSet ℕ compare) (a : ℕ) :
    collectInput txHash s a = if a ∈ s then .error (.DuplicateInput txHash a) else .ok (s.insert a) :=
  rfl

theorem collectOutput_eq (txHash : ℕ) (s : Std.ExtTreeMap ℕ (Output Pt) compare) (o : Output Pt) :
    collectOutput κ txHash s o =
      if κ.hashOutput o ∈ s then .error (.DuplicateOutput txHash (κ.hashOutput o))
      else .ok (s.insert (κ.hashOutput o) o) :=
  rfl

/-- What one collected transaction adds: its inputs, distinct and new, and
    the hashes of its outputs, distinct and new. -/
theorem collectTransaction_ok (h : collectTransaction κ (I, O, g) tx = .ok (I', O', g')) :
    (tx.txins.Nodup ∧ (∀ x ∈ tx.txins, x ∉ I) ∧ ∀ k, k ∈ I' ↔ k ∈ tx.txins ∨ k ∈ I) ∧
    ((tx.txouts.map κ.hashOutput).Nodup ∧ (∀ o ∈ tx.txouts, κ.hashOutput o ∉ O) ∧
      ∀ k, k ∈ O' ↔ k ∈ tx.txouts.map κ.hashOutput ∨ k ∈ O) := by
  simp only [collectTransaction] at h
  obtain ⟨I₁, hI, hrest⟩ := Except.bind_eq_ok.1 h
  obtain ⟨O₁, hO, hret⟩ := Except.bind_eq_ok.1 hrest
  cases hret
  obtain ⟨hInodup, hIfresh, hImem⟩ :=
    List.foldlM_fresh_ok (List.fresh_ok_of_eq_ite (collectInput_eq _))
      (fun _ _ _ => Std.ExtTreeSet.mem_insert_iff) hI
  obtain ⟨hOnodup, hOfresh, hOmem⟩ :=
    List.foldlM_fresh_ok (List.fresh_ok_of_eq_ite (collectOutput_eq _))
      (fun _ _ _ => Std.ExtTreeMap.mem_insert_iff) hO
  simp only [List.map_id'] at hInodup hImem
  exact ⟨⟨hInodup, hIfresh, hImem⟩, hOnodup, hOfresh, hOmem⟩

/-- A transaction whose inputs are distinct and new, and whose output hashes
    are distinct and new, is collected. -/
theorem collectTransaction_exists (hIn : tx.txins.Nodup) (hIf : ∀ x ∈ tx.txins, x ∉ I)
    (hOn : (tx.txouts.map κ.hashOutput).Nodup) (hOf : ∀ o ∈ tx.txouts, κ.hashOutput o ∉ O) :
    ∃ I' O', collectTransaction κ (I, O, g) tx = .ok (I', O', g + tx.gamma) := by
  obtain ⟨I', hI'⟩ :=
    List.foldlM_fresh_exists (List.fresh_exists_of_eq_ite (collectInput_eq (κ.hashTransaction tx)))
      (fun _ _ _ => Std.ExtTreeSet.mem_insert_iff) (by simpa using hIn) hIf
  obtain ⟨O', hO'⟩ :=
    List.foldlM_fresh_exists (List.fresh_exists_of_eq_ite (collectOutput_eq (κ.hashTransaction tx)))
        (fun _ _ _ => Std.ExtTreeMap.mem_insert_iff) hOn hOf
  refine ⟨I', O', ?_⟩
  simp only [collectTransaction, hI', hO']
  rfl

/-- The collection from sets already collected succeeds exactly when the
    inputs of the transactions are distinct and new, and so are the hashes of
    their outputs. -/
theorem foldlM_collectTransaction_ok_iff :
    ∀ (txs : List (Transaction Fr Pt)) (I : Std.ExtTreeSet ℕ compare)
      (O : Std.ExtTreeMap ℕ (Output Pt) compare) (g : Fr),
      (∃ r, txs.foldlM (collectTransaction κ) (I, O, g) = .ok r) ↔
        (txs.flatMap Transaction.txins).Nodup ∧ (∀ x ∈ txs.flatMap Transaction.txins, x ∉ I) ∧
        ((txs.flatMap Transaction.txouts).map κ.hashOutput).Nodup ∧
        ∀ o ∈ txs.flatMap Transaction.txouts, κ.hashOutput o ∉ O
  | [], I, O, g => by simp [pure, Except.pure]
  | tx :: txs, I, O, g => by
    rw [List.flatMap_cons, List.flatMap_cons, List.map_append, List.nodup_append,
      List.nodup_append, List.foldlM_cons]
    constructor
    · rintro ⟨r, h⟩
      obtain ⟨⟨I', O', g'⟩, h₁, h₂⟩ := Except.bind_eq_ok.1 h
      obtain ⟨⟨hIn, hIf, hIm⟩, hOn, hOf, hOm⟩ := collectTransaction_ok h₁
      obtain ⟨hIn', hIf', hOn', hOf'⟩ := (foldlM_collectTransaction_ok_iff txs I' O' g').1 ⟨r, h₂⟩
      refine ⟨⟨hIn, hIn', ?_⟩, ?_, ⟨hOn, hOn', ?_⟩, ?_⟩
      -- what the transaction collected is in the sets the rest starts from
      · rintro a ha _ hb rfl
        exact hIf' a hb ((hIm a).2 (.inl ha))
      · intro x hx
        rcases List.mem_append.1 hx with hx | hx
        · exact hIf x hx
        · exact fun hxI => hIf' x hx ((hIm x).2 (.inr hxI))
      · rintro a ha _ hb rfl
        obtain ⟨o, ho, rfl⟩ := List.mem_map.1 hb
        exact hOf' o ho ((hOm _).2 (.inl ha))
      · intro o ho
        rcases List.mem_append.1 ho with ho | ho
        · exact hOf o ho
        · exact fun hoO => hOf' o ho ((hOm _).2 (.inr hoO))
    · rintro ⟨⟨hIn, hIn', hIdisj⟩, hIf, ⟨hOn, hOn', hOdisj⟩, hOf⟩
      obtain ⟨I', O', h₁⟩ := collectTransaction_exists (g := g) hIn
        (fun x hx => hIf x (List.mem_append_left _ hx)) hOn
        (fun o ho => hOf o (List.mem_append_left _ ho))
      obtain ⟨-, hIm⟩ := (collectTransaction_ok h₁).1.2
      obtain ⟨-, hOm⟩ := (collectTransaction_ok h₁).2.2
      -- the rest is fresh for the sets the transaction leaves
      have hIf' : ∀ x ∈ txs.flatMap Transaction.txins, x ∉ I' := by
        intro x hx hxI
        rcases (hIm x).1 hxI with hx' | hxI
        · exact hIdisj x hx' x hx rfl
        · exact hIf x (List.mem_append_right _ hx) hxI
      have hOf' : ∀ o ∈ txs.flatMap Transaction.txouts, κ.hashOutput o ∉ O' := by
        intro o ho hoO
        rcases (hOm _).1 hoO with ho' | hoO
        · exact hOdisj _ ho' _ (List.mem_map_of_mem ho) rfl
        · exact hOf o (List.mem_append_right _ ho) hoO
      obtain ⟨r, h₂⟩ := (foldlM_collectTransaction_ok_iff txs I' O' (g + tx.gamma)).2
        ⟨hIn', hIf', hOn', hOf'⟩
      exact ⟨r, by rw [h₁]; exact h₂⟩

/-- `from_transactions` collects a list of transactions exactly when no input
    is spent twice and no output hash occurs twice in it. -/
theorem collectTransactions_ok_iff (txs : List (Transaction Fr Pt)) :
    (∃ r, collectTransactions κ txs = .ok r) ↔
      (txs.flatMap Transaction.txins).Nodup ∧
        ((txs.flatMap Transaction.txouts).map κ.hashOutput).Nodup := by
  rw [collectTransactions, foldlM_collectTransaction_ok_iff]
  simp

end Collect

/-! ### An output created twice in one epoch -/

namespace Scenario

/-- Account `200` pays its `500` to itself, in output `4`. -/
def createBlock : MicroBlock ℤ ℤ :=
  microBlock 1 2 1 0 2 [coinbase 3, .PaymentTransaction ⟨[2], [payment 200 500 4], 0, 0, 0⟩]

/-- Output `4` is spent into output `7`. -/
def spendBlock : MicroBlock ℤ ℤ :=
  microBlock 1 5 1 1 3 [coinbase 6, .PaymentTransaction ⟨[4], [payment 200 500 7], 0, 0, 0⟩]

/-- Output `7` is spent into an output that hashes as output `4` again. -/
def recreateBlock : MicroBlock ℤ ℤ :=
  microBlock 1 7 1 2 4 [coinbase 8, .PaymentTransaction ⟨[7], [payment 200 500 4], 0, 0, 0⟩]

end Scenario

/-- From the first state of an epoch, three validated micro blocks fill the
    epoch, and the leader's macro block of the epoch panics. -/
theorem createMacroBlock_panics :
    ∃ s₀ s, Scenario.start = .ok s₀ ∧
      Transition.Reachable (· = s₀) (Blockchain.validatedStep Scenario.crypto) s ∧
      s₀.offset = 0 ∧ s.isEpochFull = true ∧
      s.createMacroBlock Scenario.crypto 0 1 1 10 ⟨100, ⟨10, 11⟩, paymentPayloadLen⟩ 0 12 =
        .error (.panic "Transactions are valid") := by
  have htest : (Scenario.start.toOption.bind fun s₀ =>
      (Transition.run (Blockchain.validatedStep Scenario.crypto) s₀
        [.pushMicroBlock Scenario.createBlock 2, .pushMicroBlock Scenario.spendBlock 3,
          .pushMicroBlock Scenario.recreateBlock 4]).toOption.map fun s =>
        decide (s₀.offset = 0 ∧ s.isEpochFull = true ∧
          s.createMacroBlock Scenario.crypto 0 1 1 10 ⟨100, ⟨10, 11⟩, paymentPayloadLen⟩ 0 12 =
            .error (.panic "Transactions are valid"))) = some true := by
    decide +kernel
  obtain ⟨s₀, s, h₀, hs, h⟩ := Transition.Reachable.of_run_test htest
  exact ⟨s₀, s, h₀, hs, of_decide_eq_true h⟩

end Stegos
