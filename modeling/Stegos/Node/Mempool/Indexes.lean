import Stegos.Node.Mempool
import Stegos.Blockchain.Stakes

/-!
# The indexes of the memory pool

The pool keeps two indexes by hand: the transaction that claims each input,
and the transaction that creates each output. They are consistent with the
pool (`Consistent`) when an input is claimed by a transaction exactly when the
transaction is in the pool and spends it, and an output hash exactly when it
creates an output of that hash (`Indexes`, one per index).

* `push_tx` keeps the indexes consistent (`Consistent.pushTx`): what it
  asserts makes every claim it adds new.
* `prune` first removes the claims of the hashes it is given, collecting the
  transactions that made them, then `prune_txs` removes these transactions
  with what is left of their claims. Along that loop the claims only go, and
  those of the transactions not to be removed stay (`IndexPruning`), so the
  `expect` and the `assert_eq!`s of `prune_txs` never fire, and it ends with
  consistent indexes (`pruneTxs_eq_ok`). `prune` removes exactly the
  transactions of the pool that spend an input or create an output it is given
  (`prune_eq_ok`).
* `pop_micro_block` removes the transactions that spend an output of the
  block and queues the block's transactions again
  (`Consistent.popMicroBlock`).
* `indexes_consistent`: in every state that a run of these calls reaches from
  an empty pool, the indexes are consistent and `prune` removes exactly the
  transactions that share an input or an output with its arguments.
-/

namespace Stegos

namespace Mempool

variable {Fr Pt : Type} [AddCommGroup Fr] [AddCommGroup Pt] (κ : Crypto Fr Pt)

/-- The index `index` of the keys `keys` of the transactions of `pool`: a key
    is indexed to a transaction exactly when the transaction is in the pool
    and has the key. -/
def Indexes (pool : Std.ExtTreeMap ℕ (Transaction Fr Pt) compare) (index : Std.ExtTreeMap ℕ ℕ compare)
    (keys : Transaction Fr Pt → List ℕ) : Prop :=
  ∀ k t, index[k]? = some t ↔ ∃ tx, pool[t]? = some tx ∧ k ∈ keys tx

/-- The indexes of a pool are consistent with it. -/
structure Consistent (mempool : Mempool Fr Pt) : Prop where
  inputs_indexed : Indexes mempool.pool mempool.inputs Transaction.txins
  outputs_indexed : Indexes mempool.pool mempool.outputs fun tx => tx.txouts.map κ.hashOutput

theorem consistent_new : Consistent κ (new : Mempool Fr Pt) :=
  ⟨fun k t => by simp [new], fun k t => by simp [new]⟩

/-! ### Queuing a transaction -/

variable {keys : Transaction Fr Pt → List ℕ}

omit [AddCommGroup Fr] [AddCommGroup Pt] in
/-- A transaction with a new hash, its keys indexed to it. -/
theorem Indexes.insert {pool : Std.ExtTreeMap ℕ (Transaction Fr Pt) compare}
    {index index' : Std.ExtTreeMap ℕ ℕ compare} {txHash : ℕ} {tx : Transaction Fr Pt}
    (hc : Indexes pool index keys) (hnew : txHash ∉ pool)
    (h : ∀ k t, index'[k]? = some t ↔ index[k]? = some t ∨ (k ∈ keys tx ∧ t = txHash)) :
    Indexes (pool.insert txHash tx) index' keys := by
  intro k t
  rw [h, hc]
  by_cases ht : t = txHash
  · subst ht
    -- the hash is new, so no key was indexed to it
    have hnone : pool[t]? = none := Std.ExtTreeMap.getElem?_eq_none hnew
    simp [hnone]
  · simp [Std.ExtTreeMap.getElem?_insert, Ne.symm ht, ht]

/-- What a successful `push_tx` does. -/
theorem pushTx_eq_ok {self m : Mempool Fr Pt} {txHash : ℕ} {tx : Transaction Fr Pt}
    (h : self.pushTx κ txHash tx = .ok m) :
    txHash ∉ self.pool ∧ m.pool = self.pool.insert txHash tx ∧
      (∀ k t, m.inputs[k]? = some t ↔ self.inputs[k]? = some t ∨ (k ∈ tx.txins ∧ t = txHash)) ∧
      (∀ k t, m.outputs[k]? = some t ↔
        self.outputs[k]? = some t ∨ (k ∈ tx.txouts.map κ.hashOutput ∧ t = txHash)) := by
  obtain ⟨inputs, hI, h⟩ := Except.bind_eq_ok.1 h
  obtain ⟨outputs, hO, h⟩ := Except.bind_eq_ok.1 h
  have hpool : txHash ∉ self.pool := by
    intro hmem
    simp [hmem, throw, throwThe, MonadExceptOf.throw, bind, Except.bind] at h
  simp only [hpool, if_false, pure, Except.pure, Except.ok.injEq] at h
  subst h
  have hinputs := List.foldlM_insert_const id txHash (claimInput_eq txHash) hI
  rw [List.map_id] at hinputs
  exact ⟨hpool, rfl, hinputs, List.foldlM_insert_const κ.hashOutput txHash (claimOutput_eq κ txHash) hO⟩

/-- `push_tx` keeps the indexes consistent. -/
theorem Consistent.pushTx {self m : Mempool Fr Pt} {txHash : ℕ} {tx : Transaction Fr Pt}
    (hc : Consistent κ self) (h : self.pushTx κ txHash tx = .ok m) : Consistent κ m := by
  obtain ⟨hnew, hpool, hin, hout⟩ := pushTx_eq_ok κ h
  refine ⟨?_, ?_⟩
  · rw [hpool]
    exact hc.inputs_indexed.insert hnew hin
  · rw [hpool]
    exact hc.outputs_indexed.insert hnew hout

/-! ### Removing claims -/

theorem unclaim_cons (index : Std.ExtTreeMap ℕ ℕ compare) (txHashes : Std.ExtTreeSet ℕ compare)
    (hash : ℕ) (hashes : List ℕ) :
    unclaim index txHashes (hash :: hashes) =
      match index[hash]? with
      | some txHash => unclaim (index.erase hash) (txHashes.insert txHash) hashes
      | none => unclaim index txHashes hashes := by
  cases hh : index[hash]? <;> simp [unclaim, hh]

/-- The first loops of `prune` and `pop_micro_block` remove the claims of the
    hashes, and collect the transactions that made them. -/
theorem unclaim_spec (index : Std.ExtTreeMap ℕ ℕ compare) (txHashes : Std.ExtTreeSet ℕ compare)
    (hashes : List ℕ) :
    (∀ k, (unclaim index txHashes hashes).1[k]? = if k ∈ hashes then none else index[k]?) ∧
      ∀ t, t ∈ (unclaim index txHashes hashes).2 ↔ t ∈ txHashes ∨ ∃ k ∈ hashes, index[k]? = some t := by
  induction hashes generalizing index txHashes with
  | nil => simp [unclaim]
  | cons hash hashes ih =>
    rw [unclaim_cons]
    cases hh : index[hash]? with
    | none =>
      obtain ⟨hindex, htx⟩ := ih index txHashes
      refine ⟨fun k => ?_, fun t => ?_⟩
      · rw [hindex]
        by_cases hk : k = hash
        · subst hk
          simp [hh]
        · simp [hk]
      · rw [htx]
        simp [hh]
    | some t₀ =>
      obtain ⟨hindex, htx⟩ := ih (index.erase hash) (txHashes.insert t₀)
      refine ⟨fun k => ?_, fun t => ?_⟩
      · rw [hindex, Std.ExtTreeMap.getElem?_erase]
        by_cases hk : k = hash
        · subst hk
          simp
        · simp [hk, Ne.symm hk]
      · rw [htx, Std.ExtTreeSet.mem_insert_iff]
        -- a claim of `hash` met again later was removed the first time
        constructor
        · rintro ((rfl | ht) | ⟨k, hk, hkt⟩)
          · exact .inr ⟨hash, List.mem_cons_self, hh⟩
          · exact .inl ht
          · exact .inr ⟨k, List.mem_cons_of_mem _ hk, (Std.ExtTreeMap.getElem?_erase_eq_some.1 hkt).2⟩
        · rintro (ht | ⟨k, hk, hkt⟩)
          · exact .inl (.inr ht)
          · by_cases hkh : k = hash
            · subst hkh
              rw [hh, Option.some.injEq] at hkt
              exact .inl (.inl hkt.symm)
            · rcases List.mem_cons.1 hk with rfl | hk
              · exact absurd rfl hkh
              · exact .inr ⟨k, hk, Std.ExtTreeMap.getElem?_erase_eq_some.2 ⟨hkh, hkt⟩⟩

/-- `prune_txs` releases the claims of a transaction that are all its own:
    none is left after. -/
theorem releaseClaims_eq_ok {txHash : ℕ} :
    ∀ {index : Std.ExtTreeMap ℕ ℕ compare} {hashes : List ℕ},
      (∀ k ∈ hashes, ∀ t, index[k]? = some t → t = txHash) →
      ∃ index', releaseClaims txHash index hashes = .ok index' ∧
        ∀ k, index'[k]? = if k ∈ hashes then none else index[k]?
  | index, [], _ => ⟨index, rfl, by simp⟩
  | index, hash :: hashes, hown => by
    have hown' : ∀ k ∈ hashes, ∀ t, (index.erase hash)[k]? = some t → t = txHash :=
      fun k hk t hkt =>
        hown k (List.mem_cons_of_mem _ hk) t (Std.ExtTreeMap.getElem?_erase_eq_some.1 hkt).2
    obtain ⟨index', hrel, hindex'⟩ := releaseClaims_eq_ok hown'
    refine ⟨index', ?_, fun k => ?_⟩
    · rw [releaseClaims, List.foldlM_cons]
      -- the claim of `hash`, if any, is the transaction's own
      cases hh : index[hash]? with
      | none => exact hrel
      | some t =>
        obtain rfl := hown hash List.mem_cons_self t hh
        dsimp only
        rw [check, if_pos rfl]
        exact hrel
    · rw [hindex', Std.ExtTreeMap.getElem?_erase]
      by_cases hk : k = hash
      · subst hk
        simp
      · simp [hk, Ne.symm hk]

/-! ### Pruning transactions -/

/-- What the loop of `prune_txs` keeps of an index that was `index₀` when the
    transactions `S` are to be removed and those of `D` are removed: claims
    only go, none of `D` is left, and those of the transactions not in `S`
    stay. -/
structure IndexPruning (index₀ index : Std.ExtTreeMap ℕ ℕ compare) (S D : List ℕ) : Prop where
  sound : ∀ k t : ℕ, index[k]? = some t → index₀[k]? = some t ∧ t ∉ D
  complete : ∀ k t : ℕ, index₀[k]? = some t → t ∉ S → index[k]? = some t

theorem IndexPruning.refl (index₀ : Std.ExtTreeMap ℕ ℕ compare) (S : List ℕ) :
    IndexPruning index₀ index₀ S [] :=
  ⟨fun _ _ h => ⟨h, List.not_mem_nil⟩, fun _ _ h _ => h⟩

/-- Removing the claims of hashes claimed only by transactions to be removed,
    as the first loops of `prune` and `pop_micro_block` do. -/
theorem IndexPruning.unclaim {index₀ : Std.ExtTreeMap ℕ ℕ compare} {S hashes : List ℕ}
    (txHashes : Std.ExtTreeSet ℕ compare) (hS : ∀ k ∈ hashes, ∀ t, index₀[k]? = some t → t ∈ S) :
    IndexPruning index₀ (unclaim index₀ txHashes hashes).1 S [] := by
  have hindex := (unclaim_spec index₀ txHashes hashes).1
  refine ⟨fun k t hk => ?_, fun k t hk ht => ?_⟩
  · rw [hindex] at hk
    split at hk
    · cases hk
    · exact ⟨hk, List.not_mem_nil⟩
  · rw [hindex, if_neg fun hmem => ht (hS k hmem t hk)]
    exact hk

omit [AddCommGroup Fr] [AddCommGroup Pt] in
/-- One transaction removed by `prune_txs`: the claims of its keys left are its
    own, so the `assert_eq!` holds, and they go. -/
theorem IndexPruning.release {pool : Std.ExtTreeMap ℕ (Transaction Fr Pt) compare}
    {index₀ index : Std.ExtTreeMap ℕ ℕ compare} {S D : List ℕ} {t : ℕ} {tx : Transaction Fr Pt}
    (hc : Indexes pool index₀ keys) (hp : IndexPruning index₀ index S D) (ht : pool[t]? = some tx)
    (htS : t ∈ S) :
    ∃ index', releaseClaims t index (keys tx) = .ok index' ∧ IndexPruning index₀ index' S (D ++ [t]) := by
  -- a key of `tx` was claimed by `tx`
  have hown : ∀ k ∈ keys tx, index₀[k]? = some t := fun k hk => (hc k t).2 ⟨tx, ht, hk⟩
  -- the claims left of the keys of `tx` are its own
  have hleft : ∀ k ∈ keys tx, ∀ t', index[k]? = some t' → t' = t := fun k hk t' hk' => by
    have h₀ := (hp.sound k t' hk').1
    rw [hown k hk, Option.some.injEq] at h₀
    exact h₀.symm
  obtain ⟨index', hrel, hindex'⟩ := releaseClaims_eq_ok hleft
  refine ⟨index', hrel, fun k t' hk' => ?_, fun k t' hk' ht' => ?_⟩
  · rw [hindex'] at hk'
    split at hk'
    · cases hk'
    · rename_i hk
      obtain ⟨h₀, hD⟩ := hp.sound k t' hk'
      refine ⟨h₀, ?_⟩
      rw [List.mem_append, List.mem_singleton, not_or]
      refine ⟨hD, ?_⟩
      -- a claim of `t` is of a key of `tx`
      rintro rfl
      obtain ⟨tx', ht', hk''⟩ := (hc k t').1 h₀
      rw [ht, Option.some.injEq] at ht'
      exact hk (ht' ▸ hk'')
  · rw [hindex']
    split
    · -- a key of `tx` is claimed by `tx`, which is to be removed
      rename_i hk
      rw [hown k hk, Option.some.injEq] at hk'
      exact absurd (hk' ▸ htS) ht'
    · exact hp.complete k t' hk' ht'

omit [AddCommGroup Fr] [AddCommGroup Pt] in
/-- Once all the transactions to be removed are, the index is that of the
    pool left. -/
theorem IndexPruning.indexes {pool pool' : Std.ExtTreeMap ℕ (Transaction Fr Pt) compare}
    {index₀ index : Std.ExtTreeMap ℕ ℕ compare} {S D : List ℕ} (hc : Indexes pool index₀ keys)
    (hp : IndexPruning index₀ index S D) (hSD : ∀ t ∈ S, t ∈ D)
    (hpool : ∀ t, pool'[t]? = if t ∈ D then none else pool[t]?) : Indexes pool' index keys := by
  intro k t
  rw [hpool]
  constructor
  · intro hk
    obtain ⟨h₀, hD⟩ := hp.sound k t hk
    rw [if_neg hD]
    exact (hc k t).1 h₀
  · rintro ⟨tx, ht, hk⟩
    split at ht
    · cases ht
    · rename_i hD
      exact hp.complete k t ((hc k t).2 ⟨tx, ht, hk⟩) fun hS => hD (hSD t hS)

/-- What the loop of `prune_txs` keeps, from the pool `base` with consistent
    indexes, when the transactions `S` are to be removed and those of `D`
    are: the pool without `D`, the transactions of `D` removed, and each index
    pruned. -/
structure Pruning (base : Mempool Fr Pt) (S D : List ℕ) (m : Mempool Fr Pt)
    (txs : Std.ExtTreeMap ℕ (Transaction Fr Pt) compare) : Prop where
  pool_eq : ∀ t, m.pool[t]? = if t ∈ D then none else base.pool[t]?
  txs_eq : ∀ t, txs[t]? = if t ∈ D then base.pool[t]? else none
  inputs_pruned : IndexPruning base.inputs m.inputs S D
  outputs_pruned : IndexPruning base.outputs m.outputs S D

/-- The loop of `prune_txs` over transactions of the pool to be removed, not
    removed yet and distinct: its `expect` and its assertions hold, and it
    keeps `Pruning`. -/
theorem foldlM_pruneTx {base : Mempool Fr Pt} (hc : Consistent κ base) {S : List ℕ}
    (hS : ∀ t ∈ S, t ∈ base.pool) :
    ∀ (l D : List ℕ) (m : Mempool Fr Pt) (txs : Std.ExtTreeMap ℕ (Transaction Fr Pt) compare),
      Pruning base S D m txs → (∀ t ∈ l, t ∈ S ∧ t ∉ D) → l.Nodup →
        ∃ m' txs', l.foldlM (pruneTx κ) (m, txs) = .ok (m', txs') ∧ Pruning base S (D ++ l) m' txs'
  | [], D, m, txs, hp, _, _ => ⟨m, txs, rfl, by simpa using hp⟩
  | t :: l, D, m, txs, hp, hl, hnd => by
    obtain ⟨htS, htD⟩ := hl t List.mem_cons_self
    obtain ⟨tx, htx⟩ := Option.isSome_iff_exists.1 (Std.ExtTreeMap.isSome_getElem?_iff_mem.2 (hS t htS))
    have hmpool : m.pool[t]? = some tx := by rw [hp.pool_eq, if_neg htD, htx]
    obtain ⟨inputs, hrelI, hI⟩ := hp.inputs_pruned.release hc.inputs_indexed htx htS
    obtain ⟨outputs, hrelO, hO⟩ := hp.outputs_pruned.release hc.outputs_indexed htx htS
    -- `t` was not removed yet
    have htxs : t ∉ txs := by
      rw [← Std.ExtTreeMap.isSome_getElem?_iff_mem, hp.txs_eq, if_neg htD]
      simp
    have hstep : pruneTx κ (m, txs) t = .ok (⟨m.pool.erase t, inputs, outputs⟩, txs.insert t tx) := by
      simp [pruneTx, hmpool, expect, hrelI, hrelO, check, htxs, bind, Except.bind, pure, Except.pure]
    have hp' : Pruning base S (D ++ [t]) ⟨m.pool.erase t, inputs, outputs⟩ (txs.insert t tx) := by
      refine ⟨fun t' => ?_, fun t' => ?_, hI, hO⟩
      · rw [Std.ExtTreeMap.getElem?_erase, hp.pool_eq]
        by_cases ht' : t = t'
        · simp [ht']
        · simp [ht', Ne.symm ht']
      · rw [Std.ExtTreeMap.getElem?_insert, hp.txs_eq]
        by_cases ht' : t = t'
        · subst ht'
          simp [htx]
        · simp [ht', Ne.symm ht']
    obtain ⟨m', txs', hfold, hp''⟩ := foldlM_pruneTx hc hS l (D ++ [t]) _ _ hp'
      (fun t' ht' => ⟨(hl t' (List.mem_cons_of_mem _ ht')).1, by
        rw [List.mem_append, List.mem_singleton, not_or]
        exact ⟨(hl t' (List.mem_cons_of_mem _ ht')).2, fun h => (List.nodup_cons.1 hnd).1 (h ▸ ht')⟩⟩)
      (List.nodup_cons.1 hnd).2
    refine ⟨m', txs', ?_, by simpa using hp''⟩
    rw [List.foldlM_cons, hstep]
    exact hfold

/-- `prune_txs` on transactions of a pool with consistent indexes, after
    claims of theirs only were removed: it does not panic, and removes the
    transactions with their claims, leaving consistent indexes. -/
theorem pruneTxs_eq_ok {base : Mempool Fr Pt} (hc : Consistent κ base)
    {txHashes : Std.ExtTreeSet ℕ compare} (hS : ∀ t ∈ txHashes, t ∈ base.pool)
    {inputs outputs : Std.ExtTreeMap ℕ ℕ compare}
    (hin : IndexPruning base.inputs inputs txHashes.toList [])
    (hout : IndexPruning base.outputs outputs txHashes.toList []) :
    ∃ txs m, pruneTxs κ ⟨base.pool, inputs, outputs⟩ txHashes = .ok (txs, m) ∧ Consistent κ m ∧
      (∀ t, m.pool[t]? = if t ∈ txHashes then none else base.pool[t]?) ∧
      ∀ t, txs[t]? = if t ∈ txHashes then base.pool[t]? else none := by
  have hp₀ : Pruning base txHashes.toList [] ⟨base.pool, inputs, outputs⟩ ∅ :=
    ⟨fun t => by simp, fun t => by simp, hin, hout⟩
  have hnodup : txHashes.toList.Nodup :=
    Std.ExtTreeSet.distinct_toList.imp fun h heq => h (compare_eq_iff_eq.2 heq)
  obtain ⟨m, txs, hfold, hp⟩ := foldlM_pruneTx κ hc (fun t ht => hS t (Std.ExtTreeSet.mem_toList.1 ht))
    txHashes.toList [] _ _ hp₀ (fun t ht => ⟨ht, List.not_mem_nil⟩) hnodup
  have hSD : ∀ t ∈ txHashes.toList, t ∈ [] ++ txHashes.toList := fun t ht => List.mem_append_right _ ht
  refine ⟨txs, m, by simp [pruneTxs, hfold, bind, Except.bind, pure, Except.pure],
    ⟨hp.inputs_pruned.indexes hc.inputs_indexed hSD hp.pool_eq,
      hp.outputs_pruned.indexes hc.outputs_indexed hSD hp.pool_eq⟩,
    fun t => by simpa using hp.pool_eq t, fun t => by simpa using hp.txs_eq t⟩

/-! ### Pruning by inputs and outputs -/

/-- A transaction spends one of the inputs or creates one of the outputs
    given to `prune`. -/
def Shares (inputHashes outputHashes : List ℕ) (tx : Transaction Fr Pt) : Prop :=
  (∃ k ∈ tx.txins, k ∈ inputHashes) ∨ ∃ o ∈ tx.txouts, κ.hashOutput o ∈ outputHashes

instance (inputHashes outputHashes : List ℕ) (tx : Transaction Fr Pt) :
    Decidable (Shares κ inputHashes outputHashes tx) := by
  unfold Shares
  infer_instance

/-- With consistent indexes, the transactions whose claims the first loops of
    `prune` remove are those of the pool that share an input or an output with
    its arguments. -/
theorem Consistent.mem_unclaim {self : Mempool Fr Pt} (hc : Consistent κ self)
    (inputHashes outputHashes : List ℕ) (t : ℕ) :
    t ∈ (unclaim self.outputs
        (unclaim self.inputs ∅ (Std.ExtTreeSet.ofList inputHashes compare).toList).2
        (Std.ExtTreeSet.ofList outputHashes compare).toList).2 ↔
      ∃ tx, self.pool[t]? = some tx ∧ Shares κ inputHashes outputHashes tx := by
  rw [(unclaim_spec _ _ _).2, (unclaim_spec _ _ _).2]
  simp only [Std.ExtTreeSet.mem_toList, Std.ExtTreeSet.mem_ofList, List.contains_iff_mem,
    Std.ExtTreeSet.not_mem_empty, false_or]
  constructor
  · rintro (⟨k, hk, hkt⟩ | ⟨k, hk, hkt⟩)
    · obtain ⟨tx, ht, hin⟩ := (hc.inputs_indexed k t).1 hkt
      exact ⟨tx, ht, .inl ⟨k, hin, hk⟩⟩
    · obtain ⟨tx, ht, hout⟩ := (hc.outputs_indexed k t).1 hkt
      obtain ⟨o, ho, rfl⟩ := List.mem_map.1 hout
      exact ⟨tx, ht, .inr ⟨o, ho, hk⟩⟩
  · rintro ⟨tx, ht, ⟨k, hin, hk⟩ | ⟨o, ho, hk⟩⟩
    · exact .inl ⟨k, hk, (hc.inputs_indexed k t).2 ⟨tx, ht, hin⟩⟩
    · exact .inr ⟨_, hk, (hc.outputs_indexed _ t).2 ⟨tx, ht, List.mem_map_of_mem ho⟩⟩

/-- `prune` on a pool with consistent indexes: its `expect` and assertions
    never fire, it leaves consistent indexes, and it removes, and returns,
    exactly the transactions of the pool that share an input or an output
    with its arguments. -/
theorem prune_eq_ok {self : Mempool Fr Pt} (hc : Consistent κ self)
    (inputHashes outputHashes : List ℕ) :
    ∃ statuses m, self.prune κ inputHashes outputHashes = .ok (statuses, m) ∧ Consistent κ m ∧
      (∀ t, t ∈ statuses ↔ ∃ tx, self.pool[t]? = some tx ∧ Shares κ inputHashes outputHashes tx) ∧
      ∀ (t : ℕ) tx, m.pool[t]? = some tx ↔ self.pool[t]? = some tx ∧ ¬Shares κ inputHashes outputHashes tx := by
  have hT := hc.mem_unclaim κ inputHashes outputHashes
  rcases hu₁ : unclaim self.inputs ∅ (Std.ExtTreeSet.ofList inputHashes compare).toList with
    ⟨inputs, T₁⟩
  rcases hu₂ : unclaim self.outputs T₁ (Std.ExtTreeSet.ofList outputHashes compare).toList with
    ⟨outputs, T⟩
  simp only [hu₁, hu₂] at hT
  -- the transactions collected are in the pool, and the claims removed theirs
  have hS : ∀ t ∈ T, t ∈ self.pool := fun t ht => by
    obtain ⟨tx, htx, -⟩ := (hT t).1 ht
    exact Std.ExtTreeMap.isSome_getElem?_iff_mem.1 (by simp [htx])
  have hin : IndexPruning self.inputs
      (unclaim self.inputs ∅ (Std.ExtTreeSet.ofList inputHashes compare).toList).1 T.toList [] :=
    IndexPruning.unclaim ∅ fun k hk t hkt => by
      simp only [Std.ExtTreeSet.mem_toList, Std.ExtTreeSet.mem_ofList, List.contains_iff_mem] at hk
      obtain ⟨tx, htx, hk'⟩ := (hc.inputs_indexed k t).1 hkt
      exact Std.ExtTreeSet.mem_toList.2 ((hT t).2 ⟨tx, htx, .inl ⟨k, hk', hk⟩⟩)
  have hout : IndexPruning self.outputs
      (unclaim self.outputs T₁ (Std.ExtTreeSet.ofList outputHashes compare).toList).1 T.toList [] :=
    IndexPruning.unclaim T₁ fun k hk t hkt => by
      simp only [Std.ExtTreeSet.mem_toList, Std.ExtTreeSet.mem_ofList, List.contains_iff_mem] at hk
      obtain ⟨tx, htx, hk'⟩ := (hc.outputs_indexed k t).1 hkt
      obtain ⟨o, ho, rfl⟩ := List.mem_map.1 hk'
      exact Std.ExtTreeSet.mem_toList.2 ((hT t).2 ⟨tx, htx, .inr ⟨o, ho, hk⟩⟩)
  rw [hu₁] at hin
  rw [hu₂] at hout
  obtain ⟨txs, m, hprune, hm, hpool, htxs⟩ := pruneTxs_eq_ok κ hc hS hin hout
  simp only [prune, hu₁, hu₂]
  rw [hprune]
  simp only [bind, Except.bind]
  -- the last loop gives each transaction removed its status
  generalize hst : (List.foldlM _ (∅ : Std.ExtTreeMap ℕ (Transaction Fr Pt × Bool) compare)
    txs.toList : Except Fault _) = st
  obtain ⟨statuses, rfl, hmem⟩ := List.foldlM_insert_keys Prod.fst
    (fun statuses a ha => ⟨_, by simp only [check, ha, not_false_eq_true, if_true]; rfl⟩) hst
    (by simpa using Std.ExtTreeMap.nodup_keys) (by simp)
  refine ⟨statuses, m, rfl, hm, fun t => ?_, fun t tx => ?_⟩
  · -- a status for each transaction removed
    rw [hmem, ← hT]
    simp only [Std.ExtTreeMap.map_fst_toList_eq_keys, Std.ExtTreeMap.mem_keys,
      Std.ExtTreeMap.not_mem_empty, or_false]
    rw [← Std.ExtTreeMap.isSome_getElem?_iff_mem, htxs]
    split
    · rename_i ht
      obtain ⟨tx, htx, -⟩ := (hT t).1 ht
      simp [htx, ht]
    · rename_i ht
      simp [ht]
  · rw [hpool]
    split
    · rename_i ht
      obtain ⟨tx', htx', hsh⟩ := (hT t).1 ht
      simp only [reduceCtorEq, false_iff, not_and, not_not]
      intro htx
      rw [htx', Option.some.injEq] at htx
      exact htx ▸ hsh
    · rename_i ht
      exact ⟨fun htx => ⟨htx, fun hsh => ht ((hT t).2 ⟨tx, htx, hsh⟩)⟩, And.left⟩

/-! ### Reverting a micro block -/

/-- `pop_micro_block` keeps the indexes consistent: the transactions that
    spend an output of the reverted block are removed without a panic, and
    queuing the block's transactions again keeps them as `push_tx` does. -/
theorem Consistent.popMicroBlock {self m : Mempool Fr Pt} {txs : List (Transaction Fr Pt)}
    (hc : Consistent κ self) (h : self.popMicroBlock κ txs = .ok m) : Consistent κ m := by
  have hT := (unclaim_spec self.inputs ∅ ((txs.flatMap Transaction.txouts).map κ.hashOutput)).2
  -- the claims removed are those of the transactions collected
  have hin : IndexPruning self.inputs
      (unclaim self.inputs ∅ ((txs.flatMap Transaction.txouts).map κ.hashOutput)).1
      (unclaim self.inputs ∅ ((txs.flatMap Transaction.txouts).map κ.hashOutput)).2.toList [] :=
    IndexPruning.unclaim ∅ fun k hk t hkt => Std.ExtTreeSet.mem_toList.2 ((hT t).2 (.inr ⟨k, hk, hkt⟩))
  rcases hu : unclaim self.inputs ∅ ((txs.flatMap Transaction.txouts).map κ.hashOutput) with
    ⟨inputs, T⟩
  rw [hu] at hT hin
  have hS : ∀ t ∈ T, t ∈ self.pool := fun t ht => by
    rcases (hT t).1 ht with ht | ⟨k, -, hkt⟩
    · exact absurd ht Std.ExtTreeSet.not_mem_empty
    · obtain ⟨tx, htx, -⟩ := (hc.inputs_indexed k t).1 hkt
      exact Std.ExtTreeMap.isSome_getElem?_iff_mem.1 (by simp [htx])
  obtain ⟨pruned, m₀, hprune, hm₀, -, -⟩ := pruneTxs_eq_ok κ hc hS hin (IndexPruning.refl _ _)
  simp only [Mempool.popMicroBlock, hu] at h
  rw [hprune] at h
  exact List.foldlM_except_induction (Consistent κ) (fun _ _ _ _ hx hy => hx.pushTx κ hy) h hm₀

/-! ### Runs of calls on the pool -/

/-- The calls that change the pool. -/
inductive Call (Fr Pt : Type) where
  | pushTx (txHash : ℕ) (tx : Transaction Fr Pt)
  | prune (inputHashes outputHashes : List ℕ)
  | popMicroBlock (txs : List (Transaction Fr Pt))

/-- One call on the pool; of `prune`, the pool left. -/
def apply (self : Mempool Fr Pt) : Call Fr Pt → Except Fault (Mempool Fr Pt)
  | .pushTx txHash tx => self.pushTx κ txHash tx
  | .prune inputHashes outputHashes => Prod.snd <$> self.prune κ inputHashes outputHashes
  | .popMicroBlock txs => self.popMicroBlock κ txs

/-- Every successful call keeps the indexes consistent. -/
theorem Consistent.apply {self m : Mempool Fr Pt} {c : Call Fr Pt} (hc : Consistent κ self)
    (h : self.apply κ c = .ok m) : Consistent κ m := by
  cases c with
  | pushTx txHash tx => exact hc.pushTx κ h
  | prune inputHashes outputHashes =>
    obtain ⟨statuses, m', hprune, hm', -, -⟩ := prune_eq_ok κ hc inputHashes outputHashes
    obtain ⟨_, hprune', rfl⟩ := Except.map_eq_ok.1 h
    rw [hprune, Except.ok.injEq] at hprune'
    exact hprune' ▸ hm'
  | popMicroBlock txs => exact hc.popMicroBlock κ h

/-- In every state that a run of `push_tx`, `prune` and `pop_micro_block`
    reaches from an empty pool, each index holds exactly the claims of the
    transactions of the pool, and `prune` never panics and removes exactly
    the transactions that share an input or an output with its arguments. -/
theorem indexes_consistent {self : Mempool Fr Pt} (hs : Transition.Reachable (· = new) (apply κ) self) :
    (∀ k t : ℕ, self.inputs[k]? = some t ↔ ∃ tx, self.pool[t]? = some tx ∧ k ∈ tx.txins) ∧
    (∀ k t : ℕ, self.outputs[k]? = some t ↔
      ∃ tx, self.pool[t]? = some tx ∧ k ∈ tx.txouts.map κ.hashOutput) ∧
    ∀ inputHashes outputHashes, ∃ statuses self',
      self.prune κ inputHashes outputHashes = .ok (statuses, self') ∧
      (∀ t, t ∈ statuses ↔ ∃ tx, self.pool[t]? = some tx ∧ Shares κ inputHashes outputHashes tx) ∧
      ∀ (t : ℕ) tx, self'.pool[t]? = some tx ↔
        self.pool[t]? = some tx ∧ ¬Shares κ inputHashes outputHashes tx := by
  have hc : Consistent κ self :=
    hs.induction (fun _ h => h ▸ consistent_new κ) fun _ _ _ hc h => hc.apply κ h
  refine ⟨hc.inputs_indexed, hc.outputs_indexed, fun inputHashes outputHashes => ?_⟩
  obtain ⟨statuses, self', hprune, -, hstatuses, hpool⟩ := prune_eq_ok κ hc inputHashes outputHashes
  exact ⟨statuses, self', hprune, hstatuses, hpool⟩

/-- The pool after queuing the payment that splits a stake. -/
theorem indexes_consistent_splitStake :
    ∃ self : Mempool ℤ ℤ, Transition.Reachable (· = new) (apply Scenario.crypto) self ∧
      self.pool[7]? = some Scenario.splitStake ∧
    (∀ k t : ℕ, self.inputs[k]? = some t ↔ ∃ tx, self.pool[t]? = some tx ∧ k ∈ tx.txins) ∧
    (∀ k t : ℕ, self.outputs[k]? = some t ↔
      ∃ tx, self.pool[t]? = some tx ∧ k ∈ tx.txouts.map Scenario.crypto.hashOutput) ∧
    ∀ inputHashes outputHashes, ∃ statuses self',
      self.prune Scenario.crypto inputHashes outputHashes = .ok (statuses, self') ∧
      (∀ t, t ∈ statuses ↔
        ∃ tx, self.pool[t]? = some tx ∧ Shares Scenario.crypto inputHashes outputHashes tx) ∧
      ∀ (t : ℕ) tx, self'.pool[t]? = some tx ↔
        self.pool[t]? = some tx ∧ ¬Shares Scenario.crypto inputHashes outputHashes tx := by
  have hpush : ∃ m, (new : Mempool ℤ ℤ).pushTx Scenario.crypto 7 Scenario.splitStake = .ok m :=
    (pushTx_ok_iff Scenario.crypto).2 (by simp [new, Scenario.splitStake, Scenario.crypto, Scenario.stake,
      Scenario.outputId, Transaction.txins, Transaction.txouts])
  obtain ⟨self, h⟩ := hpush
  have hs : Transition.Reachable (· = new) (apply Scenario.crypto) self :=
    .step (.init rfl) (show apply Scenario.crypto new (.pushTx 7 Scenario.splitStake) = .ok self from h)
  obtain ⟨-, hpool, -, -⟩ := pushTx_eq_ok Scenario.crypto h
  exact ⟨self, hs, by simp [hpool], indexes_consistent Scenario.crypto hs⟩

end Mempool

end Stegos
