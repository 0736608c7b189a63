import Stegos.Lib.Bitmap
import Stegos.Consensus.Votes

/-!
# Multi-signatures

`blockchain/src/multisignature.rs`: validators holding a supermajority of the
slots sign one hash, and their BLS signatures are added up into one, with a
bitmap of the signers.

* `create_multi_signature_index` adds the signatures of validators given by
  their index, and sets their bits; `create_multi_signature` takes them from
  a map of signatures by key, each key at its index among the validators.
  `Consensus::commit` makes the multi-signature of a macro block so, from the
  pre-commits.
* `check_multi_signature` adds the keys and the slots of the validators the
  bitmap marks, asks the slots for a supermajority (`check_supermajority`),
  and checks the sum of the signatures against the sum of the keys.

Signatures are ideal, as in `Stegos.Crypto`: a signature is the key that
signed and what it signed. A sum of signatures (`pbc::G1`) is then the
multiset of the signatures added, a sum of keys (`pbc::G2`) the multiset of
the keys added, and `pbc::check_hash` of the sums holds exactly when the
signatures added are those of the hash by the keys added (`checkHash`). BLS
keys are group elements, and a key chosen to cancel others (a rogue key)
could pass the real check; the ideal model leaves such keys out.

* `checkMultiSignature_sound`: a multi-signature that passes the check is the
  sum of the signatures of the hash by the validators the bitmap marks,
  taken in order, whose slots are positive and a supermajority.
* `checkMultiSignature_createMultiSignatureIndex`: the signatures of the hash
  by distinct validators holding a supermajority pass the check once added up.
* `commit_checkMultiSignature`: the block a validator commits carries a
  multi-signature that passes the check of the block's hash against the
  validators of the epoch; `reachable_commit_checkMultiSignature`: so it does
  in every run of the validator (`Consensus.reachable_kept`).
-/

namespace Stegos

variable {N H : Type}

/-- `MultisignatureError`. -/
inductive MultisignatureError (H : Type)
  | TooBigBitmap (got expected : ℕ)
  | NotEnoughtVotes (got total : ℤ)
  | InvalidSignature (hash : H)
  deriving DecidableEq, Repr

/-- `pbc::check_hash(hash, multisig, multipkey)` of a sum of signatures and a
    sum of keys: the signatures added are those of `hash` by the keys added. -/
def checkHash [DecidableEq N] [DecidableEq H] (hash : H) (multisig : Multiset (Signed N H))
    (multipkey : Multiset N) : Bool :=
  decide (multisig = multipkey.map fun pkey => ⟨pkey, hash⟩)

/-- One signature of `create_multi_signature_index`: its validator, in range
    and not marked yet, is marked, and the signature added. -/
def addSignature (validatorsLen : ℕ) (acc : Multiset (Signed N H) × List Bool)
    (entry : ℕ × Signed N H) : Except String (Multiset (Signed N H) × List Bool) :=
  let (multisig, multisigmap) := acc
  let (validatorId, sig) := entry
  if ¬validatorId < validatorsLen then
    .error "assertion failed: (validator_id as usize) < validators_len"
  else if multisigmap.getD validatorId false then
    .error "assertion failed: !multisigmap[validator_id as usize]"
  else .ok (multisig + {sig}, multisigmap.set validatorId true)

/-- `create_multi_signature_index`: the signatures added up, their validators
    marked in a bitmap of `validators_len` bits. -/
def createMultiSignatureIndex (signatures : List (ℕ × Signed N H)) (validatorsLen : ℕ) :
    Except String (Multiset (Signed N H) × List Bool) :=
  signatures.foldlM (addSignature validatorsLen) (0, List.replicate validatorsLen false)

/-- The signatures `create_multi_signature` adds up: those of the validators
    that signed, each with the index of its validator. -/
def indexedSignatures [Ord N] [Std.TransOrd N] (validators : List (N × ℤ))
    (signatures : Std.ExtTreeMap N (Signed N H) compare) : List (ℕ × Signed N H) :=
  validators.zipIdx.filterMap fun ((pk, _), id) => signatures[pk]?.map fun sig => (id, sig)

/-- `create_multi_signature`. -/
def createMultiSignature [Ord N] [Std.TransOrd N] (validators : List (N × ℤ))
    (signatures : Std.ExtTreeMap N (Signed N H) compare) :
    Except String (Multiset (Signed N H) × List Bool) :=
  createMultiSignatureIndex (indexedSignatures validators signatures) validators.length

/-- One validator of the loop of `check_multi_signature`: a marked one adds its
    key and its slots, which must be positive. -/
def addSigner (acc : Multiset N × ℤ) (entry : (N × ℤ) × Bool) : Except String (Multiset N × ℤ) :=
  let (multisigpkey, groupTotalSlots) := acc
  let ((validatorPkey, slots), val) := entry
  if !val then .ok (multisigpkey, groupTotalSlots)
  else if ¬0 < slots then .error "assertion failed: *slots > 0"
  else .ok (multisigpkey + {validatorPkey}, groupTotalSlots + slots)

/-- `check_multi_signature`: a bitmap no longer than the validators, marking
    validators with a supermajority of the slots, whose keys the multi-signature
    checks against. A panic is a `String`; an error of the check the inner
    `Except`. -/
def checkMultiSignature [DecidableEq N] [DecidableEq H] (hash : H)
    (multisig : Multiset (Signed N H)) (multisigmap : List Bool) (validators : List (N × ℤ))
    (totalSlots : ℤ) : Except String (Except (MultisignatureError H) Unit) :=
  if multisigmap.length > validators.length then
    .ok (.error (.TooBigBitmap multisigmap.length validators.length))
  else do
    let (multisigpkey, groupTotalSlots) ← (validators.zip multisigmap).foldlM addSigner (0, 0)
    let superMajority ← checkSupermajority groupTotalSlots totalSlots
    if !superMajority then
      pure (.error (.NotEnoughtVotes groupTotalSlots totalSlots))
    else if !checkHash hash multisig multisigpkey then
      pure (.error (.InvalidSignature hash))
    else pure (.ok ())

/-! ### The loops -/

theorem checkSupermajority_eq_ok_true {gotVotes totalVotes : ℤ} :
    checkSupermajority gotVotes totalVotes = .ok true ↔
      gotVotes ≤ totalVotes ∧ 0 ≤ gotVotes ∧ 0 < totalVotes ∧ (totalVotes * 2 + 3) / 3 ≤ gotVotes := by
  unfold checkSupermajority
  split_ifs <;> simp_all

theorem addSignature_eq_ok {len : ℕ} {ms : Multiset (Signed N H)} {bm : List Bool} {i : ℕ}
    {sig : Signed N H} {r : Multiset (Signed N H) × List Bool} :
    addSignature len (ms, bm) (i, sig) = .ok r ↔
      i < len ∧ bm.getD i false = false ∧ r = (ms + {sig}, bm.set i true) := by
  simp only [addSignature]
  by_cases h₁ : i < len
  · cases h₂ : bm.getD i false <;> simp [h₁, eq_comm]
  · simp [h₁]

/-- The loop of `create_multi_signature_index` over signers given once each,
    in range and not marked yet: their signatures added, their bits set. -/
theorem foldlM_addSignature {len : ℕ} :
    ∀ (S : List (ℕ × Signed N H)) (ms : Multiset (Signed N H)) (bm : List Bool),
      bm.length = len → (S.map Prod.fst).Nodup →
      (∀ e ∈ S, e.1 < len ∧ bm.getD e.1 false = false) →
      ∃ bm', S.foldlM (addSignature len) (ms, bm) = .ok (ms + ↑(S.map Prod.snd), bm') ∧
        bm'.length = len ∧ ∀ j, bm'.getD j false = true ↔ bm.getD j false = true ∨ j ∈ S.map Prod.fst
  | [], ms, bm, hlen, _, _ => ⟨bm, by simp [pure, Except.pure], hlen, by simp⟩
  | (i, sig) :: S, ms, bm, hlen, hnodup, hS => by
    obtain ⟨hi, hunset⟩ := hS (i, sig) List.mem_cons_self
    have hfresh : i ∉ S.map Prod.fst := (List.nodup_cons.1 hnodup).1
    -- after the first signer, the others are still unmarked
    have hS' : ∀ e ∈ S, e.1 < len ∧ (bm.set i true).getD e.1 false = false := by
      intro e he
      obtain ⟨hlt, hfalse⟩ := hS e (List.mem_cons_of_mem _ he)
      have hne : e.1 ≠ i := fun heq => hfresh (heq ▸ List.mem_map_of_mem he)
      rw [List.getD_set_true bm (hlen ▸ hi), hfalse]
      simp [hne, hlt]
    obtain ⟨bm', hfold, hlen', hbits⟩ := foldlM_addSignature S (ms + {sig}) (bm.set i true)
      (by rw [List.length_set, hlen]) (List.nodup_cons.1 hnodup).2 hS'
    refine ⟨bm', ?_, hlen', fun j => ?_⟩
    · rw [List.foldlM_cons, Except.bind_eq_ok]
      refine ⟨_, addSignature_eq_ok.2 ⟨hi, hunset, rfl⟩, ?_⟩
      rw [hfold, List.map_cons]
      simp [add_assoc, Multiset.singleton_add]
    · rw [hbits, List.getD_set_true bm (hlen ▸ hi), List.map_cons, List.mem_cons]
      simp [or_assoc]

/-- `create_multi_signature_index` of signers given once each and in range:
    the sum of their signatures, and a bitmap marking exactly them. -/
theorem createMultiSignatureIndex_eq_ok {S : List (ℕ × Signed N H)} {len : ℕ}
    (hnodup : (S.map Prod.fst).Nodup) (hlt : ∀ e ∈ S, e.1 < len) :
    ∃ bm, createMultiSignatureIndex S len = .ok (↑(S.map Prod.snd), bm) ∧ bm.length = len ∧
      ∀ j, bm.getD j false = true ↔ j ∈ S.map Prod.fst := by
  obtain ⟨bm, hfold, hlen, hbits⟩ := foldlM_addSignature S 0 (List.replicate len false)
    List.length_replicate hnodup fun e he => ⟨hlt e he, by simp [List.getD_eq_getElem?_getD]⟩
  refine ⟨bm, by rw [createMultiSignatureIndex, hfold, zero_add], hlen, fun j => ?_⟩
  rw [hbits]
  simp [List.getD_eq_getElem?_getD]

/-- The loop of `check_multi_signature`: the keys and the slots of the marked
    validators, all of whose slots must be positive. -/
theorem foldlM_addSigner :
    ∀ (vs : List (N × ℤ)) (bm : List Bool) (P : Multiset N) (s : ℤ) (r : Multiset N × ℤ),
      (vs.zip bm).foldlM addSigner (P, s) = .ok r ↔ (∀ v ∈ vs.marked bm, 0 < v.2) ∧
        r = (P + ↑((vs.marked bm).map Prod.fst), s + ((vs.marked bm).map Prod.snd).sum)
  | [], bm, P, s, r => by simp [pure, Except.pure, eq_comm]
  | _ :: _, [], P, s, r => by simp [pure, Except.pure, eq_comm]
  | (pk, slots) :: vs, b :: bm, P, s, r => by
    rw [List.zip_cons_cons, List.foldlM_cons, Except.bind_eq_ok, List.marked_cons_cons]
    cases b with
    | false =>
      -- an unmarked validator is skipped
      simpa [addSigner] using foldlM_addSigner vs bm P s r
    | true =>
      by_cases hpos : 0 < slots
      · -- a marked validator with slots adds its key and its slots
        have hstep : addSigner (P, s) ((pk, slots), true) = .ok (P + {pk}, s + slots) := by
          simp [addSigner, hpos]
        rw [hstep]
        simp only [Except.ok.injEq, exists_eq_left', foldlM_addSigner vs bm, if_true]
        simp [hpos, add_assoc, Multiset.singleton_add]
      · -- a marked validator without slots fails the assertion
        have hstep : addSigner (P, s) ((pk, slots), true) = .error "assertion failed: *slots > 0" := by
          simp [addSigner, hpos]
        simp [hstep, hpos]

/-- `check_multi_signature` passes exactly when the bitmap is no longer than
    the validators, the validators it marks have positive slots forming a
    supermajority, and the multi-signature is their signatures of the hash. -/
theorem checkMultiSignature_eq_ok [DecidableEq N] [DecidableEq H] {hash : H}
    {ms : Multiset (Signed N H)} {bm : List Bool} {vs : List (N × ℤ)} {totalSlots : ℤ} :
    checkMultiSignature hash ms bm vs totalSlots = .ok (.ok ()) ↔
      bm.length ≤ vs.length ∧ (∀ v ∈ vs.marked bm, 0 < v.2) ∧
      checkSupermajority ((vs.marked bm).map Prod.snd).sum totalSlots = .ok true ∧
      ms = ↑((vs.marked bm).map fun v => (⟨v.1, hash⟩ : Signed N H)) := by
  unfold checkMultiSignature
  by_cases hlen : bm.length > vs.length
  · simp only [if_pos hlen, Except.ok.injEq, reduceCtorEq, false_iff]
    omega
  rw [if_neg hlen, Except.bind_eq_ok]
  -- the loop, then the supermajority, then the hash
  constructor
  · rintro ⟨r, hloop, h⟩
    obtain ⟨hpos, rfl⟩ := (foldlM_addSigner vs bm 0 0 r).1 hloop
    obtain ⟨sm, hsm, h⟩ := Except.bind_eq_ok.1 h
    cases sm with
    | false => simp [pure, Except.pure] at h
    | true =>
      refine ⟨not_lt.1 hlen, hpos, by simpa using hsm, ?_⟩
      by_cases hms : ms = ↑((vs.marked bm).map fun v => (⟨v.1, hash⟩ : Signed N H))
      · exact hms
      · simp [checkHash, Multiset.map_coe, List.map_map, Function.comp_def, hms, pure,
          Except.pure] at h
  · rintro ⟨-, hpos, hsm, rfl⟩
    refine ⟨_, (foldlM_addSigner vs bm 0 0 _).2 ⟨hpos, rfl⟩, Except.bind_eq_ok.2 ⟨true, ?_, ?_⟩⟩
    · simpa using hsm
    · simp [checkHash, Multiset.map_coe, List.map_map, Function.comp_def, pure, Except.pure]

/-- The signatures of signers given by index, each the signature of the hash
    by the validator at its index, are those of the validators at the indices. -/
theorem map_snd_eq_filterMap {hash : H} {vs : List (N × ℤ)} :
    ∀ {S : List (ℕ × Signed N H)}, (∀ e ∈ S, ∃ v, vs[e.1]? = some v ∧ e.2 = ⟨v.1, hash⟩) →
      S.map Prod.snd = ((S.map Prod.fst).filterMap (vs[·]?)).map fun v => ⟨v.1, hash⟩
  | [], _ => rfl
  | e :: S, hS => by
    obtain ⟨v, hv, he⟩ := hS e List.mem_cons_self
    rw [List.map_cons, List.map_cons, List.filterMap_cons, hv, List.map_cons, he,
      map_snd_eq_filterMap fun e' he' => hS e' (List.mem_cons_of_mem _ he')]

/-! ### Soundness and completeness -/

section Check

variable [DecidableEq N] [DecidableEq H]

/-- The signatures of the hash by distinct validators, given by index, with
    a supermajority of the slots: added up by `create_multi_signature_index`,
    they pass `check_multi_signature`, for validators with positive slots
    within a positive total. -/
theorem checkMultiSignature_createMultiSignatureIndex {hash : H} {vs : List (N × ℤ)}
    {totalSlots : ℤ} {S : List (ℕ × Signed N H)} (hnodup : (S.map Prod.fst).Nodup)
    (hsig : ∀ e ∈ S, ∃ v, vs[e.1]? = some v ∧ e.2 = ⟨v.1, hash⟩)
    (hpos : ∀ v ∈ vs, 0 < v.2) (htotal : (vs.map Prod.snd).sum ≤ totalSlots) (hslots : 0 < totalSlots)
    (hquorum : (totalSlots * 2 + 3) / 3 ≤ (((S.map Prod.fst).filterMap (vs[·]?)).map Prod.snd).sum) :
    ∃ ms bm, createMultiSignatureIndex S vs.length = .ok (ms, bm) ∧
      checkMultiSignature hash ms bm vs totalSlots = .ok (.ok ()) := by
  have hlt : ∀ e ∈ S, e.1 < vs.length := fun e he => by
    obtain ⟨v, hv, -⟩ := hsig e he
    exact (List.getElem?_eq_some_iff.1 hv).1
  obtain ⟨bm, hcreate, hlen, hbits⟩ := createMultiSignatureIndex_eq_ok hnodup hlt
  refine ⟨_, bm, hcreate, checkMultiSignature_eq_ok.2 ⟨hlen.le, ?_, ?_, ?_⟩⟩
  -- the marked validators are the signers, up to order
  all_goals have hperm : (vs.marked bm).Perm ((S.map Prod.fst).filterMap (vs[·]?)) :=
    List.marked_perm hnodup hbits
  · exact fun v hv => hpos v ((List.marked_sublist vs bm).subset hv)
  · have hnonneg : ∀ s ∈ vs.map Prod.snd, 0 ≤ s := by
      simp only [List.mem_map]
      rintro _ ⟨v, hv, rfl⟩
      exact (hpos v hv).le
    have hle : ((vs.marked bm).map Prod.snd).sum ≤ (vs.map Prod.snd).sum :=
      ((List.marked_sublist vs bm).map Prod.snd).sum_le_sum hnonneg
    have hge : 0 ≤ ((vs.marked bm).map Prod.snd).sum :=
      List.sum_nonneg fun s hs => hnonneg s (((List.marked_sublist vs bm).map Prod.snd).subset hs)
    rw [(hperm.map Prod.snd).sum_eq] at hle hge ⊢
    exact checkSupermajority_eq_ok_true.2 ⟨hle.trans htotal, hge, hslots, hquorum⟩
  · rw [map_snd_eq_filterMap hsig]
    exact Multiset.coe_eq_coe.2 (hperm.map _).symm

end Check

/-! ### The multi-signature of a committed block -/

section Indexed

variable [Ord N] [Std.TransOrd N] (vs : List (N × ℤ)) (sigs : Std.ExtTreeMap N (Signed N H) compare)

/-- The indices of the signatures are those of the validators that signed. -/
theorem indexedSignatures_fst :
    (indexedSignatures vs sigs).map Prod.fst = (vs.zipIdx.filter fun x => x.1.1 ∈ sigs).map Prod.snd := by
  unfold indexedSignatures
  generalize vs.zipIdx = Z
  induction Z with
  | nil => rfl
  | cons x Z ih =>
    obtain ⟨⟨pk, _⟩, id⟩ := x
    cases hx : sigs[pk]? with
    | none =>
      -- a validator without a signature is skipped
      have hnot : pk ∉ sigs := by
        rw [Std.ExtTreeMap.mem_iff_isSome_getElem?, hx]
        exact Bool.false_ne_true
      rw [List.filterMap_cons_none (by simp [hx]), List.filter_cons_of_neg (by simpa using hnot), ih]
    | some sig =>
      have hin : pk ∈ sigs := by
        rw [Std.ExtTreeMap.mem_iff_isSome_getElem?, hx]
        rfl
      rw [List.filterMap_cons_some (b := (id, sig)) (by simp [hx]),
        List.filter_cons_of_pos (by simpa using hin),
        List.map_cons, List.map_cons, ih]

theorem indexedSignatures_nodup : ((indexedSignatures vs sigs).map Prod.fst).Nodup := by
  rw [indexedSignatures_fst]
  refine ((List.filter_sublist).map Prod.snd).nodup ?_
  rw [List.zipIdx_map_snd]
  exact List.nodup_range'

variable {vs sigs} in
/-- A signature is that of the validator at its index. -/
theorem mem_indexedSignatures {e : ℕ × Signed N H} (he : e ∈ indexedSignatures vs sigs) :
    ∃ v, vs[e.1]? = some v ∧ sigs[v.1]? = some e.2 := by
  obtain ⟨⟨⟨pk, s⟩, id⟩, hx, hex⟩ := List.mem_filterMap.1 he
  obtain ⟨sig, hsig, rfl⟩ := Option.map_eq_some_iff.1 hex
  exact ⟨(pk, s), List.mem_zipIdx_iff_getElem?.1 hx, hsig⟩

/-- The validators at the indices of the signatures are those that signed, in order. -/
theorem filterMap_indexedSignatures :
    ((indexedSignatures vs sigs).map Prod.fst).filterMap (vs[·]?) = vs.filter fun v => v.1 ∈ sigs := by
  rw [indexedSignatures_fst, List.filterMap_map]
  -- each index of the enumeration finds its own entry
  have hfind : ∀ x ∈ vs.zipIdx.filter (fun x => x.1.1 ∈ sigs),
      ((vs[·]?) ∘ Prod.snd) x = (some ∘ Prod.fst) x := fun x hx =>
    List.mem_zipIdx_iff_getElem?.1 (List.mem_of_mem_filter hx)
  rw [List.filterMap_congr hfind, List.filterMap_eq_map]
  conv_rhs => rw [← List.zipIdx_map_fst 0 vs, List.filter_map]
  rfl

end Indexed

namespace Consensus

variable {B P : Type} [Ord N] [Std.TransOrd N] [Std.LawfulEqOrd N] [DecidableEq N] [DecidableEq H]
  [DecidableEq P] [Digest B H] [Digest P H]

open Digest

/-- `Consensus::commit`: the block, with the multi-signature of the
    pre-commits, from the validators in the order of their keys. -/
def commit (self : Consensus N H B P) : Except String (B × Multiset (Signed N H) × List Bool) := do
  if !self.shouldCommit then throw "assertion failed: self.should_commit()"
  let validators := self.validators.toList
  let block ← match self.block with
    | some block => pure block
    | none => throw "called `Option::unwrap()` on a `None` value"
  let (multisig, multisigmap) ← createMultiSignature validators self.precommits
  pure (block, multisig, multisigmap)

variable {M : List (ConsensusMessage N H P)} {c : Consensus N H B P}

omit [DecidableEq H] [DecidableEq P] [Digest B H] [Digest P H] in
/-- The slots of the validators with a pre-commit, as `check_supermajority`
    counts them, are those the validators' entries give. -/
theorem slots_eq_sum_toList (T : Finset N) :
    c.slots T = ((c.validators.toList.filter fun v => v.1 ∈ T).map Prod.snd).sum := by
  rw [slots, Std.ExtTreeMap.sum_toList_filter]

omit [DecidableEq P] [Digest P H] in
/-- `commit` in `Commit`, on a block, with a supermajority of pre-commits:
    the pre-commits of the invariant sign the block's hash. -/
theorem Inv.commit_eq_ok (hc : Inv M c) (hstate : c.state = .Commit) {b : B}
    (hb : c.block = some b) (hquorum : c.Quorum c.precommits.keys.toFinset) :
    ∃ ms bm, c.commit = .ok (b, ms, bm) ∧
      checkMultiSignature (digest b) ms bm c.validators.toList c.totalSlots = .ok (.ok ()) := by
  -- the pre-commits are signatures of the block's hash, each by its validator
  have hsig : ∀ e ∈ indexedSignatures c.validators.toList c.precommits,
      ∃ v, c.validators.toList[e.1]? = some v ∧ e.2 = ⟨v.1, digest b⟩ := by
    intro e he
    obtain ⟨v, hv, hpc⟩ := mem_indexedSignatures he
    obtain ⟨h, hh, he⟩ := hc.precommits v.1 e.2 hpc
    rw [hc.block b hb, Option.some.injEq] at hh
    exact ⟨v, hv, by rw [he, hh]⟩
  -- the slots of the validators: positive, adding up to the total
  have hpos : ∀ v ∈ c.validators.toList, 0 < v.2 := fun v hv =>
    hc.slots_pos v.1 v.2 (Std.ExtTreeMap.mem_toList_iff_getElem?_eq_some.1 hv)
  have htotal : (c.validators.toList.map Prod.snd).sum = c.totalSlots := by
    rw [hc.toBasis.totalSlots, slots_eq_sum_toList, List.filter_eq_self.2]
    intro v hv
    have hmem : v.1 ∈ c.validators := Std.ExtTreeMap.mem_iff_isSome_getElem?.2 (by
      rw [Std.ExtTreeMap.mem_toList_iff_getElem?_eq_some.1 hv]
      rfl)
    simpa using hmem
  have hslots : 0 < c.totalSlots := by
    obtain ⟨s, hs⟩ := Option.isSome_iff_exists.1 (Std.ExtTreeMap.mem_iff_isSome_getElem?.1 hc.mem)
    rw [← htotal]
    refine List.sum_pos _ (fun x hx => ?_) (List.ne_nil_of_mem (List.mem_map_of_mem
      (Std.ExtTreeMap.mem_toList_iff_getElem?_eq_some.2 hs)))
    obtain ⟨v, hv, rfl⟩ := List.mem_map.1 hx
    exact hpos v hv
  -- the signers hold the slots of the pre-commits
  have hsigners : (c.totalSlots * 2 + 3) / 3 ≤ ((((indexedSignatures c.validators.toList
      c.precommits).map Prod.fst).filterMap (c.validators.toList[·]?)).map Prod.snd).sum := by
    rw [filterMap_indexedSignatures]
    have hq : c.slots c.precommits.keys.toFinset =
        ((c.validators.toList.filter fun v => v.1 ∈ c.precommits).map Prod.snd).sum := by
      rw [slots_eq_sum_toList]
      congr 2
      apply List.filter_congr
      intro v _
      simp [Std.ExtTreeMap.mem_keys]
    rw [← hq]
    exact hquorum
  obtain ⟨ms, bm, hcreate, hcheck⟩ := checkMultiSignature_createMultiSignatureIndex
    (indexedSignatures_nodup _ _) hsig hpos htotal.le hslots hsigners
  refine ⟨ms, bm, ?_, hcheck⟩
  rw [Std.ExtTreeMap.length_toList] at hcreate
  simp [commit, shouldCommit, hstate, hb, createMultiSignature, hcreate, pure, Except.pure, bind,
    Except.bind]

omit [DecidableEq P] [Digest P H] in
/-- The block a validator commits, in `Commit` with a supermajority of
    pre-commits, carries a multi-signature that `check_multi_signature`
    accepts for the block's hash, against the validators and their slots. -/
theorem commit_checkMultiSignature (hc : Inv M c) (hstate : c.state = .Commit) {b : B}
    (hb : c.block = some b) (hquorum : c.Quorum c.precommits.keys.toFinset) :
    ∃ ms bm, c.commit = .ok (b, ms, bm) ∧
      checkMultiSignature (digest b) ms bm c.validators.toList c.totalSlots = .ok (.ok ()) :=
  hc.commit_eq_ok hstate hb hquorum

section Committed

/-- Blocks and hashes are numbers, a block being its own hash. -/
local instance digestSelf : Digest ℕ ℕ := ⟨id⟩

/-- The one validator `0`, with the one slot, in `Commit` on block `5` with
    its own pre-commit. -/
def committed : Consensus ℕ ℕ ℕ ℕ where
  pkey := 0
  validators := (∅ : Std.ExtTreeMap ℕ ℤ compare).insert 0 1
  totalSlots := 1
  epoch := 1
  selectLeader _ := 0
  state := .Commit
  round := 0
  block := some 5
  blockHash := some 5
  blockProposal := some 5
  lockedRound := none
  prevotes := ∅
  precommits := (∅ : Std.ExtTreeMap ℕ (Signed ℕ ℕ) compare).insert 0 ⟨0, 5⟩
  inbox := []
  outbox := []

/-- The validator's state is one of the invariant, its proposal being in the network. -/
theorem committed_inv : Inv [committed.proposalOf 5 5] committed where
  mem := by decide
  slots_pos j s h := by
    simp [committed, Std.ExtTreeMap.getElem?_insert] at h
    omega
  totalSlots := by decide
  locked L h := by simp [committed] at h
  inbox m h := by simp [committed] at h
  propose h := by simp [committed] at h
  proposal _ := ⟨5, 5, rfl, rfl, by simp⟩
  prevotes pk h := by simp [committed] at h
  precommits pk sig h := by
    simp [committed, Std.ExtTreeMap.getElem?_insert] at h
    exact ⟨5, rfl, by rw [← h.2, h.1]⟩
  block b h := by
    simp [committed] at h
    simp [committed, ← h]
    rfl
  outbox m h := by simp [committed] at h
  votes h hv := by simp [committed] at hv

theorem commit_checkMultiSignature_committed :
    Inv [committed.proposalOf 5 5] committed ∧ committed.state = .Commit ∧ committed.block = some 5 ∧
      committed.Quorum committed.precommits.keys.toFinset ∧
      ∃ ms bm, committed.commit = .ok (5, ms, bm) ∧
        checkMultiSignature (digest 5) ms bm committed.validators.toList committed.totalSlots =
          .ok (.ok ()) := by
  have hquorum : committed.Quorum committed.precommits.keys.toFinset := by
    unfold Consensus.Quorum
    decide
  exact ⟨committed_inv, rfl, rfl, hquorum, commit_checkMultiSignature committed_inv rfl rfl hquorum⟩

end Committed

/-! ### Commits over runs -/

/-- In every run of a validator from `Consensus::new`, over validators of
    positive slots, whose node calls it with messages of a network `M` that
    holds none of its key: in `Commit`, with a block and a supermajority of
    pre-commits, the validator commits the block with a multi-signature that
    `check_multi_signature` accepts for its hash. -/
theorem reachable_commit_checkMultiSignature {epoch : ℕ} {pkey : N} {selectLeader : ℕ → N}
    {validators : Std.ExtTreeMap N ℤ compare}
    (hpos : ∀ (j : N) (s : ℤ), validators[j]? = some s → 0 < s) (hM : ∀ m ∈ M, m.pkey ≠ pkey)
    (hc : Transition.Reachable (Consensus.new epoch pkey selectLeader validators = .ok ·)
      (callFrom M) c)
    (hstate : c.state = .Commit) {b : B} (hb : c.block = some b)
    (hquorum : c.Quorum c.precommits.keys.toFinset) :
    ∃ ms bm, c.commit = .ok (b, ms, bm) ∧
      checkMultiSignature (digest b) ms bm c.validators.toList c.totalSlots = .ok (.ok ()) :=
  (reachable_kept hpos hM hc).1.commit_eq_ok hstate hb hquorum

/-- The network of a round where validator `2` of `slotsOfFour` commits block
    100: the proposal of `0`, and the pre-vote and the pre-commit of `3`. -/
def commitNet : List (ConsensusMessage ℕ ℕ ℕ) :=
  [proposalMsg 0 100 0, prevoteMsg 0 100 3, precommitMsg 0 100 3]

/-- Validator `2`: the proposal, its pre-vote of block 100, then the pre-vote
    of `3`, which makes it pre-commit, and the pre-commit of `3`. -/
def commitRun : List {c : ConsensusCall ℕ ℕ ℕ ℕ // FromNetwork commitNet c} :=
  [⟨.feedMessage (proposalMsg 0 100 0), by simp [FromNetwork, commitNet]⟩, ⟨.prevote 100, trivial⟩,
   ⟨.feedMessage (prevoteMsg 0 100 3), by simp [FromNetwork, commitNet]⟩,
   ⟨.feedMessage (precommitMsg 0 100 3), by simp [FromNetwork, commitNet]⟩]

/-- Validator `2` of `slotsOfFour`, run through `commitRun`, is in `Commit`
    with block 100 and a supermajority of pre-commits, and commits it. -/
theorem reachable_commit_checkMultiSignature_commitRun :
    (∀ (j : ℕ) (s : ℤ), slotsOfFour[j]? = some s → 0 < s) ∧ (∀ m ∈ commitNet, m.pkey ≠ 2) ∧
    ∃ c : Consensus ℕ ℕ ℕ ℕ,
      Transition.Reachable (Consensus.new 7 2 leaderOfRound slotsOfFour = .ok ·) (callFrom commitNet) c ∧
      c.state = .Commit ∧ c.block = some 100 ∧ c.Quorum c.precommits.keys.toFinset ∧
      ∃ ms bm, c.commit = .ok (100, ms, bm) ∧
        checkMultiSignature (digest (100 : ℕ)) ms bm c.validators.toList c.totalSlots = .ok (.ok ()) := by
  have hpos : ∀ (j : ℕ) (s : ℤ), slotsOfFour[j]? = some s → 0 < s := by
    intro j s h
    simp only [slotsOfFour, Std.ExtTreeMap.getElem?_insert] at h
    split_ifs at h <;> simp at h <;> omega
  have hM : ∀ m ∈ commitNet, m.pkey ≠ 2 := by decide
  have htest : (((Consensus.new 7 2 leaderOfRound slotsOfFour).mapError .panic :
        Except (Failure ℕ ℕ) (Consensus ℕ ℕ ℕ ℕ)).toOption.bind fun c₀ =>
      (Transition.run (callFrom commitNet) c₀ commitRun).toOption.map fun c =>
        decide (c.state = .Commit ∧ c.block = some 100 ∧
          (c.totalSlots * 2 + 3) / 3 ≤ c.slots c.precommits.keys.toFinset)) = some true := by
    decide
  obtain ⟨s₀, c, h₀, hc, h⟩ := Transition.Reachable.of_run_test htest
  have hreach : Transition.Reachable (Consensus.new 7 2 leaderOfRound slotsOfFour = .ok ·)
      (callFrom commitNet) c := hc.of_init (Except.mapError_eq_ok.1 h₀)
  obtain ⟨hstate, hb, hquorum⟩ := of_decide_eq_true h
  exact ⟨hpos, hM, c, hreach, hstate, hb, hquorum,
    reachable_commit_checkMultiSignature hpos hM hreach hstate hb hquorum⟩

end Consensus

end Stegos
