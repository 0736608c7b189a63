import Stegos.Lib.Except

/-!
# Undoing updates of extensional tree maps

An ordered map (`Std.ExtTreeMap`, equal when its lookups are) is brought back
to an earlier content by inverse updates: an insertion of a fresh key is undone
by erasing it, an overwrite by erasing the key and inserting the old value,
and an erasure by inserting the old value again. These are the steps an undo
log replays.

Under a lawful order a key is in a map or set after an insertion exactly when
it is the inserted key or was there before (`mem_insert_iff`), the form in
which loops that collect keys are reasoned about; likewise a lookup after an
insertion or an erasure (`getElem?_insert_eq_some`, `getElem?_erase_eq_some`).

Inserting a fresh key adds it to the keys (`keys_insert_perm`). Setting the
value at a key changes the sum of the values by the change of the value there
(`sum_toList_insert`); the values at a set of keys add up to the
sum of the lookups over the set (`sum_toList_filter`).

A fold over a map that adds up a weight of each key, and stops at its first
failure, sums the weights of the keys when it succeeds (`foldlM_except_sum_keys`).

A patch maps keys to `some v`, a put, or `none`, a delete; applied to a map,
each key it names ends with its entry, and every other key is unchanged
(`getElem?_foldl_putOrErase`).
-/

/-- The `compare` of a linear order is lawful: it says `eq` of equal elements only. -/
theorem LinearOrder.lawfulEqOrd (α : Type*) [LinearOrder α] : Std.LawfulEqOrd α where
  eq_of_compare := compare_eq_iff_eq.1

namespace Std.ExtTreeMap

variable {α β : Type*} [Ord α] [TransOrd α] [LawfulEqOrd α] {m : ExtTreeMap α β compare}
  {k a : α} {v w : β}

theorem mem_insert_iff : k ∈ m.insert a v ↔ k = a ∨ k ∈ m := by
  rw [mem_insert, compare_eq_iff_eq, eq_comm]

/-- A lookup after an insertion: the inserted value at its key, the old one
    elsewhere. -/
theorem getElem?_insert_eq_some :
    (m.insert a w)[k]? = some v ↔ k = a ∧ w = v ∨ k ≠ a ∧ m[k]? = some v := by
  rw [getElem?_insert]
  by_cases hk : k = a
  · subst hk; simp
  · simp [Ne.symm hk, hk]

/-- A lookup after an erasure: the old value, at any other key. -/
theorem getElem?_erase_eq_some : (m.erase a)[k]? = some v ↔ k ≠ a ∧ m[k]? = some v := by
  rw [getElem?_erase]
  by_cases hk : k = a
  · subst hk; simp
  · simp [Ne.symm hk, hk]

/-- Erasing a key that is absent changes nothing. -/
theorem erase_of_getElem?_eq_none (h : m[k]? = none) : m.erase k = m := by
  refine ext_getElem? fun a => ?_
  rw [getElem?_erase]
  by_cases hka : k = a
  · subst hka; simp [h]
  · simp [hka]

/-- Inserting a fresh key is undone by erasing it. -/
theorem erase_insert_of_getElem?_eq_none (h : m[k]? = none) : (m.insert k v).erase k = m := by
  refine ext_getElem? fun a => ?_
  rw [getElem?_erase, getElem?_insert]
  by_cases hka : k = a
  · subst hka; simp [h]
  · simp [hka]

/-- Erasing a key is undone by inserting its old value. -/
theorem insert_erase_of_getElem?_eq_some (h : m[k]? = some w) : (m.erase k).insert k w = m := by
  refine ext_getElem? fun a => ?_
  rw [getElem?_insert, getElem?_erase]
  by_cases hka : k = a
  · subst hka; simp [h]
  · simp [hka]

/-- Overwriting a key is undone by erasing it and inserting its old value. -/
theorem insert_erase_insert_of_getElem?_eq_some (h : m[k]? = some w) :
    ((m.insert k v).erase k).insert k w = m := by
  refine ext_getElem? fun a => ?_
  rw [getElem?_insert, getElem?_erase, getElem?_insert]
  by_cases hka : k = a
  · subst hka; simp [h]
  · simp [hka]

/-- A put (`some v`) or a delete (`none`) of `key`. -/
def putOrErase (m : ExtTreeMap α β compare) (key : α) : Option β → ExtTreeMap α β compare
  | some v => m.insert key v
  | none => m.erase key

theorem getElem?_putOrErase_self (o : Option β) : (m.putOrErase k o)[k]? = o := by
  cases o <;> simp [putOrErase]

theorem getElem?_putOrErase_of_ne (o : Option β) (h : a ≠ k) : (m.putOrErase a o)[k]? = m[k]? := by
  cases o <;> simp [putOrErase, getElem?_insert, getElem?_erase, h]

/-- The entries of a list with distinct keys applied in turn: a key of the
    list ends with its entry, any other key as it was. -/
theorem getElem?_foldl_putOrErase_list (k : α) :
    ∀ (l : List (α × Option β)), l.Pairwise (fun a b => ¬compare a.1 b.1 = .eq) →
      ∀ (m : ExtTreeMap α β compare),
        (∀ o, (k, o) ∈ l → (l.foldl (fun m e => m.putOrErase e.1 e.2) m)[k]? = o) ∧
        ((∀ o, (k, o) ∉ l) → (l.foldl (fun m e => m.putOrErase e.1 e.2) m)[k]? = m[k]?)
  | [], _, _ => ⟨fun _ h => absurd h List.not_mem_nil, fun _ => rfl⟩
  | (a, o') :: l, hl, m => by
    obtain ⟨ha, hl⟩ := List.pairwise_cons.1 hl
    obtain ⟨ih₁, ih₂⟩ := getElem?_foldl_putOrErase_list k l hl (m.putOrErase a o')
    rw [List.foldl_cons]
    refine ⟨fun o ho => ?_, fun ho => ?_⟩
    · rcases List.mem_cons.1 ho with heq | ho
      · -- the key is the head's, which no later entry names
        simp only [Prod.mk.injEq] at heq
        obtain ⟨rfl, rfl⟩ := heq
        rw [ih₂ fun o hmem => ha (k, o) hmem (by simp), getElem?_putOrErase_self]
      · exact ih₁ o ho
    · have hne : a ≠ k := by
        rintro rfl
        exact ho o' List.mem_cons_self
      rw [ih₂ fun o hmem => ho o (List.mem_cons_of_mem _ hmem), getElem?_putOrErase_of_ne _ hne]

/-- A patch applied to a map: a key it names ends with its entry, any other
    key as it was. -/
theorem getElem?_foldl_putOrErase (patch : ExtTreeMap α (Option β) compare) (k : α) :
    (patch.foldl (fun m key o => m.putOrErase key o) m)[k]? =
      match patch[k]? with
      | some o => o
      | none => m[k]? := by
  rw [foldl_eq_foldl_toList]
  obtain ⟨h₁, h₂⟩ := getElem?_foldl_putOrErase_list k patch.toList distinct_keys_toList m
  cases hk : patch[k]? with
  | some o => exact h₁ o (mem_toList_iff_getElem?_eq_some.2 hk)
  | none =>
    refine h₂ fun o ho => ?_
    rw [mem_toList_iff_getElem?_eq_some, hk] at ho
    cases ho

/-! ### The sum of the values -/

theorem nodup_toList : m.toList.Nodup :=
  m.distinct_keys_toList.imp fun h heq => h (compare_eq_iff_eq.2 (congrArg Prod.fst heq))

/-- Inserting at a key removes the old value there, if any. -/
theorem erase_insert_self : (m.insert k v).erase k = m.erase k := by
  refine ext_getElem? fun a => ?_
  rw [getElem?_erase, getElem?_erase, getElem?_insert]
  by_cases hka : k = a
  · subst hka; simp
  · simp [hka]

/-- The entries of a map are the entry at a key and those of the map without it. -/
theorem toList_perm_cons_erase (h : m[k]? = some w) :
    m.toList.Perm ((k, w) :: (m.erase k).toList) := by
  have hnot : (k, w) ∉ (m.erase k).toList := by
    rw [mem_toList_iff_getElem?_eq_some, getElem?_erase_eq_some]
    exact fun ⟨hne, _⟩ => hne rfl
  refine (List.perm_ext_iff_of_nodup nodup_toList (List.nodup_cons.2 ⟨hnot, nodup_toList⟩)).2 ?_
  rintro ⟨a, b⟩
  rw [List.mem_cons, mem_toList_iff_getElem?_eq_some, mem_toList_iff_getElem?_eq_some,
    getElem?_erase_eq_some, Prod.mk.injEq]
  by_cases ha : a = k
  · subst ha
    rw [h, Option.some.injEq]
    simp [eq_comm]
  · simp [ha]

/-- Inserting a fresh key adds it to the keys. -/
theorem keys_insert_perm (h : m[k]? = none) : (m.insert k v).keys.Perm (k :: m.keys) := by
  have hperm := (toList_perm_cons_erase (getElem?_insert_self (t := m) (k := k) (v := v))).map
    Prod.fst
  rwa [erase_insert_self, erase_of_getElem?_eq_none h, List.map_cons, map_fst_toList_eq_keys,
    map_fst_toList_eq_keys] at hperm

/-- Setting the value at a key changes the sum of the values by the change of
    the value there, an absent key counting as `0`. -/
theorem sum_toList_insert {β : Type*} [AddCommMonoid β] {m : ExtTreeMap α β compare} {v : β} :
    ((m.insert k v).toList.map Prod.snd).sum + m[k]?.getD 0 = v + (m.toList.map Prod.snd).sum := by
  have hins := ((toList_perm_cons_erase (getElem?_insert_self (t := m) (k := k) (v := v))).map
    Prod.snd).sum_eq
  rw [erase_insert_self, List.map_cons, List.sum_cons] at hins
  rw [hins]
  cases hk : m[k]? with
  | none => rw [erase_of_getElem?_eq_none hk, Option.getD_none, add_zero]
  | some w =>
    rw [((toList_perm_cons_erase hk).map Prod.snd).sum_eq, List.map_cons, List.sum_cons,
      Option.getD_some, add_assoc, add_comm _ w]

/-- The values at the keys of `K` add up to the sum over `K` of the lookups,
    an absent key counting as `0`. -/
theorem sum_toList_filter {β : Type*} [AddCommMonoid β] [DecidableEq α] (m : ExtTreeMap α β compare)
    (K : Finset α) :
    ((m.toList.filter fun e => e.1 ∈ K).map Prod.snd).sum = ∑ j ∈ K, m[j]?.getD 0 := by
  -- the keys of the map in `K`, each once, and the value at each
  have hkeys : (m.toList.map Prod.fst).Nodup := by
    rw [map_fst_toList_eq_keys]
    exact nodup_keys
  have hnodup : ((m.toList.filter fun e => e.1 ∈ K).map Prod.fst).Nodup :=
    ((List.filter_sublist).map Prod.fst).nodup hkeys
  have hvals : (m.toList.filter fun e => e.1 ∈ K).map Prod.snd =
      ((m.toList.filter fun e => e.1 ∈ K).map Prod.fst).map fun j => m[j]?.getD 0 := by
    rw [List.map_map]
    refine List.map_congr_left fun e he => ?_
    show e.2 = m[e.1]?.getD 0
    rw [mem_toList_iff_getElem?_eq_some.1 (List.mem_of_mem_filter he), Option.getD_some]
  have hset : ((m.toList.filter fun e => e.1 ∈ K).map Prod.fst).toFinset = K.filter (· ∈ m) := by
    ext j
    simp only [List.mem_toFinset, List.mem_map, List.mem_filter, decide_eq_true_eq,
      Finset.mem_filter]
    constructor
    · rintro ⟨⟨j', v⟩, ⟨hv, hj⟩, rfl⟩
      rw [mem_toList_iff_getElem?_eq_some] at hv
      exact ⟨hj, mem_iff_isSome_getElem?.2 (by simp [hv])⟩
    · rintro ⟨hj, hm⟩
      obtain ⟨v, hv⟩ := Option.isSome_iff_exists.1 (mem_iff_isSome_getElem?.1 hm)
      exact ⟨(j, v), ⟨mem_toList_iff_getElem?_eq_some.2 hv, hj⟩, rfl⟩
  -- the keys of `K` outside the map count `0`
  rw [hvals, ← List.sum_toFinset _ hnodup, hset]
  refine Finset.sum_filter_of_ne fun j _ hne => ?_
  by_contra hj
  exact hne (by rw [getElem?_eq_none hj, Option.getD_none])

section Fold

variable [DecidableEq α]

omit [LawfulEqOrd α] in
/-- A successful fold over the entries of a map, whose every step adds the
    weight of the key: the result is the start plus the weights of the keys. -/
theorem foldlM_except_sum_keys {ε : Type*} {g : ℤ → α → Except ε ℤ} {w : α → ℤ}
    (hg : ∀ s a r, g s a = .ok r → r = s + w a) {m : ExtTreeMap α β compare} {init r : ℤ}
    (h : m.foldlM (fun s k _ => g s k) init = .ok r) : r = init + ∑ k ∈ m.keys.toFinset, w k := by
  rw [foldlM_eq_foldlM_keys] at h
  rw [List.foldlM_except_sum hg h, List.sum_toFinset _ nodup_keys]

end Fold

end Std.ExtTreeMap

namespace Std.ExtTreeSet

variable {α : Type*} [Ord α] [TransOrd α] [LawfulEqOrd α] {s : ExtTreeSet α compare} {k a : α}

theorem mem_insert_iff : k ∈ s.insert a ↔ k = a ∨ k ∈ s := by
  rw [mem_insert, compare_eq_iff_eq, eq_comm]

end Std.ExtTreeSet
