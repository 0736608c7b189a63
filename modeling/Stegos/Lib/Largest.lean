import Mathlib

/-!
# The largest elements of a list bound its sub-multisets

For a list in decreasing order of nonnegative elements, its first `m`
elements have the largest sum among its sub-multisets of at most `m` elements
(`sum_le_sum_take_of_subperm`). This is the exchange argument behind a greedy
choice that takes the largest elements first: each element of a sub-multiset
can be traded for one of the first `m` that is at least as large.

`subperm_map`: a sub-multiset maps to a sub-multiset, by any function (Mathlib's
`Subperm.map` asks for an injective one).
-/

namespace List

theorem subperm_map {α β : Type*} (f : α → β) {l₁ l₂ : List α} (h : l₁ <+~ l₂) :
    l₁.map f <+~ l₂.map f := by
  obtain ⟨t, hperm, hsub⟩ := h
  exact ⟨t.map f, hperm.map f, hsub.map f⟩

variable {α : Type*} [AddCommMonoid α] [LinearOrder α] [IsOrderedAddMonoid α]

omit [AddCommMonoid α] [IsOrderedAddMonoid α] in
/-- A nonempty sub-multiset of `x :: l`, with `x` the largest, has an element
    at most `x` whose removal leaves a sub-multiset of `l`. -/
theorem exists_erase_subperm_of_subperm_cons {x : α} {l s : List α} (hl : (x :: l).Pairwise (· ≥ ·))
    (hs : s <+~ x :: l) (hne : s ≠ []) : ∃ z ∈ s, z ≤ x ∧ s.erase z <+~ l := by
  by_cases hx : x ∈ s
  · -- trade `x` itself
    refine ⟨x, hx, le_rfl, ?_⟩
    simpa using hs.erase x
  · -- `s` misses `x`, so it lies in `l`, below `x`
    have hsl : s <+~ l := by simpa [List.erase_of_not_mem hx] using hs.erase x
    obtain ⟨z, hz⟩ := List.exists_mem_of_ne_nil s hne
    exact ⟨z, hz, List.rel_of_pairwise_cons hl (hsl.subset hz), (List.erase_sublist).subperm.trans hsl⟩

/-- The first `m` elements of a decreasing list of nonnegative elements sum to
    at least any `m` or fewer of its elements. -/
theorem sum_le_sum_take_of_subperm :
    ∀ {l s : List α} {m : ℕ}, l.Pairwise (· ≥ ·) → (∀ x ∈ l, 0 ≤ x) → s <+~ l → s.length ≤ m →
      s.sum ≤ (l.take m).sum
  | [], s, m, _, _, hs, _ => by simp [List.subperm_nil.1 hs]
  | x :: l, s, m, hl, hpos, hs, hm => by
    by_cases hne : s = []
    · subst hne
      exact List.sum_nonneg fun a ha => hpos a (List.mem_of_mem_take ha)
    obtain ⟨z, hz, hzx, hsub⟩ := exists_erase_subperm_of_subperm_cons hl hs hne
    have hlen : (s.erase z).length + 1 = s.length := by
      rw [List.length_erase_of_mem hz]
      have := List.length_pos_of_mem hz
      omega
    obtain ⟨m, rfl⟩ : ∃ m', m = m' + 1 := Nat.exists_eq_succ_of_ne_zero (by omega)
    -- the rest of `s` is bounded by induction, `z` by `x`
    have ih : (s.erase z).sum ≤ (l.take m).sum :=
      sum_le_sum_take_of_subperm hl.of_cons (fun a ha => hpos a (List.mem_cons_of_mem _ ha)) hsub
        (by omega)
    calc s.sum = z + (s.erase z).sum := (List.sum_erase hz).symm
      _ ≤ x + (l.take m).sum := add_le_add hzx ih
      _ = ((x :: l).take (m + 1)).sum := by simp

end List
