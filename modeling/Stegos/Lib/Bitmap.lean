import Mathlib

/-!
# Bitmaps over a list

A bitmap marks entries of a list by their index: bit `i` set marks entry `i`.
Walking the list and the bitmap side by side, as `l.iter().zip(bm.iter())`
does, and skipping the unset bits gives the marked entries (`List.marked`).

* `marked_sublist`: the marked entries are a sublist of the list;
* `marked_eq_filterMap_range`: they are the entries at the indices whose bit
  is set, in order;
* `marked_perm`: when the bits set are exactly those of the indices `ids`,
  each given once, the marked entries are the entries at `ids`, up to order;
  the entries at indices given once each are so a sub-multiset of the list
  (`filterMap_getElem?_subperm`);
* `getD_set_true`: setting a bit leaves the others as they were.
-/

namespace List

variable {α : Type*}

/-- The entries of `l` whose bit in `bm` is set: `l` and `bm` walked side by
    side, as far as the shorter goes. -/
def marked (l : List α) (bm : List Bool) : List α :=
  ((l.zip bm).filter (·.2)).map (·.1)

@[simp]
theorem marked_nil_left (bm : List Bool) : marked ([] : List α) bm = [] := rfl

@[simp]
theorem marked_nil_right (l : List α) : marked l [] = [] := by
  simp [marked]

@[simp]
theorem marked_cons_cons (a : α) (l : List α) (b : Bool) (bm : List Bool) :
    marked (a :: l) (b :: bm) = if b then a :: marked l bm else marked l bm := by
  cases b <;> simp [marked]

theorem marked_sublist (l : List α) (bm : List Bool) : marked l bm <+ l := by
  induction l generalizing bm with
  | nil => simp
  | cons a l ih =>
    cases bm with
    | nil => simp
    | cons b bm =>
      rw [marked_cons_cons]
      split
      · exact (ih bm).cons_cons a
      · exact (ih bm).cons a

/-- The marked entries are those at the indices whose bit is set. -/
theorem marked_eq_filterMap_range (l : List α) (bm : List Bool) :
    marked l bm = (range l.length).filterMap fun i => if bm.getD i false then l[i]? else none := by
  induction l generalizing bm with
  | nil => simp
  | cons a l ih =>
    cases bm with
    | nil => simp
    | cons b bm =>
      -- index `0` is `a`; index `i + 1` is index `i` of the tails
      rw [marked_cons_cons, ih bm, length_cons, range_succ_eq_map, filterMap_cons, filterMap_map]
      cases b <;> simp

/-- An index past the length names no entry. -/
theorem filterMap_getElem?_filter_lt (l : List α) (ids : List ℕ) :
    (ids.filter (· < l.length)).filterMap (l[·]?) = ids.filterMap (l[·]?) := by
  rw [filterMap_filter]
  congr 1
  funext i
  by_cases hi : i < l.length <;> simp [hi]

/-- When the bits set are those of the indices `ids`, each given once, the
    marked entries are the entries at `ids`, up to order. -/
theorem marked_perm {l : List α} {bm : List Bool} {ids : List ℕ} (hids : ids.Nodup)
    (hbm : ∀ i, bm.getD i false = true ↔ i ∈ ids) :
    marked l bm ~ ids.filterMap (l[·]?) := by
  -- the indices set below the length are those of `ids` below it
  have hrange : (range l.length).filter (· ∈ ids) ~ ids.filter (· < l.length) := by
    rw [perm_ext_iff_of_nodup (nodup_range.filter _) (hids.filter _)]
    intro i
    simp [and_comm]
  calc marked l bm
      = ((range l.length).filter (· ∈ ids)).filterMap (l[·]?) := by
        rw [marked_eq_filterMap_range, filterMap_filter]
        congr 1
        funext i
        have hb : bm.getD i false = decide (i ∈ ids) := by
          rw [Bool.eq_iff_iff, hbm, decide_eq_true_iff]
        rw [hb]
    _ ~ (ids.filter (· < l.length)).filterMap (l[·]?) := hrange.filterMap _
    _ = ids.filterMap (l[·]?) := filterMap_getElem?_filter_lt l ids

/-- The entries at indices given once each are a sub-multiset of the list:
    they are those a bitmap of the indices marks. -/
theorem filterMap_getElem?_subperm {l : List α} {ids : List ℕ} (hids : ids.Nodup) :
    (ids.filterMap (l[·]?)).Subperm l := by
  -- the bitmap of the indices of `ids` below the length
  have hbm : ∀ i, ((range l.length).map fun j => decide (j ∈ ids)).getD i false = true ↔
      i ∈ ids.filter (· < l.length) := by
    intro i
    by_cases hi : i < l.length <;> simp [hi, getD_eq_getElem?_getD]
  rw [← filterMap_getElem?_filter_lt]
  exact (marked_perm (hids.filter _) hbm).symm.subperm.trans (marked_sublist l _).subperm

/-- Setting bit `i` sets it, and leaves the others as they were. -/
theorem getD_set_true (bm : List Bool) {i : ℕ} (hi : i < bm.length) (j : ℕ) :
    (bm.set i true).getD j false = (bm.getD j false || decide (j = i)) := by
  simp only [getD_eq_getElem?_getD, getElem?_set]
  by_cases hj : i = j
  · subst hj
    simp [hi]
  · simp [hj, Ne.symm hj]

end List
