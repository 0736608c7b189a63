import Mathlib

/-!
# Vectors of bounded length

A vector of at most `cap` elements, as the `ArrayVec` of the `arrayvec`
crate: a list that carries its bound. Its operations panic where the crate's
do, on an index past the end or an element past the capacity, and
`List.getOrPanic` indexes a vector (`v[i]`) as Rust does.

* `insert_eq_ok`, `remove_eq_ok`, `push_eq_ok`, `set_eq_ok`: when each
  operation succeeds, and the list it leaves;
* `insert_ok`, `remove_ok`, `push_ok`, `set_ok`: within the bounds, they do
  not panic;
* `perm_of_insert`, `perm_of_remove`: an insertion adds its element to the
  multiset of the elements, a removal takes the one it returns out of it, and
  a move permutes them (`List.perm_insertIdx_eraseIdx`);
* `List.drop_insertIdx_self`, `List.drop_eraseIdx_of_le`,
  `List.drop_eraseIdx_of_ge`: what is past an index after an insertion or a
  removal.
-/

/-- Why a call on a vector panics. -/
inductive VecPanic
  | indexOutOfBounds
  | capacityExceeded
  deriving DecidableEq, Repr

namespace List

variable {α : Type*}

/-- `v[i]`: the element at `i`, or a panic past the end. -/
def getOrPanic (l : List α) (i : ℕ) : Except VecPanic α :=
  match l[i]? with
  | some x => .ok x
  | none => .error .indexOutOfBounds

theorem getOrPanic_eq_ok {l : List α} {i : ℕ} {x : α} :
    l.getOrPanic i = .ok x ↔ l[i]? = some x := by
  unfold getOrPanic
  split <;> simp_all

theorem insertIdx_eq_take_drop {l : List α} {i : ℕ} (x : α) (h : i ≤ l.length) :
    l.insertIdx i x = l.take i ++ x :: l.drop i := by
  induction l generalizing i with
  | nil => simp_all
  | cons a l ih =>
    cases i with
    | zero => simp
    | succ i => simp [ih (Nat.le_of_succ_le_succ h)]

/-- Past an insertion, its element and the rest. -/
theorem drop_insertIdx_self {l : List α} {i : ℕ} (x : α) (h : i ≤ l.length) :
    (l.insertIdx i x).drop i = x :: l.drop i := by
  rw [insertIdx_eq_take_drop x h, drop_append, length_take, Nat.min_eq_left h, drop_of_length_le
    (by rw [length_take]; omega), Nat.sub_self, drop_zero, nil_append]

/-- Past a removal, the rest of the list one further. -/
theorem drop_eraseIdx_of_le : ∀ {l : List α} {i j : ℕ}, i ≤ j → (l.eraseIdx i).drop j = l.drop (j + 1)
  | [], _, _, _ => by simp
  | _ :: _, 0, _, _ => by simp
  | _ :: _, _ + 1, 0, h => absurd h (Nat.not_succ_le_zero _)
  | _ :: l, i + 1, j + 1, h => by
    rw [eraseIdx_cons_succ, drop_succ_cons, drop_succ_cons, drop_eraseIdx_of_le (Nat.le_of_succ_le_succ h)]

/-- Before a removal, the rest of the list without the element. -/
theorem drop_eraseIdx_of_ge : ∀ {l : List α} {i j : ℕ}, j ≤ i → (l.eraseIdx i).drop j = (l.drop j).eraseIdx (i - j)
  | _, _, 0, _ => by simp
  | [], _, _ + 1, _ => by simp
  | _ :: _, 0, _ + 1, h => absurd h (Nat.not_succ_le_zero _)
  | _ :: l, i + 1, j + 1, h => by
    rw [eraseIdx_cons_succ, drop_succ_cons, drop_succ_cons, drop_eraseIdx_of_ge (Nat.le_of_succ_le_succ h),
      Nat.add_sub_add_right]

/-- In a list without duplicates, the element at `pos` is past `k` exactly
    when `pos` is. -/
theorem Nodup.getElem_mem_drop_iff {L : List α} (hL : L.Nodup) {pos k : ℕ} (hpos : pos < L.length) :
    L[pos] ∈ L.drop k ↔ k ≤ pos := by
  constructor
  · intro h
    obtain ⟨j, hj, hjx⟩ := mem_iff_getElem.1 h
    rw [getElem_drop] at hjx
    have := hL.getElem_inj_iff.1 hjx
    omega
  · intro hk
    have hj : pos - k < (L.drop k).length := by
      rw [length_drop]
      omega
    refine mem_iff_getElem.2 ⟨pos - k, hj, ?_⟩
    rw [getElem_drop]
    congr 1
    omega

/-- In a list without duplicates, removing the element at `pos`, past `k`,
    erases it from what is past `k`. -/
theorem Nodup.drop_eraseIdx [DecidableEq α] {L : List α} (hL : L.Nodup) {pos k : ℕ}
    (hpos : pos < L.length) (hk : k ≤ pos) : (L.eraseIdx pos).drop k = (L.drop k).erase L[pos] := by
  have hj : pos - k < (L.drop k).length := by
    rw [length_drop]
    omega
  have hget : (L.drop k)[pos - k] = L[pos] := by
    rw [getElem_drop]
    congr 1
    omega
  rw [drop_eraseIdx_of_ge hk, ← hget, (hL.sublist (drop_sublist k L)).erase_getElem (pos - k) hj]

/-- Moving an element, `remove(i)` then `insert(j, _)`, permutes the list. -/
theorem perm_insertIdx_eraseIdx {l : List α} {i j : ℕ} (hi : i < l.length) (hj : j < l.length) :
    ((l.eraseIdx i).insertIdx j l[i]).Perm l := by
  have hj' : j ≤ (l.eraseIdx i).length := by
    rw [length_eraseIdx_of_lt hi]
    omega
  exact (perm_insertIdx _ _ hj').trans (getElem_cons_eraseIdx_perm hi)

end List

/-- A vector of at most `cap` elements. -/
@[ext]
structure ArrayVec (α : Type*) (cap : ℕ) where
  toList : List α
  length_le : toList.length ≤ cap

namespace ArrayVec

variable {α : Type*} {cap : ℕ}

/-- The empty vector. -/
def new : ArrayVec α cap := ⟨[], Nat.zero_le cap⟩

/-- Whether the vector holds `cap` elements. -/
def isFull (v : ArrayVec α cap) : Bool := v.toList.length = cap

/-- `insert`: `element` at `index`, the later elements one up. Panics when
    `index` is past the end, or when the vector is full. -/
def insert (v : ArrayVec α cap) (index : ℕ) (element : α) : Except VecPanic (ArrayVec α cap) :=
  if h₁ : index ≤ v.toList.length then
    if h₂ : v.toList.length < cap then
      .ok ⟨v.toList.insertIdx index element, by rw [List.length_insertIdx, if_pos h₁]; omega⟩
    else .error .capacityExceeded
  else .error .indexOutOfBounds

/-- `remove`: the element at `index`, and the vector without it, the later
    elements one down. Panics when `index` is past the end. -/
def remove (v : ArrayVec α cap) (index : ℕ) : Except VecPanic (α × ArrayVec α cap) :=
  if h : index < v.toList.length then
    .ok (v.toList[index], ⟨v.toList.eraseIdx index, by
      rw [List.length_eraseIdx, if_pos h]
      exact (Nat.sub_le _ _).trans v.length_le⟩)
  else .error .indexOutOfBounds

/-- `push`: `element` at the end. Panics when the vector is full. -/
def push (v : ArrayVec α cap) (element : α) : Except VecPanic (ArrayVec α cap) :=
  if h : v.toList.length < cap then
    .ok ⟨v.toList ++ [element], by rw [List.length_append, List.length_singleton]; omega⟩
  else .error .capacityExceeded

/-- `v[index] = element`. Panics when `index` is past the end. -/
def set (v : ArrayVec α cap) (index : ℕ) (element : α) : Except VecPanic (ArrayVec α cap) :=
  if index < v.toList.length then
    .ok ⟨v.toList.set index element, by rw [List.length_set]; exact v.length_le⟩
  else .error .indexOutOfBounds

@[simp]
theorem toList_new : (new : ArrayVec α cap).toList = [] := rfl

theorem isFull_eq_true {v : ArrayVec α cap} : v.isFull = true ↔ v.toList.length = cap := by
  simp [isFull]

theorem insert_eq_ok {v w : ArrayVec α cap} {index : ℕ} {element : α} :
    v.insert index element = .ok w ↔
      index ≤ v.toList.length ∧ v.toList.length < cap ∧ w.toList = v.toList.insertIdx index element := by
  unfold insert
  split_ifs with h₁ h₂
  · simp only [Except.ok.injEq, h₁, h₂, true_and]
    constructor
    · rintro rfl
      rfl
    · intro h
      ext1
      exact h.symm
  · simp [h₁, h₂]
  · simp [h₁]

theorem remove_eq_ok {v w : ArrayVec α cap} {index : ℕ} {element : α} :
    v.remove index = .ok (element, w) ↔
      ∃ h : index < v.toList.length, v.toList[index] = element ∧ w.toList = v.toList.eraseIdx index := by
  unfold remove
  split_ifs with h
  · simp only [Except.ok.injEq, Prod.mk.injEq, h, exists_true_left]
    constructor
    · rintro ⟨rfl, rfl⟩
      exact ⟨rfl, rfl⟩
    · rintro ⟨rfl, hw⟩
      exact ⟨rfl, ArrayVec.ext hw.symm⟩
  · simp [h]

theorem push_eq_ok {v w : ArrayVec α cap} {element : α} :
    v.push element = .ok w ↔ v.toList.length < cap ∧ w.toList = v.toList ++ [element] := by
  unfold push
  split_ifs with h
  · simp only [Except.ok.injEq, h, true_and]
    constructor
    · rintro rfl
      rfl
    · intro hw
      exact ArrayVec.ext hw.symm
  · simp [h]

theorem set_eq_ok {v w : ArrayVec α cap} {index : ℕ} {element : α} :
    v.set index element = .ok w ↔ index < v.toList.length ∧ w.toList = v.toList.set index element := by
  unfold set
  split_ifs with h
  · simp only [Except.ok.injEq, h, true_and]
    constructor
    · rintro rfl
      rfl
    · intro hw
      exact ArrayVec.ext hw.symm
  · simp [h]

theorem insert_ok {v : ArrayVec α cap} {index : ℕ} (element : α) (h₁ : index ≤ v.toList.length)
    (h₂ : v.toList.length < cap) :
    ∃ w, v.insert index element = .ok w ∧ w.toList = v.toList.insertIdx index element :=
  ⟨_, by rw [insert, dif_pos h₁, dif_pos h₂], rfl⟩

theorem push_ok {v : ArrayVec α cap} (element : α) (h : v.toList.length < cap) :
    ∃ w, v.push element = .ok w ∧ w.toList = v.toList ++ [element] :=
  ⟨_, by rw [push, dif_pos h], rfl⟩

/-- An insertion adds its element to the elements, as a multiset. -/
theorem perm_of_insert {v w : ArrayVec α cap} {index : ℕ} {element : α}
    (h : v.insert index element = .ok w) : w.toList.Perm (element :: v.toList) := by
  obtain ⟨hi, -, hw⟩ := insert_eq_ok.1 h
  rw [hw]
  exact List.perm_insertIdx element v.toList hi

/-- A removal takes the element it returns out of the elements, as a multiset. -/
theorem perm_of_remove {v w : ArrayVec α cap} {index : ℕ} {element : α}
    (h : v.remove index = .ok (element, w)) : (element :: w.toList).Perm v.toList := by
  obtain ⟨hi, rfl, hw⟩ := remove_eq_ok.1 h
  rw [hw]
  exact List.getElem_cons_eraseIdx_perm hi

end ArrayVec
