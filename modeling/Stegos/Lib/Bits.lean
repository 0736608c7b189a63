import Mathlib

/-!
# Bits of natural numbers

Two facts about binary digits that code over machine words relies on.

* `Nat.smear m k`: `m` or-ed with itself shifted right by `1, 2, 4, …, 2^(k-1)`
  in turn. A bit of it is set when a bit of `m` is set at most `2^k - 1`
  places above (`testBit_smear`); below `2^(2^k)` that is every bit up to the
  highest set one, so one more than it is the next power of two,
  `2 ^ clog 2 (m + 1)` (`smear_add_one`), the height `H` with
  `m + 1 ≤ 2^H < 2 (m + 1)` (`clog_two_eq_of_pow`).
* `Nat.revBits k i`: the `k` lowest binary digits of `i` in reverse order, its
  bit `d` being bit `k - 1 - d` of `i` (`testBit_revBits`).
-/

namespace Nat

/-- `m` or-ed with its shifts right by `1, 2, 4, …, 2^(k-1)`, in turn. -/
def smear (m : ℕ) : ℕ → ℕ
  | 0 => m
  | k + 1 => smear m k ||| smear m k >>> 2 ^ k

/-- Each shift doubles the window of bits above a bit that it collects. -/
theorem testBit_smear (m i : ℕ) :
    ∀ k, (m.smear k).testBit i = true ↔ ∃ j, i ≤ j ∧ j < i + 2 ^ k ∧ m.testBit j = true
  | 0 => by
    simp only [smear, pow_zero]
    constructor
    · intro h
      exact ⟨i, le_refl i, by omega, h⟩
    · rintro ⟨j, hij, hji, h⟩
      obtain rfl : j = i := by omega
      exact h
  | k + 1 => by
    rw [smear, testBit_or, Bool.or_eq_true, testBit_shiftRight, testBit_smear m i k,
      testBit_smear m (2 ^ k + i) k, pow_succ]
    constructor
    · rintro (⟨j, hij, hji, h⟩ | ⟨j, hij, hji, h⟩)
      · exact ⟨j, hij, by omega, h⟩
      · exact ⟨j, by omega, by omega, h⟩
    · rintro ⟨j, hij, hji, h⟩
      by_cases hj : j < i + 2 ^ k
      · exact .inl ⟨j, hij, hj, h⟩
      · exact .inr ⟨j, by omega, by omega, h⟩

/-- Below `2^(2^k)` the bits collected are those up to the highest set one. -/
theorem testBit_smear_iff {m k : ℕ} (hm : m < 2 ^ 2 ^ k) (i : ℕ) :
    (m.smear k).testBit i = true ↔ m ≠ 0 ∧ i ≤ m.log2 := by
  rw [testBit_smear]
  constructor
  · rintro ⟨j, hij, -, h⟩
    have hm0 : m ≠ 0 := by
      rintro rfl
      simp at h
    -- a set bit of `m` lies at or below its highest one
    have hj : j ≤ m.log2 := by
      by_contra hlt
      have : m < 2 ^ j := lt_of_lt_of_le lt_log2_self (Nat.pow_le_pow_right (by omega) (by omega))
      rw [testBit_lt_two_pow this] at h
      exact Bool.false_ne_true h
    exact ⟨hm0, by omega⟩
  · rintro ⟨hm0, hi⟩
    have hlog : m.log2 < 2 ^ k := (log2_lt hm0).2 hm
    exact ⟨m.log2, hi, by omega, testBit_log2 hm0⟩

theorem smear_zero (k : ℕ) : (0 : ℕ).smear k = 0 :=
  eq_of_testBit_eq fun i => by
    rw [zero_testBit, Bool.eq_false_iff, ne_eq, testBit_smear]
    rintro ⟨j, -, -, h⟩
    simp at h

/-- The highest bit of `m + 1` rounded up is one above the highest bit of `m`. -/
theorem clog_two_add_one {m : ℕ} (hm : m ≠ 0) : clog 2 (m + 1) = m.log2 + 1 := by
  apply le_antisymm
  · exact clog_le_of_le_pow lt_log2_self
  · exact (lt_clog_iff_pow_lt Nat.one_lt_two).2 (lt_succ_of_le (log2_self_le hm))

/-- `clog 2 n` is the height `H` with `n ≤ 2^H < 2n`. -/
theorem clog_two_eq_of_pow {n H : ℕ} (hle : n ≤ 2 ^ H) (hlt : 2 ^ H < 2 * n) : clog 2 n = H := by
  apply le_antisymm (clog_le_of_le_pow hle)
  rcases H with _ | H
  · exact Nat.zero_le _
  · have : 2 ^ H < n := by
      rw [pow_succ] at hlt
      omega
    exact (lt_clog_iff_pow_lt Nat.one_lt_two).2 this

/-- Below `2^(2^k)`, one more than the smear of `m` is the least power of two
    that is at least `m + 1`. -/
theorem smear_add_one {m k : ℕ} (hm : m < 2 ^ 2 ^ k) : m.smear k + 1 = 2 ^ clog 2 (m + 1) := by
  rcases Nat.eq_zero_or_pos m with rfl | hpos
  · simp [smear_zero]
  have hm0 : m ≠ 0 := by omega
  have hsmear : m.smear k = 2 ^ (m.log2 + 1) - 1 :=
    eq_of_testBit_eq fun i => by
      rw [testBit_two_pow_sub_one, Bool.eq_iff_iff, testBit_smear_iff hm, decide_eq_true_iff]
      omega
  rw [hsmear, clog_two_add_one hm0]
  have := Nat.one_le_two_pow (n := m.log2 + 1)
  omega

/-- Bit `h` of `q` is the one above the `h` lowest bits of `q` mod `2^(h+1)`. -/
theorem div_two_pow_mod_two (q h : ℕ) : q / 2 ^ h % 2 = q % 2 ^ (h + 1) / 2 ^ h := by
  rw [pow_succ, Nat.mod_mul_right_div_self]

/-- The `h` low bits of `q` are those of its `h + 1` low bits. -/
theorem mod_two_pow_of_mod_succ {q x h : ℕ} (hq : q % 2 ^ (h + 1) = x) : q % 2 ^ h = x % 2 ^ h := by
  rw [← hq, Nat.mod_mod_of_dvd _ (Nat.pow_dvd_pow 2 (Nat.le_succ h))]

/-- The `k` lowest binary digits of `i` in reverse order: bit `0` is bit
    `k - 1` of `i`. -/
def revBits : ℕ → ℕ → ℕ
  | 0, _ => 0
  | k + 1, i => i / 2 ^ k % 2 + 2 * revBits k (i % 2 ^ k)

theorem revBits_lt : ∀ (k i : ℕ), revBits k i < 2 ^ k
  | 0, _ => by simp [revBits]
  | k + 1, i => by
    have := revBits_lt k (i % 2 ^ k)
    rw [revBits, pow_succ]
    omega

@[simp] theorem revBits_succ_mod_two (k i : ℕ) : revBits (k + 1) i % 2 = i / 2 ^ k % 2 := by
  rw [revBits]
  omega

@[simp] theorem revBits_succ_div_two (k i : ℕ) : revBits (k + 1) i / 2 = revBits k (i % 2 ^ k) := by
  rw [revBits]
  omega

/-- Below `2^k`, bit `k` of `i` is clear: the reversal one longer puts a `0` first. -/
theorem revBits_succ_of_lt {k i : ℕ} (hi : i < 2 ^ k) : revBits (k + 1) i = 2 * revBits k i := by
  rw [revBits, Nat.div_eq_of_lt hi, Nat.mod_eq_of_lt hi]
  simp

/-- Bit `k` of `i + 2^k` is set, for `i < 2^k`: the reversal one longer puts a `1` first. -/
theorem revBits_succ_add {k i : ℕ} (hi : i < 2 ^ k) :
    revBits (k + 1) (i + 2 ^ k) = 2 * revBits k i + 1 := by
  have hdiv : (i + 2 ^ k) / 2 ^ k = 1 := by
    rw [Nat.add_div_right _ (Nat.two_pow_pos k), Nat.div_eq_of_lt hi]
  rw [revBits, hdiv, Nat.add_mod_right, Nat.mod_eq_of_lt hi]
  omega

/-- Bit `d` of `revBits k i` is bit `k - 1 - d` of `i`, for `d < k`. -/
theorem testBit_revBits : ∀ (k i d : ℕ),
    (revBits k i).testBit d = (decide (d < k) && i.testBit (k - 1 - d))
  | 0, i, d => by simp [revBits]
  | k + 1, i, 0 => by
    rw [testBit_zero, revBits_succ_mod_two, testBit_eq_decide_div_mod_eq]
    simp
  | k + 1, i, d + 1 => by
    rw [testBit_add_one, revBits_succ_div_two, testBit_revBits k, testBit_mod_two_pow]
    by_cases hd : d < k
    · have hlt : k - 1 - d < k := by omega
      have hsucc : d + 1 < k + 1 := by omega
      simp only [hd, hlt, hsucc, decide_true, Bool.true_and]
      congr 1
      omega
    · have : ¬d + 1 < k + 1 := by omega
      simp only [hd, this, decide_false, Bool.false_and]

end Nat
