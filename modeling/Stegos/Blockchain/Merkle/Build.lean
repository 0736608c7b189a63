import Stegos.Blockchain.Merkle

/-!
# The tree of a list

What `from_array` builds of `1 ≤ n ≤ 2^32 - 1` values is `build (clog 2 n)`
(`fromArray_eq_build`): at height `k`, the first `2^(k-1)` values under the
left child and the others, if any, under the right one, a left child alone
being hashed as if paired with itself.

* The stacks of `from_array` are a binary counter (`Stack`): trees of `2^h`
  values at heights `h` growing strictly from the top, one for each set bit of
  the number of values pushed. Pushing a leaf and merging equal heights keeps
  that (`pullEqual_push`); the final loop folds the stack into one tree whose
  height `H` has `n ≤ 2^H < 2n` (`pullRest_top`), which is what
  `expected_height` computes (`expectedHeight_toNat`).
* The tree validates (`validateR_build`), its leaves are the values in order,
  the `i`-th with the path of the bits of `i` reversed over the height
  (`leafsR_build`), and a lookup on that path finds the `i`-th value
  (`lookupR_build`).
* A lone left child hashed as if paired with itself gives its parent the hash
  of a pair of equal children, so `[a, b, c]` and `[a, b, c, c]` have one root
  hash, whatever the hasher.
-/

namespace Stegos.Merkle

variable {T D : Type} (κ : Hasher T D)

/-- The leaf of a value. -/
def leaf (value : T) : Node T D := ⟨leafHash κ value, none, none, some value⟩

/-- The node `pull` makes of two nodes. -/
def innerNode (left right : Node T D) : Node T D :=
  ⟨innerHash κ left.hash right.hash, some left, some right, none⟩

/-- The node `pull_left` makes of one node. -/
def leftNode (left : Node T D) : Node T D :=
  ⟨innerHash κ left.hash left.hash, some left, none, none⟩

/-- The tree of the values `xs` at height `k`, for `1 ≤ |xs| ≤ 2^k`. -/
def build : ℕ → List T → Node T D
  | 0, [] => ⟨κ.zero, none, none, none⟩
  | 0, value :: _ => leaf κ value
  | k + 1, xs =>
    if xs.length ≤ 2 ^ k then leftNode κ (build k xs)
    else innerNode κ (build k (xs.take (2 ^ k))) (build k (xs.drop (2 ^ k)))

theorem build_succ_of_le {k : ℕ} {xs : List T} (h : xs.length ≤ 2 ^ k) :
    build κ (k + 1) xs = leftNode κ (build κ k xs) := by
  rw [build, if_pos h]

theorem build_succ_append {k : ℕ} {C X : List T} (hC : C.length = 2 ^ k) (hX : X ≠ []) :
    build κ (k + 1) (C ++ X) = innerNode κ (build κ k C) (build κ k X) := by
  have hlen : ¬(C ++ X).length ≤ 2 ^ k := by
    have := List.length_pos_iff.2 hX
    simp only [List.length_append]
    omega
  rw [build, if_neg hlen, List.take_left' hC, List.drop_left' hC]

/-! ### The stacks of `from_array` -/

/-- A height one more than `h`, below the wrap of `u8`. -/
theorem Height.toNat_succ {h : Height} (hh : h.toNat < 255) : (h + 1).toNat = h.toNat + 1 := by
  rw [UInt8.toNat_add, UInt8.toNat_one]
  omega

/-- A height whose tree holds fewer than `2^32` values is below `32`. -/
theorem Height.toNat_lt_of_pow {h : Height} {n : ℕ} (hpow : 2 ^ h.toNat ≤ n) (hn : n < 2 ^ 32) :
    h.toNat < 32 := by
  by_contra hge
  have : 2 ^ 32 ≤ 2 ^ h.toNat := Nat.pow_le_pow_right (by omega) (by omega)
  omega

/-- The stacks of `from_array` holding the values `xs`, from the bottom tree
    up: each tree holds `2^h` values at its height `h`, and the heights grow
    strictly from the top down. -/
inductive Stack : List (Node T D) → List Height → List T → Prop
  | nil : Stack [] [] []
  | push {nodes : List (Node T D)} {heights : List Height} {xs : List T} (h : Height)
      (X : List T) (hX : X.length = 2 ^ h.toNat) (hlt : ∀ h' ∈ heights.head?, h < h')
      (rest : Stack nodes heights xs) :
      Stack (build κ h.toNat X :: nodes) (h :: heights) (xs ++ X)

theorem Stack.length_eq {nodes : List (Node T D)} {heights : List Height} {xs : List T}
    (hst : Stack κ nodes heights xs) : nodes.length = heights.length := by
  induction hst with
  | nil => rfl
  | push _ _ _ _ _ ih => simp [ih]

/-- Pushing a tree of `2^h` values no higher than the top, then merging the
    trees of equal height on top, leaves a stack. -/
theorem pullEqual_push {nodes : List (Node T D)} {heights : List Height} {xs : List T}
    (hst : Stack κ nodes heights xs) :
    ∀ (h : Height) (X : List T), X.length = 2 ^ h.toNat → (∀ h' ∈ heights.head?, h ≤ h') →
      (xs ++ X).length < 2 ^ 32 →
      ∃ nodes' heights', pullEqual κ (build κ h.toNat X :: nodes) (h :: heights) =
        .ok (nodes', heights') ∧ Stack κ nodes' heights' (xs ++ X) := by
  induction hst with
  | nil =>
    intro h X hX _ _
    exact ⟨_, _, pullEqual_of_length_le κ _ (by simp), .push h X hX (by simp) .nil⟩
  | @push nodes heights xs h₁ C hC hlt rest ih =>
    intro h X hX hle hlen
    have hle : h ≤ h₁ := hle h₁ rfl
    rcases (UInt8.le_iff_lt_or_eq).1 hle with hlt' | rfl
    · -- the new tree is lower than the top: the loop stops
      have hne : h₁ ≠ h := by
        rintro rfl
        exact absurd (UInt8.lt_iff_toNat_lt.1 hlt') (Nat.lt_irrefl _)
      rw [pullEqual_of_ne κ _ _ _ _ hne]
      exact ⟨_, _, rfl, .push h X hX (by simpa using hlt') (.push h₁ C hC hlt rest)⟩
    · -- two trees of one height: `pull` merges them one higher
      have hCX : (C ++ X).length = 2 ^ (h.toNat + 1) := by
        rw [List.length_append, hC, hX, pow_succ]
        omega
      have hsmall : h.toNat < 32 :=
        Height.toNat_lt_of_pow (n := (xs ++ C ++ X).length) (by simp [hX]; omega) hlen
      have hsucc := Height.toNat_succ (h := h) (by omega)
      have hX0 : X ≠ [] := List.ne_nil_of_length_pos (by rw [hX]; exact Nat.two_pow_pos _)
      have hpull : pull κ (build κ h.toNat X :: build κ h.toNat C :: nodes) (h :: h :: heights) =
          .ok (build κ (h + 1).toNat (C ++ X) :: nodes, (h + 1) :: heights) := by
        rw [hsucc, build_succ_append κ hC hX0]
        exact (pull_eq_ok κ).2 ⟨_, _, _, _, _, rfl, rfl, rest.length_eq κ, rfl⟩
      rw [pullEqual_of_pull κ hpull]
      have hhead : ∀ h' ∈ heights.head?, h + 1 ≤ h' := by
        intro h' hh'
        have := hlt h' hh'
        rw [UInt8.lt_iff_toNat_lt] at this
        rw [UInt8.le_iff_toNat_le, hsucc]
        omega
      obtain ⟨nodes', heights', hres, hst'⟩ :=
        ih (h + 1) (C ++ X) (by rw [hCX, hsucc]) hhead (by simpa using hlen)
      exact ⟨nodes', heights', hres, by simpa using hst'⟩

/-- The final loop of `from_array` folds a stack under a tree of at most `2^h`
    values at height `h` into one tree, of a height `H` with `n ≤ 2^H < 2n` for
    the `n` values of the stack. -/
theorem pullRest_top {nodes : List (Node T D)} {heights : List Height} {xs : List T}
    (hst : Stack κ nodes heights xs) :
    ∀ (h : Height) (X : List T), X ≠ [] → X.length ≤ 2 ^ h.toNat →
      (∀ h' ∈ heights.head?, h ≤ h') → (heights = [] → 2 ^ h.toNat < 2 * X.length) →
      (xs ++ X).length < 2 ^ 32 →
      ∃ H : Height, pullRest κ (build κ h.toNat X :: nodes) (h :: heights) =
        .ok ([build κ H.toNat (xs ++ X)], [H]) ∧
        (xs ++ X).length ≤ 2 ^ H.toNat ∧ 2 ^ H.toNat < 2 * (xs ++ X).length := by
  induction hst with
  | nil =>
    intro h X _ hle _ htop _
    exact ⟨h, pullRest_of_length_le κ _ (by simp), by simpa using hle, by simpa using htop rfl⟩
  | @push nodes heights xs h₁ C hC hlt rest ih =>
    intro h X hX hXle hle _ hlen
    obtain ⟨d, hd⟩ : ∃ d, h₁.toNat = h.toNat + d :=
      ⟨h₁.toNat - h.toNat, by have := UInt8.le_iff_toNat_le.1 (hle h₁ rfl); omega⟩
    -- each `pull_left` raises the top by one, until it meets the tree below
    induction d generalizing h with
    | zero =>
      obtain rfl : h = h₁ := UInt8.toNat_inj.1 (by omega)
      have hsmall : h.toNat < 32 :=
        Height.toNat_lt_of_pow (n := (xs ++ C ++ X).length) (by simp [hC]; omega) hlen
      have hsucc := Height.toNat_succ (h := h) (by omega)
      have hpull : pull κ (build κ h.toNat X :: build κ h.toNat C :: nodes) (h :: h :: heights) =
          .ok (build κ (h + 1).toNat (C ++ X) :: nodes, (h + 1) :: heights) := by
        rw [hsucc, build_succ_append κ hC hX]
        exact (pull_eq_ok κ).2 ⟨_, _, _, _, _, rfl, rfl, rest.length_eq κ, rfl⟩
      rw [pullRest_of_pull κ hpull]
      have hX1 := List.length_pos_iff.2 hX
      have hhead : ∀ h' ∈ heights.head?, h + 1 ≤ h' := by
        intro h' hh'
        have := hlt h' hh'
        rw [UInt8.lt_iff_toNat_lt] at this
        rw [UInt8.le_iff_toNat_le, hsucc]
        omega
      obtain ⟨H, hres, hH⟩ := ih (h + 1) (C ++ X) (by simp [hX])
        (by rw [hsucc, List.length_append, hC, pow_succ]; omega) hhead
        (fun _ => by rw [hsucc, List.length_append, hC, pow_succ]; omega) (by simpa using hlen)
      exact ⟨H, by simpa using hres, by simpa using hH⟩
    | succ d ihd =>
      have hne : h₁ ≠ h := by
        rintro rfl
        omega
      have hsucc := Height.toNat_succ (h := h) (by have := h₁.toNat_lt; omega)
      have hpull : pullLeft κ (build κ h.toNat X :: build κ h₁.toNat C :: nodes) (h :: h₁ :: heights) =
          .ok (build κ (h + 1).toNat X :: build κ h₁.toNat C :: nodes, (h + 1) :: h₁ :: heights) := by
        rw [hsucc, build_succ_of_le κ hXle]
        exact (pullLeft_eq_ok κ).2
          ⟨_, _, _, _, _, _, rfl, rfl, hne, rest.length_eq κ, rfl⟩
      rw [pullRest_of_pullLeft κ hpull]
      refine ihd (h + 1) (by rw [hsucc, pow_succ]; omega) (fun h' hh' => ?_) (by simp)
        (by rw [hsucc]; omega)
      obtain rfl : h' = h₁ := by simpa using hh'.symm
      rw [UInt8.le_iff_toNat_le, hsucc]
      omega

/-- The `for` loop of `from_array` pushes each value onto the stack. -/
theorem foldlM_pushLeaf {nodes : List (Node T D)} {heights : List Height} {pre : List T}
    (hst : Stack κ nodes heights pre) :
    ∀ src : List T, (pre ++ src).length < 2 ^ 32 →
      ∃ nodes' heights', src.foldlM (pushLeaf κ) (nodes, heights) = .ok (nodes', heights') ∧
        Stack κ nodes' heights' (pre ++ src) := by
  intro src
  induction src generalizing nodes heights pre with
  | nil => exact fun _ => ⟨_, _, rfl, by simpa using hst⟩
  | cons x src ih =>
    intro hlen
    obtain ⟨nodes₁, heights₁, hpush, hst₁⟩ := pullEqual_push κ hst 0 [x] (by simp)
      (fun h' _ => UInt8.le_iff_toNat_le.2 (Nat.zero_le _)) (by simp at hlen ⊢; omega)
    obtain ⟨nodes', heights', hrest, hst'⟩ := ih hst₁ (by simpa using hlen)
    refine ⟨nodes', heights', ?_, by simpa using hst'⟩
    rw [List.foldlM_cons]
    exact (Except.bind_eq_ok).2 ⟨_, hpush, hrest⟩

/-! ### The height check -/

theorem nextPow2_toNat {n : ℕ} (h1 : 1 ≤ n) (h2 : n ≤ 2 ^ 63) :
    (nextPow2 n.toUInt64).toNat = 2 ^ Nat.clog 2 n := by
  have hn : n.toUInt64.toNat = n := UInt64.toNat_ofNat_of_lt' (by unfold UInt64.size; omega)
  have hsub : (n.toUInt64 - 1).toNat = n - 1 := by
    rw [UInt64.toNat_sub_of_le _ _ (UInt64.le_iff_toNat_le.2 (by simp [hn]; omega)), hn]
    rfl
  have hsmear := Nat.smear_add_one (m := n - 1) (k := 6) (by omega)
  rw [Nat.sub_add_cancel h1] at hsmear
  have hclog : Nat.clog 2 n ≤ 63 := Nat.clog_le_of_le_pow h2
  have hpow : 2 ^ Nat.clog 2 n < 2 ^ 64 := Nat.pow_lt_pow_right (by omega) (by omega)
  simp only [Nat.smear, Nat.reducePow] at hsmear
  simp only [nextPow2, UInt64.toNat_add, UInt64.toNat_or, UInt64.toNat_shiftRight, hsub,
    UInt64.toNat_one, UInt64.reduceToNat, Nat.reduceMod]
  rw [hsmear]
  exact Nat.mod_eq_of_lt hpow

theorem trailingZeros_of_toNat {x : UInt64} {L : ℕ} (hL : L < 64) (hx : x.toNat = 2 ^ L) :
    trailingZeros x = L := by
  have hfind : (List.range 64).find? x.toNat.testBit = some L := by
    rw [List.find?_range_eq_some, hx]
    refine ⟨by simp, List.mem_range.2 hL, fun j hj => ?_⟩
    simp [Nat.ne_of_gt hj]
  simp [trailingZeros, hfind]

/-- `expected_height` is the height rounded up of the binary logarithm. -/
theorem expectedHeight_toNat {n : ℕ} (h1 : 1 ≤ n) (h2 : n ≤ 2 ^ 32 - 1) :
    (expectedHeight n.toUInt64).toNat = Nat.clog 2 n := by
  have hclog : Nat.clog 2 n ≤ 32 := Nat.clog_le_of_le_pow (by omega)
  rw [expectedHeight, trailingZeros_of_toNat (by omega) (nextPow2_toNat h1 (by omega))]
  exact UInt8.toNat_ofNat_of_lt' (by unfold UInt8.size; omega)

/-- The final loop of `from_array` folds a stack of values into one tree. -/
theorem pullRest_stack {nodes : List (Node T D)} {heights : List Height} {xs : List T}
    (hst : Stack κ nodes heights xs) (hne : xs ≠ []) (hlen : xs.length < 2 ^ 32) :
    ∃ H : Height, pullRest κ nodes heights = .ok ([build κ H.toNat xs], [H]) ∧
      xs.length ≤ 2 ^ H.toNat ∧ 2 ^ H.toNat < 2 * xs.length := by
  -- the stack is not empty: its top tree is the last one pushed, of `2^h` values
  cases hst with
  | nil => exact absurd rfl hne
  | @push nodes heights xs h X hX hlt rest =>
    have hX0 : X ≠ [] := List.ne_nil_of_length_pos (by rw [hX]; exact Nat.two_pow_pos _)
    exact pullRest_top κ rest h X hX0 hX.le
      (fun h' hh' => UInt8.le_iff_toNat_le.2 (Nat.le_of_lt (UInt8.lt_iff_toNat_lt.1 (hlt h' hh'))))
      (fun _ => by rw [hX]; have := Nat.two_pow_pos h.toNat; omega) hlen

/-- `from_array` of `1 ≤ n ≤ 2^32 - 1` values builds their tree at height
    `clog 2 n`. -/
theorem fromArray_eq_build {src : List T} (hne : src ≠ []) (hlen : src.length ≤ 2 ^ 32 - 1) :
    fromArray κ src = .ok ⟨build κ (Nat.clog 2 src.length) src⟩ := by
  obtain ⟨nodes, heights, hfold, hst⟩ := foldlM_pushLeaf κ .nil src (by simp; omega)
  rw [List.nil_append] at hst
  obtain ⟨H, hrest, hle, hlt⟩ := pullRest_stack κ hst hne (by omega)
  have hH : H.toNat = Nat.clog 2 src.length := (Nat.clog_two_eq_of_pow hle hlt).symm
  have hexp : expectedHeight src.length.toUInt64 = H := by
    rw [← UInt8.toNat_inj, hH, expectedHeight_toNat (List.length_pos_iff.2 hne) hlen]
  have hlen0 : src.length ≠ 0 := by simpa using hne
  simp only [fromArray, check, hlen, if_true, hlen0, if_false, hfold, hrest, hexp, pop, unwrap,
    expect, bind, Except.bind, pure, Except.pure, List.length_cons, List.length_nil,
    List.head?_cons, List.tail_cons, hH]

/-! ### Validation, leaves and lookups -/

/-- Every node of a built tree carries the hash its children give it. -/
theorem validateR_build [DecidableEq D] : ∀ (k : ℕ) (xs : List T), validateR κ (build κ k xs) = .ok ()
  | 0, [] => rfl
  | 0, _ :: _ => by simp [build, leaf, validateR, checkHash]
  | k + 1, xs => by
    rw [build]
    split
    · simp [leftNode, validateR, validateR_build k, checkHash, bind, Except.bind]
    · simp [innerNode, validateR, validateR_build k, checkHash, bind, Except.bind]

/-- The leaves of a built tree, from a node at depth `h` reached by the turns
    `path`: its values in order, the `j`-th with the bits of `j` reversed over
    the height set above those turns. -/
theorem leafsR_build : ∀ (k : ℕ) (xs : List T) (path : UInt32) (h : Height), xs ≠ [] →
    xs.length ≤ 2 ^ k → h.toNat + k ≤ 32 → path.toNat < 2 ^ h.toNat →
    leafsR (build κ k xs) path h =
      .ok (xs.mapIdx fun j x => (x, ⟨(path.toNat + 2 ^ h.toNat * Nat.revBits k j).toUInt32⟩))
  | 0, [x], path, h, _, _, _, _ => by
    simp [build, leaf, leafsR, Nat.revBits, pure, Except.pure]
  | 0, [], _, _, hne, _, _, _ => absurd rfl hne
  | 0, _ :: _ :: _, _, _, _, hlen, _, _ => by simp at hlen
  | k + 1, xs, path, h, hne, hlen, hdepth, hpath => by
    have hsucc := Height.toNat_succ (h := h) (by omega)
    rw [build]
    split
    · -- all values under the left child: bit `h` of each path is clear
      rename_i hle
      have hpath' : path.toNat < 2 ^ (h + 1).toNat := by
        rw [hsucc, pow_succ]
        omega
      rw [leftNode, leafsR, leafsR_build k xs path (h + 1) hne hle (by omega) hpath']
      congr 1
      refine List.mapIdx_eq_mapIdx_iff.2 fun j hj => ?_
      rw [hsucc, Nat.revBits_succ_of_lt (by omega), pow_succ, Nat.mul_assoc]
    · -- the first `2^k` values under the left child, the others under the right one
      rename_i hgt
      have htake : (xs.take (2 ^ k)).length = 2 ^ k := by simp; omega
      have hdrop : (xs.drop (2 ^ k)).length ≤ 2 ^ k := by
        simp only [List.length_drop]
        rw [pow_succ] at hlen
        omega
      have hdrop0 : xs.drop (2 ^ k) ≠ [] := by simp; omega
      have htake0 : xs.take (2 ^ k) ≠ [] := by simp [List.take_eq_nil_iff]; omega
      have hor := toNat_or_shiftLeft (h := h) (by omega) hpath
      have hpathL : path.toNat < 2 ^ (h + 1).toNat := by
        rw [hsucc, pow_succ]
        omega
      have hpathR : (path ||| 1 <<< h.toUInt32).toNat < 2 ^ (h + 1).toNat := by
        rw [hor, hsucc, pow_succ]
        omega
      rw [innerNode, leafsR, leafsR_build k _ path (h + 1) htake0 htake.le (by omega) hpathL,
        leafsR_build k _ _ (h + 1) hdrop0 hdrop (by omega) hpathR]
      simp only [bind, Except.bind, pure, Except.pure, Except.ok.injEq]
      conv_rhs => rw [← List.take_append_drop (2 ^ k) xs, List.mapIdx_append]
      congr 1
      · refine List.mapIdx_eq_mapIdx_iff.2 fun j hj => ?_
        rw [htake] at hj
        rw [hsucc, Nat.revBits_succ_of_lt hj, pow_succ, Nat.mul_assoc]
      · refine List.mapIdx_eq_mapIdx_iff.2 fun j hj => ?_
        have hj' : j < 2 ^ k := lt_of_lt_of_le hj hdrop
        rw [htake, hor, hsucc, Nat.revBits_succ_add hj', pow_succ, Nat.mul_add, Nat.mul_one,
          Nat.mul_assoc]
        congr 3
        omega

/-- A lookup in a built tree, on a path whose `k` low bits are those of `i`
    reversed, finds the `i`-th value. -/
theorem lookupR_build : ∀ (k : ℕ) (xs : List T) (i : ℕ) (hi : i < xs.length) (path : UInt32),
    xs.length ≤ 2 ^ k → path.toNat % 2 ^ k = Nat.revBits k i →
    lookupR (build κ k xs) path = .ok (some xs[i])
  | 0, [x], 0, _, path, _, _ => by
    simp [build, leaf, lookupR]
  | 0, [], _, hi, _, _, _ => by simp at hi
  | 0, [_], _ + 1, hi, _, _, _ => by simp at hi
  | 0, _ :: _ :: _, _, _, _, hlen, _ => by simp at hlen
  | k + 1, xs, i, hi, path, hlen, hpath => by
    -- the turn at the root is bit `k` of `i`, and the path below is `path / 2`
    have hbit : path.toNat % 2 = Nat.revBits (k + 1) i % 2 := by
      rw [← hpath, Nat.mod_mod_of_dvd _ (Dvd.intro_left _ (pow_succ 2 k).symm)]
    have hbelow : (path >>> 1).toNat % 2 ^ k = Nat.revBits (k + 1) i / 2 := by
      rw [toNat_shiftRight_one, ← hpath, pow_succ, Nat.mul_comm, Nat.mod_mul_right_div_self]
    rw [build]
    split
    · -- a left child alone: `i < 2^k`, and the turn is to the left
      rename_i hle
      have hik : i < 2 ^ k := by omega
      rw [Nat.revBits_succ_of_lt hik] at hbit hbelow
      have hleft : (path &&& 1 == 0) = true := by
        rw [leftDirection_eq, hbit]
        simp
      simp only [leftNode, lookupR, hleft]
      exact lookupR_build k xs i hi _ hle (by rw [hbelow]; omega)
    · rename_i hgt
      have htake : (xs.take (2 ^ k)).length = 2 ^ k := by simp; omega
      by_cases hik : i < 2 ^ k
      · -- to the left, among the first `2^k` values
        rw [Nat.revBits_succ_of_lt hik] at hbit hbelow
        have hleft : (path &&& 1 == 0) = true := by
          rw [leftDirection_eq, hbit]
          simp
        simp only [innerNode, lookupR, hleft]
        rw [lookupR_build k _ i (by omega) _ htake.le (by rw [hbelow]; omega), List.getElem_take]
      · -- to the right, among the others
        obtain ⟨j, rfl⟩ : ∃ j, i = j + 2 ^ k := ⟨i - 2 ^ k, by omega⟩
        have hj : j < 2 ^ k := by rw [pow_succ] at hlen; omega
        rw [Nat.revBits_succ_add hj] at hbit hbelow
        have hright : (path &&& 1 == 0) = false := by
          rw [leftDirection_eq, hbit]
          simp
        simp only [innerNode, lookupR, hright]
        have hdrop : (xs.drop (2 ^ k)).length ≤ 2 ^ k := by
          simp only [List.length_drop]
          rw [pow_succ] at hlen
          omega
        rw [lookupR_build k _ j (by simp; omega) _ hdrop (by rw [hbelow]; omega), List.getElem_drop]
        simp only [Nat.add_comm (2 ^ k) j]

/-! ### `from_array` -/

/-- `from_array` of `1 ≤ n ≤ 2^32 - 1` values does not panic: its height is
    `clog 2 n`, as `expected_height` computes; the tree validates, its leaves are
    the values in order, the `i`-th with the path whose bits from bit `0` are
    those of `i` from the highest over the height (`Nat.testBit_revBits`), and a
    lookup on that path finds the `i`-th value. -/
theorem fromArray_correct [DecidableEq D] (src : List T) (hne : src ≠ [])
    (hlen : src.length ≤ 2 ^ 32 - 1) :
    (expectedHeight src.length.toUInt64).toNat = Nat.clog 2 src.length ∧
    ∃ t, fromArray κ src = .ok t ∧ validate κ t = .ok () ∧
      leafs t = .ok (src.mapIdx fun i x => (x, ⟨(Nat.revBits (Nat.clog 2 src.length) i).toUInt32⟩)) ∧
      ∀ i (hi : i < src.length),
        lookup t ⟨(Nat.revBits (Nat.clog 2 src.length) i).toUInt32⟩ = .ok (some src[i]) := by
  have hpos := List.length_pos_iff.2 hne
  have hH : Nat.clog 2 src.length ≤ 32 := Nat.clog_le_of_le_pow (by omega)
  have hfit : src.length ≤ 2 ^ Nat.clog 2 src.length := Nat.le_pow_clog Nat.one_lt_two _
  refine ⟨expectedHeight_toNat hpos hlen, _, fromArray_eq_build κ hne hlen,
    validateR_build κ _ _, ?_, fun i hi => ?_⟩
  · have := leafsR_build κ (Nat.clog 2 src.length) src 0 0 hne hfit (by simpa using hH) (by simp)
    simpa [leafs] using this
  · -- the reversed bits of `i` fit in the `2^32` paths
    have hrev : (Nat.revBits (Nat.clog 2 src.length) i).toUInt32.toNat =
        Nat.revBits (Nat.clog 2 src.length) i := by
      have := Nat.revBits_lt (Nat.clog 2 src.length) i
      have : 2 ^ Nat.clog 2 src.length ≤ 2 ^ 32 := Nat.pow_le_pow_right (by omega) hH
      exact UInt32.toNat_ofNat_of_lt' (by unfold UInt32.size; omega)
    exact lookupR_build κ _ src i hi _ hfit
      (by rw [hrev]; exact Nat.mod_eq_of_lt (Nat.revBits_lt _ _))

/-- Three values, hashed by the length of what the hasher is fed. -/
theorem fromArray_correct_three :
    ([1, 2, 3] : List ℕ) ≠ [] ∧ [1, 2, 3].length ≤ 2 ^ 32 - 1 ∧
    (expectedHeight [1, 2, 3].length.toUInt64).toNat = Nat.clog 2 [1, 2, 3].length ∧
    ∃ t, fromArray (⟨List.length, 0⟩ : Hasher ℕ ℕ) [1, 2, 3] = .ok t ∧
      validate ⟨List.length, 0⟩ t = .ok () ∧
      leafs t = .ok ([1, 2, 3].mapIdx fun i x =>
        (x, ⟨(Nat.revBits (Nat.clog 2 [1, 2, 3].length) i).toUInt32⟩)) ∧
      ∀ i (hi : i < [1, 2, 3].length),
        lookup t ⟨(Nat.revBits (Nat.clog 2 [1, 2, 3].length) i).toUInt32⟩ = .ok (some [1, 2, 3][i]) :=
  ⟨by decide, by decide, fromArray_correct ⟨List.length, 0⟩ [1, 2, 3] (by decide) (by decide)⟩

/-! ### The root hash of a list -/

/-- What a hasher of numbers is fed, as numbers: a string by its characters. -/
def HashInput.code : HashInput ℕ ℕ → List ℕ ⊕ ℕ ⊕ ℕ
  | .str s => .inl (s.toList.map Char.toNat)
  | .hash h => .inr (.inl h)
  | .value v => .inr (.inr v)

theorem HashInput.code_injective : Function.Injective HashInput.code := by
  rintro (s | h | v) (s' | h' | v') he <;> simp [HashInput.code] at he ⊢
  · exact String.toList_inj.1 ((List.map_injective_iff.2 fun _ _ => Char.toNat_inj.1) he)
  · exact he
  · exact he

/-- A hasher of numbers injective on what it is fed. -/
theorem exists_injective_hasher : ∃ κ : Hasher ℕ ℕ, Function.Injective κ.result := by
  have : Countable (HashInput ℕ ℕ) := HashInput.code_injective.countable
  obtain ⟨f, hf⟩ := Countable.exists_injective_nat (List (HashInput ℕ ℕ))
  exact ⟨⟨f, 0⟩, hf⟩

/-- The root hash does not bind the list, even for a hasher injective on what
    it is fed: whatever the hasher, `[a, b, c]` and `[a, b, c, c]` have one root
    hash, the lone `c` of the first being hashed as if paired with itself. -/
theorem rootHashFromArray_collision :
    (∃ κ : Hasher ℕ ℕ, Function.Injective κ.result) ∧
    ∀ (κ : Hasher T D) (a b c : T), [a, b, c] ≠ [a, b, c, c] ∧
      ∃ r, rootHashFromArray κ [a, b, c] = .ok r ∧ rootHashFromArray κ [a, b, c, c] = .ok r := by
  refine ⟨exists_injective_hasher, fun κ a b c => ⟨by simp, (build κ 2 [a, b, c]).hash, ?_, ?_⟩⟩
  · have h3 : Nat.clog 2 3 = 2 := Nat.clog_two_eq_of_pow (by decide) (by decide)
    rw [rootHashFromArray, fromArray_eq_build κ (by simp) (by simp)]
    simp [h3, roothash, bind, Except.bind, pure, Except.pure]
  · have h4 : Nat.clog 2 4 = 2 := Nat.clog_two_eq_of_pow (by decide) (by decide)
    rw [rootHashFromArray, fromArray_eq_build κ (by simp) (by simp)]
    simp only [List.length_cons, List.length_nil, h4, roothash, bind, Except.bind, pure,
      Except.pure, Except.ok.injEq]
    -- `c` paired with itself, and `c` alone under a left child, give one hash
    rfl

end Stegos.Merkle
