import Stegos.Lib.Bits
import Stegos.Blockchain.Election

/-!
# The Merkle tree

`merkle.rs`: the tree over a list of values that blocks commit to
(`root_hash_from_array` of the inputs, outputs and transactions of a block), its
lookup and pruning of a value by path, its leaves, its validation, and its
serialization into a vector of nodes and back.

* A `Node` is the source's: a hash, two optional subtrees and an optional
  value. Four shapes are valid (both subtrees, a left one only, a leaf with a
  value, an empty node); `validate_r` rejects the others, and `lookup`,
  `prune_r`, `leafs_r` and `serialize_r` reach their `unreachable!()` on them.
* A `Hasher` is left abstract: the hash it returns is a function of what it was
  fed since `Hasher::new()`, the prefix `"Inner"` or `"Leaf"`, then the hashes
  of the children or the value.
* `from_array` keeps its two `Vec`s as stacks, lists whose head is the last
  element; `pull` merges the two nodes on top into one a level higher,
  `pull_left` pairs the top node with itself. Heights are `u8` and wrap, which
  makes the final loop of `from_array` terminate from any stack: a
  `pull_left` brings the top height closer to the one below it, modulo `256`.
* Paths are `u32`; `1 << h` shifts by `h mod 32`, as Rust does without
  overflow checks (the profile of the repository).
* A `Vec` that a function only pushes onto (`leafs_r`, `serialize_r`) is the
  list it returns; `deserialize` takes nodes out of a list of options.

A call ends with `Fault.panic` and the text of the panic, or with its result;
`deserialize` returns its `Result` inside, with `MerkleError`.
-/

namespace Stegos

/-- `Height`. -/
abbrev Height := UInt8

/-- `MerklePath`: bit `d` is the turn at depth `d`, `0` to the left and `1` to
    the right. -/
structure MerklePath where
  path : UInt32
  deriving DecidableEq, Repr

/-- What the tree feeds a `Hasher`. -/
inductive HashInput (T D : Type) where
  | str (s : String)
  | hash (h : D)
  | value (v : T)

/-- The `Hasher` of the tree: the hash of what it was fed (`result()`), and
    `Hash::zero()`. -/
structure Hasher (T D : Type) where
  result : List (HashInput T D) → D
  zero : D

namespace Merkle

/-- `Node`. -/
structure Node (T D : Type) where
  hash : D
  left : Option (Node T D)
  right : Option (Node T D)
  value : Option T

/-- `SerializedNode`: the children are indices into the vector. -/
structure SerializedNode (T D : Type) where
  hash : D
  left : Option ℕ
  right : Option ℕ
  value : Option T
  deriving DecidableEq

/-- `MerkleError`. -/
inductive MerkleError (D : Type) where
  | InvalidStructure
  | ValidationError (expected got : D)
  deriving DecidableEq

end Merkle

/-- `Merkle`. -/
structure Merkle (T D : Type) where
  root : Merkle.Node T D

namespace Merkle

/-- `INNER_PREFIX`. -/
def innerPrefix : String := "Inner"

/-- `LEAF_PREFIX`. -/
def leafPrefix : String := "Leaf"

/-- The text of `unreachable!()`. -/
def unreachableText : String := "internal error: entered unreachable code"

variable {T D : Type} (κ : Hasher T D)

/-- The hash of an inner node: `INNER_PREFIX`, then the hashes of its children
    (the left one twice in `pull_left`). -/
def innerHash (left right : D) : D := κ.result [.str innerPrefix, .hash left, .hash right]

/-- The hash of a leaf: `LEAF_PREFIX`, then the value. -/
def leafHash (value : T) : D := κ.result [.str leafPrefix, .value value]

/-! ### The height of a tree -/

/-- `next_pow2` on a `usize`. -/
def nextPow2 (n : UInt64) : UInt64 :=
  let n := n - 1
  let n := n ||| n >>> 1
  let n := n ||| n >>> 2
  let n := n ||| n >>> 4
  let n := n ||| n >>> 8
  let n := n ||| n >>> 16
  let n := n ||| n >>> 32
  n + 1

/-- `u64::trailing_zeros`: the zero bits below the lowest set one, `64` for zero. -/
def trailingZeros (n : UInt64) : ℕ := ((List.range 64).find? n.toNat.testBit).getD 64

/-- `expected_height`. -/
def expectedHeight (n : UInt64) : Height := (trailingZeros (nextPow2 n)).toUInt8

/-! ### Construction -/

/-- `Vec::pop().unwrap()`. -/
def pop {α : Type} (l : List α) : Except Fault (α × List α) := do
  let a ← unwrap l.head?
  pure (a, l.tail)

@[simp] theorem pop_cons {α : Type} (a : α) (l : List α) : pop (a :: l) = .ok (a, l) := rfl

/-- `Merkle::pull`: the two nodes on top, of one height, become the children of
    a node one higher. -/
def pull (nodes : List (Node T D)) (heights : List Height) :
    Except Fault (List (Node T D) × List Height) := do
  check (nodes.length = heights.length ∧ nodes.length > 1)
    "assertion failed: nodes.len() == heights.len() && nodes.len() > 1"
  check ((← index heights 1) = (← index heights 0)) "assertion failed: `(left == right)`"
  let (right, nodes) ← pop nodes
  let (left, nodes) ← pop nodes
  let (height, heights) ← pop heights
  let (height1, heights) ← pop heights
  check (height = height1) "assertion failed: `(left == right)`"
  let hash := innerHash κ left.hash right.hash
  let node : Node T D := ⟨hash, some left, some right, none⟩
  pure (node :: nodes, (height + 1) :: heights)

/-- `Merkle::pull_left`: the node on top, higher or lower than the one below
    it, becomes the left child of a node one higher, hashed as if paired with
    itself. -/
def pullLeft (nodes : List (Node T D)) (heights : List Height) :
    Except Fault (List (Node T D) × List Height) := do
  check (nodes.length = heights.length ∧ nodes.length > 1)
    "assertion failed: nodes.len() == heights.len() && nodes.len() > 1"
  check ((← index heights 1) ≠ (← index heights 0)) "assertion failed: `(left != right)`"
  let (left, nodes) ← pop nodes
  let (height, heights) ← pop heights
  let hash := innerHash κ left.hash left.hash
  let node : Node T D := ⟨hash, some left, none, none⟩
  pure (node :: nodes, (height + 1) :: heights)

/-- What `pull` does: it succeeds exactly on two nodes of one height on top of
    stacks of one length, and replaces them by their parent. -/
theorem pull_eq_ok {nodes : List (Node T D)} {heights : List Height} {r} :
    pull κ nodes heights = .ok r ↔ ∃ right left ns h hs, nodes = right :: left :: ns ∧
      heights = h :: h :: hs ∧ ns.length = hs.length ∧
      r = (⟨innerHash κ left.hash right.hash, some left, some right, none⟩ :: ns, (h + 1) :: hs) := by
  constructor
  · intro hp
    match nodes, heights with
    | right :: left :: ns, h₁ :: h₂ :: hs =>
      simp only [pull, check, index, expect, pop, unwrap, bind, Except.bind, pure, Except.pure,
        List.length_cons, List.getElem?_cons_succ, List.getElem?_cons_zero, List.head?_cons,
        List.tail_cons, Nat.add_right_cancel_iff, gt_iff_lt] at hp
      by_cases hlen : ns.length = hs.length
      · by_cases heq : h₂ = h₁
        · subst heq
          simp only [hlen, if_true, Nat.one_lt_succ_succ, and_self, Except.ok.injEq] at hp
          exact ⟨right, left, ns, h₂, hs, rfl, rfl, hlen, hp.symm⟩
        · simp [hlen, heq] at hp
      · simp [hlen] at hp
    | [], _ => simp [pull, check, bind, Except.bind] at hp
    | [_], _ => simp [pull, check, bind, Except.bind] at hp
    | _ :: _ :: _, [] => simp [pull, check, bind, Except.bind] at hp
    | _ :: _ :: _, [_] => simp [pull, check, bind, Except.bind] at hp
  · rintro ⟨right, left, ns, h, hs, rfl, rfl, hlen, rfl⟩
    simp [pull, check, index, expect, pop, unwrap, bind, Except.bind, pure, Except.pure, hlen]

/-- What `pull_left` does: it succeeds exactly on a node over one of another
    height, on top of stacks of one length, and raises it by one. -/
theorem pullLeft_eq_ok {nodes : List (Node T D)} {heights : List Height} {r} :
    pullLeft κ nodes heights = .ok r ↔ ∃ left below ns h h' hs, nodes = left :: below :: ns ∧
      heights = h :: h' :: hs ∧ h' ≠ h ∧ ns.length = hs.length ∧
      r = (⟨innerHash κ left.hash left.hash, some left, none, none⟩ :: below :: ns,
        (h + 1) :: h' :: hs) := by
  constructor
  · intro hp
    match nodes, heights with
    | left :: below :: ns, h :: h' :: hs =>
      simp only [pullLeft, check, index, expect, pop, unwrap, bind, Except.bind, pure, Except.pure,
        List.length_cons, List.getElem?_cons_succ, List.getElem?_cons_zero, List.head?_cons,
        List.tail_cons, Nat.add_right_cancel_iff, gt_iff_lt] at hp
      by_cases hlen : ns.length = hs.length
      · by_cases heq : h' = h
        · simp [hlen, heq] at hp
        · simp only [hlen, ne_eq, heq, not_false_eq_true, if_true, Nat.one_lt_succ_succ,
            and_self, Except.ok.injEq] at hp
          exact ⟨left, below, ns, h, h', hs, rfl, rfl, heq, hlen, hp.symm⟩
      · simp [hlen] at hp
    | [], _ => simp [pullLeft, check, bind, Except.bind] at hp
    | [_], _ => simp [pullLeft, check, bind, Except.bind] at hp
    | _ :: _ :: _, [] => simp [pullLeft, check, bind, Except.bind] at hp
    | _ :: _ :: _, [_] => simp [pullLeft, check, bind, Except.bind] at hp
  · rintro ⟨left, below, ns, h, h', hs, rfl, rfl, hne, hlen, rfl⟩
    simp [pullLeft, check, index, expect, pop, unwrap, bind, Except.bind, pure, Except.pure, hlen,
      hne]

theorem pull_length {nodes nodes' : List (Node T D)} {heights heights' : List Height}
    (h : pull κ nodes heights = .ok (nodes', heights')) : nodes'.length < nodes.length := by
  obtain ⟨_, _, ns, _, _, rfl, -, -, hr⟩ := (pull_eq_ok κ).1 h
  cases hr
  simp

/-- The gap between the top height and the one below it, which `pull_left`
    narrows modulo `256`. -/
def heightGap (heights : List Height) : ℕ := (heights.getD 1 0 - heights.getD 0 0).toNat

theorem pullLeft_gap {nodes nodes' : List (Node T D)} {heights heights' : List Height}
    (hp : pullLeft κ nodes heights = .ok (nodes', heights')) :
    nodes'.length = nodes.length ∧ heightGap heights' < heightGap heights := by
  obtain ⟨_, _, ns, h, h', hs, rfl, rfl, hne, -, hr⟩ := (pullLeft_eq_ok κ).1 hp
  cases hr
  refine ⟨rfl, ?_⟩
  simp only [heightGap, List.getD_cons_succ, List.getD_cons_zero]
  have hne' : h'.toNat ≠ h.toNat := fun e => hne (UInt8.toNat_inj.1 e)
  have := h.toNat_lt
  have := h'.toNat_lt
  simp only [UInt8.toNat_sub, UInt8.toNat_add, UInt8.toNat_one]
  omega

/-- The `while` loop in the body of the `for` loop of `from_array`: `pull`
    while the two nodes on top have one height. -/
def pullEqual (nodes : List (Node T D)) (heights : List Height) :
    Except Fault (List (Node T D) × List Height) :=
  if nodes.length > 1 then do
    if (← index heights 1) = (← index heights 0) then
      match h : pull κ nodes heights with
      | .ok (nodes', heights') =>
        have := pull_length κ h
        pullEqual nodes' heights'
      | .error e => .error e
    else pure (nodes, heights)
  else pure (nodes, heights)
termination_by nodes.length

/-- The last loop of `from_array`: `pull` two nodes of one height, or
    `pull_left` the node on top, until one node is left. -/
def pullRest (nodes : List (Node T D)) (heights : List Height) :
    Except Fault (List (Node T D) × List Height) :=
  if nodes.length > 1 then do
    if (← index heights 1) = (← index heights 0) then
      match h : pull κ nodes heights with
      | .ok (nodes', heights') =>
        have := pull_length κ h
        pullRest nodes' heights'
      | .error e => .error e
    else
      match h : pullLeft κ nodes heights with
      | .ok (nodes', heights') =>
        have := pullLeft_gap κ h
        pullRest nodes' heights'
      | .error e => .error e
  else pure (nodes, heights)
termination_by (nodes.length, heightGap heights)
decreasing_by
  · exact Prod.Lex.left _ _ this
  · rw [this.1]
    exact Prod.Lex.right _ this.2

/-- A `pull` that succeeds is the first turn of `pullEqual`. -/
theorem pullEqual_of_pull {nodes nodes' : List (Node T D)} {heights heights' : List Height}
    (hp : pull κ nodes heights = .ok (nodes', heights')) :
    pullEqual κ nodes heights = pullEqual κ nodes' heights' := by
  obtain ⟨right, left, ns, h, hs, rfl, rfl, -, -⟩ := (pull_eq_ok κ).1 hp
  rw [pullEqual]
  simp only [List.length_cons, gt_iff_lt, Nat.one_lt_succ_succ, if_true, index, expect,
    List.getElem?_cons_succ, List.getElem?_cons_zero, bind, Except.bind]
  split <;> simp_all

/-- `pullEqual` stops at two nodes of different heights on top. -/
theorem pullEqual_of_ne (top below : Node T D) (ns : List (Node T D)) {h h' : Height}
    (hs : List Height) (hne : h' ≠ h) :
    pullEqual κ (top :: below :: ns) (h :: h' :: hs) = .ok (top :: below :: ns, h :: h' :: hs) := by
  rw [pullEqual]
  simp [index, expect, bind, Except.bind, hne, pure, Except.pure]

/-- `pullEqual` stops at one node. -/
theorem pullEqual_of_length_le {nodes : List (Node T D)} (heights : List Height)
    (hlen : nodes.length ≤ 1) : pullEqual κ nodes heights = .ok (nodes, heights) := by
  rw [pullEqual, if_neg (by omega)]
  rfl

/-- A `pull` that succeeds is a turn of `pullRest`. -/
theorem pullRest_of_pull {nodes nodes' : List (Node T D)} {heights heights' : List Height}
    (hp : pull κ nodes heights = .ok (nodes', heights')) :
    pullRest κ nodes heights = pullRest κ nodes' heights' := by
  obtain ⟨right, left, ns, h, hs, rfl, rfl, -, -⟩ := (pull_eq_ok κ).1 hp
  rw [pullRest]
  simp only [List.length_cons, gt_iff_lt, Nat.one_lt_succ_succ, if_true, index, expect,
    List.getElem?_cons_succ, List.getElem?_cons_zero, bind, Except.bind]
  split <;> simp_all

/-- A `pull_left` that succeeds is a turn of `pullRest`. -/
theorem pullRest_of_pullLeft {nodes nodes' : List (Node T D)} {heights heights' : List Height}
    (hp : pullLeft κ nodes heights = .ok (nodes', heights')) :
    pullRest κ nodes heights = pullRest κ nodes' heights' := by
  obtain ⟨left, below, ns, h, h', hs, rfl, rfl, hne, -, -⟩ := (pullLeft_eq_ok κ).1 hp
  rw [pullRest]
  simp only [List.length_cons, gt_iff_lt, Nat.one_lt_succ_succ, if_true, index, expect,
    List.getElem?_cons_succ, List.getElem?_cons_zero, bind, Except.bind, hne, if_false]
  split <;> simp_all

/-- `pullRest` stops at one node. -/
theorem pullRest_of_length_le {nodes : List (Node T D)} (heights : List Height)
    (hlen : nodes.length ≤ 1) : pullRest κ nodes heights = .ok (nodes, heights) := by
  rw [pullRest, if_neg (by omega)]
  rfl

/-- The body of the `for` loop of `from_array`: a leaf for the value, pushed
    at height `0`, then merged with the nodes below it. -/
def pushLeaf (vecs : List (Node T D) × List Height) (value : T) :
    Except Fault (List (Node T D) × List Height) :=
  let (nodes, heights) := vecs
  let hash := leafHash κ value
  let node : Node T D := ⟨hash, none, none, some value⟩
  pullEqual κ (node :: nodes) (0 :: heights)

/-- `Merkle::from_array`. -/
def fromArray (src : List T) : Except Fault (Merkle T D) := do
  check (src.length ≤ 2 ^ 32 - 1) "assertion failed: src.len() <= Path::max_value() as usize"
  if src.length = 0 then
    return ⟨⟨κ.zero, none, none, none⟩⟩
  let (nodes, heights) ← src.foldlM (pushLeaf κ) ([], [])
  let (nodes, heights) ← pullRest κ nodes heights
  check (nodes.length = 1) "assertion failed: `(left == right)`"
  check (heights.length = 1) "assertion failed: `(left == right)`"
  let (root, _) ← pop nodes
  let (height, _) ← pop heights
  check (height = expectedHeight src.length.toUInt64) "assertion failed: `(left == right)`"
  pure ⟨root⟩

/-- `Merkle::roothash`. -/
def roothash (self : Merkle T D) : D := self.root.hash

/-- `Merkle::root_hash_from_array`. -/
def rootHashFromArray (src : List T) : Except Fault D := do
  let tree ← fromArray κ src
  pure tree.roothash

/-! ### Lookup and pruning -/

/-- The loop of `Merkle::lookup`, from `node` on: bit `0` of the path is the
    turn at `node`. -/
def lookupR (node : Node T D) (path : UInt32) : Except Fault (Option T) :=
  let leftDirection := path &&& 1 == 0
  let path := path >>> 1
  match node, leftDirection with
  | ⟨_, some left, _, none⟩, true => lookupR left path
  | ⟨_, _, some right, none⟩, false => lookupR right path
  | ⟨_, none, none, some value⟩, _ => .ok (some value)
  | ⟨_, _, _, none⟩, _ => .ok none
  | _, _ => .error (.panic unreachableText)

/-- `Merkle::lookup`. -/
def lookup (self : Merkle T D) (path : MerklePath) : Except Fault (Option T) :=
  lookupR self.root path.path

/-- Whether a subtree is missing or empty, as `prune_r` checks it. -/
def subtreeEmpty : Option (Node T D) → Bool
  | some node => node.left.isNone && node.right.isNone && node.value.isNone
  | none => true

/-- The end of `prune_r` after its recursive call: nothing more when the value
    was not found, else both subtrees cut off when both are empty. -/
def pruneSubtrees (node : Node T D) : Option T → Node T D × Option T
  | none => (node, none)
  | some value =>
    if subtreeEmpty node.left && subtreeEmpty node.right then
      ({ node with left := none, right := none }, some value)
    else (node, some value)

/-- `Merkle::prune_r`: the node with the value on the path taken out, and the
    value. -/
def pruneR : Node T D → UInt32 → Except Fault (Node T D × Option T)
  | ⟨hash, none, none, value⟩, _ => .ok (⟨hash, none, none, none⟩, value)
  | ⟨hash, left, right, value⟩, path =>
    if path &&& 1 == 0 then
      match left with
      | some left => do
        let (left, found) ← pruneR left (path >>> 1)
        pure (pruneSubtrees ⟨hash, some left, right, value⟩ found)
      | none => .error (.panic unreachableText)
    else
      match right with
      | some right => do
        let (right, found) ← pruneR right (path >>> 1)
        pure (pruneSubtrees ⟨hash, left, some right, value⟩ found)
      | none => .ok (⟨hash, left, right, value⟩, none)

/-- `Merkle::prune`. -/
def prune (self : Merkle T D) (path : MerklePath) : Except Fault (Merkle T D × Option T) := do
  let (root, found) ← pruneR self.root path.path
  pure (⟨root⟩, found)

/-! ### Leaves, validation and serialization -/

/-- `Merkle::leafs_r`: the values under `node` in order, with their paths;
    `path` holds the turns down to `node`, at depth `h`. -/
def leafsR : Node T D → UInt32 → Height → Except Fault (List (T × MerklePath))
  | ⟨_, some left, some right, none⟩, path, h => do
    let l ← leafsR left path (h + 1)
    let r ← leafsR right (path ||| 1 <<< h.toUInt32) (h + 1)
    pure (l ++ r)
  | ⟨_, some left, none, none⟩, path, h => leafsR left path (h + 1)
  | ⟨_, none, none, some value⟩, path, _ => pure [(value, ⟨path⟩)]
  | ⟨_, none, none, none⟩, _, _ => pure []
  | _, _, _ => .error (.panic unreachableText)

/-- The turn at a node: to the left on a clear bit `0`. -/
theorem leftDirection_eq (path : UInt32) : (path &&& 1 == 0) = decide (path.toNat % 2 = 0) := by
  rw [Bool.eq_iff_iff, beq_iff_eq, decide_eq_true_iff, ← UInt32.toNat_inj, UInt32.toNat_and,
    UInt32.toNat_one, Nat.and_one_is_mod, UInt32.toNat_zero]

/-- The path below a node: the bits above bit `0`. -/
theorem toNat_shiftRight_one (path : UInt32) : (path >>> 1).toNat = path.toNat / 2 := by
  rw [UInt32.toNat_shiftRight, UInt32.toNat_one, Nat.shiftRight_eq_div_pow]

/-- The path to a right child at depth `h < 32`: bit `h` set over the turns above. -/
theorem toNat_or_shiftLeft {path : UInt32} {h : Height} (hh : h.toNat < 32)
    (hp : path.toNat < 2 ^ h.toNat) : (path ||| 1 <<< h.toUInt32).toNat = path.toNat + 2 ^ h.toNat := by
  have hpow : 2 ^ h.toNat < 2 ^ 32 := Nat.pow_lt_pow_right (by omega) hh
  rw [UInt32.toNat_or, UInt32.toNat_shiftLeft, UInt32.toNat_one, UInt8.toNat_toUInt32,
    Nat.mod_eq_of_lt hh, Nat.one_shiftLeft, Nat.mod_eq_of_lt hpow, Nat.or_two_pow_eq_add_of_lt hp]

/-- `Merkle::leafs`. -/
def leafs (self : Merkle T D) : Except Fault (List (T × MerklePath)) := leafsR self.root 0 0

variable [DecidableEq D]

/-- The check of a node's hash against the one recomputed. -/
def checkHash (hash checkHash : D) : Except (MerkleError D) Unit :=
  if hash ≠ checkHash then .error (.ValidationError hash checkHash) else .ok ()

/-- `Merkle::validate_r`. -/
def validateR : Node T D → Except (MerkleError D) Unit
  | ⟨hash, some left, some right, none⟩ => do
    validateR left
    validateR right
    checkHash hash (innerHash κ left.hash right.hash)
  | ⟨hash, some left, none, none⟩ => do
    validateR left
    checkHash hash (innerHash κ left.hash left.hash)
  | ⟨hash, none, none, some value⟩ => checkHash hash (leafHash κ value)
  | ⟨_, none, none, none⟩ => .ok ()
  | _ => .error .InvalidStructure

/-- `Merkle::validate`. -/
def validate (self : Merkle T D) : Except (MerkleError D) Unit := validateR κ self.root

omit [DecidableEq D] in
/-- `Merkle::serialize_r`: the nodes of `node` appended to `r` after their
    children, with the index of `node`. -/
def serializeR (r : List (SerializedNode T D)) : Node T D → Except Fault (List (SerializedNode T D) × ℕ)
  | ⟨hash, some left, some right, none⟩ => do
    let (r, left) ← serializeR r left
    let (r, right) ← serializeR r right
    let node : SerializedNode T D := ⟨hash, some left, some right, none⟩
    let id := r.length
    pure (r ++ [node], id)
  | ⟨hash, some left, none, none⟩ => do
    let (r, left) ← serializeR r left
    let node : SerializedNode T D := ⟨hash, some left, none, none⟩
    let id := r.length
    pure (r ++ [node], id)
  | ⟨hash, none, none, some value⟩ => pure (r ++ [⟨hash, none, none, some value⟩], r.length)
  | ⟨hash, none, none, none⟩ => pure (r ++ [⟨hash, none, none, none⟩], r.length)
  | _ => .error (.panic unreachableText)

omit [DecidableEq D] in
/-- `Merkle::serialize`. -/
def serialize (self : Merkle T D) : Except Fault (List (SerializedNode T D)) := do
  let (r, _) ← serializeR [] self.root
  pure r

omit [DecidableEq D] in
/-- `nodes[i].take()` after the check of `deserialize` that `i` is in bounds
    and holds a node not yet taken. -/
def takeChild (nodes : List (Option (Node T D))) :
    Option ℕ → Except (MerkleError D) (List (Option (Node T D)) × Option (Node T D))
  | none => .ok (nodes, none)
  | some i =>
    match nodes[i]? with
    | some (some node) => .ok (nodes.set i none, some node)
    | _ => .error .InvalidStructure

omit [DecidableEq D] in
/-- The body of the loop of `deserialize`: the node restored with its
    children taken out of the nodes restored before it. -/
def restoreNode (nodes : List (Option (Node T D))) (snode : SerializedNode T D) :
    Except (MerkleError D) (List (Option (Node T D))) := do
  let (nodes, left) ← takeChild nodes snode.left
  let (nodes, right) ← takeChild nodes snode.right
  let node : Node T D := ⟨snode.hash, left, right, snode.value⟩
  pure (nodes ++ [some node])

/-- `Merkle::deserialize`. -/
def deserialize (snodes : List (SerializedNode T D)) :
    Except Fault (Except (MerkleError D) (Merkle T D)) :=
  if snodes.length < 1 then .ok (.error .InvalidStructure)
  else
    match snodes.foldlM restoreNode [] with
    | .error e => .ok (.error e)
    | .ok nodes => do
      let last ← index nodes (nodes.length - 1)
      check last.isSome "assertion failed: nodes[nodes.len() - 1].is_some()"
      let root ← unwrap (← unwrap nodes.getLast?)
      let nodes := nodes.dropLast
      pure do
        if nodes.any Option.isSome then .error .InvalidStructure
        else do
          validateR κ root
          pure ⟨root⟩

end Merkle

end Stegos
