import Stegos.Blockchain.Merkle.Build

/-!
# Pruning a value

`prune` takes the value at the end of a path out of the tree and cuts off the
children of a node on the path when both have become empty; `lookup` and
`leafs` read the tree. What they do is said on the four shapes of node that
`validate_r` accepts (`Valid`: the trees it returns `Ok` for,
`validateR_eq_ok`), which every tree that `from_array` builds has.

* Cutting off two empty children changes no lookup and no leaf
  (`lookupR_pruneSubtrees`, `leafsR_pruneSubtrees`), so a pruning only
  empties the leaf it reaches.
* On a valid tree a pruning does not panic, keeps the tree valid, the hash of
  each node and its depth (`pruneR_valid`); it returns what a lookup on the
  path finds (`lookupR_pruneR`), and changes nothing when that is nothing
  (`pruneR_eq_self`).
* After it, a lookup on the path finds nothing (`lookupR_pruneR_self`), and a
  lookup whose route differs finds what it found before
  (`lookupR_pruneR_of_route_ne`); the leaves lose exactly the value found,
  whose path has the route of the pruned one (`leafsR_pruneR`).
* `prune_exact`: all of this for every tree that `from_array` and prunings
  reach (`Pruned`), which stay valid and at most `32` deep.

The route of a path (`routeR`) is the list of turns a lookup on it takes
before it stops: two paths reach the same leaf exactly when their routes are
equal.
-/

namespace Stegos.Merkle

variable {T D : Type} (κ : Hasher T D)

/-! ### Valid trees -/

/-- The nodes `validate_r` accepts: two children or a left one with the hash
    `pull` or `pull_left` gives them, a leaf with the hash of its value, and an
    empty node. -/
inductive Valid : Node T D → Prop
  | inner {left right : Node T D} : Valid left → Valid right → Valid (innerNode κ left right)
  | left {left : Node T D} : Valid left → Valid (leftNode κ left)
  | leaf (value : T) : Valid (leaf κ value)
  | empty (hash : D) : Valid ⟨hash, none, none, none⟩

theorem checkHash_eq_ok [DecidableEq D] {hash check : D} {u : Unit} :
    checkHash hash check = .ok u ↔ hash = check := by
  by_cases h : hash = check <;> simp [checkHash, h]

/-- `validate_r` accepts exactly the valid trees. -/
theorem validateR_eq_ok [DecidableEq D] (n : Node T D) : validateR κ n = .ok () ↔ Valid κ n := by
  constructor
  · intro h
    fun_induction validateR κ n with
    | case1 hash left right ihl ihr =>
      obtain ⟨⟨⟩, hl, h⟩ := Except.bind_eq_ok.1 h
      obtain ⟨⟨⟩, hr, h⟩ := Except.bind_eq_ok.1 h
      rw [checkHash_eq_ok.1 h]
      exact .inner (ihl hl) (ihr hr)
    | case2 hash left ihl =>
      obtain ⟨⟨⟩, hl, h⟩ := Except.bind_eq_ok.1 h
      rw [checkHash_eq_ok.1 h]
      exact .left (ihl hl)
    | case3 hash value =>
      rw [checkHash_eq_ok.1 h]
      exact .leaf value
    | case4 hash => exact .empty hash
    | case5 => cases h
  · intro h
    induction h with
    | inner _ _ ihl ihr => simp [innerNode, validateR, ihl, ihr, checkHash, bind, Except.bind]
    | left _ ih => simp [leftNode, validateR, ih, checkHash, bind, Except.bind]
    | leaf v => simp [leaf, validateR, checkHash]
    | empty hash => rfl

/-- The depth of a tree. -/
def depth : Node T D → ℕ
  | ⟨_, some left, some right, _⟩ => max (depth left) (depth right) + 1
  | ⟨_, some left, none, _⟩ => depth left + 1
  | ⟨_, none, some right, _⟩ => depth right + 1
  | ⟨_, none, none, _⟩ => 0

/-- The turns a lookup on `path` takes from `node` before it stops, `true` to
    the right. -/
def routeR (node : Node T D) (path : ℕ) : List Bool :=
  match node, decide (path % 2 = 0) with
  | ⟨_, some left, _, none⟩, true => false :: routeR left (path / 2)
  | ⟨_, _, some right, none⟩, false => true :: routeR right (path / 2)
  | _, _ => []

/-- The route of a path from the root. -/
def route (self : Merkle T D) (path : MerklePath) : List Bool := routeR self.root path.path.toNat

/-! ### The functions on each shape of node -/

section Shapes

variable (hash : D) (l r : Node T D) (value : T) (p : UInt32) (path : ℕ) (h : Height)

theorem lookupR_both : lookupR ⟨hash, some l, some r, none⟩ p =
    if p.toNat % 2 = 0 then lookupR l (p >>> 1) else lookupR r (p >>> 1) := by
  by_cases hp : p.toNat % 2 = 0 <;> simp [lookupR, leftDirection_eq, hp]

theorem lookupR_leftOnly : lookupR ⟨hash, some l, none, none⟩ p =
    if p.toNat % 2 = 0 then lookupR l (p >>> 1) else .ok none := by
  by_cases hp : p.toNat % 2 = 0 <;> simp [lookupR, leftDirection_eq, hp]

theorem lookupR_leafNode : lookupR ⟨hash, none, none, some value⟩ p = .ok (some value) := by
  simp [lookupR]

theorem lookupR_emptyNode : lookupR (⟨hash, none, none, none⟩ : Node T D) p = .ok none := by
  simp [lookupR]

theorem routeR_both : routeR ⟨hash, some l, some r, none⟩ path =
    if path % 2 = 0 then false :: routeR l (path / 2) else true :: routeR r (path / 2) := by
  by_cases hp : path % 2 = 0 <;> simp [routeR, hp]

theorem routeR_leftOnly : routeR ⟨hash, some l, none, none⟩ path =
    if path % 2 = 0 then false :: routeR l (path / 2) else [] := by
  by_cases hp : path % 2 = 0 <;> simp [routeR, hp]

theorem routeR_leafNode : routeR ⟨hash, none, none, some value⟩ path = [] := by
  simp [routeR]

theorem routeR_emptyNode : routeR (⟨hash, none, none, none⟩ : Node T D) path = [] := by
  simp [routeR]

theorem leafsR_both : leafsR ⟨hash, some l, some r, none⟩ p h = (do
    let a ← leafsR l p (h + 1)
    let b ← leafsR r (p ||| 1 <<< h.toUInt32) (h + 1)
    pure (a ++ b)) := rfl

theorem leafsR_leftOnly : leafsR ⟨hash, some l, none, none⟩ p h = leafsR l p (h + 1) := rfl

theorem leafsR_leafNode : leafsR ⟨hash, none, none, some value⟩ p h = .ok [(value, ⟨p⟩)] := rfl

theorem leafsR_emptyNode : leafsR (⟨hash, none, none, none⟩ : Node T D) p h = .ok [] := rfl

theorem depth_both : depth ⟨hash, some l, some r, none⟩ = max (depth l) (depth r) + 1 := rfl

theorem depth_leftOnly : depth ⟨hash, some l, none, none⟩ = depth l + 1 := rfl

/-- `prune_r` at a node with two children: into the child the path turns to. -/
theorem pruneR_both : pruneR ⟨hash, some l, some r, none⟩ p =
    if p.toNat % 2 = 0 then
      (fun x => pruneSubtrees ⟨hash, some x.1, some r, none⟩ x.2) <$> pruneR l (p >>> 1)
    else (fun x => pruneSubtrees ⟨hash, some l, some x.1, none⟩ x.2) <$> pruneR r (p >>> 1) := by
  by_cases hp : p.toNat % 2 = 0
  · simp only [pruneR, leftDirection_eq, hp, decide_true, if_true]
    cases pruneR l (p >>> 1) <;> rfl
  · simp only [pruneR, leftDirection_eq, hp, decide_false, if_false]
    cases pruneR r (p >>> 1) <;> rfl

/-- `prune_r` at a node with a left child only: into it, or nothing on a turn
    to the right. -/
theorem pruneR_leftOnly : pruneR ⟨hash, some l, none, none⟩ p =
    if p.toNat % 2 = 0 then
      (fun x => pruneSubtrees ⟨hash, some x.1, none, none⟩ x.2) <$> pruneR l (p >>> 1)
    else .ok (⟨hash, some l, none, none⟩, none) := by
  by_cases hp : p.toNat % 2 = 0
  · simp only [pruneR, leftDirection_eq, hp, decide_true, if_true]
    cases pruneR l (p >>> 1) <;> rfl
  · simp only [pruneR, leftDirection_eq, hp, decide_false, Bool.false_eq_true, if_false]

theorem pruneR_leafNode : pruneR ⟨hash, none, none, some value⟩ p =
    .ok (⟨hash, none, none, none⟩, some value) := rfl

theorem pruneR_emptyNode : pruneR (⟨hash, none, none, none⟩ : Node T D) p =
    .ok (⟨hash, none, none, none⟩, none) := rfl

end Shapes

/-! ### Cutting off empty children -/

@[simp] theorem pruneSubtrees_snd (n : Node T D) (f : Option T) : (pruneSubtrees n f).2 = f := by
  cases f with
  | none => rfl
  | some _ => simp only [pruneSubtrees]; split <;> rfl

@[simp] theorem pruneSubtrees_hash (n : Node T D) (f : Option T) :
    (pruneSubtrees n f).1.hash = n.hash := by
  cases f with
  | none => rfl
  | some _ => simp only [pruneSubtrees]; split <;> rfl

/-- A subtree that `prune_r` counts as empty is missing or an empty node. -/
theorem subtreeEmpty_eq_true {o : Option (Node T D)} :
    subtreeEmpty o = true ↔ ∀ m ∈ o, m = ⟨m.hash, none, none, none⟩ := by
  rcases o with _ | ⟨hash, l, r, v⟩
  · simp [subtreeEmpty]
  · cases l <;> cases r <;> cases v <;> simp [subtreeEmpty]

/-- Whether the children of a node without value were cut off or not, the node
    has the same lookups. -/
theorem lookupR_pruneSubtrees (n : Node T D) (hv : n.value = none) (f : Option T) (q : UInt32) :
    lookupR (pruneSubtrees n f).1 q = lookupR n q := by
  obtain ⟨hash, l, r, v⟩ := n
  cases hv
  cases f with
  | none => rfl
  | some x =>
    simp only [pruneSubtrees, Bool.and_eq_true]
    split
    · rename_i hempty
      obtain ⟨hl, hr⟩ := hempty
      rw [subtreeEmpty_eq_true] at hl hr
      -- both children are missing or empty: every lookup finds nothing
      rcases l with _ | l <;> rcases r with _ | r
      · rfl
      · rw [hr r rfl, lookupR_emptyNode]
        by_cases hq : q.toNat % 2 = 0 <;> simp [lookupR, leftDirection_eq, hq]
      · rw [hl l rfl, lookupR_emptyNode, lookupR_leftOnly, lookupR_emptyNode]
        split <;> rfl
      · rw [hl l rfl, hr r rfl, lookupR_emptyNode, lookupR_both, lookupR_emptyNode, lookupR_emptyNode]
        split <;> rfl
    · rfl

/-- Whether the children of a node with a left child and without value were
    cut off or not, the node has the same leaves. -/
theorem leafsR_pruneSubtrees (n : Node T D) (hl : n.left ≠ none) (hv : n.value = none)
    (f : Option T) (q : UInt32) (h : Height) : leafsR (pruneSubtrees n f).1 q h = leafsR n q h := by
  obtain ⟨hash, l, r, v⟩ := n
  cases hv
  cases f with
  | none => rfl
  | some x =>
    simp only [pruneSubtrees, Bool.and_eq_true]
    split
    · rename_i hempty
      obtain ⟨hel, her⟩ := hempty
      rw [subtreeEmpty_eq_true] at hel her
      rcases l with _ | l
      · exact absurd rfl hl
      rcases r with _ | r
      · rw [hel l rfl]
        rfl
      · rw [hel l rfl, her r rfl]
        rfl
    · rfl

theorem Valid.pruneSubtrees {n : Node T D} (hn : Valid κ n) (hv : n.value = none) (f : Option T) :
    Valid κ (pruneSubtrees n f).1 := by
  cases f with
  | none => exact hn
  | some x =>
    simp only [Merkle.pruneSubtrees]
    split
    · rw [hv]
      exact .empty n.hash
    · exact hn

theorem depth_pruneSubtrees_le (n : Node T D) (f : Option T) : depth (pruneSubtrees n f).1 ≤ depth n := by
  cases f with
  | none => exact le_refl _
  | some x =>
    simp only [pruneSubtrees]
    split
    · exact Nat.zero_le _
    · exact le_refl _


/-- The end of `prune_r` after a recursive call that succeeded. -/
theorem map_pruneSubtrees_eq_ok {g : Node T D → Node T D} {e : Except Fault (Node T D × Option T)}
    {n' : Node T D} {v : Option T} :
    (fun x => pruneSubtrees (g x.1) x.2) <$> e = .ok (n', v) ↔
      ∃ c, e = .ok (c, v) ∧ n' = (pruneSubtrees (g c) v).1 := by
  rw [Except.map_eq_ok]
  constructor
  · rintro ⟨⟨c, f⟩, he, hp⟩
    have hv : v = f := by rw [← pruneSubtrees_snd (g c) f, hp]
    subst hv
    exact ⟨c, he, by rw [hp]⟩
  · rintro ⟨c, he, rfl⟩
    exact ⟨(c, v), he, Prod.ext rfl (pruneSubtrees_snd _ _)⟩

/-! ### Pruning a valid tree -/

/-- A pruning of a valid tree does not panic, and leaves a valid tree, with the
    same hash and no deeper. -/
theorem pruneR_valid {n : Node T D} (hn : Valid κ n) (p : UInt32) :
    ∃ r, pruneR n p = .ok r ∧ Valid κ r.1 ∧ r.1.hash = n.hash ∧ depth r.1 ≤ depth n := by
  induction hn generalizing p with
  | @inner l r hl hr ihl ihr =>
    simp only [innerNode, pruneR_both, depth_both]
    split
    · obtain ⟨⟨l', v⟩, hpl, hvl, hhl, hdl⟩ := ihl (p >>> 1)
      dsimp only at hvl hhl hdl
      rw [hpl]
      have hnode : (⟨innerHash κ l.hash r.hash, some l', some r, none⟩ : Node T D) =
          innerNode κ l' r := by rw [innerNode, hhl]
      refine ⟨_, rfl, ?_, by simp, le_trans (depth_pruneSubtrees_le _ _) ?_⟩
      · dsimp only
        rw [hnode]
        exact (Valid.inner hvl hr).pruneSubtrees κ rfl v
      · simp only [depth_both]
        omega
    · obtain ⟨⟨r', v⟩, hpr, hvr, hhr, hdr⟩ := ihr (p >>> 1)
      dsimp only at hvr hhr hdr
      rw [hpr]
      have hnode : (⟨innerHash κ l.hash r.hash, some l, some r', none⟩ : Node T D) =
          innerNode κ l r' := by rw [innerNode, hhr]
      refine ⟨_, rfl, ?_, by simp, le_trans (depth_pruneSubtrees_le _ _) ?_⟩
      · dsimp only
        rw [hnode]
        exact (Valid.inner hl hvr).pruneSubtrees κ rfl v
      · simp only [depth_both]
        omega
  | @left l hl ihl =>
    simp only [leftNode, pruneR_leftOnly, depth_leftOnly]
    split
    · obtain ⟨⟨l', v⟩, hpl, hvl, hhl, hdl⟩ := ihl (p >>> 1)
      dsimp only at hvl hhl hdl
      rw [hpl]
      have hnode : (⟨innerHash κ l.hash l.hash, some l', none, none⟩ : Node T D) =
          leftNode κ l' := by rw [leftNode, hhl]
      refine ⟨_, rfl, ?_, by simp, le_trans (depth_pruneSubtrees_le _ _) ?_⟩
      · dsimp only
        rw [hnode]
        exact (Valid.left hvl).pruneSubtrees κ rfl v
      · simp only [depth_leftOnly]
        omega
    · exact ⟨_, rfl, .left hl, rfl, le_refl _⟩
  | leaf value => exact ⟨_, pruneR_leafNode _ _ _, .empty _, rfl, Nat.zero_le _⟩
  | empty hash => exact ⟨_, pruneR_emptyNode _ _, .empty hash, rfl, le_refl _⟩

/-- What `prune_r` does at a node with two children. -/
theorem pruneR_both_eq_ok {hash : D} {l r n' : Node T D} {p : UInt32} {v : Option T} :
    pruneR ⟨hash, some l, some r, none⟩ p = .ok (n', v) ↔
      (p.toNat % 2 = 0 ∧ ∃ l', pruneR l (p >>> 1) = .ok (l', v) ∧
        n' = (pruneSubtrees ⟨hash, some l', some r, none⟩ v).1) ∨
      (p.toNat % 2 ≠ 0 ∧ ∃ r', pruneR r (p >>> 1) = .ok (r', v) ∧
        n' = (pruneSubtrees ⟨hash, some l, some r', none⟩ v).1) := by
  rw [pruneR_both]
  split <;> rename_i hturn
  · rw [map_pruneSubtrees_eq_ok (g := fun c => ⟨hash, some c, some r, none⟩)]
    simp [hturn]
  · rw [map_pruneSubtrees_eq_ok (g := fun c => ⟨hash, some l, some c, none⟩)]
    simp [hturn]

/-- What `prune_r` does at a node with a left child only. -/
theorem pruneR_leftOnly_eq_ok {hash : D} {l n' : Node T D} {p : UInt32} {v : Option T} :
    pruneR ⟨hash, some l, none, none⟩ p = .ok (n', v) ↔
      (p.toNat % 2 = 0 ∧ ∃ l', pruneR l (p >>> 1) = .ok (l', v) ∧
        n' = (pruneSubtrees ⟨hash, some l', none, none⟩ v).1) ∨
      (p.toNat % 2 ≠ 0 ∧ v = none ∧ n' = ⟨hash, some l, none, none⟩) := by
  rw [pruneR_leftOnly]
  split <;> rename_i hturn
  · rw [map_pruneSubtrees_eq_ok (g := fun c => ⟨hash, some c, none, none⟩)]
    simp [hturn]
  · simp only [hturn, Except.ok.injEq, Prod.mk.injEq, false_and, ne_eq, not_false_eq_true,
      true_and, false_or]
    exact ⟨fun ⟨h1, h2⟩ => ⟨h2.symm, h1.symm⟩, fun ⟨h1, h2⟩ => ⟨h2.symm, h1.symm⟩⟩

/-- A pruning returns what a lookup on its path finds. -/
theorem lookupR_pruneR {n : Node T D} (hn : Valid κ n) {p : UInt32} {n' : Node T D}
    {v : Option T} (hp : pruneR n p = .ok (n', v)) : lookupR n p = .ok v := by
  induction hn generalizing p n' v with
  | @inner l r _ _ ihl ihr =>
    rw [innerNode, lookupR_both]
    rcases pruneR_both_eq_ok.1 hp with ⟨hturn, l', hpl, -⟩ | ⟨hturn, r', hpr, -⟩
    · rw [if_pos hturn]
      exact ihl hpl
    · rw [if_neg hturn]
      exact ihr hpr
  | @left l _ ihl =>
    rw [leftNode, lookupR_leftOnly]
    rcases pruneR_leftOnly_eq_ok.1 hp with ⟨hturn, l', hpl, -⟩ | ⟨hturn, rfl, -⟩
    · rw [if_pos hturn]
      exact ihl hpl
    · rw [if_neg hturn]
  | leaf value =>
    rw [leaf, pruneR_leafNode] at hp
    cases hp
    exact lookupR_leafNode _ _ _
  | empty hash =>
    rw [pruneR_emptyNode] at hp
    cases hp
    exact lookupR_emptyNode _ _

/-- A pruning that finds nothing changes nothing. -/
theorem pruneR_eq_self {n : Node T D} (hn : Valid κ n) {p : UInt32} {n' : Node T D}
    (hp : pruneR n p = .ok (n', none)) : n' = n := by
  induction hn generalizing p n' with
  | @inner l r _ _ ihl ihr =>
    rcases pruneR_both_eq_ok.1 hp with ⟨-, l', hpl, rfl⟩ | ⟨-, r', hpr, rfl⟩
    · rw [ihl hpl]
      rfl
    · rw [ihr hpr]
      rfl
  | @left l _ ihl =>
    rcases pruneR_leftOnly_eq_ok.1 hp with ⟨-, l', hpl, rfl⟩ | ⟨-, -, rfl⟩
    · rw [ihl hpl]
      rfl
    · rfl
  | leaf value =>
    rw [leaf, pruneR_leafNode] at hp
    cases hp
  | empty hash =>
    rw [pruneR_emptyNode] at hp
    cases hp
    rfl

/-- After a pruning, a lookup on its path finds nothing. -/
theorem lookupR_pruneR_self {n : Node T D} (hn : Valid κ n) {p : UInt32} {n' : Node T D}
    {v : Option T} (hp : pruneR n p = .ok (n', v)) : lookupR n' p = .ok none := by
  induction hn generalizing p n' v with
  | @inner l r _ _ ihl ihr =>
    rcases pruneR_both_eq_ok.1 hp with ⟨hturn, l', hpl, rfl⟩ | ⟨hturn, r', hpr, rfl⟩
    · rw [lookupR_pruneSubtrees _ rfl, lookupR_both, if_pos hturn]
      exact ihl hpl
    · rw [lookupR_pruneSubtrees _ rfl, lookupR_both, if_neg hturn]
      exact ihr hpr
  | @left l _ ihl =>
    rcases pruneR_leftOnly_eq_ok.1 hp with ⟨hturn, l', hpl, rfl⟩ | ⟨hturn, -, rfl⟩
    · rw [lookupR_pruneSubtrees _ rfl, lookupR_leftOnly, if_pos hturn]
      exact ihl hpl
    · rw [lookupR_leftOnly, if_neg hturn]
  | leaf value =>
    rw [leaf, pruneR_leafNode] at hp
    cases hp
    exact lookupR_emptyNode _ _
  | empty hash =>
    rw [pruneR_emptyNode] at hp
    cases hp
    exact lookupR_emptyNode _ _

/-- After a pruning, a lookup whose route differs from that of the pruned path
    finds what it found before. -/
theorem lookupR_pruneR_of_route_ne {n : Node T D} (hn : Valid κ n) {p : UInt32} {n' : Node T D}
    {v : Option T} (hp : pruneR n p = .ok (n', v)) {q : UInt32}
    (hq : routeR n q.toNat ≠ routeR n p.toNat) : lookupR n' q = lookupR n q := by
  induction hn generalizing p n' v q with
  | @inner l r _ _ ihl ihr =>
    rw [innerNode, routeR_both, routeR_both, ← toNat_shiftRight_one, ← toNat_shiftRight_one] at hq
    rw [innerNode, lookupR_both]
    -- the pruned path turns to one child; `q` turns to the same one or to the other
    rcases pruneR_both_eq_ok.1 hp with ⟨hturn, l', hpl, rfl⟩ | ⟨hturn, r', hpr, rfl⟩
    · rw [lookupR_pruneSubtrees _ rfl, lookupR_both]
      split
      · rename_i hqturn
        simp only [hturn, hqturn, if_true, ne_eq, List.cons.injEq, true_and] at hq
        exact ihl hpl hq
      · rfl
    · rw [lookupR_pruneSubtrees _ rfl, lookupR_both]
      split
      · rfl
      · rename_i hqturn
        simp only [hturn, hqturn, if_false, ne_eq, List.cons.injEq, true_and] at hq
        exact ihr hpr hq
  | @left l _ ihl =>
    rw [leftNode, routeR_leftOnly, routeR_leftOnly, ← toNat_shiftRight_one,
      ← toNat_shiftRight_one] at hq
    rw [leftNode, lookupR_leftOnly]
    rcases pruneR_leftOnly_eq_ok.1 hp with ⟨hturn, l', hpl, rfl⟩ | ⟨hturn, -, rfl⟩
    · rw [lookupR_pruneSubtrees _ rfl, lookupR_leftOnly]
      split
      · rename_i hqturn
        simp only [hturn, hqturn, if_true, ne_eq, List.cons.injEq, true_and] at hq
        exact ihl hpl hq
      · rfl
    · rw [lookupR_leftOnly]
  | leaf value => exact absurd (by rw [leaf, routeR_leafNode, routeR_leafNode]) hq
  | empty hash => exact absurd (by rw [routeR_emptyNode, routeR_emptyNode]) hq

/-! ### The leaves before and after a pruning -/

/-- `leafs_r` does not panic on a valid tree. -/
theorem leafsR_valid {n : Node T D} (hn : Valid κ n) (path : UInt32) (h : Height) :
    ∃ l, leafsR n path h = .ok l := by
  induction hn generalizing path h with
  | @inner l r _ _ ihl ihr =>
    obtain ⟨a, ha⟩ := ihl path (h + 1)
    obtain ⟨b, hb⟩ := ihr (path ||| 1 <<< h.toUInt32) (h + 1)
    exact ⟨a ++ b, by rw [innerNode, leafsR_both, ha, hb]; rfl⟩
  | @left l _ ihl =>
    rw [leftNode, leafsR_leftOnly]
    exact ihl path (h + 1)
  | leaf value => exact ⟨_, leafsR_leafNode _ _ _ _⟩
  | empty hash => exact ⟨_, leafsR_emptyNode _ _ _⟩

/-- The leaves under a node at depth `h`, reached by the turns `path`, have
    paths whose `h` low bits are those turns. -/
theorem mem_leafsR {n : Node T D} (hn : Valid κ n) {path : UInt32} {h : Height}
    {l : List (T × MerklePath)} (hl : leafsR n path h = .ok l)
    (hdepth : h.toNat + depth n ≤ 32) (hpath : path.toNat < 2 ^ h.toNat) :
    ∀ e ∈ l, e.2.path.toNat % 2 ^ h.toNat = path.toNat := by
  induction hn generalizing path h l with
  | @inner nl nr _ _ ihl ihr =>
    rw [innerNode, leafsR_both] at hl
    rw [innerNode, depth_both] at hdepth
    obtain ⟨a, ha, hl⟩ := Except.bind_eq_ok.1 hl
    obtain ⟨b, hb, hl⟩ := Except.bind_eq_ok.1 hl
    cases hl
    have hsucc := Height.toNat_succ (h := h) (by omega)
    have hor := toNat_or_shiftLeft (h := h) (by omega) hpath
    intro e he
    rcases List.mem_append.1 he with he | he
    · have hmod := ihl ha (by omega) (by rw [hsucc, pow_succ]; omega) e he
      rw [hsucc] at hmod
      rw [Nat.mod_two_pow_of_mod_succ hmod, Nat.mod_eq_of_lt hpath]
    · -- the right child's turns have bit `h` set
      have hmod := ihr hb (by omega) (by rw [hor, hsucc, pow_succ]; omega) e he
      rw [hsucc, hor] at hmod
      rw [Nat.mod_two_pow_of_mod_succ hmod, Nat.add_mod_right, Nat.mod_eq_of_lt hpath]
  | @left nl _ ihl =>
    rw [leftNode, leafsR_leftOnly] at hl
    rw [leftNode, depth_leftOnly] at hdepth
    have hsucc := Height.toNat_succ (h := h) (by omega)
    intro e he
    have hmod := ihl hl (by omega) (by rw [hsucc, pow_succ]; omega) e he
    rw [hsucc] at hmod
    rw [Nat.mod_two_pow_of_mod_succ hmod, Nat.mod_eq_of_lt hpath]
  | leaf value =>
    rw [leaf, leafsR_leafNode] at hl
    cases hl
    intro e he
    rw [List.mem_singleton.1 he]
    exact Nat.mod_eq_of_lt hpath
  | empty hash =>
    rw [leafsR_emptyNode] at hl
    cases hl
    intro e he
    cases he

/-- A pruning that finds `x` takes one leaf `(x, q)` out of the leaves, and the
    path `q` has the route of the pruned one. As for `mem_leafsR`, the leaves
    are those under a node at depth `h` reached by the turns `path`, whose route
    is that of `q` above `h`. -/
theorem leafsR_pruneR {n : Node T D} (hn : Valid κ n) {p : UInt32} {n' : Node T D} {x : T}
    (hp : pruneR n p = .ok (n', some x)) {path : UInt32} {h : Height}
    (hdepth : h.toNat + depth n ≤ 32) (hpath : path.toNat < 2 ^ h.toNat) :
    ∃ l₁ q l₂, leafsR n path h = .ok (l₁ ++ (x, q) :: l₂) ∧ leafsR n' path h = .ok (l₁ ++ l₂) ∧
      routeR n (q.path.toNat / 2 ^ h.toNat) = routeR n p.toNat := by
  induction hn generalizing p n' path h with
  | @inner nl nr hl hr ihl ihr =>
    rw [innerNode, depth_both] at hdepth
    have hsucc := Height.toNat_succ (h := h) (by omega)
    have hor := toNat_or_shiftLeft (h := h) (by omega) hpath
    have hpathL : path.toNat < 2 ^ (h + 1).toNat := by rw [hsucc, pow_succ]; omega
    have hpathR : (path ||| 1 <<< h.toUInt32).toNat < 2 ^ (h + 1).toNat := by
      rw [hor, hsucc, pow_succ]; omega
    rw [innerNode] at hp ⊢
    rcases pruneR_both_eq_ok.1 hp with ⟨hturn, l', hpl, rfl⟩ | ⟨hturn, r', hpr, rfl⟩
    · -- the value is under the left child, before the leaves of the right one
      obtain ⟨l₁, q, l₂, hL, hL', hroute⟩ := ihl hpl (by omega) hpathL
      obtain ⟨b, hb⟩ := leafsR_valid κ hr (path ||| 1 <<< h.toUInt32) (h + 1)
      have hqmod := mem_leafsR κ hl hL (by omega) hpathL (x, q) (by simp)
      have hqturn : q.path.toNat / 2 ^ h.toNat % 2 = 0 := by
        rw [Nat.div_two_pow_mod_two, ← hsucc, hqmod, Nat.div_eq_of_lt hpath]
      refine ⟨l₁, q, l₂ ++ b, ?_, ?_, ?_⟩
      · rw [leafsR_both, hL, hb]
        simp only [bind, Except.bind, pure, Except.pure, List.append_assoc, List.cons_append]
      · rw [leafsR_pruneSubtrees _ (Option.some_ne_none _) rfl, leafsR_both, hL', hb]
        simp only [bind, Except.bind, pure, Except.pure, List.append_assoc]
      · rw [routeR_both, routeR_both, if_pos hqturn, if_pos hturn, Nat.div_div_eq_div_mul,
          ← pow_succ, ← hsucc, hroute, toNat_shiftRight_one]
    · -- the value is under the right child, after the leaves of the left one
      obtain ⟨l₁, q, l₂, hR, hR', hroute⟩ := ihr hpr (by omega) hpathR
      obtain ⟨a, ha⟩ := leafsR_valid κ hl path (h + 1)
      have hqmod := mem_leafsR κ hr hR (by omega) hpathR (x, q) (by simp)
      have hqturn : q.path.toNat / 2 ^ h.toNat % 2 ≠ 0 := by
        rw [Nat.div_two_pow_mod_two, ← hsucc, hqmod, hor,
          Nat.add_div_right _ (Nat.two_pow_pos _), Nat.div_eq_of_lt hpath]
        decide
      refine ⟨a ++ l₁, q, l₂, ?_, ?_, ?_⟩
      · rw [leafsR_both, ha, hR]
        simp only [bind, Except.bind, pure, Except.pure, List.append_assoc]
      · rw [leafsR_pruneSubtrees _ (Option.some_ne_none _) rfl, leafsR_both, ha, hR']
        simp only [bind, Except.bind, pure, Except.pure, List.append_assoc]
      · rw [routeR_both, routeR_both, if_neg hqturn, if_neg hturn, Nat.div_div_eq_div_mul,
          ← pow_succ, ← hsucc, hroute, toNat_shiftRight_one]
  | @left nl hl ihl =>
    rw [leftNode, depth_leftOnly] at hdepth
    have hsucc := Height.toNat_succ (h := h) (by omega)
    have hpathL : path.toNat < 2 ^ (h + 1).toNat := by rw [hsucc, pow_succ]; omega
    rw [leftNode] at hp ⊢
    rcases pruneR_leftOnly_eq_ok.1 hp with ⟨hturn, l', hpl, rfl⟩ | ⟨-, hv, -⟩
    · obtain ⟨l₁, q, l₂, hL, hL', hroute⟩ := ihl hpl (by omega) hpathL
      have hqmod := mem_leafsR κ hl hL (by omega) hpathL (x, q) (by simp)
      have hqturn : q.path.toNat / 2 ^ h.toNat % 2 = 0 := by
        rw [Nat.div_two_pow_mod_two, ← hsucc, hqmod, Nat.div_eq_of_lt hpath]
      refine ⟨l₁, q, l₂, ?_, ?_, ?_⟩
      · rw [leafsR_leftOnly]
        exact hL
      · rw [leafsR_pruneSubtrees _ (Option.some_ne_none _) rfl, leafsR_leftOnly]
        exact hL'
      · rw [routeR_leftOnly, routeR_leftOnly, if_pos hqturn, if_pos hturn, Nat.div_div_eq_div_mul,
          ← pow_succ, ← hsucc, hroute, toNat_shiftRight_one]
    · -- a turn to the missing right child finds nothing
      cases hv
  | leaf value =>
    rw [leaf, pruneR_leafNode] at hp
    cases hp
    refine ⟨[], ⟨path⟩, [], leafsR_leafNode _ _ _ _, leafsR_emptyNode _ _ _, ?_⟩
    rw [leaf, routeR_leafNode, routeR_leafNode]
  | empty hash =>
    rw [pruneR_emptyNode] at hp
    cases hp

/-! ### The trees `from_array` and prunings reach -/

/-- Every node of a built tree has one of the valid shapes. -/
theorem valid_build : ∀ (k : ℕ) (xs : List T), Valid κ (build κ k xs)
  | 0, [] => .empty κ.zero
  | 0, value :: _ => .leaf value
  | k + 1, xs => by
    rw [build]
    split
    · exact .left (valid_build k xs)
    · exact .inner (valid_build k _) (valid_build k _)

/-- A tree built at height `k` is at most `k` deep. -/
theorem depth_build_le : ∀ (k : ℕ) (xs : List T), depth (build κ k xs) ≤ k
  | 0, [] => Nat.le_refl 0
  | 0, _ :: _ => Nat.le_refl 0
  | k + 1, xs => by
    have ih := depth_build_le k
    rw [build]
    split
    · rw [leftNode, depth_leftOnly]
      exact Nat.succ_le_succ (ih xs)
    · rw [innerNode, depth_both]
      exact Nat.succ_le_succ (max_le (ih _) (ih _))

/-- A tree that `from_array` returns is valid and at most `32` deep: empty for
    no values, else built at the height `clog 2` of their number. -/
theorem fromArray_valid {src : List T} {t : Merkle T D} (ht : fromArray κ src = .ok t) :
    Valid κ t.root ∧ depth t.root ≤ 32 := by
  by_cases hlen : src.length ≤ 2 ^ 32 - 1
  · by_cases hne : src = []
    · subst hne
      have hempty : fromArray κ ([] : List T) = .ok ⟨⟨κ.zero, none, none, none⟩⟩ := rfl
      rw [hempty] at ht
      cases ht
      exact ⟨.empty κ.zero, Nat.zero_le _⟩
    · rw [fromArray_eq_build κ hne hlen] at ht
      cases ht
      exact ⟨valid_build κ _ _,
        le_trans (depth_build_le κ _ _) (Nat.clog_le_of_le_pow (by omega))⟩
  · -- too many values: the first assertion fails
    rw [fromArray] at ht
    obtain ⟨⟨⟩, hc, -⟩ := Except.bind_eq_ok.1 ht
    exact absurd (check_eq_ok.1 hc) hlen

theorem prune_eq_ok {t t' : Merkle T D} {p : MerklePath} {v : Option T} :
    t.prune p = .ok (t', v) ↔ ∃ n', pruneR t.root p.path = .ok (n', v) ∧ t' = ⟨n'⟩ := by
  rw [prune]
  constructor
  · intro h
    obtain ⟨⟨n', f⟩, hpr, h⟩ := Except.bind_eq_ok.1 h
    cases h
    exact ⟨n', hpr, rfl⟩
  · rintro ⟨n', hpr, rfl⟩
    rw [hpr]
    rfl

/-- The trees reached from `from_array src` by prunings. -/
inductive Pruned (src : List T) : Merkle T D → Prop
  | init {t : Merkle T D} : fromArray κ src = .ok t → Pruned src t
  | prune {t t' : Merkle T D} {v : Option T} (p : MerklePath) :
      Pruned src t → t.prune p = .ok (t', v) → Pruned src t'

/-- Every tree that `from_array` and prunings reach is valid and at most `32`
    deep. -/
theorem Pruned.valid {src : List T} {t : Merkle T D} (ht : Pruned κ src t) :
    Valid κ t.root ∧ depth t.root ≤ 32 := by
  induction ht with
  | init h => exact fromArray_valid κ h
  | prune p _ hp ih =>
    obtain ⟨n', hpr, rfl⟩ := prune_eq_ok.1 hp
    obtain ⟨r, hr, hvr, -, hdr⟩ := pruneR_valid κ ih.1 p.path
    rw [hpr] at hr
    cases hr
    exact ⟨hvr, le_trans hdr ih.2⟩

/-- A pruning of a tree that `from_array` and prunings reach takes out exactly
    what a lookup on its path finds: after it that lookup finds nothing, a
    lookup reaching another leaf finds what it found, the leaves lose that one
    value (and nothing when nothing was found), and the tree still validates
    with the same root hash. -/
theorem prune_exact [DecidableEq D] {src : List T} {t : Merkle T D} (ht : Pruned κ src t)
    (p : MerklePath) :
    ∃ t' v, t.prune p = .ok (t', v) ∧ t.lookup p = .ok v ∧ t'.lookup p = .ok none ∧
      (∀ q, t.route q ≠ t.route p → t'.lookup q = t.lookup q) ∧
      (v = none → t' = t) ∧
      (∀ x, v = some x → ∃ l₁ q l₂, t.leafs = .ok (l₁ ++ (x, q) :: l₂) ∧
        t'.leafs = .ok (l₁ ++ l₂) ∧ t.route q = t.route p) ∧
      validate κ t' = .ok () ∧ t'.roothash = t.roothash := by
  obtain ⟨hvalid, hdepth⟩ := ht.valid
  obtain ⟨⟨n', v⟩, hpr, hvn', hhash, -⟩ := pruneR_valid κ hvalid p.path
  refine ⟨⟨n'⟩, v, prune_eq_ok.2 ⟨n', hpr, rfl⟩, lookupR_pruneR κ hvalid hpr,
    lookupR_pruneR_self κ hvalid hpr, fun q hq => lookupR_pruneR_of_route_ne κ hvalid hpr hq,
    ?_, ?_, (validateR_eq_ok κ n').2 hvn', hhash⟩
  · rintro rfl
    rw [pruneR_eq_self κ hvalid hpr]
  · rintro x rfl
    obtain ⟨l₁, q, l₂, hl, hl', hroute⟩ :=
      leafsR_pruneR κ hvalid hpr (by simpa using hdepth)
        (show (0 : UInt32).toNat < 2 ^ (0 : Height).toNat by simp)
    refine ⟨l₁, q, l₂, hl, hl', ?_⟩
    rw [UInt8.toNat_zero, pow_zero, Nat.div_one] at hroute
    exact hroute

/-- The tree of two values, hashed by the length of what the hasher is fed,
    pruned on the path of the first. -/
theorem prune_exact_two :
    ∃ t : Merkle ℕ ℕ, Pruned ⟨List.length, 0⟩ [1, 2] t ∧
    ∃ t' v, t.prune ⟨0⟩ = .ok (t', v) ∧ t.lookup ⟨0⟩ = .ok v ∧ t'.lookup ⟨0⟩ = .ok none ∧
      (∀ q, t.route q ≠ t.route ⟨0⟩ → t'.lookup q = t.lookup q) ∧
      (v = none → t' = t) ∧
      (∀ x, v = some x → ∃ l₁ q l₂, t.leafs = .ok (l₁ ++ (x, q) :: l₂) ∧
        t'.leafs = .ok (l₁ ++ l₂) ∧ t.route q = t.route ⟨0⟩) ∧
      validate ⟨List.length, 0⟩ t' = .ok () ∧ t'.roothash = t.roothash :=
  have ht : Pruned (⟨List.length, 0⟩ : Hasher ℕ ℕ) [1, 2]
      ⟨build ⟨List.length, 0⟩ (Nat.clog 2 [1, 2].length) [1, 2]⟩ :=
    .init (fromArray_eq_build _ (by decide) (by decide))
  ⟨_, ht, prune_exact _ ht ⟨0⟩⟩

end Stegos.Merkle
