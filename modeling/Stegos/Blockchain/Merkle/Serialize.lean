import Stegos.Blockchain.Merkle.Prune

/-!
# Serializing a tree

`serialize` writes the nodes of a tree after their children, each with the
indices of its children in the list written; `deserialize` restores the nodes
in turn, taking each child out of the nodes restored before it, and accepts
the last one when no other is left and it validates.

* On a valid tree `serialize_r` does not panic; it appends the nodes of the
  tree to what it is given, the root last, and restoring them after as many
  nodes takes every child out and leaves the tree in the last place
  (`serializeR_valid`). So `deserialize` gives back every valid tree from its
  serialization (`deserialize_serialize`).
* The places that the loop of `deserialize` has emptied are exactly the
  children taken so far, each once and from before its parent (`Restored`).
  Hence `deserialize` never panics (`deserialize_ok`), and succeeds only when
  every node but the last is a child of exactly one later node
  (`deserialize_eq_ok_references`).
* `serialize_roundtrip`: both, for the trees that `from_array` and prunings
  reach.
-/

namespace Stegos.Merkle

variable {T D : Type} (κ : Hasher T D)

/-- The indices of the children of a serialized node. -/
def SerializedNode.children (snode : SerializedNode T D) : List ℕ :=
  snode.left.toList ++ snode.right.toList

/-- The indices of the children of serialized nodes, in order. -/
def references (snodes : List (SerializedNode T D)) : List ℕ :=
  snodes.flatMap SerializedNode.children

theorem references_append_singleton (snodes : List (SerializedNode T D)) (snode : SerializedNode T D) :
    references (snodes ++ [snode]) = references snodes ++ snode.left.toList ++ snode.right.toList := by
  simp [references, SerializedNode.children]

/-! ### Taking a child out -/

@[simp] theorem takeChild_none (nodes : List (Option (Node T D))) :
    (takeChild nodes none : Except (MerkleError D) _) = .ok (nodes, none) := rfl

theorem takeChild_eq_ok {nodes nodes' : List (Option (Node T D))} {o : Option ℕ}
    {c : Option (Node T D)} :
    (takeChild nodes o : Except (MerkleError D) _) = .ok (nodes', c) ↔
      (o = none ∧ nodes' = nodes ∧ c = none) ∨
      ∃ i node, o = some i ∧ nodes[i]? = some (some node) ∧ nodes' = nodes.set i none ∧
        c = some node := by
  rcases o with _ | i
  · rw [takeChild_none, Except.ok.injEq, Prod.mk.injEq]
    constructor
    · rintro ⟨rfl, rfl⟩
      exact .inl ⟨rfl, rfl, rfl⟩
    · rintro (⟨-, rfl, rfl⟩ | ⟨i, node, h, -⟩)
      · exact ⟨rfl, rfl⟩
      · cases h
  · constructor
    · intro h
      -- the place must hold a node not taken yet
      rcases hi : nodes[i]? with _ | _ | node <;> simp only [takeChild, hi, reduceCtorEq] at h
      rw [Except.ok.injEq, Prod.mk.injEq] at h
      exact .inr ⟨i, node, rfl, hi, h.1.symm, h.2.symm⟩
    · rintro (⟨h, -⟩ | ⟨i', node, h, hi, rfl, rfl⟩)
      · cases h
      · cases h
        simp [takeChild, hi]

/-- Taking the child at the index `A.length` of `A ++ some x :: B`. -/
theorem takeChild_append {A B : List (Option (Node T D))} {x : Node T D} {i : ℕ} (hi : i = A.length) :
    (takeChild (A ++ some x :: B) (some i) : Except (MerkleError D) _) =
      .ok (A ++ none :: B, some x) := by
  subst hi
  simp [takeChild, List.set_append_right]

/-- Restoring a node with two children after both. -/
theorem restoreNode_both {A B : List (Option (Node T D))} {l r : Node T D} {hash : D} {i j : ℕ}
    (hi : i = A.length) (hj : j = A.length + 1 + B.length) :
    (restoreNode (A ++ [some l] ++ B ++ [some r]) ⟨hash, some i, some j, none⟩ :
        Except (MerkleError D) _) =
      .ok (A ++ [none] ++ B ++ [none, some ⟨hash, some l, some r, none⟩]) := by
  have hleft := takeChild_append (B := B ++ [some r]) (x := l) hi
  have hright := takeChild_append (A := A ++ none :: B) (B := []) (x := r) (i := j)
    (by simp only [List.length_append, List.length_cons]; omega)
  simp only [List.append_assoc, List.cons_append] at hleft hright ⊢
  simp [restoreNode, hleft, hright, bind, Except.bind, pure, Except.pure]

/-- Restoring a node with a left child only after it. -/
theorem restoreNode_leftOnly {A : List (Option (Node T D))} {l : Node T D} {hash : D} {i : ℕ}
    (hi : i = A.length) :
    (restoreNode (A ++ [some l]) ⟨hash, some i, none, none⟩ : Except (MerkleError D) _) =
      .ok (A ++ [none, some ⟨hash, some l, none, none⟩]) := by
  have hleft := takeChild_append (B := []) (x := l) hi
  simp [restoreNode, hleft, bind, Except.bind, pure, Except.pure]

/-- Restoring a node without children. -/
theorem restoreNode_noChildren (A : List (Option (Node T D))) (hash : D) (value : Option T) :
    (restoreNode A ⟨hash, none, none, value⟩ : Except (MerkleError D) _) =
      .ok (A ++ [some ⟨hash, none, none, value⟩]) := rfl

/-! ### The round trip -/

/-- On a valid tree `serialize_r` appends the nodes of the tree to `r`, each
    after its children, the root `top` last at the index it returns; restoring
    them after as many nodes as `r` has takes every child out and leaves the
    tree in the last place. -/
theorem serializeR_valid {n : Node T D} (hn : Valid κ n) (r : List (SerializedNode T D)) :
    ∃ s top, serializeR r n = .ok (r ++ s ++ [top], r.length + s.length) ∧
      ∀ nodes : List (Option (Node T D)), nodes.length = r.length →
        ((s ++ [top]).foldlM restoreNode nodes : Except (MerkleError D) _) =
          .ok (nodes ++ List.replicate s.length none ++ [some n]) := by
  induction hn generalizing r with
  | @inner l r' _ _ ihl ihr =>
    obtain ⟨sl, tl, hsl, hrl⟩ := ihl r
    obtain ⟨sr, tr, hsr, hrr⟩ := ihr (r ++ sl ++ [tl])
    refine ⟨sl ++ [tl] ++ sr ++ [tr], ⟨innerHash κ l.hash r'.hash, some (r.length + sl.length),
      some ((r ++ sl ++ [tl]).length + sr.length), none⟩, ?_, fun nodes hlen => ?_⟩
    · simp only [innerNode, serializeR, hsl, bind, Except.bind]
      rw [hsr]
      simp only [pure, Except.pure, List.append_assoc, List.length_append, List.length_singleton,
        List.singleton_append]
    · -- the nodes of the left child, then those of the right one, then the root
      have hleft := hrl nodes hlen
      have hright := hrr (nodes ++ List.replicate sl.length none ++ [some l]) (by simp [hlen])
      rw [List.append_assoc (sl ++ [tl] ++ sr), List.append_assoc (sl ++ [tl]) sr,
        ← List.append_assoc sr, List.foldlM_append, hleft]
      simp only [bind, Except.bind]
      rw [List.foldlM_append, hright]
      simp only [bind, Except.bind, List.foldlM_cons, List.foldlM_nil]
      rw [restoreNode_both (A := nodes ++ List.replicate sl.length none)
        (B := List.replicate sr.length none) (by simp [hlen]) (by simp [hlen]; omega)]
      have hs : (sl ++ [tl] ++ sr ++ [tr]).length = sl.length + 1 + sr.length + 1 := by
        simp only [List.length_append, List.length_singleton]
      rw [hs, List.replicate_add, List.replicate_add, List.replicate_add]
      simp [innerNode, pure, Except.pure]
  | @left l _ ihl =>
    obtain ⟨sl, tl, hsl, hrl⟩ := ihl r
    refine ⟨sl ++ [tl], ⟨innerHash κ l.hash l.hash, some (r.length + sl.length), none, none⟩,
      ?_, fun nodes hlen => ?_⟩
    · simp only [leftNode, serializeR, hsl, bind, Except.bind, pure, Except.pure, List.append_assoc,
        List.length_append, List.length_cons, List.length_nil, List.cons_append, List.nil_append]
    · rw [List.foldlM_append, hrl nodes hlen]
      simp only [bind, Except.bind, List.foldlM_cons, List.foldlM_nil]
      rw [restoreNode_leftOnly (A := nodes ++ List.replicate sl.length none) (by simp [hlen]),
        List.length_append, List.length_singleton, List.replicate_add]
      simp [leftNode, pure, Except.pure]
  | leaf value =>
    refine ⟨[], ⟨leafHash κ value, none, none, some value⟩, by simp [leaf, serializeR, pure, Except.pure],
      fun nodes _ => ?_⟩
    simp [leaf, restoreNode_noChildren, bind, Except.bind, pure, Except.pure]
  | empty hash =>
    refine ⟨[], ⟨hash, none, none, none⟩, by simp [serializeR, pure, Except.pure], fun nodes _ => ?_⟩
    simp [restoreNode_noChildren, bind, Except.bind, pure, Except.pure]

/-- `deserialize` gives a valid tree back from its serialization. -/
theorem deserialize_serialize [DecidableEq D] {n : Node T D} (hn : Valid κ n) :
    ∃ s, serialize ⟨n⟩ = .ok s ∧ deserialize κ s = .ok (.ok ⟨n⟩) := by
  obtain ⟨s, top, hser, hres⟩ := serializeR_valid κ hn []
  refine ⟨s ++ [top], by simp [serialize, hser, bind, Except.bind, pure, Except.pure], ?_⟩
  -- the loop leaves every place emptied but the last, which holds the tree
  have hlen : ¬(s ++ [top]).length < 1 := by simp
  rw [deserialize, if_neg hlen, hres [] rfl]
  simp [index, expect, check, unwrap, (validateR_eq_ok κ n).2 hn, bind, Except.bind, pure,
    Except.pure]

/-! ### Every node vector -/

/-- The places of `nodes` that hold no node are exactly the indices `refs`,
    each taken once. -/
structure Taken (refs : List ℕ) (nodes : List (Option (Node T D))) : Prop where
  mem_iff : ∀ i, i ∈ refs ↔ nodes[i]? = some none
  nodup : refs.Nodup

theorem Taken.lt_length {refs : List ℕ} {nodes : List (Option (Node T D))} (ht : Taken refs nodes)
    {i : ℕ} (hi : i ∈ refs) : i < nodes.length :=
  (List.getElem?_eq_some_iff.1 ((ht.mem_iff i).1 hi)).1

/-- Taking a child out empties its place, which held a node. -/
theorem Taken.takeChild {refs : List ℕ} {nodes nodes' : List (Option (Node T D))} {o : Option ℕ}
    {c : Option (Node T D)} (ht : Taken refs nodes)
    (h : (takeChild nodes o : Except (MerkleError D) _) = .ok (nodes', c)) :
    Taken (refs ++ o.toList) nodes' ∧ nodes'.length = nodes.length ∧ ∀ i ∈ o, i < nodes.length := by
  rcases takeChild_eq_ok.1 h with ⟨rfl, rfl, -⟩ | ⟨i, node, rfl, hi, rfl, -⟩
  · refine ⟨?_, rfl, by simp⟩
    simpa using ht
  · have hlt : i < nodes.length := (List.getElem?_eq_some_iff.1 hi).1
    -- the place held a node, so `i` was not taken before
    have hnot : i ∉ refs := fun hm => by
      rw [ht.mem_iff i, hi] at hm
      cases hm
    refine ⟨⟨fun j => ?_, List.nodup_append_comm.1 (List.nodup_cons.2 ⟨hnot, ht.nodup⟩)⟩,
      List.length_set, fun j hj => ?_⟩
    · by_cases hij : i = j
      · subst hij
        simp [hlt]
      · simp [hij, ht.mem_iff j, Ne.symm hij]
    · cases hj
      exact hlt

/-- Restoring a node puts it in a new place, after all the others. -/
theorem Taken.push {refs : List ℕ} {nodes : List (Option (Node T D))} (ht : Taken refs nodes)
    (node : Node T D) : Taken refs (nodes ++ [some node]) := by
  refine ⟨fun i => ?_, ht.nodup⟩
  rcases Nat.lt_or_ge i nodes.length with hi | hi
  · rw [List.getElem?_append_left hi, ht.mem_iff i]
  · -- no index taken lies at or beyond the new place
    have hnot : i ∉ refs := fun hm => absurd (ht.lt_length hm) (by omega)
    simp only [hnot, false_iff, List.getElem?_append_right hi, List.getElem?_singleton]
    split <;> simp

/-- What the loop of `deserialize` keeps after restoring the nodes `pre`: a
    place for each, those emptied being the children taken, each once, and
    every child taken from before its parent. -/
structure Restored (pre : List (SerializedNode T D)) (nodes : List (Option (Node T D))) : Prop where
  length_eq : nodes.length = pre.length
  taken : Taken (references pre) nodes
  before : ∀ j (hj : j < pre.length), ∀ i ∈ pre[j].children, i < j

theorem Restored.nil : Restored ([] : List (SerializedNode T D)) ([] : List (Option (Node T D))) :=
  ⟨rfl, ⟨by simp [references], List.nodup_nil⟩, by simp⟩

/-- One step of the loop of `deserialize` keeps `Restored`. -/
theorem Restored.restoreNode {pre : List (SerializedNode T D)}
    {nodes nodes' : List (Option (Node T D))} {snode : SerializedNode T D} (hr : Restored pre nodes)
    (h : (restoreNode nodes snode : Except (MerkleError D) _) = .ok nodes') :
    Restored (pre ++ [snode]) nodes' := by
  obtain ⟨⟨nodes₁, left⟩, h₁, h⟩ := Except.bind_eq_ok.1 h
  obtain ⟨⟨nodes₂, right⟩, h₂, h⟩ := Except.bind_eq_ok.1 h
  cases h
  obtain ⟨ht₁, hl₁, hlt₁⟩ := hr.taken.takeChild h₁
  obtain ⟨ht₂, hl₂, hlt₂⟩ := ht₁.takeChild h₂
  refine ⟨by simp [hl₂, hl₁, hr.length_eq], ?_, fun j hj i hi => ?_⟩
  · rw [references_append_singleton]
    exact ht₂.push _
  · rcases Nat.lt_or_ge j pre.length with hjp | hjp
    · rw [List.getElem_append_left hjp] at hi
      exact hr.before j hjp i hi
    · -- the children of the node restored now were taken from the places before it
      obtain rfl : j = pre.length := by simp at hj; omega
      rw [List.getElem_append_right (le_refl _)] at hi
      simp only [Nat.sub_self, List.getElem_cons_zero, SerializedNode.children, List.mem_append,
        Option.mem_toList] at hi
      rw [← hr.length_eq]
      rcases hi with hi | hi
      · exact hlt₁ i hi
      · rw [← hl₁]
        exact hlt₂ i hi

/-- The loop of `deserialize` keeps `Restored` over the whole node vector. -/
theorem restored_of_foldlM {snodes : List (SerializedNode T D)} {nodes : List (Option (Node T D))}
    (h : (snodes.foldlM restoreNode [] : Except (MerkleError D) _) = .ok nodes) :
    Restored snodes nodes := by
  have := List.foldlM_except_prefix_induction Restored
    (fun _ _ _ _ hx hy => hx.restoreNode hy) h Restored.nil
  rwa [List.nil_append] at this

/-- After the loop the last place holds a node: no child is taken from it, as
    no node comes after it. -/
theorem Restored.getLast {pre : List (SerializedNode T D)} {nodes : List (Option (Node T D))}
    (hr : Restored pre nodes) (hne : pre ≠ []) :
    ∃ root, nodes[nodes.length - 1]? = some (some root) := by
  have hpos : 0 < nodes.length := by
    rw [hr.length_eq]
    exact List.length_pos_iff.2 hne
  obtain ⟨x, hx⟩ : ∃ x, nodes[nodes.length - 1]? = some x :=
    ⟨_, List.getElem?_eq_getElem (by omega)⟩
  rcases x with _ | root
  · -- a place emptied is a child of some node, which lies after it
    have hmem := (hr.taken.mem_iff _).2 hx
    rw [references, List.mem_flatMap] at hmem
    obtain ⟨snode, hsnode, hchild⟩ := hmem
    obtain ⟨j, hj, rfl⟩ := List.getElem_of_mem hsnode
    have := hr.before j hj _ hchild
    rw [hr.length_eq] at this
    omega
  · exact ⟨root, hx⟩

/-- `deserialize` never panics. -/
theorem deserialize_ok [DecidableEq D] (snodes : List (SerializedNode T D)) :
    ∃ r, deserialize κ snodes = .ok r := by
  rw [deserialize]
  split
  · exact ⟨_, rfl⟩
  · rename_i hlen
    split
    · exact ⟨_, rfl⟩
    · rename_i nodes hfold
      obtain ⟨root, hroot⟩ := (restored_of_foldlM hfold).getLast (by rintro rfl; simp at hlen)
      have hlast : nodes.getLast? = some (some root) := by
        rw [List.getLast?_eq_getElem?]
        exact hroot
      simp [index, expect, hroot, check, hlast, unwrap, bind, Except.bind, pure, Except.pure]

/-- `deserialize` accepts only node vectors in which every node but the last is
    a child of exactly one node, and every child comes before its parent. -/
theorem deserialize_eq_ok_references [DecidableEq D] {snodes : List (SerializedNode T D)}
    {t : Merkle T D} (h : deserialize κ snodes = .ok (.ok t)) :
    (∀ i < snodes.length - 1, (references snodes).count i = 1) ∧
      ∀ j (hj : j < snodes.length), ∀ i ∈ snodes[j].children, i < j := by
  rw [deserialize] at h
  split at h
  · cases h
  · split at h
    · cases h
    · rename_i nodes hfold
      have hr := restored_of_foldlM hfold
      refine ⟨fun i hi => ?_, hr.before⟩
      obtain ⟨_, -, h⟩ := Except.bind_eq_ok.1 h
      obtain ⟨_, -, h⟩ := Except.bind_eq_ok.1 h
      obtain ⟨_, -, h⟩ := Except.bind_eq_ok.1 h
      obtain ⟨_, -, h⟩ := Except.bind_eq_ok.1 h
      -- no node is left before the last one
      have hleft : nodes.dropLast.any Option.isSome = false := by
        cases hany : nodes.dropLast.any Option.isSome
        · rfl
        · simp [hany, pure, Except.pure] at h
      have hlt : i < nodes.length := by
        rw [hr.length_eq]
        omega
      have hget : nodes.dropLast[i]? = some nodes[i] := by
        rw [List.getElem?_dropLast, if_pos (by rw [hr.length_eq]; omega),
          List.getElem?_eq_getElem hlt]
      have hdrop := List.mem_of_getElem? hget
      have hnone : nodes[i] = none :=
        Option.not_isSome_iff_eq_none.1 (by simpa using List.any_eq_false.1 hleft _ hdrop)
      have htaken : nodes[i]? = some none := by rw [List.getElem?_eq_getElem hlt, hnone]
      exact List.count_eq_one_of_mem hr.taken.nodup ((hr.taken.mem_iff i).2 htaken)

/-! ### The trees `from_array` and prunings reach -/

/-- The serialization of a tree that `from_array` and prunings reach
    deserializes to the tree itself, so to one with the same serialization,
    root hash and leaves; and on every node vector `deserialize` does not
    panic, and succeeds only when every node but the last is a child of
    exactly one later node. -/
theorem serialize_roundtrip [DecidableEq D] {src : List T} {t : Merkle T D} (ht : Pruned κ src t) :
    (∃ s, t.serialize = .ok s ∧ ∃ t₂, deserialize κ s = .ok (.ok t₂) ∧ t₂ = t ∧
      t₂.serialize = t.serialize ∧ t₂.roothash = t.roothash ∧ t₂.leafs = t.leafs) ∧
    ∀ snodes : List (SerializedNode T D), (∃ r, deserialize κ snodes = .ok r) ∧
      ∀ t₂, deserialize κ snodes = .ok (.ok t₂) →
        (∀ i < snodes.length - 1, (references snodes).count i = 1) ∧
        ∀ j (hj : j < snodes.length), ∀ i ∈ snodes[j].children, i < j := by
  obtain ⟨hvalid, -⟩ := ht.valid
  obtain ⟨s, hs, hd⟩ := deserialize_serialize κ hvalid
  refine ⟨⟨s, hs, t, hd, rfl, rfl, rfl, rfl⟩, fun snodes =>
    ⟨deserialize_ok κ snodes, fun _ h => deserialize_eq_ok_references κ h⟩⟩

/-- The tree of three values, hashed by the length of what the hasher is fed. -/
theorem serialize_roundtrip_three :
    ∃ t : Merkle ℕ ℕ, Pruned ⟨List.length, 0⟩ [1, 2, 3] t ∧
    (∃ s, t.serialize = .ok s ∧ ∃ t₂, deserialize ⟨List.length, 0⟩ s = .ok (.ok t₂) ∧ t₂ = t ∧
      t₂.serialize = t.serialize ∧ t₂.roothash = t.roothash ∧ t₂.leafs = t.leafs) ∧
    ∀ snodes : List (SerializedNode ℕ ℕ), (∃ r, deserialize ⟨List.length, 0⟩ snodes = .ok r) ∧
      ∀ t₂, deserialize ⟨List.length, 0⟩ snodes = .ok (.ok t₂) →
        (∀ i < snodes.length - 1, (references snodes).count i = 1) ∧
        ∀ j (hj : j < snodes.length), ∀ i ∈ snodes[j].children, i < j :=
  have ht : Pruned (⟨List.length, 0⟩ : Hasher ℕ ℕ) [1, 2, 3]
      ⟨build ⟨List.length, 0⟩ (Nat.clog 2 [1, 2, 3].length) [1, 2, 3]⟩ :=
    .init (fromArray_eq_build _ (by decide) (by decide))
  ⟨_, ht, serialize_roundtrip _ ht⟩

end Stegos.Merkle
