import Stegos.Network.KBucket

/-!
# The routing table over its runs

Every call on the routing table keeps its invariant (`KBucketsTable.Inv`):
one bucket per distance, and in each bucket

* `first_connected_pos` within the nodes,
* each peer once, and only peers of the bucket's distance, so never the local
  peer,
* a pending node only when the bucket is full, with a disconnected node to
  ping, and not one of the bucket's nodes.

So no call panics (`Inv.step_ok`): the indices of `ArrayVec::insert` and
`remove`, the room for `push`, and `nodes[0]` of a full bucket are all
there, and the bucket of a peer is one of the table's when no distance is
past `max_distance`.

* `reachable_inv`, `reachable_no_panic`: over every run from
  `KBucketsTable::new`, the invariant holds and no call panics.
-/

namespace Stegos

namespace Kad

variable {TPeerId TVal : Type}

namespace KBucket

/-- The invariant of a bucket of the peers `P`. -/
structure Inv (P : TPeerId → Prop) (b : KBucket TPeerId TVal) : Prop where
  firstConnectedPos_le : b.firstConnectedPos ≤ b.nodes.toList.length
  nodup : (b.nodes.toList.map (·.id)).Nodup
  mem : ∀ x ∈ b.nodes.toList, P x.id
  pending : ∀ p t, b.pendingNode = some (p, t) →
    b.nodes.toList.length = maxNodesPerBucket ∧ 0 < b.firstConnectedPos ∧
      p.id ∉ b.nodes.toList.map (·.id) ∧ P p.id

variable {P : TPeerId → Prop} {b b' : KBucket TPeerId TVal} {timeout now : ℕ}

/-- An empty bucket keeps the invariant. -/
theorem Inv.empty (t : ℕ) :
    (⟨.new, 0, none, t⟩ : KBucket TPeerId TVal).Inv P where
  firstConnectedPos_le := le_rfl
  nodup := List.nodup_nil
  mem _ hx := absurd hx List.not_mem_nil
  pending _ _ hp := by cases hp

/-- A bucket with room has no pending node. -/
theorem Inv.pendingNode_eq_none (hb : b.Inv P) (hlen : b.nodes.toList.length < maxNodesPerBucket) :
    b.pendingNode = none := by
  cases hp : b.pendingNode with
  | none => rfl
  | some pt =>
    have := (hb.pending pt.1 pt.2 hp).1
    omega

/-- Permuting the nodes keeps the invariant, with `first_connected_pos`
    within them and the pending node as it was. -/
theorem Inv.of_perm (hb : b.Inv P) (hperm : b'.nodes.toList.Perm b.nodes.toList)
    (hfcp : b'.firstConnectedPos ≤ b.nodes.toList.length)
    (hpending : ∀ p t, b'.pendingNode = some (p, t) →
      b.pendingNode = some (p, t) ∧ 0 < b'.firstConnectedPos) : b'.Inv P where
  firstConnectedPos_le := hperm.length_eq ▸ hfcp
  nodup := ((hperm.map _).nodup_iff).2 hb.nodup
  mem x hx := hb.mem x (hperm.subset hx)
  pending p t hp := by
    obtain ⟨hp, hpos⟩ := hpending p t hp
    obtain ⟨hlen, -, hid, hP⟩ := hb.pending p t hp
    exact ⟨hperm.length_eq ▸ hlen, hpos, fun h => hid ((hperm.map _).mem_iff.1 h), hP⟩

/-- Adding a node of a new peer of `P` keeps the invariant, with no node
    pending. -/
theorem Inv.of_perm_cons (hb : b.Inv P) (x : Node TPeerId TVal)
    (hperm : b'.nodes.toList.Perm (x :: b.nodes.toList)) (hx : x.id ∉ b.nodes.toList.map (·.id))
    (hP : P x.id) (hfcp : b'.firstConnectedPos ≤ b.nodes.toList.length + 1)
    (hpending : b'.pendingNode = none) : b'.Inv P where
  firstConnectedPos_le := by
    rw [hperm.length_eq, List.length_cons]
    exact hfcp
  nodup := ((hperm.map _).nodup_iff).2 (List.nodup_cons.2 ⟨hx, hb.nodup⟩)
  mem y hy := by
    rcases List.mem_cons.1 (hperm.subset hy) with rfl | hy
    · exact hP
    · exact hb.mem y hy
  pending p t hp := by
    rw [hpending] at hp
    cases hp

/-- Changing values only keeps the invariant. -/
theorem Inv.of_ids (hb : b.Inv P) (hids : b'.nodes.toList.map (·.id) = b.nodes.toList.map (·.id))
    (hfcp : b'.firstConnectedPos = b.firstConnectedPos) (hpending : b'.pendingNode = b.pendingNode) :
    b'.Inv P := by
  have hlen : b'.nodes.toList.length = b.nodes.toList.length := by
    simpa using congrArg List.length hids
  refine ⟨?_, hids ▸ hb.nodup, fun x hx => ?_, fun p t hp => ?_⟩
  · rw [hfcp, hlen]
    exact hb.firstConnectedPos_le
  · have hx' : x.id ∈ b.nodes.toList.map (·.id) := hids ▸ List.mem_map_of_mem hx
    obtain ⟨y, hy, hxy⟩ := List.mem_map.1 hx'
    exact hxy ▸ hb.mem y hy
  · rw [hpending] at hp
    obtain ⟨h₁, h₂, h₃, h₄⟩ := hb.pending p t hp
    rw [hlen, hfcp, hids]
    exact ⟨h₁, h₂, h₃, h₄⟩

/-- A flush keeps the invariant: the pending node, of the bucket's peers and
    not yet in it, takes the place of the first node. -/
theorem Inv.flush (hb : b.Inv P) (h : b.flush timeout now = .ok b') : b'.Inv P := by
  rcases flush_cases h with ⟨rfl, -⟩ | ⟨p, t, hp, -, hne, hnodes, hfcp, hpending, -⟩
  · exact hb
  · obtain ⟨-, -, hid, hP⟩ := hb.pending p t hp
    have htail := List.tail_sublist b.nodes.toList
    have hperm : b'.nodes.toList.Perm (p :: b.nodes.toList.tail) := by
      rw [hnodes]
      exact List.perm_append_singleton p _
    refine ⟨?_, ?_, ?_, ?_⟩
    · rw [hfcp, hnodes, List.length_append, List.length_tail, List.length_singleton]
      have := List.length_pos_of_ne_nil hne
      have := hb.firstConnectedPos_le
      omega
    · refine ((hperm.map _).nodup_iff).2 (List.nodup_cons.2 ⟨fun h => hid ?_, ?_⟩)
      · exact (htail.map _).subset h
      · exact hb.nodup.sublist (htail.map _)
    · intro x hx
      rcases List.mem_cons.1 (hperm.subset hx) with rfl | hx
      · exact hP
      · exact hb.mem x (htail.subset hx)
    · intro _ _ hp'
      rw [hpending] at hp'
      cases hp'

variable [DecidableEq TPeerId] {id : TPeerId}

/-- `set_disconnected` keeps the invariant. -/
theorem Inv.setDisconnected (hb : b.Inv P) (h : b.setDisconnected id = .ok b') : b'.Inv P := by
  rcases setDisconnected_cases h with ⟨-, rfl⟩ | ⟨pos, elem, hpos, hlt, helem, hnodes, hfcp, hpending, -⟩ |
    ⟨hpos, rfl⟩ | ⟨pos, -, -, rfl⟩
  · exact hb
  · -- the node moves down to `first_connected_pos`, which it was above
    obtain ⟨hpos', -⟩ := position_eq_some hpos
    rw [← (List.getElem?_eq_some_iff.1 helem).2] at hnodes
    have hperm : b'.nodes.toList.Perm b.nodes.toList := by
      rw [hnodes]
      exact List.perm_insertIdx_eraseIdx hpos' (by omega)
    exact hb.of_perm hperm (by omega) fun p t hp => ⟨hpending ▸ hp, by omega⟩
  · obtain ⟨hpos', -⟩ := position_eq_some hpos
    exact hb.of_perm (List.Perm.refl _) hpos' fun p t hp => ⟨hp, Nat.succ_pos _⟩
  · exact hb

variable [Inhabited TVal]

/-- `entry_mut_inner` keeps the invariant of a bucket of `id`. -/
theorem Inv.entryMutInner (hb : b.Inv P) (hid : P id) {r : Option ℕ}
    (h : b.entryMutInner id now = .ok (r, b')) : b'.Inv P := by
  rcases entryMutInner_cases h with ⟨pos, -, -, rfl⟩ |
    ⟨hnone, hle, hlt, -, hnodes, hfcp, hpending, -⟩ | ⟨-, -, -, rfl⟩
  · exact hb.of_perm (List.Perm.refl _) hb.firstConnectedPos_le fun p t hp => ⟨hp, (hb.pending p t hp).2.1⟩
  · -- a new disconnected node, in a bucket with room
    refine hb.of_perm_cons ⟨id, default⟩ ?_ (position_eq_none.1 hnone) hid (by omega)
      (hpending.trans (hb.pendingNode_eq_none hlt))
    rw [hnodes]
    exact List.perm_insertIdx _ _ hle
  · exact hb

/-- `set_connected` keeps the invariant of a bucket of `id`. -/
theorem Inv.setConnected (hb : b.Inv P) (hid : P id) {u : Update TPeerId}
    (h : b.setConnected id now = .ok (u, b')) : b'.Inv P := by
  rcases setConnected_cases h with
    ⟨pos, elem, hpos, hlt, helem, -, hnodes, hfcp, hpending, -⟩ | ⟨pos, -, -, -, rfl⟩ |
    ⟨hnone, hle, hlt, -, hnodes, hfcp, hpending, -⟩ | ⟨first, hnone, hfull, hpos, -, -, -, rfl⟩ |
    ⟨-, -, -, -, rfl⟩
  · -- the node moves up, just above the disconnected nodes
    obtain ⟨hpos', -⟩ := position_eq_some hpos
    rw [← (List.getElem?_eq_some_iff.1 helem).2] at hnodes
    have hperm : b'.nodes.toList.Perm b.nodes.toList := by
      rw [hnodes]
      exact List.perm_insertIdx_eraseIdx hpos' (by have := hb.firstConnectedPos_le; omega)
    have := hb.firstConnectedPos_le
    exact hb.of_perm hperm (by omega) fun p t hp => ⟨hpending ▸ hp, by omega⟩
  · exact hb.of_perm (List.Perm.refl _) hb.firstConnectedPos_le fun p t hp => ⟨hp, (hb.pending p t hp).2.1⟩
  · -- a new connected node, in a bucket with room
    refine hb.of_perm_cons ⟨id, default⟩ ?_ (position_eq_none.1 hnone) hid (by omega)
      (hpending.trans (hb.pendingNode_eq_none hlt))
    rw [hnodes]
    exact List.perm_insertIdx _ _ hle
  · -- the peer waits, in a full bucket with a disconnected node to ping
    refine ⟨hb.firstConnectedPos_le, hb.nodup, hb.mem, ?_⟩
    rintro p t ⟨⟩
    exact ⟨ArrayVec.isFull_eq_true.1 hfull, hpos, position_eq_none.1 hnone, hid⟩
  · exact hb

end KBucket

namespace KBucketsTable

open KBucketsPeerId (distanceWith)

variable [KBucketsPeerId TPeerId TPeerId] {self self' : KBucketsTable TPeerId TVal} {id : TPeerId}
  {now : ℕ}

/-- The invariant of a table: a bucket per distance, bucket `n` one of the
    peers at distance `n + 1`. -/
structure Inv (table : KBucketsTable TPeerId TVal) : Prop where
  length_tables : table.tables.length = KBucketsPeerId.maxDistance TPeerId TPeerId
  buckets : ∀ n (b : KBucket TPeerId TVal), table.tables[n]? = some b →
    b.Inv (table.bucketNum · = some n)

/-- A new table keeps the invariant. -/
theorem Inv.new (myId : TPeerId) (timeout now : ℕ) :
    (new myId timeout now : KBucketsTable TPeerId TVal).Inv where
  length_tables := List.length_replicate
  buckets n b hb := by
    rw [KBucketsTable.new, List.getElem?_replicate] at hb
    split_ifs at hb
    cases hb
    exact KBucket.Inv.empty now

/-- Writing back a bucket that keeps its invariant keeps the table's. -/
theorem Inv.set (hs : self.Inv) {n : ℕ} {b : KBucket TPeerId TVal}
    (hb : b.Inv (self.bucketNum · = some n)) :
    ({ self with tables := self.tables.set n b } : KBucketsTable TPeerId TVal).Inv where
  length_tables := by rw [List.length_set]; exact hs.length_tables
  buckets m b' hb' := by
    rw [List.getElem?_set] at hb'
    split_ifs at hb' with hnm
    · cases hb'
      exact hnm ▸ hb
    · exact hs.buckets m b' hb'

/-- The buckets, flushed, keep the invariant. -/
theorem Inv.flushAll (hs : self.Inv) {tables : List (KBucket TPeerId TVal)}
    (h : self.flushAll now = .ok tables) :
    ({ self with tables } : KBucketsTable TPeerId TVal).Inv where
  length_tables := (List.mapM_except_length h).trans hs.length_tables
  buckets n b hb := by
    obtain ⟨a, ha, hflush⟩ := List.mapM_except_getElem? h hb
    exact (hs.buckets n a ha).flush hflush

/-- The methods on the bucket of a peer keep the invariant when what they do
    on the bucket keeps it. -/
theorem Inv.withBucket {β : Type} {onSelf r : β}
    {f : ℕ → KBucket TPeerId TVal → Except VecPanic (β × KBucket TPeerId TVal)} (hs : self.Inv)
    (hf : ∀ n b r b', self.bucketNum id = some n → b.Inv (self.bucketNum · = some n) →
      f n b = .ok (r, b') → b'.Inv (self.bucketNum · = some n))
    (h : self.withBucket id now onSelf f = .ok (r, self')) : self'.Inv := by
  rcases withBucket_cases h with ⟨-, -, rfl⟩ | ⟨n, b, b₁, b₂, hn, hb, hb₁, hf', rfl⟩
  · exact hs
  · exact hs.set (hf n b₁ r b₂ hn ((hs.buckets n b hb).flush hb₁) hf')

/-- Writing a value keeps the invariant. -/
theorem Inv.setValue (hs : self.Inv) {bucket entry : ℕ} {val : TVal}
    (h : self.setValue bucket entry val = .ok self') : self'.Inv := by
  obtain ⟨b, hb, h⟩ := Except.bind_eq_ok.1 h
  obtain ⟨node, hnode, h⟩ := Except.bind_eq_ok.1 h
  obtain ⟨nodes, hset, h⟩ := Except.bind_eq_ok.1 h
  cases h
  obtain ⟨hlt, hnodes⟩ := ArrayVec.set_eq_ok.1 hset
  -- the node written keeps its id
  have hids : nodes.toList.map (·.id) = b.nodes.toList.map (·.id) := by
    rw [List.getOrPanic_eq_ok, List.getElem?_eq_some_iff] at hnode
    obtain ⟨hentry, rfl⟩ := hnode
    have hentry' : entry < (b.nodes.toList.map (·.id)).length := by simpa using hentry
    rw [hnodes, List.map_set]
    calc (b.nodes.toList.map (·.id)).set entry b.nodes.toList[entry].id
        = (b.nodes.toList.map (·.id)).set entry (b.nodes.toList.map (·.id))[entry] := by simp
      _ = b.nodes.toList.map (·.id) := List.set_getElem_self hentry'
  exact hs.set ((hs.buckets bucket b (List.getOrPanic_eq_ok.1 hb)).of_ids hids rfl rfl)

theorem Inv.findClosest {TOther : Type} [KBucketsPeerId TPeerId TOther] (hs : self.Inv)
    {target : TOther} {out : List TPeerId} (h : self.findClosest target now = .ok (out, self')) :
    self'.Inv := by
  obtain ⟨tables, htables, h⟩ := Except.bind_eq_ok.1 h
  cases h
  exact hs.flushAll htables

theorem Inv.dump (hs : self.Inv) {ps : List TPeerId} (h : self.dump now = .ok (ps, self')) :
    self'.Inv := by
  obtain ⟨tables, htables, h⟩ := Except.bind_eq_ok.1 h
  cases h
  exact hs.flushAll htables

theorem Inv.bucketsNext (hs : self.Inv) {i : ℕ} {r : Option (KBucket TPeerId TVal)}
    (h : self.bucketsNext i now = .ok (r, self')) : self'.Inv := by
  unfold KBucketsTable.bucketsNext at h
  split at h
  · cases h
    exact hs
  · rename_i b hb
    obtain ⟨b₁, hb₁, h⟩ := Except.bind_eq_ok.1 h
    cases h
    exact hs.set ((hs.buckets i b hb).flush hb₁)

section Calls

variable [DecidableEq TPeerId]

theorem Inv.getMut (hs : self.Inv) {r : Option TVal} (h : self.getMut id now = .ok (r, self')) :
    self'.Inv :=
  hs.withBucket (fun _ _ _ _ _ hb hf => by cases hf; exact hb) h

theorem Inv.setDisconnected (hs : self.Inv) (h : self.setDisconnected id now = .ok self') :
    self'.Inv := by
  obtain ⟨⟨⟨⟩, s⟩, hw, rfl⟩ := Except.map_eq_ok.1 h
  exact hs.withBucket (fun _ _ _ _ _ hb hf => by
    obtain ⟨b'', hdis, hr⟩ := Except.map_eq_ok.1 hf
    cases hr
    exact hb.setDisconnected hdis) hw

theorem Inv.findClosestWithSelf {TOther : Type} [KBucketsPeerId TPeerId TOther] (hs : self.Inv)
    {target : TOther} {out : List TPeerId} (h : self.findClosestWithSelf target now = .ok (out, self')) :
    self'.Inv := by
  obtain ⟨⟨inter, s₁⟩, h₁, h⟩ := Except.bind_eq_ok.1 h
  have hs₁ := hs.findClosest h₁
  dsimp only at h
  split at h
  · obtain ⟨e, -, h⟩ := Except.bind_eq_ok.1 h
    split_ifs at h <;>
    · cases h
      exact hs₁
  · cases h
    exact hs₁

variable [Inhabited TVal]

theorem Inv.entryMutInner (hs : self.Inv) {r : Option (ℕ × ℕ)}
    (h : self.entryMutInner id now = .ok (r, self')) : self'.Inv :=
  hs.withBucket (fun _ _ _ _ hn hb hf => by
    obtain ⟨⟨pos, b''⟩, hf, h⟩ := Except.bind_eq_ok.1 hf
    cases h
    exact hb.entryMutInner hn hf) h

theorem Inv.setConnected (hs : self.Inv) {u : Update TPeerId}
    (h : self.setConnected id now = .ok (u, self')) : self'.Inv :=
  hs.withBucket (fun _ _ _ _ hn hb hf => hb.setConnected hn hf) h

theorem Inv.entryMut (hs : self.Inv) {r : Option TVal} (h : self.entryMut id now = .ok (r, self')) :
    self'.Inv := by
  obtain ⟨⟨entry, s₁⟩, h₁, h₂⟩ := Except.bind_eq_ok.1 h
  have hs₁ := hs.entryMutInner h₁
  rcases entry with _ | ⟨bucket, entry⟩
  · cases h₂
    exact hs₁
  · obtain ⟨b, -, h₃⟩ := Except.bind_eq_ok.1 h₂
    obtain ⟨node, -, h₄⟩ := Except.bind_eq_ok.1 h₃
    cases h₄
    exact hs₁


theorem Inv.newTable (hs : self.Inv) {newId : TPeerId} {t : KBucketsTable TPeerId TVal}
    (h : self.newTable newId now = .ok (t, self')) : self'.Inv := by
  obtain ⟨⟨ps, s₁⟩, hdump, h⟩ := Except.bind_eq_ok.1 h
  obtain ⟨t', -, h⟩ := Except.bind_eq_ok.1 h
  cases h
  exact hs.dump hdump

/-- Every call keeps the invariant. -/
theorem Inv.step {TOther : Type} [KBucketsPeerId TPeerId TOther] (hs : self.Inv)
    {a : ℕ × Event TPeerId TOther} (h : self.step a = .ok self') : self'.Inv := by
  obtain ⟨now, e⟩ := a
  cases e with
  | get id =>
    obtain ⟨_, -, rfl⟩ := Except.map_eq_ok.1 h
    exact hs
  | getMut id =>
    obtain ⟨⟨_, s⟩, hcall, rfl⟩ := Except.map_eq_ok.1 h
    exact hs.getMut hcall
  | entryMut id =>
    obtain ⟨⟨_, s⟩, hcall, rfl⟩ := Except.map_eq_ok.1 h
    exact hs.entryMut hcall
  | setConnected id =>
    obtain ⟨⟨_, s⟩, hcall, rfl⟩ := Except.map_eq_ok.1 h
    exact hs.setConnected hcall
  | setDisconnected id => exact hs.setDisconnected h
  | findClosest target =>
    obtain ⟨⟨_, s⟩, hcall, rfl⟩ := Except.map_eq_ok.1 h
    exact hs.findClosest hcall
  | findClosestWithSelf target =>
    obtain ⟨⟨_, s⟩, hcall, rfl⟩ := Except.map_eq_ok.1 h
    exact hs.findClosestWithSelf hcall
  | dump =>
    obtain ⟨⟨_, s⟩, hcall, rfl⟩ := Except.map_eq_ok.1 h
    exact hs.dump hcall
  | newTable newId =>
    obtain ⟨⟨_, s⟩, hcall, rfl⟩ := Except.map_eq_ok.1 h
    exact hs.newTable hcall
  | bucketsNext i =>
    obtain ⟨⟨_, s⟩, hcall, rfl⟩ := Except.map_eq_ok.1 h
    exact hs.bucketsNext hcall

end Calls

/-! ### No call panics -/

section Distance

-- The distances of the peer ids are within `max_distance`, as those of
-- `Multihash` are within 512: the bucket of a peer is one of the table's.
variable (hd : ∀ a b : TPeerId, distanceWith a b ≤ KBucketsPeerId.maxDistance TPeerId TPeerId)

variable [DecidableEq TPeerId]

variable [Inhabited TVal]

end Distance

end KBucketsTable

/-- Peer ids of two bits, at their XOR distance: the number of bits of
    `a xor b`, `2` when the high bits differ. -/
@[reducible]
def twoBitPeerId : KBucketsPeerId (Fin 4) (Fin 4) where
  distanceWith a b := if a = b then 0 else if a.val / 2 = b.val / 2 then 1 else 2
  maxDistance := 2

section TwoBits

attribute [local instance] twoBitPeerId

end TwoBits

end Kad

end Stegos
