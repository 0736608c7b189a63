import Stegos.Lib.ArrayVec
import Stegos.Lib.Except
import Stegos.Lib.Run

/-!
# The k-buckets of the Kademlia routing table

The table of `network/src/kad/kbucket.rs` stores peers by their distance to
the local peer: bucket `n` holds the peers at distance `n + 1`, at most
`MAX_NODES_PER_BUCKET` of them, from the oldest to the newest; the nodes
below `first_connected_pos` are those the node is not connected to. A peer
that connects to a full bucket waits as its pending node, while the node
pings the oldest one; once `unresponsive_timeout` has passed, the next call
on the bucket (`flush`) drops the oldest node and pushes the pending one.

Instants and durations are numbers (of any unit): every call takes the
instant it runs at, `now`. The operations of the `ArrayVec` of nodes and the
indexing of the buckets panic as in Rust (`Stegos.Lib.ArrayVec`).

This module holds the model and what each operation of a bucket does
(`flush_cases`, `entryMutInner_cases`, `setConnected_cases`,
`setDisconnected_cases`, and `withBucket_cases` for the methods of the table
that share its lookup); its invariant over every run, and its other
properties, are in `Stegos.Network.KBucket.Runs`.
-/

namespace Stegos

namespace Kad

/-- `MAX_NODES_PER_BUCKET`: the maximum number of nodes in a bucket. -/
def maxNodesPerBucket : ℕ := 20

/-- `KBucketsPeerId`: the XOR distance of a peer id to another id (the lower
    the closer), and the number of bits a distance has. -/
class KBucketsPeerId (TPeerId : Type) (TOther : Type) where
  distanceWith : TPeerId → TOther → ℕ
  maxDistance : ℕ

open KBucketsPeerId (distanceWith)

/-- `Node`: a peer of a bucket and its value. -/
structure Node (TPeerId TVal : Type) where
  id : TPeerId
  value : TVal
  deriving DecidableEq, Repr

/-- `KBucket`: the nodes of a bucket from the oldest to the newest, the index
    from which they are connected, the node waiting for room with the instant
    it came, and the instant of the last update. -/
structure KBucket (TPeerId TVal : Type) where
  nodes : ArrayVec (Node TPeerId TVal) maxNodesPerBucket
  firstConnectedPos : ℕ
  pendingNode : Option (Node TPeerId TVal × ℕ)
  latestUpdate : ℕ

/-- `KBucketsTable`: the local peer id, one bucket per distance, and the time
    after which an unanswered oldest node gives way to a pending one. -/
structure KBucketsTable (TPeerId TVal : Type) where
  myId : TPeerId
  tables : List (KBucket TPeerId TVal)
  unresponsiveTimeout : ℕ

/-- `Update`: what `set_connected` did. -/
inductive Update (TPeerId : Type)
  | Added
  | Updated
  | Pending (toPing : TPeerId)
  | Discarded
  | FailSelfUpdate
  deriving DecidableEq, Repr

variable {TPeerId TVal : Type}

namespace KBucket

/-- `flush`: a pending node that has waited `timeout` takes the place of the
    first node, pushed at the end of the bucket; one that has not stays
    pending. -/
def flush (self : KBucket TPeerId TVal) (timeout now : ℕ) : Except VecPanic (KBucket TPeerId TVal) :=
  match self.pendingNode with
  | some (pendingNode, instant) =>
    if timeout ≤ now - instant then do
      let (_, nodes) ← self.nodes.remove 0
      let nodes ← nodes.push pendingNode
      pure { self with nodes, pendingNode := none }
    else pure self
  | none => pure self

variable [DecidableEq TPeerId] [Inhabited TVal]

/-- The position of `id` in the bucket: `nodes.iter().position(..)`. -/
def position (self : KBucket TPeerId TVal) (id : TPeerId) : Option ℕ :=
  self.nodes.toList.findIdx? (·.id == id)

/-- The part of `entry_mut_inner` on the flushed bucket: the position of `id`,
    where it is added, disconnected, if absent and there is room. -/
def entryMutInner (table : KBucket TPeerId TVal) (id : TPeerId) (now : ℕ) :
    Except VecPanic (Option ℕ × KBucket TPeerId TVal) :=
  match table.position id with
  | some pos => pure (some pos, { table with latestUpdate := now })
  | none =>
    if !table.nodes.isFull then do
      let nodes ← table.nodes.insert table.firstConnectedPos ⟨id, default⟩
      let table :=
        { table with nodes, firstConnectedPos := table.firstConnectedPos + 1, latestUpdate := now }
      pure (some (table.firstConnectedPos - 1), table)
    else pure (none, table)

/-- The part of `set_connected` on the flushed bucket. A node there moves up
    to the connected ones when it is below `first_connected_pos - 1`
    (`saturating_sub(1)`); an absent one is added connected if there is room,
    or else becomes the pending node if there is a disconnected node to ping
    and no node pending. -/
def setConnected (table : KBucket TPeerId TVal) (id : TPeerId) (now : ℕ) :
    Except VecPanic (Update TPeerId × KBucket TPeerId TVal) :=
  match table.position id with
  | some pos => do
    let table ← if pos < table.firstConnectedPos - 1 then do
        let (elem, nodes) ← table.nodes.remove pos
        let firstConnectedPos := table.firstConnectedPos - 1
        let nodes ← nodes.insert firstConnectedPos elem
        pure { table with nodes, firstConnectedPos }
      else pure table
    pure (.Updated, { table with latestUpdate := now })
  | none =>
    if !table.nodes.isFull then do
      let nodes ← table.nodes.insert table.firstConnectedPos ⟨id, default⟩
      pure (.Added, { table with nodes, latestUpdate := now })
    else if 0 < table.firstConnectedPos ∧ table.pendingNode.isNone then do
      let first ← table.nodes.toList.getOrPanic 0
      pure (.Pending first.id, { table with pendingNode := some (⟨id, default⟩, now) })
    else pure (.Discarded, table)

/-- The part of `set_disconnected` on the flushed bucket: a connected node
    moves down to be the last of the disconnected ones. -/
def setDisconnected (table : KBucket TPeerId TVal) (id : TPeerId) :
    Except VecPanic (KBucket TPeerId TVal) :=
  match table.position id with
  | none => pure table
  | some pos =>
    if table.firstConnectedPos < pos then do
      let (elem, nodes) ← table.nodes.remove pos
      let nodes ← nodes.insert table.firstConnectedPos elem
      pure { table with nodes, firstConnectedPos := table.firstConnectedPos + 1 }
    else if pos = table.firstConnectedPos then
      pure { table with firstConnectedPos := table.firstConnectedPos + 1 }
    else pure table

end KBucket

namespace KBucketsTable

/-- `KBucketsTable::new`: `max_distance` empty buckets. -/
def new [KBucketsPeerId TPeerId TPeerId] (myId : TPeerId) (unresponsiveTimeout now : ℕ) :
    KBucketsTable TPeerId TVal where
  myId
  tables := List.replicate (KBucketsPeerId.maxDistance TPeerId TPeerId)
    { nodes := .new, firstConnectedPos := 0, pendingNode := none, latestUpdate := now }
  unresponsiveTimeout

/-- `size`: the number of nodes, pending ones apart. -/
def size (self : KBucketsTable TPeerId TVal) : ℕ :=
  (self.tables.map (·.nodes.toList.length)).sum

variable [DecidableEq TPeerId] [Inhabited TVal] [KBucketsPeerId TPeerId TPeerId]

/-- `bucket_num`: the bucket of `id`, at its distance minus one; none for a
    peer at distance `0`, as the local one. -/
def bucketNum (self : KBucketsTable TPeerId TVal) (id : TPeerId) : Option ℕ :=
  let d := distanceWith self.myId id
  if 0 < d then some (d - 1) else none

/-- `get`: the value of `id`, pending nodes apart, without a flush. -/
def get (self : KBucketsTable TPeerId TVal) (id : TPeerId) : Except VecPanic (Option TVal) :=
  match self.bucketNum id with
  | none => pure none
  | some n => do
    let table ← self.tables.getOrPanic n
    pure ((table.nodes.toList.find? (·.id == id)).map (·.value))

/-- What `get_mut`, `entry_mut_inner`, `set_connected` and
    `set_disconnected` share: the bucket of `id` is flushed and `f` runs on
    it; `onSelf` is the answer for the local id, which has no bucket. -/
def withBucket {β : Type} (self : KBucketsTable TPeerId TVal) (id : TPeerId) (now : ℕ) (onSelf : β)
    (f : ℕ → KBucket TPeerId TVal → Except VecPanic (β × KBucket TPeerId TVal)) :
    Except VecPanic (β × KBucketsTable TPeerId TVal) :=
  match self.bucketNum id with
  | none => pure (onSelf, self)
  | some n => do
    let table ← self.tables.getOrPanic n
    let table ← table.flush self.unresponsiveTimeout now
    let (r, table) ← f n table
    pure (r, { self with tables := self.tables.set n table })

/-- `get_mut`: the value of `id`, after a flush of its bucket. -/
def getMut (self : KBucketsTable TPeerId TVal) (id : TPeerId) (now : ℕ) :
    Except VecPanic (Option TVal × KBucketsTable TPeerId TVal) :=
  self.withBucket id now none fun _ table =>
    pure ((table.nodes.toList.find? (·.id == id)).map (·.value), table)

/-- `entry_mut_inner`: the bucket and the position of `id`, added if absent
    and there is room. -/
def entryMutInner (self : KBucketsTable TPeerId TVal) (id : TPeerId) (now : ℕ) :
    Except VecPanic (Option (ℕ × ℕ) × KBucketsTable TPeerId TVal) :=
  self.withBucket id now none fun bucketNum table => do
    let (pos, table) ← table.entryMutInner id now
    pure (pos.map (bucketNum, ·), table)

/-- `entry_mut`: the value at the place `entry_mut_inner` gives. -/
def entryMut (self : KBucketsTable TPeerId TVal) (id : TPeerId) (now : ℕ) :
    Except VecPanic (Option TVal × KBucketsTable TPeerId TVal) := do
  let (entry, self) ← self.entryMutInner id now
  match entry with
  | some (bucket, entry) => do
    let table ← self.tables.getOrPanic bucket
    let node ← table.nodes.toList.getOrPanic entry
    pure (some node.value, self)
  | none => pure (none, self)

/-- `set_connected`. -/
def setConnected (self : KBucketsTable TPeerId TVal) (id : TPeerId) (now : ℕ) :
    Except VecPanic (Update TPeerId × KBucketsTable TPeerId TVal) :=
  self.withBucket id now .FailSelfUpdate fun _ table => table.setConnected id now

/-- `set_disconnected`. -/
def setDisconnected (self : KBucketsTable TPeerId TVal) (id : TPeerId) (now : ℕ) :
    Except VecPanic (KBucketsTable TPeerId TVal) :=
  Prod.snd <$> self.withBucket id now () fun _ table => (((), ·)) <$> table.setDisconnected id

/-- The buckets flushed in turn, as the loops of `find_closest` and `dump`
    do. -/
def flushAll (self : KBucketsTable TPeerId TVal) (now : ℕ) :
    Except VecPanic (List (KBucket TPeerId TVal)) :=
  self.tables.mapM (·.flush self.unresponsiveTimeout now)

/-- The ids of the nodes of the buckets `tables`, bucket after bucket. -/
def ids (tables : List (KBucket TPeerId TVal)) : List TPeerId :=
  tables.flatMap (·.nodes.toList.map (·.id))

/-- `find_closest`: the ids of the buckets updated within the timeout, sorted
    by their distance to `id` (`sort_by` is stable, as `mergeSort` is). -/
def findClosest {TOther : Type} [KBucketsPeerId TPeerId TOther] (self : KBucketsTable TPeerId TVal)
    (id : TOther) (now : ℕ) : Except VecPanic (List TPeerId × KBucketsTable TPeerId TVal) := do
  let tables ← self.flushAll now
  -- a bucket not updated for longer than the timeout is skipped
  let out := ids (tables.filter fun table => now - table.latestUpdate ≤ self.unresponsiveTimeout)
  pure (out.mergeSort fun a b => distanceWith a id ≤ distanceWith b id, { self with tables })

/-- `find_closest_with_self`: the local id put before the first id at least as
    far from `id`, or at the end. -/
def findClosestWithSelf {TOther : Type} [KBucketsPeerId TPeerId TOther]
    (self : KBucketsTable TPeerId TVal) (id : TOther) (now : ℕ) :
    Except VecPanic (List TPeerId × KBucketsTable TPeerId TVal) := do
  let (intermediate, self) ← self.findClosest id now
  match intermediate.findIdx? (fun e => distanceWith self.myId id ≤ distanceWith e id) with
  | some pos => do
    let e ← intermediate.getOrPanic pos
    if e ≠ self.myId then pure (intermediate.insertIdx pos self.myId, self)
    else pure (intermediate, self)
  | none => pure (intermediate ++ [self.myId], self)

/-- `dump`: the ids of all the buckets, flushed. -/
def dump (self : KBucketsTable TPeerId TVal) (now : ℕ) :
    Except VecPanic (List TPeerId × KBucketsTable TPeerId TVal) := do
  let tables ← self.flushAll now
  pure (ids tables, { self with tables })

/-- `*entry = val` through the reference `entry_mut` returns:
    `tables[bucket].nodes[entry].value = val`. -/
def setValue (self : KBucketsTable TPeerId TVal) (bucket entry : ℕ) (val : TVal) :
    Except VecPanic (KBucketsTable TPeerId TVal) := do
  let table ← self.tables.getOrPanic bucket
  let node ← table.nodes.toList.getOrPanic entry
  let nodes ← table.nodes.set entry { node with value := val }
  pure { self with tables := self.tables.set bucket { table with nodes } }

/-- The loop of `new_table` on a peer `p` of this table: its entry in the new
    table, where there is room, takes its value here. -/
def copyEntry (self : KBucketsTable TPeerId TVal) (now : ℕ) (newTable : KBucketsTable TPeerId TVal)
    (p : TPeerId) : Except VecPanic (KBucketsTable TPeerId TVal) := do
  let (entry, newTable) ← newTable.entryMutInner p now
  match entry with
  | none => pure newTable
  | some (bucket, entry) =>
    match ← self.get p with
    | none => pure newTable
    | some val => newTable.setValue bucket entry val

/-- `new_table`: a table of `newId` with the ids of this one, each with its
    value, where the new table has room. -/
def newTable (self : KBucketsTable TPeerId TVal) (newId : TPeerId) (now : ℕ) :
    Except VecPanic (KBucketsTable TPeerId TVal × KBucketsTable TPeerId TVal) := do
  let newTable := new newId self.unresponsiveTimeout now
  let (ps, self) ← self.dump now
  let newTable ← ps.foldlM (self.copyEntry now) newTable
  pure (newTable, self)

/-- `BucketsIter::next` at bucket `i` of `buckets()`: the bucket, flushed
    (its `num_entries`, `has_pending` and `latest_update`), or the end. -/
def bucketsNext (self : KBucketsTable TPeerId TVal) (i now : ℕ) :
    Except VecPanic (Option (KBucket TPeerId TVal) × KBucketsTable TPeerId TVal) :=
  match self.tables[i]? with
  | none => pure (none, self)
  | some bucket => do
    let bucket ← bucket.flush self.unresponsiveTimeout now
    pure (some bucket, { self with tables := self.tables.set i bucket })

/-- The calls on a table, at an instant: those of the local node on its
    routing table. -/
inductive Event (TPeerId TOther : Type)
  | get (id : TPeerId)
  | getMut (id : TPeerId)
  | entryMut (id : TPeerId)
  | setConnected (id : TPeerId)
  | setDisconnected (id : TPeerId)
  | findClosest (id : TOther)
  | findClosestWithSelf (id : TOther)
  | dump
  | newTable (newId : TPeerId)
  | bucketsNext (i : ℕ)

/-- A call at the instant `now`, and the table it leaves. -/
def step {TOther : Type} [KBucketsPeerId TPeerId TOther] (self : KBucketsTable TPeerId TVal) :
    ℕ × Event TPeerId TOther → Except VecPanic (KBucketsTable TPeerId TVal)
  | (_, .get id) => (fun _ => self) <$> self.get id
  | (now, .getMut id) => Prod.snd <$> self.getMut id now
  | (now, .entryMut id) => Prod.snd <$> self.entryMut id now
  | (now, .setConnected id) => Prod.snd <$> self.setConnected id now
  | (now, .setDisconnected id) => self.setDisconnected id now
  | (now, .findClosest id) => Prod.snd <$> self.findClosest id now
  | (now, .findClosestWithSelf id) => Prod.snd <$> self.findClosestWithSelf id now
  | (now, .dump) => Prod.snd <$> self.dump now
  | (now, .newTable newId) => Prod.snd <$> self.newTable newId now
  | (now, .bucketsNext i) => Prod.snd <$> self.bucketsNext i now

end KBucketsTable

namespace KBucket

variable {self self' : KBucket TPeerId TVal} {timeout now : ℕ}

/-- A flush leaves the bucket as it was, with no pending node that has waited
    `timeout`, or drops the first node for the pending one, which has. -/
theorem flush_cases (h : self.flush timeout now = .ok self') :
    (self' = self ∧ ∀ p t, self.pendingNode = some (p, t) → now - t < timeout) ∨
    ∃ p t, self.pendingNode = some (p, t) ∧ timeout ≤ now - t ∧
      self.nodes.toList ≠ [] ∧ self'.nodes.toList = self.nodes.toList.tail ++ [p] ∧
      self'.firstConnectedPos = self.firstConnectedPos ∧ self'.pendingNode = none ∧
      self'.latestUpdate = self.latestUpdate := by
  unfold flush at h
  split at h
  · rename_i p t hp
    split_ifs at h with ht
    · obtain ⟨⟨d, nodes⟩, hrem, h⟩ := Except.bind_eq_ok.1 h
      obtain ⟨nodes', hpush, h⟩ := Except.bind_eq_ok.1 h
      cases h
      obtain ⟨hlen, -, hnodes⟩ := ArrayVec.remove_eq_ok.1 hrem
      refine .inr ⟨p, t, hp, ht, List.ne_nil_of_length_pos hlen, ?_, rfl, rfl, rfl⟩
      rw [(ArrayVec.push_eq_ok.1 hpush).2, hnodes, List.eraseIdx_zero]
    · cases h
      refine .inl ⟨rfl, fun p' t' hp' => ?_⟩
      rw [hp] at hp'
      cases hp'
      omega
  · cases h
    rename_i hp
    exact .inl ⟨rfl, fun p t hp' => absurd (hp ▸ hp') (Option.some_ne_none _).symm⟩

variable [DecidableEq TPeerId] {id : TPeerId}

theorem position_eq_none : self.position id = none ↔ id ∉ self.nodes.toList.map (·.id) := by
  simp [position, List.findIdx?_eq_none_iff]

theorem position_eq_some {pos : ℕ} (h : self.position id = some pos) :
    ∃ hpos : pos < self.nodes.toList.length, self.nodes.toList[pos].id = id := by
  obtain ⟨hpos, heq, -⟩ := List.findIdx?_eq_some_iff_getElem.1 h
  exact ⟨hpos, by simpa using heq⟩

/-- What `set_disconnected` does on a bucket: moves a node found among the
    connected ones down to be the last disconnected one, and leaves the
    others where they are. -/
theorem setDisconnected_cases (h : self.setDisconnected id = .ok self') :
    (self.position id = none ∧ self' = self) ∨
    (∃ pos elem, self.position id = some pos ∧ self.firstConnectedPos < pos ∧
      self.nodes.toList[pos]? = some elem ∧
      self'.nodes.toList = (self.nodes.toList.eraseIdx pos).insertIdx self.firstConnectedPos elem ∧
      self'.firstConnectedPos = self.firstConnectedPos + 1 ∧ self'.pendingNode = self.pendingNode ∧
      self'.latestUpdate = self.latestUpdate) ∨
    (self.position id = some self.firstConnectedPos ∧
      self' = { self with firstConnectedPos := self.firstConnectedPos + 1 }) ∨
    (∃ pos, self.position id = some pos ∧ pos < self.firstConnectedPos ∧ self' = self) := by
  unfold setDisconnected at h
  split at h
  · rename_i hnone
    cases h
    exact .inl ⟨hnone, rfl⟩
  · rename_i pos hpos
    split_ifs at h with hlt heq
    · obtain ⟨⟨elem, nodes⟩, hrem, h⟩ := Except.bind_eq_ok.1 h
      obtain ⟨nodes', hins, h⟩ := Except.bind_eq_ok.1 h
      cases h
      obtain ⟨hpos', rfl, hnodes⟩ := ArrayVec.remove_eq_ok.1 hrem
      refine .inr (.inl ⟨pos, _, hpos, hlt, List.getElem?_eq_getElem hpos', ?_, rfl, rfl, rfl⟩)
      rw [(ArrayVec.insert_eq_ok.1 hins).2.2, hnodes]
    · cases h
      exact .inr (.inr (.inl ⟨heq ▸ hpos, rfl⟩))
    · cases h
      exact .inr (.inr (.inr ⟨pos, hpos, by omega, rfl⟩))

variable [Inhabited TVal]

/-- `entry_mut_inner` on a bucket finds `id`, adds it at
    `first_connected_pos`, the last of the disconnected nodes, or finds the
    bucket full. -/
theorem entryMutInner_cases {r : Option ℕ} (h : self.entryMutInner id now = .ok (r, self')) :
    (∃ pos, self.position id = some pos ∧ r = some pos ∧ self' = { self with latestUpdate := now }) ∨
    (self.position id = none ∧ self.firstConnectedPos ≤ self.nodes.toList.length ∧
      self.nodes.toList.length < maxNodesPerBucket ∧ r = some self.firstConnectedPos ∧
      self'.nodes.toList = self.nodes.toList.insertIdx self.firstConnectedPos ⟨id, default⟩ ∧
      self'.firstConnectedPos = self.firstConnectedPos + 1 ∧ self'.pendingNode = self.pendingNode ∧
      self'.latestUpdate = now) ∨
    (self.position id = none ∧ self.nodes.isFull ∧ r = none ∧ self' = self) := by
  unfold entryMutInner at h
  split at h
  · rename_i pos hpos
    cases h
    exact .inl ⟨pos, hpos, rfl, rfl⟩
  · rename_i hnone
    split_ifs at h with hfull
    · obtain ⟨nodes, hins, h⟩ := Except.bind_eq_ok.1 h
      cases h
      obtain ⟨hle, hlt, hnodes⟩ := ArrayVec.insert_eq_ok.1 hins
      exact .inr (.inl ⟨hnone, hle, hlt, by simp, hnodes, rfl, rfl, rfl⟩)
    · cases h
      exact .inr (.inr ⟨hnone, by simpa using hfull, rfl, rfl⟩)

/-- What `set_connected` does on a bucket: moves a node found below
    `first_connected_pos - 1` up to the connected ones, leaves one found
    elsewhere where it is, adds an absent one connected if there is room, and
    else makes it the pending node or discards it. -/
theorem setConnected_cases {u : Update TPeerId} (h : self.setConnected id now = .ok (u, self')) :
    (∃ pos elem, self.position id = some pos ∧ pos + 1 < self.firstConnectedPos ∧
      self.nodes.toList[pos]? = some elem ∧ u = .Updated ∧
      self'.nodes.toList = (self.nodes.toList.eraseIdx pos).insertIdx (self.firstConnectedPos - 1) elem ∧
      self'.firstConnectedPos = self.firstConnectedPos - 1 ∧ self'.pendingNode = self.pendingNode ∧
      self'.latestUpdate = now) ∨
    (∃ pos, self.position id = some pos ∧ self.firstConnectedPos ≤ pos + 1 ∧ u = .Updated ∧
      self' = { self with latestUpdate := now }) ∨
    (self.position id = none ∧ self.firstConnectedPos ≤ self.nodes.toList.length ∧
      self.nodes.toList.length < maxNodesPerBucket ∧ u = .Added ∧
      self'.nodes.toList = self.nodes.toList.insertIdx self.firstConnectedPos ⟨id, default⟩ ∧
      self'.firstConnectedPos = self.firstConnectedPos ∧ self'.pendingNode = self.pendingNode ∧
      self'.latestUpdate = now) ∨
    (∃ first, self.position id = none ∧ self.nodes.isFull ∧ 0 < self.firstConnectedPos ∧
      self.pendingNode = none ∧ self.nodes.toList[0]? = some first ∧ u = .Pending first.id ∧
      self' = { self with pendingNode := some (⟨id, default⟩, now) }) ∨
    (self.position id = none ∧ self.nodes.isFull ∧
      (self.firstConnectedPos = 0 ∨ self.pendingNode.isSome) ∧ u = .Discarded ∧ self' = self) := by
  unfold setConnected at h
  split at h
  · rename_i pos hpos
    dsimp only at h
    split_ifs at h with hlt
    · -- the node moves up, just above the disconnected ones
      obtain ⟨⟨elem, nodes⟩, hrem, h⟩ := Except.bind_eq_ok.1 h
      obtain ⟨nodes', hins, h⟩ := Except.bind_eq_ok.1 h
      cases h
      obtain ⟨hpos', rfl, hnodes⟩ := ArrayVec.remove_eq_ok.1 hrem
      refine .inl ⟨pos, _, hpos, by omega, List.getElem?_eq_getElem hpos', rfl, ?_, rfl, rfl, rfl⟩
      rw [(ArrayVec.insert_eq_ok.1 hins).2.2, hnodes]
    · cases h
      exact .inr (.inl ⟨pos, hpos, by omega, rfl, rfl⟩)
  · rename_i hnone
    split_ifs at h with hfull hpending
    · obtain ⟨nodes, hins, h⟩ := Except.bind_eq_ok.1 h
      cases h
      obtain ⟨hle, hlt, hnodes⟩ := ArrayVec.insert_eq_ok.1 hins
      exact .inr (.inr (.inl ⟨hnone, hle, hlt, rfl, hnodes, rfl, rfl, rfl⟩))
    · obtain ⟨first, hfirst, h⟩ := Except.bind_eq_ok.1 h
      cases h
      refine .inr (.inr (.inr (.inl ⟨first, hnone, by simpa using hfull, hpending.1, ?_,
        List.getOrPanic_eq_ok.1 hfirst, rfl, rfl⟩)))
      simpa using hpending.2
    · cases h
      refine .inr (.inr (.inr (.inr ⟨hnone, by simpa using hfull, ?_, rfl, rfl⟩)))
      rw [not_and_or, Nat.not_lt, Nat.le_zero, Bool.not_eq_true, Option.isNone_eq_false_iff] at hpending
      exact hpending
    

end KBucket

namespace KBucketsTable

variable [KBucketsPeerId TPeerId TPeerId] {self self' : KBucketsTable TPeerId TVal} {id : TPeerId}
  {now : ℕ}

/-- The methods that share `withBucket` answer `onSelf` for the local id, and
    otherwise run on the bucket of `id`, flushed, and write it back. -/
theorem withBucket_cases {β : Type} {onSelf r : β}
    {f : ℕ → KBucket TPeerId TVal → Except VecPanic (β × KBucket TPeerId TVal)}
    (h : self.withBucket id now onSelf f = .ok (r, self')) :
    (self.bucketNum id = none ∧ r = onSelf ∧ self' = self) ∨
    ∃ n b b₁ b₂, self.bucketNum id = some n ∧ self.tables[n]? = some b ∧
      b.flush self.unresponsiveTimeout now = .ok b₁ ∧ f n b₁ = .ok (r, b₂) ∧
      self' = { self with tables := self.tables.set n b₂ } := by
  unfold withBucket at h
  split at h
  · rename_i hn
    cases h
    exact .inl ⟨hn, rfl, rfl⟩
  · rename_i n hn
    obtain ⟨b, hb, h⟩ := Except.bind_eq_ok.1 h
    obtain ⟨b₁, hb₁, h⟩ := Except.bind_eq_ok.1 h
    obtain ⟨⟨r', b₂⟩, hf, h⟩ := Except.bind_eq_ok.1 h
    cases h
    exact .inr ⟨n, b, b₁, b₂, hn, List.getOrPanic_eq_ok.1 hb, hb₁, hf, rfl⟩

end KBucketsTable

end Kad

end Stegos
