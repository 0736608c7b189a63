import Stegos.Lib.Except
import Stegos.Lib.Run
import Stegos.Lib.TreeMap

/-!
# Multi-versioned maps

`MultiVersionedMap` (`mvcc.rs`) is an ordered map with an undo log. Every
`insert` and `remove` at a log sequence number (lsn) pushes the records that
undo it; `rollback_to_lsn` pops and replays them down to a given lsn; and
`checkpoint` drops them, returning the patch from the checkpointed contents to
the current ones.

The map is a `Std.ExtTreeMap` (the code's `BTreeMap`), the undo log a list with
its most recent record first (the code's `Vec`, pushed and popped at its end),
and a panic an `Except.error` carrying the text of the failed assertion.

The abstract view of a run (`History`) is the contents at the last checkpoint,
and the lsn and contents right after every operation since. The main result,
`rollbackToLsn_history`: after any run of `insert`, `remove` and `checkpoint`
calls that does not panic, a rollback to any lsn at or after the last
checkpoint does not panic either, leaves the contents right after the last
operation at or before that lsn, and a current lsn at or before it. The
invariant behind it (`Undoes`) says how the undo log takes the current contents
back through the versions.

The patch of a checkpoint is exact (`checkpoint_exact`): written to the disk
over the contents at the previous checkpoint (`writeLog`), it gives the current
contents, and it names only keys that a call since inserted, or removed while
present.

The blockchain writes each of its maps at the position of the block it
applies and rolls them back to the block before. What it needs of a rollback
is a frame property (`WrittenAt`): writes at `lsn` change nothing that a
rollback to a position before `lsn` returns, so rolling back a map written
at `lsn` over a log that ended before gives the map before the writes.
-/

namespace Stegos

/-- The undo record: what undoes one change of the map. -/
inductive UndoRecord (K V L : Type*) where
  /-- Undo the insertion of a fresh key: remove it. -/
  | remove (lsn : L) (key : K)
  /-- Undo a change of a present key: insert its old value. -/
  | insert (lsn : L) (key : K) (value : V)
  deriving DecidableEq

namespace UndoRecord

variable {K V L : Type*}

/-- The lsn of the change that the record undoes. -/
def lsn : UndoRecord K V L → L
  | remove lsn _ => lsn
  | insert lsn _ _ => lsn

/-- The key of the change that the record undoes. -/
def key : UndoRecord K V L → K
  | remove _ key => key
  | insert _ key _ => key

/-- The lsn of the most recent record of an undo log, or the checkpoint's
    when the log is empty. -/
def lastLsn (checkpointLsn : L) : List (UndoRecord K V L) → L
  | r :: _ => r.lsn
  | [] => checkpointLsn

end UndoRecord

/-- A wrapper around an ordered map which supports versioning. -/
structure MultiVersionedMap (K V L : Type*) [Ord K] where
  /-- The actual underlying storage. -/
  map : Std.ExtTreeMap K V compare
  /-- The undo log, a.k.a. the rollback segment, most recent record first. -/
  undo : List (UndoRecord K V L)
  /-- The lsn of the latest checkpoint. -/
  checkpointLsn : L

namespace MultiVersionedMap

variable {K V L : Type*} [Ord K] [Std.TransOrd K] [LinearOrder L]

/-- Creates an empty map, checkpointed at the default lsn. -/
def new [Inhabited L] : MultiVersionedMap K V L where
  map := ∅
  undo := []
  checkpointLsn := default

/-- `current_lsn()`: the lsn of the last undo record, or of the checkpoint. -/
def currentLsn (m : MultiVersionedMap K V L) : L :=
  UndoRecord.lastLsn m.checkpointLsn m.undo

/-- `get(key)`. -/
def get (m : MultiVersionedMap K V L) (key : K) : Option V := m.map[key]?

/-- `insert(lsn, key, value)`: returns the previous value. An overwrite pushes
    the record restoring the old value below the one removing the key. -/
def insert (m : MultiVersionedMap K V L) (lsn : L) (key : K) (value : V) :
    Except String (Option V × MultiVersionedMap K V L) :=
  if m.currentLsn ≤ lsn then
    let r := m.map[key]?
    let undo := match r with
      | some prev => .insert lsn key prev :: m.undo
      | none => m.undo
    .ok (r, { m with map := m.map.insert key value, undo := .remove lsn key :: undo })
  else .error "lsn must not decrease"

/-- `remove(lsn, key)`: returns the removed value. Removing an absent key
    pushes no record. -/
def remove (m : MultiVersionedMap K V L) (lsn : L) (key : K) :
    Except String (Option V × MultiVersionedMap K V L) :=
  if m.currentLsn ≤ lsn then
    let r := m.map[key]?
    let undo := match r with
      | some prev => .insert lsn key prev :: m.undo
      | none => m.undo
    .ok (r, { m with map := m.map.erase key, undo := undo })
  else .error "lsn must not decrease"

/-- `reverse_patch(undo)`: for every key that the records of `undo` touch, its
    current value (`none` for an absent key). -/
def reversePatch (m : MultiVersionedMap K V L) (undo : List (UndoRecord K V L)) :
    Std.ExtTreeMap K (Option V) compare :=
  -- the code walks the log from its oldest record
  undo.reverse.foldl
    (fun result r => if (result[r.key]?).isSome then result else result.insert r.key m.map[r.key]?)
    ∅

/-- `checkpoint()`: drops the undo log, moves the checkpoint to the current
    lsn, and returns the patch of the keys the dropped records touched. (Its
    assertion that the current lsn is then the checkpoint's holds by
    `currentLsn`.) -/
def checkpoint (m : MultiVersionedMap K V L) :
    Std.ExtTreeMap K (Option V) compare × MultiVersionedMap K V L :=
  let m' := { m with undo := [], checkpointLsn := m.currentLsn }
  (m'.reversePatch m.undo, m')

omit [LinearOrder L] in
@[simp]
theorem checkpoint_currentLsn (m : MultiVersionedMap K V L) :
    m.checkpoint.2.currentLsn = m.currentLsn := rfl

/-- The loop of `rollback_to_lsn`: while the current lsn is after `toLsn`, pop
    the most recent record and replay it. A popped record's lsn is the current
    lsn, so the code's assertion that it is after `toLsn` is the loop
    condition. -/
def rollbackLoop (toLsn checkpointLsn : L) :
    Std.ExtTreeMap K V compare → List (UndoRecord K V L) →
      Except String (Std.ExtTreeMap K V compare × List (UndoRecord K V L))
  | map, [] =>
    if toLsn < checkpointLsn then .error "rollback before the checkpoint" else .ok (map, [])
  | map, r :: undo =>
    if toLsn < r.lsn then
      match r with
      | .insert _ key value =>
        if (map[key]?).isSome then .error "duplicate key"
        else rollbackLoop toLsn checkpointLsn (map.insert key value) undo
      | .remove _ key =>
        if (map[key]?).isSome then rollbackLoop toLsn checkpointLsn (map.erase key) undo
        else .error "key exists"
    else .ok (map, r :: undo)

/-- `rollback_to_lsn(to_lsn)`. -/
def rollbackToLsn (m : MultiVersionedMap K V L) (toLsn : L) :
    Except String (MultiVersionedMap K V L) :=
  if toLsn < m.checkpointLsn then .error "too old"
  else do
    let (map, undo) ← rollbackLoop toLsn m.checkpointLsn m.map m.undo
    let m' := { m with map := map, undo := undo }
    if m'.currentLsn ≤ toLsn then .ok m' else .error "assertion failed: current_lsn <= to_lsn"

/-- `reset()`: back to the state of `new`. -/
def reset [Inhabited L] (_ : MultiVersionedMap K V L) : MultiVersionedMap K V L := new

/-! ### Runs and their history -/

/-- A call of the map's update methods. -/
inductive Call (K V L : Type*) where
  | insert (lsn : L) (key : K) (value : V)
  | remove (lsn : L) (key : K)
  | checkpoint

/-- The map after a call (its returned value dropped). -/
def apply (m : MultiVersionedMap K V L) : Call K V L → Except String (MultiVersionedMap K V L)
  | .insert lsn key value => Prod.snd <$> m.insert lsn key value
  | .remove lsn key => Prod.snd <$> m.remove lsn key
  | .checkpoint => .ok m.checkpoint.2

end MultiVersionedMap

/-- The abstract view of a run: the contents at the last checkpoint, and the
    lsn and the contents right after every call since, most recent first. -/
structure History (K V L : Type*) [Ord K] where
  /-- The contents at the last checkpoint. -/
  base : Std.ExtTreeMap K V compare
  /-- The versions since. -/
  versions : List (L × Std.ExtTreeMap K V compare)

namespace History

variable {K V L : Type*} [Ord K] [Std.TransOrd K] [LinearOrder L]

/-- The current contents. -/
def current (h : History K V L) : Std.ExtTreeMap K V compare :=
  match h.versions with
  | (_, c) :: _ => c
  | [] => h.base

/-- The contents right after the last call at or before `toLsn`, or at the
    last checkpoint when there is none. -/
def «at» (h : History K V L) (toLsn : L) : Std.ExtTreeMap K V compare :=
  match h.versions.find? fun v => decide (v.1 ≤ toLsn) with
  | some (_, c) => c
  | none => h.base

/-- The history after one more call. -/
def record (h : History K V L) : MultiVersionedMap.Call K V L → History K V L
  | .insert lsn key value => { h with versions := (lsn, h.current.insert key value) :: h.versions }
  | .remove lsn key => { h with versions := (lsn, h.current.erase key) :: h.versions }
  | .checkpoint => ⟨h.current, []⟩

/-- The history of a list of calls from the empty map. -/
def ofCalls (calls : List (MultiVersionedMap.Call K V L)) : History K V L :=
  calls.foldl record ⟨∅, []⟩

omit [Std.TransOrd K] in
theorem at_cons_of_lt {base : Std.ExtTreeMap K V compare} {vs : List (L × Std.ExtTreeMap K V compare)}
    {lsn toLsn : L} {c : Std.ExtTreeMap K V compare} (h : toLsn < lsn) :
    (History.mk base ((lsn, c) :: vs)).at toLsn = (History.mk base vs).at toLsn := by
  simp [History.at, not_le.2 h]

omit [Std.TransOrd K] in
theorem at_cons_of_le {base : Std.ExtTreeMap K V compare} {vs : List (L × Std.ExtTreeMap K V compare)}
    {lsn toLsn : L} {c : Std.ExtTreeMap K V compare} (h : lsn ≤ toLsn) :
    (History.mk base ((lsn, c) :: vs)).at toLsn = c := by
  simp [History.at, h]

end History

/-! ### The undo log replays the history -/

section Undo

variable {K V L : Type*} [Ord K] [Std.TransOrd K] [Std.LawfulEqOrd K] [LinearOrder L]

open MultiVersionedMap UndoRecord Std.ExtTreeMap

/-- `Undoes cp base u vs cur`: popping and replaying the undo log `u` (above
    the checkpoint lsn `cp`) takes the contents `cur` back through the versions
    `vs` to `base`. One constructor for each way a call changes the log; the
    lsn of every call is at least the current lsn. -/
inductive Undoes (cp : L) (base : Std.ExtTreeMap K V compare) :
    List (UndoRecord K V L) → List (L × Std.ExtTreeMap K V compare) →
      Std.ExtTreeMap K V compare → Prop
  | nil : Undoes cp base [] [] base
  | insertFresh {u : List (UndoRecord K V L)} {vs : List (L × Std.ExtTreeMap K V compare)}
      {cur : Std.ExtTreeMap K V compare} {lsn : L} {key : K} {value : V} : Undoes cp base u vs cur → lastLsn cp u ≤ lsn →
      cur[key]? = none →
      Undoes cp base (.remove lsn key :: u) ((lsn, cur.insert key value) :: vs) (cur.insert key value)
  | insertOver {u : List (UndoRecord K V L)} {vs : List (L × Std.ExtTreeMap K V compare)}
      {cur : Std.ExtTreeMap K V compare} {lsn : L} {key : K} {value prev : V} : Undoes cp base u vs cur → lastLsn cp u ≤ lsn →
      cur[key]? = some prev →
      Undoes cp base (.remove lsn key :: .insert lsn key prev :: u)
        ((lsn, cur.insert key value) :: vs) (cur.insert key value)
  | removePresent {u : List (UndoRecord K V L)} {vs : List (L × Std.ExtTreeMap K V compare)}
      {cur : Std.ExtTreeMap K V compare} {lsn : L} {key : K} {prev : V} : Undoes cp base u vs cur → lastLsn cp u ≤ lsn →
      cur[key]? = some prev →
      Undoes cp base (.insert lsn key prev :: u) ((lsn, cur.erase key) :: vs) (cur.erase key)
  | removeAbsent {u : List (UndoRecord K V L)} {vs : List (L × Std.ExtTreeMap K V compare)}
      {cur : Std.ExtTreeMap K V compare} {lsn : L} {key : K} : Undoes cp base u vs cur → lastLsn cp u ≤ lsn →
      cur[key]? = none → Undoes cp base u ((lsn, cur) :: vs) cur

variable {cp toLsn : L} {base cur : Std.ExtTreeMap K V compare} {u : List (UndoRecord K V L)}
  {vs : List (L × Std.ExtTreeMap K V compare)}

omit [Std.LawfulEqOrd K] in
/-- The current contents are the last version. -/
theorem Undoes.current (h : Undoes cp base u vs cur) : (History.mk base vs).current = cur := by
  cases h <;> rfl

omit [Std.LawfulEqOrd K] in
/-- With nothing after `toLsn`, the rollback loop pops nothing. -/
theorem rollbackLoop_of_lastLsn_le (hcp : cp ≤ toLsn) (h : lastLsn cp u ≤ toLsn) :
    rollbackLoop toLsn cp cur u = .ok (cur, u) := by
  cases u with
  | nil => simp [rollbackLoop, not_lt.2 hcp]
  | cons r u => simp [rollbackLoop, not_lt.2 (show r.lsn ≤ toLsn from h)]

/-- The rollback loop down to `toLsn` does not panic, and leaves the version at
    `toLsn` and an undo log whose last lsn is at or before `toLsn`. -/
theorem Undoes.rollbackLoop (h : Undoes cp base u vs cur) (hcp : cp ≤ toLsn) :
    ∃ u', rollbackLoop toLsn cp cur u = .ok ((History.mk base vs).at toLsn, u') ∧
      lastLsn cp u' ≤ toLsn := by
  induction h with
  | nil => exact ⟨[], by simp [MultiVersionedMap.rollbackLoop, History.at, not_lt.2 hcp], hcp⟩
  | @insertFresh u vs cur lsn key value _ _ hk ih =>
    by_cases hl : toLsn < lsn
    · -- the `Remove` record erases the fresh key
      obtain ⟨u', hu', hl'⟩ := ih
      refine ⟨u', ?_, hl'⟩
      rw [History.at_cons_of_lt hl]
      simp [MultiVersionedMap.rollbackLoop, UndoRecord.lsn, hl, erase_insert_of_getElem?_eq_none hk, hu']
    · refine ⟨.remove lsn key :: u, ?_, not_lt.1 hl⟩
      rw [History.at_cons_of_le (not_lt.1 hl)]
      simp [MultiVersionedMap.rollbackLoop, UndoRecord.lsn, hl]
  | @insertOver u vs cur lsn key value prev _ _ hk ih =>
    by_cases hl : toLsn < lsn
    · -- the `Remove` record erases the key, the `Insert` record below restores its value
      obtain ⟨u', hu', hl'⟩ := ih
      refine ⟨u', ?_, hl'⟩
      rw [History.at_cons_of_lt hl]
      simp [MultiVersionedMap.rollbackLoop, UndoRecord.lsn, hl,
        insert_erase_insert_of_getElem?_eq_some hk, hu']
    · refine ⟨.remove lsn key :: .insert lsn key prev :: u, ?_, not_lt.1 hl⟩
      rw [History.at_cons_of_le (not_lt.1 hl)]
      simp [MultiVersionedMap.rollbackLoop, UndoRecord.lsn, hl]
  | @removePresent u vs cur lsn key prev _ _ hk ih =>
    by_cases hl : toLsn < lsn
    · obtain ⟨u', hu', hl'⟩ := ih
      refine ⟨u', ?_, hl'⟩
      rw [History.at_cons_of_lt hl]
      simp [MultiVersionedMap.rollbackLoop, UndoRecord.lsn, hl,
        insert_erase_of_getElem?_eq_some hk, hu']
    · refine ⟨.insert lsn key prev :: u, ?_, not_lt.1 hl⟩
      rw [History.at_cons_of_le (not_lt.1 hl)]
      simp [MultiVersionedMap.rollbackLoop, UndoRecord.lsn, hl]
  | @removeAbsent u vs cur lsn key _ hlsn _ ih =>
    by_cases hl : toLsn < lsn
    · rw [History.at_cons_of_lt hl]
      exact ih
    · -- a removal of an absent key pushed no record: the log below it is
      -- already at or before `toLsn`, and the version there is the current one
      have hle : lastLsn cp u ≤ toLsn := le_trans hlsn (not_lt.1 hl)
      rw [History.at_cons_of_le (not_lt.1 hl)]
      exact ⟨u, rollbackLoop_of_lastLsn_le hcp hle, hle⟩

/-- The invariant of a map against the history of its run: its undo log takes
    its contents back through the history's versions. -/
def Inv (m : MultiVersionedMap K V L) (h : History K V L) : Prop :=
  Undoes m.checkpointLsn h.base m.undo h.versions m.map

omit [Std.LawfulEqOrd K] in
theorem Inv.new [Inhabited L] : Inv (MultiVersionedMap.new : MultiVersionedMap K V L) ⟨∅, []⟩ :=
  Undoes.nil

/-- Every call keeps the invariant, against the history that records it. -/
theorem Inv.apply {m m' : MultiVersionedMap K V L} {h : History K V L} {c : Call K V L}
    (hi : Inv m h) (hc : m.apply c = .ok m') : Inv m' (h.record c) := by
  have hcur : h.current = m.map := hi.current
  cases c with
  | insert lsn key value =>
    simp only [MultiVersionedMap.apply, MultiVersionedMap.insert] at hc
    split_ifs at hc with hlsn
    · cases hk : m.map[key]? with
      | none =>
        simp only [hk, Except.map_ok, Except.ok.injEq] at hc
        subst hc
        simpa [Inv, History.record, hcur] using hi.insertFresh hlsn hk
      | some prev =>
        simp only [hk, Except.map_ok, Except.ok.injEq] at hc
        subst hc
        -- the new value is not determined by the log: name it in the expected type
        have h' : Undoes _ _ _ _ (m.map.insert key value) := hi.insertOver hlsn hk
        simpa [Inv, History.record, hcur] using h'
    · cases hc
  | remove lsn key =>
    simp only [MultiVersionedMap.apply, MultiVersionedMap.remove] at hc
    split_ifs at hc with hlsn
    · cases hk : m.map[key]? with
      | none =>
        simp only [hk, Except.map_ok, Except.ok.injEq] at hc
        subst hc
        -- erasing an absent key leaves the map as it was
        simpa [Inv, History.record, hcur, erase_of_getElem?_eq_none hk] using hi.removeAbsent hlsn hk
      | some prev =>
        simp only [hk, Except.map_ok, Except.ok.injEq] at hc
        subst hc
        simpa [Inv, History.record, hcur] using hi.removePresent hlsn hk
    · cases hc
  | checkpoint =>
    simp only [MultiVersionedMap.apply, MultiVersionedMap.checkpoint, Except.ok.injEq] at hc
    subst hc
    simpa [Inv, History.record, hcur] using (Undoes.nil : Undoes m.currentLsn m.map [] [] m.map)

/-- A run that does not panic keeps the invariant. -/
theorem Inv.run {calls : List (Call K V L)} :
    ∀ {m m' : MultiVersionedMap K V L} {h : History K V L}, Inv m h →
      Transition.run MultiVersionedMap.apply m calls = .ok m' → Inv m' (calls.foldl History.record h) := by
  induction calls with
  | nil => intro m m' h hi hrun; cases hrun; exact hi
  | cons c calls ih =>
    intro m m' h hi hrun
    obtain ⟨m₁, h₁, hrest⟩ := Transition.run_cons_ok hrun
    exact ih (hi.apply h₁) hrest

/-- Rollback is exact: after any run of calls from the empty map that does not
    panic, rolling back to any lsn at or after the last checkpoint does not
    panic, and leaves the contents right after the last call at or before that
    lsn (or at the last checkpoint, without one) and a current lsn at or before
    it. -/
theorem rollbackToLsn_history [Inhabited L] {calls : List (Call K V L)}
    {m : MultiVersionedMap K V L}
    (hrun : Transition.run MultiVersionedMap.apply MultiVersionedMap.new calls = .ok m)
    {toLsn : L} (hcp : m.checkpointLsn ≤ toLsn) :
    ∃ m', m.rollbackToLsn toLsn = .ok m' ∧ m'.map = (History.ofCalls calls).at toLsn ∧
      m'.currentLsn ≤ toLsn := by
  have hi : Inv m (History.ofCalls calls) := Inv.run Inv.new hrun
  obtain ⟨u', hloop, hle⟩ := Undoes.rollbackLoop hi hcp
  refine ⟨{ m with map := (History.ofCalls calls).at toLsn, undo := u' }, ?_, rfl, hle⟩
  simp only [MultiVersionedMap.rollbackToLsn, not_lt.2 hcp, if_false]
  rw [hloop]
  exact if_pos hle

/-- The run of the code's documentation example (two keys at lsn `1`, an
    overwrite and a third key at lsn `2`), rolled back to lsn `1`. -/
theorem rollbackToLsn_history_doc :
    ∃ m : MultiVersionedMap ℕ ℕ ℕ,
      Transition.run MultiVersionedMap.apply MultiVersionedMap.new
        [.insert 1 101 1001, .insert 1 102 1002, .insert 2 102 2002, .insert 2 103 2003] = .ok m ∧
      m.checkpointLsn ≤ 1 ∧
      ∃ m', m.rollbackToLsn 1 = .ok m' ∧
        m'.map = (History.ofCalls
          [.insert 1 101 1001, .insert 1 102 1002, .insert 2 102 2002, .insert 2 103 2003]).at 1 ∧
        m'.currentLsn ≤ 1 :=
  ⟨_, rfl, by decide, rollbackToLsn_history rfl (by decide)⟩

end Undo

/-! ### Rollback after later writes -/

namespace MultiVersionedMap

variable {K V L : Type*} [Ord K] [Std.TransOrd K] [LinearOrder L]
  {m m' m'' : MultiVersionedMap K V L} {lsn toLsn : L} {key : K} {value : V} {r : Option V}

open UndoRecord Std.ExtTreeMap

/-- A map whose log is at or before `toLsn` rolls back to itself. -/
theorem rollbackToLsn_self (hcp : m.checkpointLsn ≤ toLsn) (h : m.currentLsn ≤ toLsn) :
    m.rollbackToLsn toLsn = .ok m := by
  simp only [rollbackToLsn, not_lt.2 hcp, if_false]
  rw [rollbackLoop_of_lastLsn_le hcp h]
  simp [h, bind, Except.bind]

/-- A rollback that does not panic was to a position at or after the
    checkpoint, keeps it, and leaves a log that ends at or before `toLsn`. -/
theorem rollbackToLsn_eq_ok (h : m.rollbackToLsn toLsn = .ok m') :
    m.checkpointLsn ≤ toLsn ∧ m'.checkpointLsn = m.checkpointLsn ∧ m'.currentLsn ≤ toLsn := by
  simp only [rollbackToLsn] at h
  split_ifs at h with hcp
  obtain ⟨⟨map, undo⟩, -, h⟩ := Except.bind_eq_ok.1 h
  split_ifs at h with hcur
  cases h
  exact ⟨not_lt.1 hcp, rfl, hcur⟩

/-- The loop rolling back to `toLsn` from where a loop rolling back to a later
    `lsn` stopped ends where it ends from the start. -/
theorem rollbackLoop_trans {cp : L} (hle : toLsn ≤ lsn) :
    ∀ {map map' : Std.ExtTreeMap K V compare} {undo undo' : List (UndoRecord K V L)},
      rollbackLoop lsn cp map undo = .ok (map', undo') →
        rollbackLoop toLsn cp map' undo' = rollbackLoop toLsn cp map undo
  | map, map', [], undo', h => by
    simp only [rollbackLoop] at h
    split_ifs at h
    cases h
    rfl
  | map, map', r :: undo, undo', h => by
    simp only [rollbackLoop] at h
    split_ifs at h with hlt
    · -- both loops pop the record, and go on from the same map
      have hlt' : toLsn < r.lsn := lt_of_le_of_lt hle hlt
      cases r with
      | insert l key value =>
        simp only at h
        split_ifs at h with hkey
        simp only [rollbackLoop, hlt', if_true, hkey]
        exact rollbackLoop_trans hle h
      | remove l key =>
        simp only at h
        split_ifs at h with hkey
        simp only [rollbackLoop, hlt', if_true, hkey]
        exact rollbackLoop_trans hle h
    · cases h
      rfl

/-- A map rolled back to `lsn` rolls back to an earlier `toLsn` as it did
    before. -/
theorem rollbackToLsn_rollbackToLsn (h : m.rollbackToLsn lsn = .ok m') (hle : toLsn ≤ lsn) :
    m'.rollbackToLsn toLsn = m.rollbackToLsn toLsn := by
  simp only [rollbackToLsn] at h
  split_ifs at h with hcp
  obtain ⟨⟨map, undo⟩, hloop, h⟩ := Except.bind_eq_ok.1 h
  split_ifs at h with hcur
  cases h
  simp only [rollbackToLsn, rollbackLoop_trans hle hloop]

/-- The records that undo a write of `key` at `lsn` below its last one: an
    `Insert` record of the old value, if there was one. -/
def undoWrite (lsn : L) (key : K) (prev : Option V) (undo : List (UndoRecord K V L)) :
    List (UndoRecord K V L) :=
  match prev with
  | some prev => .insert lsn key prev :: undo
  | none => undo

theorem insert_eq_ok (h : m.insert lsn key value = .ok (r, m')) :
    m.currentLsn ≤ lsn ∧ r = m.map[key]? ∧
      m' = { m with
        map := m.map.insert key value
        undo := .remove lsn key :: undoWrite lsn key m.map[key]? m.undo } := by
  simp only [insert] at h
  split_ifs at h with hle
  · cases h
    exact ⟨hle, rfl, rfl⟩

theorem remove_eq_ok (h : m.remove lsn key = .ok (r, m')) :
    m.currentLsn ≤ lsn ∧ r = m.map[key]? ∧
      m' = { m with
        map := m.map.erase key
        undo := undoWrite lsn key m.map[key]? m.undo } := by
  simp only [remove] at h
  split_ifs at h with hle
  · cases h
    exact ⟨hle, rfl, rfl⟩

theorem insert_currentLsn (h : m.insert lsn key value = .ok (r, m')) : m'.currentLsn = lsn := by
  obtain ⟨-, -, rfl⟩ := insert_eq_ok h
  rfl

theorem remove_currentLsn_le (h : m.remove lsn key = .ok (r, m')) : m'.currentLsn ≤ lsn := by
  obtain ⟨hle, -, rfl⟩ := remove_eq_ok h
  cases hk : m.map[key]? with
  | none => simpa [currentLsn, undoWrite, hk] using hle
  | some prev => simp [currentLsn, undoWrite, lastLsn, UndoRecord.lsn]

/-- `m'` is `m` after writes at `lsn`: the checkpoint is kept, a log that
    ended at or before `lsn` still does, and a rollback to before `lsn` goes
    as on `m`. -/
structure WrittenAt (lsn : L) (m m' : MultiVersionedMap K V L) : Prop where
  checkpointLsn_eq : m'.checkpointLsn = m.checkpointLsn
  currentLsn_le : m.currentLsn ≤ lsn → m'.currentLsn ≤ lsn
  rollbackToLsn_eq : ∀ toLsn < lsn, m'.rollbackToLsn toLsn = m.rollbackToLsn toLsn

namespace WrittenAt

@[refl]
theorem refl (lsn : L) (m : MultiVersionedMap K V L) : WrittenAt lsn m m :=
  ⟨rfl, id, fun _ _ => rfl⟩

theorem trans (h₁ : WrittenAt lsn m m') (h₂ : WrittenAt lsn m' m'') : WrittenAt lsn m m'' where
  checkpointLsn_eq := h₂.checkpointLsn_eq.trans h₁.checkpointLsn_eq
  currentLsn_le h := h₂.currentLsn_le (h₁.currentLsn_le h)
  rollbackToLsn_eq toLsn hlt := (h₂.rollbackToLsn_eq toLsn hlt).trans (h₁.rollbackToLsn_eq toLsn hlt)

/-- Rolling back to a position before the writes, at or after the log of the
    map before them, gives that map back. -/
theorem rollbackToLsn_eq_ok (h : WrittenAt lsn m m') (hlt : toLsn < lsn)
    (hcp : m.checkpointLsn ≤ toLsn) (hcur : m.currentLsn ≤ toLsn) :
    m'.rollbackToLsn toLsn = .ok m :=
  (h.rollbackToLsn_eq toLsn hlt).trans (rollbackToLsn_self hcp hcur)

/-- After writes at `lsn` over a log that ended before, a rollback to `lsn`
    changes nothing. -/
theorem rollbackToLsn_self (h : WrittenAt lsn m m') (hcp : m.checkpointLsn ≤ lsn)
    (hcur : m.currentLsn ≤ lsn) : m'.rollbackToLsn lsn = .ok m' :=
  MultiVersionedMap.rollbackToLsn_self (h.checkpointLsn_eq ▸ hcp) (h.currentLsn_le hcur)

end WrittenAt

/-- A write at `lsn` succeeds on a map whose log ends at or before it. -/
theorem insert_ok (h : m.currentLsn ≤ lsn) : ∃ m', m.insert lsn key value = .ok (m.map[key]?, m') := by
  simp [insert, h]

/-- The checkpoint and the log of `m` are at or before `lsn`: a rollback to
    `lsn`, or to any later position, changes nothing. -/
structure UpTo (lsn : L) (m : MultiVersionedMap K V L) : Prop where
  checkpointLsn_le : m.checkpointLsn ≤ lsn
  currentLsn_le : m.currentLsn ≤ lsn

namespace UpTo

omit [Std.TransOrd K] in
theorem mono {lsn' : L} (h : UpTo lsn m) (hle : lsn ≤ lsn') : UpTo lsn' m :=
  ⟨le_trans h.checkpointLsn_le hle, le_trans h.currentLsn_le hle⟩

theorem rollbackToLsn_self (h : UpTo lsn m) : m.rollbackToLsn lsn = .ok m :=
  MultiVersionedMap.rollbackToLsn_self h.checkpointLsn_le h.currentLsn_le

/-- Writes at a later position keep the map's log up to it. -/
theorem writtenAt {lsn' : L} (h : UpTo lsn m) (hw : WrittenAt lsn' m m') (hle : lsn ≤ lsn') :
    UpTo lsn' m' :=
  ⟨hw.checkpointLsn_eq ▸ le_trans h.checkpointLsn_le hle, hw.currentLsn_le (le_trans h.currentLsn_le hle)⟩

/-- Rolling back to `lsn`, after writes at a later position, gives the map
    before them back. -/
theorem rollbackToLsn_eq_ok {lsn' : L} (h : UpTo lsn m) (hw : WrittenAt lsn' m m') (hlt : lsn < lsn') :
    m'.rollbackToLsn lsn = .ok m :=
  hw.rollbackToLsn_eq_ok hlt h.checkpointLsn_le h.currentLsn_le

/-- A checkpoint is at the end of the log. -/
theorem checkpoint (h : UpTo lsn m) : UpTo lsn m.checkpoint.2 :=
  ⟨h.currentLsn_le, h.currentLsn_le⟩

/-- A rollback to `lsn` leaves the map up to it. -/
theorem of_rollbackToLsn (h : m.rollbackToLsn lsn = .ok m') : UpTo lsn m' :=
  have ⟨hcp, heq, hcur⟩ := MultiVersionedMap.rollbackToLsn_eq_ok h
  ⟨heq ▸ hcp, hcur⟩

omit [Std.TransOrd K] in
theorem new [Inhabited L] (h : default ≤ lsn) : UpTo lsn (new : MultiVersionedMap K V L) :=
  ⟨h, h⟩

end UpTo

section Replay

variable [Std.LawfulEqOrd K]

/-- Rolling back to before an insertion replays the records it pushed and
    goes on as on the map before it. -/
theorem rollbackToLsn_of_insert (h : m.insert lsn key value = .ok (r, m')) (hlt : toLsn < lsn) :
    m'.rollbackToLsn toLsn = m.rollbackToLsn toLsn := by
  obtain ⟨-, -, rfl⟩ := insert_eq_ok h
  have hloop : rollbackLoop toLsn m.checkpointLsn (m.map.insert key value)
      (.remove lsn key :: undoWrite lsn key m.map[key]? m.undo) =
      rollbackLoop toLsn m.checkpointLsn m.map m.undo := by
    cases hk : m.map[key]? with
    | none => simp [rollbackLoop, UndoRecord.lsn, hlt, undoWrite, erase_insert_of_getElem?_eq_none hk]
    | some prev =>
      simp [rollbackLoop, UndoRecord.lsn, hlt, undoWrite, insert_erase_insert_of_getElem?_eq_some hk]
  simp only [rollbackToLsn]
  rw [hloop]

/-- Rolling back to before a removal puts the removed value back. -/
theorem rollbackToLsn_of_remove (h : m.remove lsn key = .ok (r, m')) (hlt : toLsn < lsn) :
    m'.rollbackToLsn toLsn = m.rollbackToLsn toLsn := by
  obtain ⟨-, -, rfl⟩ := remove_eq_ok h
  have hloop : rollbackLoop toLsn m.checkpointLsn (m.map.erase key)
      (undoWrite lsn key m.map[key]? m.undo) = rollbackLoop toLsn m.checkpointLsn m.map m.undo := by
    cases hk : m.map[key]? with
    | none => simp [undoWrite, erase_of_getElem?_eq_none hk]
    | some prev => simp [rollbackLoop, UndoRecord.lsn, hlt, undoWrite, insert_erase_of_getElem?_eq_some hk]
  simp only [rollbackToLsn]
  rw [hloop]

theorem WrittenAt.of_insert (h : m.insert lsn key value = .ok (r, m')) : WrittenAt lsn m m' where
  checkpointLsn_eq := by obtain ⟨-, -, rfl⟩ := insert_eq_ok h; rfl
  currentLsn_le _ := le_of_eq (insert_currentLsn h)
  rollbackToLsn_eq _ hlt := rollbackToLsn_of_insert h hlt

theorem WrittenAt.of_remove (h : m.remove lsn key = .ok (r, m')) : WrittenAt lsn m m' where
  checkpointLsn_eq := by obtain ⟨-, -, rfl⟩ := remove_eq_ok h; rfl
  currentLsn_le _ := remove_currentLsn_le h
  rollbackToLsn_eq _ hlt := rollbackToLsn_of_remove h hlt

end Replay

end MultiVersionedMap

/-! ### The patch of a checkpoint -/

/-- `Blockchain::write_log`: the patch of a checkpoint applied to a column
    family of the disk, `Some` put and `None` deleted. (Its errors, of the
    serialization, are left out.) -/
def writeLog {K V : Type*} [Ord K] [Std.TransOrd K] [Std.LawfulEqOrd K]
    (cf : Std.ExtTreeMap K V compare) (diff : Std.ExtTreeMap K (Option V) compare) :
    Std.ExtTreeMap K V compare :=
  diff.foldl (fun cf key value => cf.putOrErase key value) cf

namespace MultiVersionedMap

section Patch

variable {K V L : Type*} [Ord K] [Std.TransOrd K] [Std.LawfulEqOrd K] [LinearOrder L]
  {m m' : MultiVersionedMap K V L} {c : Call K V L}

open UndoRecord

omit [LinearOrder L] in
/-- The loop of `reverse_patch`, from a patch of the keys `keys`: it adds the
    keys of the records it walks, each with its current value. -/
theorem getElem?_foldl_reversePatch (m : MultiVersionedMap K V L) (k : K) :
    ∀ (l : List (UndoRecord K V L)) (acc : Std.ExtTreeMap K (Option V) compare) (keys : List K),
      ((k ∈ keys → acc[k]? = some m.map[k]?) ∧ (k ∉ keys → acc[k]? = none)) →
      ((k ∈ keys ∨ k ∈ l.map UndoRecord.key →
          (l.foldl (fun result r => if (result[r.key]?).isSome then result
            else result.insert r.key m.map[r.key]?) acc)[k]? = some m.map[k]?) ∧
        (k ∉ keys → k ∉ l.map UndoRecord.key →
          (l.foldl (fun result r => if (result[r.key]?).isSome then result
            else result.insert r.key m.map[r.key]?) acc)[k]? = none))
  | [], acc, keys, hacc => ⟨fun h => hacc.1 (by simpa using h), fun h _ => hacc.2 h⟩
  | r :: l, acc, keys, hacc => by
    rw [List.foldl_cons]
    -- the record's key joins the keys of the patch, with its value if new
    have hstep := getElem?_foldl_reversePatch m k l
      (if (acc[r.key]?).isSome then acc else acc.insert r.key m.map[r.key]?) (r.key :: keys) (by
        by_cases hr : (acc[r.key]?).isSome
        · rw [if_pos hr]
          by_cases hk : k = r.key
          · subst hk
            have hmem : r.key ∈ keys := by
              by_contra hn
              rw [hacc.2 hn] at hr
              cases hr
            exact ⟨fun _ => hacc.1 hmem, fun hn => absurd List.mem_cons_self hn⟩
          · simpa [hk] using hacc
        · rw [if_neg hr]
          by_cases hk : k = r.key
          · subst hk
            simp
          · simpa [Std.ExtTreeMap.getElem?_insert, Ne.symm hk, hk] using hacc)
    refine ⟨fun h => hstep.1 ?_, fun hk hl => hstep.2 ?_ ?_⟩
    · simp only [List.map_cons, List.mem_cons] at h ⊢
      tauto
    · simp only [List.map_cons, List.mem_cons, not_or] at hl ⊢
      exact ⟨hl.1, hk⟩
    · simp only [List.map_cons, List.mem_cons, not_or] at hl
      exact hl.2

omit [LinearOrder L] in
/-- `reverse_patch` gives every key of the log its current value, and names
    no other key. -/
theorem getElem?_reversePatch (m : MultiVersionedMap K V L) (u : List (UndoRecord K V L)) (k : K) :
    (k ∈ u.map UndoRecord.key → (m.reversePatch u)[k]? = some m.map[k]?) ∧
      (k ∉ u.map UndoRecord.key → (m.reversePatch u)[k]? = none) := by
  obtain ⟨h₁, h₂⟩ := getElem?_foldl_reversePatch m k u.reverse ∅ [] ⟨by simp, by simp⟩
  exact ⟨fun h => h₁ (.inr (by simpa using h)), fun h => h₂ List.not_mem_nil (by simpa using h)⟩

omit [Ord K] [Std.TransOrd K] [Std.LawfulEqOrd K] [LinearOrder L] in
theorem undoWrite_eq (lsn : L) (key : K) (prev : Option V) (undo : List (UndoRecord K V L)) :
    undoWrite lsn key prev undo = (prev.map (UndoRecord.insert lsn key)).toList ++ undo := by
  cases prev <;> rfl

/-- The call writes `key` on the map `m` it is made on: it inserts the key,
    or removes it while present. -/
def Call.Writes (m : MultiVersionedMap K V L) (key : K) : Call K V L → Prop
  | .insert _ k _ => k = key
  | .remove _ k => k = key ∧ key ∈ m.map
  | .checkpoint => False

/-- A call of the run of `calls` from `m` writes `key`. -/
def WrittenBy (m : MultiVersionedMap K V L) (calls : List (Call K V L)) (key : K) : Prop :=
  ∃ pre c post m', calls = pre ++ c :: post ∧ Transition.run apply m pre = .ok m' ∧ c.Writes m' key

/-- An insertion or a removal pushes records of keys it writes, and changes
    no other key. -/
theorem apply_undo (h : m.apply c = .ok m') (hc : c ≠ .checkpoint) :
    ∃ new, m'.undo = new ++ m.undo ∧ (∀ k ∈ new.map UndoRecord.key, c.Writes m k) ∧
      ∀ k, k ∉ new.map UndoRecord.key → m'.map[k]? = m.map[k]? := by
  cases c with
  | insert lsn key value =>
    obtain ⟨⟨r, m₁⟩, hins, hm⟩ := Except.map_eq_ok.1 h
    cases hm
    obtain ⟨-, -, rfl⟩ := insert_eq_ok hins
    refine ⟨.remove lsn key :: (m.map[key]?.map (UndoRecord.insert lsn key)).toList,
      by simp [undoWrite_eq], ?_, fun k hk => ?_⟩
    · intro k hk
      cases hprev : m.map[key]? <;> simp_all [UndoRecord.key, Call.Writes]
    · have hne : key ≠ k := fun h => hk (by simp [h, UndoRecord.key])
      simp [Std.ExtTreeMap.getElem?_insert, hne]
  | remove lsn key =>
    obtain ⟨⟨r, m₁⟩, hrem, hm⟩ := Except.map_eq_ok.1 h
    cases hm
    obtain ⟨-, -, rfl⟩ := remove_eq_ok hrem
    cases hprev : m.map[key]? with
    | none =>
      -- the key was absent: nothing is pushed and the map is unchanged
      refine ⟨[], by simp [undoWrite_eq], by simp, fun k _ => ?_⟩
      rw [Std.ExtTreeMap.erase_of_getElem?_eq_none hprev]
    | some prev =>
      refine ⟨[.insert lsn key prev], by simp [undoWrite_eq], ?_, fun k hk => ?_⟩
      · intro k hk
        simp only [List.map_cons, List.map_nil, List.mem_singleton, UndoRecord.key] at hk
        subst hk
        exact ⟨rfl, Std.ExtTreeMap.mem_iff_isSome_getElem?.2 (by simp [hprev])⟩
      · have hne : key ≠ k := fun h => hk (by simp [h, UndoRecord.key])
        simp [Std.ExtTreeMap.getElem?_erase, hne]
  | checkpoint => exact absurd rfl hc

/-- A run of insertions and removals pushes records of keys that its calls
    write, and changes no other key. -/
theorem run_undo : ∀ {calls : List (Call K V L)} {m m' : MultiVersionedMap K V L},
    (∀ c ∈ calls, c ≠ .checkpoint) → Transition.run apply m calls = .ok m' →
    ∃ new, m'.undo = new ++ m.undo ∧ (∀ k ∈ new.map UndoRecord.key, WrittenBy m calls k) ∧
      ∀ k, k ∉ new.map UndoRecord.key → m'.map[k]? = m.map[k]?
  | [], m, m', _, hrun => by
    cases hrun
    exact ⟨[], rfl, by simp, fun _ _ => rfl⟩
  | c :: calls, m, m', hcalls, hrun => by
    obtain ⟨m₁, h₁, hrest⟩ := Transition.run_cons_ok hrun
    obtain ⟨new₁, hu₁, hw₁, hf₁⟩ := apply_undo h₁ (hcalls c List.mem_cons_self)
    obtain ⟨new₂, hu₂, hw₂, hf₂⟩ :=
      run_undo (fun c' hc' => hcalls c' (List.mem_cons_of_mem c hc')) hrest
    refine ⟨new₂ ++ new₁, by rw [hu₂, hu₁, List.append_assoc], fun k hk => ?_, fun k hk => ?_⟩
    · rw [List.map_append, List.mem_append] at hk
      rcases hk with hk | hk
      · -- written by a later call: the run from `m` goes through `c` first
        obtain ⟨pre, c', post, m', hcalls', hpre, hc'⟩ := hw₂ k hk
        refine ⟨c :: pre, c', post, m', by rw [hcalls']; rfl, ?_, hc'⟩
        rw [Transition.run_cons, h₁]
        exact hpre
      · exact ⟨[], c, calls, m, rfl, rfl, hw₁ k hk⟩
    · rw [List.map_append, List.mem_append, not_or] at hk
      rw [hf₂ k hk.1, hf₁ k hk.2]

/-- The patch of a checkpoint is exact: after any insertions and removals
    since the previous checkpoint, the patch that `checkpoint` returns,
    written over the contents at the previous checkpoint, gives the current
    contents; it names only keys that a call inserted, or removed while
    present; and the map is left with its checkpoint at its current lsn and
    an empty log. -/
theorem checkpoint_exact {m₀ m : MultiVersionedMap K V L} {calls : List (Call K V L)}
    (h₀ : m₀.undo = []) (hcalls : ∀ c ∈ calls, c ≠ .checkpoint)
    (hrun : Transition.run apply m₀ calls = .ok m) :
    writeLog m₀.map m.checkpoint.1 = m.map ∧
      (∀ key ∈ m.checkpoint.1, WrittenBy m₀ calls key) ∧
      m.checkpoint.2.checkpointLsn = m.checkpoint.2.currentLsn ∧ m.checkpoint.2.undo = [] := by
  obtain ⟨new, hundo, hwritten, hframe⟩ := run_undo hcalls hrun
  rw [h₀, List.append_nil] at hundo
  -- the patch reads the current contents, at the keys of the log
  have hpatch := getElem?_reversePatch { m with undo := [], checkpointLsn := m.currentLsn } m.undo
  refine ⟨Std.ExtTreeMap.ext_getElem? fun k => ?_, fun key hkey => ?_, rfl, rfl⟩
  · rw [writeLog, Std.ExtTreeMap.getElem?_foldl_putOrErase]
    by_cases hk : k ∈ m.undo.map UndoRecord.key
    · simp only [checkpoint, (hpatch k).1 hk]
    · simp only [checkpoint, (hpatch k).2 hk]
      rw [hframe k (hundo ▸ hk)]
  · have hk : key ∈ m.undo.map UndoRecord.key := by
      by_contra hn
      have hnone := (hpatch key).2 hn
      rw [Std.ExtTreeMap.mem_iff_isSome_getElem?] at hkey
      simp only [checkpoint] at hkey
      rw [hnone] at hkey
      cases hkey
    exact hwritten key (hundo ▸ hk)

/-- The run of the documentation example, with a removal of a present key and
    of an absent one. -/
theorem checkpoint_exact_doc :
    ∃ m : MultiVersionedMap ℕ ℕ ℕ,
      Transition.run apply MultiVersionedMap.new
        [.insert 1 101 1001, .insert 1 102 1002, .remove 2 101, .remove 2 103] = .ok m ∧
      writeLog (MultiVersionedMap.new : MultiVersionedMap ℕ ℕ ℕ).map m.checkpoint.1 = m.map ∧
      (∀ key ∈ m.checkpoint.1, WrittenBy MultiVersionedMap.new
        [.insert 1 101 1001, .insert 1 102 1002, .remove 2 101, .remove 2 103] key) ∧
      m.checkpoint.2.checkpointLsn = m.checkpoint.2.currentLsn ∧ m.checkpoint.2.undo = [] :=
  ⟨_, rfl, checkpoint_exact rfl (by simp) rfl⟩

end Patch

end MultiVersionedMap

end Stegos
