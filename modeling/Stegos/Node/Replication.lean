import Stegos.Blockchain.Awards

/-!
# Replication of the chain to a peer

A node streams its chain to a peer that subscribed at a position
(`Peer::Sending`, `node/src/replication/peer.rs`). `poll` sends the blocks
that `blocks_starting` iterates from the peer's position, when the chain has
moved past it; `on_block` sends a block just registered when it is at the
peer's position. The position moves past each block sent: past a macro block
to the next epoch, past a micro block to the next offset, and past the last
micro block of an epoch to the next epoch.

* `Sending.next_lsn_lt`, `Replica.step_le`: the position only moves forward,
  and the blocks sent only grow;
* `Sending.poll_mem_blocksStarting`: a poll sends blocks stored at or after
  the position, so a block stored before it is never sent by a poll;
* `Sending.sendBlocks_macro_after_last_micro`: over a key space where the
  micro blocks of an epoch are followed by its macro block, the jump past the
  last micro block meets that macro block and fails the assertion of
  `send_blocks`;
* `replication_gap`: the chain keeps no such epoch, since its micro blocks
  are popped before its macro block is pushed (`push_macro_block` asserts
  offset 0). The macro block is stored after the peer has jumped past the
  epoch, and `on_block` takes a macro block at offset 0 of its own epoch: it
  is never sent.

The sink is always ready and the clocks and quotas never expire; the limit of
a batch in bytes is left out (it only ends a batch early). The other states
of `Peer` (connecting, receiving, failed) are left out.
-/

namespace Stegos

/-- `MAX_BLOCKS_PER_BATCH`. -/
def maxBlocksPerBatch : ℕ := 100

/-- `Peer::Sending`: the position of the next block to send. -/
structure Sending where
  epoch : ℕ
  offset : ℕ
  deriving DecidableEq, Repr

namespace Sending

variable {Fr Pt : Type}

/-- The position, as a key of the chain. -/
def lsn (self : Sending) : LSN := ⟨self.epoch, self.offset⟩

/-- The position after `block` (`send_blocks`), with its assertions: the block
    is of the peer's epoch, and a micro block is at the peer's offset. -/
def next (self : Sending) (block : Block Fr Pt) (microBlocksInEpoch : ℕ) : Except Fault Sending :=
  match block with
  | .MacroBlock block => do
    check (block.header.epoch = self.epoch) "assertion failed: `(left == right)`"
    pure ⟨block.header.epoch + 1, 0⟩
  | .MicroBlock block => do
    check (block.header.epoch = self.epoch) "assertion failed: `(left == right)`"
    check (block.header.offset = self.offset) "assertion failed: `(left == right)`"
    if microBlocksInEpoch ≤ block.header.offset + 1 then pure ⟨block.header.epoch + 1, 0⟩
    else pure ⟨block.header.epoch, block.header.offset + 1⟩

/-- The loop of `send_blocks`, with `sent` blocks in the batch so far: the
    position after the blocks sent, and the blocks sent. -/
def sendBlocksLoop (microBlocksInEpoch : ℕ) :
    ℕ → Sending → List (Block Fr Pt) → Except Fault (Sending × List (Block Fr Pt))
  | _, self, [] => pure (self, [])
  | sent, self, block :: blocks =>
    if maxBlocksPerBatch ≤ sent then pure (self, [])
    else do
      let self' ← self.next block microBlocksInEpoch
      let (self'', rest) ← sendBlocksLoop microBlocksInEpoch (sent + 1) self' blocks
      pure (self'', block :: rest)

/-- `Peer::send_blocks`, the sink always ready. -/
def sendBlocks (self : Sending) (blocks : List (Block Fr Pt)) (microBlocksInEpoch : ℕ) :
    Except Fault (Sending × List (Block Fr Pt)) :=
  sendBlocksLoop microBlocksInEpoch 0 self blocks

/-- `Peer::on_block`: a block just registered is sent when the peer waits for
    it; a macro block counts as offset 0 of its epoch. -/
def onBlock (self : Sending) (block : Block Fr Pt) (microBlocksInEpoch : ℕ) :
    Except Fault (Sending × List (Block Fr Pt)) :=
  let (currentEpoch, currentOffset) := match block with
    | .MacroBlock block => (block.header.epoch, 0)
    | .MicroBlock block => (block.header.epoch, block.header.offset)
  if self.epoch = currentEpoch ∧ self.offset = currentOffset then
    self.sendBlocks [block] microBlocksInEpoch
  else pure (self, [])

/-- `Peer::poll` in `Sending`: the blocks from the peer's position sent when
    the chain has moved past it. -/
def poll (self : Sending) (chain : Blockchain Fr Pt) :
    Except Fault (Sending × List (Block Fr Pt)) :=
  if self.epoch ≠ chain.epoch ∨ self.offset ≠ chain.offset then
    self.sendBlocks (chain.blocksStarting self.epoch self.offset) chain.cfg.microBlocksInEpoch
  else pure (self, [])

/-! ### The position only moves forward -/

variable {self self' : Sending} {microBlocksInEpoch : ℕ}

/-- Each block sent moves the position forward. -/
theorem next_lsn_lt {block : Block Fr Pt} (h : self.next block microBlocksInEpoch = .ok self') :
    self.lsn < self'.lsn := by
  rw [LSN.lt_iff]
  cases block with
  | MacroBlock block =>
    simp only [next, Except.bind_eq_ok, check_eq_ok] at h
    obtain ⟨_, he, h⟩ := h
    cases h
    simp [lsn, he]
  | MicroBlock block =>
    simp only [next, Except.bind_eq_ok, check_eq_ok] at h
    obtain ⟨_, he, _, ho, h⟩ := h
    -- past the last micro block of the epoch, or to the next offset
    split at h <;> cases h <;> simp [lsn, he, ho]

/-- A batch sends a prefix of the blocks it is given, and moves the position
    forward. -/
theorem sendBlocksLoop_le : ∀ (blocks : List (Block Fr Pt)) (sent : ℕ) (self self' : Sending)
    (out : List (Block Fr Pt)),
    sendBlocksLoop microBlocksInEpoch sent self blocks = .ok (self', out) →
      self.lsn ≤ self'.lsn ∧ out <+: blocks
  | [], _, self, self', out, h => by
    simp only [sendBlocksLoop, pure, Except.pure, Except.ok.injEq, Prod.mk.injEq] at h
    obtain ⟨rfl, rfl⟩ := h
    exact ⟨le_rfl, List.prefix_rfl⟩
  | block :: blocks, sent, self, self', out, h => by
    simp only [sendBlocksLoop] at h
    split at h
    · -- the batch is full
      simp only [pure, Except.pure, Except.ok.injEq, Prod.mk.injEq] at h
      obtain ⟨rfl, rfl⟩ := h
      exact ⟨le_rfl, List.nil_prefix⟩
    · obtain ⟨self₁, h₁, h⟩ := Except.bind_eq_ok.1 h
      obtain ⟨⟨self₂, rest⟩, h₂, h⟩ := Except.bind_eq_ok.1 h
      simp only [pure, Except.pure, Except.ok.injEq, Prod.mk.injEq] at h
      obtain ⟨rfl, rfl⟩ := h
      obtain ⟨hle, hpre⟩ := sendBlocksLoop_le blocks (sent + 1) self₁ self₂ rest h₂
      exact ⟨(next_lsn_lt h₁).le.trans hle, List.prefix_cons_inj block |>.2 hpre⟩

theorem sendBlocks_le {blocks out : List (Block Fr Pt)}
    (h : self.sendBlocks blocks microBlocksInEpoch = .ok (self', out)) :
    self.lsn ≤ self'.lsn ∧ out <+: blocks :=
  sendBlocksLoop_le blocks 0 self self' out h

/-- `on_block` sends the block or nothing, and moves the position forward. -/
theorem onBlock_le {block : Block Fr Pt} {out : List (Block Fr Pt)}
    (h : self.onBlock block microBlocksInEpoch = .ok (self', out)) :
    self.lsn ≤ self'.lsn ∧ out <+: [block] := by
  -- whether the peer waits for the block, at either kind of block
  have hsend : ∀ (c : Prop) [Decidable c],
      (if c then self.sendBlocks [block] microBlocksInEpoch else pure (self, [])) =
        .ok (self', out) → self.lsn ≤ self'.lsn ∧ out <+: [block] := by
    intro c _ h
    split at h
    · exact sendBlocks_le h
    · simp only [pure, Except.pure, Except.ok.injEq, Prod.mk.injEq] at h
      obtain ⟨rfl, rfl⟩ := h
      exact ⟨le_rfl, List.nil_prefix⟩
  cases block <;> exact hsend _ h

/-- A poll sends blocks of `blocks_starting` from the position, in order, and
    moves the position forward. -/
theorem poll_le {chain : Blockchain Fr Pt} {out : List (Block Fr Pt)}
    (h : self.poll chain = .ok (self', out)) :
    self.lsn ≤ self'.lsn ∧ out <+: chain.blocksStarting self.epoch self.offset := by
  simp only [poll] at h
  split at h
  · exact sendBlocks_le h
  · simp only [pure, Except.pure, Except.ok.injEq, Prod.mk.injEq] at h
    obtain ⟨rfl, rfl⟩ := h
    exact ⟨le_rfl, List.nil_prefix⟩

/-- A block a poll sends is stored at or after the peer's position. -/
theorem poll_mem_blocksStarting {chain : Blockchain Fr Pt} {out : List (Block Fr Pt)}
    (h : self.poll chain = .ok (self', out)) {block : Block Fr Pt} (hb : block ∈ out) :
    ∃ lsn, self.lsn ≤ lsn ∧ chain.database[lsn]? = some block := by
  have hmem := (poll_le h).2.subset hb
  simp only [Blockchain.blocksStarting, List.mem_map, List.mem_filter, decide_eq_true_eq] at hmem
  obtain ⟨⟨lsn, b⟩, ⟨hlsn, hle⟩, rfl⟩ := hmem
  exact ⟨lsn, hle, Std.ExtTreeMap.mem_toList_iff_getElem?_eq_some.1 hlsn⟩

/-- Over a key space where the micro blocks of an epoch are followed by its
    macro block, the jump past the last micro block meets that macro block,
    and `send_blocks` fails its assertion. -/
theorem sendBlocks_macro_after_last_micro {microBlock : MicroBlock Fr Pt}
    {macroBlock : MacroBlock Fr Pt} (he : microBlock.header.epoch = self.epoch)
    (ho : microBlock.header.offset = self.offset) (hlast : microBlocksInEpoch ≤ self.offset + 1)
    (hmacroEpoch : macroBlock.header.epoch = self.epoch) (blocks : List (Block Fr Pt)) :
    self.sendBlocks (.MicroBlock microBlock :: .MacroBlock macroBlock :: blocks) microBlocksInEpoch =
      .error (.panic "assertion failed: `(left == right)`") := by
  have hnext : self.next (.MicroBlock microBlock) microBlocksInEpoch = .ok ⟨self.epoch + 1, 0⟩ := by
    simp [next, check, he, ho, hlast, bind, Except.bind, pure, Except.pure]
  have hpanic : (⟨self.epoch + 1, 0⟩ : Sending).next (.MacroBlock macroBlock) microBlocksInEpoch =
      .error (.panic "assertion failed: `(left == right)`") := by
    simp [next, check, hmacroEpoch, bind, Except.bind]
  simp [sendBlocks, sendBlocksLoop, maxBlocksPerBatch, hnext, hpanic, bind, Except.bind]

end Sending

/-- A node and one peer it streams its chain to: the chain, the peer's
    position, and the blocks sent so far. -/
structure Replica (Fr Pt : Type) where
  chain : Blockchain Fr Pt
  peer : Sending
  sent : List (Block Fr Pt)

/-- What happens next: a call on the chain, or a poll of the peer. -/
inductive ReplicaEvent (Fr Pt : Type)
  | chain (e : ChainEvent Fr Pt)
  | poll

/-- The block a call on the chain registers, which the node hands to the
    replication (`on_block_added`). -/
def ChainEvent.registered {Fr Pt : Type} : ChainEvent Fr Pt → Option (Block Fr Pt)
  | .pushMicroBlock block _ => some (.MicroBlock block)
  | .pushMacroBlock block _ => some (.MacroBlock block)
  | _ => none

namespace Replica

variable {Fr Pt : Type} [AddCommGroup Fr] [AddCommGroup Pt] [DecidableEq Pt]

/-- A step: a call on the chain as the node makes it, the block it registers
    handed to the peer; or a poll of the peer. -/
def step (κ : Crypto Fr Pt) (self : Replica Fr Pt) : ReplicaEvent Fr Pt → Except Fault (Replica Fr Pt)
  | .chain e => do
    let chain ← self.chain.validatedStep κ e
    match e.registered with
    | some block =>
      let (peer, blocks) ← self.peer.onBlock block chain.cfg.microBlocksInEpoch
      pure ⟨chain, peer, self.sent ++ blocks⟩
    | none => pure { self with chain }
  | .poll => do
    let (peer, blocks) ← self.peer.poll self.chain
    pure { self with peer, sent := self.sent ++ blocks }

variable {κ : Crypto Fr Pt}

/-- A step moves the peer's position forward, and only adds blocks sent. -/
theorem step_le {self self' : Replica Fr Pt} {e : ReplicaEvent Fr Pt}
    (h : self.step κ e = .ok self') : self.peer.lsn ≤ self'.peer.lsn ∧ self.sent <+: self'.sent := by
  cases e with
  | chain e =>
    obtain ⟨chain, -, h⟩ := Except.bind_eq_ok.1 h
    split at h
    · obtain ⟨⟨peer, blocks⟩, hon, h⟩ := Except.bind_eq_ok.1 h
      simp only [pure, Except.pure, Except.ok.injEq] at h
      subst h
      exact ⟨(Sending.onBlock_le hon).1, List.prefix_append _ _⟩
    · simp only [pure, Except.pure, Except.ok.injEq] at h
      subst h
      exact ⟨le_rfl, List.prefix_rfl⟩
  | poll =>
    obtain ⟨⟨peer, blocks⟩, hpoll, h⟩ := Except.bind_eq_ok.1 h
    simp only [pure, Except.pure, Except.ok.injEq] at h
    subst h
    exact ⟨(Sending.poll_le hpoll).1, List.prefix_append _ _⟩

/-- Along a run, the peer's position only moves forward, and the blocks sent
    only grow. -/
theorem run_le : ∀ {events : List (ReplicaEvent Fr Pt)} {self self' : Replica Fr Pt},
    Transition.run (step κ) self events = .ok self' →
      self.peer.lsn ≤ self'.peer.lsn ∧ self.sent <+: self'.sent
  | [], _, _, h => by
    cases h
    exact ⟨le_rfl, List.prefix_rfl⟩
  | _ :: _, _, _, h => by
    obtain ⟨self₁, h₁, h⟩ := Transition.run_cons_ok h
    obtain ⟨hle₁, hpre₁⟩ := step_le h₁
    obtain ⟨hle, hpre⟩ := run_le h
    exact ⟨hle₁.trans hle, hpre₁.trans hpre⟩

end Replica

/-! ### A macro block never sent -/

namespace Scenario

/-- The chain of the awards scenario, and a peer that subscribes at its first
    position, `(1, 0)`. -/
def replicaStart : Except Fault (Replica ℤ ℤ) :=
  (fun chain => ⟨chain, ⟨1, 0⟩, []⟩) <$> awardsStart

/-- The node applies the two micro blocks of epoch `1`, then the macro block
    of the epoch, as it applies one (the micro blocks popped first), then the
    two micro blocks of epoch `2`. The peer is polled after the macro block
    and at the end. -/
def replicaRun : List (ReplicaEvent ℤ ℤ) :=
  [.chain (.pushMicroBlock restakeBlock 2), .chain (.pushMicroBlock closingBlock 3),
    .chain .popMicroBlock, .chain .popMicroBlock, .chain (.pushMacroBlock firstMacroBlock 4),
    .poll, .chain (.pushMicroBlock cheatingBlock 5),
    .chain (.pushMicroBlock slashingRestakeBlock 6), .poll]

end Scenario

/-- A peer subscribed at `(1, 0)` is sent the micro blocks of epoch `1` and
    jumps to `(2, 0)`; the macro block of epoch `1`, stored at
    `(1, MACRO_BLOCK_OFFSET)` once those micro blocks are popped, is not sent,
    neither by `on_block` nor by the poll, and the peer is then sent the
    blocks of epoch `2` and is past the macro block's position. -/
theorem replication_gap :
    ∃ r₀ r, Scenario.replicaStart = .ok r₀ ∧
      Transition.Reachable (· = r₀) (Replica.step Scenario.crypto) r ∧
      r.chain.blocksStarting 1 0 = [.MacroBlock Scenario.firstMacroBlock,
        .MicroBlock Scenario.cheatingBlock, .MicroBlock Scenario.slashingRestakeBlock] ∧
      r.sent = [.MicroBlock Scenario.restakeBlock, .MicroBlock Scenario.closingBlock,
        .MicroBlock Scenario.cheatingBlock, .MicroBlock Scenario.slashingRestakeBlock] ∧
      (⟨1, macroBlockOffset⟩ : LSN) < r.peer.lsn := by
  have htest : (Scenario.replicaStart.toOption.bind fun r₀ =>
      (Transition.run (Replica.step Scenario.crypto) r₀ Scenario.replicaRun).toOption.map fun r =>
        decide (r.chain.blocksStarting 1 0 = [.MacroBlock Scenario.firstMacroBlock,
            .MicroBlock Scenario.cheatingBlock, .MicroBlock Scenario.slashingRestakeBlock] ∧
          r.sent = [.MicroBlock Scenario.restakeBlock, .MicroBlock Scenario.closingBlock,
            .MicroBlock Scenario.cheatingBlock, .MicroBlock Scenario.slashingRestakeBlock] ∧
          (⟨1, macroBlockOffset⟩ : LSN) < r.peer.lsn)) = some true := by
    decide +kernel
  obtain ⟨r₀, r, h₀, hr, h⟩ := Transition.Reachable.of_run_test htest
  exact ⟨r₀, r, h₀, hr, of_decide_eq_true h⟩

end Stegos
