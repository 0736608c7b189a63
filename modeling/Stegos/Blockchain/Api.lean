import Stegos.Blockchain.Types

/-!
# The JSON form of blocks

The API writes a block as the JSON of `MacroBlockInfo` or `MicroBlockInfo`
(`api.rs`): the block with the hash of its header, `block_hash`, beside it, and
reads a block back from it. Three custom serde helpers shape the text:
bitmaps are written by `serialize_bitvec`, a `1` or a `0` per bit with the
trailing `0`s trimmed, and read by `deserialize_bitvec`; timestamps are written
by `Timestamp::format_rfc3339` and read by `Timestamp::parse_rfc3339`, which
call the humantime crate. The other fields are written as they are, and
serde_json reads them back as they were.

The two functions of humantime are parameters (`Humantime`), of which the
results assume what humantime documents: `format_rfc3339_millis` writes the
time to the millisecond, truncated, and `parse_rfc3339` reads back the time
written (`Humantime.TruncatesToMillis`).

A block's hash is the digest of what its header's `Hashable` impl feeds the
hasher (`hashItems`), for a digest taken as ideal: injective on what it is fed.

* `deserializeBitvec_serializeBitvec`: a bitmap reads back trimmed, as
  `trim_bitvec` leaves it.
* `MacroBlock.ofJson_toJson`, `MicroBlock.ofJson_toJson`: the block read back
  from the JSON of a block is the block with its bitmaps trimmed and its
  timestamp truncated.
* `macroBlockDigest_ofJson_toJson_iff`, `microBlockDigest_ofJson_toJson_iff`:
  the block read back has the hash of the block, the `block_hash` written, exactly
  when the timestamp is a whole number of milliseconds and, for a macro block,
  the activity map ends in a `1` or is empty.
-/

namespace Stegos

/-! ### Bitmaps as text -/

/-- `serialize_bitvec`: a `1` or a `0` for each bit, trailing `0`s trimmed
    (`trim_end_matches('0')`). -/
def serializeBitvec (vec : List Bool) : List Char :=
  (vec.map fun val => if val then '1' else '0').rdropWhile (· == '0')

/-- `deserialize_bitvec`. -/
def deserializeBitvec (stringVec : List Char) : Except String (List Bool) :=
  stringVec.mapM fun b =>
    match b with
    | '1' => .ok true
    | '0' => .ok false
    | _ => .error "Expecting 0 or 1."

/-- `trim_bitvec`: the trailing `false`s popped. -/
def trimBitvec (vec : List Bool) : List Bool := vec.rdropWhile (· == false)

/-! ### Timestamps as text -/

/-- The functions of the humantime crate that `Timestamp` calls, on timestamps
    in nanoseconds since the epoch: `format_rfc3339_millis`, and
    `parse_rfc3339`, which fails on a text that is not a time. -/
structure Humantime where
  formatRfc3339Millis : ℕ → String
  parseRfc3339 : String → Except String ℕ

/-- What humantime documents of its two functions: the text written names the
    time to the millisecond, truncated, and reads back as that time. -/
def Humantime.TruncatesToMillis (ht : Humantime) : Prop :=
  ∀ timestamp, ht.parseRfc3339 (ht.formatRfc3339Millis timestamp) =
    .ok (timestamp - timestamp % 1000000)

/-- `Timestamp::format_rfc3339`. -/
def formatRfc3339 (ht : Humantime) (timestamp : ℕ) : String := ht.formatRfc3339Millis timestamp

/-- `Timestamp::parse_rfc3339`. -/
def parseRfc3339 (ht : Humantime) (s : String) : Except String ℕ := ht.parseRfc3339 s

/-- A humantime writing the milliseconds since the epoch in decimal. -/
def decimalMillis : Humantime where
  formatRfc3339Millis timestamp := Nat.repr (timestamp / 1000000)
  parseRfc3339 s := match s.toNat? with
    | some millis => .ok (millis * 1000000)
    | none => .error "invalid RFC 3339 timestamp"

theorem decimalMillis_truncatesToMillis : decimalMillis.TruncatesToMillis := by
  intro timestamp
  simp only [decimalMillis, Nat.toNat?_repr, Except.ok.injEq]
  omega

/-! ### What a header's hash is the digest of -/

/-- One call of a `Hashable` impl on the hasher. -/
inductive HashItem (Fr : Type)
  | str (s : String)
  | num (n : ℕ)
  | int (z : ℤ)
  | fr (x : Fr)
  | bit (b : Bool)
  deriving DecidableEq, Repr

variable {Fr Pt : Type}

/-- `Hashable for MacroBlockHeader`: the activity map by its length as a
    `u32`, then bit by bit. -/
def MacroBlockHeader.hashItems (h : MacroBlockHeader Fr) : List (HashItem Fr) :=
  [.str "Macro", .num h.version, .num h.previous, .num h.epoch, .num h.viewChange, .num h.pkey,
    .num h.random.rand, .num h.random.proof, .num h.difficulty, .num h.timestamp,
    .int h.blockReward, .fr h.gamma, .num (h.activityMap.length % 2 ^ 32)] ++
  h.activityMap.map .bit ++
  [.num h.validatorsLen, .num h.validatorsRangeHash, .num h.inputsLen, .num h.inputsRangeHash,
    .num h.outputsLen, .num h.outputsRangeHash, .num h.canariesRangeHash]

/-- `Hashable for MicroBlockHeader`: a view change proof by its multi-signature
    (`Hashable for ViewChangeProof` skips the bitmap), if there is one. -/
def MicroBlockHeader.hashItems (h : MicroBlockHeader) : List (HashItem Fr) :=
  [.str "Micro", .num h.version, .num h.previous, .num h.epoch, .num h.offset,
    .num h.viewChange] ++
  h.viewChangeProof.toList.map (fun proof => .num proof.multisig) ++
  [.num h.pkey, .num h.random.rand, .num h.random.proof, .num h.solution, .num h.timestamp,
    .num h.transactionsLen, .num h.transactionsRangeHash, .num h.inputsLen,
    .num h.inputsRangeHash, .num h.outputsLen, .num h.outputsRangeHash,
    .num h.canariesRangeHash]

/-- `Hash::digest` of a macro block: of its header (`Hashable for MacroBlock`). -/
def macroBlockDigest (digest : List (HashItem Fr) → ℕ) (b : MacroBlock Fr Pt) : ℕ :=
  digest b.header.hashItems

/-- `Hash::digest` of a micro block: of its header. -/
def microBlockDigest (digest : List (HashItem Fr) → ℕ) (b : MicroBlock Fr Pt) : ℕ :=
  digest b.header.hashItems

/-! ### The JSON objects -/

/-- The JSON object of a macro block header, each field as it is written. -/
structure MacroBlockHeaderJson (Fr : Type) where
  version : ℕ
  previous : ℕ
  epoch : ℕ
  viewChange : ℕ
  pkey : ℕ
  random : VRF
  difficulty : ℕ
  timestamp : String
  blockReward : ℤ
  gamma : Fr
  activityMap : List Char
  validatorsLen : ℕ
  validatorsRangeHash : ℕ
  inputsLen : ℕ
  inputsRangeHash : ℕ
  outputsLen : ℕ
  outputsRangeHash : ℕ
  canariesRangeHash : ℕ
  deriving DecidableEq, Repr

/-- `Serialize for MacroBlockHeader`. -/
def MacroBlockHeader.toJson (ht : Humantime) (h : MacroBlockHeader Fr) : MacroBlockHeaderJson Fr where
  version := h.version
  previous := h.previous
  epoch := h.epoch
  viewChange := h.viewChange
  pkey := h.pkey
  random := h.random
  difficulty := h.difficulty
  timestamp := formatRfc3339 ht h.timestamp
  blockReward := h.blockReward
  gamma := h.gamma
  activityMap := serializeBitvec h.activityMap
  validatorsLen := h.validatorsLen
  validatorsRangeHash := h.validatorsRangeHash
  inputsLen := h.inputsLen
  inputsRangeHash := h.inputsRangeHash
  outputsLen := h.outputsLen
  outputsRangeHash := h.outputsRangeHash
  canariesRangeHash := h.canariesRangeHash

/-- `Deserialize for MacroBlockHeader`: the fields in the order they are
    written. -/
def MacroBlockHeader.ofJson (ht : Humantime) (j : MacroBlockHeaderJson Fr) :
    Except String (MacroBlockHeader Fr) := do
  let timestamp ← parseRfc3339 ht j.timestamp
  let activityMap ← deserializeBitvec j.activityMap
  pure {
    version := j.version
    previous := j.previous
    epoch := j.epoch
    viewChange := j.viewChange
    pkey := j.pkey
    random := j.random
    difficulty := j.difficulty
    timestamp
    blockReward := j.blockReward
    gamma := j.gamma
    activityMap
    validatorsLen := j.validatorsLen
    validatorsRangeHash := j.validatorsRangeHash
    inputsLen := j.inputsLen
    inputsRangeHash := j.inputsRangeHash
    outputsLen := j.outputsLen
    outputsRangeHash := j.outputsRangeHash
    canariesRangeHash := j.canariesRangeHash }

/-- `api::MacroBlockInfo`. -/
structure MacroBlockInfo (Fr Pt : Type) where
  blockHash : ℕ
  header : MacroBlockHeader Fr
  multisig : ℕ
  multisigmap : List Bool
  inputs : List ℕ
  outputs : List (Output Pt)
  deriving DecidableEq, Repr

/-- `From<MacroBlock> for MacroBlockInfo`. -/
def MacroBlockInfo.ofMacroBlock (digest : List (HashItem Fr) → ℕ) (b : MacroBlock Fr Pt) :
    MacroBlockInfo Fr Pt where
  blockHash := macroBlockDigest digest b
  header := b.header
  multisig := b.multisig
  multisigmap := b.multisigmap
  inputs := b.inputs
  outputs := b.outputs

/-- `From<MacroBlockInfo> for MacroBlock`. -/
def MacroBlock.ofMacroBlockInfo (b : MacroBlockInfo Fr Pt) : MacroBlock Fr Pt where
  header := b.header
  multisig := b.multisig
  multisigmap := b.multisigmap
  inputs := b.inputs
  outputs := b.outputs

/-- The JSON object of a `MacroBlockInfo`, its header flattened into it. -/
structure MacroBlockInfoJson (Fr Pt : Type) where
  blockHash : ℕ
  header : MacroBlockHeaderJson Fr
  multisig : ℕ
  multisigmap : List Char
  inputs : List ℕ
  outputs : List (Output Pt)
  deriving DecidableEq, Repr

/-- `Serialize for MacroBlockInfo`. -/
def MacroBlockInfo.toJson (ht : Humantime) (b : MacroBlockInfo Fr Pt) : MacroBlockInfoJson Fr Pt where
  blockHash := b.blockHash
  header := b.header.toJson ht
  multisig := b.multisig
  multisigmap := serializeBitvec b.multisigmap
  inputs := b.inputs
  outputs := b.outputs

/-- `Deserialize for MacroBlockInfo`. -/
def MacroBlockInfo.ofJson (ht : Humantime) (j : MacroBlockInfoJson Fr Pt) :
    Except String (MacroBlockInfo Fr Pt) := do
  let header ← MacroBlockHeader.ofJson ht j.header
  let multisigmap ← deserializeBitvec j.multisigmap
  pure ⟨j.blockHash, header, j.multisig, multisigmap, j.inputs, j.outputs⟩

/-- `Serialize for MacroBlock` (`into = "MacroBlockInfo"`). -/
def MacroBlock.toJson (ht : Humantime) (digest : List (HashItem Fr) → ℕ) (b : MacroBlock Fr Pt) :
    MacroBlockInfoJson Fr Pt :=
  (MacroBlockInfo.ofMacroBlock digest b).toJson ht

/-- `Deserialize for MacroBlock` (`from = "MacroBlockInfo"`). -/
def MacroBlock.ofJson (ht : Humantime) (j : MacroBlockInfoJson Fr Pt) :
    Except String (MacroBlock Fr Pt) :=
  MacroBlock.ofMacroBlockInfo <$> MacroBlockInfo.ofJson ht j

/-- The JSON object of a view change proof. -/
structure ViewChangeProofJson where
  multimap : List Char
  multisig : ℕ
  deriving DecidableEq, Repr

/-- `Serialize for ViewChangeProof`. -/
def ViewChangeProof.toJson (p : ViewChangeProof) : ViewChangeProofJson :=
  ⟨serializeBitvec p.multimap, p.multisig⟩

/-- `Deserialize for ViewChangeProof`. -/
def ViewChangeProof.ofJson (j : ViewChangeProofJson) : Except String ViewChangeProof := do
  let multimap ← deserializeBitvec j.multimap
  pure ⟨multimap, j.multisig⟩

/-- The JSON object of a micro block header, each field as it is written
    (the VDF solution by `vec_serialize_to_hex`, which reads back as it was). -/
structure MicroBlockHeaderJson where
  version : ℕ
  previous : ℕ
  epoch : ℕ
  offset : ℕ
  viewChange : ℕ
  viewChangeProof : Option ViewChangeProofJson
  pkey : ℕ
  random : VRF
  solution : ℕ
  timestamp : String
  transactionsLen : ℕ
  transactionsRangeHash : ℕ
  inputsLen : ℕ
  inputsRangeHash : ℕ
  outputsLen : ℕ
  outputsRangeHash : ℕ
  canariesRangeHash : ℕ
  deriving DecidableEq, Repr

/-- `Serialize for MicroBlockHeader`. -/
def MicroBlockHeader.toJson (ht : Humantime) (h : MicroBlockHeader) : MicroBlockHeaderJson where
  version := h.version
  previous := h.previous
  epoch := h.epoch
  offset := h.offset
  viewChange := h.viewChange
  viewChangeProof := h.viewChangeProof.map ViewChangeProof.toJson
  pkey := h.pkey
  random := h.random
  solution := h.solution
  timestamp := formatRfc3339 ht h.timestamp
  transactionsLen := h.transactionsLen
  transactionsRangeHash := h.transactionsRangeHash
  inputsLen := h.inputsLen
  inputsRangeHash := h.inputsRangeHash
  outputsLen := h.outputsLen
  outputsRangeHash := h.outputsRangeHash
  canariesRangeHash := h.canariesRangeHash

/-- `Deserialize for MicroBlockHeader`: the fields in the order they are
    written. -/
def MicroBlockHeader.ofJson (ht : Humantime) (j : MicroBlockHeaderJson) :
    Except String MicroBlockHeader := do
  let viewChangeProof ← match j.viewChangeProof with
    | some proof => some <$> ViewChangeProof.ofJson proof
    | none => pure none
  let timestamp ← parseRfc3339 ht j.timestamp
  pure {
    version := j.version
    previous := j.previous
    epoch := j.epoch
    offset := j.offset
    viewChange := j.viewChange
    viewChangeProof
    pkey := j.pkey
    random := j.random
    solution := j.solution
    timestamp
    transactionsLen := j.transactionsLen
    transactionsRangeHash := j.transactionsRangeHash
    inputsLen := j.inputsLen
    inputsRangeHash := j.inputsRangeHash
    outputsLen := j.outputsLen
    outputsRangeHash := j.outputsRangeHash
    canariesRangeHash := j.canariesRangeHash }

/-- `api::MicroBlockInfo`. -/
structure MicroBlockInfo (Fr Pt : Type) where
  blockHash : ℕ
  header : MicroBlockHeader
  sig : Signed ℕ ℕ
  transactions : List (Transaction Fr Pt)
  deriving DecidableEq, Repr

/-- `From<MicroBlock> for MicroBlockInfo`. -/
def MicroBlockInfo.ofMicroBlock (digest : List (HashItem Fr) → ℕ) (b : MicroBlock Fr Pt) :
    MicroBlockInfo Fr Pt :=
  ⟨microBlockDigest digest b, b.header, b.sig, b.transactions⟩

/-- `From<MicroBlockInfo> for MicroBlock`. -/
def MicroBlock.ofMicroBlockInfo (b : MicroBlockInfo Fr Pt) : MicroBlock Fr Pt :=
  ⟨b.header, b.sig, b.transactions⟩

/-- The JSON object of a `MicroBlockInfo`, its header flattened into it. -/
structure MicroBlockInfoJson (Fr Pt : Type) where
  blockHash : ℕ
  header : MicroBlockHeaderJson
  sig : Signed ℕ ℕ
  transactions : List (Transaction Fr Pt)
  deriving DecidableEq, Repr

/-- `Serialize for MicroBlockInfo`. -/
def MicroBlockInfo.toJson (ht : Humantime) (b : MicroBlockInfo Fr Pt) : MicroBlockInfoJson Fr Pt :=
  ⟨b.blockHash, b.header.toJson ht, b.sig, b.transactions⟩

/-- `Deserialize for MicroBlockInfo`. -/
def MicroBlockInfo.ofJson (ht : Humantime) (j : MicroBlockInfoJson Fr Pt) :
    Except String (MicroBlockInfo Fr Pt) := do
  let header ← MicroBlockHeader.ofJson ht j.header
  pure ⟨j.blockHash, header, j.sig, j.transactions⟩

/-- `Serialize for MicroBlock` (`into = "MicroBlockInfo"`). -/
def MicroBlock.toJson (ht : Humantime) (digest : List (HashItem Fr) → ℕ) (b : MicroBlock Fr Pt) :
    MicroBlockInfoJson Fr Pt :=
  (MicroBlockInfo.ofMicroBlock digest b).toJson ht

/-- `Deserialize for MicroBlock` (`from = "MicroBlockInfo"`). -/
def MicroBlock.ofJson (ht : Humantime) (j : MicroBlockInfoJson Fr Pt) :
    Except String (MicroBlock Fr Pt) :=
  MicroBlock.ofMicroBlockInfo <$> MicroBlockInfo.ofJson ht j

/-! ### Round trips of the fields -/

theorem serializeBitvec_eq (vec : List Bool) :
    serializeBitvec vec = (trimBitvec vec).map fun val => if val then '1' else '0' := by
  -- a `0` is trimmed exactly where a `false` is
  have hp : ((· == '0') ∘ fun val : Bool => if val then '1' else '0') = (· == false) := by
    funext val
    cases val <;> rfl
  rw [serializeBitvec, trimBitvec, List.rdropWhile, List.rdropWhile, ← List.map_reverse,
    List.dropWhile_map, hp, List.map_reverse]

theorem deserializeBitvec_map (vec : List Bool) :
    deserializeBitvec (vec.map fun val => if val then '1' else '0') = .ok vec := by
  induction vec with
  | nil => rfl
  | cons val vec ih =>
    rw [deserializeBitvec] at ih ⊢
    rw [List.map_cons, List.mapM_cons, ih]
    cases val <;> rfl

/-- A bitmap reads back as `trim_bitvec` leaves it. -/
theorem deserializeBitvec_serializeBitvec (vec : List Bool) :
    deserializeBitvec (serializeBitvec vec) = .ok (trimBitvec vec) := by
  rw [serializeBitvec_eq, deserializeBitvec_map]

/-- `trim_bitvec` leaves a bitmap as it is exactly when it does not end in a
    `false`. -/
theorem trimBitvec_eq_self_iff (vec : List Bool) : trimBitvec vec = vec ↔ vec.getLast? ≠ some false := by
  rw [trimBitvec, List.rdropWhile_eq_self_iff]
  rcases List.eq_nil_or_concat vec with rfl | ⟨rest, last, rfl⟩
  · simp
  · simp

/-! ### Round trips of the blocks -/

section Humantime

variable {ht : Humantime} (hht : ht.TruncatesToMillis)
include hht

/-- The block read back from the JSON of a macro block: its bitmaps trimmed and
    its timestamp truncated to the millisecond. -/
theorem MacroBlock.ofJson_toJson (digest : List (HashItem Fr) → ℕ) (b : MacroBlock Fr Pt) :
    MacroBlock.ofJson ht (b.toJson ht digest) = .ok
      { b with
        header := { b.header with
          timestamp := b.header.timestamp - b.header.timestamp % 1000000
          activityMap := trimBitvec b.header.activityMap }
        multisigmap := trimBitvec b.multisigmap } := by
  simp only [MacroBlock.ofJson, MacroBlock.toJson, MacroBlockInfo.ofJson, MacroBlockInfo.toJson,
    MacroBlockHeader.ofJson, MacroBlockHeader.toJson, MacroBlockInfo.ofMacroBlock, parseRfc3339,
    formatRfc3339, hht _, deserializeBitvec_serializeBitvec, bind, Except.bind, pure, Except.pure,
    Functor.map, Except.map]
  rfl

/-- The block read back from the JSON of a micro block: the bitmap of its view
    change proof trimmed and its timestamp truncated to the millisecond. -/
theorem MicroBlock.ofJson_toJson (digest : List (HashItem Fr) → ℕ) (b : MicroBlock Fr Pt) :
    MicroBlock.ofJson ht (b.toJson ht digest) = .ok
      { b with
        header := { b.header with
          viewChangeProof := b.header.viewChangeProof.map fun proof =>
            ⟨trimBitvec proof.multimap, proof.multisig⟩
          timestamp := b.header.timestamp - b.header.timestamp % 1000000 } } := by
  cases hproof : b.header.viewChangeProof <;>
    simp [MicroBlock.ofJson, MicroBlock.toJson, MicroBlockInfo.ofJson, MicroBlockInfo.toJson,
      MicroBlockHeader.ofJson, MicroBlockHeader.toJson, MicroBlockInfo.ofMicroBlock,
      MicroBlock.ofMicroBlockInfo, ViewChangeProof.ofJson, ViewChangeProof.toJson, hproof,
      parseRfc3339, formatRfc3339, hht _, deserializeBitvec_serializeBitvec, bind, Except.bind,
      pure, Except.pure, Functor.map, Except.map]

end Humantime

/-- Two macro headers that differ at most in their timestamps and activity
    maps feed the hasher alike exactly when these agree. -/
theorem MacroBlockHeader.hashItems_with_eq_iff (h : MacroBlockHeader Fr) (timestamp : ℕ)
    (activityMap : List Bool) :
    ({ h with timestamp := timestamp, activityMap := activityMap } : MacroBlockHeader Fr).hashItems =
        h.hashItems ↔ timestamp = h.timestamp ∧ activityMap = h.activityMap := by
  constructor
  · intro heq
    simp only [MacroBlockHeader.hashItems] at heq
    -- as many items follow the activity map, and as many come before it
    obtain ⟨hbefore, -⟩ := List.append_inj' heq rfl
    obtain ⟨hhead, hbits⟩ := List.append_inj hbefore rfl
    simp only [List.cons.injEq, HashItem.num.injEq] at hhead
    obtain ⟨-, -, -, -, -, -, -, -, -, htimestamp, -⟩ := hhead
    exact ⟨htimestamp, List.map_injective_iff.2 (fun _ _ hb => HashItem.bit.inj hb) hbits⟩
  · rintro ⟨rfl, rfl⟩
    rfl

/-- Two micro headers that differ at most in their timestamps and in the
    bitmaps of their view change proofs feed the hasher alike exactly when the
    timestamps agree. -/
theorem MicroBlockHeader.hashItems_with_eq_iff (h : MicroBlockHeader) (timestamp : ℕ)
    (multimap : List Bool → List Bool) :
    ({ h with
        viewChangeProof := h.viewChangeProof.map fun proof => ⟨multimap proof.multimap, proof.multisig⟩
        timestamp := timestamp } : MicroBlockHeader).hashItems =
        (h.hashItems : List (HashItem Fr)) ↔ timestamp = h.timestamp := by
  cases hproof : h.viewChangeProof <;> simp [MicroBlockHeader.hashItems, hproof]

/-! ### The hash of the block read back -/

/-- What a hasher is fed, as values of countable types: a string by its
    characters. -/
def HashItem.code : HashItem Fr → List ℕ ⊕ ℕ ⊕ ℤ ⊕ Fr ⊕ Bool
  | .str s => .inl (s.toList.map Char.toNat)
  | .num n => .inr (.inl n)
  | .int z => .inr (.inr (.inl z))
  | .fr x => .inr (.inr (.inr (.inl x)))
  | .bit b => .inr (.inr (.inr (.inr b)))

theorem HashItem.code_injective :
    Function.Injective (HashItem.code : HashItem Fr → List ℕ ⊕ ℕ ⊕ ℤ ⊕ Fr ⊕ Bool) := by
  rintro (s | n | z | x | b) (s' | n' | z' | x' | b') he <;> simp [HashItem.code] at he ⊢
  · exact String.toList_inj.1 ((List.map_injective_iff.2 fun _ _ => Char.toNat_inj.1) he)
  all_goals exact he

/-- An ideal digest: the encoding of what the hasher is fed, injective. -/
def encodeDigest [Encodable Fr] (items : List (HashItem Fr)) : ℕ :=
  Encodable.encode (items.map HashItem.code)

theorem encodeDigest_injective [Encodable Fr] :
    Function.Injective (encodeDigest : List (HashItem Fr) → ℕ) :=
  fun _ _ he => (List.map_injective_iff.2 HashItem.code_injective) (Encodable.encode_injective he)

/-- For an ideal digest, and humantime as documented, the macro block read
    back from the JSON of a block has the hash of the block, the `block_hash`
    written, exactly when the block's timestamp is a whole number of
    milliseconds and its activity map does not end in a `0`. -/
theorem macroBlockDigest_ofJson_toJson_iff {ht : Humantime} (hht : ht.TruncatesToMillis)
    {digest : List (HashItem Fr) → ℕ} (hd : Function.Injective digest) (b : MacroBlock Fr Pt) :
    ∃ b₂, MacroBlock.ofJson ht (b.toJson ht digest) = .ok b₂ ∧
      (b.toJson ht digest).blockHash = macroBlockDigest digest b ∧
      (macroBlockDigest digest b₂ = macroBlockDigest digest b ↔
        b.header.timestamp % 1000000 = 0 ∧ b.header.activityMap.getLast? ≠ some false) := by
  refine ⟨_, MacroBlock.ofJson_toJson hht digest b, rfl, ?_⟩
  rw [macroBlockDigest, macroBlockDigest, hd.eq_iff, MacroBlockHeader.hashItems_with_eq_iff,
    trimBitvec_eq_self_iff]
  exact and_congr (by omega) Iff.rfl

/-- A macro block of an epoch whose second validator was not active, made one
    nanosecond past a second. -/
def sampleMacroBlock : MacroBlock ℤ ℤ where
  header :=
    { version := 1, previous := 0, epoch := 1, viewChange := 0, pkey := 7, random := ⟨0, 0⟩,
      difficulty := 0, timestamp := 1000000001, blockReward := 0, gamma := 0,
      activityMap := [true, false], validatorsLen := 2, validatorsRangeHash := 0, inputsLen := 0,
      inputsRangeHash := 0, outputsLen := 0, outputsRangeHash := 0, canariesRangeHash := 0 }
  multisig := 0
  multisigmap := [true, true]
  inputs := []
  outputs := []

theorem macroBlockDigest_ofJson_toJson_iff_sample :
    decimalMillis.TruncatesToMillis ∧ Function.Injective (encodeDigest : List (HashItem ℤ) → ℕ) ∧
    ∃ b₂, MacroBlock.ofJson decimalMillis (sampleMacroBlock.toJson decimalMillis encodeDigest) = .ok b₂ ∧
      (sampleMacroBlock.toJson decimalMillis encodeDigest).blockHash =
        macroBlockDigest encodeDigest sampleMacroBlock ∧
      (macroBlockDigest encodeDigest b₂ = macroBlockDigest encodeDigest sampleMacroBlock ↔
        sampleMacroBlock.header.timestamp % 1000000 = 0 ∧
          sampleMacroBlock.header.activityMap.getLast? ≠ some false) :=
  ⟨decimalMillis_truncatesToMillis, encodeDigest_injective,
    macroBlockDigest_ofJson_toJson_iff decimalMillis_truncatesToMillis encodeDigest_injective
      sampleMacroBlock⟩

/-- For an ideal digest, and humantime as documented, the micro block read
    back from the JSON of a block has the hash of the block, the `block_hash`
    written, exactly when the block's timestamp is a whole number of
    milliseconds. -/
theorem microBlockDigest_ofJson_toJson_iff {ht : Humantime} (hht : ht.TruncatesToMillis)
    {digest : List (HashItem Fr) → ℕ} (hd : Function.Injective digest) (b : MicroBlock Fr Pt) :
    ∃ b₂, MicroBlock.ofJson ht (b.toJson ht digest) = .ok b₂ ∧
      (b.toJson ht digest).blockHash = microBlockDigest digest b ∧
      (microBlockDigest digest b₂ = microBlockDigest digest b ↔
        b.header.timestamp % 1000000 = 0) := by
  refine ⟨_, MicroBlock.ofJson_toJson hht digest b, rfl, ?_⟩
  rw [microBlockDigest, microBlockDigest, hd.eq_iff, MicroBlockHeader.hashItems_with_eq_iff]
  omega

/-- The micro block of the epoch of `sampleMacroBlock` after it, two
    milliseconds later. -/
def sampleMicroBlock : MicroBlock ℤ ℤ where
  header :=
    { version := 1, previous := 0, epoch := 1, offset := 0, viewChange := 0,
      viewChangeProof := none, pkey := 7, random := ⟨0, 0⟩, solution := 0,
      timestamp := 1002000000, transactionsLen := 0, transactionsRangeHash := 0, inputsLen := 0,
      inputsRangeHash := 0, outputsLen := 0, outputsRangeHash := 0, canariesRangeHash := 0 }
  sig := ⟨7, 0⟩
  transactions := []

theorem microBlockDigest_ofJson_toJson_iff_sample :
    decimalMillis.TruncatesToMillis ∧ Function.Injective (encodeDigest : List (HashItem ℤ) → ℕ) ∧
    ∃ b₂, MicroBlock.ofJson decimalMillis (sampleMicroBlock.toJson decimalMillis encodeDigest) = .ok b₂ ∧
      (sampleMicroBlock.toJson decimalMillis encodeDigest).blockHash =
        microBlockDigest encodeDigest sampleMicroBlock ∧
      (microBlockDigest encodeDigest b₂ = microBlockDigest encodeDigest sampleMicroBlock ↔
        sampleMicroBlock.header.timestamp % 1000000 = 0) :=
  ⟨decimalMillis_truncatesToMillis, encodeDigest_injective,
    microBlockDigest_ofJson_toJson_iff decimalMillis_truncatesToMillis encodeDigest_injective
      sampleMicroBlock⟩

/-- The JSON form loses what the hash binds: for humantime as documented and
    every ideal digest, the block read back from the JSON of `sampleMacroBlock`
    has another hash than the `block_hash` written beside it. Its timestamp
    comes back truncated to the millisecond, and its activity map `10` comes
    back as `1`, of another length. -/
theorem macroBlock_json_hash_changes :
    decimalMillis.TruncatesToMillis ∧ Function.Injective (encodeDigest : List (HashItem ℤ) → ℕ) ∧
    ∀ ht : Humantime, ht.TruncatesToMillis → ∀ digest : List (HashItem ℤ) → ℕ,
      Function.Injective digest →
      ∃ b₂, MacroBlock.ofJson ht (sampleMacroBlock.toJson ht digest) = .ok b₂ ∧
        b₂.header.timestamp = 1000000000 ∧ b₂.header.activityMap = [true] ∧
        macroBlockDigest digest b₂ ≠ (sampleMacroBlock.toJson ht digest).blockHash := by
  refine ⟨decimalMillis_truncatesToMillis, encodeDigest_injective, fun ht hht digest hd =>
    ⟨_, MacroBlock.ofJson_toJson hht digest _, rfl, rfl, ?_⟩⟩
  -- the header read back feeds the hasher another timestamp
  show digest _ ≠ digest _
  rw [Ne, hd.eq_iff, MacroBlockHeader.hashItems_with_eq_iff]
  decide

end Stegos
