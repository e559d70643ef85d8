import RollupNode.PayloadV7

set_option autoImplicit false

/-! What holds of the blocks of a decoded batch, whatever its version. -/
namespace RollupNode.Codec
open ExceptTraversal

def ReadsL2 (transaction : Decoder Bytes) : Prop :=
  ∀ buf tx rest, transaction buf = .ok (tx, rest) → IsL2Transaction tx

theorem readsL2_tryFromBuf : ReadsL2 Transaction.tryFromBuf := by
  intro buf tx rest h
  exact ((exact_transaction buf tx rest).1 h).1

theorem readsL2_transactionV0 : ReadsL2 transactionV0 := by
  intro buf tx rest h
  obtain ⟨_, mid, -, h⟩ := ByteReader.bind_eq_ok.1 h
  exact readsL2_tryFromBuf mid tx rest h

theorem readBlocks_complete {transaction : Decoder Bytes} (hreads : ReadsL2 transaction)
    {contexts : List BlockContext} {buf rest : Bytes} {blocks : List L2Block}
    (h : readBlocks transaction contexts buf = .ok (blocks, rest)) :
    ∀ block ∈ blocks, block.Complete := by
  induction contexts generalizing buf blocks with
  | nil =>
    cases h
    exact List.forall_mem_nil _
  | cons context contexts ih =>
    obtain ⟨transactions, mid, htransactions, h⟩ := ByteReader.bind_eq_ok.1 h
    obtain ⟨later, last, hlater, h⟩ := ByteReader.bind_eq_ok.1 h
    cases h
    obtain ⟨hlength, hall⟩ := ByteReader.times_spec hreads htransactions
    exact List.forall_mem_cons.2 ⟨⟨hlength, hall⟩, ih hlater⟩

theorem chunksV1_complete {chunks : List Bytes} {buf rest : Bytes}
    {decoded : List (ℕ × List L2Block)} (h : chunksV1 chunks buf = .ok (decoded, rest)) :
    ∀ block ∈ decoded.flatMap Prod.snd, block.Complete := by
  induction chunks generalizing buf decoded with
  | nil =>
    cases h
    exact List.forall_mem_nil _
  | cons chunk chunks ih =>
    obtain ⟨⟨contexts, _⟩, mid, -, h⟩ := ByteReader.bind_eq_ok.1 h
    obtain ⟨blocks, mid', hblocks, h⟩ := ByteReader.bind_eq_ok.1 h
    obtain ⟨later, last, hlater, h⟩ := ByteReader.bind_eq_ok.1 h
    cases h
    rw [List.flatMap_cons]
    exact List.forall_mem_append.2 ⟨readBlocks_complete readsL2_tryFromBuf hblocks, ih hlater⟩

structure ReadFrom (call : CommitBatchCall) (data : PayloadData) : Prop where
  bitmap : call.skippedL1MessageBitmap = .ok data.skippedL1MessageBitmap
  complete : ∀ block ∈ data.blocks, block.Complete

theorem requireCall_eq_ok {ext : Externals} {calldata : Bytes} {call : CommitBatchCall}
    (h : requireCall ext calldata = .ok call) : ext.tryDecode calldata = some call :=
  elim_eq_ok.1 h

theorem callBitmap_eq_ok {call : CommitBatchCall} {bitmap : Option (List Bool)}
    (h : callBitmap call = .ok bitmap) : call.skippedL1MessageBitmap = .ok bitmap := by
  rw [callBitmap] at h
  cases hread : call.skippedL1MessageBitmap with
  | error e =>
    rw [hread] at h
    cases h
  | ok found =>
    rw [hread] at h
    cases h
    rfl

section
variable {ext : Externals} {build : Build} {calldata blob : Bytes} {batch : Batch}

theorem decodeV0_readFrom (h : decodeV0 ext calldata = .ok batch) :
    ∃ call, ext.tryDecode calldata = some call ∧ ReadFrom call batch.data := by
  obtain ⟨call, hcall, h⟩ := bind_eq_ok.1 h
  obtain ⟨chunks, -, h⟩ := bind_eq_ok.1 h
  obtain ⟨decoded, hdecoded, h⟩ := bind_eq_ok.1 h
  obtain ⟨start, -, h⟩ := bind_eq_ok.1 h
  obtain ⟨bitmap, hbitmap, h⟩ := bind_eq_ok.1 h
  cases h
  refine ⟨call, requireCall_eq_ok hcall, callBitmap_eq_ok hbitmap, ?_⟩
  intro block hblock
  obtain ⟨blocks, hblocks, hmem⟩ := List.mem_flatMap.1 hblock
  obtain ⟨chunk, -, hchunk⟩ := (mapM_ok_spec hdecoded).2 blocks hblocks
  obtain ⟨⟨contexts, rest⟩, -, hchunk⟩ := bind_eq_ok.1 hchunk
  obtain ⟨⟨read, last⟩, hread, hchunk⟩ := bind_eq_ok.1 hchunk
  cases hchunk
  exact readBlocks_complete readsL2_transactionV0 hread block hmem

/-- From version 1 to 6 the chunks are read alike, behind what the versions have of their own. -/
theorem decodeChunks_readFrom {call : CommitBatchCall} {chunks : List Bytes} {maxChunks start : ℕ}
    {data : Bytes} (h : (do
      let buf ← skipChunkSizes build maxChunks chunks data
      decodeV1Chunk call.version (← callBitmap call) start chunks buf) = .ok batch) :
    ReadFrom call batch.data := by
  obtain ⟨buf, -, h⟩ := bind_eq_ok.1 h
  obtain ⟨bitmap, hbitmap, h⟩ := bind_eq_ok.1 h
  obtain ⟨⟨decoded, rest⟩, hdecoded, h⟩ := bind_eq_ok.1 h
  cases h
  exact ⟨callBitmap_eq_ok hbitmap, chunksV1_complete hdecoded⟩

def NumberedInOrder (blocks : List L2Block) : Prop :=
  ∃ initial, blocks.map (·.context.number) =
    (List.range blocks.length).map (fun i => (initial + i) % 2 ^ 64)

theorem decodeV7_spec (h : decodeV7 ext build blob = .ok batch) :
    NumberedInOrder batch.data.blocks ∧ ∀ block ∈ batch.data.blocks, block.Complete := by
  rw [decodeV7_eq] at h
  obtain ⟨_, -, h⟩ := bind_eq_ok.1 h
  obtain ⟨data, hdata, h⟩ := bind_eq_ok.1 h
  cases h
  obtain ⟨rest, hrest⟩ := decodeV7Payload_eq_ok.1 hdata
  obtain ⟨prev, post, initial, -, -, -, -, hnumbers, hall, -⟩ := payloadV7_written hrest
  exact ⟨⟨initial, hnumbers⟩, fun block hblock => (hall block hblock).2⟩

/-- What every version guarantees of a decoded batch. -/
theorem decode_spec {blob : Option Bytes} (h : decode ext build calldata blob = .ok batch) :
    ∃ version, getCodecVersion calldata = .ok version ∧
      (version < 7 → ∃ call, ext.tryDecode calldata = some call ∧ ReadFrom call batch.data) ∧
      (7 ≤ version → NumberedInOrder batch.data.blocks) ∧
      ∀ block ∈ batch.data.blocks, block.Complete := by
  obtain ⟨version, hversion, h⟩ := bind_eq_ok.1 h
  refine ⟨version, hversion, ?_⟩
  by_cases hold : version < 7
  · suffices hread : ∃ call, ext.tryDecode calldata = some call ∧ ReadFrom call batch.data by
      obtain ⟨call, hcall, hfrom⟩ := hread
      exact ⟨fun _ => ⟨call, hcall, hfrom⟩, fun hseven => by omega, hfrom.complete⟩
    by_cases hzero : version = 0
    · rw [if_pos hzero] at h
      exact decodeV0_readFrom h
    rw [if_neg hzero] at h
    by_cases hone : version = 1
    · rw [if_pos hone] at h
      obtain ⟨bytes, -, h⟩ := bind_eq_ok.1 h
      obtain ⟨call, hcall, h⟩ := bind_eq_ok.1 h
      obtain ⟨start, -, h⟩ := bind_eq_ok.1 h
      obtain ⟨chunks, -, h⟩ := bind_eq_ok.1 h
      exact ⟨call, requireCall_eq_ok hcall, decodeChunks_readFrom h⟩
    rw [if_neg hone] at h
    by_cases hfour : version < 4
    · rw [if_pos hfour] at h
      obtain ⟨bytes, -, h⟩ := bind_eq_ok.1 h
      obtain ⟨call, hcall, h⟩ := bind_eq_ok.1 h
      obtain ⟨chunks, -, h⟩ := bind_eq_ok.1 h
      obtain ⟨start, -, h⟩ := bind_eq_ok.1 h
      exact ⟨call, requireCall_eq_ok hcall, decodeChunks_readFrom h⟩
    · rw [if_neg hfour, if_pos hold] at h
      obtain ⟨bytes, -, h⟩ := bind_eq_ok.1 h
      obtain ⟨call, hcall, h⟩ := bind_eq_ok.1 h
      obtain ⟨chunks, -, h⟩ := bind_eq_ok.1 h
      obtain ⟨start, -, h⟩ := bind_eq_ok.1 h
      split at h
      · cases h
      · obtain ⟨_, -, h⟩ := bind_eq_ok.1 h
        exact ⟨call, requireCall_eq_ok hcall, decodeChunks_readFrom h⟩
  · refine ⟨fun hlt => absurd hlt hold, ?_⟩
    rw [if_neg (by omega), if_neg (by omega), if_neg (by omega), if_neg hold] at h
    by_cases heleven : version ≤ 11
    · rw [if_pos heleven] at h
      obtain ⟨bytes, -, h⟩ := bind_eq_ok.1 h
      obtain ⟨hnumbers, hcomplete⟩ := decodeV7_spec h
      exact ⟨fun _ => hnumbers, hcomplete⟩
    · rw [if_neg heleven] at h
      cases h

end
end RollupNode.Codec
