import RollupNode.ChunkHashes

set_option autoImplicit false

/-! The places at which the decoder panics, in any build or with debug assertions only. -/
namespace RollupNode.Codec
open ByteReader

section
variable {α β : Type}

def Panics (x : Except Stop α) : Prop := ∃ message, x = .error (.panic message)

theorem panics_bind {f : α → Except Stop β} {x : Except Stop α} :
    Panics (x >>= f) ↔ Panics x ∨ ∃ a, x = .ok a ∧ Panics (f a) := by
  simp only [Panics, ExceptTraversal.bind_eq_error]
  constructor
  · rintro ⟨message, hx | ⟨a, ha, hf⟩⟩
    · exact .inl ⟨message, hx⟩
    · exact .inr ⟨a, ha, message, hf⟩
  · rintro (⟨message, hx⟩ | ⟨a, ha, message, hf⟩)
    · exact ⟨message, .inl hx⟩
    · exact ⟨message, .inr ⟨a, ha, hf⟩⟩

theorem panics_bind_right {f : α → Except Stop β} {x : Except Stop α} (hx : ¬ Panics x) :
    Panics (x >>= f) ↔ ∃ a, x = .ok a ∧ Panics (f a) := by
  rw [panics_bind, or_iff_right hx]

theorem panics_reader_bind {reader : Decoder α} {next : α → Decoder β} {buf : Bytes} :
    Panics ((reader >>= next) buf) ↔
      Panics (reader buf) ∨ ∃ a mid, reader buf = .ok (a, mid) ∧ Panics (next a mid) := by
  change Panics (reader buf >>= fun p => next p.1 p.2) ↔ _
  rw [panics_bind, Prod.exists]

theorem not_panics_ok (a : α) : ¬ Panics (.ok a : Except Stop α) := by
  rintro ⟨message, h⟩
  cases h

theorem not_panics_elim (x : Option α) (e : DecodingError) :
    ¬ Panics (x.elim (.error (.error e)) .ok) := by
  rintro ⟨message, h⟩
  cases x with
  | none => cases h
  | some a => cases h

theorem not_panics_of_avoids {reader : Decoder α} (h : Avoids Stop.IsPanic 0 reader) (buf : Bytes) :
    ¬ Panics (reader buf) := by
  rintro ⟨message, hread⟩
  exact h buf _ (Nat.zero_le _) hread ⟨message, rfl⟩

/-! ### Readings behind a check -/

theorem takes_advance (count : ℕ) : Takes (advance count) count :=
  (takes_takeBytes (.panic "cannot advance past remaining" : Stop) count).map fun _ => ()

end

theorem BatchHeader.avoids_tryFromBuf : Avoids Stop.IsPanic 0 BatchHeader.tryFromBuf := by
  intro buf e _ hread
  rcases bind_eq_error.1 hread with hstop | ⟨_, _, hget, hstop⟩
  · cases hstop
  · cases hget
    cases buf with
    | nil =>
      cases hstop
      exact not_isPanic_error .eof
    | cons version rest =>
      simp only at hstop
      split at hstop
      · exact (BatchHeaderV0.tryFromBuf_spec.2.bind fun _ => avoids_pure _ _ _) _ e
          (Nat.zero_le _) hstop
      split at hstop
      · exact (BatchHeaderV1.tryFromBuf_spec.2.bind fun _ => avoids_pure _ _ _) _ e
          (Nat.zero_le _) hstop
      · exact (BatchHeaderV3.tryFromBuf_spec.2.bind fun _ => avoids_pure _ _ _) _ e
          (Nat.zero_le _) hstop

theorem Transaction.avoids_tryFromBuf : Avoids Stop.IsPanic 0 Transaction.tryFromBuf := by
  intro buf e _ hread
  have hfinish : ∀ length buf, finishTransaction length buf = .error e → ¬ e.IsPanic :=
    fun length buf => avoids_takeBytes (not_isPanic_error .eof) length buf e (Nat.zero_le _)
  rcases bind_eq_error.1 hread with hstop | ⟨_, _, hget, hstop⟩
  · cases hstop
  cases hget
  cases hheader : Rlp.decodeHeader buf with
  | none =>
    rw [hheader] at hstop
    cases hstop
    exact not_isPanic_error .eof
  | some found =>
    rw [hheader] at hstop
    simp only at hstop
    split at hstop
    · exact hfinish _ _ hstop
    cases buf with
    | nil => cases hheader
    | cons type body =>
      simp only at hstop
      split at hstop
      · cases hstop
        exact not_isPanic_error _
      cases hbody : Rlp.decodeHeader body with
      | none =>
        rw [hbody] at hstop
        cases hstop
        exact not_isPanic_error .eof
      | some found =>
        rw [hbody] at hstop
        simp only at hstop
        split at hstop
        · exact hfinish _ _ hstop
        · cases hstop
          exact not_isPanic_error _

theorem not_panics_chunkContexts (chunk : Bytes) : ¬ Panics (chunkContexts chunk) := by
  cases chunk with
  | nil =>
    rintro ⟨message, h⟩
    cases h
  | cons count rest =>
    exact not_panics_of_avoids (guarded_blockContextV0.avoids.times count.toNat) rest

/-! ### Transactions of blocks -/

def transactionsTotal (contexts : List BlockContext) : ℕ :=
  (contexts.map BlockContext.transactionsCount).sum

theorem readBlocks_eq_error {buf : Bytes} {transaction : Decoder Bytes}
    {contexts : List BlockContext} {stop : Stop} :
    readBlocks transaction contexts buf = .error stop ↔
      times transaction (transactionsTotal contexts) buf = .error stop := by
  induction contexts generalizing buf with
  | nil => exact iff_of_false (fun h => by cases h) (fun h => by cases h)
  | cons context contexts ih =>
    have htotal : transactionsTotal (context :: contexts) =
        context.transactionsCount + transactionsTotal contexts := List.sum_cons
    have hlater : ∀ (first : List Bytes) (mid : Bytes),
        (do
          let later ← times transaction (transactionsTotal contexts)
          return first ++ later : Decoder (List Bytes)) mid = .error stop ↔
        (do
          let blocks ← readBlocks transaction contexts
          return ⟨first, context⟩ :: blocks : Decoder (List L2Block)) mid = .error stop := by
      intro first mid
      rw [bind_eq_error, bind_eq_error, ih]
      refine or_congr_right (iff_of_false ?_ ?_)
      · rintro ⟨_, _, -, h⟩
        cases h
      · rintro ⟨_, _, -, h⟩
        cases h
    rw [htotal, times_add, readBlocks, bind_eq_error, bind_eq_error]
    simp only [hlater]

theorem avoids_readBlocks (contexts : List BlockContext) :
    Avoids Stop.IsPanic 0 (readBlocks Transaction.tryFromBuf contexts) := by
  intro buf e hlong hstop
  exact Transaction.avoids_tryFromBuf.times _ buf e hlong (readBlocks_eq_error.1 hstop)

/-! ### Version 0 -/

def PartV0 (tx part : Bytes) : Prop := IsL2Transaction tx ∧ PrefixedBy4 tx part

theorem transactionV0_part {buf tx rest : Bytes} (h : transactionV0 buf = .ok (tx, rest)) :
    ∃ part, PartV0 tx part ∧ buf = part ++ rest := by
  obtain ⟨part, hpart, hbuf⟩ := transactionV0_written h
  exact ⟨part, ⟨readsL2_transactionV0 buf tx rest h, hpart⟩, hbuf⟩

theorem transactionV0_of_part {tx part : Bytes} (rest : Bytes) (h : PartV0 tx part) :
    transactionV0 (part ++ rest) = .ok (tx, rest) := by
  obtain ⟨htx, length, hlength, rfl⟩ := h
  rw [List.append_assoc]
  have hskip : advance 4 (length ++ (tx ++ rest)) = .ok ((), tx ++ rest) :=
    bind_eq_ok.2 ⟨length, _, (exact_takeBytes _ 4 _ _ _).2 ⟨hlength, rfl⟩, rfl⟩
  exact bind_eq_ok.2 ⟨(), _, hskip, (exact_transaction _ _ _).2 ⟨htx, rfl⟩⟩

theorem panics_transactionV0 {buf : Bytes} : Panics (transactionV0 buf) ↔ buf.length < 4 := by
  by_cases hshort : buf.length < 4
  · have hadvance : advance 4 buf = .error (.panic "cannot advance past remaining") :=
      bind_eq_error.2 (.inl (if_pos hshort))
    exact iff_of_true ⟨_, bind_eq_error.2 (.inl hadvance)⟩ hshort
  · refine iff_of_false ?_ hshort
    obtain ⟨u, hu⟩ := takes_advance 4 buf (Nat.le_of_not_lt hshort)
    rintro ⟨message, hstop⟩
    rcases bind_eq_error.1 hstop with hstop | ⟨_, mid, -, hstop⟩
    · cases hu.symm.trans hstop
    · exact not_panics_of_avoids Transaction.avoids_tryFromBuf mid ⟨message, hstop⟩

/-- The chunk ends where the length of one more transaction should stand. -/
def CutShort (chunk : Bytes) : Prop :=
  ∃ (count : UInt8) (contexts : List BlockContext) (txs parts : List Bytes) (left : Bytes),
    count.toNat = contexts.length ∧ (∀ c ∈ contexts, c.Fits) ∧
    chunk = count :: (contexts.flatMap BlockContext.toBeBytes ++ (parts.flatten ++ left)) ∧
    List.Forall₂ PartV0 txs parts ∧ txs.length < transactionsTotal contexts ∧ left.length < 4

theorem panics_chunkV0 {chunk : Bytes} : Panics (chunkV0 chunk) ↔ CutShort chunk := by
  have hblocks : ∀ contexts buf, Panics (readBlocks transactionV0 contexts buf >>= fun read =>
      pure (contexts.length, read.1) : Except Stop (ℕ × List L2Block)) ↔
      ∃ done < transactionsTotal contexts, ∃ txs left,
        times transactionV0 done buf = .ok (txs, left) ∧ left.length < 4 := by
    intro contexts buf
    rw [panics_bind, or_iff_left]
    · simp only [Panics, readBlocks_eq_error, times_eq_error, ← panics_transactionV0]
      constructor
      · rintro ⟨message, done, hdone, txs, left, hread, hstop⟩
        exact ⟨done, hdone, txs, left, hread, message, hstop⟩
      · rintro ⟨done, hdone, txs, left, hread, message, hstop⟩
        exact ⟨message, done, hdone, txs, left, hread, hstop⟩
    · rintro ⟨_, -, h⟩
      exact not_panics_ok _ h
  rw [chunkV0, panics_bind_right (not_panics_chunkContexts chunk)]
  constructor
  · rintro ⟨⟨contexts, buf⟩, hcontexts, hstop⟩
    obtain ⟨done, hdone, txs, left, hread, hleft⟩ := (hblocks contexts buf).1 hstop
    obtain ⟨count, hcount, hfits, rfl⟩ := chunkContexts_eq_ok.1 hcontexts
    obtain ⟨parts, hparts, rfl⟩ := times_written (fun _ _ _ => transactionV0_part) hread
    have hlength := (times_spec (fun _ _ _ _ => trivial) hread).1
    exact ⟨count, contexts, txs, parts, left, hcount, hfits, rfl, hparts, by omega, hleft⟩
  · rintro ⟨count, contexts, txs, parts, left, hcount, hfits, rfl, hparts, hfewer, hleft⟩
    have hread := times_of_written (fun _ _ => transactionV0_of_part) hparts left
    exact ⟨(contexts, parts.flatten ++ left), chunkContexts_eq_ok.2 ⟨count, hcount, hfits, rfl⟩,
      (hblocks _ _).2 ⟨txs.length, hfewer, txs, left, hread, hleft⟩⟩

theorem not_panics_requireCall (ext : Externals) (calldata : Bytes) :
    ¬ Panics (requireCall ext calldata) := not_panics_elim _ _

theorem not_panics_requireChunks (call : CommitBatchCall) : ¬ Panics (requireChunks call) :=
  not_panics_elim _ _

theorem not_panics_startIndex (call : CommitBatchCall) : ¬ Panics (startIndex call) := by
  intro h
  rw [startIndex, panics_bind_right (not_panics_elim _ _)] at h
  obtain ⟨header, -, h⟩ := h
  rcases panics_bind.1 h with hstop | ⟨parsed, -, hstop⟩
  · exact not_panics_of_avoids BatchHeader.avoids_tryFromBuf header hstop
  · exact not_panics_ok _ hstop

theorem not_panics_callBitmap (call : CommitBatchCall) : ¬ Panics (callBitmap call) := by
  rintro ⟨message, h⟩
  rw [callBitmap] at h
  cases hread : call.skippedL1MessageBitmap with
  | error e =>
    rw [hread] at h
    cases h
  | ok bitmap =>
    rw [hread] at h
    cases h

variable {ext : Externals}

theorem panics_decodeV0 {calldata : Bytes} :
    Panics (decodeV0 ext calldata) ↔ ∃ call before chunk after,
      ext.tryDecode calldata = some call ∧ call.chunks = some (before ++ chunk :: after) ∧
      (∀ earlier ∈ before, ∃ blocks, chunkV0 earlier = .ok blocks) ∧ CutShort chunk := by
  rw [decodeV0, panics_bind_right (not_panics_requireCall ext calldata)]
  constructor
  · rintro ⟨call, hcall, hstop⟩
    rw [panics_bind_right (not_panics_requireChunks call)] at hstop
    obtain ⟨chunks, hchunks, hstop⟩ := hstop
    rcases panics_bind.1 hstop with ⟨message, hstop⟩ | ⟨decoded, -, hstop⟩
    · obtain ⟨before, chunk, after, rfl, hbefore, hchunk⟩ :=
        ExceptTraversal.mapM_eq_error.1 hstop
      exact ⟨call, before, chunk, after, ExceptTraversal.elim_eq_ok.1 hcall,
        ExceptTraversal.elim_eq_ok.1 hchunks, hbefore, panics_chunkV0.1 ⟨message, hchunk⟩⟩
    · rw [panics_bind_right (not_panics_startIndex call)] at hstop
      obtain ⟨start, -, hstop⟩ := hstop
      rw [panics_bind_right (not_panics_callBitmap call)] at hstop
      obtain ⟨bitmap, -, hstop⟩ := hstop
      exact absurd hstop (not_panics_ok _)
  · rintro ⟨call, before, chunk, after, hcall, hchunks, hbefore, hshort⟩
    obtain ⟨message, hstop⟩ := panics_chunkV0.2 hshort
    refine ⟨call, ExceptTraversal.elim_eq_ok.2 hcall, ?_⟩
    refine panics_bind.2 (.inr ⟨_, ExceptTraversal.elim_eq_ok.2 hchunks, ?_⟩)
    refine panics_bind.2 (.inl ⟨message, ?_⟩)
    exact ExceptTraversal.mapM_eq_error.2 ⟨before, chunk, after, rfl, hbefore, hstop⟩

/-! ### Versions 1 to 6 -/

variable {build : Build}

theorem panics_debugAssert {condition : Bool} {message : String} :
    Panics (debugAssert build condition message) ↔
      build.debugAssertions = true ∧ condition = false := by
  unfold debugAssert Panics
  cases build.debugAssertions <;> cases condition <;> simp

theorem panics_debugAssert_bind {condition : Bool} {message : String} {β : Type}
    {f : Unit → Except Stop β} :
    Panics (debugAssert build condition message >>= f) ↔
      (build.debugAssertions = true ∧ condition = false) ∨
        ((build.debugAssertions = true → condition = true) ∧ Panics (f ())) := by
  rw [panics_bind, panics_debugAssert]
  simp only [debugAssert_eq_ok]
  exact or_congr_right ⟨fun ⟨_, h⟩ => h, fun h => ⟨(), h⟩⟩

/-- The sizes of all chunks are there, and their number is not that of the chunks. -/
def WrongCount (maxChunks : ℕ) (chunks : List Bytes) (data : Bytes) : Prop :=
  2 + 4 * maxChunks ≤ data.length ∧ chunks.length ≠ beValue (data.take 2)

theorem panics_skipChunkSizes {maxChunks : ℕ} {chunks : List Bytes} {data : Bytes} :
    Panics (skipChunkSizes build maxChunks chunks data) ↔
      build.debugAssertions = true ∧ WrongCount maxChunks chunks data := by
  by_cases hlong : 2 + 4 * maxChunks ≤ data.length
  · have hcheck : checkBufLen (2 + 4 * maxChunks) data = .ok ((), data) :=
      checkBufLen_eq_ok.2 ⟨hlong, rfl⟩
    have hcount : fromBeBytes 2 data = .ok (beValue (data.take 2), data.drop 2) := by
      refine bind_eq_ok.2 ⟨data.take 2, data.drop 2, if_neg (by omega), rfl⟩
    have hrest : 4 * maxChunks ≤ (data.drop 2).length := by
      rw [List.length_drop]
      omega
    obtain ⟨u, hskip⟩ := takes_advance (4 * maxChunks) (data.drop 2) hrest
    have heq : skipChunkSizes build maxChunks chunks data = (do
        debugAssert build (chunks.length = beValue (data.take 2)) "mismatched chunk count"
        return (data.drop 2).drop (4 * maxChunks)) := by
      simp only [skipChunkSizes, hcheck, hcount, hskip, bind, Except.bind]
    rw [heq, panics_bind, or_iff_left, panics_debugAssert, WrongCount, decide_eq_false_iff_not]
    · simp only [hlong, true_and, ne_eq]
    · rintro ⟨_, -, h⟩
      exact not_panics_ok _ h
  · have hcheck : checkBufLen (2 + 4 * maxChunks) data = .error (.error .eof) :=
      if_pos (Nat.lt_of_not_le hlong)
    refine iff_of_false ?_ (fun h => hlong h.2.1)
    rintro ⟨message, h⟩
    simp only [skipChunkSizes, hcheck, bind, Except.bind] at h
    cases h

theorem avoids_chunksV1 (chunks : List Bytes) : Avoids Stop.IsPanic 0 (chunksV1 chunks) := by
  induction chunks with
  | nil => exact avoids_pure _ _ _
  | cons chunk chunks ih =>
    have hcontexts : Avoids Stop.IsPanic 0 (liftM (chunkContexts chunk) : Decoder _) := by
      rintro buf e _ hstop ⟨message, rfl⟩
      exact not_panics_chunkContexts chunk ⟨message, lift_eq_error.1 hstop⟩
    refine hcontexts.bind ?_
    rintro ⟨contexts, _⟩
    refine (avoids_readBlocks contexts).bind fun blocks => ?_
    exact ih.bind fun _ => avoids_pure _ _ _

theorem not_panics_decodeV1Chunk (version start : ℕ) (bitmap : Option (List Bool))
    (chunks : List Bytes) (blob : Bytes) :
    ¬ Panics (decodeV1Chunk version bitmap start chunks blob) := by
  intro h
  rcases panics_bind.1 h with hstop | ⟨_, -, hstop⟩
  · exact not_panics_of_avoids (avoids_chunksV1 chunks) blob hstop
  · exact not_panics_ok _ hstop

section
variable {β : Type} {ext : Externals} {build : Build} {calldata : Bytes} {call : CommitBatchCall}

theorem panics_requireCall_bind {f : CommitBatchCall → Except Stop β} :
    Panics (requireCall ext calldata >>= f) ↔
      ∃ call, ext.tryDecode calldata = some call ∧ Panics (f call) := by
  rw [panics_bind_right (not_panics_requireCall ext calldata)]
  simp only [requireCall, ExceptTraversal.elim_eq_ok]

theorem panics_requireChunks_bind {f : List Bytes → Except Stop β} :
    Panics (requireChunks call >>= f) ↔ ∃ chunks, call.chunks = some chunks ∧ Panics (f chunks) := by
  rw [panics_bind_right (not_panics_requireChunks call)]
  simp only [requireChunks, ExceptTraversal.elim_eq_ok]

theorem panics_startIndex_bind {f : ℕ → Except Stop β} :
    Panics (startIndex call >>= f) ↔ ∃ start, startIndex call = .ok start ∧ Panics (f start) :=
  panics_bind_right (not_panics_startIndex call)

theorem panics_requireBlob_bind {blob : Option Bytes} {f : Bytes → Except Stop β} :
    Panics (requireBlob blob >>= f) ↔ ∃ bytes, blob = some bytes ∧ Panics (f bytes) := by
  rw [requireBlob, panics_bind_right (not_panics_elim _ _)]
  simp only [ExceptTraversal.elim_eq_ok]

theorem panics_chunks {maxChunks start : ℕ} {chunks : List Bytes} {data : Bytes} :
    Panics (do
      let buf ← skipChunkSizes build maxChunks chunks data
      decodeV1Chunk call.version (← callBitmap call) start chunks buf) ↔
      build.debugAssertions = true ∧ WrongCount maxChunks chunks data := by
  rw [panics_bind, panics_skipChunkSizes, or_iff_left]
  rintro ⟨buf, -, hstop⟩
  rw [panics_bind_right (not_panics_callBitmap call)] at hstop
  obtain ⟨bitmap, -, hstop⟩ := hstop
  exact not_panics_decodeV1Chunk _ _ _ _ _ hstop

def Commits (ext : Externals) (calldata : Bytes) (chunks : List Bytes) : Prop :=
  ∃ call start, ext.tryDecode calldata = some call ∧ call.chunks = some chunks ∧
    startIndex call = .ok start

theorem panics_decodeV1 {blob : Bytes} :
    Panics (decodeV1 ext build calldata blob) ↔ build.debugAssertions = true ∧
      ∃ chunks, Commits ext calldata chunks ∧ WrongCount 15 chunks (blobSlice blob) := by
  simp only [decodeV1, panics_requireCall_bind, panics_startIndex_bind, panics_requireChunks_bind,
    panics_chunks]
  constructor
  · rintro ⟨call, hcall, start, hstart, chunks, hchunks, hdebug, hcount⟩
    exact ⟨hdebug, chunks, ⟨call, start, hcall, hchunks, hstart⟩, hcount⟩
  · rintro ⟨hdebug, chunks, ⟨call, start, hcall, hchunks, hstart⟩, hcount⟩
    exact ⟨call, hcall, start, hstart, chunks, hchunks, hdebug, hcount⟩

theorem panics_decodeV2 {blob : Bytes} :
    Panics (decodeV2 ext build calldata blob) ↔ build.debugAssertions = true ∧
      ∃ chunks, Commits ext calldata chunks ∧
        WrongCount 45 chunks (ext.decompressBlobData (blobSlice blob)) := by
  simp only [decodeV2, panics_requireCall_bind, panics_startIndex_bind, panics_requireChunks_bind,
    panics_chunks]
  constructor
  · rintro ⟨call, hcall, chunks, hchunks, start, hstart, hdebug, hcount⟩
    exact ⟨hdebug, chunks, ⟨call, start, hcall, hchunks, hstart⟩, hcount⟩
  · rintro ⟨hdebug, chunks, ⟨call, start, hcall, hchunks, hstart⟩, hcount⟩
    exact ⟨call, hcall, chunks, hchunks, start, hstart, hdebug, hcount⟩

theorem panics_decodeV4 {blob : Bytes} :
    Panics (decodeV4 ext build calldata blob) ↔ build.debugAssertions = true ∧
      ∃ chunks, Commits ext calldata chunks ∧ ∃ isCompressed rest,
        blobSlice blob = isCompressed :: rest ∧
        ((isCompressed ≠ 1 ∧ isCompressed ≠ 0) ∨
          WrongCount 45 chunks (if isCompressed = 1 then ext.decompressBlobData rest else rest)) := by
  simp only [decodeV4, panics_requireCall_bind, panics_startIndex_bind, panics_requireChunks_bind]
  cases hheap : blobSlice blob with
  | nil =>
    refine iff_of_false ?_ ?_
    · rintro ⟨_, -, _, -, _, -, message, hstop⟩
      cases hstop
    · rintro ⟨-, _, -, _, _, hcons, -⟩
      cases hcons
  | cons isCompressed rest =>
    simp only [panics_debugAssert_bind, panics_chunks]
    constructor
    · rintro ⟨call, hcall, chunks, hchunks, start, hstart, hstop⟩
      refine ⟨?_, chunks, ⟨call, start, hcall, hchunks, hstart⟩, isCompressed, rest, rfl, ?_⟩
      · rcases hstop with ⟨hdebug, -⟩ | ⟨-, hdebug, -⟩
        · exact hdebug
        · exact hdebug
      · rcases hstop with ⟨-, hflag⟩ | ⟨-, -, hcount⟩
        · exact .inl (not_or.1 (of_decide_eq_false hflag))
        · exact .inr hcount
    · rintro ⟨hdebug, chunks, ⟨call, start, hcall, hchunks, hstart⟩, _, _, hcons, hstop⟩
      cases hcons
      refine ⟨call, hcall, chunks, hchunks, start, hstart, ?_⟩
      by_cases hflag : isCompressed = 1 ∨ isCompressed = 0
      · refine .inr ⟨fun _ => decide_eq_true hflag, hdebug, ?_⟩
        exact hstop.resolve_left fun hbad => hflag.elim hbad.1 hbad.2
      · exact .inl ⟨hdebug, decide_eq_false hflag⟩

end

/-! ### Version 7 and later -/

def numberSums (initial : ℕ) : ℕ → List BlockContextV7 → Bytes → List ℕ
  | _, [], _ => []
  | index, context :: contexts, buf =>
    match times Transaction.tryFromBuf context.transactionsCount buf with
    | .error _ => []
    | .ok (_, rest) => (initial + index) :: numberSums initial (index + 1) contexts rest

theorem panics_addU64 {a b : ℕ} :
    Panics (addU64 build a b) ↔ build.debugAssertions = true ∧ 2 ^ 64 ≤ a + b := by
  by_cases hlt : a + b < 2 ^ 64
  · rw [addU64_of_lt build hlt]
    exact iff_of_false (not_panics_ok _) (fun h => Nat.not_le.2 hlt h.2)
  · rw [addU64, if_neg hlt]
    cases build.debugAssertions with
    | false => exact iff_of_false (not_panics_ok _) (fun h => Bool.noConfusion h.1)
    | true => exact iff_of_true ⟨_, rfl⟩ ⟨rfl, Nat.le_of_not_lt hlt⟩

theorem panics_readBlocksV7 {buf : Bytes} {contexts : List BlockContextV7} {initial index : ℕ} :
    Panics (readBlocksV7 build initial index contexts buf) ↔ build.debugAssertions = true ∧
      ∃ sum ∈ numberSums initial index contexts buf, 2 ^ 64 ≤ sum := by
  induction contexts generalizing index buf with
  | nil =>
    refine iff_of_false (not_panics_ok _) ?_
    rintro ⟨-, sum, hsum, -⟩
    cases hsum
  | cons context contexts ih =>
    have hsafe := not_panics_of_avoids
      (Transaction.avoids_tryFromBuf.times context.transactionsCount) buf
    rw [readBlocksV7, numberSums, panics_reader_bind, or_iff_right hsafe]
    cases hread : times Transaction.tryFromBuf context.transactionsCount buf with
    | error stop => simp
    | ok result =>
      obtain ⟨transactions, mid⟩ := result
      -- the sum of this block comes before those of the later ones
      have hlater : ∀ number, Panics ((do
          let blocks ← readBlocksV7 build initial (index + 1) contexts
          return ⟨transactions, context.withNumber number⟩ :: blocks : Decoder _) mid) ↔
          build.debugAssertions = true ∧
            ∃ sum ∈ numberSums initial (index + 1) contexts mid, 2 ^ 64 ≤ sum := by
        intro number
        rw [panics_reader_bind, ih, or_iff_left]
        rintro ⟨_, _, -, h⟩
        exact not_panics_ok _ h
      simp only [Except.ok.injEq, Prod.mk.injEq, List.mem_cons, exists_eq_or_imp]
      constructor
      · rintro ⟨_, _, ⟨rfl, rfl⟩, hstop⟩
        rcases panics_reader_bind.1 hstop with ⟨message, hadd⟩ | ⟨number, _, hadd, hrest⟩
        · obtain ⟨hdebug, hlarge⟩ := panics_addU64.1 ⟨message, lift_eq_error.1 hadd⟩
          exact ⟨hdebug, .inl hlarge⟩
        · obtain ⟨-, rfl⟩ := lift_eq_ok.1 hadd
          obtain ⟨hdebug, hsum⟩ := (hlater number).1 hrest
          exact ⟨hdebug, .inr hsum⟩
      · rintro ⟨hdebug, hsum⟩
        refine ⟨transactions, mid, ⟨rfl, rfl⟩, panics_reader_bind.2 ?_⟩
        by_cases hlarge : 2 ^ 64 ≤ initial + index
        · obtain ⟨message, hadd⟩ := panics_addU64.2 ⟨hdebug, hlarge⟩
          exact .inl ⟨message, lift_eq_error.2 hadd⟩
        · have hadd := addU64_of_lt build (Nat.lt_of_not_le hlarge)
          exact .inr ⟨_, mid, lift_eq_ok.2 ⟨hadd, rfl⟩,
            (hlater _).2 ⟨hdebug, hsum.resolve_left hlarge⟩⟩

def Readable (count : ℕ) (buf : Bytes) : Prop :=
  ∃ txs rest, times Transaction.tryFromBuf count buf = .ok (txs, rest)

theorem readable_add {buf : Bytes} {count more : ℕ} :
    Readable (count + more) buf ↔ ∃ txs mid,
      times Transaction.tryFromBuf count buf = .ok (txs, mid) ∧ Readable more mid := by
  unfold Readable
  rw [times_add]
  constructor
  · rintro ⟨_, rest, h⟩
    obtain ⟨txs, mid, hfirst, h⟩ := bind_eq_ok.1 h
    obtain ⟨later, rest, hlater, h⟩ := bind_eq_ok.1 h
    exact ⟨txs, mid, hfirst, later, rest, hlater⟩
  · rintro ⟨txs, mid, hfirst, later, rest, hlater⟩
    exact ⟨txs ++ later, rest, bind_eq_ok.2 ⟨txs, mid, hfirst, bind_eq_ok.2 ⟨later, rest, hlater, rfl⟩⟩⟩

def transactionsUpTo (contexts : List BlockContextV7) (index : ℕ) : ℕ :=
  ((contexts.take (index + 1)).map BlockContextV7.transactionsCount).sum

theorem mem_numberSums {buf : Bytes} {contexts : List BlockContextV7} {initial index sum : ℕ} :
    sum ∈ numberSums initial index contexts buf ↔ ∃ k < contexts.length,
      sum = initial + index + k ∧ Readable (transactionsUpTo contexts k) buf := by
  induction contexts generalizing index buf with
  | nil => simp [numberSums]
  | cons context contexts ih =>
    have hcons : ∀ k, transactionsUpTo (context :: contexts) k = context.transactionsCount +
        ((contexts.take k).map BlockContextV7.transactionsCount).sum := by
      intro k
      simp [transactionsUpTo]
    rw [numberSums]
    cases hread : times Transaction.tryFromBuf context.transactionsCount buf with
    | error stop =>
      refine iff_of_false List.not_mem_nil ?_
      rintro ⟨k, -, -, hreads⟩
      rw [hcons, readable_add] at hreads
      obtain ⟨txs, mid, hfirst, -⟩ := hreads
      cases hread.symm.trans hfirst
    | ok result =>
      obtain ⟨txs, mid⟩ := result
      have hrest : ∀ more, Readable (context.transactionsCount + more) buf ↔ Readable more mid := by
        intro more
        rw [readable_add, hread]
        simp
      simp only [hcons, hrest, List.mem_cons, ih]
      constructor
      · rintro (rfl | ⟨k, hk, rfl, hreads⟩)
        · exact ⟨0, Nat.succ_pos _, rfl, [], mid, rfl⟩
        · exact ⟨k + 1, Nat.succ_lt_succ hk, by omega, hreads⟩
      · rintro ⟨k, hk, rfl, hreads⟩
        cases k with
        | zero => exact .inl rfl
        | succ k => exact .inr ⟨k, Nat.lt_of_succ_lt_succ hk, by omega, hreads⟩

def payloadSums (payload : Bytes) : List ℕ :=
  match PayloadHead.read payload with
  | .error _ => []
  | .ok (head, rest) => numberSums head.initialBlockNumber 0 head.contexts rest

theorem panics_decodeV7Payload {payload : Bytes} :
    Panics (decodeV7Payload build payload) ↔ build.debugAssertions = true ∧
      ∃ sum ∈ payloadSums payload, 2 ^ 64 ≤ sum := by
  have hmap : Panics (decodeV7Payload build payload) ↔ Panics (payloadV7 build payload) := by
    unfold decodeV7Payload Panics
    cases payloadV7 build payload <;> simp [Except.map]
  rw [hmap, payloadV7_eq, panics_reader_bind,
    or_iff_right (not_panics_of_avoids PayloadHead.guarded_read.avoids payload), payloadSums]
  cases hread : PayloadHead.read payload with
  | error stop => simp
  | ok result =>
    obtain ⟨head, rest⟩ := result
    simp only [Except.ok.injEq, Prod.mk.injEq]
    rw [← panics_readBlocksV7]
    constructor
    · rintro ⟨_, _, ⟨rfl, rfl⟩, hstop⟩
      rcases panics_reader_bind.1 hstop with hblocks | ⟨_, _, -, hdone⟩
      · exact hblocks
      · exact absurd hdone (not_panics_ok _)
    · intro hstop
      exact ⟨head, rest, ⟨rfl, rfl⟩, panics_reader_bind.2 (.inl hstop)⟩

/-- A block whose transactions, and those of the blocks before it, are all there has a number of
more than 64 bits. -/
def NumbersOverflow (payload : Bytes) : Prop :=
  ∃ (head : PayloadHead) (txs : List Bytes) (rest : Bytes) (index : ℕ), head.Fits ∧
    payload = head.bytes ++ (txs.flatten ++ rest) ∧ (∀ tx ∈ txs, IsL2Transaction tx) ∧
    index < head.contexts.length ∧ txs.length = transactionsUpTo head.contexts index ∧
    2 ^ 64 ≤ head.initialBlockNumber + index

theorem payloadSums_overflow {payload : Bytes} :
    (∃ sum ∈ payloadSums payload, 2 ^ 64 ≤ sum) ↔ NumbersOverflow payload := by
  rw [payloadSums]
  constructor
  · rintro ⟨sum, hsum, hlarge⟩
    cases hread : PayloadHead.read payload with
    | error stop =>
      rw [hread] at hsum
      cases hsum
    | ok result =>
      obtain ⟨head, buf⟩ := result
      rw [hread] at hsum
      obtain ⟨k, hk, rfl, txs, rest, htxs⟩ := mem_numberSums.1 hsum
      obtain ⟨hfits, rfl⟩ := (PayloadHead.guarded_read.eq_ok _ _ _).1 hread
      obtain ⟨⟨hlength, hall⟩, rfl⟩ := (exact_transactions _ _ _ _).1 htxs
      exact ⟨head, txs, rest, k, hfits, rfl, hall, hk, hlength, hlarge⟩
  · rintro ⟨head, txs, rest, k, hfits, rfl, hall, hk, hlength, hlarge⟩
    rw [(PayloadHead.guarded_read.eq_ok _ _ _).2 ⟨hfits, rfl⟩]
    have htxs := (exact_transactions _ _ _ rest).2 ⟨⟨hlength, hall⟩, rfl⟩
    exact ⟨_, mem_numberSums.2 ⟨k, hk, rfl, txs, rest, htxs⟩, hlarge⟩

/-- The five bytes of the envelope are there, with a version or a flag that is not known. -/
def UnknownEnvelope (blob : Bytes) : Prop :=
  ∃ (version isCompressed : UInt8) (size tail : Bytes), size.length = 3 ∧
    blobSlice blob = version :: (size ++ isCompressed :: tail) ∧
    (version ∉ ([7, 8, 9, 10] : Bytes) ∨ isCompressed ∉ ([0, 1] : Bytes))

variable {blob : Bytes}

theorem panics_envelopeV7 :
    Panics (envelopeV7 ext build blob) ↔
      build.debugAssertions = true ∧ UnknownEnvelope blob := by
  by_cases hshort : (blobSlice blob).length < 5
  · rw [envelopeV7_of_short hshort]
    refine iff_of_false ?_ ?_
    · rintro ⟨message, h⟩
      cases h
    · rintro ⟨-, version, isCompressed, size, tail, hsize, hheap, -⟩
      simp only [hheap, List.length_cons, List.length_append, hsize] at hshort
      omega
  · obtain ⟨version, isCompressed, size, tail, hsize, hheap⟩ :=
      exists_envelope (Nat.le_of_not_lt hshort)
    have hversion : (version.toNat = 7 ∨ version.toNat = 8 ∨ version.toNat = 9 ∨
        version.toNat = 10) ↔ version ∈ ([7, 8, 9, 10] : Bytes) := by
      simp [← UInt8.toNat_inj]
    have hflag : (isCompressed.toNat = 1 ∨ isCompressed.toNat = 0) ↔
        isCompressed ∈ ([0, 1] : Bytes) := by
      simp [← UInt8.toNat_inj, or_comm]
    have hunknown : UnknownEnvelope blob ↔
        version ∉ ([7, 8, 9, 10] : Bytes) ∨ isCompressed ∉ ([0, 1] : Bytes) := by
      constructor
      · rintro ⟨version', isCompressed', size', tail', hsize', hheap', h⟩
        rw [hheap, List.cons.injEq] at hheap'
        obtain ⟨rfl, hrest⟩ := hheap'
        obtain ⟨-, hrest⟩ := List.append_inj hrest (hsize.trans hsize'.symm)
        cases hrest
        exact h
      · intro h
        exact ⟨version, isCompressed, size, tail, hsize, hheap, h⟩
    have hbody : ¬ Panics (do
        let body ← envelopePayload (blobSlice blob) (beValue size)
        return (version.toNat,
          if isCompressed.toNat = 1 then ext.decompressBlobData body else body)) := by
      rintro ⟨message, h⟩
      rw [envelopePayload] at h
      split at h
      · cases h
      · cases h
    rw [envelopeV7_of_heap hsize hheap, panics_debugAssert_bind, panics_debugAssert_bind, hunknown]
    simp only [decide_eq_false_iff_not, decide_eq_true_iff, hversion, hflag]
    constructor
    · rintro (⟨hdebug, hbad⟩ | ⟨-, ⟨hdebug, hbad⟩ | ⟨-, hstop⟩⟩)
      · exact ⟨hdebug, .inl hbad⟩
      · exact ⟨hdebug, .inr hbad⟩
      · exact absurd hstop hbody
    · rintro ⟨hdebug, hbad⟩
      by_cases hknown : version ∈ ([7, 8, 9, 10] : Bytes)
      · exact .inr ⟨fun _ => hknown, .inl ⟨hdebug, hbad.resolve_left (not_not.2 hknown)⟩⟩
      · exact .inl ⟨hdebug, hknown⟩

def sumsV7 (ext : Externals) (build : Build) (blob : Bytes) : List ℕ :=
  match envelopeV7 ext build blob with
  | .error _ => []
  | .ok (_, payload) => payloadSums payload

theorem sumsV7_overflow :
    (∃ sum ∈ sumsV7 ext build blob, 2 ^ 64 ≤ sum) ↔ ∃ e : Envelope,
      dataBytes blob = e.bytes ∧ e.Checked build ∧ NumbersOverflow (e.payload ext) := by
  rw [sumsV7]
  constructor
  · rintro ⟨sum, hsum, hlarge⟩
    cases hread : envelopeV7 ext build blob with
    | error stop =>
      rw [hread] at hsum
      cases hsum
    | ok result =>
      obtain ⟨version, payload⟩ := result
      rw [hread] at hsum
      obtain ⟨e, hbytes, hchecked, rfl, rfl⟩ := envelopeV7_eq_ok.1 hread
      exact ⟨e, hbytes, hchecked, payloadSums_overflow.1 ⟨sum, hsum, hlarge⟩⟩
  · rintro ⟨e, hbytes, hchecked, hoverflow⟩
    rw [envelopeV7_eq_ok.2 ⟨e, hbytes, hchecked, rfl, rfl⟩]
    exact payloadSums_overflow.2 hoverflow

theorem panics_decodeV7 :
    Panics (decodeV7 ext build blob) ↔ build.debugAssertions = true ∧
      (UnknownEnvelope blob ∨ ∃ sum ∈ sumsV7 ext build blob, 2 ^ 64 ≤ sum) := by
  have hpayload : ∀ version payload, Panics (do
      let data ← decodeV7Payload build payload
      return (⟨version, none, data⟩ : Batch)) ↔
      build.debugAssertions = true ∧ ∃ sum ∈ payloadSums payload, 2 ^ 64 ≤ sum := by
    intro version payload
    rw [panics_bind, panics_decodeV7Payload, or_iff_left]
    rintro ⟨_, -, h⟩
    exact not_panics_ok _ h
  rw [decodeV7_eq, panics_bind, panics_envelopeV7, sumsV7, and_or_left]
  refine or_congr_right ?_
  cases envelopeV7 ext build blob with
  | error stop => simp
  | ok result =>
    obtain ⟨version, payload⟩ := result
    rw [← hpayload version payload]
    constructor
    · rintro ⟨_, hread, hstop⟩
      cases hread
      exact hstop
    · intro hstop
      exact ⟨(version, payload), rfl, hstop⟩

/-! ### Every version -/

def decodeSums (ext : Externals) (build : Build) (calldata : Bytes) (blob : Option Bytes) :
    List ℕ :=
  match getCodecVersion calldata, blob with
  | .ok version, some bytes => if 7 ≤ version ∧ version ≤ 11 then sumsV7 ext build bytes else []
  | _, _ => []

/-- Decoding comes to a batch or an error: it does not panic, and no sum overflows. -/
def Returns (ext : Externals) (build : Build) (calldata : Bytes) (blob : Option Bytes) : Prop :=
  (∀ message, decode ext build calldata blob ≠ .error (.panic message)) ∧
    ∀ sum ∈ decodeSums ext build calldata blob, sum < 2 ^ 64

section
variable (ext : Externals) (build : Build) (calldata : Bytes) (blob : Option Bytes)

/-- What is wrong with calldata or blob when the decoder does not return. Only the first and the
last are there in every build. -/
inductive Fault : Prop
  | transactionLength {call : CommitBatchCall} {before after : List Bytes} {chunk : Bytes}
      (version : getCodecVersion calldata = .ok 0) (decoded : ext.tryDecode calldata = some call)
      (chunks : call.chunks = some (before ++ chunk :: after))
      (earlier : ∀ c ∈ before, ∃ blocks, chunkV0 c = .ok blocks) (short : CutShort chunk)
  | chunkCountV1 {bytes : Bytes} {chunks : List Bytes} (debug : build.debugAssertions = true)
      (version : getCodecVersion calldata = .ok 1) (blob : blob = some bytes)
      (commits : Commits ext calldata chunks) (count : WrongCount 15 chunks (blobSlice bytes))
  | chunkCountV2 {v : ℕ} {bytes : Bytes} {chunks : List Bytes}
      (debug : build.debugAssertions = true) (version : getCodecVersion calldata = .ok v)
      (range : 2 ≤ v ∧ v < 4) (blob : blob = some bytes) (commits : Commits ext calldata chunks)
      (count : WrongCount 45 chunks (ext.decompressBlobData (blobSlice bytes)))
  | flagOrChunkCountV4 {v : ℕ} {bytes rest : Bytes} {isCompressed : UInt8} {chunks : List Bytes}
      (debug : build.debugAssertions = true) (version : getCodecVersion calldata = .ok v)
      (range : 4 ≤ v ∧ v < 7) (blob : blob = some bytes) (commits : Commits ext calldata chunks)
      (heap : blobSlice bytes = isCompressed :: rest)
      (wrong : (isCompressed ≠ 1 ∧ isCompressed ≠ 0) ∨
        WrongCount 45 chunks (if isCompressed = 1 then ext.decompressBlobData rest else rest))
  | envelope {v : ℕ} {bytes : Bytes} (debug : build.debugAssertions = true)
      (version : getCodecVersion calldata = .ok v) (range : 7 ≤ v ∧ v ≤ 11)
      (blob : blob = some bytes) (unknown : UnknownEnvelope bytes)
  | blockNumber {v : ℕ} {bytes : Bytes} {e : Envelope}
      (version : getCodecVersion calldata = .ok v) (range : 7 ≤ v ∧ v ≤ 11)
      (blob : blob = some bytes) (envelope : dataBytes bytes = e.bytes) (checked : e.Checked build)
      (overflow : NumbersOverflow (e.payload ext))

variable {ext build calldata blob}

theorem not_panics_getCodecVersion (calldata : Bytes) : ¬ Panics (getCodecVersion calldata) := by
  rintro ⟨message, h⟩
  rw [getCodecVersion] at h
  split at h
  · cases h
  · simp only at h
    split at h
    · cases h
    · cases h

theorem panics_decode_fault (h : Panics (decode ext build calldata blob)) :
    Fault ext build calldata blob := by
  rw [decode, panics_bind_right (not_panics_getCodecVersion calldata)] at h
  obtain ⟨v, hversion, h⟩ := h
  split at h
  · rename_i hzero
    obtain ⟨call, before, chunk, after, hcall, hchunks, hbefore, hshort⟩ := panics_decodeV0.1 h
    exact .transactionLength (hzero ▸ hversion) hcall hchunks hbefore hshort
  split at h
  · rename_i hone
    obtain ⟨bytes, hblob, h⟩ := panics_requireBlob_bind.1 h
    obtain ⟨hdebug, chunks, hcommits, hcount⟩ := panics_decodeV1.1 h
    exact .chunkCountV1 hdebug (hone ▸ hversion) hblob hcommits hcount
  split at h
  · obtain ⟨bytes, hblob, h⟩ := panics_requireBlob_bind.1 h
    obtain ⟨hdebug, chunks, hcommits, hcount⟩ := panics_decodeV2.1 h
    exact .chunkCountV2 hdebug hversion (by omega) hblob hcommits hcount
  split at h
  · obtain ⟨bytes, hblob, h⟩ := panics_requireBlob_bind.1 h
    obtain ⟨hdebug, chunks, hcommits, flag, rest, hheap, hwrong⟩ := panics_decodeV4.1 h
    exact .flagOrChunkCountV4 hdebug hversion (by omega) hblob hcommits hheap hwrong
  split at h
  · obtain ⟨bytes, hblob, h⟩ := panics_requireBlob_bind.1 h
    obtain ⟨hdebug, hunknown | hoverflow⟩ := panics_decodeV7.1 h
    · exact .envelope hdebug hversion (by omega) hblob hunknown
    · obtain ⟨e, hbytes, hchecked, hoverflow⟩ := sumsV7_overflow.1 hoverflow
      exact .blockNumber hversion (by omega) hblob hbytes hchecked hoverflow
  · obtain ⟨message, h⟩ := h
    cases h

theorem decode_of_version {v : ℕ} {bytes : Bytes} (hversion : getCodecVersion calldata = .ok v) :
    decode ext build calldata (some bytes) =
      if v = 0 then decodeV0 ext calldata
      else if v = 1 then decodeV1 ext build calldata bytes
      else if v < 4 then decodeV2 ext build calldata bytes
      else if v < 7 then decodeV4 ext build calldata bytes
      else if v ≤ 11 then decodeV7 ext build bytes
      else .error (.error (.unsupportedCodecVersion v)) := by
  rw [decode, hversion]
  rfl

theorem decodeSums_overflow :
    (∃ sum ∈ decodeSums ext build calldata blob, 2 ^ 64 ≤ sum) ↔ ∃ v bytes,
      getCodecVersion calldata = .ok v ∧ (7 ≤ v ∧ v ≤ 11) ∧ blob = some bytes ∧
        ∃ e : Envelope, dataBytes bytes = e.bytes ∧ e.Checked build ∧
          NumbersOverflow (e.payload ext) := by
  simp only [← sumsV7_overflow]
  constructor
  · rintro ⟨sum, hsum, hlarge⟩
    unfold decodeSums at hsum
    split at hsum
    · rename_i v bytes hversion
      split at hsum
      · rename_i hrange
        exact ⟨v, bytes, hversion, hrange, rfl, sum, hsum, hlarge⟩
      · cases hsum
    · cases hsum
  · rintro ⟨v, bytes, hversion, hrange, rfl, sum, hsum, hlarge⟩
    refine ⟨sum, ?_, hlarge⟩
    simp only [decodeSums, hversion, if_pos hrange]
    exact hsum

theorem fault_iff : Fault ext build calldata blob ↔
    Panics (decode ext build calldata blob) ∨
      ∃ sum ∈ decodeSums ext build calldata blob, 2 ^ 64 ≤ sum := by
  constructor
  · intro hfault
    cases hfault with
    | transactionLength hversion hcall hchunks hbefore hshort =>
      have hdecode : decode ext build calldata blob = decodeV0 ext calldata := by
        rw [decode, hversion]
        rfl
      rw [hdecode]
      exact .inl (panics_decodeV0.2 ⟨_, _, _, _, hcall, hchunks, hbefore, hshort⟩)
    | chunkCountV1 hdebug hversion hblob hcommits hcount =>
      rw [hblob, decode_of_version hversion]
      exact .inl (panics_decodeV1.2 ⟨hdebug, _, hcommits, hcount⟩)
    | chunkCountV2 hdebug hversion hrange hblob hcommits hcount =>
      rw [hblob, decode_of_version hversion, if_neg (by omega), if_neg (by omega),
        if_pos (by omega)]
      exact .inl (panics_decodeV2.2 ⟨hdebug, _, hcommits, hcount⟩)
    | flagOrChunkCountV4 hdebug hversion hrange hblob hcommits hheap hwrong =>
      rw [hblob, decode_of_version hversion, if_neg (by omega), if_neg (by omega),
        if_neg (by omega), if_pos (by omega)]
      exact .inl (panics_decodeV4.2 ⟨hdebug, _, hcommits, _, _, hheap, hwrong⟩)
    | envelope hdebug hversion hrange hblob hunknown =>
      rw [hblob, decode_of_version hversion, if_neg (by omega), if_neg (by omega),
        if_neg (by omega), if_neg (by omega), if_pos (by omega)]
      exact .inl (panics_decodeV7.2 ⟨hdebug, .inl hunknown⟩)
    | blockNumber hversion hrange hblob hbytes hchecked hoverflow =>
      exact .inr (decodeSums_overflow.2
        ⟨_, _, hversion, hrange, hblob, _, hbytes, hchecked, hoverflow⟩)
  · rintro (hpanics | hoverflow)
    · exact panics_decode_fault hpanics
    · obtain ⟨v, bytes, hversion, hrange, hblob, e, hbytes, hchecked, hoverflow⟩ :=
        decodeSums_overflow.1 hoverflow
      exact .blockNumber hversion hrange hblob hbytes hchecked hoverflow

end

/-- The decoder returns for exactly the inputs without such a fault. -/
theorem decode_returns_iff (ext : Externals) (build : Build) (calldata : Bytes)
    (blob : Option Bytes) :
    Returns ext build calldata blob ↔ ¬ Fault ext build calldata blob := by
  rw [fault_iff, not_or, Returns]
  simp only [Panics, not_exists, not_and, Nat.not_le, ne_eq]

def cutChunk : Bytes := 1 :: (⟨1, 0, 0, 0, 1, 0⟩ : BlockContext).toBeBytes

def cutCalldata : Bytes := CommitBatch.calldata ⟨0, [], [cutChunk], []⟩

def cutExternals : Externals := .ofCall ⟨0, [], [cutChunk], []⟩

/-- Without debug assertions too the decoder advances past the end of such a chunk. -/
theorem decode_cutCalldata :
    decode cutExternals ⟨false⟩ cutCalldata none = .error (.panic "cannot advance past remaining") ∧
      ¬ Returns cutExternals ⟨false⟩ cutCalldata none := by
  have hdecode : decode cutExternals ⟨false⟩ cutCalldata none =
      .error (.panic "cannot advance past remaining") := by
    decide +kernel
  exact ⟨hdecode, fun hreturns => hreturns.1 _ hdecode⟩

end RollupNode.Codec
