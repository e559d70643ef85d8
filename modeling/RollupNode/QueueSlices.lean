import RollupNode.DecodedBlocks

set_option autoImplicit false

/-! One cursor runs over messages and bitmap, and every block of a batch takes the next slice. -/
namespace RollupNode
open ExceptTraversal

def StandsAt (queue : ℕ → L1MessageEnvelope) : L1MessageKey → ℕ → Prop
  | .queueIndex index, first => first = index
  | .queueHash hash, first => (queue first).queueHash = some hash
  | _, _ => False

/-- The provider answers a request with as many messages in a row as it asks for. -/
def L1Provider.Serves (provider : L1Provider) (queue : ℕ → L1MessageEnvelope)
    (request : L1MessageKey × ℕ) : Prop :=
  ∃ first, StandsAt queue request.1 first ∧
    provider.getNMessages request.1 request.2 = .ok ((List.range' first request.2).map queue)

def queueRequest (l1V2MessageQueueStartIndex : ℕ) (data : Codec.PayloadData) : L1MessageKey × ℕ :=
  match data.l1MessageQueueInfo with
  | .initialQueueIndex index => (.queueIndex index, totalL1Messages data)
  | .hashed prev _ =>
    if prev = 0 then (.queueIndex l1V2MessageQueueStartIndex, totalL1Messages data)
    else (.queueHash prev, totalL1Messages data + 1)

def FirstUsed (l1V2MessageQueueStartIndex : ℕ) (queue : ℕ → L1MessageEnvelope)
    (data : Codec.PayloadData) (first : ℕ) : Prop :=
  match data.l1MessageQueueInfo with
  | .initialQueueIndex index => first = index
  | .hashed prev _ =>
    if prev = 0 then first = l1V2MessageQueueStartIndex
    else ∃ previous, (queue previous).queueHash = some prev ∧ first = previous + 1

variable {inputs : DerivationInputs} {queue : ℕ → L1MessageEnvelope}

theorem iterL1MessagesFromPayload_served {data : Codec.PayloadData}
    (h : inputs.provider.Serves queue (queueRequest inputs.l1V2MessageQueueStartIndex data)) :
    ∃ first, FirstUsed inputs.l1V2MessageQueueStartIndex queue data first ∧
      iterL1MessagesFromPayload inputs data =
        .ok ((List.range' first (totalL1Messages data)).map queue) := by
  obtain ⟨first, hfirst, hserved⟩ := h
  unfold queueRequest at hfirst hserved
  unfold FirstUsed
  cases hinfo : data.l1MessageQueueInfo with
  | initialQueueIndex index =>
    simp only [hinfo] at hfirst hserved
    obtain rfl : first = index := hfirst
    have hstart : data.queueIndexStart = some first := by rw [Codec.PayloadData.queueIndexStart, hinfo]
    refine ⟨first, rfl, ?_⟩
    simp only [iterL1MessagesFromPayload, hstart, hserved, Except.mapError, bind, Except.bind]
    simp [pure, Except.pure]
  | hashed prev post =>
    simp only [hinfo] at hfirst hserved
    have hstart : data.queueIndexStart = none := by rw [Codec.PayloadData.queueIndexStart, hinfo]
    have hhash : data.prevL1MessageQueueHash = some prev := by
      rw [Codec.PayloadData.prevL1MessageQueueHash, hinfo]
    by_cases hprev : prev = 0
    · simp only [if_pos hprev] at hfirst hserved
      obtain rfl : first = inputs.l1V2MessageQueueStartIndex := hfirst
      refine ⟨inputs.l1V2MessageQueueStartIndex, ?_, ?_⟩
      · simp only [if_pos hprev]
      · simp only [iterL1MessagesFromPayload, hstart, hhash, if_pos hprev, hserved, Except.mapError,
          bind, Except.bind]
        simp [pure, Except.pure]
    · simp only [if_neg hprev] at hfirst hserved
      rw [List.range'_succ, List.map_cons] at hserved
      refine ⟨first + 1, ?_, ?_⟩
      · simp only [if_neg hprev]
        exact ⟨first, hfirst, rfl⟩
      · simp only [iterL1MessagesFromPayload, hstart, hhash, if_neg hprev, hserved, bind, Except.bind]
        simp [pure, Except.pure]

def bitAt (bitmap : List Bool) (j : ℕ) : Bool := bitmap[j]?.getD false

section
variable (inputs : DerivationInputs) (queue : ℕ → L1MessageEnvelope) (bitmap : List Bool)
  (first total : ℕ)

def cursorAt (j : ℕ) : MessageCursor where
  bitmap := bitmap.drop j
  messages := (List.range' (first + j) (total - j)).map queue
  skipped := ((List.range j).filter (bitAt bitmap)).map
    (fun i => (queue (first + i)).transaction.queueIndex)

def keptMessages (places : List ℕ) : List Bytes :=
  (places.filter (fun i => !bitAt bitmap i)).map
    (fun i => inputs.encode (queue (first + i)).transaction)

theorem cursorAt_bit (j : ℕ) :
    (cursorAt queue bitmap first total j).bitmap.head? = some true ↔ bitAt bitmap j = true := by
  rw [cursorAt, List.head?_drop, bitAt]
  cases bitmap[j]? with
  | none => simp
  | some bit => simp

theorem cursorAt_messages {j : ℕ} (h : j < total) :
    (cursorAt queue bitmap first total j).messages =
      queue (first + j) :: (cursorAt queue bitmap first total (j + 1)).messages := by
  have hleft : total - j = total - (j + 1) + 1 := by omega
  simp only [cursorAt, hleft, List.range'_succ, List.map_cons, Nat.add_assoc]

theorem cursorAt_skip {j : ℕ} (h : j < total) (hbit : bitAt bitmap j = true) :
    (cursorAt queue bitmap first total j).skip = cursorAt queue bitmap first total (j + 1) := by
  simp only [MessageCursor.skip, cursorAt_messages queue bitmap first total h]
  simp [cursorAt, List.range_succ, hbit]

theorem cursorAt_use {j : ℕ} (hbit : bitAt bitmap j = false) :
    (⟨(cursorAt queue bitmap first total j).bitmap.tail,
      (cursorAt queue bitmap first total (j + 1)).messages,
      (cursorAt queue bitmap first total j).skipped⟩ : MessageCursor) =
        cursorAt queue bitmap first total (j + 1) := by
  simp [cursorAt, List.range_succ, hbit]

theorem blockMessages_cursorAt {j : ℕ} (block : Codec.L2Block) {n : ℕ} (h : j + n ≤ total) :
    blockMessages inputs block n (cursorAt queue bitmap first total j) =
      .ok (keptMessages inputs queue bitmap first (List.range' j n),
        cursorAt queue bitmap first total (j + n)) := by
  induction n generalizing j with
  | zero => rfl
  | succ n ih =>
    have hnext := ih (j := j + 1) (by omega)
    rw [Nat.add_right_comm, Nat.add_assoc j n 1] at hnext
    rw [blockMessages]
    by_cases hbit : bitAt bitmap j = true
    · rw [if_pos ((cursorAt_bit queue bitmap first total j).2 hbit),
        cursorAt_skip _ _ _ _ (by omega) hbit, hnext]
      simp [keptMessages, List.range'_succ, hbit]
    · rw [if_neg (fun hhead => hbit ((cursorAt_bit queue bitmap first total j).1 hhead)),
        cursorAt_messages queue bitmap first total (by omega)]
      simp only [cursorAt_use queue bitmap first total (Bool.of_not_eq_true hbit), hnext]
      simp [keptMessages, List.range'_succ, hbit, bind, Except.bind, pure, Except.pure]

/-- The places of the batch that its blocks take, one block after another from the place `j` on. -/
def slicesFrom (j : ℕ) : List Codec.L2Block → List (List ℕ)
  | [] => []
  | block :: blocks => List.range' j block.context.numL1Messages ::
      slicesFrom (j + block.context.numL1Messages) blocks

theorem flatten_slicesFrom (j : ℕ) (blocks : List Codec.L2Block) :
    (slicesFrom j blocks).flatten = List.range' j (Codec.l1MessagesCount blocks) := by
  induction blocks generalizing j with
  | nil => rfl
  | cons block blocks ih =>
    rw [slicesFrom, List.flatten_cons, ih, Codec.l1MessagesCount_cons, List.range'_append_1]

theorem lengths_slicesFrom (j : ℕ) (blocks : List Codec.L2Block) :
    (slicesFrom j blocks).map List.length = blocks.map (·.context.numL1Messages) := by
  induction blocks generalizing j with
  | nil => rfl
  | cons block blocks ih => rw [slicesFrom, List.map_cons, List.map_cons, ih, List.length_range']

/-- The attributes of a block that takes the messages at the places of its slice. -/
def DerivedFrom (attributes : DerivedAttributes) (entry : Codec.L2Block × List ℕ) : Prop :=
  attributes.blockNumber = entry.1.context.number ∧
    attributes.attributes.transactions = some
      (keptMessages inputs queue bitmap first entry.2 ++ entry.1.transactions)

theorem deriveBlock_cursorAt {j : ℕ} {block : Codec.L2Block} (hcomplete : block.Complete)
    (h : j + block.context.numL1Messages ≤ total) :
    (∃ attributes, deriveBlock inputs block (cursorAt queue bitmap first total j) =
        .ok (attributes, cursorAt queue bitmap first total (j + block.context.numL1Messages)) ∧
      DerivedFrom inputs queue bitmap first attributes
        (block, List.range' j block.context.numL1Messages)) ∨
    ∃ message, inputs.cache block.context.number = .error message ∧
      deriveBlock inputs block (cursorAt queue bitmap first total j) = .error (.cache message) := by
  unfold deriveBlock
  rw [Codec.ensure_of_complete hcomplete,
    blockMessages_cursorAt inputs queue bitmap first total block h]
  cases hhint : inputs.cache block.context.number with
  | error message => exact Or.inr ⟨message, rfl, rfl⟩
  | ok hint => exact Or.inl ⟨_, rfl, rfl, rfl⟩

theorem deriveBlocks_cursorAt {j : ℕ} {blocks : List Codec.L2Block}
    (hcomplete : ∀ block ∈ blocks, block.Complete) (h : j + Codec.l1MessagesCount blocks ≤ total) :
    (∃ attributes, deriveBlocks inputs blocks (cursorAt queue bitmap first total j) =
        .ok (attributes, cursorAt queue bitmap first total (j + Codec.l1MessagesCount blocks)) ∧
      List.Forall₂ (DerivedFrom inputs queue bitmap first) attributes
        (blocks.zip (slicesFrom j blocks))) ∨
    ∃ block ∈ blocks, ∃ message, inputs.cache block.context.number = .error message ∧
      deriveBlocks inputs blocks (cursorAt queue bitmap first total j) =
        .error (.cache message) := by
  induction blocks generalizing j with
  | nil => exact Or.inl ⟨[], rfl, List.Forall₂.nil⟩
  | cons block blocks ih =>
    obtain ⟨hblock, hcomplete⟩ := List.forall_mem_cons.1 hcomplete
    rw [Codec.l1MessagesCount_cons] at h
    rw [deriveBlocks, Codec.l1MessagesCount_cons, ← Nat.add_assoc]
    rcases deriveBlock_cursorAt inputs queue bitmap first total hblock (j := j) (by omega) with
      ⟨attributes, hfirst, hderived⟩ | ⟨message, hhint, hfirst⟩
    · rw [hfirst]
      rcases ih hcomplete (j := j + block.context.numL1Messages) (by omega) with
        ⟨later, hlater, hall⟩ | ⟨failed, hmem, message, hhint, hlater⟩
      · refine Or.inl ⟨attributes :: later, ?_, List.Forall₂.cons hderived hall⟩
        simp only [bind, Except.bind, hlater]
        rfl
      · refine Or.inr ⟨failed, List.mem_cons_of_mem _ hmem, message, hhint, ?_⟩
        simp only [bind, Except.bind, hlater]
    · refine Or.inr ⟨block, List.mem_cons_self, message, hhint, ?_⟩
      rw [hfirst]
      rfl

end

structure Assembles (inputs : DerivationInputs) (queue : ℕ → L1MessageEnvelope) (first : ℕ)
    (data : Codec.PayloadData) (result : BatchDerivationResult) : Prop where
  blocks : List.Forall₂
    (DerivedFrom inputs queue (data.skippedL1MessageBitmap.getD []) first) result.attributes
    (data.blocks.zip (slicesFrom 0 data.blocks))
  skipped : result.skippedL1Messages =
    ((List.range (totalL1Messages data)).filter
      (bitAt (data.skippedL1MessageBitmap.getD []))).map (fun j => first + j)

/-- The derivation assembles the batch, or a hint cannot be read. -/
theorem derive_outcome {batch : BatchCommitData} {blob : Option Bytes} {decoded : Codec.Batch}
    (targetStatus : BatchStatus) (hindex : ∀ i, (queue i).transaction.queueIndex = i)
    (hblob : batchBlob inputs batch = .ok blob)
    (hdecoded : Codec.decode inputs.externals inputs.build batch.calldata blob = .ok decoded)
    (hserved : inputs.provider.Serves queue
      (queueRequest inputs.l1V2MessageQueueStartIndex decoded.data)) :
    ∃ first, FirstUsed inputs.l1V2MessageQueueStartIndex queue decoded.data first ∧
      ((∃ result, derive inputs batch targetStatus = .ok result ∧
          Assembles inputs queue first decoded.data result) ∨
        ∃ block ∈ decoded.data.blocks, ∃ message,
          inputs.cache block.context.number = .error message ∧
          derive inputs batch targetStatus = .error (.cache message)) := by
  obtain ⟨version, -, -, -, hcomplete⟩ := Codec.decode_spec hdecoded
  obtain ⟨first, hfirst, hmessages⟩ := iterL1MessagesFromPayload_served hserved
  have hstart : (⟨decoded.data.skippedL1MessageBitmap.getD [],
      (List.range' first (totalL1Messages decoded.data)).map queue, []⟩ : MessageCursor) =
        cursorAt queue (decoded.data.skippedL1MessageBitmap.getD []) first
          (totalL1Messages decoded.data) 0 := by
    simp [cursorAt]
  have hderive : derive inputs batch targetStatus =
      (deriveBlocks inputs decoded.data.blocks (cursorAt queue
        (decoded.data.skippedL1MessageBitmap.getD []) first (totalL1Messages decoded.data) 0)).map
          (fun derived => ⟨derived.1, batch.batchInfo, derived.2.skipped, targetStatus⟩) := by
    simp only [derive, deriveAttributes, hblob, hdecoded, hmessages, hstart, Except.mapError, bind,
      Except.bind, pure, Except.pure]
    cases deriveBlocks inputs decoded.data.blocks _ <;> rfl
  refine ⟨first, hfirst, ?_⟩
  rcases deriveBlocks_cursorAt inputs queue (decoded.data.skippedL1MessageBitmap.getD []) first
    (totalL1Messages decoded.data) hcomplete (j := 0) (Nat.zero_add _).le with
    ⟨attributes, hblocks, hall⟩ | ⟨block, hblock, message, hhint, hblocks⟩
  · rw [hblocks] at hderive
    refine Or.inl ⟨_, hderive, hall, ?_⟩
    simp only [cursorAt, hindex, Nat.zero_add]
    rfl
  · rw [hblocks] at hderive
    exact Or.inr ⟨block, hblock, message, hhint, hderive⟩

theorem derive_skipped {batch : BatchCommitData} {blob : Option Bytes} {decoded : Codec.Batch}
    {targetStatus : BatchStatus} {result : BatchDerivationResult}
    (hindex : ∀ i, (queue i).transaction.queueIndex = i) (hblob : batchBlob inputs batch = .ok blob)
    (hdecoded : Codec.decode inputs.externals inputs.build batch.calldata blob = .ok decoded)
    (hserved : inputs.provider.Serves queue
      (queueRequest inputs.l1V2MessageQueueStartIndex decoded.data))
    (hderive : derive inputs batch targetStatus = .ok result) :
    ∃ first, FirstUsed inputs.l1V2MessageQueueStartIndex queue decoded.data first ∧
      result.skippedL1Messages = ((List.range (totalL1Messages decoded.data)).filter
        (bitAt (decoded.data.skippedL1MessageBitmap.getD []))).map (fun j => first + j) := by
  obtain ⟨first, hfirst, ⟨assembled, hok, hassembles⟩ | ⟨block, -, message, -, herror⟩⟩ :=
    derive_outcome targetStatus hindex hblob hdecoded hserved
  · rw [hderive] at hok
    cases hok
    exact ⟨first, hfirst, hassembles.skipped⟩
  · rw [hderive] at herror
    cases herror

/-- The messages are those from the first unused one on, in consecutive slices; only a hint
that cannot be read keeps the batch from being derived. -/
theorem derive_assembles (inputs : DerivationInputs) (batch : BatchCommitData)
    (targetStatus : BatchStatus) (queue : ℕ → L1MessageEnvelope) (blob : Option Bytes)
    (decoded : Codec.Batch) (hindex : ∀ i, (queue i).transaction.queueIndex = i)
    (hblob : batchBlob inputs batch = .ok blob)
    (hdecoded : Codec.decode inputs.externals inputs.build batch.calldata blob = .ok decoded)
    (hserved : inputs.provider.Serves queue
      (queueRequest inputs.l1V2MessageQueueStartIndex decoded.data)) :
    (slicesFrom 0 decoded.data.blocks).flatten = List.range (totalL1Messages decoded.data) ∧
    (slicesFrom 0 decoded.data.blocks).map List.length =
      decoded.data.blocks.map (·.context.numL1Messages) ∧
    (∀ block, derive inputs batch targetStatus ≠ .error (.missingL1Message block)) ∧
    ∃ first, FirstUsed inputs.l1V2MessageQueueStartIndex queue decoded.data first ∧
      ((∃ result, derive inputs batch targetStatus = .ok result ∧
          Assembles inputs queue first decoded.data result) ∨
        ∃ block ∈ decoded.data.blocks, ∃ message,
          inputs.cache block.context.number = .error message ∧
          derive inputs batch targetStatus = .error (.cache message)) := by
  have houtcome := derive_outcome targetStatus hindex hblob hdecoded hserved
  refine ⟨?_, lengths_slicesFrom 0 _, ?_, houtcome⟩
  · rw [flatten_slicesFrom, List.range_eq_range']
    rfl
  · intro missing hmissing
    obtain ⟨first, -, ⟨result, hok, -⟩ | ⟨block, -, message, -, herror⟩⟩ := houtcome
    · rw [hok] at hmissing
      cases hmissing
    · rw [herror] at hmissing
      cases hmissing

def plainQueue (index : ℕ) : L1MessageEnvelope := ⟨⟨index, 0, 0⟩, 0, none, none⟩

def plainProvider : L1Provider where
  blob := fun _ _ => .ok none
  getNMessages
    | .queueIndex index, count => .ok ((List.range' index count).map plainQueue)
    | _, _ => .error "not served"

theorem plainProvider_serves (index count : ℕ) :
    plainProvider.Serves plainQueue (.queueIndex index, count) := ⟨index, rfl, rfl⟩

def messagesCall (count : ℕ) (bitmap : Bytes) : Codec.CommitBatchCall :=
  .commitBatch ⟨0, List.replicate 89 0,
    [1 :: (ByteReader.beBytes 8 5 ++ List.replicate 48 0 ++ ByteReader.beBytes 2 count ++
      ByteReader.beBytes 2 count)], bitmap⟩

def messagesInputs (count : ℕ) (bitmap : Bytes) : DerivationInputs where
  externals := { tryDecode := fun _ => some (messagesCall count bitmap), decompressBlobData := id }
  build := ⟨false⟩
  provider := plainProvider
  cache := fun _ => .ok none
  encode := fun message => ByteReader.beBytes 2 message.queueIndex
  l1V2MessageQueueStartIndex := 0

def messagesCommit : BatchCommitData := ⟨11, 1, 10, 0, List.replicate 36 0, none, none, none⟩

def messagesBlock (count : ℕ) : Codec.L2Block := ⟨[], ⟨5, 0, 0, 0, count, count⟩⟩

theorem decode_messages : Codec.decode (messagesInputs 2 (List.replicate 31 0 ++ [1])).externals
    ⟨false⟩ messagesCommit.calldata none =
      .ok ⟨0, some [1], ⟨[messagesBlock 2], .initialQueueIndex 0,
        some (true :: List.replicate 255 false)⟩⟩ := by
  decide +kernel

def skippingCall : Codec.CommitBatch :=
  ⟨0, List.replicate 89 0, [2 :: [(5, 2), (6, 1)].flatMap (fun block =>
    ByteReader.beBytes 8 block.1 ++ List.replicate 48 0 ++ ByteReader.beBytes 2 block.2 ++
      ByteReader.beBytes 2 block.2)], List.replicate 31 0 ++ [1]⟩

def skippingInputs : DerivationInputs := { messagesInputs 0 [] with externals := .ofCall skippingCall }

def skippingCommit : BatchCommitData := { messagesCommit with calldata := skippingCall.calldata }

def skippingData : Codec.PayloadData :=
  ⟨[messagesBlock 2, ⟨[], ⟨6, 0, 0, 0, 1, 1⟩⟩], .initialQueueIndex 0,
    some (true :: List.replicate 255 false)⟩

theorem decode_skipping :
    Codec.decode skippingInputs.externals ⟨false⟩ skippingCommit.calldata none =
      .ok ⟨0, some [2], skippingData⟩ := by
  decide +kernel

/-- The first block gets the second message and the second block the third. -/
theorem derive_assembles_skipped :
    ∃ result, derive skippingInputs skippingCommit .consolidated = .ok result ∧
      result.skippedL1Messages = [0] ∧
      result.attributes.map (·.attributes.transactions) = [some [[0, 1]], some [[0, 2]]] ∧
      ∃ first, Assembles skippingInputs plainQueue first skippingData result := by
  obtain ⟨-, -, -, first, -, ⟨result, hderive, hassembles⟩ | ⟨block, -, message, hhint, -⟩⟩ :=
    derive_assembles skippingInputs skippingCommit .consolidated plainQueue none
      ⟨0, some [2], skippingData⟩ (fun _ => rfl) rfl decode_skipping (plainProvider_serves 0 3)
  · have hresult : derive skippingInputs skippingCommit .consolidated =
        .ok ⟨[⟨5, 0, ⟨0, 0, some [[0, 1]], some 0, ⟨none, none, none, none, none⟩⟩⟩,
          ⟨6, 0, ⟨0, 0, some [[0, 2]], some 0, ⟨none, none, none, none, none⟩⟩⟩], ⟨1, 11⟩, [0],
          .consolidated⟩ := by
      decide +kernel
    rw [hderive] at hresult
    cases hresult
    exact ⟨_, hderive, rfl, rfl, first, hassembles⟩
  · cases hhint

end RollupNode
