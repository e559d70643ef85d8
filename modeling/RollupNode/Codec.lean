import RollupNode.Primitives
import RollupNode.Rlp

set_option autoImplicit false

/-! The codec. ABI decoding and decompression are functions of other crates. An error and a panic
are kept apart; with debug assertions the build also checks arithmetic. -/
namespace RollupNode.Codec
open ByteReader

structure BlockContext where
  number : ℕ
  timestamp : ℕ
  baseFee : ℕ
  gasLimit : ℕ
  numTransactions : ℕ
  numL1Messages : ℕ
  deriving DecidableEq, Repr

structure L2Block where
  transactions : List Bytes
  context : BlockContext
  deriving DecidableEq, Repr

def l1MessagesCount (blocks : List L2Block) : ℕ := (blocks.map (·.context.numL1Messages)).sum

theorem l1MessagesCount_cons (block : L2Block) (blocks : List L2Block) :
    l1MessagesCount (block :: blocks) = block.context.numL1Messages + l1MessagesCount blocks :=
  List.sum_cons

inductive L1MessageQueueInfo where
  | initialQueueIndex (index : ℕ)
  | hashed (prevL1MessageQueueHash postL1MessageQueueHash : B256)
  deriving DecidableEq, Repr

structure PayloadData where
  blocks : List L2Block
  l1MessageQueueInfo : L1MessageQueueInfo
  skippedL1MessageBitmap : Option (List Bool)
  deriving DecidableEq, Repr

namespace PayloadData

def queueIndexStart (data : PayloadData) : Option ℕ :=
  match data.l1MessageQueueInfo with
  | .initialQueueIndex index => some index
  | .hashed _ _ => none

def prevL1MessageQueueHash (data : PayloadData) : Option B256 :=
  match data.l1MessageQueueInfo with
  | .initialQueueIndex _ => none
  | .hashed prev _ => some prev

end PayloadData

/-- `chunksBlockCount` is there for versions 0 to 6 only. -/
structure Batch where
  version : ℕ
  chunksBlockCount : Option (List ℕ)
  data : PayloadData
  deriving DecidableEq, Repr

inductive DecodingError where
  | unsupportedCodecVersion (version : ℕ)
  | malformedCodecVersion (version : ℕ)
  | missingBlob
  | missingChunkData
  | missingParentHeader
  | invalidCalldataFormat
  | unsupportedTransactionType (type : UInt8)
  | invalidTypedTransactionEncoding
  | invalidSkippedL1MessageBitmapLength (length : ℕ)
  | eof
  deriving DecidableEq, Repr

inductive Stop where
  | error (e : DecodingError)
  | panic (message : String)
  deriving DecidableEq, Repr

abbrev Decoder := Reader Stop

structure Build where
  debugAssertions : Bool
  deriving DecidableEq, Repr

def debugAssert (build : Build) (condition : Bool) (message : String) : Except Stop Unit :=
  if build.debugAssertions && !condition then .error (.panic message) else .ok ()

/-- Addition of 64-bit numbers: checked in a build with debug assertions, else it wraps. -/
def addU64 (build : Build) (a b : ℕ) : Except Stop ℕ :=
  if a + b < 2 ^ 64 then .ok (a + b)
  else if build.debugAssertions then .error (.panic "attempt to add with overflow")
  else .ok ((a + b) % 2 ^ 64)

theorem addU64_ok {build : Build} {a b sum : ℕ} (h : addU64 build a b = .ok sum) :
    sum = (a + b) % 2 ^ 64 := by
  unfold addU64 at h
  split at h
  · rename_i hlt
    cases h
    rw [Nat.mod_eq_of_lt hlt]
  · split at h
    · cases h
    · cases h
      rfl

def checkBufLen (count : ℕ) : Decoder Unit := fun buf =>
  if buf.length < count then .error (.error .eof) else .ok ((), buf)

def advance (count : ℕ) : Decoder Unit := do
  let _ ← takeBytes (.panic "cannot advance past remaining") count

/-- `from_be_bytes_slice_and_advance_buf`: the slice panics when the buffer is too short. -/
def fromBeBytes (count : ℕ) : Decoder ℕ := takeNat (.panic "range end index out of range") count

def b256FromSlice : Decoder B256 := do
  return BitVec.ofNat 256 (← fromBeBytes 32)

/-! ### Commit calls -/

structure CommitBatch where
  version : ℕ
  parentBatchHeader : Bytes
  chunks : List Bytes
  skippedL1MessageBitmap : Bytes
  deriving DecidableEq, Repr

inductive CommitBatchCall where
  | commitBatch (call : CommitBatch)
  | commitBatchWithBlobProof (call : CommitBatch) (blobDataProof : Bytes)
  | commitBatches (version : ℕ) (parentBatchHash lastBatchHash : B256)
  deriving DecidableEq, Repr

/-- The functions of other crates: `tryDecode` decodes the ABI of the call that the selector
names. -/
structure Externals where
  tryDecode : Bytes → Option CommitBatchCall
  decompressBlobData : Bytes → Bytes

namespace CommitBatchCall

def version : CommitBatchCall → ℕ
  | .commitBatch call => call.version
  | .commitBatchWithBlobProof call _ => call.version
  | .commitBatches version _ _ => version

def parentBatchHeader : CommitBatchCall → Option Bytes
  | .commitBatch call => some call.parentBatchHeader
  | .commitBatchWithBlobProof call _ => some call.parentBatchHeader
  | .commitBatches _ _ _ => none

def chunks : CommitBatchCall → Option (List Bytes)
  | .commitBatch call => some call.chunks
  | .commitBatchWithBlobProof call _ => some call.chunks
  | .commitBatches _ _ _ => none

def bitsOf (byte : UInt8) : List Bool := (List.range 8).map byte.toNat.testBit

def skippedL1MessageBitmap : CommitBatchCall → Except DecodingError (Option (List Bool))
  | .commitBatch call => read call.skippedL1MessageBitmap
  | .commitBatchWithBlobProof call _ => read call.skippedL1MessageBitmap
  | .commitBatches _ _ _ => .ok none
where
  read (bitmap : Bytes) : Except DecodingError (Option (List Bool)) :=
    if bitmap.length % 32 ≠ 0 then
      .error (.invalidSkippedL1MessageBitmapLength bitmap.length)
    else .ok (some (bitmap.reverse.flatMap bitsOf))

end CommitBatchCall

/-! ### Batch headers -/

structure BatchHeaderV0 where
  version : ℕ
  batchIndex : ℕ
  l1MessagePopped : ℕ
  totalL1MessagePopped : ℕ
  dataHash : B256
  parentBatchHash : B256
  skippedL1MessageBitmap : Bytes
  deriving DecidableEq, Repr

structure BatchHeaderV1 where
  version : ℕ
  batchIndex : ℕ
  l1MessagePopped : ℕ
  totalL1MessagePopped : ℕ
  dataHash : B256
  blobVersionedHash : B256
  parentBatchHash : B256
  skippedL1MessageBitmap : Bytes
  deriving DecidableEq, Repr

structure BatchHeaderV3 where
  version : ℕ
  batchIndex : ℕ
  l1MessagePopped : ℕ
  totalL1MessagePopped : ℕ
  dataHash : B256
  blobVersionedHash : B256
  parentBatchHash : B256
  lastBlockTimestamp : ℕ
  blobDataProof : B256 × B256
  deriving DecidableEq, Repr

/-- What is left after the fixed fields has one 32-byte word for every 256 popped messages; the
bytes are kept in reverse order. -/
def leftoverBitmap (l1MessagePopped : ℕ) : Decoder Bytes := fun buf =>
  if buf.length ≠ (l1MessagePopped + 255) / 256 * 32 then .error (.error .eof)
  else .ok (buf.reverse, [])

def BatchHeaderV0.tryFromBuf : Decoder BatchHeaderV0 := do
  checkBufLen 89
  let version ← fromBeBytes 1
  let batchIndex ← fromBeBytes 8
  let l1MessagePopped ← fromBeBytes 8
  let totalL1MessagePopped ← fromBeBytes 8
  let dataHash ← b256FromSlice
  let parentBatchHash ← b256FromSlice
  let skippedL1MessageBitmap ← leftoverBitmap l1MessagePopped
  return { version, batchIndex, l1MessagePopped, totalL1MessagePopped, dataHash, parentBatchHash,
           skippedL1MessageBitmap }

def BatchHeaderV1.tryFromBuf : Decoder BatchHeaderV1 := do
  checkBufLen 121
  let version ← fromBeBytes 1
  let batchIndex ← fromBeBytes 8
  let l1MessagePopped ← fromBeBytes 8
  let totalL1MessagePopped ← fromBeBytes 8
  let dataHash ← b256FromSlice
  let blobVersionedHash ← b256FromSlice
  let parentBatchHash ← b256FromSlice
  let skippedL1MessageBitmap ← leftoverBitmap l1MessagePopped
  return { version, batchIndex, l1MessagePopped, totalL1MessagePopped, dataHash,
           blobVersionedHash, parentBatchHash, skippedL1MessageBitmap }

def BatchHeaderV3.tryFromBuf : Decoder BatchHeaderV3 := do
  checkBufLen 193
  let version ← fromBeBytes 1
  let batchIndex ← fromBeBytes 8
  let l1MessagePopped ← fromBeBytes 8
  let totalL1MessagePopped ← fromBeBytes 8
  let dataHash ← b256FromSlice
  let blobVersionedHash ← b256FromSlice
  let parentBatchHash ← b256FromSlice
  let lastBlockTimestamp ← fromBeBytes 8
  let blobDataProofZ ← b256FromSlice
  let blobDataProofY ← b256FromSlice
  return { version, batchIndex, l1MessagePopped, totalL1MessagePopped, dataHash,
           blobVersionedHash, parentBatchHash, lastBlockTimestamp,
           blobDataProof := (blobDataProofZ, blobDataProofY) }

inductive BatchHeader where
  | v0 (header : BatchHeaderV0)
  | v1 (header : BatchHeaderV1)
  | v3 (header : BatchHeaderV3)
  deriving DecidableEq, Repr

def BatchHeader.totalL1MessagePopped : BatchHeader → ℕ
  | .v0 header => header.totalL1MessagePopped
  | .v1 header => header.totalL1MessagePopped
  | .v3 header => header.totalL1MessagePopped

def BatchHeader.tryFromBuf : Decoder BatchHeader := do
  match (← get) with
  | [] => throw (.error .eof)
  | version :: _ =>
    if version = 0 then return .v0 (← BatchHeaderV0.tryFromBuf)
    else if version.toNat ≤ 2 then return .v1 (← BatchHeaderV1.tryFromBuf)
    else return .v3 (← BatchHeaderV3.tryFromBuf)

/-! ### Blocks -/

def BlockContextV0.tryFromBuf : Decoder BlockContext := do
  checkBufLen 60
  let number ← fromBeBytes 8
  let timestamp ← fromBeBytes 8
  let baseFee ← fromBeBytes 32
  let gasLimit ← fromBeBytes 8
  let numTransactions ← fromBeBytes 2
  let numL1Messages ← fromBeBytes 2
  return { number, timestamp, baseFee, gasLimit, numTransactions, numL1Messages }

structure BlockContextV7 where
  timestamp : ℕ
  baseFee : ℕ
  gasLimit : ℕ
  numTransactions : ℕ
  numL1Messages : ℕ
  deriving DecidableEq, Repr

def BlockContextV7.tryFromBuf : Decoder BlockContextV7 := do
  checkBufLen 52
  let timestamp ← fromBeBytes 8
  let baseFee ← fromBeBytes 32
  let gasLimit ← fromBeBytes 8
  let numTransactions ← fromBeBytes 2
  let numL1Messages ← fromBeBytes 2
  return { timestamp, baseFee, gasLimit, numTransactions, numL1Messages }

def BlockContextV7.withNumber (c : BlockContextV7) (number : ℕ) : BlockContext :=
  ⟨number, c.timestamp, c.baseFee, c.gasLimit, c.numTransactions, c.numL1Messages⟩

def BlockContext.transactionsCount (c : BlockContext) : ℕ := c.numTransactions - c.numL1Messages

def BlockContextV7.transactionsCount (c : BlockContextV7) : ℕ :=
  c.numTransactions - c.numL1Messages

def finishTransaction (length : ℕ) : Decoder Bytes := takeBytes (.error .eof) length

/-- One RLP list, or the byte of an EIP-2930, EIP-1559 or EIP-7702 transaction and an RLP list. -/
def Transaction.tryFromBuf : Decoder Bytes := do
  let buf ← get
  match Rlp.decodeHeader buf with
  | none => throw (.error .eof)
  | some (header, _) =>
    if header.list then finishTransaction header.lengthWithPayload
    else
      match buf with
      | [] => throw (.panic "cannot advance past remaining")
      | type :: rest =>
        if type ∉ [1, 2, 4] then throw (.error (.unsupportedTransactionType type))
        match Rlp.decodeHeader rest with
        | none => throw (.error .eof)
        | some (header, _) =>
          if header.list then finishTransaction (header.lengthWithPayload + 1)
          else throw (.error .invalidTypedTransactionEncoding)

def chunkContexts (chunk : Bytes) : Except Stop (List BlockContext × Bytes) :=
  match chunk with
  | [] => .error (.error .eof)
  | blocksCount :: rest => times BlockContextV0.tryFromBuf blocksCount.toNat rest

def readBlocks (transaction : Decoder Bytes) : List BlockContext → Decoder (List L2Block)
  | [] => return []
  | context :: contexts => do
    let transactions ← times transaction context.transactionsCount
    let blocks ← readBlocks transaction contexts
    return ⟨transactions, context⟩ :: blocks

def startIndex (call : CommitBatchCall) : Except Stop ℕ := do
  let header ← (call.parentBatchHeader.elim (.error (.error .missingParentHeader)) .ok :
    Except Stop Bytes)
  let (parsed, _) ← BatchHeader.tryFromBuf header
  return parsed.totalL1MessagePopped

def requireChunks (call : CommitBatchCall) : Except Stop (List Bytes) :=
  call.chunks.elim (.error (.error .missingChunkData)) .ok

def requireCall (ext : Externals) (calldata : Bytes) : Except Stop CommitBatchCall :=
  (ext.tryDecode calldata).elim (.error (.error .invalidCalldataFormat)) .ok

def callBitmap (call : CommitBatchCall) : Except Stop (Option (List Bool)) :=
  call.skippedL1MessageBitmap.mapError .error

def transactionV0 : Decoder Bytes := do
  advance 4
  Transaction.tryFromBuf

/-- In version 0 the transactions follow the contexts of their chunk. -/
def chunkV0 (chunk : Bytes) : Except Stop (ℕ × List L2Block) := do
  let (contexts, rest) ← chunkContexts chunk
  let (blocks, _) ← readBlocks transactionV0 contexts rest
  return (contexts.length, blocks)

def decodeV0 (ext : Externals) (calldata : Bytes) : Except Stop Batch := do
  let call ← requireCall ext calldata
  let chunks ← (← requireChunks call).mapM chunkV0
  let l1MessageStartIndex ← startIndex call
  let bitmap ← callBitmap call
  return ⟨call.version, some (chunks.map Prod.fst),
    ⟨chunks.flatMap Prod.snd, .initialQueueIndex l1MessageStartIndex, bitmap⟩⟩

/-- From version 1 on the transactions of all chunks follow each other in the blob. -/
def chunksV1 : List Bytes → Decoder (List (ℕ × List L2Block))
  | [] => return []
  | chunk :: chunks => do
    let (contexts, _) ← (chunkContexts chunk : Except Stop _)
    let blocks ← readBlocks Transaction.tryFromBuf contexts
    let rest ← chunksV1 chunks
    return (contexts.length, blocks) :: rest

def decodeV1Chunk (version : ℕ) (skippedL1MessageBitmap : Option (List Bool))
    (l1MessageStartIndex : ℕ) (chunks : List Bytes) (blob : Bytes) : Except Stop Batch := do
  let (decoded, _) ← chunksV1 chunks blob
  return ⟨version, some (decoded.map Prod.fst),
    ⟨decoded.flatMap Prod.snd, .initialQueueIndex l1MessageStartIndex, skippedL1MessageBitmap⟩⟩

def blobSliceFrom : ℕ → Bytes → Bytes
  | _, [] => []
  | count, byte :: rest =>
    if count % 32 = 0 then blobSliceFrom (count + 1) rest
    else byte :: blobSliceFrom (count + 1) rest

def blobSlice (blob : Bytes) : Bytes := blobSliceFrom 0 blob

/-- The number of chunks and their sizes stand before the transactions. -/
def skipChunkSizes (build : Build) (maxChunks : ℕ) (chunks : List Bytes) (blob : Bytes) :
    Except Stop Bytes := do
  let (_, buf) ← checkBufLen (2 + 4 * maxChunks) blob
  let (chunkCount, buf) ← fromBeBytes 2 buf
  debugAssert build (chunks.length = chunkCount) "mismatched chunk count"
  let (_, buf) ← advance (4 * maxChunks) buf
  return buf

def decodeV1 (ext : Externals) (build : Build) (calldata blob : Bytes) : Except Stop Batch := do
  let call ← requireCall ext calldata
  let l1MessageStartIndex ← startIndex call
  let chunks ← requireChunks call
  let buf ← skipChunkSizes build 15 chunks (blobSlice blob)
  decodeV1Chunk call.version (← callBitmap call) l1MessageStartIndex chunks buf

def decodeV2 (ext : Externals) (build : Build) (calldata blob : Bytes) : Except Stop Batch := do
  let call ← requireCall ext calldata
  let chunks ← requireChunks call
  let l1MessageStartIndex ← startIndex call
  let buf ← skipChunkSizes build 45 chunks (ext.decompressBlobData (blobSlice blob))
  decodeV1Chunk call.version (← callBitmap call) l1MessageStartIndex chunks buf

def decodeV4 (ext : Externals) (build : Build) (calldata blob : Bytes) : Except Stop Batch := do
  let call ← requireCall ext calldata
  let chunks ← requireChunks call
  let l1MessageStartIndex ← startIndex call
  match blobSlice blob with
  | [] => throw (.error .eof)
  | isCompressed :: rest =>
    debugAssert build (isCompressed = 1 ∨ isCompressed = 0) "incorrect compressed byte flag"
    let data := if isCompressed = 1 then ext.decompressBlobData rest else rest
    let buf ← skipChunkSizes build 45 chunks data
    decodeV1Chunk call.version (← callBitmap call) l1MessageStartIndex chunks buf

def readBlocksV7 (build : Build) (initialBlockNumber : ℕ) :
    ℕ → List BlockContextV7 → Decoder (List L2Block)
  | _, [] => return []
  | index, context :: contexts => do
    let transactions ← times Transaction.tryFromBuf context.transactionsCount
    let number ← (addU64 build initialBlockNumber index : Except Stop ℕ)
    let blocks ← readBlocksV7 build initialBlockNumber (index + 1) contexts
    return ⟨transactions, context.withNumber number⟩ :: blocks

def payloadV7 (build : Build) : Decoder PayloadData := do
  checkBufLen 74
  let prevMessageQueueHash ← b256FromSlice
  let postMessageQueueHash ← b256FromSlice
  let initialBlockNumber ← fromBeBytes 8
  let blocksCount ← fromBeBytes 2
  let contexts ← times BlockContextV7.tryFromBuf blocksCount
  let blocks ← readBlocksV7 build initialBlockNumber 0 contexts
  return ⟨blocks, .hashed prevMessageQueueHash postMessageQueueHash, none⟩

def decodeV7Payload (build : Build) (blob : Bytes) : Except Stop PayloadData :=
  (payloadV7 build blob).map Prod.fst

def envelopePayload (heapBlob : Bytes) (blobPayloadSize : ℕ) : Except Stop Bytes :=
  if heapBlob.length < blobPayloadSize + 5 then .error (.error .eof)
  else .ok ((heapBlob.drop 5).take blobPayloadSize)

def decodeV7 (ext : Externals) (build : Build) (blob : Bytes) : Except Stop Batch := do
  let heapBlob := blobSlice blob
  let (_, buf) ← checkBufLen 5 heapBlob
  let (version, buf) ← fromBeBytes 1 buf
  debugAssert build (version = 7 ∨ version = 8 ∨ version = 9 ∨ version = 10)
    "incorrect blob version"
  let (blobPayloadSize, buf) ← fromBeBytes 3 buf
  let (isCompressed, _) ← fromBeBytes 1 buf
  debugAssert build (isCompressed = 1 ∨ isCompressed = 0) "incorrect compressed byte flag"
  let body ← envelopePayload heapBlob blobPayloadSize
  let payload ← decodeV7Payload build
    (if isCompressed = 1 then ext.decompressBlobData body else body)
  return ⟨version, none, payload⟩

def getCodecVersion (calldata : Bytes) : Except Stop ℕ :=
  if calldata.length < 36 then .error (.error .eof)
  else
    let version := beValue ((calldata.drop 4).take 32)
    if version < 256 then .ok version else .error (.error (.malformedCodecVersion version))

def requireBlob (blob : Option Bytes) : Except Stop Bytes :=
  blob.elim (.error (.error .missingBlob)) .ok

def decode (ext : Externals) (build : Build) (calldata : Bytes) (blob : Option Bytes) :
    Except Stop Batch := do
  let version ← getCodecVersion calldata
  if version = 0 then decodeV0 ext calldata
  else if version = 1 then decodeV1 ext build calldata (← requireBlob blob)
  else if version < 4 then decodeV2 ext build calldata (← requireBlob blob)
  else if version < 7 then decodeV4 ext build calldata (← requireBlob blob)
  else if version ≤ 11 then decodeV7 ext build (← requireBlob blob)
  else throw (.error (.unsupportedCodecVersion version))

/-! ### The ABI of `commitBatch(uint8,bytes,bytes[],bytes)` -/

def abiBytes (bytes : Bytes) : Bytes :=
  beBytes 32 bytes.length ++ bytes ++ List.replicate ((32 - bytes.length % 32) % 32) 0

def abiArray (items : List Bytes) : Bytes :=
  let tails := items.map abiBytes
  beBytes 32 items.length ++ (List.range items.length).flatMap (fun i =>
    beBytes 32 (32 * items.length + (tails.take i).flatten.length)) ++ tails.flatten

def CommitBatch.calldata (call : CommitBatch) : Bytes :=
  let header := abiBytes call.parentBatchHeader
  let chunks := abiArray call.chunks
  [0x13, 0x25, 0xac, 0xa0] ++ [call.version, 0x80, 0x80 + header.length,
    0x80 + header.length + chunks.length].flatMap (beBytes 32) ++
      header ++ chunks ++ abiBytes call.skippedL1MessageBitmap

def Externals.ofCall (call : CommitBatch) : Externals where
  tryDecode calldata := if calldata = call.calldata then some (.commitBatch call) else none
  decompressBlobData := id

end RollupNode.Codec
