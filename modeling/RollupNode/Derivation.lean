import RollupNode.Codec
import RollupNode.DerivationPipeline

set_option autoImplicit false

/-! The derivation of a batch: its blocks are completed with the messages of the L1 queue. -/
namespace RollupNode
open ExceptTraversal

structure L1Provider where
  blob : ℕ → B256 → Except String (Option Bytes)
  getNMessages : L1MessageKey → ℕ → Except String (List L1MessageEnvelope)

inductive DeriveError where
  | l1Provider (message : String)
  | cache (message : String)
  | codec (stop : Codec.Stop)
  | missingL1MessageQueueCursor
  | invalidL1MessagesCount (expected got : ℕ)
  | missingL1Message (block : Codec.L2Block)
  | l1MessageTransactionInBatch
  | panic (message : String)
  deriving DecidableEq, Repr

/-- What a derivation runs with. `encode` is the EIP-2718 encoding of a message. -/
structure DerivationInputs where
  externals : Codec.Externals
  build : Codec.Build
  provider : L1Provider
  cache : ℕ → Except String (Option BlockDataHint)
  encode : TxL1Message → Bytes
  l1V2MessageQueueStartIndex : ℕ

def l1MessageTxTypeId : UInt8 := 0x7e

def ensureBatchContainsOnlyL2Transactions (transactions : List Bytes) : Except DeriveError Unit :=
  if transactions.any (fun tx => tx.head? = some l1MessageTxTypeId) then
    .error .l1MessageTransactionInBatch
  else .ok ()

def totalL1Messages (data : Codec.PayloadData) : ℕ := Codec.l1MessagesCount data.blocks

/-- The messages from the payload's cursor on. With a queue hash the message that has it comes
first and is dropped. -/
def iterL1MessagesFromPayload (inputs : DerivationInputs) (data : Codec.PayloadData) :
    Except DeriveError (List L1MessageEnvelope) := do
  let total := totalL1Messages data
  let messages ← match data.queueIndexStart, data.prevL1MessageQueueHash with
    | some index, _ => (inputs.provider.getNMessages (.queueIndex index) total).mapError .l1Provider
    | none, some hash =>
      if hash = 0 then
        (inputs.provider.getNMessages (.queueIndex inputs.l1V2MessageQueueStartIndex)
          total).mapError .l1Provider
      else
        match inputs.provider.getNMessages (.queueHash hash) (total + 1) with
        | .error message => .error (.l1Provider message)
        | .ok [] => .error (.panic "removal index (is 0) should be < len (is 0)")
        | .ok (_ :: messages) => .ok messages
    | none, none => .error .missingL1MessageQueueCursor
  if messages.length ≠ total then throw (.invalidL1MessagesCount total messages.length)
  return messages

structure MessageCursor where
  bitmap : List Bool
  messages : List L1MessageEnvelope
  skipped : List ℕ
  deriving DecidableEq, Repr

/-- A set bit drops the next message, if there is one. -/
def MessageCursor.skip (c : MessageCursor) : MessageCursor :=
  match c.messages with
  | [] => { c with bitmap := c.bitmap.tail }
  | m :: rest => ⟨c.bitmap.tail, rest, c.skipped ++ [m.transaction.queueIndex]⟩

def blockMessages (inputs : DerivationInputs) (block : Codec.L2Block) :
    ℕ → MessageCursor → Except DeriveError (List Bytes × MessageCursor)
  | 0, c => .ok ([], c)
  | n + 1, c =>
    if c.bitmap.head? = some true then blockMessages inputs block n c.skip
    else
      match c.messages with
      | [] => .error (.missingL1Message block)
      | m :: rest => do
        let (txs, c') ← blockMessages inputs block n { c with bitmap := c.bitmap.tail, messages := rest }
        return (inputs.encode m.transaction :: txs, c')

def deriveBlock (inputs : DerivationInputs) (block : Codec.L2Block) (c : MessageCursor) :
    Except DeriveError (DerivedAttributes × MessageCursor) := do
  ensureBatchContainsOnlyL2Transactions block.transactions
  let (txs, c') ← blockMessages inputs block block.context.numL1Messages c
  let hint ← (inputs.cache block.context.number).mapError .cache
  return ({ blockNumber := block.context.number
            baseFee := block.context.baseFee
            attributes :=
              { timestamp := block.context.timestamp
                prevRandao := 0
                transactions := some (txs ++ block.transactions)
                gasLimit := some block.context.gasLimit
                blockDataHint := hint.getD ⟨none, none, none, none, none⟩ } }, c')

def deriveBlocks (inputs : DerivationInputs) :
    List Codec.L2Block → MessageCursor → Except DeriveError (List DerivedAttributes × MessageCursor)
  | [], c => .ok ([], c)
  | block :: blocks, c => do
    let (attributes, c') ← deriveBlock inputs block c
    let (rest, last) ← deriveBlocks inputs blocks c'
    return (attributes :: rest, last)

def batchBlob (inputs : DerivationInputs) (batch : BatchCommitData) :
    Except DeriveError (Option Bytes) :=
  match batch.blobVersionedHash with
  | some hash => (inputs.provider.blob batch.blockTimestamp hash).mapError .l1Provider
  | none => .ok none

def deriveAttributes (inputs : DerivationInputs) (batch : BatchCommitData) :
    Except DeriveError (List DerivedAttributes × List ℕ) := do
  let blob ← batchBlob inputs batch
  let decoded ← (Codec.decode inputs.externals inputs.build batch.calldata blob).mapError .codec
  let messages ← iterL1MessagesFromPayload inputs decoded.data
  let (attributes, c) ← deriveBlocks inputs decoded.data.blocks
    ⟨decoded.data.skippedL1MessageBitmap.getD [], messages, []⟩
  return (attributes, c.skipped)

def derive (inputs : DerivationInputs) (batch : BatchCommitData) (targetStatus : BatchStatus) :
    Except DeriveError BatchDerivationResult := do
  let (attributes, skipped) ← deriveAttributes inputs batch
  return ⟨attributes, batch.batchInfo, skipped, targetStatus⟩

def DerivationInputs.world (inputs : DerivationInputs) (db : Db) : DerivationWorld where
  fault := none
  db := db
  decode batch := (deriveAttributes inputs batch).mapError reprStr

theorem deriveBlock_number {inputs : DerivationInputs} {block : Codec.L2Block}
    {c c' : MessageCursor} {attributes : DerivedAttributes}
    (h : deriveBlock inputs block c = .ok (attributes, c')) :
    attributes.blockNumber = block.context.number := by
  obtain ⟨_, -, h⟩ := bind_eq_ok.1 h
  obtain ⟨⟨txs, last⟩, -, h⟩ := bind_eq_ok.1 h
  obtain ⟨hint, -, h⟩ := bind_eq_ok.1 h
  cases h
  rfl

theorem deriveBlocks_numbers {inputs : DerivationInputs} {blocks : List Codec.L2Block}
    {c c' : MessageCursor} {attributes : List DerivedAttributes}
    (h : deriveBlocks inputs blocks c = .ok (attributes, c')) :
    attributes.map (·.blockNumber) = blocks.map (·.context.number) := by
  induction blocks generalizing c attributes with
  | nil =>
    cases h
    rfl
  | cons block blocks ih =>
    obtain ⟨⟨first, mid⟩, hfirst, h⟩ := bind_eq_ok.1 h
    obtain ⟨⟨rest, last⟩, hrest, h⟩ := bind_eq_ok.1 h
    cases h
    rw [List.map_cons, List.map_cons, deriveBlock_number hfirst, ih hrest]

theorem derive_numbers {inputs : DerivationInputs} {result : BatchDerivationResult}
    {batch : BatchCommitData} {targetStatus : BatchStatus}
    (h : derive inputs batch targetStatus = .ok result) :
    ∃ blob decoded,
      Codec.decode inputs.externals inputs.build batch.calldata blob = .ok decoded ∧
      result.attributes.map (·.blockNumber) = decoded.data.blocks.map (·.context.number) := by
  obtain ⟨⟨derived, skipped⟩, hderived, h⟩ := bind_eq_ok.1 h
  cases h
  obtain ⟨blob, -, h⟩ := bind_eq_ok.1 hderived
  obtain ⟨decoded, hdecoded, h⟩ := bind_eq_ok.1 h
  obtain ⟨messages, -, h⟩ := bind_eq_ok.1 h
  obtain ⟨⟨attributes, c⟩, hattributes, h⟩ := bind_eq_ok.1 h
  cases h
  refine ⟨blob, decoded, ?_, deriveBlocks_numbers hattributes⟩
  cases hdecode : Codec.decode inputs.externals inputs.build batch.calldata blob with
  | error e =>
    rw [hdecode] at hdecoded
    cases hdecoded
  | ok decoded' =>
    rw [hdecode] at hdecoded
    cases hdecoded
    rfl

end RollupNode
