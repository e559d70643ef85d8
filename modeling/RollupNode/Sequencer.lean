import RollupNode.Reconciliation

set_option autoImplicit false

/-! The sequencer: one payload building job at a time, requested on the forkchoice head. -/
namespace RollupNode

inductive L1MessageInclusionMode where
  | blockDepth (depth : ℕ)
  | finalizedWithBlockDepth (depth : ℕ)
  deriving DecidableEq, Repr

def L1MessageInclusionMode.toKey : L1MessageInclusionMode → L1MessageKey
  | .blockDepth depth => .notIncluded (.blockDepth depth)
  | .finalizedWithBlockDepth depth => .notIncluded (.finalizedWithBlockDepth depth)

structure PayloadBuildingConfig where
  blockGasLimit : ℕ
  maxL1MessagesPerBlock : ℕ
  l1MessageInclusionMode : L1MessageInclusionMode
  deriving DecidableEq, Repr

structure SequencerConfig where
  payloadBuildingConfig : PayloadBuildingConfig
  allowEmptyBlocks : Bool
  deriving DecidableEq, Repr

inductive SequencerError where
  | engineError (e : EngineError)
  | missingPayloadId
  | invalidPayload (block : BlockInfo) (latestValidHash : Option B256) (validationError : String)
  | payloadError
  | fcuNotValid
  | l1MessageProviderError (e : Abort)
  deriving DecidableEq, Repr

/-- `messages` are the L1 messages in the attributes the payload was requested with: the
source hands them to the Engine and keeps `l1Origin` only. -/
structure PayloadBuildingJob where
  parent : BlockInfo
  l1Origin : Option ℕ
  payloadId : PayloadId
  messages : List L1MessageEnvelope
  deriving DecidableEq, Repr

structure L1MessageBuildRecovery where
  limit : Option (BlockInfo × ℕ)
  request : Option (PayloadId × BlockInfo × ℕ)
  deriving DecidableEq, Repr

namespace L1MessageBuildRecovery

def resetForParent (r : L1MessageBuildRecovery) (parent : BlockInfo) : L1MessageBuildRecovery :=
  if r.limit.any (fun limit => limit.1 ≠ parent) then { r with limit := none } else r

def maxMessages (r : L1MessageBuildRecovery) (parent : BlockInfo) (configured : ℕ) :
    L1MessageBuildRecovery × ℕ :=
  let r := r.resetForParent parent
  (r, r.limit.elim configured (fun limit => min configured limit.2))

def recordRequest (r : L1MessageBuildRecovery) (payloadId : PayloadId) (parent : BlockInfo)
    (messageCount : ℕ) : L1MessageBuildRecovery :=
  { r with request := some (payloadId, parent, messageCount) }

def cancelRequest (r : L1MessageBuildRecovery) : L1MessageBuildRecovery :=
  { r with request := none }

/-- A failed request on the current parent halves the prefix of the next one. -/
def recordResult (r : L1MessageBuildRecovery) (payloadId : PayloadId) (parent : BlockInfo)
    (succeeded : Bool) : L1MessageBuildRecovery :=
  let r := r.resetForParent parent
  match r.request with
  | none => r
  | some (requestId, requestParent, count) =>
    if requestId ≠ payloadId then r
    else if requestParent ≠ parent then { r with request := none }
    else if succeeded then ⟨none, none⟩
    else if 1 < count then ⟨some (parent, count / 2), none⟩
    else { r with request := none }

end L1MessageBuildRecovery

structure Sequencer where
  config : SequencerConfig
  enabled : Bool
  payloadBuildingJob : Option PayloadBuildingJob
  l1MessageRecovery : L1MessageBuildRecovery
  deriving DecidableEq, Repr

/-- The block a payload converts into once the default difficulty is set: it is absent when
the conversion fails, and its hash is computed from its header. -/
structure BuiltPayload where
  payload : ExecutionPayload
  block : Option L2Block
  parent_eq : ∀ b ∈ block, b.parentHash = payload.parentHash
  number_eq : ∀ b ∈ block, b.number = payload.blockNumber

/-- The longest run of messages that fits; the sum of the gas limits is a `u64`. -/
def fittingMessages (blockGasLimit : ℕ) :
    ℕ → List L1MessageEnvelope → List L1MessageEnvelope
  | _, [] => []
  | cumulativeGasUsed, m :: ms =>
    let total := (m.transaction.gasLimit + cumulativeGasUsed) % 2 ^ 64
    if total ≤ blockGasLimit then m :: fittingMessages blockGasLimit total ms else []

namespace Sequencer

def cancelPayloadBuildingJob (s : Sequencer) : Sequencer :=
  { s with payloadBuildingJob := none, l1MessageRecovery := s.l1MessageRecovery.cancelRequest }

def enable (s : Sequencer) : Sequencer := { s with enabled := true }

def disable (s : Sequencer) : Sequencer := { s.cancelPayloadBuildingJob with enabled := false }

def jobFor (s : Sequencer) (parent : BlockInfo) (payloadId : PayloadId)
    (offered : List L1MessageEnvelope) : PayloadBuildingJob where
  parent := parent
  l1Origin := offered.head?.map (·.l1BlockNumber)
  payloadId := payloadId
  messages := fittingMessages s.config.payloadBuildingConfig.blockGasLimit 0 offered

def startPayloadBuilding (s : Sequencer) (db : Db) (fcs : ForkchoiceState)
    (reply : Reply ForkchoiceUpdated) : Sequencer × Except SequencerError Unit :=
  let config := s.config.payloadBuildingConfig
  let parent := fcs.head
  let (recovery, maxL1Messages) :=
    s.l1MessageRecovery.maxMessages parent config.maxL1MessagesPerBlock
  let s := { s with l1MessageRecovery := recovery }
  match db.getNL1Messages (some config.l1MessageInclusionMode.toKey) maxL1Messages with
  | .error e => (s, .error (.l1MessageProviderError e))
  | .ok offered =>
    match fcs.buildPayload none reply with
    | .error e => (s, .error (.engineError e))
    | .ok fcu =>
      match fcu.payloadId with
      | none => (s, .error .missingPayloadId)
      | some payloadId =>
        let job := s.jobFor parent payloadId offered
        ({ s with
          payloadBuildingJob := some job
          l1MessageRecovery := recovery.recordRequest payloadId parent job.messages.length },
          .ok ())

/-- A start that succeeds records the request and the job; one that fails only drops a limit of
another parent. -/
theorem startPayloadBuilding_cases (s : Sequencer) (db : Db) (fcs : ForkchoiceState)
    (reply : Reply ForkchoiceUpdated) :
    (∃ offered payloadId,
      db.getNL1Messages (some s.config.payloadBuildingConfig.l1MessageInclusionMode.toKey)
        (s.l1MessageRecovery.maxMessages fcs.head
          s.config.payloadBuildingConfig.maxL1MessagesPerBlock).2 = .ok offered ∧
      s.startPayloadBuilding db fcs reply = ({ s with
        payloadBuildingJob := some (s.jobFor fcs.head payloadId offered)
        l1MessageRecovery := (s.l1MessageRecovery.resetForParent fcs.head).recordRequest payloadId
          fcs.head (s.jobFor fcs.head payloadId offered).messages.length }, .ok ())) ∨
    ∃ e, s.startPayloadBuilding db fcs reply =
      ({ s with l1MessageRecovery := s.l1MessageRecovery.resetForParent fcs.head }, .error e) := by
  unfold startPayloadBuilding
  simp only
  split
  · exact Or.inr ⟨_, rfl⟩
  rename_i offered hquery
  split
  · exact Or.inr ⟨_, rfl⟩
  split
  · exact Or.inr ⟨_, rfl⟩
  · rename_i payloadId _
    exact Or.inl ⟨offered, payloadId, hquery, rfl⟩

theorem startPayloadBuilding_ok {s s' : Sequencer} {db : Db} {fcs : ForkchoiceState}
    {reply : Reply ForkchoiceUpdated}
    (hstart : s.startPayloadBuilding db fcs reply = (s', .ok ())) :
    ∃ offered payloadId,
      db.getNL1Messages (some s.config.payloadBuildingConfig.l1MessageInclusionMode.toKey)
        (s.l1MessageRecovery.maxMessages fcs.head
          s.config.payloadBuildingConfig.maxL1MessagesPerBlock).2 = .ok offered ∧
      s' = { s with
        payloadBuildingJob := some (s.jobFor fcs.head payloadId offered)
        l1MessageRecovery := (s.l1MessageRecovery.resetForParent fcs.head).recordRequest payloadId
          fcs.head (s.jobFor fcs.head payloadId offered).messages.length } := by
  rcases s.startPayloadBuilding_cases db fcs reply with ⟨offered, payloadId, hquery, heq⟩ | ⟨e, heq⟩
  · rw [heq] at hstart
    exact ⟨offered, payloadId, hquery, (congrArg Prod.fst hstart).symm⟩
  · rw [heq] at hstart
    cases hstart

/-- A queue that can be read and an answer with a payload id are enough. -/
theorem startPayloadBuilding_of_payloadId (s : Sequencer) {db : Db} (fcs : ForkchoiceState)
    {fcu : ForkchoiceUpdated} {payloadId : PayloadId} {offered : List L1MessageEnvelope}
    (hquery : db.getNL1Messages (some s.config.payloadBuildingConfig.l1MessageInclusionMode.toKey)
      (s.l1MessageRecovery.maxMessages fcs.head
        s.config.payloadBuildingConfig.maxL1MessagesPerBlock).2 = .ok offered)
    (hid : fcu.payloadId = some payloadId) :
    s.startPayloadBuilding db fcs (.ok fcu) = ({ s with
      payloadBuildingJob := some (s.jobFor fcs.head payloadId offered)
      l1MessageRecovery := (s.l1MessageRecovery.resetForParent fcs.head).recordRequest payloadId
        fcs.head (s.jobFor fcs.head payloadId offered).messages.length }, .ok ()) := by
  have hbuild : fcs.buildPayload none (.ok fcu) = .ok fcu := rfl
  unfold startPayloadBuilding
  simp only [hquery, hbuild, hid]
  rfl

/-- The block is compared with nothing but its own hash before it becomes the head. -/
def commitPayload (fcs : ForkchoiceState) (built : BuiltPayload)
    (reply : Reply ForkchoiceUpdated) : ForkchoiceState × Except SequencerError L2Block :=
  match built.block with
  | none => (fcs, .error .payloadError)
  | some block =>
    if block.hash ≠ built.payload.blockHash then (fcs, .error .payloadError)
    else
      let info : BlockInfo := ⟨built.payload.blockNumber, built.payload.blockHash⟩
      match fcs.updateFcsChecked (some info) none none reply with
      | (fcs', .error e) => (fcs', .error (.engineError e))
      | (fcs', .ok result) =>
        match result.status with
        | .valid => (fcs', .ok block)
        | .invalid e =>
          (fcs', .error (.invalidPayload info result.payloadStatus.latestValidHash e))
        | _ => (fcs', .error .fcuNotValid)

def finalizePayloadBuilding (s : Sequencer) (fcs : ForkchoiceState) (payloadId : PayloadId)
    (payload : Reply BuiltPayload) (reply : Reply ForkchoiceUpdated) :
    Sequencer × ForkchoiceState × Except SequencerError (Option L2Block) :=
  let recovered := { s with
    l1MessageRecovery := s.l1MessageRecovery.recordResult payloadId fcs.head payload.isOk }
  match payload with
  | .error message => (recovered, fcs, .error (.engineError (.transportError message)))
  | .ok built =>
    if built.payload.transactions = [] ∧ s.config.allowEmptyBlocks = false then
      (recovered, fcs, .ok none)
    else
      let committed := commitPayload fcs built reply
      (recovered, committed.1, committed.2.map some)

end Sequencer
end RollupNode
