import RollupNode.Forkchoice
import RollupNode.GuardedRuns

set_option autoImplicit false

/-! Sequences of forkchoice calls keep the state ordered. -/
namespace RollupNode
open GuardedRuns

structure AlloyForkchoiceState where
  headBlockHash : B256
  safeBlockHash : B256
  finalizedBlockHash : B256
  deriving DecidableEq, Repr

namespace ForkchoiceState

def getAlloyFcs (s : ForkchoiceState) : AlloyForkchoiceState :=
  ⟨s.head.hash, s.safe.hash, s.finalized.hash⟩

def getAlloyOptimisticFcs (s : ForkchoiceState) : AlloyForkchoiceState := ⟨s.head.hash, 0, 0⟩

def Ordered (s : ForkchoiceState) : Prop :=
  s.safe.number ≤ s.head.number ∧ s.finalized.number ≤ s.safe.number

instance (s : ForkchoiceState) : Decidable s.Ordered := inferInstanceAs (Decidable (_ ∧ _))

end ForkchoiceState

inductive FcsCall where
  | updateFcs (head safe finalized : Option BlockInfo)
  | updateFcsChecked (head safe finalized : Option BlockInfo)
  | optimisticSync (block : BlockInfo)
  deriving DecidableEq, Repr

namespace FcsCall

def candidate (s : ForkchoiceState) : FcsCall → Except FcsError ForkchoiceState
  | .updateFcs head safe finalized => s.update head safe finalized
  | .updateFcsChecked head safe finalized => s.update head safe finalized
  | .optimisticSync block => s.update (some block) none none

def hashes : FcsCall → ForkchoiceState → AlloyForkchoiceState
  | .optimisticSync _ => ForkchoiceState.getAlloyOptimisticFcs
  | _ => ForkchoiceState.getAlloyFcs

def request (call : FcsCall) (s : ForkchoiceState) : Option AlloyForkchoiceState :=
  (call.candidate s).toOption.map call.hashes

def perform (s : ForkchoiceState) (reply : Reply ForkchoiceUpdated) :
    FcsCall → ForkchoiceState × Except EngineError ForkchoiceUpdated
  | .updateFcs head safe finalized => s.updateFcs head safe finalized reply
  | .updateFcsChecked head safe finalized => s.updateFcsChecked head safe finalized reply
  | .optimisticSync block => s.optimisticSync block reply

def commits : FcsCall → PayloadStatusEnum → Bool
  | .updateFcs _ _ _, status => status = .valid ∨ status = .syncing
  | .updateFcsChecked _ _ _, status => status = .valid
  | .optimisticSync _, status => match status with
    | .invalid _ => false
    | _ => true

structure Sound (s : ForkchoiceState) (reply : Reply ForkchoiceUpdated) (call : FcsCall) :
    Prop where
  ordered : (call.perform s reply).1.Ordered
  error : ∀ e, (call.perform s reply).2 = .error e → (call.perform s reply).1 = s
  refused : ∀ response, (call.perform s reply).2 = .ok response →
    call.commits response.status = false → (call.perform s reply).1 = s
  sent : ∀ request, call.request s = some request → ∀ response,
    call.commits response.status = true →
      call.hashes (call.perform s (.ok response)).1 = request

end FcsCall

structure EngineCall where
  call : FcsCall
  answer : AlloyForkchoiceState → Reply ForkchoiceUpdated

namespace EngineCall

def reply (c : EngineCall) (s : ForkchoiceState) : Reply ForkchoiceUpdated :=
  match c.call.request s with
  | some request => c.answer request
  | none => .error "nothing was sent"

def step (s : ForkchoiceState) (c : EngineCall) : ForkchoiceState :=
  (c.call.perform s (c.reply s)).1

end EngineCall

end RollupNode
