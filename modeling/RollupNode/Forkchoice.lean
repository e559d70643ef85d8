import RollupNode.Primitives
import Mathlib.Tactic.ByContra

set_option autoImplicit false

/-! The Engine wrapper. A request to the execution client is given by its reply. -/
namespace RollupNode

structure ForkchoiceState where
  head : BlockInfo
  safe : BlockInfo
  finalized : BlockInfo
  deriving DecidableEq, Repr

inductive FcsError where
  | noUpdateProvided
  | finalizedBlockNumberNotIncreasing
  | headBelowSafe
  | safeBelowFinalized
  deriving DecidableEq, Repr

inductive PayloadStatusEnum where
  | valid
  | invalid (validationError : String)
  | syncing
  | accepted
  deriving DecidableEq, Repr

structure PayloadStatus where
  status : PayloadStatusEnum
  latestValidHash : Option B256
  deriving DecidableEq, Repr

abbrev PayloadId := ℕ

structure ForkchoiceUpdated where
  payloadStatus : PayloadStatus
  payloadId : Option PayloadId
  deriving DecidableEq, Repr

def ForkchoiceUpdated.status (r : ForkchoiceUpdated) : PayloadStatusEnum := r.payloadStatus.status

def ForkchoiceUpdated.ofStatus (status : PayloadStatusEnum) : ForkchoiceUpdated :=
  ⟨⟨status, none⟩, none⟩

inductive EngineError where
  | fcsError (e : FcsError)
  | transportError (message : String)
  | unreachable (message : String)
  deriving DecidableEq, Repr

abbrev Reply (α : Type) := Except String α

def validReply : Reply ForkchoiceUpdated := .ok (.ofStatus .valid)

namespace ForkchoiceState

def candidate (s : ForkchoiceState) (head safe finalized : Option BlockInfo) : ForkchoiceState :=
  ⟨head.getD s.head, safe.getD s.safe, finalized.getD s.finalized⟩

def update (s : ForkchoiceState) (head safe finalized : Option BlockInfo) :
    Except FcsError ForkchoiceState :=
  let new := s.candidate head safe finalized
  if head = none ∧ safe = none ∧ finalized = none then .error .noUpdateProvided
  else if new.finalized.number ≤ s.finalized.number ∧ new.finalized ≠ s.finalized then
    .error .finalizedBlockNumberNotIncreasing
  else if new.head.number < new.safe.number then .error .headBelowSafe
  else if new.safe.number < new.finalized.number then .error .safeBelowFinalized
  else .ok new

def updateFcs (s : ForkchoiceState) (head safe finalized : Option BlockInfo)
    (reply : Reply ForkchoiceUpdated) : ForkchoiceState × Except EngineError ForkchoiceUpdated :=
  match s.update head safe finalized, reply with
  | .error e, _ => (s, .error (.fcsError e))
  | .ok _, .error message => (s, .error (.transportError message))
  | .ok new, .ok result =>
    match result.status with
    | .accepted => (s, .error (.unreachable
        "forkchoice update should never return an `Accepted` status"))
    | .invalid _ => (s, .ok result)
    | .syncing => (new, .ok result)
    | .valid => (new, .ok result)

/-- Commits the candidate only when the client answers `VALID`. -/
def updateFcsChecked (s : ForkchoiceState) (head safe finalized : Option BlockInfo)
    (reply : Reply ForkchoiceUpdated) : ForkchoiceState × Except EngineError ForkchoiceUpdated :=
  match s.update head safe finalized, reply with
  | .error e, _ => (s, .error (.fcsError e))
  | .ok _, .error message => (s, .error (.transportError message))
  | .ok new, .ok result => (if result.status = .valid then new else s, .ok result)

def optimisticSync (s : ForkchoiceState) (block : BlockInfo) (reply : Reply ForkchoiceUpdated) :
    ForkchoiceState × Except EngineError ForkchoiceUpdated :=
  match s.update (some block) none none, reply with
  | .error e, _ => (s, .error (.fcsError e))
  | .ok _, .error message => (s, .error (.transportError message))
  | .ok new, .ok result =>
    match result.status with
    | .invalid _ => (s, .ok result)
    | _ => (new, .ok result)

/-- Asks for a payload on `head`, or on the current head. The local state does not move. -/
def buildPayload (s : ForkchoiceState) (head : Option BlockInfo)
    (reply : Reply ForkchoiceUpdated) : Except EngineError ForkchoiceUpdated :=
  match head.map (fun h => s.update (some h) none none), reply with
  | some (.error e), _ => .error (.fcsError e)
  | _, .error message => .error (.transportError message)
  | _, .ok result => .ok result

variable {finalized head safe : Option BlockInfo} {s : ForkchoiceState}

/-- An update that is accepted keeps the order of the blocks, and finality from moving back. -/
theorem update_eq_ok {s' : ForkchoiceState} (h : s.update head safe finalized = .ok s') :
    s' = s.candidate head safe finalized ∧
      (s'.finalized.number ≤ s.finalized.number → s'.finalized = s.finalized) ∧
      s'.safe.number ≤ s'.head.number ∧ s'.finalized.number ≤ s'.safe.number := by
  simp only [update] at h
  split at h
  · cases h
  split at h
  · cases h
  rename_i hfin
  split at h
  · cases h
  rename_i hsafe
  split at h
  · cases h
  rename_i hle
  cases h
  refine ⟨rfl, ?_, by omega, by omega⟩
  intro hnum
  by_contra hne
  exact hfin ⟨hnum, hne⟩

theorem not_increasing_of_update
    (h : s.update head safe finalized = .error .finalizedBlockNumberNotIncreasing) :
    (s.candidate head safe finalized).finalized.number ≤ s.finalized.number := by
  simp only [update] at h
  split at h
  · cases h
  split at h
  · rename_i hback
    exact hback.1
  split at h
  · cases h
  split at h
  · cases h
  · cases h

theorem update_safe_eq_ok {safe : BlockInfo} (hfinalized : s.finalized.number ≤ safe.number)
    (hhead : safe.number ≤ s.head.number) :
    s.update none (some safe) none = .ok { s with safe := safe } := by
  simp only [update]
  split
  · rename_i h
    cases h.2.1
  split
  · rename_i h
    exact absurd rfl h.2
  split
  · rename_i h
    exact absurd h (Nat.not_lt.2 hhead)
  split
  · rename_i h
    exact absurd h (Nat.not_lt.2 hfinalized)
  · rfl

theorem updateFcs_state (s : ForkchoiceState) (head safe finalized : Option BlockInfo)
    (reply : Reply ForkchoiceUpdated) :
    (s.updateFcs head safe finalized reply).1 = s ∨
      s.update head safe finalized = .ok (s.updateFcs head safe finalized reply).1 := by
  unfold updateFcs
  split
  · exact Or.inl rfl
  · exact Or.inl rfl
  · rename_i new result hnew
    split
    · exact Or.inl rfl
    · exact Or.inl rfl
    · exact Or.inr hnew
    · exact Or.inr hnew

theorem updateFcs_of_answer {new : ForkchoiceState} {response : ForkchoiceUpdated}
    (h : s.update head safe finalized = .ok new)
    (hstatus : response.status = .valid ∨ response.status = .syncing) :
    s.updateFcs head safe finalized (.ok response) = (new, .ok response) := by
  unfold updateFcs
  rw [h]
  rcases hstatus with hstatus | hstatus
  · simp only [hstatus]
  · simp only [hstatus]

theorem updateFcsChecked_state (s : ForkchoiceState) (head safe finalized : Option BlockInfo)
    (reply : Reply ForkchoiceUpdated) :
    (s.updateFcsChecked head safe finalized reply).1 = s ∨
      s.update head safe finalized = .ok (s.updateFcsChecked head safe finalized reply).1 := by
  unfold updateFcsChecked
  split
  · exact Or.inl rfl
  · exact Or.inl rfl
  · rename_i new result hnew
    split
    · exact Or.inr hnew
    · exact Or.inl rfl

theorem updateFcsChecked_valid {reply : Reply ForkchoiceUpdated} {result : ForkchoiceUpdated}
    (h : (s.updateFcsChecked head safe finalized reply).2 = .ok result)
    (hv : result.status = .valid) :
    s.update head safe finalized = .ok (s.updateFcsChecked head safe finalized reply).1 := by
  unfold updateFcsChecked at h ⊢
  split at h
  · cases h
  · cases h
  · rename_i new result' hnew
    cases h
    simp only [hv, if_true]
    exact hnew

end ForkchoiceState
end RollupNode
