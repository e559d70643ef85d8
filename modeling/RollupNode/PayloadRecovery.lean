import RollupNode.GuardedRuns
import RollupNode.PayloadMessages

set_option autoImplicit false

/-! A failed request on the head halves the number of L1 messages of the next one. -/
namespace RollupNode
open BudgetedPrefix GuardedRuns

theorem fittingMessages_of_total_le {blockGasLimit used : ℕ} {offered : List L1MessageEnvelope}
    (hlimit : blockGasLimit < 2 ^ 64)
    (h : used + total L1MessageEnvelope.gas offered ≤ blockGasLimit) :
    fittingMessages blockGasLimit used offered = offered := by
  induction offered generalizing used with
  | nil => rfl
  | cons m offered ih =>
    rw [total_cons] at h
    have hsum : (m.transaction.gasLimit + used) % 2 ^ 64 = used + m.gas := by
      change (m.gas + used) % 2 ^ 64 = _
      omega
    rw [fittingMessages]
    simp only [hsum]
    rw [if_pos (by omega), ih (by omega)]

variable {limit : BlockInfo × ℕ} {payloadId : PayloadId}

namespace L1MessageBuildRecovery

def inForce (r : L1MessageBuildRecovery) (head : BlockInfo) : Option ℕ :=
  (r.limit.filter (fun limit => limit.1 = head)).map (·.2)

theorem resetForParent_limit (r : L1MessageBuildRecovery) (parent : BlockInfo) :
    (r.resetForParent parent).limit = r.limit.filter (fun limit => limit.1 = parent) := by
  unfold resetForParent
  cases hlimit : r.limit with
  | none => simp [hlimit]
  | some limit =>
    by_cases hparent : limit.1 = parent
    · simp [hlimit, hparent, Option.filter_some]
    · simp [hparent, Option.filter_some]

@[simp] theorem resetForParent_request (r : L1MessageBuildRecovery) (parent : BlockInfo) :
    (r.resetForParent parent).request = r.request := by
  unfold resetForParent
  split
  · rfl
  · rfl

@[simp] theorem inForce_resetForParent (r : L1MessageBuildRecovery) (head : BlockInfo) :
    (r.resetForParent head).inForce head = r.inForce head := by
  unfold inForce
  rw [resetForParent_limit, Option.filter_filter]
  simp

theorem maxMessages_snd (r : L1MessageBuildRecovery) (parent : BlockInfo) (configured : ℕ) :
    (r.maxMessages parent configured).2 =
      (r.inForce parent).elim configured (min configured) := by
  unfold maxMessages inForce
  simp only [resetForParent_limit]
  cases r.limit.filter (fun limit => limit.1 = parent) with
  | none => rfl
  | some limit => rfl

/-- A limit is never zero, and it belongs to the parent of the outstanding request. -/
structure Sound (r : L1MessageBuildRecovery) : Prop where
  positive : ∀ limit ∈ r.limit, 1 ≤ limit.2
  aligned : ∀ request ∈ r.request, ∀ limit ∈ r.limit, request.2.1 = limit.1

variable {r : L1MessageBuildRecovery}

theorem mem_resetForParent_limit {parent : BlockInfo} :
    limit ∈ (r.resetForParent parent).limit ↔ limit ∈ r.limit ∧ limit.1 = parent := by
  rw [resetForParent_limit, Option.mem_def, Option.mem_def, Option.filter_eq_some_iff,
    decide_eq_true_eq]

theorem Sound.resetForParent (h : r.Sound) (parent : BlockInfo) :
    (r.resetForParent parent).Sound where
  positive limit hlimit := h.positive limit (mem_resetForParent_limit.1 hlimit).1
  aligned request hrequest limit hlimit := by
    rw [resetForParent_request] at hrequest
    exact h.aligned request hrequest limit (mem_resetForParent_limit.1 hlimit).1

theorem Sound.cancelRequest (h : r.Sound) : r.cancelRequest.Sound where
  positive := h.positive
  aligned request hrequest := by cases hrequest

theorem Sound.recordRequest (h : r.Sound) (payloadId : PayloadId) (head : BlockInfo) (count : ℕ) :
    ((r.resetForParent head).recordRequest payloadId head count).Sound where
  positive := (h.resetForParent head).positive
  aligned request hrequest limit hlimit := by
    cases hrequest
    exact (mem_resetForParent_limit.1 hlimit).2.symm

theorem resetForParent_limit_cases (r : L1MessageBuildRecovery) (parent : BlockInfo) :
    (r.resetForParent parent).limit = r.limit ∨
      ((r.resetForParent parent).limit = none ∧ ∃ limit ∈ r.limit, limit.1 ≠ parent) := by
  rw [resetForParent_limit]
  cases r.limit with
  | none => exact Or.inl rfl
  | some limit =>
    by_cases hparent : limit.1 = parent
    · exact Or.inl (by simp [Option.filter_some, hparent])
    · exact Or.inr ⟨by simp [Option.filter_some, hparent], limit, rfl, hparent⟩

theorem resetForParent_limit_of_ne {parent : BlockInfo} (hlimit : limit ∈ r.limit)
    (hparent : limit.1 ≠ parent) :
    (r.resetForParent parent).limit = none := by
  rw [resetForParent_limit, Option.mem_def.1 hlimit]
  simp [Option.filter_some, hparent]

theorem recordResult_cases (r : L1MessageBuildRecovery) (payloadId : PayloadId)
    (head : BlockInfo) (succeeded : Bool) :
    (∃ count, r.request = some (payloadId, head, count) ∧
      r.recordResult payloadId head succeeded =
        if succeeded then ⟨none, none⟩
        else if 1 < count then ⟨some (head, count / 2), none⟩
        else (r.resetForParent head).cancelRequest) ∨
    ((∀ count, r.request ≠ some (payloadId, head, count)) ∧
      r.recordResult payloadId head succeeded =
        if r.request.any (fun request => request.1 = payloadId) then
          (r.resetForParent head).cancelRequest
        else r.resetForParent head) := by
  unfold recordResult cancelRequest
  simp only [resetForParent_request]
  rcases hrequest : r.request with _ | ⟨requestId, requestParent, count⟩
  · exact Or.inr ⟨by simp, by simp⟩
  · by_cases hid : requestId = payloadId
    · by_cases hparent : requestParent = head
      · refine Or.inl ⟨count, by rw [hid, hparent], ?_⟩
        simp [hid, hparent]
      · refine Or.inr ⟨?_, by simp [hid, hparent]⟩
        intro other hother
        cases hother
        exact hparent rfl
    · refine Or.inr ⟨?_, by simp [hid]⟩
      intro other hother
      cases hother
      exact hid rfl

theorem recordResult_request (r : L1MessageBuildRecovery) (payloadId : PayloadId)
    (head : BlockInfo) (succeeded : Bool) :
    (r.recordResult payloadId head succeeded).request =
      if r.request.any (fun request => request.1 = payloadId) then none else r.request := by
  rcases r.recordResult_cases payloadId head succeeded with ⟨count, hrequest, heq⟩ | ⟨-, heq⟩
  · have hsame : r.request.any (fun request => request.1 = payloadId) = true := by
      rw [hrequest]
      exact decide_eq_true rfl
    rw [heq, if_pos hsame]
    split
    · rfl
    · split
      · rfl
      · rfl
  · rw [heq]
    split
    · rfl
    · exact r.resetForParent_request head

theorem mem_recordResult_limit {head : BlockInfo} {succeeded : Bool}
    (h : limit ∈ (r.recordResult payloadId head succeeded).limit) : limit.1 = head := by
  rcases r.recordResult_cases payloadId head succeeded with ⟨count, -, heq⟩ | ⟨-, heq⟩
  · rw [heq] at h
    split at h
    · cases h
    · split at h
      · cases h
        rfl
      · exact (mem_resetForParent_limit.1 h).2
  · rw [heq] at h
    split at h
    · exact (mem_resetForParent_limit.1 h).2
    · exact (mem_resetForParent_limit.1 h).2

theorem Sound.recordResult (h : r.Sound) (payloadId : PayloadId) (head : BlockInfo)
    (succeeded : Bool) : (r.recordResult payloadId head succeeded).Sound := by
  have hreset := h.resetForParent head
  rcases r.recordResult_cases payloadId head succeeded with ⟨count, -, heq⟩ | ⟨-, heq⟩
  · rw [heq]
    split
    · exact ⟨fun limit hlimit => (by cases hlimit), fun request hrequest => (by cases hrequest)⟩
    · split
      · refine ⟨fun limit hlimit => ?_, fun request hrequest => (by cases hrequest)⟩
        cases hlimit
        change 1 ≤ count / 2
        omega
      · exact hreset.cancelRequest
  · rw [heq]
    split
    · exact hreset.cancelRequest
    · exact hreset

end L1MessageBuildRecovery

structure BuildState where
  sequencer : Sequencer
  fcs : ForkchoiceState

inductive BuildEvent where
  | start (db : Db) (reply : Reply ForkchoiceUpdated)
  /-- The messages for a new block cannot be read. -/
  | startFails
  | finalize (payloadId : PayloadId) (payload : Reply BuiltPayload)
      (reply : Reply ForkchoiceUpdated)
  | cancel
  | enable
  | disable
  | moveHead (fcs : ForkchoiceState)

variable {e : BuildEvent} {s : BuildState}

namespace BuildState

def initial (config : SequencerConfig) (enabled : Bool) (fcs : ForkchoiceState) : BuildState :=
  ⟨⟨config, enabled, none, ⟨none, none⟩⟩, fcs⟩

def recovery (s : BuildState) : L1MessageBuildRecovery := s.sequencer.l1MessageRecovery

def building (s : BuildState) : PayloadBuildingConfig := s.sequencer.config.payloadBuildingConfig

def step (s : BuildState) : BuildEvent → BuildState
  | .start db reply => { s with sequencer := (s.sequencer.startPayloadBuilding db s.fcs reply).1 }
  | .startFails =>
    { s with sequencer := { s.sequencer with
        l1MessageRecovery :=
          (s.recovery.maxMessages s.fcs.head s.building.maxL1MessagesPerBlock).1 } }
  | .finalize payloadId payload reply =>
    let finalized := s.sequencer.finalizePayloadBuilding s.fcs payloadId payload reply
    ⟨finalized.1, finalized.2.1⟩
  | .cancel => { s with sequencer := s.sequencer.cancelPayloadBuildingJob }
  | .enable => { s with sequencer := s.sequencer.enable }
  | .disable => { s with sequencer := s.sequencer.disable }
  | .moveHead fcs => { s with fcs := fcs }

def maxL1Messages (s : BuildState) : ℕ :=
  (s.recovery.maxMessages s.fcs.head s.building.maxL1MessagesPerBlock).2

def limitInForce (s : BuildState) : Option ℕ := s.recovery.inForce s.fcs.head

def Starts (s : BuildState) (payloadId : PayloadId) : BuildEvent → Prop
  | .start db reply => (s.sequencer.startPayloadBuilding db s.fcs reply).2 = .ok () ∧
      (s.sequencer.startPayloadBuilding db s.fcs reply).1.payloadBuildingJob.map (·.payloadId) =
        some payloadId
  | _ => False

def Builds : BuildEvent → Prop
  | .start _ _ | .startFails | .finalize _ _ _ => True
  | _ => False

/-- The result of the outstanding request, which was made on the current head. -/
def Answers (s : BuildState) (succeeded : Bool) : BuildEvent → Prop
  | .finalize payloadId payload _ =>
    payload.isOk = succeeded ∧
      s.recovery.request.map (fun request => (request.1, request.2.1)) = some (payloadId, s.fcs.head)
  | _ => False

instance (s : BuildState) (succeeded : Bool) (e : BuildEvent) : Decidable (s.Answers succeeded e) :=
  match e with
  | .finalize _ _ _ => inferInstanceAs (Decidable (_ ∧ _))
  | .start _ _ | .startFails | .cancel | .enable | .disable | .moveHead _ =>
    inferInstanceAs (Decidable False)

theorem request_parent_iff {parent : BlockInfo} :
    s.recovery.request.map (fun request => (request.1, request.2.1)) = some (payloadId, parent) ↔
      ∃ count, s.recovery.request = some (payloadId, parent, count) := by
  rcases s.recovery.request with _ | ⟨id, other, count⟩
  · simp
  · simp

theorem finalizePayloadBuilding_fst (s : Sequencer) (fcs : ForkchoiceState)
    (payloadId : PayloadId) (payload : Reply BuiltPayload) (reply : Reply ForkchoiceUpdated) :
    (s.finalizePayloadBuilding fcs payloadId payload reply).1 =
      { s with l1MessageRecovery :=
        s.l1MessageRecovery.recordResult payloadId fcs.head payload.isOk } := by
  unfold Sequencer.finalizePayloadBuilding
  simp only
  split
  · rfl
  · split
    · rfl
    · rfl

theorem start_cases (s : BuildState) (db : Db) (reply : Reply ForkchoiceUpdated) :
    (∃ payloadId offered, s.Starts payloadId (.start db reply) ∧
      db.getNL1Messages (some s.building.l1MessageInclusionMode.toKey) s.maxL1Messages =
        .ok offered ∧
      (s.step (.start db reply)).recovery =
        (s.recovery.resetForParent s.fcs.head).recordRequest payloadId s.fcs.head
          (fittingMessages s.building.blockGasLimit 0 offered).length) ∨
    ((∀ payloadId, ¬ s.Starts payloadId (.start db reply)) ∧
      (s.step (.start db reply)).recovery = s.recovery.resetForParent s.fcs.head) := by
  unfold Starts step recovery
  simp only
  rcases s.sequencer.startPayloadBuilding_cases db s.fcs reply with
    ⟨offered, payloadId, hquery, heq⟩ | ⟨e, heq⟩
  · rw [heq]
    exact Or.inl ⟨payloadId, offered, ⟨rfl, rfl⟩, hquery, rfl⟩
  · rw [heq]
    exact Or.inr ⟨fun payloadId hstarts => (by cases hstarts.1), rfl⟩

theorem finalize_recovery (s : BuildState) (payloadId : PayloadId) (payload : Reply BuiltPayload)
    (reply : Reply ForkchoiceUpdated) :
    (s.step (.finalize payloadId payload reply)).recovery =
      s.recovery.recordResult payloadId s.fcs.head payload.isOk :=
  congrArg Sequencer.l1MessageRecovery
    (finalizePayloadBuilding_fst s.sequencer s.fcs payloadId payload reply)

theorem step_building (s : BuildState) (e : BuildEvent) : (s.step e).building = s.building := by
  cases e with
  | start db reply =>
    unfold step building
    simp only
    rcases s.sequencer.startPayloadBuilding_cases db s.fcs reply with
      ⟨offered, payloadId, -, heq⟩ | ⟨e, heq⟩
    · rw [heq]
    · rw [heq]
  | finalize payloadId payload reply =>
    exact congrArg (fun q => q.config.payloadBuildingConfig)
      (finalizePayloadBuilding_fst s.sequencer s.fcs payloadId payload reply)
  | startFails => rfl
  | cancel => rfl
  | enable => rfl
  | disable => rfl
  | moveHead fcs => rfl

theorem run_building (s : BuildState) (events : List BuildEvent) :
    (run step s events).building = s.building := by
  induction events generalizing s with
  | nil => rfl
  | cons e events ih => exact (ih (s.step e)).trans (s.step_building e)

/-- Every event keeps the recovery sound. -/
theorem step_sound (h : s.recovery.Sound) (e : BuildEvent) : (s.step e).recovery.Sound := by
  cases e with
  | start db reply =>
    rcases s.start_cases db reply with ⟨payloadId, offered, -, -, heq⟩ | ⟨-, heq⟩
    · rw [heq]
      exact h.recordRequest payloadId s.fcs.head _
    · rw [heq]
      exact h.resetForParent s.fcs.head
  | startFails => exact h.resetForParent s.fcs.head
  | finalize payloadId payload reply =>
    rw [finalize_recovery]
    exact h.recordResult payloadId s.fcs.head payload.isOk
  | cancel => exact h.cancelRequest
  | enable => exact h
  | disable => exact h.cancelRequest
  | moveHead fcs => exact h

theorem run_sound (h : s.recovery.Sound) (events : List BuildEvent) :
    (run step s events).recovery.Sound := by
  induction events generalizing s with
  | nil => exact h
  | cons e events ih => exact ih (step_sound h e)

theorem initial_sound (config : SequencerConfig) (enabled : Bool) (fcs : ForkchoiceState) :
    (initial config enabled fcs).recovery.Sound :=
  ⟨fun limit hlimit => (by cases hlimit), fun request hrequest => (by cases hrequest)⟩

theorem step_limit (s : BuildState) (e : BuildEvent) :
    (s.step e).recovery.limit = s.recovery.limit ∨ (∃ succeeded, s.Answers succeeded e) ∨
      (Builds e ∧ (s.step e).recovery.limit = none ∧
        ∃ limit ∈ s.recovery.limit, limit.1 ≠ s.fcs.head) := by
  have hreset := s.recovery.resetForParent_limit_cases s.fcs.head
  cases e with
  | start db reply =>
    rcases s.start_cases db reply with ⟨payloadId, offered, -, -, heq⟩ | ⟨-, heq⟩
    · rw [heq]
      exact hreset.imp_right (fun h => Or.inr ⟨trivial, h⟩)
    · rw [heq]
      exact hreset.imp_right (fun h => Or.inr ⟨trivial, h⟩)
  | startFails => exact hreset.imp_right (fun h => Or.inr ⟨trivial, h⟩)
  | finalize payloadId payload reply =>
    rw [finalize_recovery]
    rcases s.recovery.recordResult_cases payloadId s.fcs.head payload.isOk with
      ⟨count, hrequest, -⟩ | ⟨-, heq⟩
    · exact Or.inr (Or.inl ⟨_, rfl, request_parent_iff.2 ⟨count, hrequest⟩⟩)
    · rw [heq]
      split
      · exact hreset.imp_right (fun h => Or.inr ⟨trivial, h⟩)
      · exact hreset.imp_right (fun h => Or.inr ⟨trivial, h⟩)
  | cancel => exact Or.inl rfl
  | enable => exact Or.inl rfl
  | disable => exact Or.inl rfl
  | moveHead fcs => exact Or.inl rfl

theorem step_limit_of_success (h : s.Answers true e) : (s.step e).recovery.limit = none := by
  cases e with
  | finalize payloadId payload reply =>
    obtain ⟨hok, hanswers⟩ := h
    obtain ⟨count, hrequest⟩ := request_parent_iff.1 hanswers
    rw [finalize_recovery, hok]
    rcases s.recovery.recordResult_cases payloadId s.fcs.head true with ⟨_, -, heq⟩ | ⟨hnone, -⟩
    · rw [heq]
      rfl
    · exact absurd hrequest (hnone count)
  | start db reply => cases h
  | startFails => cases h
  | cancel => cases h
  | enable => cases h
  | disable => cases h
  | moveHead fcs => cases h

theorem step_limit_of_other_head (hsound : s.recovery.Sound) (h : Builds e)
    (hlimit : limit ∈ s.recovery.limit) (hhead : limit.1 ≠ s.fcs.head) :
    (s.step e).recovery.limit = none := by
  have hreset := L1MessageBuildRecovery.resetForParent_limit_of_ne hlimit hhead
  cases e with
  | start db reply =>
    rcases s.start_cases db reply with ⟨payloadId, offered, -, -, heq⟩ | ⟨-, heq⟩
    · rw [heq]
      exact hreset
    · rw [heq]
      exact hreset
  | startFails => exact hreset
  | finalize payloadId payload reply =>
    rw [finalize_recovery]
    rcases s.recovery.recordResult_cases payloadId s.fcs.head payload.isOk with
      ⟨count, hrequest, -⟩ | ⟨-, heq⟩
    · exact absurd (hsound.aligned _ hrequest limit hlimit).symm hhead
    · rw [heq]
      split
      · exact hreset
      · exact hreset
  | cancel => cases h
  | enable => cases h
  | disable => cases h
  | moveHead fcs => cases h

theorem maxL1Messages_eq (s : BuildState) :
    s.maxL1Messages =
      s.limitInForce.elim s.building.maxL1MessagesPerBlock (min s.building.maxL1MessagesPerBlock) :=
  s.recovery.maxMessages_snd s.fcs.head s.building.maxL1MessagesPerBlock

theorem maxL1Messages_of_limit (h : s.recovery.limit = none) :
    s.maxL1Messages = s.building.maxL1MessagesPerBlock := by
  rw [maxL1Messages_eq, limitInForce, L1MessageBuildRecovery.inForce, h]
  rfl

end BuildState

def Db.offerable (db : Db) : L1MessageInclusionMode → List L1MessageEnvelope
  | .blockDepth depth =>
    if depth ≤ db.l1LatestBlock then
      db.notIncludedUpTo (db.l1LatestBlock - depth) db.l1Messages.rows.length
    else []
  | .finalizedWithBlockDepth depth =>
    if depth ≤ db.l1FinalizedBlock then
      db.notIncludedUpTo (db.l1FinalizedBlock - depth) db.l1Messages.rows.length
    else []

theorem Db.getNL1Messages_offerable (db : Db) (mode : L1MessageInclusionMode) (n : ℕ) :
    db.getNL1Messages (some mode.toKey) n = .ok ((db.offerable mode).take n) := by
  have hall : ∀ target, db.notIncludedUpTo target n =
      (db.notIncludedUpTo target db.l1Messages.rows.length).take n := by
    intro target
    unfold notIncludedUpTo messagesFrom
    generalize hp : (fun r : L1MessageRow => decide (r.l1BlockNumber ≤ target ∧
      r.l2BlockNumber = none ∧ r.skipped = false)) = p
    have hlength : (RelationalTable.orderBy L1MessageRow.queueIndex
        (db.l1Messages.select p)).length ≤ db.l1Messages.rows.length := by
      rw [RelationalTable.orderBy, List.length_insertionSort]
      exact List.length_filter_le p db.l1Messages.rows
    rw [List.take_of_length_le hlength, List.map_take]
  cases mode with
  | blockDepth depth =>
    simp only [L1MessageInclusionMode.toKey, getNL1Messages, offerable]
    split
    · rw [hall]
    · rw [List.take_nil]
  | finalizedWithBlockDepth depth =>
    simp only [L1MessageInclusionMode.toKey, getNL1Messages, offerable]
    split
    · rw [hall]
    · rw [List.take_nil]

def halved (q j : ℕ) : ℕ := max 1 (q / 2 ^ j)

theorem halved_succ (q j : ℕ) :
    halved q (j + 1) = if 1 < halved q j then halved q j / 2 else halved q j := by
  have hdiv : q / 2 ^ (j + 1) = q / 2 ^ j / 2 := by
    rw [Nat.pow_succ, Nat.div_div_eq_div_mul]
  unfold halved
  rw [hdiv]
  generalize q / 2 ^ j = r
  split
  · omega
  · omega

namespace L1MessageBuildRecovery

/-- With `m` messages on offer a request on the parent is made for `k`, and the outstanding one
was. -/
structure Requests (r : L1MessageBuildRecovery) (configured : ℕ) (parent : BlockInfo) (m k : ℕ) :
    Prop where
  allowed : min m ((r.inForce parent).elim configured (min configured)) = k
  requested : ∀ payloadId count, r.request = some (payloadId, parent, count) → count = k

section
variable {r : L1MessageBuildRecovery} {configured m k : ℕ} {parent : BlockInfo}

theorem Requests.resetForParent (h : r.Requests configured parent m k) :
    (r.resetForParent parent).Requests configured parent m k := by
  constructor
  · rw [inForce_resetForParent]
    exact h.allowed
  · rw [resetForParent_request]
    exact h.requested

theorem Requests.cancelRequest (h : r.Requests configured parent m k) :
    r.cancelRequest.Requests configured parent m k where
  allowed := h.allowed
  requested _ _ hrequest := by cases hrequest

theorem Requests.recordRequest (h : r.Requests configured parent m k) (payloadId : PayloadId) :
    (r.recordRequest payloadId parent k).Requests configured parent m k where
  allowed := h.allowed
  requested id count hrequest := by
    cases hrequest
    rfl

theorem Requests.recordResult_other (h : r.Requests configured parent m k)
    (hother : ∀ count, r.request ≠ some (payloadId, parent, count)) (succeeded : Bool) :
    (r.recordResult payloadId parent succeeded).Requests configured parent m k := by
  rcases r.recordResult_cases payloadId parent succeeded with ⟨count, hrequest, -⟩ | ⟨-, heq⟩
  · exact absurd hrequest (hother count)
  · rw [heq]
    split
    · exact h.resetForParent.cancelRequest
    · exact h.resetForParent

theorem Requests.recordResult_failed (h : r.Requests configured parent m k) {count : ℕ}
    (hrequest : r.request = some (payloadId, parent, count)) :
    (r.recordResult payloadId parent false).Requests configured parent m
      (if 1 < k then k / 2 else k) := by
  cases h.requested payloadId count hrequest
  rcases r.recordResult_cases payloadId parent false with ⟨other, hsame, heq⟩ | ⟨hother, -⟩
  · cases hrequest.symm.trans hsame
    rw [heq, if_neg Bool.false_ne_true]
    split
    · have hallowed := h.allowed
      have hconfigured : (r.inForce parent).elim configured (min configured) ≤ configured := by
        cases r.inForce parent with
        | none => exact Nat.le_refl configured
        | some n => exact Nat.min_le_left configured n
      refine ⟨?_, fun id n hnext => (by cases hnext)⟩
      have hforce : inForce ⟨some (parent, k / 2), none⟩ parent = some (k / 2) := by
        simp [inForce, Option.filter_some]
      rw [hforce, Option.elim_some]
      omega
    · exact h.resetForParent.cancelRequest
  · exact absurd hrequest (hother k)

end
end L1MessageBuildRecovery

namespace BuildState

def Offers (s : BuildState) (m : ℕ) (db : Db) : Prop :=
  (db.offerable s.building.l1MessageInclusionMode).length = m ∧
    total L1MessageEnvelope.gas (db.offerable s.building.l1MessageInclusionMode) ≤
      s.building.blockGasLimit

/-- Builds on one parent, with `m` messages offered, none of which succeeds. -/
def Fails (parent : BlockInfo) (m : ℕ) (s : BuildState) : BuildEvent → Prop
  | .start db _ => s.fcs.head = parent ∧ s.Offers m db
  | .startFails => s.fcs.head = parent
  | .finalize payloadId payload reply =>
    s.fcs.head = parent ∧ ¬ s.Answers true (.finalize payloadId payload reply)
  | _ => True

def failures (s : BuildState) : List BuildEvent → ℕ
  | [] => 0
  | e :: events => (if s.Answers false e then 1 else 0) + failures (s.step e) events

theorem Offers.fitting_take {m : ℕ} {db : Db} (h : s.Offers m db)
    (hlimit : s.building.blockGasLimit < 2 ^ 64) (n : ℕ) :
    fittingMessages s.building.blockGasLimit 0
        ((db.offerable s.building.l1MessageInclusionMode).take n) =
      (db.offerable s.building.l1MessageInclusionMode).take n := by
  have htotal := total_take_le L1MessageEnvelope.gas n
    (db.offerable s.building.l1MessageInclusionMode)
  have hfits := h.2
  exact fittingMessages_of_total_le hlimit (by omega)

theorem Offers.length_fitting {m : ℕ} {db : Db} (h : s.Offers m db)
    (hlimit : s.building.blockGasLimit < 2 ^ 64) {offered : List L1MessageEnvelope}
    (hoffered : db.getNL1Messages (some s.building.l1MessageInclusionMode.toKey) s.maxL1Messages =
      .ok offered) :
    (fittingMessages s.building.blockGasLimit 0 offered).length = min m s.maxL1Messages := by
  rw [Db.getNL1Messages_offerable] at hoffered
  cases hoffered
  rw [h.fitting_take hlimit, List.length_take, h.1, Nat.min_comm]

theorem step_requests {m : ℕ} {parent : BlockInfo} {k : ℕ}
    (h : s.recovery.Requests s.building.maxL1MessagesPerBlock parent m k)
    (hlimit : s.building.blockGasLimit < 2 ^ 64) (he : s.Fails parent m e) :
    (s.step e).recovery.Requests s.building.maxL1MessagesPerBlock parent m
      (if s.Answers false e then if 1 < k then k / 2 else k else k) := by
  cases e with
  | start db reply =>
    obtain ⟨rfl, hoffers⟩ := he
    change (s.step (.start db reply)).recovery.Requests _ s.fcs.head m k
    rcases s.start_cases db reply with ⟨payloadId, offered, -, hoffered, heq⟩ | ⟨-, heq⟩
    · have hcount : min m s.maxL1Messages = k := by
        rw [maxL1Messages_eq]
        exact h.allowed
      rw [heq, hoffers.length_fitting hlimit hoffered, hcount]
      exact h.resetForParent.recordRequest payloadId
    · rw [heq]
      exact h.resetForParent
  | startFails =>
    cases he
    exact h.resetForParent
  | finalize payloadId payload reply =>
    obtain ⟨rfl, hfails⟩ := he
    rw [finalize_recovery]
    cases hok : payload.isOk with
    | true =>
      have hother : ∀ count, s.recovery.request ≠ some (payloadId, s.fcs.head, count) := by
        intro count hrequest
        exact hfails ⟨hok, request_parent_iff.2 ⟨count, hrequest⟩⟩
      rw [if_neg (fun hanswers => absurd (hok.symm.trans hanswers.1) (by decide))]
      exact h.recordResult_other hother true
    | false =>
      split
      · rename_i hanswers
        obtain ⟨count, hrequest⟩ := request_parent_iff.1 hanswers.2
        exact h.recordResult_failed hrequest
      · rename_i hanswers
        refine h.recordResult_other ?_ false
        intro count hrequest
        exact hanswers ⟨hok, request_parent_iff.2 ⟨count, hrequest⟩⟩
  | cancel => exact h.cancelRequest
  | enable => exact h
  | disable => exact h.cancelRequest
  | moveHead fcs => exact h

theorem run_requests {m : ℕ} {parent : BlockInfo} {q j : ℕ}
    (h : s.recovery.Requests s.building.maxL1MessagesPerBlock parent m (halved q j))
    (hlimit : s.building.blockGasLimit < 2 ^ 64) {events : List BuildEvent}
    (hevents : Meets step (fun s e => s.Fails parent m e) s events) :
    (run step s events).recovery.Requests s.building.maxL1MessagesPerBlock parent m
      (halved q (j + s.failures events)) := by
  induction events generalizing s j with
  | nil => exact h
  | cons e events ih =>
    have hstep := step_requests h hlimit hevents.1
    have hnext : (s.step e).recovery.Requests s.building.maxL1MessagesPerBlock parent m
        (halved q (j + if s.Answers false e then 1 else 0)) := by
      split at hstep
      · rename_i hanswers
        rw [if_pos hanswers, halved_succ]
        exact hstep
      · rename_i hanswers
        rw [if_neg hanswers]
        exact hstep
    rw [← s.step_building e] at hnext hlimit ⊢
    have htail := ih hnext hlimit hevents.2
    rw [Nat.add_assoc] at htail
    exact htail

theorem step_limit_head (h : limit ∈ (s.step e).recovery.limit) :
    limit ∈ s.recovery.limit ∨ limit.1 = s.fcs.head := by
  rcases s.step_limit e with heq | ⟨succeeded, hanswers⟩ | ⟨-, hnone, -⟩
  · rw [heq] at h
    exact Or.inl h
  · cases e with
    | finalize payloadId payload reply =>
      rw [finalize_recovery] at h
      exact Or.inr (L1MessageBuildRecovery.mem_recordResult_limit h)
    | start db reply => cases hanswers
    | startFails => cases hanswers
    | cancel => cases hanswers
    | enable => cases hanswers
    | disable => cases hanswers
    | moveHead fcs => cases hanswers
  · rw [hnone] at h
    cases h

theorem inForce_step (he : ∀ succeeded, ¬ s.Answers succeeded e) :
    (s.step e).recovery.inForce s.fcs.head = s.limitInForce := by
  unfold limitInForce L1MessageBuildRecovery.inForce
  rcases s.step_limit e with heq | ⟨succeeded, hanswers⟩ | ⟨-, hnone, limit, hlimit, hhead⟩
  · rw [heq]
  · exact absurd hanswers (he succeeded)
  · rw [hnone, Option.mem_def.1 hlimit, Option.filter_some, if_neg (by simpa using hhead)]
    rfl

/-- Something that ends the request with the given id: its result, a cancellation, or a later
request. -/
def Ends (s : BuildState) (payloadId : PayloadId) : BuildEvent → Prop
  | .start db reply => ∃ other, s.Starts other (.start db reply)
  | .finalize other _ _ => other = payloadId
  | .cancel | .disable => True
  | _ => False

/-- The latest request that was answered with an id, with nothing after it that ends it. -/
def Outstanding (s : BuildState) (events : List BuildEvent) (payloadId : PayloadId) : Prop :=
  ∃ before start after, events = before ++ start :: after ∧
    (run step s before).Starts payloadId start ∧
    Meets step (fun t e => ¬ t.Ends payloadId e) ((run step s before).step start) after

theorem outstanding_concat (s : BuildState) (events : List BuildEvent) (e : BuildEvent)
    (payloadId : PayloadId) :
    s.Outstanding (events ++ [e]) payloadId ↔
      (run step s events).Starts payloadId e ∨
        s.Outstanding events payloadId ∧ ¬ (run step s events).Ends payloadId e := by
  constructor
  · rintro ⟨before, start, after, hsplit, hstarts, hafter⟩
    rcases List.eq_nil_or_concat after with rfl | ⟨init, last, rfl⟩
    · obtain ⟨rfl, hlast⟩ := List.append_inj' hsplit rfl
      cases hlast
      exact Or.inl hstarts
    · rw [List.concat_eq_append] at hsplit hafter
      rw [← List.cons_append, ← List.append_assoc] at hsplit
      obtain ⟨rfl, hlast⟩ := List.append_inj' hsplit rfl
      cases hlast
      obtain ⟨hinit, hends⟩ := (meets_append step _ _ init [e]).1 hafter
      refine Or.inr ⟨⟨before, start, init, rfl, hstarts, hinit⟩, ?_⟩
      rw [run_append]
      exact hends.1
  · rintro (hstarts | ⟨⟨before, start, after, rfl, hstarts, hafter⟩, hends⟩)
    · exact ⟨events, e, [], rfl, hstarts, trivial⟩
    · refine ⟨before, start, after ++ [e], by simp, hstarts, (meets_append step _ _ _ _).2 ?_⟩
      rw [run_append] at hends
      exact ⟨hafter, hends, trivial⟩

def requestId (s : BuildState) : Option PayloadId := s.recovery.request.map (·.1)

theorem step_requestId (s : BuildState) (e : BuildEvent) (payloadId : PayloadId) :
    (s.step e).requestId = some payloadId ↔
      s.Starts payloadId e ∨ s.requestId = some payloadId ∧ ¬ s.Ends payloadId e := by
  cases e with
  | start db reply =>
    unfold requestId
    rcases s.start_cases db reply with ⟨id, offered, hstarts, -, heq⟩ | ⟨hnone, heq⟩
    · have hends : s.Ends payloadId (.start db reply) := ⟨id, hstarts⟩
      rw [heq]
      change some id = some payloadId ↔ _
      constructor
      · intro hid
        cases hid
        exact Or.inl hstarts
      · rintro (hother | ⟨-, hnot⟩)
        · exact hstarts.2.symm.trans hother.2
        · exact absurd hends hnot
    · have hends : ¬ s.Ends payloadId (.start db reply) := fun ⟨id, hstarts⟩ => hnone id hstarts
      rw [heq, L1MessageBuildRecovery.resetForParent_request]
      constructor
      · intro hid
        exact Or.inr ⟨hid, hends⟩
      · rintro (hstarts | ⟨hid, -⟩)
        · exact absurd hstarts (hnone payloadId)
        · exact hid
  | startFails =>
    have hsame : (s.step .startFails).requestId = s.requestId :=
      congrArg (Option.map _) (s.recovery.resetForParent_request s.fcs.head)
    rw [hsame]
    simp [Starts, Ends]
  | finalize other payload reply =>
    unfold requestId
    rw [finalize_recovery, L1MessageBuildRecovery.recordResult_request]
    simp only [Starts, Ends, false_or]
    rcases s.recovery.request with _ | ⟨id, parent, count⟩
    · simp
    · by_cases hid : id = other
      · rw [if_pos (by simp [hid])]
        simp only [Option.map_none, reduceCtorEq, Option.map_some, Option.some.injEq, false_iff,
          not_and, not_not]
        intro hother
        exact hid.symm.trans hother
      · rw [if_neg (by simp [hid])]
        simp only [Option.map_some, Option.some.injEq, iff_self_and]
        rintro rfl hother
        exact hid hother.symm
  | cancel => exact iff_of_false (fun h => (by cases h)) (by simp [Starts, Ends])
  | enable => exact ⟨fun h => Or.inr ⟨h, id⟩, fun h => h.elim False.elim And.left⟩
  | disable => exact iff_of_false (fun h => (by cases h)) (by simp [Starts, Ends])
  | moveHead fcs => exact ⟨fun h => Or.inr ⟨h, id⟩, fun h => h.elim False.elim And.left⟩

theorem requestId_iff_outstanding (config : SequencerConfig) (enabled : Bool)
    (fcs : ForkchoiceState) (events : List BuildEvent) (payloadId : PayloadId) :
    (run step (initial config enabled fcs) events).requestId = some payloadId ↔
      (initial config enabled fcs).Outstanding events payloadId := by
  induction events using List.reverseRecOn with
  | nil =>
    refine iff_of_false (fun h => (by cases h)) ?_
    rintro ⟨before, start, after, hsplit, -⟩
    exact absurd hsplit (by simp)
  | append_singleton events e ih =>
    rw [outstanding_concat, run_append, ← ih]
    exact step_requestId _ e payloadId

/-- The start succeeds: a job on the head for the first `k` messages on offer, recorded as a request
for `k`. -/
def Requested (s : BuildState) (db : Db) (fcu : ForkchoiceUpdated) (payloadId : PayloadId)
    (k : ℕ) : Prop :=
  ∃ started job, s.sequencer.startPayloadBuilding db s.fcs (.ok fcu) = (started, .ok ()) ∧
    started.payloadBuildingJob = some job ∧ job.parent = s.fcs.head ∧ job.payloadId = payloadId ∧
    job.messages = (db.offerable s.building.l1MessageInclusionMode).take k ∧
    job.messages.length = k ∧
    started.l1MessageRecovery.request = some (payloadId, s.fcs.head, k)

/-- What the recovery from failed payloads guarantees in a state. -/
structure MakesProgress (s : BuildState) : Prop where
  limit_positive : ∀ n, s.limitInForce = some n → 1 ≤ n
  limit_applies : s.maxL1Messages =
    s.limitInForce.elim s.building.maxL1MessagesPerBlock (min s.building.maxL1MessagesPerBlock)
  limit_recorded : ∀ e, ∀ limit ∈ (s.step e).recovery.limit,
    limit ∈ s.recovery.limit ∨ limit.1 = s.fcs.head
  /-- The limit in force on the head only changes through the result of the outstanding request. -/
  in_force_changes : ∀ e, (s.step e).recovery.inForce s.fcs.head ≠ s.limitInForce →
    ∃ succeeded, s.Answers succeeded e
  /-- So does the recorded limit, except that a build on another head drops it. -/
  limit_changes : ∀ e, (s.step e).recovery.limit ≠ s.recovery.limit →
    (∃ succeeded, s.Answers succeeded e) ∨
      (Builds e ∧ (s.step e).recovery.limit = none ∧
        ∃ limit ∈ s.recovery.limit, limit.1 ≠ s.fcs.head)
  /-- From no limit in force, builds that fail on this parent are halved down to one message: any
  start the Engine answers with a payload id requests the first messages of the queue, that many. -/
  halves : ∀ m, 1 ≤ m → 1 ≤ s.building.maxL1MessagesPerBlock →
    s.building.blockGasLimit < 2 ^ 64 → s.limitInForce = none →
    (∀ payloadId count, s.recovery.request = some (payloadId, s.fcs.head, count) →
      count = min m s.building.maxL1MessagesPerBlock) →
    ∀ later db fcu payloadId,
      Meets step (fun t e => t.Fails s.fcs.head m e) s later →
      (run step s later).fcs.head = s.fcs.head → (run step s later).Offers m db →
      fcu.payloadId = some payloadId →
      (run step s later).Requested db fcu payloadId
        (max 1 (min m s.building.maxL1MessagesPerBlock / 2 ^ s.failures later))
  restored_by_success : ∀ e, s.Answers true e →
    (s.step e).maxL1Messages = s.building.maxL1MessagesPerBlock
  restored_by_other_head : ∀ e, Builds e → (∃ limit ∈ s.recovery.limit, limit.1 ≠ s.fcs.head) →
    (s.step e).maxL1Messages = s.building.maxL1MessagesPerBlock

theorem requested_of_payloadId {m k : ℕ} {db : Db} {fcu : ForkchoiceUpdated}
    (h : s.recovery.Requests s.building.maxL1MessagesPerBlock s.fcs.head m k)
    (hlimit : s.building.blockGasLimit < 2 ^ 64) (hoffers : s.Offers m db)
    (hid : fcu.payloadId = some payloadId) : s.Requested db fcu payloadId k := by
  have hread := db.getNL1Messages_offerable s.building.l1MessageInclusionMode s.maxL1Messages
  have hcount : min m s.maxL1Messages = k := by
    rw [maxL1Messages_eq]
    exact h.allowed
  have htake : (db.offerable s.building.l1MessageInclusionMode).take s.maxL1Messages =
      (db.offerable s.building.l1MessageInclusionMode).take k := by
    rw [← hcount, ← hoffers.1, Nat.min_comm, ← List.take_eq_take_min]
  have hlength := (hoffers.length_fitting hlimit hread).trans hcount
  have hstart := s.sequencer.startPayloadBuilding_of_payloadId s.fcs hread hid
  refine ⟨_, _, hstart, rfl, rfl, rfl, ?_, hlength, ?_⟩
  · exact (hoffers.fitting_take hlimit s.maxL1Messages).trans htake
  · exact congrArg (fun k => some (payloadId, s.fcs.head, k)) hlength

theorem MakesProgress.of_sound (hsound : s.recovery.Sound) : s.MakesProgress where
  limit_positive n hn := by
    obtain ⟨limit, hlimit, rfl⟩ := Option.map_eq_some_iff.1 hn
    exact hsound.positive limit (Option.filter_eq_some_iff.1 hlimit).1
  limit_applies := s.maxL1Messages_eq
  limit_recorded _ _ := step_limit_head
  in_force_changes e hchanges := by
    by_contra hanswers
    exact hchanges (inForce_step (not_exists.1 hanswers))
  limit_changes e hchanges := (s.step_limit e).resolve_left hchanges
  halves m hm hconfigured hlimit hforce hrequested later db fcu payloadId hlater hhead hoffers
      hid := by
    have hfirst : s.recovery.Requests s.building.maxL1MessagesPerBlock s.fcs.head m
        (halved (min m s.building.maxL1MessagesPerBlock) 0) := by
      have hzero : halved (min m s.building.maxL1MessagesPerBlock) 0 =
          min m s.building.maxL1MessagesPerBlock := by
        unfold halved
        rw [Nat.pow_zero, Nat.div_one]
        omega
      rw [hzero]
      refine ⟨?_, hrequested⟩
      change min m (s.limitInForce.elim _ _) = _
      rw [hforce]
      rfl
    have hrun := run_requests hfirst hlimit hlater
    rw [← hhead, ← s.run_building later, Nat.zero_add] at hrun
    rw [← s.run_building later] at hlimit
    have hrequests := requested_of_payloadId hrun hlimit hoffers hid
    rw [s.run_building later] at hrequests
    exact hrequests
  restored_by_success e he :=
    (maxL1Messages_of_limit (step_limit_of_success he)).trans
      (congrArg PayloadBuildingConfig.maxL1MessagesPerBlock (s.step_building e))
  restored_by_other_head e he hother := by
    obtain ⟨limit, hlimit, hhead⟩ := hother
    rw [maxL1Messages_of_limit (step_limit_of_other_head hsound he hlimit hhead), step_building]

/-- Every state that starts, results, cancellations and moves of the head lead to makes progress,
and the recorded request is the latest outstanding one. -/
theorem recovery_makes_progress (config : SequencerConfig) (enabled : Bool) (fcs : ForkchoiceState)
    (events : List BuildEvent) :
    (run step (initial config enabled fcs) events).MakesProgress ∧
      ∀ payloadId, (run step (initial config enabled fcs) events).requestId = some payloadId ↔
        (initial config enabled fcs).Outstanding events payloadId :=
  ⟨.of_sound (run_sound (initial_sound config enabled fcs) events),
    requestId_iff_outstanding config enabled fcs events⟩

/-- Two messages are requested, the payload cannot be read, and the next start requests the first
one alone. -/
theorem recovery_makes_progress_halved :
    let s := initial tenGasSequencer.config true ⟨⟨0, 7⟩, ⟨0, 7⟩, ⟨0, 7⟩⟩
    let db := twoPending 4 5
    let failed : List BuildEvent := [.start db (.ok ⟨⟨.valid, none⟩, some 3⟩),
      .finalize 3 (.error "unknown payload") (.error "no answer")]
    s.Requested db ⟨⟨.valid, none⟩, some 3⟩ 3 2 ∧ s.failures failed = 1 ∧
      (run step s failed).Requested db ⟨⟨.valid, none⟩, some 4⟩ 4 1 := by
  intro s db failed
  have hoffers : s.Offers 2 db := ⟨by decide, by decide⟩
  have hfailures : s.failures failed = 1 := by decide
  have hprogress := (recovery_makes_progress tenGasSequencer.config true
    ⟨⟨0, 7⟩, ⟨0, 7⟩, ⟨0, 7⟩⟩ []).1
  have hhalves := hprogress.halves 2 (by decide) (by decide) (by decide) rfl
    (fun _ _ h => by cases h)
  have hfails : Meets step (fun t e => t.Fails s.fcs.head 2 e) s failed :=
    ⟨⟨rfl, hoffers⟩, ⟨rfl, fun h => by cases h.1⟩, trivial⟩
  have hfirst := hhalves [] db ⟨⟨.valid, none⟩, some 3⟩ 3 trivial rfl hoffers rfl
  have hsecond := hhalves failed db ⟨⟨.valid, none⟩, some 4⟩ 4 hfails rfl hoffers rfl
  rw [show (run step s []).failures failed = 1 from hfailures] at hsecond
  exact ⟨hfirst, hfailures, hsecond⟩

end BuildState
end RollupNode
