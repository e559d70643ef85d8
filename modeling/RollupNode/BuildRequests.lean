import RollupNode.SequencedHead

set_option autoImplicit false

/-! Requests for a block, and the block source that waits for their answer. -/
namespace RollupNode
open GuardedRuns ExceptTraversal

/-! ### The job after a turn -/

namespace Faulty

theorem handleL1Reorg_isSome_job (node : Node) (faults : Faults) (n : ℕ) (client : L2Client)
    (reply : Reply ForkchoiceUpdated) :
    (handleL1Reorg node faults n client reply).1.job.isSome ↔
      node.job.isSome ∧ (faults 0 = none → ¬ node.ReorgDropsJob n client) := by
  unfold handleL1Reorg
  cases faults 0 with
  | none =>
    obtain ⟨hdropped, hkept⟩ := node.handleL1Reorg_job n client reply
    simp only [forall_true_left, Node.transact]
    by_cases hdrops : node.ReorgDropsJob n client
    · simp [hdropped hdrops, hdrops]
    · simp [hkept hdrops, hdrops]
  | some e => simp [Node.transact, Node.job]

theorem buildBlock_isSome_job (node : Node) (fault : Option DatabaseError)
    (reply : Reply ForkchoiceUpdated) :
    (buildBlock node fault reply).1.job.isSome ↔ node.sequencer.isSome ∧
      (node.job.any (fun job => job.parent = node.fcs.head) ∨
        fault = none ∧ (answeredId reply).isSome) := by
  unfold buildBlock
  cases hsequencer : node.sequencer with
  | none => simp [Node.job, hsequencer]
  | some s =>
    rw [Node.job_of_sequencer hsequencer]
    by_cases hcoalesce : s.payloadBuildingJob.any (fun job => job.parent = node.fcs.head) = true
    · simp only [hcoalesce, if_true, Option.isSome_some, true_or, and_true, iff_true]
      rw [Node.job_of_sequencer hsequencer]
      cases hjob : s.payloadBuildingJob with
      | none =>
        rw [hjob] at hcoalesce
        cases hcoalesce
      | some job => rfl
    · simp only [hcoalesce, if_false, Option.isSome_some, Bool.false_eq_true, false_or, true_and]
      cases fault with
      | some e => simp [startPayloadBuilding, Node.job, Sequencer.cancelPayloadBuildingJob]
      | none =>
        have hstarted := s.cancelPayloadBuildingJob.startPayloadBuilding_job node.db node.fcs reply
        simp only [true_and]
        cases hid : answeredId reply with
        | none =>
          rw [hid] at hstarted
          have hjob : (node.startPayloadBuilding s.cancelPayloadBuildingJob reply).1.job = none :=
            hstarted
          simp [startPayloadBuilding, hjob]
        | some id =>
          rw [hid] at hstarted
          obtain ⟨job, hstarted, -⟩ := hstarted
          have hjob : (node.startPayloadBuilding s.cancelPayloadBuildingJob reply).1.job =
              some job := hstarted
          simp [startPayloadBuilding, hjob]

theorem payloadReady_job (config : ChainOrchestratorConfig) (faults : Faults) (node : Node)
    (payload : Reply BuiltPayload) (reply : Reply ForkchoiceUpdated) :
    (takeBranch config faults node (.payloadReady payload reply)).node.job = none := by
  simp only [takeBranch]
  cases hjob : node.job with
  | none => exact hjob
  | some job =>
    have hready := handlePayloadReady_frame node.takeJob (faults 0) job.payloadId payload reply
    exact hready.1.trans node.takeJob_job

end Faulty

/-! ### Requests and their outcomes -/

structure ServedTurn extends Turn where
  signerOpen : Bool

def Branch.isBuildBlock : Branch → Bool
  | .command (.buildBlock _) => true
  | _ => false

theorem Branch.isBuildBlock_of_not_handlesJob {branch : Branch} (h : ¬ branch.HandlesJob) :
    branch.isBuildBlock = false := by
  unfold isBuildBlock
  split
  · exact absurd trivial h
  · rfl

/-- The outcome that a branch announces. A block that cannot be recorded or handed to the signer
is an error that is only logged. -/
def Node.announced (node : Node) (t : ServedTurn) : Option BuildOutcome :=
  match t.branch, node.job with
  | .payloadReady payload reply, some job =>
    match (Faulty.handlePayloadReady node.takeJob (t.faults 0) job.payloadId payload reply).2 with
    | .ok (.blockSequenced block) => if t.signerOpen then some (.blockSequenced block) else none
    | .ok .blockBuildingSkipped => some .blockBuildingSkipped
    | .error _ => none
  | _, _ => none

structure BuildRequests where
  loop : Processed
  waiting : Bool

namespace BuildRequests

def step (config : ChainOrchestratorConfig) (s : BuildRequests) (t : ServedTurn) :
    BuildRequests :=
  if s.loop.takes t.branch then
    { loop := s.loop.turn config t.toTurn
      waiting := t.branch.isBuildBlock || (s.waiting && (s.loop.node.announced t).isNone) }
  else s

def Answered (s : BuildRequests) : Prop :=
  s.loop.stopped = false → s.waiting = true → s.loop.node.job.isSome = true

instance (s : BuildRequests) : Decidable s.Answered :=
  inferInstanceAs (Decidable (_ → _ → _))

/-- What a turn after which the loop still runs has to find: a request is coalesced or starts a
job; while somebody waits, sequencing is not disabled, a reorg does not drop the job, and a block
that is built can be recorded and signed. -/
def Serves (config : ChainOrchestratorConfig) (s : BuildRequests) (t : ServedTurn) : Prop :=
  s.loop.takes t.branch = true → (s.loop.turn config t.toTurn).stopped = false →
    match t.branch with
    | .command (.buildBlock reply) => s.loop.node.sequencer.isSome ∧
        (s.loop.node.job.any (fun job => job.parent = s.loop.node.fcs.head) ∨
          t.faults 0 = none ∧ (answeredId reply).isSome)
    | .command .disableAutomaticSequencing => s.waiting = false
    | .notification (.reorg n) client _ _ =>
      s.waiting = true → t.faults 0 = none → ¬ s.loop.node.ReorgDropsJob n client
    | .payloadReady _ _ =>
      s.waiting = true → ∀ block ∈ s.loop.node.finalizedBlock t.branch, t.faults 0 = none ∧
        (s.loop.node.db.updateL1MessagesFromL2Blocks [block.withL1Messages]).isOk ∧
        t.signerOpen = true
    | _ => True

theorem handlePayloadReady_outcome {node : Node} {s : Sequencer} (hsequencer : node.sequencer = some s)
    (fault : Option DatabaseError) (id : PayloadId) (payload : Reply BuiltPayload)
    (reply : Reply ForkchoiceUpdated) :
    (Faulty.handlePayloadReady node fault id payload reply).2 =
      match (s.finalizePayloadBuilding node.fcs id payload reply).2.2 with
      | .error (.invalidPayload block latestValidHash validationError) =>
        .error (SequencerError.invalidPayload block latestValidHash validationError).toHalt
      | .error _ => .ok .blockBuildingSkipped
      | .ok none => .ok .blockBuildingSkipped
      | .ok (some block) =>
        match Db.call fault (node.db.updateL1MessagesFromL2Blocks [block.withL1Messages]) with
        | .error e => .error e.toHalt
        | .ok _ => .ok (.blockSequenced block) := by
  unfold Faulty.handlePayloadReady
  simp only [hsequencer]
  generalize s.finalizePayloadBuilding node.fcs id payload reply = finalized
  obtain ⟨s', fcs', result⟩ := finalized
  cases result with
  | error e => cases e <;> rfl
  | ok finalized =>
    cases finalized with
    | none => rfl
    | some block =>
      simp only
      cases Db.call fault (node.db.updateL1MessagesFromL2Blocks [block.withL1Messages]) with
      | error e => rfl
      | ok db => rfl

theorem announced_isSome_iff {config : ChainOrchestratorConfig} {node : Node} {t : ServedTurn}
    {payload : Reply BuiltPayload} {reply : Reply ForkchoiceUpdated}
    (hbranch : t.branch = .payloadReady payload reply) (hjob : node.job.isSome = true)
    (hrun : (Faulty.takeBranch config t.faults node t.branch).stopped = false) :
    (node.announced t).isSome = true ↔ ∀ block ∈ node.finalizedBlock t.branch, t.faults 0 = none ∧
      (node.db.updateL1MessagesFromL2Blocks [block.withL1Messages]).isOk ∧ t.signerOpen = true := by
  obtain ⟨job, hjob⟩ := Option.isSome_iff_exists.1 hjob
  obtain ⟨s, hsequencer⟩ : ∃ s, node.takeJob.sequencer = some s := by
    unfold Node.job at hjob
    cases hnode : node.sequencer with
    | none =>
      rw [hnode] at hjob
      cases hjob
    | some s => exact ⟨{ s with payloadBuildingJob := none }, by simp [Node.takeJob, hnode]⟩
  have houtcome := handlePayloadReady_outcome hsequencer (t.faults 0) job.payloadId payload reply
  have hfinal : node.finalizedBlock t.branch =
      (s.finalizePayloadBuilding node.takeJob.fcs job.payloadId payload reply).2.2.toOption.join := by
    rw [hbranch, Node.finalizedBlock, hsequencer, hjob]
    rfl
  simp only [hbranch, Faulty.takeBranch, hjob, Processed.ofPayloadReady] at hrun
  simp only [Node.announced, hbranch, hjob]
  rw [← hbranch, hfinal]
  rw [houtcome] at hrun ⊢
  generalize (s.finalizePayloadBuilding node.takeJob.fcs job.payloadId payload reply).2.2 = result
    at hrun ⊢
  cases result with
  | error e =>
    cases e with
    | invalidPayload block latestValidHash validationError => cases hrun
    | _ => simp [Except.toOption]
  | ok finalized =>
    cases finalized with
    | none => simp [Except.toOption]
    | some block =>
      have hdb : node.takeJob.db = node.db := rfl
      simp only [hdb, Except.toOption, Option.join_some, Option.mem_some_iff, forall_eq']
      cases t.faults 0 with
      | some e => simp [Db.call]
      | none =>
        cases node.db.updateL1MessagesFromL2Blocks [block.withL1Messages] with
        | error e => simp [Db.call, Except.isOk, Except.toBool]
        | ok db => simp [Db.call, Except.isOk, Except.toBool]

theorem not_stopped_of_takes {loop : Processed} {branch : Branch} (h : loop.takes branch = true) :
    loop.stopped = false := by
  rw [Processed.takes, Bool.and_eq_true, Bool.not_eq_true'] at h
  exact h.1

def AnsweredAfter (config : ChainOrchestratorConfig) (s : BuildRequests) (t : ServedTurn) : Prop :=
  (t.branch.isBuildBlock || (s.waiting && (s.loop.node.announced t).isNone)) = true →
    (Faulty.takeBranch config t.faults s.loop.node t.branch).node.job.isSome = true

theorem answeredAfter_buildBlock_iff (config : ChainOrchestratorConfig) {s : BuildRequests}
    {t : ServedTurn} {reply : Reply ForkchoiceUpdated}
    (hbranch : t.branch = .command (.buildBlock reply)) :
    s.AnsweredAfter config t ↔ s.loop.node.sequencer.isSome ∧
      (s.loop.node.job.any (fun job => job.parent = s.loop.node.fcs.head) ∨
        t.faults 0 = none ∧ (answeredId reply).isSome) := by
  simp only [AnsweredAfter, hbranch, Branch.isBuildBlock, Bool.true_or, forall_true_left]
  exact Faulty.buildBlock_isSome_job s.loop.node (t.faults 0) reply

/-- Only a payload that is ready ends the wait of a request that is not new. -/
theorem answeredAfter_iff_of_silent (config : ChainOrchestratorConfig) {s : BuildRequests}
    {t : ServedTurn} (hbuild : t.branch.isBuildBlock = false)
    (hready : ∀ payload reply, t.branch ≠ .payloadReady payload reply) :
    s.AnsweredAfter config t ↔ (s.waiting = true →
      (Faulty.takeBranch config t.faults s.loop.node t.branch).node.job.isSome = true) := by
  have hsilent : s.loop.node.announced t = none := by
    unfold Node.announced
    split
    · rename_i hbranch _
      exact absurd hbranch (hready _ _)
    · rfl
  rw [AnsweredAfter, hbuild, hsilent, Bool.false_or, Option.isNone_none, Bool.and_true]

theorem answeredAfter_of_not_handlesJob (config : ChainOrchestratorConfig) {s : BuildRequests}
    {t : ServedTurn} (hwaits : s.waiting = true → s.loop.node.job.isSome = true)
    (hother : ¬ t.branch.HandlesJob) : s.AnsweredAfter config t := by
  refine (answeredAfter_iff_of_silent config (Branch.isBuildBlock_of_not_handlesJob hother) ?_).2 ?_
  · intro payload reply hbranch
    exact hother (hbranch ▸ trivial)
  · rw [Faulty.takeBranch_job hother]
    exact hwaits

theorem answeredAfter_disable_iff (config : ChainOrchestratorConfig) {s : BuildRequests}
    {t : ServedTurn} (hbranch : t.branch = .command .disableAutomaticSequencing) :
    s.AnsweredAfter config t ↔ s.waiting = false := by
  have hnone : (Faulty.takeBranch config t.faults s.loop.node t.branch).node.job = none := by
    rw [hbranch]
    change Node.job { s.loop.node with sequencer := s.loop.node.sequencer.map _ } = none
    unfold Node.job
    cases s.loop.node.sequencer with
    | none => rfl
    | some sequencer => rfl
  rw [answeredAfter_iff_of_silent config (by rw [hbranch]; rfl) (by simp [hbranch]), hnone]
  simp

/-- A slot is announced only when no job is in flight, so that nobody waits. -/
theorem answeredAfter_newSlot (config : ChainOrchestratorConfig) {s : BuildRequests}
    {t : ServedTurn} {shouldSequenceBlock : Bool} {reply : Reply ForkchoiceUpdated}
    (hwaits : s.waiting = true → s.loop.node.job.isSome = true)
    (hbranch : t.branch = .newSlot shouldSequenceBlock reply)
    (htakes : s.loop.takes t.branch = true) : s.AnsweredAfter config t := by
  refine (answeredAfter_iff_of_silent config (by rw [hbranch]; rfl) (by simp [hbranch])).2 ?_
  intro hwaiting
  have hjob := hwaits hwaiting
  rw [hbranch, Processed.takes, Node.selects] at htakes
  simp only [Bool.and_eq_true, Option.isNone_iff_eq_none] at htakes
  rw [htakes.2.2] at hjob
  cases hjob

theorem answeredAfter_payloadReady_iff {config : ChainOrchestratorConfig} {s : BuildRequests}
    {t : ServedTurn} {payload : Reply BuiltPayload} {reply : Reply ForkchoiceUpdated}
    (hbranch : t.branch = .payloadReady payload reply) (htakes : s.loop.takes t.branch = true)
    (hrun : (Faulty.takeBranch config t.faults s.loop.node t.branch).stopped = false) :
    s.AnsweredAfter config t ↔ (s.waiting = true →
      ∀ block ∈ s.loop.node.finalizedBlock t.branch, t.faults 0 = none ∧
        (s.loop.node.db.updateL1MessagesFromL2Blocks [block.withL1Messages]).isOk ∧
        t.signerOpen = true) := by
  have hjob : s.loop.node.job.isSome = true := by
    rw [hbranch, Processed.takes, Node.selects] at htakes
    simp only [Bool.and_eq_true] at htakes
    exact htakes.2.2
  have hnone : (Faulty.takeBranch config t.faults s.loop.node t.branch).node.job = none := by
    rw [hbranch, Faulty.payloadReady_job]
  have hbuild : t.branch.isBuildBlock = false := by rw [hbranch]; rfl
  rw [← announced_isSome_iff hbranch hjob hrun, AnsweredAfter, hnone, hbuild]
  simp [Option.isSome_iff_ne_none]

theorem answeredAfter_reorg_iff (config : ChainOrchestratorConfig) {s : BuildRequests}
    {t : ServedTurn} {n : ℕ} {client : L2Client} {reply : Reply ForkchoiceUpdated}
    {retried : Option PeerImport} (hwaits : s.waiting = true → s.loop.node.job.isSome = true)
    (hbranch : t.branch = .notification (.reorg n) client reply retried) :
    s.AnsweredAfter config t ↔
      (s.waiting = true → t.faults 0 = none → ¬ s.loop.node.ReorgDropsJob n client) := by
  have hafter : (Faulty.takeBranch config t.faults s.loop.node t.branch).node =
      (Faulty.handleL1Reorg s.loop.node t.faults n client reply).1 := by
    rw [hbranch]
    rfl
  rw [answeredAfter_iff_of_silent config (by rw [hbranch]; rfl) (by simp [hbranch]), hafter,
    Faulty.handleL1Reorg_isSome_job]
  exact forall_congr' fun hwaiting => and_iff_right (hwaits hwaiting)

/-- A turn leaves no request without an answer exactly when it serves them. -/
theorem answered_step_iff (config : ChainOrchestratorConfig) {s : BuildRequests} (h : s.Answered)
    (t : ServedTurn) : (step config s t).Answered ↔ Serves config s t := by
  by_cases htakes : s.loop.takes t.branch = true
  swap
  · rw [step, if_neg htakes]
    exact iff_of_true h (fun htaken => absurd htaken htakes)
  have hturn : s.loop.turn config t.toTurn =
      Faulty.takeBranch config t.faults s.loop.node t.branch := if_pos htakes
  have hwaits : s.waiting = true → s.loop.node.job.isSome = true :=
    h (not_stopped_of_takes htakes)
  rw [step, if_pos htakes]
  simp only [Answered, Serves, htakes, forall_true_left, hturn]
  refine forall_congr' fun hrun => ?_
  change s.AnsweredAfter config t ↔ _
  split
  · exact answeredAfter_buildBlock_iff config ‹_›
  · exact answeredAfter_disable_iff config ‹_›
  · exact answeredAfter_reorg_iff config hwaits ‹_›
  · exact answeredAfter_payloadReady_iff ‹_› htakes hrun
  · -- of the branches that handle the job, only a slot asks for nothing
    rename_i hbuild hdisable hreorg hready
    refine iff_of_true ?_ trivial
    by_cases hhandles : t.branch.HandlesJob
    · unfold Branch.HandlesJob at hhandles
      split at hhandles
      · exact absurd ‹_› (hbuild _)
      · exact absurd ‹_› hdisable
      · exact answeredAfter_newSlot config hwaits ‹_› htakes
      · exact absurd ‹_› (hready _ _)
      · exact absurd ‹_› (hreorg _ _ _ _)
      · exact hhandles.elim
    · exact answeredAfter_of_not_handlesJob config hwaits hhandles

/-- In any run of the loop, who waits always has a job to wait for exactly when every turn finds
what it needs. -/
theorem answered_iff_serves (config : ChainOrchestratorConfig) (loop : Processed)
    (turns : List ServedTurn) :
    (∀ done rest, turns = done ++ rest → (run (step config) ⟨loop, false⟩ done).Answered) ↔
      Meets (step config) (Serves config) ⟨loop, false⟩ turns := by
  have hstart : Answered ⟨loop, false⟩ := fun _ hwaiting => by cases hwaiting
  refine (meets_iff_forall_run (step config) Answered (fun _ => True) ?_ trivial hstart
    (meets_true (step config) _ turns)).symm
  intro s t _ hs _
  exact ⟨trivial, answered_step_iff config hs t⟩

end BuildRequests

/-! ### Requests that nobody answers -/

def served (branch : Branch) : ServedTurn := ⟨⟨branch, noFaults⟩, true⟩

/-- A request that the Engine turns down, and one whose job has messages of L1 block 10 when the
chain goes back to block 9: in both the source waits on, and there is no job. -/
theorem requests_without_answer :
    ¬ (run (BuildRequests.step sampleConfig) ⟨syncedSequencer, false⟩
        [served (.command (.buildBlock (.error "connection refused")))]).Answered ∧
      ¬ (run (BuildRequests.step sampleConfig) ⟨syncedSequencer, false⟩
        ((jobOfTwoBlocks ++ [notified (.reorg 9)]).map served)).Answered := by
  decide

end RollupNode
