import RollupNode.PayloadJobs

set_option autoImplicit false

/-! A sequenced block becomes the head when it is ready, wherever the head is by then. -/
namespace RollupNode
open GuardedRuns

def answeredId : Reply ForkchoiceUpdated → Option PayloadId
  | .ok response => response.payloadId
  | .error _ => none

namespace Sequencer

theorem getNL1Messages_toKey (db : Db) (mode : L1MessageInclusionMode) (n : ℕ) :
    ∃ offered, db.getNL1Messages (some mode.toKey) n = .ok offered := by
  cases mode with
  | blockDepth depth =>
    change ∃ offered, (if depth ≤ db.l1LatestBlock then _ else _) = Except.ok offered
    split
    · exact ⟨_, rfl⟩
    · exact ⟨_, rfl⟩
  | finalizedWithBlockDepth depth =>
    change ∃ offered, (if depth ≤ db.l1FinalizedBlock then _ else _) = Except.ok offered
    split
    · exact ⟨_, rfl⟩
    · exact ⟨_, rfl⟩

theorem startPayloadBuilding_job (s : Sequencer) (db : Db) (fcs : ForkchoiceState)
    (reply : Reply ForkchoiceUpdated) :
    match answeredId reply with
    | some id => ∃ job, (s.startPayloadBuilding db fcs reply).1.payloadBuildingJob = some job ∧
        job.parent = fcs.head ∧ job.payloadId = id
    | none => (s.startPayloadBuilding db fcs reply).1.payloadBuildingJob = s.payloadBuildingJob := by
  obtain ⟨offered, hoffered⟩ := getNL1Messages_toKey db
    s.config.payloadBuildingConfig.l1MessageInclusionMode
    (s.l1MessageRecovery.maxMessages fcs.head
      s.config.payloadBuildingConfig.maxL1MessagesPerBlock).2
  unfold startPayloadBuilding
  simp only [hoffered]
  cases reply with
  | error message => rfl
  | ok response =>
    have hbuild : fcs.buildPayload none (.ok response) = .ok response := rfl
    simp only [hbuild, answeredId]
    cases hid : response.payloadId with
    | none => rfl
    | some id => exact ⟨_, rfl, rfl, rfl⟩

theorem finalizePayloadBuilding_block {s : Sequencer} {fcs : ForkchoiceState} {id : PayloadId}
    {payload : Reply BuiltPayload} {reply : Reply ForkchoiceUpdated} {block : L2Block}
    (h : (s.finalizePayloadBuilding fcs id payload reply).2.2 = .ok (some block)) :
    ∃ built, payload = .ok built ∧ built.block = some block := by
  unfold finalizePayloadBuilding at h
  simp only at h
  split at h
  · cases h
  rename_i built
  refine ⟨built, rfl, ?_⟩
  split at h
  · cases h
  simp only at h
  cases hcommit : (commitPayload fcs built reply).2 with
  | error e =>
    rw [hcommit] at h
    cases h
  | ok committed =>
    rw [hcommit] at h
    cases h
    unfold commitPayload at hcommit
    split at hcommit
    · cases hcommit
    rename_i hblock
    split at hcommit
    · cases hcommit
    simp only at hcommit
    split at hcommit
    · cases hcommit
    split at hcommit
    · cases hcommit
      exact hblock
    · cases hcommit
    · cases hcommit

end Sequencer

namespace Node

def requestedId (node : Node) : Branch → Option PayloadId
  | .newSlot shouldSequenceBlock reply =>
    if node.sequencer.isSome ∧ shouldSequenceBlock then answeredId reply else none
  | .command (.buildBlock reply) =>
    if node.sequencer.isSome ∧ ¬node.job.any (fun job => job.parent = node.fcs.head) then
      answeredId reply
    else none
  | _ => none

/-- What a branch can do to the job: replace it by one on the head, drop it or leave it. -/
def JobAfter (node : Node) (id : Option PayloadId) (after : Option PayloadBuildingJob) : Prop :=
  match id with
  | some id => ∃ job, after = some job ∧ job.parent = node.fcs.head ∧ job.payloadId = id
  | none => after = node.job ∨ after = none

theorem startPayloadBuilding_jobAfter {node : Node} {s : Sequencer}
    {reply : Reply ForkchoiceUpdated}
    (h : s.payloadBuildingJob = node.job ∨ s.payloadBuildingJob = none) :
    node.JobAfter (answeredId reply) (node.startPayloadBuilding s reply).1.job := by
  have hstarted := s.startPayloadBuilding_job node.db node.fcs reply
  unfold JobAfter
  cases hid : answeredId reply with
  | some id =>
    rw [hid] at hstarted
    exact hstarted
  | none =>
    rw [hid] at hstarted
    have hjob : (node.startPayloadBuilding s reply).1.job = s.payloadBuildingJob := hstarted
    rw [hjob]
    exact h

theorem buildBlock_jobAfter (node : Node) (reply : Reply ForkchoiceUpdated) :
    node.JobAfter (node.requestedId (.command (.buildBlock reply)))
      (Faulty.buildBlock node none reply).1.job := by
  simp only [Faulty.buildBlock, requestedId]
  cases hsequencer : node.sequencer with
  | none => exact Or.inl rfl
  | some s =>
    rw [job_of_sequencer hsequencer]
    by_cases hcoalesce : s.payloadBuildingJob.any (fun job => job.parent = node.fcs.head) = true
    · rw [if_neg (fun h => h.2 hcoalesce)]
      simp only [if_pos hcoalesce]
      exact Or.inl rfl
    · rw [if_pos ⟨rfl, hcoalesce⟩]
      simp only [if_neg hcoalesce]
      exact startPayloadBuilding_jobAfter (Or.inr rfl)

theorem handleNewSlot_jobAfter (node : Node) (shouldSequenceBlock : Bool)
    (reply : Reply ForkchoiceUpdated) :
    node.JobAfter (node.requestedId (.newSlot shouldSequenceBlock reply))
      (Faulty.handleNewSlot node none shouldSequenceBlock reply).1.job := by
  simp only [Faulty.handleNewSlot, requestedId]
  cases hsequencer : node.sequencer with
  | none => exact Or.inl rfl
  | some s =>
    cases shouldSequenceBlock with
    | false => exact Or.inl rfl
    | true => exact startPayloadBuilding_jobAfter (Or.inl (job_of_sequencer hsequencer).symm)

theorem takeJob_job (node : Node) : node.takeJob.job = none := by
  unfold job takeJob
  cases node.sequencer with
  | none => rfl
  | some s => rfl

theorem takeBranch_jobAfter (config : ChainOrchestratorConfig) (node : Node) (branch : Branch) :
    node.JobAfter (node.requestedId branch)
      (Faulty.takeBranch config noFaults node branch).node.job := by
  by_cases hhandles : branch.HandlesJob
  swap
  · have hnone : node.requestedId branch = none := by
      unfold requestedId
      split
      · exact absurd trivial hhandles
      · exact absurd trivial hhandles
      · rfl
    rw [Faulty.takeBranch_job hhandles, hnone]
    exact Or.inl rfl
  unfold Branch.HandlesJob at hhandles
  split at hhandles
  · exact node.buildBlock_jobAfter _
  · refine Or.inr ?_
    unfold Faulty.takeBranch Faulty.handleCommand job
    cases node.sequencer with
    | none => rfl
    | some s => rfl
  · exact node.handleNewSlot_jobAfter _ _
  · simp only [Faulty.takeBranch]
    cases node.job with
    | none => exact Or.inl rfl
    | some job => exact Or.inr ((Faulty.handlePayloadReady_frame _ _ _ _ _).1.trans node.takeJob_job)
  · rename_i n client reply _
    obtain ⟨hdropped, hkept⟩ := node.handleL1Reorg_job n client reply
    exact (Classical.em (node.ReorgDropsJob n client)).symm.imp hkept hdropped
  · exact hhandles.elim

def finalizedBlock (node : Node) : Branch → Option L2Block
  | .payloadReady payload reply => do
    let sequencer ← node.takeJob.sequencer
    let job ← node.job
    (sequencer.finalizePayloadBuilding node.fcs job.payloadId payload reply).2.2.toOption.join
  | _ => none

theorem finalizedBlock_eq_some {node : Node} {branch : Branch} {block : L2Block}
    (h : node.finalizedBlock branch = some block) :
    ∃ built reply, branch = .payloadReady (.ok built) reply ∧ built.block = some block ∧
      node.job.isSome := by
  unfold finalizedBlock at h
  split at h
  · rename_i payload reply
    obtain ⟨sequencer, -, h⟩ := Option.bind_eq_some_iff.1 h
    obtain ⟨job, hjob, h⟩ := Option.bind_eq_some_iff.1 h
    cases hresult : (sequencer.finalizePayloadBuilding node.fcs job.payloadId payload reply).2.2 with
    | error e =>
      rw [hresult] at h
      cases h
    | ok finalized =>
      rw [hresult] at h
      have hblock : finalized = some block := h
      rw [hblock] at hresult
      obtain ⟨built, rfl, hconverted⟩ := Sequencer.finalizePayloadBuilding_block hresult
      exact ⟨built, reply, rfl, hconverted, Option.isSome_iff_exists.2 ⟨job, hjob⟩⟩
  · cases h

end Node

/-! ### The Engine's payloads -/

structure Sequencing where
  loop : Processed
  requested : PayloadId → Option B256

def Branch.builtPayload : Branch → Option BuiltPayload
  | .payloadReady payload _ => payload.toOption
  | _ => none

namespace Sequencing

def requestedAfter (s : Sequencing) (branch : Branch) : PayloadId → Option B256 :=
  match s.loop.takes branch, s.loop.node.requestedId branch with
  | true, some id => fun other =>
    if other = id then some s.loop.node.fcs.head.hash else s.requested other
  | _, _ => s.requested

def step (config : ChainOrchestratorConfig) (s : Sequencing) (branch : Branch) : Sequencing where
  loop := s.loop.step config branch
  requested := s.requestedAfter branch

def sequencedBlock (s : Sequencing) (branch : Branch) : Option L2Block :=
  if s.loop.takes branch then s.loop.node.finalizedBlock branch else none

def ExtendsHead (s : Sequencing) (branch : Branch) : Prop :=
  ∀ block ∈ s.sequencedBlock branch, block.parentHash = s.loop.node.fcs.head.hash

/-- The Engine builds the payload of an id on the head it was asked to build on. -/
def BuildsOnRequest (s : Sequencing) (branch : Branch) : Prop :=
  ∀ built ∈ branch.builtPayload, ∀ job ∈ s.loop.node.job,
    (s.requested job.payloadId).all (· = built.payload.parentHash)

def ParentIsHead (s : Sequencing) (branch : Branch) : Prop :=
  (s.sequencedBlock branch).isSome →
    ∀ job ∈ s.loop.node.job, job.parent.hash = s.loop.node.fcs.head.hash

def Tracked (s : Sequencing) : Prop :=
  ∀ job ∈ s.loop.node.job, s.requested job.payloadId = some job.parent.hash

/-- A branch keeps the parent of the job in flight on record. -/
theorem tracked_step (config : ChainOrchestratorConfig) {s : Sequencing} (h : s.Tracked)
    (branch : Branch) : (s.step config branch).Tracked := by
  unfold Tracked step requestedAfter Processed.step Processed.turn
  cases htakes : s.loop.takes branch with
  | false => exact h
  | true =>
    have hafter := s.loop.node.takeBranch_jobAfter config branch
    simp only [if_true]
    unfold Node.JobAfter at hafter
    cases hid : s.loop.node.requestedId branch with
    | none =>
      rw [hid] at hafter
      intro job hjob
      rcases hafter with hsame | hnone
      · rw [hsame] at hjob
        exact h job hjob
      · rw [hnone] at hjob
        cases hjob
    | some id =>
      rw [hid] at hafter
      obtain ⟨started, hstarted, hparent, hpayload⟩ := hafter
      intro job hjob
      rw [hstarted] at hjob
      cases hjob
      rw [hparent]
      exact if_pos hpayload

theorem parentHash_of_sequenced {s : Sequencing} {branch : Branch} {block : L2Block}
    (htracked : s.Tracked) (hbuilds : s.BuildsOnRequest branch)
    (hblock : s.sequencedBlock branch = some block) :
    ∃ job ∈ s.loop.node.job, block.parentHash = job.parent.hash := by
  unfold sequencedBlock at hblock
  split at hblock
  · obtain ⟨built, reply, rfl, hconverted, hsome⟩ := Node.finalizedBlock_eq_some hblock
    obtain ⟨job, hjob⟩ := Option.isSome_iff_exists.1 hsome
    have hrequest := hbuilds built rfl job hjob
    rw [htracked job hjob, Option.all_some, decide_eq_true_eq] at hrequest
    exact ⟨job, hjob, (built.parent_eq block hconverted).trans hrequest.symm⟩
  · cases hblock

theorem extendsHead_iff {s : Sequencing} {branch : Branch} (htracked : s.Tracked)
    (hbuilds : s.BuildsOnRequest branch) : s.ExtendsHead branch ↔ s.ParentIsHead branch := by
  unfold ExtendsHead ParentIsHead
  cases hblock : s.sequencedBlock branch with
  | none => simp
  | some block =>
    obtain ⟨job, hjob, hparent⟩ := parentHash_of_sequenced htracked hbuilds hblock
    rw [hjob]
    simp [hparent]

/-- In every run that starts without a job, sequenced blocks extend the head exactly when each of
them comes from a job that was started on the head it finds. -/
theorem extendsHead_iff_parentIsHead (config : ChainOrchestratorConfig) (start : Sequencing)
    (branches : List Branch) (hidle : start.loop.node.job = none)
    (hengine : Meets (step config) BuildsOnRequest start branches) :
    Meets (step config) ExtendsHead start branches ↔
      Meets (step config) ParentIsHead start branches := by
  have htracked : start.Tracked := by
    intro job hjob
    rw [hidle] at hjob
    cases hjob
  constructor
  · intro hextends
    refine (hengine.and _ hextends).of_invariant _ Tracked ?_ htracked
    intro s branch hs hmeets
    exact ⟨tracked_step config hs branch, (extendsHead_iff hs hmeets.1).1 hmeets.2⟩
  · intro hparent
    refine (hengine.and _ hparent).of_invariant _ Tracked ?_ htracked
    intro s branch hs hmeets
    exact ⟨tracked_step config hs branch, (extendsHead_iff hs hmeets.1).2 hmeets.2⟩

instance (s : Sequencing) (branch : Branch) : Decidable (s.BuildsOnRequest branch) :=
  inferInstanceAs (Decidable (∀ built ∈ branch.builtPayload, _))

instance (s : Sequencing) (branch : Branch) : Decidable (s.ExtendsHead branch) :=
  inferInstanceAs (Decidable (∀ block ∈ s.sequencedBlock branch, _))

instance (s : Sequencing) (branch : Branch) : Decidable (s.ParentIsHead branch) :=
  inferInstanceAs (Decidable (_ → _))

end Sequencing

def idleSequencing : Sequencing := ⟨syncedSequencer, fun _ => none⟩

def builtOnGenesis : BuiltPayload where
  payload := ⟨1, 1, 51, 1, [], some []⟩
  block := some (emptyBlock 1 51 1)
  parent_eq := by simp [emptyBlock]
  number_eq := by simp [emptyBlock]

def requestOnGenesis : Branch := .command (.buildBlock (.ok ⟨⟨.valid, none⟩, some 7⟩))

def readyOnGenesis : Branch := .payloadReady (.ok builtOnGenesis) validReply

theorem extendsHead_builtOnGenesis :
    (Sequencing.sequencedBlock (idleSequencing.step sampleConfig requestOnGenesis)
        readyOnGenesis).isSome ∧
      Meets (Sequencing.step sampleConfig) Sequencing.ExtendsHead idleSequencing
        [requestOnGenesis, readyOnGenesis] := by
  constructor
  · decide
  · exact (Sequencing.extendsHead_iff_parentIsHead sampleConfig idleSequencing _ rfl
      (by decide)).2 (by decide)

def importedMeanwhile : List Branch :=
  [requestOnGenesis,
    .command (.importBlock (emptyBlock 1 50 1) (.ofChain [])
      ⟨fun _ => .ok ⟨.valid, none⟩, validReply⟩),
    readyOnGenesis]

/-- A block is imported while the payload is built. -/
theorem sequenced_beside_imported_head :
    Meets (Sequencing.step sampleConfig) Sequencing.BuildsOnRequest idleSequencing
        importedMeanwhile ∧
      ¬Meets (Sequencing.step sampleConfig) Sequencing.ExtendsHead idleSequencing
        importedMeanwhile := by
  constructor
  · decide
  · decide

end RollupNode
