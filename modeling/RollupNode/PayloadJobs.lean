import RollupNode.HandlerFrames
import RollupNode.UnwindForkchoice

set_option autoImplicit false

/-! When a payload job outlives an unwind that removed one of its messages. -/
namespace RollupNode
open RelationalTable GuardedRuns ExceptTraversal

def Db.IncludesAbove (db : Db) (n : ℕ) : Prop :=
  ∃ m ∈ db.l1Messages, n < m.l1BlockNumber ∧ m.l2BlockNumber.isSome

instance (db : Db) (n : ℕ) : Decidable (db.IncludesAbove n) :=
  inferInstanceAs (Decidable (∃ m ∈ db.l1Messages, _))

theorem Db.loweredHead_isSome (db : Db) (n : ℕ) :
    (db.loweredHead n).isSome ↔ db.IncludesAbove n := by
  rw [Option.isSome_iff_ne_none, ne_eq, db.loweredHead_eq_none n]
  simp only [IncludesAbove, Option.isSome_iff_ne_none]
  push Not
  rfl

variable {client : L2Client} {node : Node} {reply : Reply ForkchoiceUpdated}
  {config : ChainOrchestratorConfig}

namespace Node

/-! ### Handlers that leave the sequencer alone -/

theorem revertToL1Block_sequencer (node : Node) (n : ℕ) (reply : Reply ForkchoiceUpdated) :
    (node.revertToL1Block n reply).1.sequencer = node.sequencer := by
  rcases node.revertToL1Block_cases n reply with
    ⟨e, h⟩ | ⟨unwound, result, held, fcs, hunwind, ⟨e, h⟩ | h⟩
  · rw [h]
  · rw [h]
    exact (unwound_of_ok hunwind).sequencer
  · rw [h, scheduleIfSurvived_eq]
    exact (unwound_of_ok hunwind).sequencer

theorem transact_sequencer (fault : Option DatabaseError) {handled : Handled}
    (h : handled.1.sequencer = node.sequencer) :
    (node.transact fault handled).1.sequencer = node.sequencer := by
  cases fault with
  | none => exact h
  | some e => rfl

/-! ### The job an unwind leaves -/

theorem job_congr {node' : Node} (h : node'.sequencer = node.sequencer) :
    node'.job = node.job := congrArg (fun s : Option Sequencer => s.bind (·.payloadBuildingJob)) h

theorem cancelPayloadBuildingJob_job (node : Node) : node.cancelPayloadBuildingJob.job = none := by
  unfold job cancelPayloadBuildingJob
  cases node.sequencer with
  | none => rfl
  | some s => rfl

theorem cancelJobAbove_job (node : Node) (n : ℕ) :
    (node.cancelJobAbove n).job =
      if (node.job.bind (·.l1Origin)).any (n < ·) then none else node.job := by
  unfold cancelJobAbove
  split
  · rename_i h
    exact (cancelPayloadBuildingJob_job node).trans (if_pos h).symm
  · rename_i h
    exact (if_neg h).symm

theorem finishL1Reorg_job (node : Node) (unwound : UnwindResult) (held : HeldReorgOutcome)
    (head : Option BlockInfo) (reply : Reply ForkchoiceUpdated) :
    (node.finishL1Reorg unwound held head reply).1.job =
      (node.cancelJobAbove unwound.l1BlockNumber).job := by
  obtain ⟨fcs, scheduled, h, -⟩ := node.finishL1Reorg_node unwound held head reply
  rw [h]
  rfl

/-- A reorg drops the job once the rows are unwound: with the head when the block that becomes the
head is found, else when the first message of the job is above the block the chain went back to. -/
def ReorgDropsJob (node : Node) (n : ℕ) (client : L2Client) : Prop :=
  (node.db.unwind n).isOk ∧
    match node.db.loweredHead n with
    | some number => (blockAt client number).isOk
    | none => (node.job.bind (·.l1Origin)).any (n < ·)

theorem handleL1Reorg_job (node : Node) (n : ℕ) (client : L2Client)
    (reply : Reply ForkchoiceUpdated) :
    (node.ReorgDropsJob n client → (node.handleL1Reorg n client reply).1.job = none) ∧
      (¬ node.ReorgDropsJob n client →
        (node.handleL1Reorg n client reply).1.job = node.job) := by
  simp only [handleL1Reorg, ReorgDropsJob]
  cases hunwind : unwindAndRevalidateHeldBatch { node with attemptScheduled := false } n with
  | error e =>
    refine ⟨?_, fun _ => rfl⟩
    rcases bind_eq_error.1 hunwind with hfails | ⟨_, -, hdone⟩
    · rintro ⟨hok, -⟩
      rw [show node.db.unwind n = .error e from hfails] at hok
      cases hok
    · cases hdone
  | ok unwound =>
  obtain ⟨node₁, unwound, held⟩ := unwound
  obtain ⟨db, hok, -⟩ := unwindAndRevalidateHeldBatch_ok hunwind
  have hok : node.db.unwind n = .ok (db, unwound) := hok
  have hunwound := unwound_of_ok hunwind
  have hjob : node₁.job = node.job := job_congr hunwound.sequencer
  have hhead : unwound.l2HeadBlockNumber = node.db.loweredHead n := hunwound.head
  simp only [hok, hhead]
  cases node.db.loweredHead n with
  | none =>
    simp only [loweredHeadInfo]
    rw [finishL1Reorg_job, cancelJobAbove_job, hunwound.l1BlockNumber, hjob]
    exact ⟨fun h => if_pos h.2, fun h => if_neg (fun hany => h ⟨rfl, hany⟩)⟩
  | some number =>
    simp only [loweredHeadInfo]
    cases blockAt client number with
    | error e =>
      refine ⟨fun h => ?_, fun _ => hjob⟩
      cases h.2
    | ok block =>
      refine ⟨fun _ => ?_, fun h => absurd ⟨rfl, rfl⟩ h⟩
      cases collectRevertedTxsInRange client (number + 1)
          node₁.cancelPayloadBuildingJob.fcs.head.number with
      | error e => exact node₁.cancelPayloadBuildingJob_job
      | ok _ =>
        simp only
        rw [finishL1Reorg_job, cancelJobAbove_job, cancelPayloadBuildingJob_job, ite_self]

/-- A reorg that succeeds found the block that becomes the head. -/
theorem reorgDropsJob_iff_of_ok {n : ℕ} (h : (node.handleL1Reorg n client reply).2 = .ok ()) :
    node.ReorgDropsJob n client ↔
      node.db.IncludesAbove n ∨ (node.job.bind (·.l1Origin)).any (n < ·) := by
  unfold handleL1Reorg at h
  simp only at h
  split at h
  · cases h
  rename_i node₁ unwound held hunwind
  obtain ⟨db, hok, -⟩ := unwindAndRevalidateHeldBatch_ok hunwind
  have hok : node.db.unwind n = .ok (db, unwound) := hok
  have hhead : unwound.l2HeadBlockNumber = node.db.loweredHead n := (unwound_of_ok hunwind).head
  rw [hhead] at h
  rw [ReorgDropsJob, hok, ← node.db.loweredHead_isSome n]
  cases hlowered : node.db.loweredHead n with
  | none => simp [Except.isOk, Except.toBool]
  | some number =>
    rw [hlowered, loweredHeadInfo] at h
    cases hblock : blockAt client number with
    | error e =>
      rw [hblock] at h
      cases h
    | ok block => simp [hblock, Except.isOk, Except.toBool]

end Node

/-! ### Branches that leave the job alone -/

def Branch.HandlesJob : Branch → Prop
  | .command (.buildBlock _) => True
  | .command .disableAutomaticSequencing => True
  | .newSlot _ _ => True
  | .payloadReady _ _ => True
  | .notification (.reorg _) _ _ _ => True
  | _ => False

namespace Faulty

theorem handleL1Notification_sequencer {faults : Faults} {n : L1Notification}
    (h : ∀ number, n ≠ .reorg number) :
    (handleL1Notification node config faults client reply n).1.sequencer = node.sequencer := by
  rcases handleL1Notification_keeps node config faults client reply n with
    ⟨message, blockInfo, timestamp, rfl⟩ | ⟨number, rfl⟩ | hkeeps
  · rcases handleL1Message_cases node config faults message blockInfo with
      h | ⟨-, queueHash, db, -, -, h⟩
    · exact congrArg Node.sequencer h
    · exact (congrArg Node.sequencer h).trans rfl
  · exact absurd rfl (h number)
  · exact hkeeps.sequencer

theorem takeBranch_job {faults : Faults} {branch : Branch} (h : ¬ branch.HandlesJob) :
    (takeBranch config faults node branch).node.job = node.job := by
  cases branch with
  | attempt client replies =>
    exact Node.job_congr (runAttempt_keeps node faults client replies).sequencer
  | signedBlock block stored =>
    exact Node.job_congr (node.handleSignerEvent_leaves block stored).sequencer
  | derivedBatch batch => exact Node.job_congr (node.holdBatch_keeps batch).sequencer
  | newBlock received =>
    exact Node.job_congr (importPeerBlock_keeps node config faults received).sequencer
  | newSlot shouldSequenceBlock reply => exact absurd trivial h
  | payloadReady payload reply => exact absurd trivial h
  | command command =>
    cases command with
    | buildBlock reply => exact absurd trivial h
    | disableAutomaticSequencing => exact absurd trivial h
    | enableAutomaticSequencing =>
      change Node.job { node with sequencer := node.sequencer.map _ } = node.job
      unfold Node.job
      cases node.sequencer with
      | none => rfl
      | some s => rfl
    | updateFcsHead head client reply =>
      exact Node.job_congr (node.updateFcsHead_leaves (faults 0) head client reply).sequencer
    | revertToL1Block n reply =>
      refine Node.job_congr ?_
      change (revertToL1Block node faults n reply).1.sequencer = node.sequencer
      unfold revertToL1Block
      exact Node.transact_sequencer _ (node.revertToL1Block_sequencer n reply)
    | importBlock block client replies =>
      exact Node.job_congr
        (importChain_keeps node client faults [block] block.number replies).sequencer
  | notification n client reply retried =>
    have hother : ∀ number, n ≠ .reorg number := by
      rintro number rfl
      exact h trivial
    exact Node.job_congr ((retryBlockedImport_keeps config faults n retried _).sequencer.trans
      (handleL1Notification_sequencer hother))

end Faulty

/-! ### Jobs that outlive an unwind -/

def PayloadBuildingJob.Straddles (job : PayloadBuildingJob) (n : ℕ) : Prop :=
  job.l1Origin.all (· ≤ n) ∧ ∃ m ∈ job.messages, n < m.l1BlockNumber

namespace PayloadBuildingJob

def AtMost (job : PayloadBuildingJob) (n : ℕ) : Prop := ∀ m ∈ job.messages, m.l1BlockNumber ≤ n

instance (job : PayloadBuildingJob) (n : ℕ) : Decidable (job.AtMost n) :=
  inferInstanceAs (Decidable (∀ m ∈ job.messages, _))

theorem straddles_iff (job : PayloadBuildingJob) (n : ℕ) :
    job.Straddles n ↔ ¬job.l1Origin.any (n < ·) ∧ ¬job.AtMost n := by
  have horigin : job.l1Origin.all (· ≤ n) ↔ ¬job.l1Origin.any (n < ·) := by
    cases job.l1Origin with
    | none => simp
    | some origin => simp
  have hmessages : (∃ m ∈ job.messages, n < m.l1BlockNumber) ↔ ¬job.AtMost n := by
    simp only [AtMost, not_forall, Nat.not_le, exists_prop]
  rw [Straddles, horigin, hmessages]

end PayloadBuildingJob

namespace Processed

def unwoundTo (loop : Processed) (branch : Branch) : Option ℕ :=
  if loop.takes branch then
    match branch with
    | .notification (.reorg n) client reply _ =>
      if (loop.node.handleL1Reorg n client reply).2.isOk then some n else none
    | .command (.revertToL1Block n reply) =>
      if (loop.node.revertToL1Block n reply).2.isOk then some n else none
    | _ => none
  else none

/-- No job in flight after an unwind has a message that the unwind removed. -/
def DropsRemoved (config : ChainOrchestratorConfig) (loop : Processed) (branch : Branch) : Prop :=
  ∀ n ∈ loop.unwoundTo branch, ∀ job ∈ (loop.step config branch).node.job, job.AtMost n

instance (config : ChainOrchestratorConfig) (loop : Processed) (branch : Branch) :
    Decidable (loop.DropsRemoved config branch) :=
  inferInstanceAs (Decidable (∀ n ∈ loop.unwoundTo branch, _))

/-- What an unwind has to find: a reorg no job that straddles the block it goes back to, unless
the head is lowered as well; the administrative unwind no job with a message above it. -/
def FindsWholeJobs (loop : Processed) : Branch → Prop
  | .notification (.reorg n) _ _ _ =>
    ∀ job ∈ loop.node.job, job.Straddles n → loop.node.db.IncludesAbove n
  | .command (.revertToL1Block n _) => ∀ job ∈ loop.node.job, job.AtMost n
  | _ => True

theorem dropsRemoved_reorg {loop : Processed} {n : ℕ} {retried : Option PeerImport}
    (htakes : loop.takes (.notification (.reorg n) client reply retried))
    (hok : (loop.node.handleL1Reorg n client reply).2 = .ok ()) :
    (∀ job ∈ (loop.step config (.notification (.reorg n) client reply retried)).node.job,
        job.AtMost n) ↔
      ∀ job ∈ loop.node.job, job.Straddles n → loop.node.db.IncludesAbove n := by
  have hstep : (loop.step config (.notification (.reorg n) client reply retried)).node =
      (loop.node.handleL1Reorg n client reply).1 := by
    rw [step, turn, if_pos htakes]
    rfl
  rw [hstep]
  obtain ⟨hdropped, hkept⟩ := loop.node.handleL1Reorg_job n client reply
  rw [Node.reorgDropsJob_iff_of_ok hok] at hdropped hkept
  cases hjob : loop.node.job with
  | none =>
    rw [hjob] at hdropped hkept
    simp [(Classical.em _).elim hdropped hkept]
  | some job =>
    rw [hjob, Option.bind_some] at hdropped hkept
    by_cases hcancel : loop.node.db.IncludesAbove n ∨ job.l1Origin.any (n < ·)
    · rw [hdropped hcancel]
      refine iff_of_true (fun _ h => by cases h) ?_
      rintro _ ⟨⟩ hstraddles
      exact hcancel.resolve_right ((job.straddles_iff n).1 hstraddles).1
    · rw [hkept hcancel]
      rw [not_or] at hcancel
      constructor
      · rintro hatMost _ ⟨⟩ hstraddles
        exact absurd (hatMost job rfl) ((job.straddles_iff n).1 hstraddles).2
      · rintro hwhole _ ⟨⟩
        by_contra hatMost
        exact hcancel.1 (hwhole job rfl ((job.straddles_iff n).2 ⟨hcancel.2, hatMost⟩))

theorem dropsRemoved_revert {loop : Processed} {n : ℕ}
    (htakes : loop.takes (.command (.revertToL1Block n reply))) :
    (∀ job ∈ (loop.step config (.command (.revertToL1Block n reply))).node.job, job.AtMost n) ↔
      ∀ job ∈ loop.node.job, job.AtMost n := by
  have hstep : (loop.step config (.command (.revertToL1Block n reply))).node =
      (loop.node.revertToL1Block n reply).1 := by
    rw [step, turn, if_pos htakes]
    rfl
  rw [hstep, Node.job_congr (loop.node.revertToL1Block_sequencer n reply)]

/-- A branch drops removed jobs exactly when the unwind it makes finds them whole. -/
theorem dropsRemoved_iff (config : ChainOrchestratorConfig) (loop : Processed) (branch : Branch) :
    loop.DropsRemoved config branch ↔
      ((loop.unwoundTo branch).isSome → loop.FindsWholeJobs branch) := by
  cases hto : loop.unwoundTo branch with
  | none =>
    refine iff_of_true ?_ (fun h => by cases h)
    intro n hn
    rw [hto] at hn
    cases hn
  | some n =>
    have hdrops : loop.DropsRemoved config branch ↔
        ∀ job ∈ (loop.step config branch).node.job, job.AtMost n := by
      simp only [DropsRemoved, hto, Option.mem_some_iff, forall_eq']
    rw [hdrops]
    simp only [Option.isSome_some, forall_true_left]
    unfold unwoundTo at hto
    split at hto
    · rename_i htakes
      split at hto
      · split at hto
        · rename_i hok
          cases hto
          exact dropsRemoved_reorg htakes ((isOk_iff _).1 hok)
        · cases hto
      · split at hto
        · cases hto
          exact dropsRemoved_revert htakes
        · cases hto
      · cases hto
    · cases hto

/-- In any run, no job outlives an unwind that removed one of its messages exactly when every
unwind that succeeds finds whole jobs. -/
theorem dropsRemoved_iff_findsWholeJobs (config : ChainOrchestratorConfig) (loop : Processed)
    (branches : List Branch) :
    Meets (step config) (DropsRemoved config) loop branches ↔
      Meets (step config)
        (fun loop branch => (loop.unwoundTo branch).isSome → loop.FindsWholeJobs branch)
        loop branches :=
  meets_congr (step config) (dropsRemoved_iff config) loop branches

end Processed

/-! ### A job whose messages straddle the block -/

def sampleConfig : ChainOrchestratorConfig := ⟨100, 1000, fun rolling _ => rolling⟩

def syncedSequencer : Processed where
  node := {
    db := migrated 1
    fcs := ⟨⟨0, 1⟩, ⟨0, 1⟩, ⟨0, 1⟩⟩
    syncState := ⟨true, true⟩
    sequencer := some ⟨⟨⟨30000000, 10, .blockDepth 0⟩, true⟩, true, none, ⟨none, none⟩⟩
    pipeline := []
    held := none
    attemptScheduled := false }
  stopped := false

def notified (n : L1Notification) : Branch :=
  .notification n (.ofChain []) validReply none

def jobOfTwoBlocks : List Branch :=
  [notified (.newBlock ⟨11, 11⟩),
    notified (.l1Message ⟨0, 21000, 100⟩ ⟨10, 10⟩ 0),
    notified (.l1Message ⟨1, 21000, 101⟩ ⟨11, 11⟩ 0),
    .command (.buildBlock (.ok ⟨⟨.valid, none⟩, some 7⟩))]

/-- A job with messages of L1 blocks 10 and 11 outlives a reorg to 10 and an unwind to 9. -/
theorem job_outlives_unwind_of_its_messages :
    ¬Meets (Processed.step sampleConfig) (Processed.DropsRemoved sampleConfig) syncedSequencer
        (jobOfTwoBlocks ++ [notified (.reorg 10)]) ∧
      ¬Meets (Processed.step sampleConfig) (Processed.DropsRemoved sampleConfig) syncedSequencer
        (jobOfTwoBlocks ++ [.command (.revertToL1Block 9 validReply)]) := by
  constructor
  · decide
  · decide

end RollupNode
