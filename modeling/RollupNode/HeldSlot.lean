import RollupNode.DerivationMoves
import RollupNode.FinalizationOrder
import RollupNode.PayloadJobs

set_option autoImplicit false

/-! The slot of the derivation driver and its timer over whole runs of the loop. -/
namespace RollupNode
open GuardedRuns

namespace Processed

def Completes (loop : Processed) (t : Turn) : Prop :=
  ∃ client replies outcome, t.branch = .attempt client replies ∧
    (Faulty.runAttempt loop.node t.faults client replies).2 = .ok (.completed outcome)

def Invalidates (loop : Processed) (t : Turn) : Prop :=
  ∃ n reply db unwound batchInfo reason, t.branch = .command (.revertToL1Block n reply) ∧
    loop.node.db.unwind n = .ok (db, unwound) ∧
    (Node.revalidateHeld db n loop.node.held).2 = .invalidated batchInfo reason

/-- What a turn after which the loop selects again does to the slot: a yielded batch that answers
the first request is held and its attempt scheduled, and it leaves the slot exactly when it is
completed or invalidated. -/
structure SlotSound (config : ChainOrchestratorConfig) (loop : Processed) (t : Turn) : Prop where
  scheduled : (loop.turn config t).stopped = false →
    ((loop.turn config t).node.held.isSome ↔ (loop.turn config t).node.attemptScheduled)
  empty : ∀ batch, t.branch = .derivedBatch batch → loop.takes t.branch → loop.node.held = none
  holds : ∀ batch request rest, t.branch = .derivedBatch batch → loop.takes t.branch →
    loop.node.pipeline = request :: rest → request.batchInfo.index = batch.batchInfo.index →
    request.targetStatus = batch.targetStatus → loop.turn config t =
      ⟨{ loop.node with pipeline := rest, held := some batch, attemptScheduled := true }, false⟩
  yielded : (loop.turn config t).stopped = false → loop.node.held = none →
    ∀ batch ∈ (loop.turn config t).node.held, t.branch = .derivedBatch batch ∧
      ∃ request, loop.node.pipeline = request :: (loop.turn config t).node.pipeline ∧
        request.batchInfo.index = batch.batchInfo.index ∧
        request.targetStatus = batch.targetStatus
  kept : (loop.turn config t).stopped = false → ∀ batch ∈ loop.node.held,
    (loop.turn config t).node.held = some batch ∨
      (loop.turn config t).node.held = none ∧ (loop.Completes t ∨ loop.Invalidates t)
  freed : (loop.turn config t).stopped = false → loop.takes t.branch →
    loop.Completes t ∨ loop.Invalidates t → (loop.turn config t).node.held = none

end Processed

def DerivationState.Scheduled (s : DerivationState) : Prop := s.held.isSome ↔ s.attemptScheduled

theorem SyncMoves.slot {s s' : DerivationState} {c : Option Consolidation} (h : SyncMoves s c s') :
    s'.held = s.held ∧ s'.attemptScheduled = s.attemptScheduled := by
  cases h with
  | keeps => exact ⟨rfl, rfl⟩
  | leaves => exact ⟨rfl, rfl⟩
  | marks flags => exact ⟨rfl, rfl⟩
  | consolidates flags => exact ⟨rfl, rfl⟩

theorem Node.afterRevert_slot (node : Node) (db : Db) (n : ℕ) :
    (node.afterRevert db n).Scheduled ∧ ((node.afterRevert db n).held = node.held ∨
      (node.afterRevert db n).held = none ∧ ∃ batchInfo reason,
        (revalidateHeld db n node.held).2 = .invalidated batchInfo reason) := by
  unfold afterRevert
  cases hheld : node.held with
  | none => exact ⟨by simp [revalidateHeld, DerivationState.Scheduled], Or.inl rfl⟩
  | some batch =>
    simp only [revalidateHeld]
    rcases heldInvalidation db n batch with ⟨_ | reason, _ | _⟩
    · exact ⟨by simp [DerivationState.Scheduled], Or.inl rfl⟩
    · exact ⟨by simp [DerivationState.Scheduled], Or.inl rfl⟩
    · exact ⟨by simp [DerivationState.Scheduled], Or.inr ⟨rfl, _, _, rfl⟩⟩
    · exact ⟨by simp [DerivationState.Scheduled], Or.inr ⟨rfl, _, _, rfl⟩⟩

section
variable {config : ChainOrchestratorConfig} {node : Node} {t : Turn} {s : DerivationState}

theorem Moves.scheduled (h : Moves config node t s) (hs : node.derivation.Scheduled) :
    s.Scheduled := by
  cases h with
  | syncs _ hsync =>
    obtain ⟨hheld, hscheduled⟩ := hsync.slot
    rw [DerivationState.Scheduled, hheld, hscheduled]
    exact hs
  | completes client replies batch => simp [DerivationState.Scheduled]
  | holds batch request rest => simp [DerivationState.Scheduled]
  | commits => exact hs
  | reverts => exact hs
  | finalizes => exact hs
  | losesFinalized => exact hs
  | recordsFinalization => exact hs
  | finalizesBatch => exact hs
  | cancels _ hidle => simp [DerivationState.Scheduled, Node.derivation, hidle.2]
  | unwinds n client reply retried _ hidle =>
    simp [DerivationState.Scheduled, Node.derivation, hidle.2]
  | failsToRevert hheld => simp [DerivationState.Scheduled, Node.derivation, hheld]
  | revertsTo n reply db => exact (node.afterRevert_slot db n).1

theorem Moves.yielded {batch : BatchDerivationResult} (h : Moves config node t s)
    (hheld : node.held = none) (hbatch : s.held = some batch) :
    t.branch = .derivedBatch batch ∧ ∃ request, node.pipeline = request :: s.pipeline ∧
      request.batchInfo.index = batch.batchInfo.index ∧
      request.targetStatus = batch.targetStatus := by
  have hfree (hsame : s.held = node.held) : False := by
    rw [hsame, hheld] at hbatch
    cases hbatch
  cases h with
  | syncs _ hsync => exact (hfree hsync.slot.1).elim
  | holds yielded request rest hbranch _ hpipeline hindex htarget =>
    cases hbatch
    exact ⟨hbranch, request, hpipeline, hindex, htarget⟩
  | completes => cases hbatch
  | revertsTo n reply db =>
    rcases (node.afterRevert_slot db n).2 with hsame | ⟨hnone, -⟩
    · exact (hfree hsame).elim
    · rw [hnone] at hbatch
      cases hbatch
  | _ => exact (hfree rfl).elim

theorem Moves.kept {batch : BatchDerivationResult} (h : Moves config node t s)
    (hheld : node.held = some batch) :
    s.held = some batch ∨ s.held = none ∧
      ((∃ client replies outcome, t.branch = .attempt client replies ∧
          (Faulty.runAttempt node t.faults client replies).2 = .ok (.completed outcome)) ∨
        ∃ n reply db unwound batchInfo reason, t.branch = .command (.revertToL1Block n reply) ∧
          node.db.unwind n = .ok (db, unwound) ∧
          (Node.revalidateHeld db n node.held).2 = .invalidated batchInfo reason) := by
  cases h with
  | syncs _ hsync => exact Or.inl (hsync.slot.1.trans hheld)
  | completes client replies held hbranch _ outcome hdone =>
    exact Or.inr ⟨rfl, Or.inl ⟨client, replies, outcome, hbranch, hdone⟩⟩
  | holds yielded request rest _ hfree =>
    rw [hheld] at hfree
    cases hfree
  | revertsTo n reply db unwound hbranch hunwind =>
    rcases (node.afterRevert_slot db n).2 with hsame | ⟨hnone, batchInfo, reason, hinvalid⟩
    · exact Or.inl (hsame.trans hheld)
    · exact Or.inr ⟨hnone,
        Or.inr ⟨n, reply, db, unwound, batchInfo, reason, hbranch, hunwind, hinvalid⟩⟩
  | _ => exact Or.inl hheld

end

theorem Node.holdBatch_of_answers {node : Node} {batch : BatchDerivationResult}
    {request : BatchRequest} {rest : List BatchRequest} (hheld : node.held = none)
    (hpipeline : node.pipeline = request :: rest)
    (hindex : request.batchInfo.index = batch.batchInfo.index)
    (htarget : request.targetStatus = batch.targetStatus) :
    node.holdBatch batch =
      { node with pipeline := rest, held := some batch, attemptScheduled := true } := by
  simp only [holdBatch, hheld, hpipeline]
  exact if_pos ⟨hindex, htarget⟩

theorem Faulty.runAttempt_completed {node : Node} {faults : Faults} {client : L2Client}
    {replies : ℕ → ActionReplies} {outcome : BatchConsolidationOutcome}
    (h : (runAttempt node faults client replies).2 = .ok (.completed outcome)) :
    (runAttempt node faults client replies).1.held = none := by
  unfold runAttempt at h ⊢
  split at h
  · cases h
  · cases h
  rcases node.runAttempt_cases client replies with
    ⟨batch, done, -, -, hderivation⟩ | ⟨hheld, -⟩ | hfails
  · exact congrArg DerivationState.held hderivation
  · rw [hheld] at h
    cases h
  · rw [h] at hfails
    cases hfails

/-- An invalidated batch leaves the slot, unless the unwind fails and stops the loop. -/
theorem Moves.invalidated {config : ChainOrchestratorConfig} {node : Node} {t : Turn}
    {s : DerivationState} {n : ℕ} {reply : Reply ForkchoiceUpdated} {db : Db}
    {unwound : UnwindResult} {batchInfo : BatchInfo} {reason : String} (h : Moves config node t s)
    (hbranch : t.branch = .command (.revertToL1Block n reply))
    (hunwind : node.db.unwind n = .ok (db, unwound))
    (hinvalid : (Node.revalidateHeld db n node.held).2 = .invalidated batchInfo reason) :
    s.held = none := by
  have hrevert : t.isRevert = true := by rw [Turn.isRevert, hbranch]
  cases h with
  | revertsTo n' reply' db' unwound' hbranch' hunwind' =>
    rw [hbranch] at hbranch'
    cases hbranch'
    rw [hunwind] at hunwind'
    cases hunwind'
    simp only [Node.afterRevert, hinvalid]
  | failsToRevert hheld => exact hheld
  | completes client replies batch hbranch' => rfl
  | holds batch request rest hbranch' =>
    rw [hbranch] at hbranch'
    cases hbranch'
  | commits blockInfo batch client reply' retried hbranch' hidle => exact hidle.2
  | losesFinalized n' client reply' retried hbranch' hidle => exact hidle.2
  | unwinds n' client reply' retried hbranch' hidle => exact hidle.2
  | syncs hother => rw [hother] at hrevert; cases hrevert
  | reverts first last blockInfo hother hidle => exact hidle.2
  | finalizes n' hother hidle => exact hidle.2
  | recordsFinalization index n' hother hidle => exact hidle.2
  | finalizesBatch index n' m hother hidle => exact hidle.2
  | cancels hother hidle => exact hidle.2

namespace Processed

/-- Every turn treats the slot as it should while its timer is scheduled. -/
theorem slotSound_turn (config : ChainOrchestratorConfig) (loop : Processed) (t : Turn)
    (hloop : loop.stopped = false → loop.node.derivation.Scheduled) : loop.SlotSound config t := by
  constructor
  · intro hrun
    obtain ⟨hrunning, hkept | ⟨-, hmoves⟩⟩ := turn_cases hrun
    · rw [hkept]
      exact hloop hrunning
    · exact hmoves.scheduled (hloop hrunning)
  · intro batch hbranch htakes
    rw [takes, hbranch, Bool.and_eq_true] at htakes
    exact Option.isNone_iff_eq_none.1 htakes.2
  · intro batch request rest hbranch htakes hpipeline hindex htarget
    have hselects := Bool.and_eq_true_iff.1 htakes
    rw [hbranch] at hselects
    have hheld : loop.node.held = none := Option.isNone_iff_eq_none.1 hselects.2
    rw [turn, if_pos htakes, hbranch]
    exact congrArg (Processed.mk · false)
      (Node.holdBatch_of_answers hheld hpipeline hindex htarget)
  · intro hrun hheld batch hbatch
    obtain ⟨-, hkept | ⟨-, hmoves⟩⟩ := turn_cases hrun
    · rw [hkept, hheld] at hbatch
      cases hbatch
    · exact hmoves.yielded hheld hbatch
  · intro hrun batch hheld
    obtain ⟨-, hkept | ⟨-, hmoves⟩⟩ := turn_cases hrun
    · rw [hkept]
      exact Or.inl hheld
    · exact hmoves.kept hheld
  · intro hrun htakes hends
    rcases hends with ⟨client, replies, outcome, hbranch, hdone⟩ |
      ⟨n, reply, db, unwound, batchInfo, reason, hbranch, hunwind, hinvalid⟩
    · rw [turn, if_pos htakes, hbranch]
      exact Faulty.runAttempt_completed hdone
    · rw [turn, if_pos htakes] at hrun ⊢
      have hselects := Bool.and_eq_true_iff.1 htakes
      exact (Faulty.takeBranch_moves hselects.2 hrun).invalidated hbranch hunwind hinvalid

/-- Along every run the slot and its timer stay together, a yielded batch is held with its attempt
scheduled, and it leaves the slot exactly when it is completed or invalidated. -/
theorem slot_never_stuck (config : ChainOrchestratorConfig) (loop : Processed)
    (hstart : loop.node.held.isSome ↔ loop.node.attemptScheduled) (turns : List Turn) :
    Meets (turn config) (SlotSound config) loop turns := by
  refine (meets_true (turn config) loop turns).of_invariant (turn config)
    (fun loop => loop.stopped = false → loop.node.derivation.Scheduled) ?_ (fun _ => hstart)
  intro loop t hloop _
  have hsound := slotSound_turn config loop t hloop
  exact ⟨hsound.scheduled, hsound⟩

end Processed

/-- The Engine is not ready for the batch at first, and the database fails during an unwind
without a held batch. -/
def heldAndRetried : List Turn :=
  [⟨.derivedBatch (secondDerived .consolidated), noFaults⟩,
    ⟨.attempt twoBlockClient (fun _ => ⟨.error "", .error "", .error "",
      .ok ⟨⟨.syncing, none⟩, none⟩⟩), noFaults⟩,
    ⟨.attempt twoBlockClient validReplies, noFaults⟩,
    ⟨.command (.revertToL1Block 20 validReply), fun _ => some (.databaseError "locked")⟩]

def awaitingSecond : Processed :=
  ⟨{ awaitingNode true with
      db := (awaitingNode true).db.insertBatch secondCommit
      pipeline := [⟨⟨2, 12⟩, .consolidated⟩] }, false⟩

/-- The batch is held by the first turn, kept by the second and completed by the third. -/
theorem slot_never_stuck_heldAndRetried :
    (awaitingSecond.node.held.isSome ↔ awaitingSecond.node.attemptScheduled) ∧
      Meets (Processed.turn sampleConfig) (Processed.SlotSound sampleConfig) awaitingSecond
        heldAndRetried ∧
      (run (Processed.turn sampleConfig) awaitingSecond (heldAndRetried.take 1)).node.held =
        some (secondDerived .consolidated) ∧
      (run (Processed.turn sampleConfig) awaitingSecond (heldAndRetried.take 2)).node.held =
        some (secondDerived .consolidated) ∧
      (run (Processed.turn sampleConfig) awaitingSecond (heldAndRetried.take 3)).node.held =
        none := by
  have hsound := Processed.slot_never_stuck sampleConfig awaitingSecond (by decide) heldAndRetried
  have hfirst := hsound.1.holds _ _ _ rfl (by decide) rfl rfl rfl
  refine ⟨by decide, hsound, congrArg (fun loop => loop.node.held) hfirst, by decide, by decide⟩

end RollupNode
