import RollupNode.BatchRowMoves
import RollupNode.FinalizationOrder
import RollupNode.PayloadJobs

set_option autoImplicit false

/-! A node that counts as synced has pushed every batch committed before. -/
namespace RollupNode
open GuardedRuns RelationalTable

structure Pushing where
  loop : Processed
  pushed : List B256

namespace Pushing

def step (config : ChainOrchestratorConfig) (s : Pushing) (t : Turn) : Pushing :=
  let after := s.loop.turn config t
  ⟨after, s.pushed ++ (after.node.pipeline.drop s.loop.node.pipeline.length).map
    (fun request => request.batchInfo.hash)⟩

/-- A commit pushed by a synced node finds every earlier live batch consolidated, finalized or
pushed before. -/
def CommitsAfterEarlier (config : ChainOrchestratorConfig) (s : Pushing) (t : Turn) : Prop :=
  ∀ blockInfo batch client reply retried,
    t.branch = .notification (.batchCommit blockInfo batch) client reply retried →
    s.loop.takes t.branch = true → s.loop.node.syncState.isSynced = true →
    (∃ request ∈ (s.loop.turn config t).node.pipeline, request.batchInfo = batch.batchInfo) →
    ∀ r ∈ s.loop.node.db.batchCommits, r.revertedBlockNumber = none → r.index < batch.index →
      r.status.Settled ∨ r.hash ∈ s.pushed

/-- The consolidation with which a turn of an unsynced node starts is served, and finality that
the Engine does not take moves no batch to processing. -/
def CatchesUp (config : ChainOrchestratorConfig) (s : Pushing) (t : Turn) : Prop :=
  (s.loop.node.syncState.isSynced = false →
    ∀ c ∈ t.consolidation config s.loop.node, c.Served) ∧ t.KeepsFinalized s.loop.node

structure CaughtUp (s : Pushing) : Prop where
  targets : s.loop.node.derivation.Targets
  reverted : ∀ r ∈ s.loop.node.db.batchCommits, r.status = .reverted →
    r.revertedBlockNumber.isSome
  processing : ∀ r ∈ s.loop.node.db.batchCommits, r.status = .processing → r.hash ∈ s.pushed
  committed : s.loop.node.syncState.isSynced = true → ∀ r ∈ s.loop.node.db.batchCommits,
    r.status = .committed → r.revertedBlockNumber = none → r.hash ∈ s.pushed

theorem CaughtUp.earlier {s : Pushing} (h : s.CaughtUp)
    (hsynced : s.loop.node.syncState.isSynced = true) {r : BatchCommitRow}
    (hr : r ∈ s.loop.node.db.batchCommits) (hlive : r.revertedBlockNumber = none) :
    r.status.Settled ∨ r.hash ∈ s.pushed := by
  cases hstatus : r.status with
  | committed => exact Or.inr (h.committed hsynced r hr hstatus hlive)
  | processing => exact Or.inr (h.processing r hr hstatus)
  | consolidated => exact Or.inl (Or.inl rfl)
  | reverted =>
    have hsome := h.reverted r hr hstatus
    rw [hlive] at hsome
    cases hsome
  | finalized => exact Or.inl (Or.inr rfl)

end Pushing

theorem DerivationState.fetchCommitted_status {s : DerivationState} {r : BatchCommitRow}
    (hr : r ∈ s.fetchCommitted.batches) : r.status ≠ .committed := by
  obtain ⟨q, hq, ⟨-, rfl⟩ | ⟨hother, rfl⟩⟩ := Table.cases_of_mem_update hr
  · intro hstatus
    cases hstatus
  · exact of_decide_eq_false hother

theorem Moves.becomesSynced {config : ChainOrchestratorConfig} {node : Node} {t : Turn}
    {s : DerivationState} (h : Moves config node t s) (hrevert : t.isRevert = false)
    (hserved : ∀ c ∈ t.consolidation config node, c.Served)
    (hbefore : node.syncState.isSynced = false) (hafter : s.syncState.isSynced = true)
    {r : BatchCommitRow} (hr : r ∈ s.batches) : r.status ≠ .committed := by
  have hsame (hflags : s.syncState = node.syncState) : r.status ≠ .committed := by
    rw [hflags, hbefore] at hafter
    cases hafter
  cases h with
  | syncs _ hsync =>
    cases hsync with
    | keeps => exact hsame rfl
    | leaves => simp [SyncState.isSynced] at hafter
    | marks flags _ hfailed =>
      obtain ⟨c, hc, hnot⟩ := hfailed hafter
      exact absurd (hserved c hc) hnot
    | consolidates flags => exact DerivationState.fetchCommitted_status hr
  | failsToRevert _ hreverts =>
    rw [hrevert] at hreverts
    cases hreverts
  | revertsTo n reply db unwound hbranch =>
    rw [Turn.isRevert, hbranch] at hrevert
    cases hrevert
  | _ => exact hsame rfl

namespace Pushing

section
variable {config : ChainOrchestratorConfig} {s : Pushing} {t : Turn}

theorem mem_step_pushed_of_mem {hash : B256} (h : hash ∈ s.pushed) :
    hash ∈ (s.step config t).pushed := List.mem_append_left _ h

theorem mem_step_pushed_of_request {more : List BatchRequest}
    (hmore : (s.loop.turn config t).node.pipeline = s.loop.node.pipeline ++ more)
    {request : BatchRequest} (hrequest : request ∈ more) :
    request.batchInfo.hash ∈ (s.step config t).pushed := by
  refine List.mem_append_right _ ?_
  rw [hmore, List.drop_left]
  exact List.mem_map_of_mem hrequest

theorem CaughtUp.step (h : s.CaughtUp) (hcatches : s.CatchesUp config t)
    (hrevert : t.isRevert = false)
    (hmoves : Moves config s.loop.node t (s.step config t).loop.node.derivation) :
    (s.step config t).CaughtUp := by
  obtain ⟨hserved, hfinalized⟩ := hcatches
  refine ⟨hmoves.targets h.targets, ?_, ?_, ?_⟩
  · intro r hr hstatus
    cases hmoves.row hfinalized h.targets hr with
    | keeps q hq _ hsame hreverted =>
      rw [hreverted]
      exact h.reverted q hq (hsame.symm.trans hstatus)
    | commits _ _ hrow =>
      rcases hrow with ⟨hcommitted, -⟩ | ⟨q, hq, -, hsame, hreverted⟩
      · simp [hcommitted] at hstatus
      · rw [hreverted]
        exact h.reverted q hq (hsame.symm.trans hstatus)
    | fetches q _ _ _ hprocessing => simp [hprocessing] at hstatus
    | settles hsettled => simp [BatchStatus.Settled, hstatus] at hsettled
    | reverts _ hreverted => exact hreverted
    | releases _ q _ _ _ hcommitted => simp [hcommitted] at hstatus
  · intro r hr hstatus
    rcases (hmoves.row hfinalized h.targets hr).of_processing hstatus with
      ⟨q, hq, hprocessing, hhash, -⟩ | ⟨more, hmore, request, hrequest, hinfo⟩
    · rw [← hhash]
      exact mem_step_pushed_of_mem (h.processing q hq hprocessing)
    · have hhash : request.batchInfo.hash = r.hash := congrArg BatchInfo.hash hinfo
      rw [← hhash]
      exact mem_step_pushed_of_request hmore hrequest
  · intro hsynced r hr hstatus hlive
    cases hbefore : s.loop.node.syncState.isSynced with
    | false =>
      exact absurd hstatus
        (hmoves.becomesSynced hrevert (hserved hbefore) hbefore hsynced hr)
    | true =>
      cases hmoves.row hfinalized h.targets hr with
      | keeps q hq hinfo hsame hreverted =>
        have hhash : r.hash = q.hash := congrArg BatchInfo.hash hinfo
        rw [hhash]
        exact mem_step_pushed_of_mem (h.committed hbefore q hq (hsame.symm.trans hstatus)
          (hreverted.symm.trans hlive))
      | commits hidle hpush =>
        obtain ⟨request, hrequest, hinfo⟩ := hpush hbefore
        have hhash : request.batchInfo.hash = r.hash := congrArg BatchInfo.hash hinfo
        rw [← hhash]
        refine mem_step_pushed_of_request ?_ hrequest
        rw [hidle.1]
        rfl
      | fetches q _ _ _ hprocessing => simp [hprocessing] at hstatus
      | settles hsettled => simp [BatchStatus.Settled, hstatus] at hsettled
      | reverts hreverted => simp [hreverted] at hstatus
      | releases hreverts => simp [hrevert] at hreverts

/-- A turn pushes what was committed before, as long as nothing is reverted by hand. -/
theorem caughtUp_step (hs : s.loop.stopped = false → s.CaughtUp) (hcatches : s.CatchesUp config t)
    (hrevert : t.isRevert = false) (hrun : (s.step config t).loop.stopped = false) :
    (s.step config t).CaughtUp := by
  obtain ⟨hrunning, hsame | ⟨-, hmoves⟩⟩ := Processed.turn_cases hrun
  · have hstep : s.step config t = s := by
      unfold step
      rw [hsame]
      simp
    rw [hstep]
    exact hs hrunning
  · exact (hs hrunning).step hcatches hrevert hmoves

/-- The node starts unsynced and idle, without batches in processing. -/
theorem commits_after_earlier (config : ChainOrchestratorConfig) (s : Pushing)
    (hsynced : s.loop.node.syncState.isSynced = false) (hidle : s.loop.node.Idle)
    (hprocessing : ∀ r ∈ s.loop.node.db.batchCommits, r.status ≠ .processing)
    (hreverted : ∀ r ∈ s.loop.node.db.batchCommits, r.status = .reverted →
      r.revertedBlockNumber.isSome)
    (turns : List Turn) (hrevert : ∀ t ∈ turns, t.isRevert = false)
    (hmeets : Meets (step config) (CatchesUp config) s turns) :
    Meets (step config) (CommitsAfterEarlier config) s turns := by
  have hstart : s.CaughtUp := by
    refine ⟨⟨?_, ?_⟩, hreverted, fun r hr hstatus => absurd hstatus (hprocessing r hr), ?_⟩
    · change ∀ request ∈ s.loop.node.pipeline, _
      rw [hidle.1]
      simp
    · change ∀ batch ∈ s.loop.node.held, _
      rw [hidle.2]
      simp
    · intro h
      rw [hsynced] at h
      cases h
  refine (hmeets.and (step config) (meets_of_forall (step config) hrevert s)).of_invariant
    (step config) (fun s => s.loop.stopped = false → s.CaughtUp) ?_ (fun _ => hstart)
  intro s t hs hcond
  refine ⟨caughtUp_step hs hcond.1 hcond.2, ?_⟩
  intro blockInfo batch client reply retried _ htakes hsynced _ r hr hlive _
  rw [Processed.takes, Bool.and_eq_true, Bool.not_eq_true'] at htakes
  exact (hs htakes.1).earlier hsynced hr hlive

end
end Pushing

def thirdCommit : BatchCommitData := ⟨13, 3, 40, 0, [], none, none, none⟩

def commitsAroundSync (client : L2Client) (between : List Turn) : List Turn :=
  ⟨notified (.batchCommit ⟨60, 160⟩ secondCommit), noFaults⟩ ::
    ⟨.notification .synced client validReply none, noFaults⟩ ::
    (between ++ [⟨notified (.batchCommit ⟨61, 161⟩ thirdCommit), noFaults⟩])

def secondConsolidated : List Turn :=
  [⟨.derivedBatch (secondDerived .consolidated), noFaults⟩,
    ⟨.attempt twoBlockClient validReplies, noFaults⟩]

def unsafeSecond : Pushing :=
  ⟨⟨{ awaitingNode false with fcs := ⟨⟨2, 22⟩, ⟨1, 21⟩, ⟨0, 7⟩⟩ }, false⟩, []⟩

theorem commits_after_earlier_served :
    Meets (Pushing.step sampleConfig) (Pushing.CommitsAfterEarlier sampleConfig) unsafeSecond
      (commitsAroundSync twoBlockClient secondConsolidated) := by
  refine Pushing.commits_after_earlier sampleConfig unsafeSecond (by decide) ⟨rfl, rfl⟩ (by decide)
    (by decide) _ (by simp [commitsAroundSync, secondConsolidated, notified, Turn.isRevert]) ?_
  refine ⟨⟨fun _ c hc => ?_, trivial⟩, ⟨fun _ c hc => ?_, trivial⟩, ⟨fun _ c hc => ?_, trivial⟩,
    ⟨fun _ c hc => ?_, trivial⟩, ⟨fun _ c hc => ?_, trivial⟩, trivial⟩
  · cases hc
  · cases hc
    exact ⟨⟨_, _, rfl, rfl, rfl, rfl, rfl, trivial⟩, rfl⟩
  · cases hc
  · cases hc
  · cases hc

/-- The client does not have block 2 when L1 becomes synced: the node counts as synced, and the
third batch is pushed while the second never was. -/
theorem third_pushed_without_second :
    ¬Meets (Pushing.step sampleConfig) (Pushing.CommitsAfterEarlier sampleConfig) unsafeSecond
      (commitsAroundSync (.ofChain []) []) := by
  rintro ⟨-, -, hthird, -⟩
  have hsecond := hthird _ _ _ _ _ rfl (by decide) (by decide)
    ⟨⟨⟨3, 13⟩, .consolidated⟩, by decide, rfl⟩ ⟨2, 12, 30, 0, [], none, none, none, .committed⟩
    (by decide) rfl (by decide)
  revert hsecond
  unfold BatchStatus.Settled
  decide

end RollupNode
