import RollupNode.BatchRowMoves
import RollupNode.DerivedRows

set_option autoImplicit false

/-! Who answers for a batch in processing: a request that waits in the pipeline, or the slot. -/
namespace RollupNode
open OrderedWork GuardedRuns RelationalTable

namespace Node

def Owns (node : Node) (r : BatchCommitRow) : Prop :=
  (∃ request ∈ node.pipeline, request.batchInfo = r.batchInfo) ∨
    ∃ batch ∈ node.held, batch.batchInfo = r.batchInfo

def ProcessingOwned (node : Node) : Prop :=
  ∀ r ∈ node.db.batchCommits, r.status = .processing → node.Owns r

end Node

/-- No two batches that are live once L1 is back at block `n` share an index. -/
def OneLiveAsOf (n : ℕ) (batches : Table BatchCommitRow.hash) : Prop :=
  ∀ a ∈ batches, ∀ b ∈ batches, a.blockNumber ≤ n → b.blockNumber ≤ n →
    a.revertedBlockNumber.all (n < ·) = true → b.revertedBlockNumber.all (n < ·) = true →
    a.index = b.index → a.hash = b.hash

def OneLive (batches : Table BatchCommitRow.hash) : Prop :=
  ∀ a ∈ batches, ∀ b ∈ batches, a.revertedBlockNumber = none → b.revertedBlockNumber = none →
    a.index = b.index → a.hash = b.hash

instance (batches : Table BatchCommitRow.hash) : Decidable (OneLive batches) := by
  unfold OneLive
  infer_instance

def WaitingLive (batches : Table BatchCommitRow.hash) : Prop :=
  ∀ r ∈ batches, r.status = .committed ∨ r.status = .processing → r.revertedBlockNumber = none

section
variable {config : ChainOrchestratorConfig} {node : Node} {t : Turn} {s : DerivationState}

theorem WaitingLive.moves (h : WaitingLive node.db.batchCommits) (hmoves : Moves config node t s)
    (hkeeps : t.KeepsFinalized node) (htargets : node.derivation.Targets) :
    WaitingLive s.batches := by
  intro r hr hwaiting
  cases hmoves.row hkeeps htargets hr with
  | keeps q hq _ hstatus hreverted =>
    rw [hstatus] at hwaiting
    exact hreverted.trans (h q hq hwaiting)
  | commits _ _ hrow =>
    rcases hrow with ⟨-, hlive⟩ | ⟨q, hq, -, hstatus, hreverted⟩
    · exact hlive
    · rw [hstatus] at hwaiting
      exact hreverted.trans (h q hq hwaiting)
  | fetches q hq hcommitted _ _ hreverted => exact hreverted.trans (h q hq (Or.inl hcommitted))
  | settles hsettled => rcases hwaiting with hs | hs <;> simp [BatchStatus.Settled, hs] at hsettled
  | reverts hreverted => simp [hreverted] at hwaiting
  | releases _ q hq hprocessing _ _ hreverted =>
    exact hreverted.trans (h q hq (Or.inr hprocessing))

variable {db : Db} {n : ℕ} {r : BatchCommitRow}

theorem Db.live_withoutAbove (hr : r ∈ (db.withoutAbove n).batchCommits)
    (hlive : r.revertedBlockNumber = none) :
    ∃ old ∈ db.batchCommits, old.blockNumber ≤ n ∧
      old.revertedBlockNumber.all (n < ·) = true ∧ r = BatchCommitRow.asOf n old := by
  obtain ⟨old, hold, hblock, rfl⟩ := (Db.mem_withoutAbove_batchCommits _ _ _).1 hr
  refine ⟨old, hold, hblock, ?_, rfl⟩
  have hfilter : old.revertedBlockNumber.filter (· ≤ n) = none := hlive
  cases hreverted : old.revertedBlockNumber with
  | none => rfl
  | some m =>
    rw [hreverted] at hfilter
    simpa using hfilter

theorem OneLiveAsOf.withoutAbove (h : OneLiveAsOf n db.batchCommits) :
    OneLive (db.withoutAbove n).batchCommits := by
  intro a ha b hb halive hblive hindex
  obtain ⟨a', ha', hablock, hareverted, rfl⟩ := Db.live_withoutAbove ha halive
  obtain ⟨b', hb', hbblock, hbreverted, rfl⟩ := Db.live_withoutAbove hb hblive
  exact h a' ha' b' hb' hablock hbblock hareverted hbreverted hindex

theorem WaitingLive.withoutAbove (h : WaitingLive db.batchCommits) :
    WaitingLive (db.withoutAbove n).batchCommits := by
  intro r hr hwaiting
  obtain ⟨q, hq, -, rfl⟩ := (Db.mem_withoutAbove_batchCommits _ _ _).1 hr
  by_cases habove : Db.revertedAbove n q = true
  · have hstatus : (Db.BatchCommitRow.asOf n q).status = .consolidated := if_pos habove
    rw [hstatus] at hwaiting
    simp at hwaiting
  · have hstatus : (Db.BatchCommitRow.asOf n q).status = q.status := if_neg habove
    rw [hstatus] at hwaiting
    change q.revertedBlockNumber.filter _ = none
    rw [h q hq hwaiting]
    rfl

theorem heldInvalidation_of_processing {batch : BatchDerivationResult}
    (hone : OneLive db.batchCommits) (hblocks : ∀ r ∈ db.batchCommits, r.blockNumber ≤ n)
    (hr : r ∈ db.batchCommits) (hlive : r.revertedBlockNumber = none)
    (hinfo : r.batchInfo = batch.batchInfo) :
    (∃ reason, Node.heldInvalidation db n batch = (some reason, true)) ∨
      Node.heldInvalidation db n batch = (none, false) := by
  have hfound : db.getBatchByIndex batch.batchInfo.index = some r.toCommitData := by
    rw [← hinfo]
    refine Db.getBatchByIndex_of_alone hr hlive ?_
    intro q hq hqlive hindex
    exact hone q hq r hr hqlive hlive hindex
  have hhash : r.toCommitData.hash = batch.batchInfo.hash := by
    rw [← hinfo]
    rfl
  have hblock : ¬n < r.toCommitData.blockNumber := Nat.not_lt.2 (hblocks r hr)
  unfold Node.heldInvalidation
  rw [hfound]
  simp only [hhash, ne_eq, not_true_eq_false, if_false, hblock]
  split
  · rename_i hinvalid
    exact Or.inl ⟨_, by rw [hinvalid]⟩
  · rename_i hvalid
    exact Or.inr (by rw [Bool.of_not_eq_true hvalid])

theorem Moves.dropped {batch : BatchDerivationResult} (h : Moves config node t s)
    (htargets : node.derivation.Targets) (hwaiting : WaitingLive node.db.batchCommits)
    (hone : ∀ n reply, t.branch = .command (.revertToL1Block n reply) →
      OneLiveAsOf n node.db.batchCommits) (hheld : node.held = some batch) (hr : r ∈ s.batches)
    (hinfo : r.batchInfo = batch.batchInfo) (hprocessing : r.status = .processing) :
    s.held = some batch := by
  have hhash : r.hash = batch.batchInfo.hash := congrArg BatchInfo.hash hinfo
  cases h with
  | syncs _ hsync => exact hsync.slot.1.trans hheld
  | completes client replies held _ hheld' =>
    rw [hheld] at hheld'
    cases hheld'
    obtain ⟨q, hq, ⟨-, rfl⟩ | ⟨hother, rfl⟩⟩ := Table.cases_of_mem_update hr
    · have hsettled : batch.targetStatus.Settled := htargets.held batch hheld
      have hprocessing : batch.targetStatus = .processing := hprocessing
      rw [hprocessing] at hsettled
      rcases hsettled with hs | hs <;> cases hs
    · exact absurd hhash (of_decide_eq_false hother)
  | holds yielded request rest _ hfree =>
    rw [hheld] at hfree
    cases hfree
  | revertsTo n reply db unwound hbranch hunwind =>
    have hrows := Db.unwind_batchCommits hunwind
    have hmem : r ∈ db.batchCommits := by
      rw [node.afterRevert_batches db n] at hr
      rcases Node.mem_revalidateHeld hr with hkept | ⟨q, -, -, rfl⟩
      · exact hkept
      · cases hprocessing
    have honeLive : OneLive db.batchCommits := hrows ▸ (hone n reply hbranch).withoutAbove
    have hlive : r.revertedBlockNumber = none := by
      rw [hrows] at hmem
      exact hwaiting.withoutAbove r hmem (Or.inr hprocessing)
    have hblocks : ∀ q ∈ db.batchCommits, q.blockNumber ≤ n := by
      intro q hq
      rw [hrows] at hq
      obtain ⟨old, -, hblock, rfl⟩ := (Db.mem_withoutAbove_batchCommits _ _ _).1 hq
      exact hblock
    rcases heldInvalidation_of_processing honeLive hblocks hmem hlive hinfo with
      ⟨reason, hinvalid⟩ | hvalid
    · -- the finalization is gone, and the row went back to committed
      rw [node.afterRevert_batches db n, hheld] at hr
      simp only [Node.revalidateHeld, hinvalid] at hr
      obtain ⟨q, hq, ⟨-, rfl⟩ | ⟨hother, rfl⟩⟩ := Table.cases_of_mem_update hr
      · cases hprocessing
      · exact absurd ⟨hhash, hprocessing⟩ (of_decide_eq_false hother)
    · unfold Node.afterRevert
      simp only [hheld, Node.revalidateHeld, hvalid]
  | _ => exact hheld

end

namespace Deriving

def Owner (s : Deriving) (r : BatchCommitRow) : Prop :=
  (∃ job ∈ s.jobs, job.request.batchInfo = r.batchInfo ∧
      ∀ d ∈ job.result, d.result.batchInfo = r.batchInfo) ∨
    ∃ batch ∈ s.loop.node.held, batch.batchInfo = r.batchInfo

structure Owned (s : Deriving) : Prop where
  tracks : s.Tracks
  targets : s.loop.node.derivation.Targets
  waiting : WaitingLive s.loop.node.db.batchCommits
  owners : ∀ r ∈ s.loop.node.db.batchCommits, r.status = .processing → s.Owner r

theorem Owned.processingOwned {s : Deriving} (h : s.Owned) : s.loop.node.ProcessingOwned := by
  intro r hr hprocessing
  rcases h.owners r hr hprocessing with ⟨job, hjob, hinfo, -⟩ | hheld
  · refine Or.inl ⟨job.request, ?_, hinfo⟩
    rw [← h.tracks.requests]
    exact List.mem_map_of_mem hjob
  · exact Or.inr hheld

/-- What a step meets: finality that the Engine does not take moves no batch to processing, and
live batches are told apart by their index where they are looked up by it. -/
def KeepsOwners (s : Deriving) : DerivingAction → Prop
  | .turn t => t.KeepsFinalized s.loop.node ∧
    ∀ n reply, t.branch = .command (.revertToL1Block n reply) →
      OneLiveAsOf n s.loop.node.db.batchCommits
  | .derives _ _ _ => OneLive s.loop.node.db.batchCommits
  | .yields => True

section
variable {config : ChainOrchestratorConfig} {s : Deriving}

theorem Owner.of_idle {r : BatchCommitRow} (h : s.Owner r) (htracks : s.Tracks) :
    ¬s.loop.node.Idle := by
  rintro ⟨hpipeline, hheld⟩
  rcases h with ⟨job, hjob, -⟩ | ⟨batch, hbatch, -⟩
  · have hrequests := htracks.requests
    rw [hpipeline] at hrequests
    rw [List.map_eq_nil_iff.1 hrequests] at hjob
    cases hjob
  · rw [hheld] at hbatch
    cases hbatch

theorem Owned.takeTurn (h : s.Owned) {t : Turn} (hbranch : t.branch.isDerivedBatch = false)
    (hkeeps : s.KeepsOwners (.turn t))
    (hmoves : Moves config s.loop.node t (s.takeTurn config t).loop.node.derivation) :
    (s.takeTurn config t).Owned := by
  obtain ⟨hfinalized, hone⟩ := hkeeps
  refine ⟨h.tracks.takeTurn hbranch hmoves, hmoves.targets h.targets,
    h.waiting.moves hmoves hfinalized h.targets, ?_⟩
  intro r hr hprocessing
  rcases (hmoves.row hfinalized h.targets hr).of_processing hprocessing with
    ⟨q, hq, hstatus, -, hinfo | hidle⟩ | ⟨more, hmore, request, hrequest, hinfo⟩
  · rcases h.owners q hq hstatus with ⟨job, hjob, hrequest, hresult⟩ | ⟨batch, hbatch, hheld⟩
    · refine Or.inl ⟨job, List.mem_append_left _ hjob, hrequest.trans hinfo.symm, ?_⟩
      intro d hd
      exact (hresult d hd).trans hinfo.symm
    · have hbatchInfo : r.batchInfo = batch.batchInfo := hinfo.trans hheld.symm
      exact Or.inr ⟨batch, hmoves.dropped h.targets h.waiting hone hbatch hr hbatchInfo hprocessing,
        hbatchInfo.symm⟩
  · -- nothing was in processing while the node was idle
    exact absurd hidle ((h.owners q hq hstatus).of_idle h.tracks)
  · have hmore : (s.loop.turn config t).node.pipeline = s.loop.node.pipeline ++ more := hmore
    refine Or.inl ⟨⟨request, none⟩, List.mem_append_right _ ?_, hinfo, by simp⟩
    rw [hmore, List.drop_left]
    exact List.mem_map_of_mem hrequest

theorem Owned.derives (h : s.Owned) (place : ℕ) (fault : Option DatabaseError)
    (decode : BatchCommitData → Except String (List DerivedAttributes × List ℕ))
    (hone : OneLive s.loop.node.db.batchCommits) :
    (s.derives place ⟨fault, s.loop.node.db, decode⟩).Owned := by
  refine ⟨h.tracks.derives _ _, h.targets, h.waiting, ?_⟩
  intro r hr hprocessing
  rcases h.owners r hr hprocessing with ⟨job, hjob, hrequest, hresult⟩ | hheld
  · rcases mem_modify_of_mem _ place hjob with hkept | hchanged
    · exact Or.inl ⟨job, hkept, hrequest, hresult⟩
    · cases hnone : job.result with
      | some d =>
        simp only [hnone] at hchanged
        exact Or.inl ⟨job, hchanged, hrequest, hresult⟩
      | none =>
        simp only [hnone] at hchanged
        refine Or.inl ⟨_, hchanged, hrequest, ?_⟩
        intro d hd
        -- the row is the only live one at the index that the derivation asks for
        obtain ⟨hfound, hinfo, -⟩ := deriveFrom_spec hd
        have hlive := h.waiting r hr (Or.inr hprocessing)
        have hrow : s.loop.node.db.getBatchByIndex r.index = some r.toCommitData :=
          Db.getBatchByIndex_of_alone hr hlive
            (fun q hq hqlive hindex => hone q hq r hr hqlive hlive hindex)
        have hfound : s.loop.node.db.getBatchByIndex job.request.batchInfo.index =
          some d.source := hfound
        rw [hrequest] at hfound
        rw [hinfo, ← Option.some.inj (hrow.symm.trans hfound)]
        rfl
  · exact Or.inr hheld

theorem Owned.yields (h : s.Owned) : (s.yields config).Owned := by
  have htracks : (s.yields config).Tracks := h.tracks.yields
  rcases yields_cases h.tracks with hsame | ⟨request, d, rest, hjobs, -, hfree, hyields⟩
  · rw [hsame]
    exact h
  · rw [hyields] at htracks ⊢
    have hanswers : Answers request d.result := by
      have hdone := h.tracks.answers
      rw [hjobs] at hdone
      exact hdone _ List.mem_cons_self d rfl
    have hpipeline : s.loop.node.pipeline = request :: OrderedWork.requests rest := by
      rw [← h.tracks.requests, hjobs]
      rfl
    have htargets : ∀ r ∈ request :: OrderedWork.requests rest, r.targetStatus.Settled := by
      rw [← hpipeline]
      exact h.targets.pipeline
    refine ⟨htracks, ⟨fun r hr => htargets r (List.mem_cons_of_mem _ hr), ?_⟩, h.waiting, ?_⟩
    · rintro _ ⟨⟩
      rw [hanswers.2]
      exact htargets request List.mem_cons_self
    · intro r hr hprocessing
      rcases h.owners r hr hprocessing with ⟨job, hjob, hrequest, hresult⟩ | ⟨batch, hbatch, -⟩
      · rw [hjobs] at hjob
        rcases List.mem_cons.1 hjob with rfl | hjob
        · exact Or.inr ⟨d.result, rfl, hresult d rfl⟩
        · exact Or.inl ⟨job, hjob, hrequest, hresult⟩
      · rw [hfree] at hbatch
        cases hbatch

theorem Starts.owned (h : s.Starts)
    (hprocessing : ∀ r ∈ s.loop.node.db.batchCommits, r.status ≠ .processing)
    (hcommitted : ∀ r ∈ s.loop.node.db.batchCommits, r.status = .committed →
      r.revertedBlockNumber = none) : s.Owned := by
  refine ⟨h.tracks, ⟨?_, ?_⟩, ?_, ?_⟩
  · change ∀ request ∈ s.loop.node.pipeline, _
    rw [h.1.1]
    simp
  · change ∀ batch ∈ s.loop.node.held, _
    rw [h.1.2]
    simp
  · intro r hr hwaiting
    rcases hwaiting with hstatus | hstatus
    · exact hcommitted r hr hstatus
    · exact absurd hstatus (hprocessing r hr)
  · intro r hr hstatus
    exact absurd hstatus (hprocessing r hr)

/-- The node starts without batches in processing, as the start-up leaves it. -/
theorem processing_owned (config : ChainOrchestratorConfig) (s : Deriving) (hs : s.Starts)
    (hprocessing : ∀ r ∈ s.loop.node.db.batchCommits, r.status ≠ .processing)
    (hcommitted : ∀ r ∈ s.loop.node.db.batchCommits, r.status = .committed →
      r.revertedBlockNumber = none)
    (actions : List DerivingAction) (hmeets : Meets (step config) KeepsOwners s actions)
    (hrun : (run (step config) s actions).loop.stopped = false) :
    (run (step config) s actions).loop.node.ProcessingOwned := by
  have howned := hmeets.invariant (step config) (fun s => s.loop.stopped = false → s.Owned) ?_
    (fun _ => hs.owned hprocessing hcommitted)
  · exact (howned hrun).processingOwned
  intro s action howned hkeeps
  refine invariant_step Owned KeepsOwners ?_ ?_ ?_ s action howned hkeeps
  · intro s t h hkeeps hbranch hmoves
    exact h.takeTurn hbranch hkeeps hmoves
  · intro s place fault decode h hone
    exact h.derives place fault decode hone
  · intro s h
    exact h.yields

end
end Deriving

def finalizedBatchActions (reply : Reply ForkchoiceUpdated) : List DerivingAction :=
  [.turn ⟨notified (.batchCommit ⟨60, 160⟩ secondCommit), noFaults⟩,
    .turn ⟨notified (.batchFinalization 12 2 ⟨65, 165⟩), noFaults⟩,
    .turn ⟨.notification (.finalized 70) (.ofChain []) reply none, noFaults⟩,
    .derives 0 none (fun _ => .ok ((secondDerived .finalized).attributes, [])), .yields,
    .turn ⟨.attempt twoBlockClient validReplies, noFaults⟩]

def unsyncedDerivation : Deriving := ⟨⟨awaitingNode false, false⟩, [], none⟩

theorem processing_owned_finalizedBatch :
    Meets (Deriving.step sampleConfig) Deriving.KeepsOwners unsyncedDerivation
        (finalizedBatchActions validReply) ∧
      (run (Deriving.step sampleConfig) unsyncedDerivation
        (finalizedBatchActions validReply)).loop.node.ProcessingOwned := by
  have hmeets : Meets (Deriving.step sampleConfig) Deriving.KeepsOwners unsyncedDerivation
      (finalizedBatchActions validReply) := by
    refine ⟨⟨trivial, by simp [notified]⟩, ⟨trivial, by simp [notified]⟩, ⟨?_, by simp⟩, ?_, trivial,
      ⟨trivial, by simp⟩, trivial⟩
    · rintro ⟨batch, block, hbatch, hblock, hfails⟩
      cases hbatch
      cases hblock
      exact absurd (by unfold Node.AcceptsFinalized; decide) hfails
    · change OneLive _
      decide
  exact ⟨hmeets, Deriving.processing_owned sampleConfig unsyncedDerivation ⟨⟨rfl, rfl⟩, rfl, rfl⟩
    (by decide) (by decide) _ hmeets (by decide)⟩

/-- The Engine cannot be reached when L1 finality moves the first batch, and the second one with
it. -/
theorem processing_without_owner :
    (run (Deriving.step sampleConfig) unsyncedDerivation
        ((finalizedBatchActions (.error "connection refused")).take 3)).loop.stopped = false ∧
      ¬(run (Deriving.step sampleConfig) unsyncedDerivation
        ((finalizedBatchActions (.error "connection refused")).take 3)).loop.node.ProcessingOwned := by
  refine ⟨by decide, ?_⟩
  intro h
  have howned := h ⟨2, 12, 30, 0, [], none, some 65, none, .processing⟩ (by decide) rfl
  revert howned
  unfold Node.Owns
  decide

end RollupNode
