import RollupNode.BatchRows
import RollupNode.DerivationMoves

set_option autoImplicit false

/-! What a turn of the run loop does to each batch row, and to the target of each batch that is
under way. -/
namespace RollupNode
open RelationalTable

def BatchStatus.Settled (status : BatchStatus) : Prop := status = .consolidated ∨ status = .finalized

structure DerivationState.Targets (s : DerivationState) : Prop where
  pipeline : ∀ request ∈ s.pipeline, request.targetStatus.Settled
  held : ∀ batch ∈ s.held, batch.targetStatus.Settled

theorem DerivationState.targets_fetch {s : DerivationState}
    (hpipeline : ∀ request ∈ s.pipeline, request.targetStatus.Settled)
    (hheld : ∀ batch ∈ s.held, batch.targetStatus.Settled) (p : BatchCommitRow → Bool)
    {target : BatchStatus} (htarget : target.Settled) : (s.fetch p target).Targets := by
  refine ⟨?_, hheld⟩
  intro request hrequest
  rcases List.mem_append.1 hrequest with hold | hnew
  · exact hpipeline request hold
  · obtain ⟨r, -, rfl⟩ := List.mem_map.1 hnew
    exact htarget

def Turn.KeepsFinalized (node : Node) (t : Turn) : Prop :=
  match t.branch with
  | .notification (.finalized n) _ reply _ => node.FinalizationFails n reply →
    ∀ r ∈ node.db.batchCommits, Db.finalizedWithStatus .committed n r = false
  | _ => True

inductive RowMoves (node : Node) (t : Turn) (s : DerivationState) (r : BatchCommitRow) : Prop where
  | keeps (q : BatchCommitRow) (hq : q ∈ node.db.batchCommits) (hinfo : r.batchInfo = q.batchInfo)
      (hstatus : r.status = q.status) (hreverted : r.revertedBlockNumber = q.revertedBlockNumber)
  | commits (hidle : node.Idle)
      (hpush : node.syncState.isSynced = true → ∃ request ∈ s.pipeline,
        request.batchInfo = r.batchInfo)
      (hrow : (r.status = .committed ∧ r.revertedBlockNumber = none) ∨
        ∃ q ∈ node.db.batchCommits, q.hash = r.hash ∧ r.status = q.status ∧
          r.revertedBlockNumber = q.revertedBlockNumber)
  | fetches (q : BatchCommitRow) (hq : q ∈ node.db.batchCommits) (hcommitted : q.status = .committed)
      (hinfo : r.batchInfo = q.batchInfo) (hstatus : r.status = .processing)
      (hreverted : r.revertedBlockNumber = q.revertedBlockNumber)
      (hrequest : ∃ more, s.pipeline = node.pipeline ++ more ∧
        ∃ request ∈ more, request.batchInfo = r.batchInfo)
  | settles (hstatus : r.status.Settled)
  | reverts (hstatus : r.status = .reverted) (hreverted : r.revertedBlockNumber.isSome)
  | releases (hrevert : t.isRevert = true) (q : BatchCommitRow) (hq : q ∈ node.db.batchCommits)
      (hprocessing : q.status = .processing) (hinfo : r.batchInfo = q.batchInfo)
      (hstatus : r.status = .committed) (hreverted : r.revertedBlockNumber = q.revertedBlockNumber)

section
variable {config : ChainOrchestratorConfig} {node : Node} {t : Turn} {s : DerivationState}

theorem SyncMoves.targets {c : Option Consolidation} {s s' : DerivationState} (h : SyncMoves s c s')
    (hs : s.Targets) :
    s'.Targets := by
  cases h with
  | keeps => exact hs
  | leaves => exact ⟨hs.pipeline, hs.held⟩
  | marks flags => exact ⟨hs.pipeline, hs.held⟩
  | consolidates flags =>
    refine DerivationState.targets_fetch ?_ ?_ _ (Or.inl rfl)
    · exact hs.pipeline
    · exact hs.held

theorem Node.afterRevert_targets (node : Node) (db : Db) (n : ℕ) (hs : node.derivation.Targets) :
    (node.afterRevert db n).Targets := by
  unfold afterRevert
  simp only
  split
  · exact ⟨hs.pipeline, hs.held⟩
  · exact ⟨hs.pipeline, by simp⟩
  · exact ⟨hs.pipeline, hs.held⟩

theorem Moves.targets (h : Moves config node t s) (hs : node.derivation.Targets) : s.Targets := by
  cases h with
  | syncs _ hsync => exact hsync.targets hs
  | completes => exact ⟨hs.pipeline, by simp⟩
  | holds batch request rest _ _ hpipeline _ htarget =>
    have hrequests : ∀ request ∈ node.pipeline, request.targetStatus.Settled := hs.pipeline
    rw [hpipeline] at hrequests
    refine ⟨fun r hr => hrequests r (List.mem_cons_of_mem _ hr), ?_⟩
    rintro _ ⟨⟩
    rw [← htarget]
    exact hrequests request List.mem_cons_self
  | commits blockInfo batch =>
    refine ⟨?_, hs.held⟩
    intro request hrequest
    simp only at hrequest
    split at hrequest
    · rw [List.mem_singleton.1 hrequest]
      exact Or.inl rfl
    · cases hrequest
  | finalizes =>
    refine DerivationState.targets_fetch ?_ ?_ _ (Or.inr rfl)
    · exact hs.pipeline
    · exact hs.held
  | finalizesBatch =>
    refine DerivationState.targets_fetch ?_ ?_ _ (Or.inr rfl)
    · exact hs.pipeline
    · exact hs.held
  | revertsTo n reply db => exact node.afterRevert_targets db n hs
  | _ => exact ⟨hs.pipeline, hs.held⟩

/-! ### The rows -/

variable {r : BatchCommitRow} {db : Db}

theorem RowMoves.fetch {base : DerivationState} {p : BatchCommitRow → Bool} {target : BatchStatus}
    (hpipeline : base.pipeline = node.pipeline) (hp : ∀ q, p q = true → q.status = .committed)
    (hrows : ∀ q ∈ base.batches, q.status.Settled ∨ ∃ old ∈ node.db.batchCommits,
      q.batchInfo = old.batchInfo ∧ q.status = old.status ∧
        q.revertedBlockNumber = old.revertedBlockNumber) (hr : r ∈ (base.fetch p target).batches) :
    RowMoves node t (base.fetch p target) r := by
  obtain ⟨q, hq, ⟨hpq, rfl⟩ | ⟨-, rfl⟩⟩ := Table.cases_of_mem_update hr
  · have hcommitted := hp q hpq
    rcases hrows q hq with hsettled | ⟨old, hold, hinfo, hstatus, hreverted⟩
    · rw [hcommitted] at hsettled
      rcases hsettled with h | h <;> cases h
    · refine .fetches old hold (hstatus.symm.trans hcommitted) hinfo rfl hreverted ?_
      refine ⟨(orderBy BatchCommitRow.index (base.batches.select p)).map
        (fun r => ⟨r.batchInfo, target⟩), by rw [← hpipeline]; rfl, ⟨q.batchInfo, target⟩, ?_, rfl⟩
      have hselected : q ∈ orderBy BatchCommitRow.index (base.batches.select p) :=
        (List.mem_insertionSort _).2 ((base.batches.mem_select p q).2 ⟨hq, hpq⟩)
      exact List.mem_map_of_mem hselected
  · rcases hrows r hq with hsettled | ⟨old, hold, hinfo, hstatus, hreverted⟩
    · exact .settles hsettled
    · exact .keeps old hold hinfo hstatus hreverted

theorem Db.mem_withFinalized {n : ℕ} (h : r ∈ (db.withFinalized n).batchCommits) :
    r.status = .finalized ∨ r ∈ db.batchCommits := by
  obtain ⟨q, hq, ⟨-, rfl⟩ | ⟨-, rfl⟩⟩ := Table.cases_of_mem_update h
  · exact Or.inl rfl
  · exact Or.inr hq

theorem Db.mem_finalizeBatchesUpToIndex {n index : ℕ}
    (h : r ∈ (db.finalizeBatchesUpToIndex index n).batchCommits) :
    ∃ q ∈ db.batchCommits, r.batchInfo = q.batchInfo ∧ r.status = q.status ∧
      r.revertedBlockNumber = q.revertedBlockNumber := by
  obtain ⟨q, hq, ⟨-, rfl⟩ | ⟨-, rfl⟩⟩ := Table.cases_of_mem_update h
  · exact ⟨q, hq, rfl, rfl, rfl⟩
  · exact ⟨r, hq, rfl, rfl, rfl⟩

theorem RowMoves.asOf {n : ℕ} (hr : r ∈ (node.db.withoutAbove n).batchCommits) :
    RowMoves node t s r := by
  obtain ⟨q, hq, -, rfl⟩ := (Db.mem_withoutAbove_batchCommits _ _ _).1 hr
  by_cases habove : Db.revertedAbove n q = true
  · exact .settles (Or.inl (if_pos habove))
  · refine .keeps q hq rfl (if_neg habove) ?_
    exact (Db.filter_le_eq_ite n _).trans (if_neg habove)

theorem Db.mem_insertBatch {b : BatchCommitData} (h : r ∈ (db.insertBatch b).batchCommits) :
    (r ∈ db.batchCommits ∧ r.hash ≠ b.hash) ∨ r.batchInfo = b.batchInfo ∧
      ((r.status = .committed ∧ r.revertedBlockNumber = none) ∨
        ∃ q ∈ db.batchCommits, q.hash = r.hash ∧ r.status = q.status ∧
          r.revertedBlockNumber = q.revertedBlockNumber) := by
  rcases Table.cases_of_mem_upsert _ _ _ _ h with hkept | ⟨-, rfl⟩ | ⟨q, hq, hkey, rfl⟩
  · exact Or.inl hkept
  · exact Or.inr ⟨rfl, Or.inl ⟨rfl, rfl⟩⟩
  · refine Or.inr ⟨?_, Or.inr ⟨q, hq, rfl, rfl, rfl⟩⟩
    have hkey : q.hash = b.hash := hkey
    rw [BatchCommitRow.batchInfo, BatchCommitData.batchInfo, ← hkey]
    rfl

theorem Node.mem_revalidateHeld {n : ℕ} {held : Option BatchDerivationResult}
    (h : r ∈ (revalidateHeld db n held).1.batchCommits) :
    r ∈ db.batchCommits ∨ ∃ q ∈ db.batchCommits, q.status = .processing ∧
      r = { q with status := .committed } := by
  cases held with
  | none => exact Or.inl h
  | some batch =>
    simp only [revalidateHeld] at h
    split at h
    · obtain ⟨q, hq, ⟨hexpected, rfl⟩ | ⟨-, rfl⟩⟩ := Table.cases_of_mem_update h
      · exact Or.inr ⟨q, hq, (of_decide_eq_true hexpected).2, rfl⟩
      · exact Or.inl hq
    · exact Or.inl h
    · exact Or.inl h

theorem Node.afterRevert_batches (node : Node) (db : Db) (n : ℕ) :
    (node.afterRevert db n).batches = (revalidateHeld db n node.held).1.batchCommits := by
  unfold afterRevert
  simp only
  split <;> rfl

theorem SyncMoves.row {c : Option Consolidation} (h : SyncMoves node.derivation c s)
    (hr : r ∈ s.batches) :
    RowMoves node t s r := by
  cases h with
  | keeps => exact .keeps r hr rfl rfl rfl
  | leaves => exact .keeps r hr rfl rfl rfl
  | marks flags => exact .keeps r hr rfl rfl rfl
  | consolidates flags =>
    refine .fetch rfl (fun q hq => of_decide_eq_true hq) ?_ hr
    intro q hq
    exact Or.inr ⟨q, hq, rfl, rfl, rfl⟩

theorem Moves.row (h : Moves config node t s) (hkeeps : t.KeepsFinalized node)
    (htargets : node.derivation.Targets) (hr : r ∈ s.batches) : RowMoves node t s r := by
  have hfinalized {n : ℕ} {q : BatchCommitRow} (hq : q ∈ (node.db.withFinalized n).batchCommits) :
      q.status.Settled ∨ ∃ old ∈ node.db.batchCommits, q.batchInfo = old.batchInfo ∧
        q.status = old.status ∧ q.revertedBlockNumber = old.revertedBlockNumber := by
    rcases Db.mem_withFinalized hq with hstatus | hold
    · exact Or.inl (Or.inr hstatus)
    · exact Or.inr ⟨q, hold, rfl, rfl, rfl⟩
  have hcommitted {n : ℕ} (q : BatchCommitRow) (hq : Db.finalizedWithStatus .committed n q = true) :
      q.status = .committed := Db.status_of_finalizedWithStatus hq
  cases h with
  | syncs _ hsync => exact hsync.row hr
  | completes client replies batch _ hheld =>
    obtain ⟨q, hq, ⟨-, rfl⟩ | ⟨-, rfl⟩⟩ := Table.cases_of_mem_update hr
    · exact .settles (htargets.held batch hheld)
    · exact .keeps r hq rfl rfl rfl
  | holds => exact .keeps r hr rfl rfl rfl
  | commits blockInfo batch client reply retried _ hidle =>
    rcases Db.mem_insertBatch hr with ⟨hold, -⟩ | ⟨hinfo, hrow⟩
    · exact .keeps r hold rfl rfl rfl
    · refine .commits hidle ?_ hrow
      intro hsynced
      exact ⟨⟨batch.batchInfo, .consolidated⟩, by simp [hsynced], hinfo.symm⟩
  | reverts first last blockInfo =>
    rw [Db.setBatchRevertBlockNumberForBatchRange_batchCommits] at hr
    obtain ⟨q, hq, ⟨-, rfl⟩ | ⟨-, rfl⟩⟩ := Table.cases_of_mem_update hr
    · exact .reverts rfl rfl
    · exact .keeps r hq rfl rfl rfl
  | finalizes n => exact .fetch rfl hcommitted (fun q hq => hfinalized hq) hr
  | losesFinalized n client reply retried hbranch _ hfails =>
    rw [Turn.KeepsFinalized, hbranch] at hkeeps
    have hnone := hkeeps hfails
    obtain ⟨q, hq, ⟨hselected, rfl⟩ | ⟨-, rfl⟩⟩ := Table.cases_of_mem_update hr
    · rcases Db.mem_withFinalized hq with hstatus | hold
      · have hstatus' := hcommitted q hselected
        rw [hstatus] at hstatus'
        cases hstatus'
      · rw [hnone q hold] at hselected
        cases hselected
    · rcases hfinalized hq with hsettled | ⟨old, hold, hinfo, hstatus, hreverted⟩
      · exact .settles hsettled
      · exact .keeps old hold hinfo hstatus hreverted
  | recordsFinalization index n =>
    obtain ⟨q, hq, hinfo, hstatus, hreverted⟩ := Db.mem_finalizeBatchesUpToIndex hr
    exact .keeps q hq hinfo hstatus hreverted
  | finalizesBatch index n m =>
    refine .fetch rfl hcommitted ?_ hr
    intro q hq
    exact Or.inr (Db.mem_finalizeBatchesUpToIndex hq)
  | cancels => exact .keeps r hr rfl rfl rfl
  | unwinds n => exact .asOf hr
  | failsToRevert => exact .keeps r hr rfl rfl rfl
  | revertsTo n reply db unwound hbranch hunwind =>
    rw [node.afterRevert_batches db n] at hr
    have hrows := Db.unwind_batchCommits hunwind
    rcases Node.mem_revalidateHeld hr with hkept | ⟨q, hq, hprocessing, rfl⟩
    · rw [hrows] at hkept
      exact .asOf hkept
    · rw [hrows] at hq
      obtain ⟨old, hold, -, rfl⟩ := (Db.mem_withoutAbove_batchCommits _ _ _).1 hq
      have habove : ¬Db.revertedAbove n old = true := by
        intro habove
        have hstatus : (Db.BatchCommitRow.asOf n old).status = .consolidated := if_pos habove
        rw [hstatus] at hprocessing
        cases hprocessing
      refine .releases (by rw [Turn.isRevert, hbranch]) old hold ?_ rfl rfl ?_
      · exact (if_neg habove).symm.trans hprocessing
      · exact (Db.filter_le_eq_ite n _).trans (if_neg habove)

theorem RowMoves.of_processing (h : RowMoves node t s r) (hprocessing : r.status = .processing) :
    (∃ q ∈ node.db.batchCommits, q.status = .processing ∧ q.hash = r.hash ∧
        (r.batchInfo = q.batchInfo ∨ node.Idle)) ∨
      ∃ more, s.pipeline = node.pipeline ++ more ∧
        ∃ request ∈ more, request.batchInfo = r.batchInfo := by
  cases h with
  | keeps q hq hinfo hstatus _ =>
    exact Or.inl ⟨q, hq, hstatus.symm.trans hprocessing, congrArg BatchInfo.hash hinfo.symm,
      Or.inl hinfo⟩
  | commits hidle _ hrow =>
    rcases hrow with ⟨hcommitted, -⟩ | ⟨q, hq, hhash, hstatus, -⟩
    · simp [hcommitted] at hprocessing
    · exact Or.inl ⟨q, hq, hstatus.symm.trans hprocessing, hhash, Or.inr hidle⟩
  | fetches q _ _ _ _ _ hrequest => exact Or.inr hrequest
  | settles hsettled => simp [BatchStatus.Settled, hprocessing] at hsettled
  | reverts hreverted => simp [hreverted] at hprocessing
  | releases _ q _ _ _ hcommitted => simp [hcommitted] at hprocessing

end
end RollupNode
