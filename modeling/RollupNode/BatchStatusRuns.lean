import RollupNode.BatchRows
import RollupNode.DatabaseUnwind
import RollupNode.GuardedRuns

set_option autoImplicit false

/-! The batch status column over whole runs of the operations that write it. -/
namespace RollupNode
open RelationalTable GuardedRuns

structure BlockOutcome where
  outcome : BatchConsolidationOutcome
  nonempty : outcome.blocks ≠ []

inductive BatchOp where
  | insertBatch (batch : BatchCommitData)
  | finalizeBatchesUpToIndex (index blockNumber : ℕ)
  | revertRange (startIndex endIndex : ℕ) (block : BlockInfo)
  | fetchCommitted
  | fetchFinalized (l1BlockNumber : ℕ)
  | insertOutcome (o : BlockOutcome)
  | finalizeConsolidated (l1BlockNumber : ℕ)
  | unwind (l1BlockNumber : ℕ)

namespace Db

def execute (db : Db) : BatchOp → Except Abort Db
  | .insertBatch batch => .ok (db.insertBatch batch)
  | .finalizeBatchesUpToIndex index n => .ok (db.finalizeBatchesUpToIndex index n)
  | .revertRange first last block =>
    .ok (db.setBatchRevertBlockNumberForBatchRange first last block)
  | .fetchCommitted => .ok db.fetchAndUpdateUnprocessedCommittedBatches.1
  | .fetchFinalized n => .ok (db.fetchAndUpdateUnprocessedFinalizedBatches n).1
  | .insertOutcome o => db.insertBatchConsolidationOutcome o.outcome
  | .finalizeConsolidated n => (db.finalizeConsolidatedBatches n).map Prod.fst
  | .unwind n => (db.unwind n).map Prod.fst

def step (db : Db) (op : BatchOp) : Db :=
  match db.execute op with
  | .ok db' => db'
  | .error _ => db

def Derived (db : Db) : Prop :=
  ∀ r ∈ db.batchCommits, r.status = .consolidated → db.HasBlock r.hash

theorem Derived.of_rows {db db' : Db} (h : db.Derived) (hrows : db.KeepsConsolidated db')
    (hblocks : ∀ hash, db.HasBlock hash → db'.HasBlock hash) : db'.Derived := by
  intro r hr hc
  obtain ⟨q, hq, hqc, hhash⟩ := hrows r hr hc
  rw [← hhash]
  exact hblocks _ (h q hq hqc)

theorem derived_consolidated {db : Db} (h : db.Derived) (o : BlockOutcome) :
    (db.consolidated o.outcome).Derived := by
  intro r hr hc
  rw [hasBlock_consolidated]
  obtain ⟨q, hq, ⟨hp, rfl⟩ | ⟨_, rfl⟩⟩ := Table.cases_of_mem_update hr
  · exact Or.inr ⟨o.nonempty, of_decide_eq_true hp⟩
  · exact Or.inl (h _ hq hc)

theorem Derived.finalizeConsolidatedBatches_ne_panic {db : Db} (h : db.Derived) (n : ℕ)
    (message : String) :
    db.finalizeConsolidatedBatches n ≠ .error (.panic message) := by
  intro hpanic
  unfold finalizeConsolidatedBatches at hpanic
  split at hpanic
  · cases hpanic
  · rename_i batch hbatch
    split at hpanic
    · rename_i hnone
      obtain ⟨hmem, hsel⟩ := highestToFinalize_spec hbatch
      have hblock := h batch hmem (status_of_finalizedWithStatus hsel)
      exact (db.lastBlockOf_eq_none batch.hash).1 hnone hblock
    · cases hpanic

def RestoresDerived (db : Db) (n : ℕ) : Prop :=
  ∀ r ∈ db.batchCommits, r.blockNumber ≤ n → revertedAbove n r = true → db.HasBlock r.hash

theorem hasBlock_withoutAbove (db : Db) (n : ℕ) (hash : B256) :
    (db.withoutAbove n).HasBlock hash ↔ db.HasBlock hash ∧ ¬db.Removes n hash := by
  constructor
  · rintro ⟨b, hb, rfl⟩
    obtain ⟨c, hc, hkept, ⟨_, rfl⟩ | ⟨_, rfl⟩⟩ := (db.mem_withoutAbove_l2Blocks n b).1 hb
    · exact ⟨⟨c, hc, rfl⟩, hkept⟩
    · exact ⟨⟨_, hc, rfl⟩, hkept⟩
  · rintro ⟨⟨c, hc, rfl⟩, hkept⟩
    by_cases hr : db.Restores n c.batchHash
    · exact ⟨_, (db.mem_withoutAbove_l2Blocks n _).2 ⟨c, hc, hkept, Or.inl ⟨hr, rfl⟩⟩, rfl⟩
    · exact ⟨_, (db.mem_withoutAbove_l2Blocks n _).2 ⟨c, hc, hkept, Or.inr ⟨hr, rfl⟩⟩, rfl⟩

theorem derived_withoutAbove_iff {db : Db} (h : db.Derived) (n : ℕ) :
    (db.withoutAbove n).Derived ↔ db.RestoresDerived n := by
  constructor
  · intro hd r hr hb hrev
    have hmem := (db.mem_withoutAbove_batchCommits n _).2 ⟨r, hr, hb, rfl⟩
    have hblock := hd _ hmem (if_pos hrev)
    exact ((db.hasBlock_withoutAbove n _).1 hblock).1
  · intro hres r hr hc
    obtain ⟨q, hq, hb, rfl⟩ := (db.mem_withoutAbove_batchCommits n r).1 hr
    refine (db.hasBlock_withoutAbove n q.hash).2 ⟨?_, not_removes_of_le hq hb⟩
    by_cases hrev : revertedAbove n q = true
    · exact hres q hq hb hrev
    · exact h q hq ((if_neg hrev).symm.trans hc)

theorem derived_withHead {db : Db} (h : db.Derived) (head : Option ℕ) :
    (db.withHead head).Derived := by
  cases head <;> exact h

def UnwindsDerived (db : Db) : BatchOp → Prop
  | .unwind n => db.RestoresDerived n
  | _ => True

/-- One operation keeps the consolidated batches derived. -/
theorem derived_step {db : Db} (h : db.Derived) (op : BatchOp) (hop : db.UnwindsDerived op) :
    (db.step op).Derived := by
  cases op with
  | insertBatch batch => exact h.of_rows (db.keepsConsolidated_insertBatch batch) (fun _ hb => hb)
  | finalizeBatchesUpToIndex index n =>
    exact h.of_rows (db.keepsConsolidated_finalizeBatchesUpToIndex index n) (fun _ hb => hb)
  | revertRange first last block =>
    exact h.of_rows (db.keepsConsolidated_revertRange first last block)
      (db.hasBlock_markReverted _ _ _ _)
  | fetchCommitted => exact h.of_rows (db.keepsConsolidated_fetchAndUpdate _) (fun _ hb => hb)
  | fetchFinalized n => exact h.of_rows (db.keepsConsolidated_fetchAndUpdate _) (fun _ hb => hb)
  | insertOutcome o =>
    unfold step
    split
    · rename_i db' hok
      obtain ⟨-, rfl⟩ := (db.insertBatchConsolidationOutcome_eq_ok db' o.outcome).1 hok
      exact derived_consolidated h o
    · exact h
  | finalizeConsolidated n =>
    simp only [step, execute, finalizeConsolidatedBatches]
    cases db.highestToFinalize n with
    | none => exact h
    | some batch =>
      cases hlast : db.lastBlockOf batch.hash with
      | none => simpa [Except.map, hlast] using h
      | some block =>
        have hderived : (db.withFinalized n).Derived :=
          h.of_rows (db.keepsConsolidated_withFinalized n) (fun _ hb => hb)
        simpa [Except.map, hlast] using hderived
  | unwind n =>
    simp only [step, execute, unwind_eq]
    cases db.recomputedSafe n with
    | error e => exact h
    | ok safe => exact derived_withHead ((derived_withoutAbove_iff h n).2 hop) _

theorem derived_migrated (genesisHash : B256) : (migrated genesisHash).Derived := by
  intro r hr hc
  rw [List.mem_singleton.1 hr] at hc
  cases hc

end Db

/-- Every consolidated batch above genesis has a block, and finalizing never meets one
without. -/
structure StatusSound (db : Db) : Prop where
  derived : ∀ r ∈ db.batchCommits, 0 < r.index → r.status = .consolidated →
    ∃ b ∈ db.l2Blocks, b.batchHash = r.hash
  neverPanics : ∀ n message, db.finalizeConsolidatedBatches n ≠ .error (.panic message)

/-- A status says what was done for the batch, in every run whose unwinds only bring back batches
that were derived. -/
theorem statusSound_of_unwindsDerived (genesisHash : B256) (ops : List BatchOp)
    (h : Meets Db.step Db.UnwindsDerived (migrated genesisHash) ops) :
    StatusSound (run Db.step (migrated genesisHash) ops) := by
  have hd : (run Db.step (migrated genesisHash) ops).Derived :=
    h.invariant Db.step Db.Derived (fun db op hdb hop => Db.derived_step hdb op hop)
      (Db.derived_migrated genesisHash)
  exact ⟨fun r hr _ hc => hd r hr hc, hd.finalizeConsolidatedBatches_ne_panic⟩

def firstOutcome : BlockOutcome := ⟨confirmedWith, List.cons_ne_nil _ _⟩

def derivedThenReverted : List BatchOp :=
  [.insertBatch firstCommit, .fetchCommitted, .insertOutcome firstOutcome,
    .revertRange 1 1 ⟨20, 5⟩, .unwind 15]

theorem statusSound_derivedThenReverted :
    StatusSound (run Db.step (migrated 7) derivedThenReverted) := by
  refine statusSound_of_unwindsDerived 7 derivedThenReverted ⟨trivial, trivial, trivial, trivial,
    ?_, trivial⟩
  change ∀ r ∈ _, _ → _ → ∃ b ∈ _, _
  decide

def revertedUnderived : List BatchOp :=
  [.insertBatch firstCommit, .revertRange 1 1 ⟨20, 5⟩, .unwind 15]

/-- A batch reverted while committed comes back as consolidated, and finalizing it panics. -/
theorem unwind_consolidates_underived_batch :
    ¬StatusSound (run Db.step (migrated 7) revertedUnderived) ∧
      ∃ message, (run Db.step (migrated 7)
        (revertedUnderived ++ [.finalizeBatchesUpToIndex 1 15])).finalizeConsolidatedBatches 15 =
          .error (.panic message) := by
  constructor
  · intro h
    have hderived := h.derived
    revert hderived
    decide
  · exact ⟨_, rfl⟩

end RollupNode
