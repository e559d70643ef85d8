import RollupNode.BatchStatusRuns
import RollupNode.ProcessingOwners

set_option autoImplicit false

/-! What an unwind does with the held batch. The lookup that decides goes by index. -/
namespace RollupNode
open ExceptTraversal RelationalTable

namespace Db

def LiveAsOf (n : ℕ) (r : BatchCommitRow) : Prop :=
  r.blockNumber ≤ n ∧ r.revertedBlockNumber.all (n < ·) = true

instance (n : ℕ) (r : BatchCommitRow) : Decidable (LiveAsOf n r) := by
  unfold LiveAsOf
  infer_instance

theorem asOf_live_iff (n : ℕ) (r : BatchCommitRow) :
    (BatchCommitRow.asOf n r).revertedBlockNumber = none ↔
      r.revertedBlockNumber.all (n < ·) = true := by
  change r.revertedBlockNumber.filter _ = none ↔ _
  cases r.revertedBlockNumber with
  | none => simp
  | some m => simp

theorem asOf_unfinalized (n : ℕ) (r : BatchCommitRow) :
    (BatchCommitRow.asOf n r).finalizedBlockNumber.all (n < ·) =
      r.finalizedBlockNumber.all (n < ·) := by
  change (r.finalizedBlockNumber.filter _).all _ = _
  cases r.finalizedBlockNumber with
  | none => rfl
  | some m => by_cases hm : m ≤ n <;> simp [hm]; omega

def firstLiveAsOf (db : Db) (n index : ℕ) : Option BatchCommitRow :=
  db.batchCommits.rows.find? (fun r => r.index = index ∧ LiveAsOf n r)

theorem firstLiveAsOf_some {db : Db} {n : ℕ} {r : BatchCommitRow} {index : ℕ}
    (h : db.firstLiveAsOf n index = some r) :
    r ∈ db.batchCommits ∧ r.index = index ∧ LiveAsOf n r := by
  unfold firstLiveAsOf at h
  have hlive : decide (r.index = index ∧ LiveAsOf n r) = true :=
    List.find?_some (p := fun r : BatchCommitRow => decide (r.index = index ∧ LiveAsOf n r)) h
  exact ⟨List.mem_of_find?_eq_some h, of_decide_eq_true hlive⟩

theorem getBatchByIndex_withoutAbove (db : Db) (n index : ℕ) :
    (db.withoutAbove n).getBatchByIndex index =
      (db.firstLiveAsOf n index).map (fun r => (BatchCommitRow.asOf n r).toCommitData) := by
  have hfound : ∀ r : BatchCommitRow,
      (decide (r.blockNumber ≤ n) = true ∧ decide ((BatchCommitRow.asOf n r).index = index ∧
        (BatchCommitRow.asOf n r).revertedBlockNumber = none) = true) ↔
      r.index = index ∧ LiveAsOf n r := by
    intro r
    rw [decide_eq_true_eq, decide_eq_true_eq, asOf_live_iff]
    exact and_left_comm
  unfold getBatchByIndex firstLiveAsOf
  rw [withoutAbove_batchCommits_rows, List.find?_map, List.find?_filter, Option.map_map]
  simp only [Function.comp_def, hfound]

theorem mem_unwound_live (db : Db) (n : ℕ) (head : Option ℕ) (r : BatchCommitRow) :
    (r ∈ ((db.withoutAbove n).withHead head).batchCommits ∧ r.revertedBlockNumber = none) ↔
      ∃ q ∈ db.batchCommits, LiveAsOf n q ∧ BatchCommitRow.asOf n q = r := by
  rw [withHead_batchCommits, mem_withoutAbove_batchCommits]
  constructor
  · rintro ⟨⟨q, hq, hblock, rfl⟩, hlive⟩
    exact ⟨q, hq, ⟨hblock, (asOf_live_iff n q).1 hlive⟩, rfl⟩
  · rintro ⟨q, hq, ⟨hblock, hlive⟩, rfl⟩
    exact ⟨⟨q, hq, hblock, rfl⟩, (asOf_live_iff n q).2 hlive⟩

/-- The batch will be derived again, or its blocks are already there. -/
def Accounted (db : Db) (r : BatchCommitRow) : Prop :=
  r.status = .committed ∨ r.status.Settled ∧ db.HasBlock r.hash

instance (db : Db) (r : BatchCommitRow) : Decidable (db.Accounted r) := by
  unfold Accounted BatchStatus.Settled HasBlock
  infer_instance

theorem hasBlock_unwound {db : Db} {n : ℕ} {q : BatchCommitRow} (head : Option ℕ)
    (hq : q ∈ db.batchCommits) (hblock : q.blockNumber ≤ n) :
    ((db.withoutAbove n).withHead head).HasBlock q.hash ↔ db.HasBlock q.hash := by
  rw [HasBlock, withHead_l2Blocks]
  exact (db.hasBlock_withoutAbove n q.hash).trans (and_iff_left (not_removes_of_le hq hblock))

theorem accounted_unwound {db : Db} {n : ℕ} {q : BatchCommitRow} (head : Option ℕ)
    (hq : q ∈ db.batchCommits) (hblock : q.blockNumber ≤ n) :
    ((db.withoutAbove n).withHead head).Accounted (BatchCommitRow.asOf n q) ↔
      db.Accounted (BatchCommitRow.asOf n q) := by
  have hblocks := hasBlock_unwound head hq hblock
  unfold Accounted
  exact or_congr_right (and_congr_right fun _ => hblocks)

theorem fetched_of_committed {db : Db} {r : BatchCommitRow} (hr : r ∈ db.batchCommits)
    (hcommitted : r.status = .committed) :
    r.batchInfo ∈ db.fetchAndUpdateUnprocessedCommittedBatches.2 ∧
      ∀ k m, r.finalizedBlockNumber = some k → k ≤ m →
        r.batchInfo ∈ (db.fetchAndUpdateUnprocessedFinalizedBatches m).2 := by
  constructor
  · refine List.mem_map.2 ⟨r, mem_orderBy.2 ?_, rfl⟩
    exact (db.batchCommits.mem_select _ r).2 ⟨hr, decide_eq_true hcommitted⟩
  · intro k m hk hle
    refine List.mem_map.2 ⟨r, mem_orderBy.2 ?_, rfl⟩
    refine (db.batchCommits.mem_select _ r).2 ⟨hr, ?_⟩
    simp [finalizedWithStatus, hcommitted, hk, hle]

end Db

namespace Node

theorem heldInvalidation_unwound (db : Db) (n : ℕ) (head : Option ℕ)
    (held : BatchDerivationResult) :
    heldInvalidation ((db.withoutAbove n).withHead head) n held =
      match db.firstLiveAsOf n held.batchInfo.index with
      | none => (some "batch row removed or reverted", false)
      | some q =>
        if q.hash ≠ held.batchInfo.hash then (some "batch hash changed", false)
        else if held.targetStatus.isFinalized && q.finalizedBlockNumber.all (n < ·) then
          (some "batch finalization reverted", true)
        else (none, false) := by
  have hlookup : ((db.withoutAbove n).withHead head).getBatchByIndex held.batchInfo.index =
      (db.firstLiveAsOf n held.batchInfo.index).map
        (fun r => (Db.BatchCommitRow.asOf n r).toCommitData) := by
    rw [← Db.getBatchByIndex_withoutAbove, Db.getBatchByIndex, Db.withHead_batchCommits]
    rfl
  unfold heldInvalidation
  rw [hlookup]
  cases hfound : db.firstLiveAsOf n held.batchInfo.index with
  | none => rfl
  | some q =>
    obtain ⟨-, -, hblock, -⟩ := Db.firstLiveAsOf_some hfound
    have hfinal : (Db.BatchCommitRow.asOf n q).toCommitData.finalizedBlockNumber.all (n < ·) =
        q.finalizedBlockNumber.all (n < ·) := Db.asOf_unfinalized n q
    have hle : (Db.BatchCommitRow.asOf n q).toCommitData.blockNumber ≤ n := hblock
    have hhash : (Db.BatchCommitRow.asOf n q).toCommitData.hash = q.hash := rfl
    by_cases hsame : q.hash = held.batchInfo.hash
    · simp only [Option.map_some, hhash, hsame, hle, Nat.not_lt.2 hle, hfinal]
      cases held.targetStatus.isFinalized <;> cases q.finalizedBlockNumber.all (n < ·) <;> simp
    · simp [hhash, hsame]

def HeldRow (db : Db) (n : ℕ) (batchInfo : BatchInfo) (r : BatchCommitRow) : Prop :=
  (r ∈ db.batchCommits ∧ r.revertedBlockNumber = none) ∧ r.batchInfo = batchInfo ∧
    r.blockNumber ≤ n

/-- The held batch comes out of the unwind as the outcome says: it is still due, or the slot is
free and its row will be derived again or has its blocks. -/
def ExactOutcome (n : ℕ) (held : BatchDerivationResult) (node : Node) : HeldReorgOutcome → Prop
  | .noHeldBatch => False
  | .survived batchInfo => batchInfo = held.batchInfo ∧ ∃ r, HeldRow node.db n batchInfo r ∧
      (held.targetStatus = .finalized → ∃ k, r.finalizedBlockNumber = some k ∧ k ≤ n)
  | .invalidated batchInfo _ => batchInfo = held.batchInfo ∧ node.held = none ∧
      ∀ r, HeldRow node.db n batchInfo r → node.db.Accounted r ∧
        (r.status = .committed →
          r.batchInfo ∈ node.db.fetchAndUpdateUnprocessedCommittedBatches.2 ∧
          ∀ k m, r.finalizedBlockNumber = some k → k ≤ m →
            r.batchInfo ∈ (node.db.fetchAndUpdateUnprocessedFinalizedBatches m).2)

/-- The row of the held batch, as of L1 block `n`, is one that the revalidation can account for:
the row that the lookup finds is in processing or accounted for when its finalization is gone, and
a row that the lookup misses is accounted for as it stands. -/
def Recoverable (db : Db) (n : ℕ) (held : BatchDerivationResult) : Prop :=
  ∀ q ∈ db.batchCommits, q.batchInfo = held.batchInfo → Db.LiveAsOf n q →
    if db.firstLiveAsOf n held.batchInfo.index = some q then
      held.targetStatus = .finalized → q.finalizedBlockNumber.all (n < ·) = true →
        (Db.BatchCommitRow.asOf n q).status = .processing ∨
          db.Accounted (Db.BatchCommitRow.asOf n q)
    else db.Accounted (Db.BatchCommitRow.asOf n q)

instance (db : Db) (n : ℕ) (held : BatchDerivationResult) : Decidable (Recoverable db n held) := by
  unfold Recoverable
  infer_instance

theorem unwindAndRevalidateHeldBatch_some {n : ℕ} {node node' : Node} {held : BatchDerivationResult}
    (hheld : node.held = some held) {unwound : UnwindResult} {outcome : HeldReorgOutcome}
    (h : node.unwindAndRevalidateHeldBatch n = .ok (node', unwound, outcome)) :
    let checked := revalidateHeld
      ((node.db.withoutAbove n).withHead (node.db.loweredHead n)) n (some held)
    node'.db = checked.1 ∧ outcome = checked.2 ∧ (outcome.isSurvived = false → node'.held = none) := by
  obtain ⟨⟨db, result⟩, hunwind, h⟩ := bind_eq_ok.1 h
  rw [← (Db.unwind_ok hunwind).1, ← hheld]
  simp only [pure, Except.pure] at h
  generalize hchecked : revalidateHeld db n node.held = checked at h
  cases h
  rcases checked with ⟨db', outcome⟩
  cases outcome with
  | noHeldBatch =>
    rw [hheld] at hchecked
    simp only [revalidateHeld] at hchecked
    split at hchecked <;> cases hchecked
  | invalidated info reason => exact ⟨rfl, rfl, fun _ => rfl⟩
  | survived info => exact ⟨rfl, rfl, fun hf => by cases hf⟩

theorem heldRow_unwound (db : Db) (n : ℕ) (head : Option ℕ) (info : BatchInfo)
    (r : BatchCommitRow) :
    HeldRow ((db.withoutAbove n).withHead head) n info r ↔
      ∃ q ∈ db.batchCommits, Db.LiveAsOf n q ∧ q.batchInfo = info ∧
        Db.BatchCommitRow.asOf n q = r := by
  unfold HeldRow
  rw [Db.mem_unwound_live]
  constructor
  · rintro ⟨⟨q, hq, hlive, rfl⟩, hinfo, -⟩
    exact ⟨q, hq, hlive, hinfo, rfl⟩
  · rintro ⟨q, hq, hlive, hinfo, rfl⟩
    exact ⟨⟨q, hq, hlive, rfl⟩, hinfo, hlive.1⟩

theorem accounted_transition (db : Db) (n : ℕ) (info : BatchInfo) :
    (∀ r, HeldRow (db.transitionBatchStatus info.hash .processing .committed).1 n info r →
        (db.transitionBatchStatus info.hash .processing .committed).1.Accounted r) ↔
      ∀ r, HeldRow db n info r → r.status = .processing ∨ db.Accounted r := by
  constructor
  · intro h r hrow
    by_cases hstatus : r.status = .processing
    · exact Or.inl hstatus
    · refine Or.inr (h r ⟨⟨?_, hrow.1.2⟩, hrow.2⟩)
      refine List.mem_map.2 ⟨r, hrow.1.1, if_neg ?_⟩
      intro hexpected
      exact hstatus (of_decide_eq_true hexpected).2
  · rintro h r ⟨⟨hr, hlive⟩, hinfo, hblock⟩
    obtain ⟨q, hq, ⟨-, rfl⟩ | ⟨hother, rfl⟩⟩ := Table.cases_of_mem_update hr
    · exact Or.inl rfl
    · have hhash : r.hash = info.hash := congrArg BatchInfo.hash hinfo
      have hstatus : r.status ≠ .processing := by
        intro hprocessing
        exact of_decide_eq_false hother ⟨hhash, hprocessing⟩
      exact (h r ⟨⟨hq, hlive⟩, hinfo, hblock⟩).resolve_left hstatus

theorem exactOutcome_invalidated (n : ℕ) (held : BatchDerivationResult) (node : Node)
    (reason : String) :
    ExactOutcome n held node (.invalidated held.batchInfo reason) ↔
      node.held = none ∧ ∀ r, HeldRow node.db n held.batchInfo r → node.db.Accounted r := by
  constructor
  · rintro ⟨-, hslot, hrows⟩
    exact ⟨hslot, fun r hr => (hrows r hr).1⟩
  · rintro ⟨hslot, hrows⟩
    exact ⟨rfl, hslot, fun r hr => ⟨hrows r hr, Db.fetched_of_committed hr.1.1⟩⟩

theorem firstLiveAsOf_held {n : ℕ} {db : Db} {info : BatchInfo} {q p : BatchCommitRow}
    (hfound : db.firstLiveAsOf n info.index = some q) (hhash : q.hash = info.hash)
    (hp : p ∈ db.batchCommits) (hinfo : p.batchInfo = info) : p = q := by
  obtain ⟨hq, -, -⟩ := Db.firstLiveAsOf_some hfound
  have hkey : p.hash = info.hash := congrArg BatchInfo.hash hinfo
  exact db.batchCommits.eq_of_key hp hq (hkey.trans hhash.symm)

theorem isFinalized_iff (status : BatchStatus) : status.isFinalized = true ↔ status = .finalized := by
  cases status <;> simp [BatchStatus.isFinalized]

section
variable {node node' : Node} {n : ℕ} {held : BatchDerivationResult} {unwound : UnwindResult}
  {outcome : HeldReorgOutcome}

theorem exactOutcome_iff_missed (hheld : node.held = some held)
    (h : node.unwindAndRevalidateHeldBatch n = .ok (node', unwound, outcome))
    (hmissed : ∀ q, node.db.firstLiveAsOf n held.batchInfo.index = some q →
      q.hash ≠ held.batchInfo.hash) :
    ExactOutcome n held node' outcome ↔ Recoverable node.db n held := by
  obtain ⟨hdb, hout, hslot⟩ := unwindAndRevalidateHeldBatch_some hheld h
  have hkept : ∃ reason, heldInvalidation
      ((node.db.withoutAbove n).withHead (node.db.loweredHead n)) n held = (some reason, false) := by
    rw [heldInvalidation_unwound]
    cases hfound : node.db.firstLiveAsOf n held.batchInfo.index with
    | none => exact ⟨_, rfl⟩
    | some q => exact ⟨_, if_pos (hmissed q hfound)⟩
  obtain ⟨reason, hkept⟩ := hkept
  simp only [revalidateHeld, hkept] at hdb hout
  subst hout
  rw [exactOutcome_invalidated, hdb, and_iff_right (hslot rfl)]
  have hlookup : ∀ q ∈ node.db.batchCommits, q.batchInfo = held.batchInfo →
      node.db.firstLiveAsOf n held.batchInfo.index ≠ some q := by
    intro q _ hinfo hfound
    exact hmissed q hfound (congrArg BatchInfo.hash hinfo)
  constructor
  · intro hrows q hq hinfo hlive
    rw [if_neg (hlookup q hq hinfo)]
    have hrow := (heldRow_unwound node.db n (node.db.loweredHead n) held.batchInfo _).2
      ⟨q, hq, hlive, hinfo, rfl⟩
    exact (Db.accounted_unwound _ hq hlive.1).1 (hrows _ hrow)
  · intro hrec r hrow
    obtain ⟨q, hq, hlive, hinfo, rfl⟩ := (heldRow_unwound _ _ _ _ _).1 hrow
    have haccounted := hrec q hq hinfo hlive
    rw [if_neg (hlookup q hq hinfo)] at haccounted
    exact (Db.accounted_unwound _ hq hlive.1).2 haccounted

theorem exactOutcome_iff_unfinalized {q : BatchCommitRow} (hheld : node.held = some held)
    (h : node.unwindAndRevalidateHeldBatch n = .ok (node', unwound, outcome))
    (hfound : node.db.firstLiveAsOf n held.batchInfo.index = some q)
    (hhash : q.hash = held.batchInfo.hash) (htarget : held.targetStatus = .finalized)
    (hfinal : q.finalizedBlockNumber.all (n < ·) = true) :
    ExactOutcome n held node' outcome ↔ Recoverable node.db n held := by
  obtain ⟨hdb, hout, hslot⟩ := unwindAndRevalidateHeldBatch_some hheld h
  have hlost : heldInvalidation
      ((node.db.withoutAbove n).withHead (node.db.loweredHead n)) n held =
        (some "batch finalization reverted", true) := by
    rw [heldInvalidation_unwound, hfound]
    simp [hhash, htarget, hfinal, BatchStatus.isFinalized]
  simp only [revalidateHeld, hlost] at hdb hout
  subst hout
  rw [exactOutcome_invalidated, hdb, and_iff_right (hslot rfl), accounted_transition]
  constructor
  · intro hrows p hp hpinfo hplive
    obtain rfl := firstLiveAsOf_held hfound hhash hp hpinfo
    rw [if_pos hfound]
    intro _ _
    have hrow := (heldRow_unwound node.db n (node.db.loweredHead n) held.batchInfo _).2
      ⟨p, hp, hplive, hpinfo, rfl⟩
    exact (hrows _ hrow).imp_right (Db.accounted_unwound _ hp hplive.1).1
  · intro hrec r hrow
    obtain ⟨p, hp, hplive, hpinfo, rfl⟩ := (heldRow_unwound _ _ _ _ _).1 hrow
    obtain rfl := firstLiveAsOf_held hfound hhash hp hpinfo
    have haccounted := hrec p hp hpinfo hplive
    rw [if_pos hfound] at haccounted
    exact (haccounted htarget hfinal).imp_right (Db.accounted_unwound _ hp hplive.1).2

theorem exactOutcome_iff_kept {q : BatchCommitRow} (hheld : node.held = some held)
    (h : node.unwindAndRevalidateHeldBatch n = .ok (node', unwound, outcome))
    (hfound : node.db.firstLiveAsOf n held.batchInfo.index = some q)
    (hhash : q.hash = held.batchInfo.hash)
    (hfinal : ¬(held.targetStatus = .finalized ∧ q.finalizedBlockNumber.all (n < ·) = true)) :
    ExactOutcome n held node' outcome ↔ Recoverable node.db n held := by
  obtain ⟨hdb, hout, -⟩ := unwindAndRevalidateHeldBatch_some hheld h
  have hkept : heldInvalidation
      ((node.db.withoutAbove n).withHead (node.db.loweredHead n)) n held = (none, false) := by
    rw [heldInvalidation_unwound, hfound]
    simp only [hhash, ne_eq, not_true_eq_false, if_false, Bool.and_eq_true, isFinalized_iff]
    exact if_neg hfinal
  simp only [revalidateHeld, hkept] at hdb hout
  subst hout
  obtain ⟨hq, hindex, hlive⟩ := Db.firstLiveAsOf_some hfound
  have hinfo : q.batchInfo = held.batchInfo := by
    rw [BatchCommitRow.batchInfo, hindex, hhash]
  refine iff_of_true ⟨rfl, Db.BatchCommitRow.asOf n q, ?_, ?_⟩ ?_
  · rw [hdb]
    exact (heldRow_unwound _ _ _ _ _).2 ⟨q, hq, hlive, hinfo, rfl⟩
  · intro htarget
    have hsome := fun hall => hfinal ⟨htarget, hall⟩
    change ∃ k, q.finalizedBlockNumber.filter (· ≤ n) = some k ∧ k ≤ n
    cases hk : q.finalizedBlockNumber with
    | none => exact absurd (by rw [hk]; rfl) hsome
    | some k =>
      rw [hk] at hsome
      have hle : k ≤ n := by simpa using hsome
      exact ⟨k, by simp [hle], hle⟩
  · intro p hp hpinfo hplive
    obtain rfl := firstLiveAsOf_held hfound hhash hp hpinfo
    rw [if_pos hfound]
    intro htarget hall
    exact absurd ⟨htarget, hall⟩ hfinal

end

theorem failed_unwind_unchanged {n : ℕ} {node : Node} {faults : Faults}
    (h : (faults 0).isSome ∨ ∃ e, node.db.unwind n = .error e) (client : L2Client)
    (reply : Reply ForkchoiceUpdated) :
    ((Faulty.handleL1Reorg node faults n client reply).1.db = node.db ∧
        (Faulty.handleL1Reorg node faults n client reply).1.held = node.held) ∧
      (Faulty.revertToL1Block node faults n reply).1.db = node.db ∧
        (Faulty.revertToL1Block node faults n reply).1.held = node.held := by
  unfold Faulty.handleL1Reorg Faulty.revertToL1Block transact
  cases hfault : faults 0 with
  | some e => exact ⟨⟨rfl, rfl⟩, rfl, rfl⟩
  | none =>
    rw [hfault] at h
    obtain ⟨e, he⟩ := h.resolve_left Bool.false_ne_true
    simp [handleL1Reorg, revertToL1Block, unwindAndRevalidateHeldBatch, he, bind, Except.bind]

end Node

/-- An unwind that goes through does with the held batch what its outcome says exactly when the
batch is recoverable; one that fails changes nothing. -/
theorem heldRevalidation_iff (node : Node) (n : ℕ) (held : BatchDerivationResult)
    (hheld : node.held = some held) :
    (∀ node' unwound outcome,
        node.unwindAndRevalidateHeldBatch n = .ok (node', unwound, outcome) →
          (Node.ExactOutcome n held node' outcome ↔ Node.Recoverable node.db n held)) ∧
      ∀ faults : Faults, ((faults 0).isSome ∨ ∃ e, node.db.unwind n = .error e) →
        ∀ client reply, ((Faulty.handleL1Reorg node faults n client reply).1.db = node.db ∧
            (Faulty.handleL1Reorg node faults n client reply).1.held = node.held) ∧
          (Faulty.revertToL1Block node faults n reply).1.db = node.db ∧
            (Faulty.revertToL1Block node faults n reply).1.held = node.held := by
  refine ⟨?_, fun faults hfails => Node.failed_unwind_unchanged hfails⟩
  intro node' unwound outcome h
  by_cases hmissed : ∀ q, node.db.firstLiveAsOf n held.batchInfo.index = some q →
      q.hash ≠ held.batchInfo.hash
  · exact Node.exactOutcome_iff_missed hheld h hmissed
  · push Not at hmissed
    obtain ⟨q, hfound, hhash⟩ := hmissed
    by_cases hlost : held.targetStatus = .finalized ∧ q.finalizedBlockNumber.all (n < ·) = true
    · exact Node.exactOutcome_iff_unfinalized hheld h hfound hhash hlost.1 hlost.2
    · exact Node.exactOutcome_iff_kept hheld h hfound hhash hlost

def dueFinalized : BatchDerivationResult := ⟨[], ⟨1, 11⟩, [], .finalized⟩

def finalizedProcessing : Db :=
  ((((migrated 7).insertBatch firstCommit).finalizeBatchesUpToIndex
    1 21).fetchAndUpdateUnprocessedFinalizedBatches 21).1

def holdingFinalized (db : Db) : Node := { Node.fresh 7 with db := db, held := some dueFinalized }

/-- Below the finalization the batch goes back to committed. -/
theorem heldRevalidation_iff_unfinalized :
    ∃ node' unwound, (holdingFinalized finalizedProcessing).unwindAndRevalidateHeldBatch 15 =
        .ok (node', unwound, .invalidated ⟨1, 11⟩ "batch finalization reverted") ∧
      Node.ExactOutcome 15 dueFinalized node'
        (.invalidated ⟨1, 11⟩ "batch finalization reverted") := by
  refine ⟨_, _, rfl, ?_⟩
  exact ((heldRevalidation_iff (holdingFinalized finalizedProcessing) 15 dueFinalized rfl).1
    _ _ _ rfl).2 (by decide)

/-- The held batch is reverted before the unwind, which brings its row back as consolidated. The
slot is cleared and nothing derives the batch again. -/
theorem restored_held_dropped :
    ∃ node' unwound, (holdingFinalized
        (finalizedProcessing.setBatchRevertBlockNumberForBatchRange 1 1
          ⟨22, 122⟩)).unwindAndRevalidateHeldBatch 15 =
        .ok (node', unwound, .invalidated ⟨1, 11⟩ "batch finalization reverted") ∧
      node'.held = none ∧
      (∃ r ∈ node'.db.batchCommits, r.batchInfo = ⟨1, 11⟩ ∧ r.revertedBlockNumber = none ∧
        r.status = .consolidated) ∧
      (¬∃ b ∈ node'.db.l2Blocks, b.batchHash = 11) ∧
      ¬Node.ExactOutcome 15 dueFinalized node'
        (.invalidated ⟨1, 11⟩ "batch finalization reverted") := by
  refine ⟨_, _, rfl, rfl, by decide, by decide, ?_⟩
  intro hexact
  have hrows := ((Node.exactOutcome_invalidated 15 dueFinalized _ _).1 hexact).2
  have haccounted := hrows ⟨1, 11, 10, 0, [], none, none, none, .consolidated⟩
    ⟨⟨by decide, rfl⟩, rfl, by decide⟩
  exact absurd haccounted (by decide)

end RollupNode
