import RollupNode.DatabaseWrites

set_option autoImplicit false

namespace RollupNode
open RelationalTable

structure UnwindResult where
  l1BlockNumber : ℕ
  queueIndex : Option ℕ
  l2HeadBlockNumber : Option ℕ
  l2SafeBlockInfo : Option BlockInfo
  deriving DecidableEq, Repr

namespace Db

/-- Purges the mappings above the lowered head and moves the head there. -/
def withHead (db : Db) : Option ℕ → Db
  | some head => (db.unmapWhere (head + 1 ≤ ·)).setL2HeadBlockNumber head
  | none => db

/-- Removes the effects of the L1 blocks above `n`. The L2 head is lowered below the first
removed message that was included, the safe block is recomputed when a batch was removed or
came back. -/
def unwind (db : Db) (n : ℕ) : Except Abort (Db × UnwindResult) := do
  let db := (db.setLatestL1BlockNumber n).removeL1BlockInfoGt n
  let (db, batchesRemoved) := db.deleteBatchesGtBlockNumber n
  let (db, deletedMessages) := db.deleteL1MessagesGt n
  let db := db.deleteBatchFinalizationGtBlockNumber n
  let (db, batchRevertsRemoved) := db.deleteBatchRevertGtBlockNumber n
  let removedExecuted := orderBy (fun m : L1MessageEnvelope => m.transaction.queueIndex)
    (deletedMessages.filter (fun m => m.l2BlockNumber.isSome))
  let queueIndex := removedExecuted.head?.map (fun m => m.transaction.queueIndex)
  let l2HeadBlockNumber :=
    (removedExecuted.head?.bind (fun m => m.l2BlockNumber)).map (fun number => number - 1)
  let safe ← if 0 < batchesRemoved ∨ 0 < batchRevertsRemoved then
      db.getLatestSafeL2Info.map (fun info => some info.1)
    else .ok none
  return (db.withHead l2HeadBlockNumber, ⟨n, queueIndex, l2HeadBlockNumber, safe⟩)

def withoutCommitsAbove (db : Db) (n : ℕ) : Db :=
  ((((db.setLatestL1BlockNumber n).removeL1BlockInfoGt n).deleteBatchesGtBlockNumber
    n).1.deleteL1MessagesGt n).1.deleteBatchFinalizationGtBlockNumber n

def withoutAbove (db : Db) (n : ℕ) : Db :=
  ((db.withoutCommitsAbove n).deleteBatchRevertGtBlockNumber n).1

def removedExecuted (db : Db) (n : ℕ) : List L1MessageEnvelope :=
  orderBy (fun m => m.transaction.queueIndex)
    ((db.deleteL1MessagesGt n).2.filter (fun m => m.l2BlockNumber.isSome))

def loweredHead (db : Db) (n : ℕ) : Option ℕ :=
  ((db.removedExecuted n).head?.bind (fun m => m.l2BlockNumber)).map (fun number => number - 1)

def movesSafe (db : Db) (n : ℕ) : Prop :=
  ∃ r ∈ db.batchCommits, n < r.blockNumber ∨ revertedAbove n r = true

instance (db : Db) (n : ℕ) : Decidable (db.movesSafe n) :=
  inferInstanceAs (Decidable (∃ r ∈ db.batchCommits, _))

def recomputedSafe (db : Db) (n : ℕ) : Except Abort (Option BlockInfo) :=
  if db.movesSafe n then (db.withoutAbove n).getLatestSafeL2Info.map (fun info => some info.1)
  else .ok none

def unwindResult (db : Db) (n : ℕ) (safe : Option BlockInfo) : UnwindResult where
  l1BlockNumber := n
  queueIndex := (db.removedExecuted n).head?.map (fun m => m.transaction.queueIndex)
  l2HeadBlockNumber := db.loweredHead n
  l2SafeBlockInfo := safe

theorem filter_le_eq_ite (n : ℕ) (o : Option ℕ) :
    o.filter (· ≤ n) = if o.any (n < ·) then none else o := by
  cases o with
  | none => rfl
  | some k =>
    by_cases hk : n < k
    · simp [Option.filter, hk]
    · simp [Option.filter, hk, Nat.le_of_not_lt hk]

theorem withoutCommitsAbove_batchCommits_rows (db : Db) (n : ℕ) :
    (db.withoutCommitsAbove n).batchCommits.rows =
      (db.batchCommits.rows.filter (fun r => r.blockNumber ≤ n)).map
        (fun r => { r with finalizedBlockNumber := r.finalizedBlockNumber.filter (· ≤ n) }) := by
  have hkeep : db.batchCommits.rows.filter (fun r => r.blockNumber ≤ n) =
      db.batchCommits.rows.filter (fun r => !decide (n < r.blockNumber)) := by
    refine List.filter_congr ?_
    intro r _
    rw [← decide_not, decide_eq_decide]
    omega
  rw [hkeep]
  refine List.map_congr_left ?_
  intro r _
  rw [filter_le_eq_ite]
  split <;> rfl

/-- The row as of L1 block `n`: later finalizations and reverts are cleared, and a batch
that comes back is consolidated. -/
def BatchCommitRow.asOf (n : ℕ) (r : BatchCommitRow) : BatchCommitRow :=
  { r with
    finalizedBlockNumber := r.finalizedBlockNumber.filter (· ≤ n)
    revertedBlockNumber := r.revertedBlockNumber.filter (· ≤ n)
    status := if revertedAbove n r then .consolidated else r.status }

theorem withoutAbove_batchCommits_rows (db : Db) (n : ℕ) :
    (db.withoutAbove n).batchCommits.rows =
      (db.batchCommits.rows.filter (fun r => r.blockNumber ≤ n)).map (BatchCommitRow.asOf n) := by
  rw [withoutAbove, deleteBatchRevertGtBlockNumber_batchCommits]
  change List.map _ (db.withoutCommitsAbove n).batchCommits.rows = _
  rw [withoutCommitsAbove_batchCommits_rows, List.map_map]
  refine List.map_congr_left ?_
  intro r _
  have hfilter : r.revertedBlockNumber.filter (· ≤ n) =
      if revertedAbove n r then none else r.revertedBlockNumber := filter_le_eq_ite n _
  by_cases hr : revertedAbove n r = true
  · refine (if_pos hr).trans ?_
    simp only [BatchCommitRow.asOf, hfilter, if_pos hr]
  · refine (if_neg hr).trans ?_
    simp only [BatchCommitRow.asOf, hfilter, if_neg hr]

theorem mem_withoutAbove_batchCommits (db : Db) (n : ℕ) (r : BatchCommitRow) :
    r ∈ (db.withoutAbove n).batchCommits ↔
      ∃ q ∈ db.batchCommits, q.blockNumber ≤ n ∧ BatchCommitRow.asOf n q = r := by
  rw [← Table.mem_rows, withoutAbove_batchCommits_rows, List.mem_map]
  simp only [List.mem_filter, decide_eq_true_eq, Table.mem_rows, and_assoc]

theorem movesSafe_iff_removed (db : Db) (n : ℕ) :
    db.movesSafe n ↔ 0 < (db.deleteBatchesGtBlockNumber n).2 ∨
      0 < ((db.withoutCommitsAbove n).deleteBatchRevertGtBlockNumber n).2 := by
  have hcommits : 0 < (db.deleteBatchesGtBlockNumber n).2 ↔
      ∃ r ∈ db.batchCommits, n < r.blockNumber := by
    refine (db.batchCommits.select_length_pos _).trans ?_
    simp only [decide_eq_true_eq]
  have hreverts : 0 < ((db.withoutCommitsAbove n).deleteBatchRevertGtBlockNumber n).2 ↔
      ∃ r ∈ db.batchCommits, r.blockNumber ≤ n ∧ revertedAbove n r = true := by
    change 0 < (List.map _ _).length ↔ _
    rw [List.length_map, Table.select_length_pos]
    simp only [← Table.mem_rows, withoutCommitsAbove_batchCommits_rows, List.mem_map,
      List.mem_filter, decide_eq_true_eq]
    constructor
    · rintro ⟨_, ⟨r, ⟨hr, hb⟩, rfl⟩, hrev⟩
      exact ⟨r, hr, hb, hrev⟩
    · rintro ⟨r, hr, hb, hrev⟩
      exact ⟨_, ⟨r, ⟨hr, hb⟩, rfl⟩, hrev⟩
  rw [hcommits, hreverts]
  constructor
  · rintro ⟨r, hr, hmoved⟩
    by_cases hb : n < r.blockNumber
    · exact Or.inl ⟨r, hr, hb⟩
    · exact Or.inr ⟨r, hr, Nat.le_of_not_lt hb, hmoved.resolve_left hb⟩
  · rintro (⟨r, hr, hb⟩ | ⟨r, hr, _, hrev⟩)
    · exact ⟨r, hr, Or.inl hb⟩
    · exact ⟨r, hr, Or.inr hrev⟩

def Removes (db : Db) (n : ℕ) (hash : B256) : Prop :=
  ∃ r ∈ db.batchCommits, n < r.blockNumber ∧ r.hash = hash

def Restores (db : Db) (n : ℕ) (hash : B256) : Prop :=
  ∃ r ∈ db.batchCommits, r.blockNumber ≤ n ∧ revertedAbove n r = true ∧ r.hash = hash

theorem not_removes_of_le {db : Db} {n : ℕ} {r : BatchCommitRow} (hr : r ∈ db.batchCommits)
    (hb : r.blockNumber ≤ n) : ¬db.Removes n r.hash := by
  rintro ⟨q, hq, hlt, hhash⟩
  have heq := db.batchCommits.eq_of_key hq hr hhash
  subst heq
  omega

theorem mem_withoutAbove_l2Blocks (db : Db) (n : ℕ) (b : L2BlockRow) :
    b ∈ (db.withoutAbove n).l2Blocks ↔ ∃ c ∈ db.l2Blocks, ¬db.Removes n c.batchHash ∧
      ((db.Restores n c.batchHash ∧ b = { c with reverted := false }) ∨
        (¬db.Restores n c.batchHash ∧ b = c)) := by
  have hremoved (h : B256) : h ∈ (db.batchCommits.select (fun r => n < r.blockNumber)).map
      (·.hash) ↔ db.Removes n h := by
    simp only [List.mem_map, Table.mem_select, decide_eq_true_eq, Removes, and_assoc]
  have hrestored (h : B256) : h ∈ ((db.withoutCommitsAbove n).batchCommits.select
      (revertedAbove n)).map (·.hash) ↔ db.Restores n h := by
    simp only [List.mem_map, Table.mem_select, ← Table.mem_rows, Restores,
      withoutCommitsAbove_batchCommits_rows, List.mem_filter, decide_eq_true_eq]
    constructor
    · rintro ⟨_, ⟨⟨r, ⟨hr, hb⟩, rfl⟩, hrev⟩, rfl⟩
      exact ⟨r, hr, hb, hrev, rfl⟩
    · rintro ⟨r, hr, hb, hrev, rfl⟩
      exact ⟨_, ⟨⟨r, ⟨hr, hb⟩, rfl⟩, hrev⟩, rfl⟩
  refine List.mem_map.trans (exists_congr (fun c => ?_))
  change c ∈ db.l2Blocks.deleteWhere _ ∧ _ ↔ _
  rw [Table.mem_deleteWhere, decide_eq_false_iff_not, and_assoc]
  refine and_congr_right (fun _ => and_congr (not_congr (hremoved c.batchHash)) ?_)
  by_cases hr : db.Restores n c.batchHash
  · rw [if_pos (decide_eq_true ((hrestored _).2 hr))]
    simp [hr, eq_comm]
  · rw [if_neg (fun h => hr ((hrestored _).1 (of_decide_eq_true h)))]
    simp [hr, eq_comm]

theorem unwind_eq (db : Db) (n : ℕ) :
    db.unwind n = (db.recomputedSafe n).map (fun safe =>
      ((db.withoutAbove n).withHead (db.loweredHead n), db.unwindResult n safe)) := by
  have hsafe : db.recomputedSafe n =
      if 0 < (db.deleteBatchesGtBlockNumber n).2 ∨
          0 < ((db.withoutCommitsAbove n).deleteBatchRevertGtBlockNumber n).2 then
        (db.withoutAbove n).getLatestSafeL2Info.map (fun info => some info.1)
      else .ok none := by
    simp only [recomputedSafe, db.movesSafe_iff_removed n]
  rw [hsafe]
  by_cases hc : 0 < (db.deleteBatchesGtBlockNumber n).2 ∨
      0 < ((db.withoutCommitsAbove n).deleteBatchRevertGtBlockNumber n).2
  · rw [if_pos hc]
    refine (if_pos hc).trans ?_
    change Except.bind (Except.map _ (db.withoutAbove n).getLatestSafeL2Info) _ = _
    cases (db.withoutAbove n).getLatestSafeL2Info <;> rfl
  · rw [if_neg hc]
    exact if_neg hc

theorem mem_removed (db : Db) (n : ℕ) (e : L1MessageEnvelope) :
    e ∈ (db.deleteL1MessagesGt n).2.filter (fun m => m.l2BlockNumber.isSome) ↔
      ∃ m ∈ db.l1Messages, n < m.l1BlockNumber ∧ m.l2BlockNumber.isSome = true ∧
        m.toEnvelope = e := by
  simp only [deleteL1MessagesGt, List.mem_filter, List.mem_map, Table.mem_select,
    decide_eq_true_eq, and_assoc]
  constructor
  · rintro ⟨⟨m, hm, hlt, rfl⟩, hsome⟩
    exact ⟨m, hm, hlt, hsome, rfl⟩
  · rintro ⟨m, hm, hlt, hsome, rfl⟩
    exact ⟨⟨m, hm, hlt, rfl⟩, hsome⟩

theorem loweredHead_eq_none (db : Db) (n : ℕ) : db.loweredHead n = none ↔
    ∀ m ∈ db.l1Messages, n < m.l1BlockNumber → m.l2BlockNumber = none := by
  have hhead : db.loweredHead n = none ↔ db.removedExecuted n = [] := by
    unfold loweredHead
    cases hremoved : db.removedExecuted n with
    | nil => exact iff_of_true rfl rfl
    | cons e rest =>
      have hmem : e ∈ db.removedExecuted n := by
        rw [hremoved]
        exact List.mem_cons_self
      obtain ⟨m, -, -, hsome, rfl⟩ := (db.mem_removed n e).1 ((List.mem_insertionSort _).1 hmem)
      obtain ⟨k, hk⟩ := Option.isSome_iff_exists.1 hsome
      simp [L1MessageRow.toEnvelope, hk]
  rw [hhead, removedExecuted, orderBy_eq_nil, List.eq_nil_iff_forall_not_mem]
  constructor
  · intro h m hm hlt
    by_contra hsome
    exact h _ ((db.mem_removed n _).2 ⟨m, hm, hlt, Option.isSome_iff_ne_none.2 hsome, rfl⟩)
  · intro h e he
    obtain ⟨m, hm, hlt, hsome, -⟩ := (db.mem_removed n e).1 he
    rw [h m hm hlt] at hsome
    cases hsome

/-- What the caller of `unwind` learns about the safe block. -/
inductive SafeReport (db : Db) (n : ℕ) : Option BlockInfo → Prop where
  | unchanged (h : ¬db.movesSafe n) : SafeReport db n none
  | recomputed (safe : BlockInfo) (batch : BatchInfo) (h : db.movesSafe n)
      (hsafe : (db.withoutAbove n).getLatestSafeL2Info = .ok (safe, batch)) :
      SafeReport db n (some safe)

theorem getLatestSafeL2Info_congr {db db' : Db} (h : db'.l2Blocks = db.l2Blocks) :
    db'.getLatestSafeL2Info = db.getLatestSafeL2Info := by
  unfold getLatestSafeL2Info
  rw [h]

theorem withHead_l2Blocks (db : Db) (head : Option ℕ) : (db.withHead head).l2Blocks = db.l2Blocks := by
  cases head <;> rfl

theorem withHead_batchCommits (db : Db) (head : Option ℕ) :
    (db.withHead head).batchCommits = db.batchCommits := by
  cases head <;> rfl

theorem unwind_ok {db db' : Db} {n : ℕ} {result : UnwindResult}
    (h : db.unwind n = .ok (db', result)) :
    db' = (db.withoutAbove n).withHead (db.loweredHead n) ∧ result.l1BlockNumber = n ∧
      result.l2HeadBlockNumber = db.loweredHead n ∧ db.SafeReport n result.l2SafeBlockInfo := by
  rw [unwind_eq] at h
  by_cases hmoves : db.movesSafe n
  · rw [recomputedSafe, if_pos hmoves] at h
    cases hsafe : (db.withoutAbove n).getLatestSafeL2Info with
    | error e =>
      rw [hsafe] at h
      cases h
    | ok info =>
      rw [hsafe] at h
      cases h
      exact ⟨rfl, rfl, rfl, .recomputed info.1 info.2 hmoves hsafe⟩
  · rw [recomputedSafe, if_neg hmoves] at h
    cases h
    exact ⟨rfl, rfl, rfl, .unchanged hmoves⟩

end Db
end RollupNode
