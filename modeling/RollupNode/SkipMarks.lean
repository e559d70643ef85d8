import RollupNode.GuardedRuns
import RollupNode.DatabaseConsolidation
import RollupNode.DatabaseUnwind

set_option autoImplicit false

/-! The marks of skipped messages, and the batches that made them. -/
namespace RollupNode
open RelationalTable GuardedRuns

namespace Db

def Offered (db : Db) (key : L1MessageKey) (m : L1MessageRow) : Prop :=
  ∃ n envelopes, db.getNL1Messages (some key) n = .ok envelopes ∧ m.toEnvelope ∈ envelopes

def Eligible (db : Db) (m : L1MessageRow) : L1MessageKey → Prop
  | .notIncluded (.finalizedWithBlockDepth depth) =>
    m.l2BlockNumber = none ∧ m.l1BlockNumber + depth ≤ db.l1FinalizedBlock
  | .notIncluded (.blockDepth depth) =>
    m.l2BlockNumber = none ∧ m.l1BlockNumber + depth ≤ db.l1LatestBlock
  | .blockNumber number => ∀ r ∈ db.lastIncludedBefore number, r.queueIndex < m.queueIndex
  | _ => False

theorem mem_messagesFrom {db : Db} {m : L1MessageRow} {p : L1MessageRow → Bool}
    (hm : m ∈ db.l1Messages) :
    (∃ n, m.toEnvelope ∈ db.messagesFrom p n) ↔ p m = true := by
  constructor
  · rintro ⟨n, hmem⟩
    obtain ⟨r, hr, henvelope⟩ := List.mem_map.1 hmem
    obtain ⟨hstored, hp⟩ := (db.l1Messages.mem_select p r).1 (mem_orderBy.1 (List.mem_of_mem_take hr))
    have hindex : r.queueIndex = m.queueIndex :=
      congrArg (fun e => e.transaction.queueIndex) henvelope
    rw [← db.l1Messages.eq_of_key hstored hm hindex]
    exact hp
  · intro hp
    refine ⟨(orderBy L1MessageRow.queueIndex (db.l1Messages.select p)).length, ?_⟩
    rw [messagesFrom, List.take_length]
    exact List.mem_map_of_mem (mem_orderBy.2 ((db.l1Messages.mem_select p m).2 ⟨hm, hp⟩))

theorem offered_of_eq {db : Db} {m : L1MessageRow} {key : L1MessageKey} (hm : m ∈ db.l1Messages)
    (p : L1MessageRow → Bool)
    (hkey : ∀ n, db.getNL1Messages (some key) n = .ok (db.messagesFrom p n)) :
    db.Offered key m ↔ p m = true := by
  rw [← mem_messagesFrom hm]
  constructor
  · rintro ⟨n, envelopes, hget, hmem⟩
    rw [hkey] at hget
    cases hget
    exact ⟨n, hmem⟩
  · rintro ⟨n, hmem⟩
    exact ⟨n, _, hkey n, hmem⟩

theorem offered_iff {db : Db} {m : L1MessageRow} {key : L1MessageKey} (hm : m ∈ db.l1Messages)
    (h : db.Eligible m key) :
    db.Offered key m ↔ m.skipped = false := by
  cases key with
  | queueIndex i => exact h.elim
  | transactionHash hash => exact h.elim
  | queueHash hash => exact h.elim
  | blockNumber number =>
    cases hlast : db.lastIncludedBefore number with
    | none =>
      rw [offered_of_eq hm (fun r => r.skipped = false)]
      · exact decide_eq_true_iff
      · intro n
        simp only [getNL1Messages, hlast]
    | some record =>
      have hafter : record.queueIndex + 1 ≤ m.queueIndex := h record hlast
      rw [offered_of_eq hm (fun r => record.queueIndex + 1 ≤ r.queueIndex ∧ r.skipped = false)]
      · simp [hafter]
      · intro n
        simp only [getNL1Messages, hlast]
  | notIncluded kind =>
    cases kind with
    | finalizedWithBlockDepth depth =>
      obtain ⟨hnone, hdepth⟩ := h
      have hle : depth ≤ db.l1FinalizedBlock := by omega
      have htarget : m.l1BlockNumber ≤ db.l1FinalizedBlock - depth := by omega
      rw [offered_of_eq hm (fun r => r.l1BlockNumber ≤ db.l1FinalizedBlock - depth ∧
        r.l2BlockNumber = none ∧ r.skipped = false)]
      · simp [hnone, htarget]
      · intro n
        simp only [getNL1Messages, if_pos hle, notIncludedUpTo]
    | blockDepth depth =>
      obtain ⟨hnone, hdepth⟩ := h
      have hle : depth ≤ db.l1LatestBlock := by omega
      have htarget : m.l1BlockNumber ≤ db.l1LatestBlock - depth := by omega
      rw [offered_of_eq hm (fun r => r.l1BlockNumber ≤ db.l1LatestBlock - depth ∧
        r.l2BlockNumber = none ∧ r.skipped = false)]
      · simp [hnone, htarget]
      · intro n
        simp only [getNL1Messages, if_pos hle, notIncludedUpTo]

end Db

inductive SkipOp where
  | consolidate (outcome : BatchConsolidationOutcome)
  | revert (startIndex endIndex : ℕ) (block : BlockInfo)
  | unwind (l1BlockNumber : ℕ)

/-- The database, and what the consolidated batches have listed as skipped. -/
structure SkipState where
  db : Db
  listings : List (B256 × List ℕ)

namespace SkipState

def step (s : SkipState) : SkipOp → SkipState
  | .consolidate o =>
    match s.db.insertBatchConsolidationOutcome o with
    | .ok db => ⟨db, (o.batchInfo.hash, o.skippedL1Messages) :: s.listings⟩
    | .error _ => s
  | .revert startIndex endIndex block =>
    { s with db := s.db.setBatchRevertBlockNumberForBatchRange startIndex endIndex block }
  | .unwind n =>
    match s.db.unwind n with
    | .ok (db, _) => { s with db := db }
    | .error _ => s

def ListedBy (s : SkipState) (p : BatchCommitRow → Prop) (queueIndex : ℕ) : Prop :=
  ∃ entry ∈ s.listings, queueIndex ∈ entry.2 ∧ ∃ r ∈ s.db.batchCommits, r.hash = entry.1 ∧ p r

/-- A batch that is stored and not reverted has listed the message. -/
def Listed (s : SkipState) (queueIndex : ℕ) : Prop :=
  s.ListedBy (fun r => r.revertedBlockNumber = none) queueIndex

def MarksFollow (s : SkipState) : Prop :=
  ∀ m ∈ s.db.l1Messages, m.skipped = true ↔ s.Listed m.queueIndex

/-- Marks are never taken back: whatever was listed is marked. -/
def Remembered (s : SkipState) : Prop :=
  ∀ entry ∈ s.listings, ∀ m ∈ s.db.l1Messages, m.queueIndex ∈ entry.2 → m.skipped = true

/-- Nothing new is marked for a batch that is reverted or not stored, and a marked message that
stays has a batch that listed it, stays and is not reverted. -/
def KeepsLister (s : SkipState) : SkipOp → Prop
  | .consolidate o => s.db.Accepts o →
      (∃ m ∈ s.db.l1Messages, m.skipped = false ∧ m.queueIndex ∈ o.skippedL1Messages) →
      ∃ r ∈ s.db.batchCommits, r.hash = o.batchInfo.hash ∧ r.revertedBlockNumber = none
  | .revert startIndex endIndex _ => ∀ m ∈ s.db.l1Messages, m.skipped = true →
      s.ListedBy (fun r => r.revertedBlockNumber = none ∧
        ¬(startIndex ≤ r.index ∧ r.index ≤ endIndex)) m.queueIndex
  | .unwind n => (∃ result, s.db.unwind n = .ok result) → ∀ m ∈ s.db.l1Messages,
      m.l1BlockNumber ≤ n → m.skipped = true →
      s.ListedBy (fun r => r.blockNumber ≤ n ∧ ∀ k ∈ r.revertedBlockNumber, n < k) m.queueIndex

theorem exists_live_consolidated (db : Db) (o : BatchConsolidationOutcome) (hash : B256) :
    (∃ r ∈ (db.consolidated o).batchCommits, r.hash = hash ∧ r.revertedBlockNumber = none) ↔
      ∃ r ∈ db.batchCommits, r.hash = hash ∧ r.revertedBlockNumber = none :=
  db.batchCommits.exists_mem_updateWhere (fun r => r.hash = o.batchInfo.hash)
    (fun r => { r with status := o.targetStatus }) (fun _ => rfl) (fun _ => Iff.rfl)

theorem exists_live_reverted (db : Db) (startIndex endIndex : ℕ) (block : BlockInfo)
    (hash : B256) :
    (∃ r ∈ (db.setBatchRevertBlockNumberForBatchRange startIndex endIndex block).batchCommits,
      r.hash = hash ∧ r.revertedBlockNumber = none) ↔
    ∃ r ∈ db.batchCommits, r.hash = hash ∧ r.revertedBlockNumber = none ∧
      ¬(startIndex ≤ r.index ∧ r.index ≤ endIndex) := by
  rw [Db.setBatchRevertBlockNumberForBatchRange_batchCommits]
  constructor
  · rintro ⟨r, hr, hhash, hlive⟩
    obtain ⟨q, hq, ⟨-, rfl⟩ | ⟨hout, rfl⟩⟩ := Table.cases_of_mem_update hr
    · cases hlive
    · refine ⟨r, hq, hhash, hlive, ?_⟩
      rintro ⟨hstart, hend⟩
      have hin : Db.inRevertedRange startIndex endIndex r = true :=
        decide_eq_true ⟨hstart, hend, hlive⟩
      rw [hin] at hout
      cases hout
  · rintro ⟨r, hr, hhash, hlive, hout⟩
    refine ⟨r, (db.batchCommits.mem_updateWhere _ _ _ _).2 ⟨r, hr, if_neg ?_⟩, hhash, hlive⟩
    intro hin
    obtain ⟨hstart, hend, -⟩ := of_decide_eq_true hin
    exact hout ⟨hstart, hend⟩

theorem exists_live_unwound (db : Db) (n : ℕ) (hash : B256) :
    (∃ r ∈ (db.withoutAbove n).batchCommits, r.hash = hash ∧ r.revertedBlockNumber = none) ↔
    ∃ r ∈ db.batchCommits, r.hash = hash ∧ r.blockNumber ≤ n ∧
      ∀ k ∈ r.revertedBlockNumber, n < k := by
  have hlive (r : BatchCommitRow) : (Db.BatchCommitRow.asOf n r).revertedBlockNumber = none ↔
      ∀ k ∈ r.revertedBlockNumber, n < k := by
    change r.revertedBlockNumber.filter (· ≤ n) = none ↔ _
    simp only [Option.filter_eq_none_iff, decide_eq_true_eq, Nat.not_le, Option.mem_def]
  constructor
  · rintro ⟨r, hr, hhash, hnone⟩
    obtain ⟨q, hq, hle, rfl⟩ := (db.mem_withoutAbove_batchCommits n r).1 hr
    exact ⟨q, hq, hhash, hle, (hlive q).1 hnone⟩
  · rintro ⟨r, hr, hhash, hle, hafter⟩
    exact ⟨_, (db.mem_withoutAbove_batchCommits n _).2 ⟨r, hr, hle, rfl⟩, hhash,
      (hlive r).2 hafter⟩

theorem exists_message_unwound (db : Db) (n : ℕ) {Q : ℕ → Bool → Prop} :
    (∀ m ∈ ((db.withoutAbove n).withHead (db.loweredHead n)).l1Messages,
      Q m.queueIndex m.skipped) ↔
    ∀ m ∈ db.l1Messages, m.l1BlockNumber ≤ n → Q m.queueIndex m.skipped := by
  have hmem (m : L1MessageRow) :
      m ∈ (db.withoutAbove n).l1Messages ↔ m ∈ db.l1Messages ∧ m.l1BlockNumber ≤ n := by
    change m ∈ db.l1Messages.deleteWhere _ ↔ _
    rw [Table.mem_deleteWhere, decide_eq_false_iff_not, Nat.not_lt]
  have hhead : (∀ m ∈ ((db.withoutAbove n).withHead (db.loweredHead n)).l1Messages,
      Q m.queueIndex m.skipped) ↔
      ∀ m ∈ (db.withoutAbove n).l1Messages, Q m.queueIndex m.skipped := by
    cases db.loweredHead n with
    | none => exact Iff.rfl
    | some head =>
      have hview := (db.withoutAbove n).l1Messages.exists_mem_updateWhere
        (fun r => r.l2BlockNumber.any (fun number => head + 1 ≤ number))
        (fun r => { r with l2BlockNumber := none }) (fun _ => rfl)
        (Q := fun m => ¬Q m.queueIndex m.skipped) (fun _ => Iff.rfl)
      have hnot := not_congr hview
      simp only [not_exists, not_and, not_not] at hnot
      exact hnot
  rw [hhead]
  constructor
  · intro h m hm hle
    exact h m ((hmem m).2 ⟨hm, hle⟩)
  · intro h m hm
    obtain ⟨hstored, hle⟩ := (hmem m).1 hm
    exact h m hstored hle

theorem step_consolidate (s : SkipState) (o : BatchConsolidationOutcome) :
    (s.db.Accepts o ∧ s.step (.consolidate o) =
      ⟨s.db.consolidated o, (o.batchInfo.hash, o.skippedL1Messages) :: s.listings⟩) ∨
    (¬s.db.Accepts o ∧ s.step (.consolidate o) = s) := by
  cases hstored : s.db.insertBatchConsolidationOutcome o with
  | ok db =>
    obtain ⟨haccepts, rfl⟩ := (s.db.insertBatchConsolidationOutcome_eq_ok db o).1 hstored
    refine Or.inl ⟨haccepts, ?_⟩
    simp only [step, hstored]
  | error e =>
    refine Or.inr ⟨?_, by simp only [step, hstored]⟩
    intro haccepts
    rw [s.db.insertBatchConsolidationOutcome_of_accepts o haccepts] at hstored
    cases hstored

theorem step_unwind (s : SkipState) (n : ℕ) :
    ((∃ result, s.db.unwind n = .ok result) ∧ s.step (.unwind n) =
      { s with db := (s.db.withoutAbove n).withHead (s.db.loweredHead n) }) ∨
    ((¬∃ result, s.db.unwind n = .ok result) ∧ s.step (.unwind n) = s) := by
  cases hunwind : s.db.unwind n with
  | ok result =>
    obtain ⟨db, report⟩ := result
    obtain ⟨rfl, -⟩ := Db.unwind_ok hunwind
    refine Or.inl ⟨⟨_, rfl⟩, ?_⟩
    simp only [step, hunwind]
  | error e =>
    refine Or.inr ⟨?_, by simp only [step, hunwind]⟩
    rintro ⟨result, hresult⟩
    cases hresult

theorem listed_consolidated (s : SkipState) (o : BatchConsolidationOutcome) (queueIndex : ℕ) :
    Listed ⟨s.db.consolidated o, (o.batchInfo.hash, o.skippedL1Messages) :: s.listings⟩
      queueIndex ↔
    (queueIndex ∈ o.skippedL1Messages ∧
      ∃ r ∈ s.db.batchCommits, r.hash = o.batchInfo.hash ∧ r.revertedBlockNumber = none) ∨
    s.Listed queueIndex := by
  simp only [Listed, ListedBy, List.exists_mem_cons_iff, exists_live_consolidated]

theorem ready_consolidate {s : SkipState} (o : BatchConsolidationOutcome)
    (hremembered : s.Remembered) (hfollow : s.MarksFollow) : (s.step (.consolidate o)).Remembered ∧
      ((s.step (.consolidate o)).MarksFollow ↔ s.KeepsLister (.consolidate o)) := by
  obtain ⟨haccepts, hstep⟩ | ⟨hrefused, hstep⟩ := s.step_consolidate o
  · rw [hstep]
    constructor
    · intro entry hentry m hm hlisted
      obtain ⟨q, hq, rfl⟩ := (s.db.mem_consolidated_l1Messages o m).1 hm
      rw [Db.remapped, Bool.or_eq_true, decide_eq_true_eq]
      rcases List.mem_cons.1 hentry with rfl | hentry
      · exact Or.inr hlisted
      · exact Or.inl (hremembered entry hentry q hq hlisted)
    · constructor
      · rintro hafter - ⟨m, hm, hunmarked, hskipped⟩
        have hmarked : (Db.remapped o m).skipped = true := by
          rw [Db.remapped, Bool.or_eq_true, decide_eq_true_eq]
          exact Or.inr hskipped
        have hlisted := (hafter (Db.remapped o m)
          ((s.db.mem_consolidated_l1Messages o _).2 ⟨m, hm, rfl⟩)).1 hmarked
        rcases (s.listed_consolidated o _).1 hlisted with ⟨-, hlive⟩ | hbefore
        · exact hlive
        · rw [(hfollow m hm).2 hbefore] at hunmarked
          cases hunmarked
      · intro hkeeps m hm
        obtain ⟨q, hq, rfl⟩ := (s.db.mem_consolidated_l1Messages o m).1 hm
        rw [listed_consolidated, Db.remapped, Bool.or_eq_true, decide_eq_true_eq, hfollow q hq,
          or_comm]
        refine or_congr_left' ?_
        intro hbefore
        refine (and_iff_left_of_imp ?_).symm
        intro hskipped
        refine hkeeps haccepts ⟨q, hq, ?_, hskipped⟩
        exact Bool.eq_false_iff.2 (fun hmarked => hbefore ((hfollow q hq).1 hmarked))
  · rw [hstep]
    exact ⟨hremembered, iff_of_true hfollow (fun haccepts => absurd haccepts hrefused)⟩

theorem ready_revert {s : SkipState} (startIndex endIndex : ℕ) (block : BlockInfo)
    (hremembered : s.Remembered) :
    (s.step (.revert startIndex endIndex block)).Remembered ∧
      ((s.step (.revert startIndex endIndex block)).MarksFollow ↔
        s.KeepsLister (.revert startIndex endIndex block)) := by
  refine ⟨hremembered, ?_⟩
  have hlisted (queueIndex : ℕ) : (s.step (.revert startIndex endIndex block)).Listed queueIndex ↔
      s.ListedBy (fun r => r.revertedBlockNumber = none ∧
        ¬(startIndex ≤ r.index ∧ r.index ≤ endIndex)) queueIndex := by
    simp only [Listed, ListedBy, step, exists_live_reverted]
  constructor
  · intro hafter m hm hmarked
    exact (hlisted _).1 ((hafter m hm).1 hmarked)
  · intro hkeeps m hm
    rw [hlisted]
    refine ⟨hkeeps m hm, ?_⟩
    rintro ⟨entry, hentry, hmem, -⟩
    exact hremembered entry hentry m hm hmem

theorem ready_unwind {s : SkipState} (n : ℕ) (hremembered : s.Remembered) (hfollow : s.MarksFollow) :
    (s.step (.unwind n)).Remembered ∧
      ((s.step (.unwind n)).MarksFollow ↔ s.KeepsLister (.unwind n)) := by
  obtain ⟨hok, hstep⟩ | ⟨hfailed, hstep⟩ := s.step_unwind n
  · rw [hstep]
    have hlisted (queueIndex : ℕ) : Listed
        { s with db := (s.db.withoutAbove n).withHead (s.db.loweredHead n) } queueIndex ↔
        s.ListedBy (fun r => r.blockNumber ≤ n ∧ ∀ k ∈ r.revertedBlockNumber, n < k)
          queueIndex := by
      simp only [Listed, ListedBy, Db.withHead_batchCommits, exists_live_unwound]
    constructor
    · intro entry hentry
      refine (exists_message_unwound s.db n
        (Q := fun queueIndex skipped => queueIndex ∈ entry.2 → skipped = true)).2 ?_
      intro m hm _
      exact hremembered entry hentry m hm
    · refine (exists_message_unwound s.db n (Q := fun queueIndex skipped => skipped = true ↔
        Listed { s with db := (s.db.withoutAbove n).withHead (s.db.loweredHead n) }
          queueIndex)).trans ?_
      constructor
      · intro hafter _ m hm hle hmarked
        exact (hlisted _).1 ((hafter m hm hle).1 hmarked)
      · intro hkeeps m hm hle
        rw [hlisted]
        refine ⟨hkeeps hok m hm hle, ?_⟩
        rintro ⟨entry, hentry, hmem, -⟩
        exact hremembered entry hentry m hm hmem
  · rw [hstep]
    exact ⟨hremembered, iff_of_true hfollow (fun hok => absurd hok hfailed)⟩

/-- A step keeps the marks with the batches exactly when it takes no last lister away. -/
theorem ready_step (s : SkipState) (op : SkipOp) (hremembered : s.Remembered)
    (hfollow : s.MarksFollow) :
    (s.step op).Remembered ∧ ((s.step op).MarksFollow ↔ s.KeepsLister op) := by
  cases op with
  | consolidate o => exact ready_consolidate o hremembered hfollow
  | revert startIndex endIndex block => exact ready_revert startIndex endIndex block hremembered
  | unwind n => exact ready_unwind n hremembered hfollow

end SkipState

open SkipState in
/-- The marks follow the batches throughout a run exactly when no step takes the last lister of a
marked message away, and then a message is offered again as soon as no batch lists it. -/
theorem skipMarks_iff (db : Db) (hunmarked : ∀ m ∈ db.l1Messages, m.skipped = false)
    (ops : List SkipOp) :
    ((∀ before after, ops = before ++ after → (run step ⟨db, []⟩ before).MarksFollow) ↔
      Meets step KeepsLister ⟨db, []⟩ ops) ∧
    (Meets step KeepsLister ⟨db, []⟩ ops →
      ∀ m ∈ (run step ⟨db, []⟩ ops).db.l1Messages, ∀ key,
        (run step ⟨db, []⟩ ops).db.Eligible m key →
        ((run step ⟨db, []⟩ ops).db.Offered key m ↔
          ¬(run step ⟨db, []⟩ ops).Listed m.queueIndex)) := by
  have hremembered : Remembered ⟨db, []⟩ := by
    intro entry hentry
    cases hentry
  have hfollow : MarksFollow ⟨db, []⟩ := by
    intro m hm
    refine iff_of_false ?_ ?_
    · rw [hunmarked m hm]
      exact Bool.false_ne_true
    · rintro ⟨entry, hentry, -⟩
      cases hentry
  have hiff := meets_iff_forall_run step MarksFollow Remembered
    (fun s op hready hmarks _ => ready_step s op hready hmarks) hremembered hfollow
    (meets_true step _ ops)
  refine ⟨hiff.symm, ?_⟩
  intro hmeets m hm key heligible
  have hmarks := hiff.1 hmeets ops [] (List.append_nil ops).symm m hm
  rw [Db.offered_iff hm heligible, ← hmarks, Bool.not_eq_true]

def oneMessage : Db :=
  { (migrated 7).insertBatch ⟨11, 1, 10, 0, [], none, none, none⟩ with
    l1Messages := ⟨[⟨⟨0, 21000, 100⟩, none, 5, none, false⟩], List.nodup_singleton _⟩
    l1LatestBlock := 12 }

def skipsMessage : BatchConsolidationOutcome :=
  ⟨⟨1, 11⟩, [⟨⟨1, 21⟩, []⟩], [0], .consolidated, false⟩

theorem oneMessage_unmarked : ∀ m ∈ oneMessage.l1Messages, m.skipped = false := by
  intro m hm
  rw [List.mem_singleton.1 hm]

theorem skipMarks_iff_unwound :
    (run SkipState.step ⟨oneMessage, []⟩ [.consolidate skipsMessage, .unwind 10]).MarksFollow := by
  refine (skipMarks_iff oneMessage oneMessage_unmarked
    [.consolidate skipsMessage, .unwind 10]).1.2 ⟨?_, ?_, trivial⟩ _ [] rfl
  · intro _ _
    exact ⟨⟨1, 11, 10, 0, [], none, none, none, .committed⟩,
      List.mem_cons_of_mem _ List.mem_cons_self, rfl, rfl⟩
  · intro _ m hm _ _
    refine ⟨(11, [0]), List.mem_cons_self, ?_, ⟨1, 11, 10, 0, [], none, none, none, .consolidated⟩,
      List.mem_cons_of_mem _ List.mem_cons_self, rfl, Nat.le_refl _, ?_⟩
    · rw [List.mem_singleton.1 hm]
      exact List.mem_cons_self
    · intro k hk
      cases hk

/-- The only batch that skipped the message is reverted, or removed by an unwind: the message
stays marked and is not offered. -/
theorem mark_outlives_batch :
    (¬(run SkipState.step ⟨oneMessage, []⟩
        [.consolidate skipsMessage, .revert 1 1 ⟨11, 111⟩]).MarksFollow ∧
      (run SkipState.step ⟨oneMessage, []⟩ [.consolidate skipsMessage,
        .revert 1 1 ⟨11, 111⟩]).db.getNL1Messages (some (.notIncluded (.blockDepth 0))) 5 = .ok []) ∧
    ¬(run SkipState.step ⟨oneMessage, []⟩ [.consolidate skipsMessage, .unwind 9]).MarksFollow ∧
      (run SkipState.step ⟨oneMessage, []⟩ [.consolidate skipsMessage,
        .unwind 9]).db.getNL1Messages (some (.notIncluded (.blockDepth 0))) 5 = .ok [] := by
  have hmarked : ∀ s : SkipState, s.db.l1Messages.rows = [⟨⟨0, 21000, 100⟩, none, 5, none, true⟩] →
      (∀ r ∈ s.db.batchCommits, r.hash = 11 → r.revertedBlockNumber ≠ none) →
      s.listings = [(11, [0])] → ¬s.MarksFollow := by
    intro s hrows hreverted hlistings hfollow
    have hmem : (⟨⟨0, 21000, 100⟩, none, 5, none, true⟩ : L1MessageRow) ∈ s.db.l1Messages := by
      rw [← Table.mem_rows, hrows]
      exact List.mem_cons_self
    obtain ⟨entry, hentry, -, r, hr, hhash, hlive⟩ := (hfollow _ hmem).1 rfl
    rw [hlistings, List.mem_singleton] at hentry
    rw [hentry] at hhash
    exact hreverted r hr hhash hlive
  refine ⟨⟨hmarked _ rfl ?_ rfl, rfl⟩, hmarked _ rfl ?_ rfl, rfl⟩
  · decide
  · decide

end RollupNode
