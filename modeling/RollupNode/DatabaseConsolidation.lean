import RollupNode.DatabaseWrites

set_option autoImplicit false

/-! The transaction that records a consolidated batch, and what it does to the
L1 message mappings. -/
namespace RollupNode
open RelationalTable

namespace BatchConsolidationOutcome

def updatedL2Head (o : BatchConsolidationOutcome) : Except Abort (Option BlockInfo) :=
  match o.l2HeadUpdated, o.blocks.getLast? with
  | false, _ => .ok none
  | true, some b => .ok (some b.blockInfo)
  | true, none => .error (.panic "must have at least one block")

end BatchConsolidationOutcome

namespace Db

def insertBatchConsolidationOutcome (db : Db) (o : BatchConsolidationOutcome) :
    Except Abort Db := do
  let moved ← o.updatedL2Head
  let db := match moved with
    | some head => db.setL2HeadBlockNumber head.number
    | none => db
  let db ← db.insertBlocks (o.blocks.map (·.blockInfo)) o.batchInfo
  let db := db.updateL1MessagesWithL2Blocks o.blocks
  let db := db.updateSkippedL1Messages o.skippedL1Messages
  return db.updateBatchStatus o.batchInfo.hash o.targetStatus

def headAfter (db : Db) (o : BatchConsolidationOutcome) : ℕ :=
  if o.l2HeadUpdated then (o.blocks.getLast?.map (·.blockInfo.number)).getD db.l2HeadBlock
  else db.l2HeadBlock

def consolidated (db : Db) (o : BatchConsolidationOutcome) : Db :=
  ((((db.setL2HeadBlockNumber (db.headAfter o)).withBlocks
    (o.blocks.map (·.blockInfo)) o.batchInfo).updateL1MessagesWithL2Blocks
      o.blocks).updateSkippedL1Messages o.skippedL1Messages).updateBatchStatus
        o.batchInfo.hash o.targetStatus

/-- Without blocks the head cannot move, and blocks need their batch row. -/
structure Accepts (db : Db) (o : BatchConsolidationOutcome) : Prop where
  head : o.l2HeadUpdated = true → o.blocks ≠ []
  batch : o.blocks ≠ [] → ∃ r ∈ db.batchCommits, r.hash = o.batchInfo.hash

theorem insertBatchConsolidationOutcome_of_accepts (db : Db) (o : BatchConsolidationOutcome)
    (h : db.Accepts o) : db.insertBatchConsolidationOutcome o = .ok (db.consolidated o) := by
  obtain ⟨hhead, hbatch⟩ := h
  rcases o with ⟨batch, blocks, skipped, target, updated⟩
  rcases List.eq_nil_or_concat blocks with rfl | ⟨init, last, rfl⟩
  · have hu : updated = false := by
      cases updated with
      | false => rfl
      | true => exact absurd rfl (hhead rfl)
    subst hu
    rfl
  · have hr := hbatch (by simp)
    cases updated <;>
      simp [insertBatchConsolidationOutcome, BatchConsolidationOutcome.updatedL2Head,
        insertBlocks, consolidated, headAfter, setL2HeadBlockNumber, hr, bind, Except.bind, pure,
        Except.pure]

theorem accepts_of_insertBatchConsolidationOutcome (db db' : Db)
    (o : BatchConsolidationOutcome) (h : db.insertBatchConsolidationOutcome o = .ok db') :
    db.Accepts o := by
  rcases o with ⟨batch, blocks, skipped, target, updated⟩
  rcases List.eq_nil_or_concat blocks with rfl | ⟨init, last, rfl⟩
  · refine ⟨?_, fun hb => absurd rfl hb⟩
    intro hu
    simp only at hu
    subst hu
    cases h
  · refine ⟨fun _ => by simp, fun _ => ?_⟩
    by_contra hr
    cases updated <;>
      simp [insertBatchConsolidationOutcome, BatchConsolidationOutcome.updatedL2Head,
        insertBlocks, setL2HeadBlockNumber, hr, bind, Except.bind] at h

theorem insertBatchConsolidationOutcome_eq_ok (db db' : Db) (o : BatchConsolidationOutcome) :
    db.insertBatchConsolidationOutcome o = .ok db' ↔ db.Accepts o ∧ db' = db.consolidated o := by
  constructor
  · intro h
    have ha := accepts_of_insertBatchConsolidationOutcome db db' o h
    rw [insertBatchConsolidationOutcome_of_accepts db o ha] at h
    exact ⟨ha, (Except.ok.inj h).symm⟩
  · rintro ⟨ha, rfl⟩
    exact insertBatchConsolidationOutcome_of_accepts db o ha

def remapped (o : BatchConsolidationOutcome) (m : L1MessageRow) : L1MessageRow :=
  { m with
    l2BlockNumber := if m.hash ∈ allHashes o.blocks then caseNumber o.blocks m.hash else m.l2BlockNumber
    skipped := m.skipped || m.queueIndex ∈ o.skippedL1Messages }

theorem consolidated_l1Messages_rows (db : Db) (o : BatchConsolidationOutcome) :
    (db.consolidated o).l1Messages.rows = db.l1Messages.rows.map (remapped o) := by
  change List.map _ (List.map _ _) = _
  rw [List.map_map]
  refine List.map_congr_left ?_
  intro m _
  rcases m with ⟨tx, queueHash, l1BlockNumber, l2BlockNumber, skipped⟩
  by_cases hl : tx.txHash ∈ allHashes o.blocks <;>
    by_cases hs : tx.queueIndex ∈ o.skippedL1Messages <;>
    simp [remapped, L1MessageRow.hash, L1MessageRow.queueIndex, hl, hs]

theorem mem_consolidated_l1Messages (db : Db) (o : BatchConsolidationOutcome)
    (m : L1MessageRow) :
    m ∈ (db.consolidated o).l1Messages ↔ ∃ q ∈ db.l1Messages, remapped o q = m := by
  rw [← Table.mem_rows, consolidated_l1Messages_rows]
  exact List.mem_map

theorem headAfter_of_moved (db : Db) (o : BatchConsolidationOutcome) (ha : db.Accepts o)
    (hu : o.l2HeadUpdated = true) :
    ∃ last, o.blocks.getLast? = some last ∧ db.headAfter o = last.blockInfo.number := by
  have hlast := List.getLast?_eq_some_getLast (ha.head hu)
  refine ⟨_, hlast, ?_⟩
  rw [headAfter, if_pos hu, hlast]
  rfl

end Db

/-- No message is mapped above the head, and the messages mapped to a block of the batch
are the ones that block lists. -/
structure MappingCoherent (db : Db) (o : BatchConsolidationOutcome) : Prop where
  belowHead : ∀ m ∈ db.l1Messages, ∀ k, m.l2BlockNumber = some k → k ≤ db.l2HeadBlock
  listed : ∀ b ∈ o.blocks, ∀ m ∈ db.l1Messages,
    m.l2BlockNumber = some b.blockInfo.number ↔ m.hash ∈ b.l1Messages

/-- A message that the batch does not list is mapped to none of its blocks, nor above the
last of them. -/
def NoStaleMapping (db : Db) (o : BatchConsolidationOutcome) : Prop :=
  ∀ m ∈ db.l1Messages, m.hash ∉ Db.allHashes o.blocks → ∀ k, m.l2BlockNumber = some k →
    (∀ last ∈ o.blocks.getLast?, k ≤ last.blockInfo.number) ∧
      ∀ b ∈ o.blocks, b.blockInfo.number ≠ k

/-- A stored message is listed under one block number, not above the last block. -/
def ListedOnce (db : Db) (o : BatchConsolidationOutcome) : Prop :=
  ∀ m ∈ db.l1Messages, ∀ b ∈ o.blocks, m.hash ∈ b.l1Messages →
    (∀ last ∈ o.blocks.getLast?, b.blockInfo.number ≤ last.blockInfo.number) ∧
      ∀ c ∈ o.blocks, b.blockInfo.number = c.blockInfo.number ↔ m.hash ∈ c.l1Messages

section
variable (db : Db) (o : BatchConsolidationOutcome)

theorem mappingCoherent_of_noStaleMapping (ha : db.Accepts o) (hu : o.l2HeadUpdated = true)
    (hs : NoStaleMapping db o) (hl : ListedOnce db o) :
    MappingCoherent (db.consolidated o) o := by
  obtain ⟨last, hlast, hhead⟩ := db.headAfter_of_moved o ha hu
  constructor
  · intro m hm k hk
    obtain ⟨q, hq, rfl⟩ := (db.mem_consolidated_l1Messages o m).1 hm
    change k ≤ db.headAfter o
    rw [hhead]
    simp only [Db.remapped] at hk
    split at hk
    · rename_i hin
      obtain ⟨b, hb, hqb, hcase⟩ := Db.caseNumber_of_mem o.blocks q.hash hin
      rw [hcase] at hk
      cases hk
      exact (hl q hq b hb hqb).1 last hlast
    · rename_i hout
      exact (hs q hq hout k hk).1 last hlast
  · intro c hc m hm
    obtain ⟨q, hq, rfl⟩ := (db.mem_consolidated_l1Messages o m).1 hm
    change (if _ then _ else _) = _ ↔ q.hash ∈ _
    split
    · rename_i hin
      obtain ⟨b, hb, hqb, hcase⟩ := Db.caseNumber_of_mem o.blocks q.hash hin
      rw [hcase, Option.some.injEq]
      exact (hl q hq b hb hqb).2 c hc
    · rename_i hout
      constructor
      · intro hk
        exact absurd rfl ((hs q hq hout _ hk).2 c hc)
      · intro hqc
        exact absurd ((Db.mem_allHashes o.blocks q.hash).2 ⟨c, hc, hqc⟩) hout

theorem noStaleMapping_of_mappingCoherent (ha : db.Accepts o) (hu : o.l2HeadUpdated = true)
    (h : MappingCoherent (db.consolidated o) o) : NoStaleMapping db o := by
  obtain ⟨last, hlast, hhead⟩ := db.headAfter_of_moved o ha hu
  intro q hq hout k hk
  have hm := (db.mem_consolidated_l1Messages o _).2 ⟨q, hq, rfl⟩
  have hkeep : (Db.remapped o q).l2BlockNumber = some k := by
    simp only [Db.remapped, if_neg hout, hk]
  constructor
  · intro last' hlast'
    have hle : k ≤ db.headAfter o := h.belowHead _ hm k hkeep
    rw [hlast] at hlast'
    cases hlast'
    rwa [hhead] at hle
  · intro b hb hbk
    have hlist : q.hash ∈ b.l1Messages := (h.listed b hb _ hm).1 (hbk ▸ hkeep)
    exact hout ((Db.mem_allHashes o.blocks q.hash).2 ⟨b, hb, hlist⟩)

theorem listedOnce_of_mappingCoherent (ha : db.Accepts o) (hu : o.l2HeadUpdated = true)
    (h : MappingCoherent (db.consolidated o) o) : ListedOnce db o := by
  obtain ⟨last, hlast, hhead⟩ := db.headAfter_of_moved o ha hu
  intro q hq b hb hqb
  have hm := (db.mem_consolidated_l1Messages o _).2 ⟨q, hq, rfl⟩
  have hnum : (Db.remapped o q).l2BlockNumber = some b.blockInfo.number :=
    (h.listed b hb _ hm).2 hqb
  constructor
  · intro last' hlast'
    have hle : b.blockInfo.number ≤ db.headAfter o := h.belowHead _ hm _ hnum
    rw [hlast] at hlast'
    cases hlast'
    rwa [hhead] at hle
  · intro c hc
    have hlist := h.listed c hc _ hm
    rwa [hnum, Option.some.injEq] at hlist

end

/-- The transaction writes mappings and removes none, so it leaves a coherent mapping
exactly when nothing stale was there before. -/
theorem insertBatchConsolidationOutcome_coherent_iff (db db' : Db)
    (o : BatchConsolidationOutcome) (h : db.insertBatchConsolidationOutcome o = .ok db')
    (hu : o.l2HeadUpdated = true) :
    MappingCoherent db' o ↔ NoStaleMapping db o ∧ ListedOnce db o := by
  obtain ⟨ha, rfl⟩ := (db.insertBatchConsolidationOutcome_eq_ok db' o).1 h
  constructor
  · intro hc
    exact ⟨noStaleMapping_of_mappingCoherent db o ha hu hc,
      listedOnce_of_mappingCoherent db o ha hu hc⟩
  · rintro ⟨hs, hl⟩
    exact mappingCoherent_of_noStaleMapping db o ha hu hs hl

def includedMessage : L1MessageEnvelope := ⟨⟨0, 21000, 100⟩, 5, none, none⟩

def firstCommit : BatchCommitData := ⟨11, 1, 10, 0, [], none, none, none⟩

def unsafeIncluded : Except Abort Db := do
  let db ← (migrated 7).insertL1Message includedMessage
  (db.insertBatch firstCommit).updateL1MessagesFromL2Blocks [⟨⟨1, 21⟩, [100]⟩]

def rebuiltWithout : BatchConsolidationOutcome :=
  ⟨⟨1, 11⟩, [⟨⟨1, 22⟩, []⟩], [], .consolidated, true⟩

def confirmedWith : BatchConsolidationOutcome :=
  ⟨⟨1, 11⟩, [⟨⟨1, 21⟩, [100]⟩], [], .consolidated, true⟩

def consolidatedFirst : Db := ((migrated 7).insertBatch firstCommit).consolidated confirmedWith

theorem insertBatchConsolidationOutcome_coherent_confirmed :
    ∃ db db', unsafeIncluded = .ok db ∧ db.insertBatchConsolidationOutcome confirmedWith = .ok db' ∧
      (MappingCoherent db' confirmedWith ↔
        NoStaleMapping db confirmedWith ∧ ListedOnce db confirmedWith) :=
  ⟨_, _, rfl, rfl, insertBatchConsolidationOutcome_coherent_iff _ _ _ rfl rfl⟩

theorem insertBatchConsolidationOutcome_keeps_discarded_mapping :
    ∃ db db', unsafeIncluded = .ok db ∧
      db.insertBatchConsolidationOutcome rebuiltWithout = .ok db' ∧
      rebuiltWithout.l2HeadUpdated = true ∧ ¬MappingCoherent db' rebuiltWithout := by
  refine ⟨_, _, rfl, rfl, rfl, ?_⟩
  intro h
  have hlisted := h.listed ⟨⟨1, 22⟩, []⟩ (by decide)
  revert hlisted
  decide

def ConsecutiveFrom (first : ℕ) : List L2BlockInfoWithL1Messages → Prop
  | [] => True
  | b :: bs => b.blockInfo.number = first ∧ ConsecutiveFrom (first + 1) bs

theorem ConsecutiveFrom.mem_number {blocks : List L2BlockInfoWithL1Messages} {first : ℕ}
    (hc : ConsecutiveFrom first blocks) (k : ℕ) :
    (∃ b ∈ blocks, b.blockInfo.number = k) ↔ first ≤ k ∧ k < first + blocks.length := by
  induction blocks generalizing first with
  | nil =>
    simp only [List.not_mem_nil, false_and, exists_false, List.length_nil, false_iff]
    omega
  | cons b bs ih =>
    have ht := ih hc.2
    rw [List.exists_mem_cons_iff, ht, hc.1, List.length_cons]
    omega

theorem ConsecutiveFrom.last_number {blocks : List L2BlockInfoWithL1Messages} {first : ℕ}
    (hc : ConsecutiveFrom first blocks) :
    ∀ last ∈ blocks.getLast?, last.blockInfo.number + 1 = first + blocks.length := by
  induction blocks generalizing first with
  | nil => simp
  | cons b bs ih =>
    intro last hlast
    cases bs with
    | nil =>
      cases hlast
      change b.blockInfo.number + 1 = first + 1
      rw [hc.1]
    | cons c cs =>
      rw [List.getLast?_cons_cons] at hlast
      have ht := ih hc.2 last hlast
      simp only [List.length_cons] at ht ⊢
      omega

theorem noStaleMapping_iff_of_consecutive (db : Db) (o : BatchConsolidationOutcome) (first : ℕ)
    (hc : ConsecutiveFrom first o.blocks) (hne : o.blocks ≠ []) :
    NoStaleMapping db o ↔ ∀ m ∈ db.l1Messages, m.hash ∉ Db.allHashes o.blocks →
      ∀ k, m.l2BlockNumber = some k → k < first := by
  have hlast := hc.last_number _ (List.getLast?_eq_some_getLast hne)
  constructor
  · intro h m hm hout k hk
    obtain ⟨hle, hne'⟩ := h m hm hout k hk
    have hle := hle _ (List.getLast?_eq_some_getLast hne)
    by_contra hlt
    obtain ⟨b, hb, hbk⟩ := (hc.mem_number k).2 (by omega)
    exact hne' b hb hbk
  · intro h m hm hout k hk
    have hlt := h m hm hout k hk
    constructor
    · intro last hl
      have hnum := hc.last_number last hl
      have hpos := List.length_pos_iff.2 hne
      omega
    · intro b hb hbk
      have hge := (hc.mem_number k).1 ⟨b, hb, hbk⟩
      omega

theorem noStaleMapping_unmapWhere (db : Db) (o : BatchConsolidationOutcome) (first : ℕ)
    (hc : ConsecutiveFrom first o.blocks) (hne : o.blocks ≠ []) :
    NoStaleMapping (db.unmapWhere (first ≤ ·)) o := by
  rw [noStaleMapping_iff_of_consecutive _ o first hc hne]
  intro m hm _ k hk
  exact Nat.lt_of_not_le (of_decide_eq_false (Db.kept_of_mem_unmapWhere hm hk))

end RollupNode
