import RollupNode.DatabaseUnwind
import RollupNode.GuardedRuns

set_option autoImplicit false

/-! `unwind n` has to leave the rows that the events up to `n` would have left. -/
namespace RollupNode
open RelationalTable GuardedRuns

inductive L1Event where
  | commit (batch : BatchCommitData)
  | finalize (batchIndex blockNumber : ℕ)
  | revert (startIndex endIndex : ℕ) (block : BlockInfo)
  | message (m : L1MessageEnvelope)

namespace L1Event

def l1BlockNumber : L1Event → ℕ
  | .commit batch => batch.blockNumber
  | .finalize _ n => n
  | .revert _ _ block => block.number
  | .message m => m.l1BlockNumber

def revertsGenesis : L1Event → Bool
  | .revert first _ _ => first = 0
  | _ => false

def Ordered (events : List L1Event) : Prop :=
  events.Pairwise (fun a b => a.l1BlockNumber ≤ b.l1BlockNumber)

def upTo (n : ℕ) (events : List L1Event) : List L1Event :=
  events.filter (fun e => e.l1BlockNumber ≤ n)

end L1Event

structure BatchColumns where
  hash : B256
  index : ℕ
  blockNumber : ℕ
  finalizedBlockNumber : Option ℕ
  revertedBlockNumber : Option ℕ
  deriving DecidableEq, Repr

structure MessageColumns where
  queueIndex : ℕ
  hash : B256
  queueHash : Option B256
  l1BlockNumber : ℕ
  deriving DecidableEq, Repr

def BatchCommitRow.columns (r : BatchCommitRow) : BatchColumns :=
  ⟨r.hash, r.index, r.blockNumber, r.finalizedBlockNumber, r.revertedBlockNumber⟩

def L1MessageRow.columns (m : L1MessageRow) : MessageColumns :=
  ⟨m.queueIndex, m.hash, m.queueHash, m.l1BlockNumber⟩

namespace Db

def batchColumns (db : Db) : List BatchColumns := db.batchCommits.rows.map BatchCommitRow.columns
def messageColumns (db : Db) : List MessageColumns := db.l1Messages.rows.map L1MessageRow.columns

def apply (db : Db) : L1Event → Db
  | .commit batch => db.insertBatch batch
  | .finalize batchIndex n => db.finalizeBatchesUpToIndex batchIndex n
  | .revert first last block => db.setBatchRevertBlockNumberForBatchRange first last block
  | .message m =>
    match db.insertL1Message m with
    | .ok db' => db'
    | .error _ => db

def Fresh (db : Db) : L1Event → Prop
  | .commit batch => batch.hash ∉ db.batchCommits.keys
  | .message m => m.transaction.queueIndex ∉ db.l1Messages.keys
  | _ => True

instance (db : Db) : (e : L1Event) → Decidable (db.Fresh e)
  | .commit batch => inferInstanceAs (Decidable (batch.hash ∉ db.batchCommits.keys))
  | .message m => inferInstanceAs (Decidable (m.transaction.queueIndex ∉ db.l1Messages.keys))
  | .finalize _ _ => inferInstanceAs (Decidable True)
  | .revert _ _ _ => inferInstanceAs (Decidable True)

def columnsAsOf (db : Db) (n : ℕ) : List BatchColumns :=
  (db.batchCommits.rows.filter (fun r => r.blockNumber ≤ n)).map
    (fun r => (BatchCommitRow.asOf n r).columns)

def messagesAsOf (db : Db) (n : ℕ) : List MessageColumns :=
  (db.l1Messages.rows.filter (fun m => m.l1BlockNumber ≤ n)).map L1MessageRow.columns

theorem withHead_batchColumns (db : Db) (head : Option ℕ) :
    (db.withHead head).batchColumns = db.batchColumns := by
  cases head <;> rfl

theorem unmapWhere_messageColumns (db : Db) (p : ℕ → Bool) :
    (db.unmapWhere p).messageColumns = db.messageColumns := by
  rw [messageColumns, unmapWhere]
  refine Table.map_key_update _ _ ?_ _
  intro r
  rfl

theorem withHead_messageColumns (db : Db) (head : Option ℕ) :
    (db.withHead head).messageColumns = db.messageColumns := by
  cases head with
  | none => rfl
  | some head => exact db.unmapWhere_messageColumns (head + 1 ≤ ·)

theorem withoutAbove_batchColumns (db : Db) (n : ℕ) :
    (db.withoutAbove n).batchColumns = db.columnsAsOf n := by
  rw [batchColumns, withoutAbove_batchCommits_rows, List.map_map]
  rfl

theorem withoutAbove_messageColumns (db : Db) (n : ℕ) :
    (db.withoutAbove n).messageColumns = db.messagesAsOf n := by
  change List.map _ (List.filter _ _) = List.map _ _
  congr 1
  refine List.filter_congr ?_
  intro m _
  rw [← decide_not, decide_eq_decide]
  omega

theorem asOf_columns_of_finalized {n b : ℕ} (hb : n < b) (r : BatchCommitRow)
    (h : r.finalizedBlockNumber = none) :
    (BatchCommitRow.asOf n { r with finalizedBlockNumber := some b }).columns =
      (BatchCommitRow.asOf n r).columns := by
  simp only [BatchCommitRow.asOf, BatchCommitRow.columns, h, Option.filter_some, Option.filter_none,
    decide_eq_true_eq, if_neg (Nat.not_le.2 hb)]

theorem asOf_columns_of_reverted {n b : ℕ} (hb : n < b) (r : BatchCommitRow)
    (h : r.revertedBlockNumber = none) :
    (BatchCommitRow.asOf n { r with revertedBlockNumber := some b, status := .reverted }).columns =
      (BatchCommitRow.asOf n r).columns := by
  simp only [BatchCommitRow.asOf, BatchCommitRow.columns, h, Option.filter_some, Option.filter_none,
    decide_eq_true_eq, if_neg (Nat.not_le.2 hb)]

theorem columnsAsOf_insertBatch (db : Db) (batch : BatchCommitData) (n : ℕ)
    (hfresh : batch.hash ∉ db.batchCommits.keys) (hn : n < batch.blockNumber) :
    (db.insertBatch batch).columnsAsOf n = db.columnsAsOf n := by
  have hrows : (db.insertBatch batch).batchCommits.rows =
      db.batchCommits.rows ++ [.ofCommitData batch] :=
    congrArg Table.rows (Table.upsert_of_fresh db.batchCommits (.ofCommitData batch) _ _ hfresh)
  have hlate : ¬batch.blockNumber ≤ n := by omega
  simp [columnsAsOf, hrows, BatchCommitRow.ofCommitData, hlate]

theorem columnsAsOf_finalizeBatchesUpToIndex (db : Db) (batchIndex b n : ℕ) (hn : n < b) :
    (db.finalizeBatchesUpToIndex batchIndex b).columnsAsOf n = db.columnsAsOf n := by
  refine Table.view_update db.batchCommits.rows _ _ _ ?_ ?_
  · intro r _
    split <;> rfl
  · intro r _
    split
    · rename_i hp
      exact asOf_columns_of_finalized hn r (of_decide_eq_true hp).2.1
    · rfl

theorem columnsAsOf_revertRange (db : Db) (first last : ℕ) (block : BlockInfo) (n : ℕ)
    (hn : n < block.number) :
    (db.setBatchRevertBlockNumberForBatchRange first last block).columnsAsOf n =
      db.columnsAsOf n := by
  rw [columnsAsOf, setBatchRevertBlockNumberForBatchRange_batchCommits]
  refine Table.view_update db.batchCommits.rows _ _ _ ?_ ?_
  · intro r _
    split <;> rfl
  · intro r _
    split
    · rename_i hp
      exact asOf_columns_of_reverted hn r (of_decide_eq_true hp).2.2
    · rfl

theorem insertL1Message_cases (db : Db) (m : L1MessageEnvelope) :
    db.apply (.message m) = db ∨ ∃ h, db.apply (.message m) =
      { db with l1Messages := db.l1Messages.insertNew (.ofEnvelope m) h } := by
  simp only [apply]
  split
  · rename_i hok
    exact insertL1Message_ok hok
  · exact Or.inl rfl

theorem asOf_apply_of_gt (db : Db) (e : L1Event) (n : ℕ) (hfresh : db.Fresh e)
    (hn : n < e.l1BlockNumber) :
    (db.apply e).columnsAsOf n = db.columnsAsOf n ∧
      (db.apply e).messagesAsOf n = db.messagesAsOf n := by
  cases e with
  | commit batch => exact ⟨db.columnsAsOf_insertBatch batch n hfresh hn, rfl⟩
  | finalize batchIndex b =>
    exact ⟨db.columnsAsOf_finalizeBatchesUpToIndex batchIndex b n hn, rfl⟩
  | revert first last block => exact ⟨db.columnsAsOf_revertRange first last block n hn, rfl⟩
  | message m =>
    rcases db.insertL1Message_cases m with h | ⟨hnew, h⟩
    · rw [h]
      exact ⟨rfl, rfl⟩
    · rw [h]
      refine ⟨rfl, ?_⟩
      have hlate : ¬m.l1BlockNumber ≤ n := Nat.not_le_of_lt hn
      simp [messagesAsOf, Table.insertNew, L1MessageRow.ofEnvelope, hlate]

structure RowBoundedBy (n : ℕ) (r : BatchCommitRow) : Prop where
  commit : r.blockNumber ≤ n
  finalization : ∀ b, r.finalizedBlockNumber = some b → b ≤ n
  revert : ∀ b, r.revertedBlockNumber = some b → b ≤ n

/-- Everything stored comes from L1 blocks up to `n`. -/
structure BoundedBy (n : ℕ) (db : Db) : Prop where
  batches : ∀ r ∈ db.batchCommits, RowBoundedBy n r
  messages : ∀ m ∈ db.l1Messages, m.l1BlockNumber ≤ n

theorem boundedBy_migrated (genesisHash : B256) (n : ℕ) : BoundedBy n (migrated genesisHash) := by
  refine ⟨?_, fun _ hm => by cases hm⟩
  intro r hr
  rw [List.mem_singleton.1 hr]
  refine ⟨Nat.zero_le n, ?_, ?_⟩
  · intro b hb
    cases hb
    exact Nat.zero_le n
  · intro b hb
    cases hb

theorem boundedBy_apply {n : ℕ} {db : Db} (h : BoundedBy n db) (e : L1Event)
    (hn : e.l1BlockNumber ≤ n) :
    BoundedBy n (db.apply e) := by
  have hsome : ∀ b, some e.l1BlockNumber = some b → b ≤ n := by
    intro b hb
    cases hb
    exact hn
  have hnone : ∀ b, (none : Option ℕ) = some b → b ≤ n := by
    intro b hb
    cases hb
  cases e with
  | commit batch =>
    refine ⟨?_, h.messages⟩
    intro r hr
    rcases Table.mem_upsert_of_mem _ _ _ _ hr with rfl | ⟨q, hq, rfl | rfl⟩
    · exact ⟨hn, hnone, hnone⟩
    · exact h.batches _ hq
    · exact ⟨hn, hnone, (h.batches q hq).revert⟩
  | finalize batchIndex k =>
    refine ⟨?_, h.messages⟩
    intro r hr
    obtain ⟨q, hq, ⟨_, rfl⟩ | ⟨_, rfl⟩⟩ := Table.cases_of_mem_update hr
    · exact ⟨(h.batches q hq).commit, hsome, (h.batches q hq).revert⟩
    · exact h.batches _ hq
  | revert first last block =>
    refine ⟨?_, h.messages⟩
    intro r hr
    obtain ⟨q, hq, ⟨_, rfl⟩ | ⟨_, rfl⟩⟩ := Table.cases_of_mem_update hr
    · exact ⟨(h.batches q hq).commit, (h.batches q hq).finalization, hsome⟩
    · exact h.batches _ hq
  | message m =>
    rcases db.insertL1Message_cases m with heq | ⟨hnew, heq⟩
    · rw [heq]
      exact h
    · rw [heq]
      refine ⟨h.batches, ?_⟩
      intro q hq
      rcases (Table.mem_insertNew _ _ hnew q).1 hq with hq | rfl
      · exact h.messages q hq
      · exact hn

theorem filter_le_eq_self {n : ℕ} {o : Option ℕ} (h : ∀ b, o = some b → b ≤ n) :
    o.filter (· ≤ n) = o := by
  cases o with
  | none => rfl
  | some b => simp [Option.filter, h b rfl]

theorem asOf_of_boundedBy {n : ℕ} {db : Db} (h : BoundedBy n db) :
    db.columnsAsOf n = db.batchColumns ∧ db.messagesAsOf n = db.messageColumns := by
  have hbatches : db.batchCommits.rows.filter (fun r => r.blockNumber ≤ n) =
      db.batchCommits.rows :=
    List.filter_eq_self.2 (fun r hr => decide_eq_true (h.batches r hr).commit)
  have hmessages : db.l1Messages.rows.filter (fun m => m.l1BlockNumber ≤ n) =
      db.l1Messages.rows :=
    List.filter_eq_self.2 (fun m hm => decide_eq_true (h.messages m hm))
  constructor
  · rw [columnsAsOf, hbatches, batchColumns]
    refine List.map_congr_left ?_
    intro r hr
    have hr := h.batches r hr
    simp only [BatchCommitRow.asOf, BatchCommitRow.columns, filter_le_eq_self hr.finalization,
      filter_le_eq_self hr.revert]
  · rw [messagesAsOf, hmessages, messageColumns]

theorem boundedBy_run (genesisHash : B256) (n : ℕ) (events : List L1Event)
    (h : ∀ e ∈ events, e.l1BlockNumber ≤ n) :
    BoundedBy n (run apply (migrated genesisHash) events) := by
  induction events using List.reverseRecOn with
  | nil => exact boundedBy_migrated genesisHash n
  | append_singleton es e ih =>
    rw [run_append]
    refine boundedBy_apply (ih (fun x hx => h x (List.mem_append_left _ hx))) e ?_
    exact h e (List.mem_append_right _ List.mem_cons_self)

/-- The rows as of L1 block `n` are those of the events up to `n`. -/
theorem asOf_run (genesisHash : B256) (n : ℕ) (events : List L1Event)
    (hordered : L1Event.Ordered events) (hfresh : Meets apply Fresh (migrated genesisHash) events) :
    (run apply (migrated genesisHash) events).columnsAsOf n =
        (run apply (migrated genesisHash) (L1Event.upTo n events)).batchColumns ∧
      (run apply (migrated genesisHash) events).messagesAsOf n =
        (run apply (migrated genesisHash) (L1Event.upTo n events)).messageColumns := by
  induction events using List.reverseRecOn with
  | nil => exact asOf_of_boundedBy (boundedBy_migrated genesisHash n)
  | append_singleton es e ih =>
    obtain ⟨hes, -, hlast⟩ := List.pairwise_append.1 hordered
    obtain ⟨hfes, hfe, -⟩ := (meets_append apply Fresh _ es [e]).1 hfresh
    by_cases he : e.l1BlockNumber ≤ n
    · have hall : ∀ x ∈ es ++ [e], x.l1BlockNumber ≤ n := by
        intro x hx
        rcases List.mem_append.1 hx with hx | hx
        · exact (hlast x hx e List.mem_cons_self).trans he
        · rwa [List.mem_singleton.1 hx]
      have hupTo : L1Event.upTo n (es ++ [e]) = es ++ [e] :=
        List.filter_eq_self.2 (fun x hx => decide_eq_true (hall x hx))
      rw [hupTo]
      exact asOf_of_boundedBy (boundedBy_run genesisHash n (es ++ [e]) hall)
    · have hupTo : L1Event.upTo n (es ++ [e]) = L1Event.upTo n es := by
        simp [L1Event.upTo, he]
      obtain ⟨hcols, hmsgs⟩ := asOf_apply_of_gt (run apply (migrated genesisHash) es) e n hfe
        (Nat.lt_of_not_le he)
      obtain ⟨ihcols, ihmsgs⟩ := ih hes hfes
      rw [hupTo, run_append]
      exact ⟨hcols.trans ihcols, hmsgs.trans ihmsgs⟩

def genesisRevert (events : List L1Event) : Option ℕ :=
  (events.find? L1Event.revertsGenesis).map L1Event.l1BlockNumber

/-- The genesis batch is live or reverted, and its block is the only one stored. -/
structure GenesisState (db : Db) (reverted : Option ℕ) : Prop where
  batch : ∃ r ∈ db.batchCommits, r.hash = 0 ∧ r.index = 0 ∧ r.blockNumber = 0 ∧
    r.revertedBlockNumber = reverted
  block : ∃ c, db.l2Blocks.rows = [c] ∧ c.batchHash = 0 ∧ c.reverted = reverted.isSome

theorem genesisState_migrated (genesisHash : B256) :
    GenesisState (migrated genesisHash) none :=
  ⟨⟨_, List.mem_cons_self, rfl, rfl, rfl, rfl⟩, ⟨_, rfl, rfl, rfl⟩⟩

theorem genesisRevert_append (events : List L1Event) (e : L1Event) :
    genesisRevert (events ++ [e]) = (genesisRevert events).or
      (if e.revertsGenesis then some e.l1BlockNumber else none) := by
  rw [genesisRevert, genesisRevert, List.find?_append]
  cases events.find? L1Event.revertsGenesis with
  | some x => rfl
  | none =>
    cases he : e.revertsGenesis <;> simp [he]

variable {reverted : Option ℕ}

theorem genesisState_revertRange {db : Db} (h : GenesisState db reverted) (first last : ℕ)
    (block : BlockInfo) :
    GenesisState (db.setBatchRevertBlockNumberForBatchRange first last block)
      (reverted.or (if first = 0 then some block.number else none)) := by
  obtain ⟨⟨r, hr, hhash, hindex, hblock, hrev⟩, ⟨c, hc, hbatch, hflag⟩⟩ := h
  have hin : (0 : B256) ∈ (db.batchCommits.select (inRevertedRange first last)).map (·.hash) ↔
      first = 0 ∧ reverted = none := by
    constructor
    · intro hmem
      obtain ⟨q, hq, hqhash⟩ := List.mem_map.1 hmem
      obtain ⟨hqt, hqp⟩ := (db.batchCommits.mem_select _ q).1 hq
      have heq := db.batchCommits.eq_of_key hqt hr (hqhash.trans hhash.symm)
      subst heq
      obtain ⟨hfirst, -, hnone⟩ := of_decide_eq_true hqp
      exact ⟨by omega, hrev.symm.trans hnone⟩
    · rintro ⟨rfl, rfl⟩
      refine List.mem_map.2 ⟨r, (db.batchCommits.mem_select _ r).2 ⟨hr, ?_⟩, hhash⟩
      exact decide_eq_true ⟨by omega, by omega, hrev⟩
  by_cases hhit : first = 0 ∧ reverted = none
  · have hmem := hin.2 hhit
    obtain ⟨rfl, rfl⟩ := hhit
    refine ⟨⟨_, List.mem_map_of_mem hr, ?_⟩, ⟨{ c with reverted := true }, ?_, hbatch, rfl⟩⟩
    · rw [if_pos (decide_eq_true (hhash ▸ hmem))]
      exact ⟨hhash, hindex, hblock, rfl⟩
    · change List.map _ db.l2Blocks.rows = _
      rw [hc, List.map_singleton, if_pos (decide_eq_true (hbatch ▸ hmem))]
  · have hmem := mt hin.1 hhit
    have hkeep : reverted.or (if first = 0 then some block.number else none) = reverted := by
      cases reverted with
      | some b => rfl
      | none => exact if_neg (fun hz => hhit ⟨hz, rfl⟩)
    rw [hkeep]
    refine ⟨⟨_, List.mem_map_of_mem hr, ?_⟩, ⟨c, ?_, hbatch, hflag⟩⟩
    · rw [if_neg (fun hp => hmem (hhash ▸ of_decide_eq_true hp))]
      exact ⟨hhash, hindex, hblock, hrev⟩
    · change List.map _ db.l2Blocks.rows = _
      rw [hc, List.map_singleton, if_neg (fun hp => hmem (hbatch ▸ of_decide_eq_true hp))]

theorem genesisState_apply {db : Db} (h : GenesisState db reverted) (e : L1Event)
    (hfresh : db.Fresh e) :
    GenesisState (db.apply e)
      (reverted.or (if e.revertsGenesis then some e.l1BlockNumber else none)) := by
  have hkeep : reverted.or none = reverted := Option.or_none
  cases e with
  | commit batch =>
    simp only [L1Event.revertsGenesis, Bool.false_eq_true, if_false, hkeep]
    obtain ⟨⟨r, hr, hgenesis⟩, hblock⟩ := h
    have hnew : (BatchCommitRow.ofCommitData batch).hash ∉ db.batchCommits.keys := hfresh
    refine ⟨⟨r, ?_, hgenesis⟩, hblock⟩
    change r ∈ db.batchCommits.upsert _ _ _
    rw [Table.upsert_of_fresh _ _ _ _ hnew]
    exact (Table.mem_insertNew _ _ hnew r).2 (Or.inl hr)
  | finalize batchIndex n =>
    simp only [L1Event.revertsGenesis, Bool.false_eq_true, if_false, hkeep]
    obtain ⟨⟨r, hr, hgenesis⟩, hblock⟩ := h
    refine ⟨⟨_, List.mem_map_of_mem hr, ?_⟩, hblock⟩
    split <;> exact hgenesis
  | revert first last block =>
    simp only [L1Event.revertsGenesis, decide_eq_true_eq]
    exact genesisState_revertRange h first last block
  | message m =>
    simp only [L1Event.revertsGenesis, Bool.false_eq_true, if_false, hkeep]
    rcases db.insertL1Message_cases m with heq | ⟨hnew, heq⟩
    · rw [heq]
      exact h
    · rw [heq]
      exact ⟨h.batch, h.block⟩

theorem genesisState_run (genesisHash : B256) (events : List L1Event)
    (hfresh : Meets apply Fresh (migrated genesisHash) events) :
    GenesisState (run apply (migrated genesisHash) events) (genesisRevert events) := by
  induction events using List.reverseRecOn with
  | nil => exact genesisState_migrated genesisHash
  | append_singleton es e ih =>
    obtain ⟨hfes, hfe, -⟩ := (meets_append apply Fresh _ es [e]).1 hfresh
    rw [run_append, genesisRevert_append]
    exact genesisState_apply (ih hfes) e hfe

theorem genesisRevert_le_iff (n : ℕ) (events : List L1Event) (h : L1Event.Ordered events) :
    (∃ b, genesisRevert events = some b ∧ b ≤ n) ↔
      ∃ e ∈ events, e.revertsGenesis = true ∧ e.l1BlockNumber ≤ n := by
  constructor
  · rintro ⟨b, hb, hle⟩
    obtain ⟨e, he, rfl⟩ := Option.map_eq_some_iff.1 hb
    exact ⟨e, List.mem_of_find?_eq_some he, List.find?_some he, hle⟩
  · rintro ⟨e, he, hp, hle⟩
    have hfound : (events.find? L1Event.revertsGenesis).isSome := List.find?_isSome.2 ⟨e, he, hp⟩
    obtain ⟨x, hx⟩ := Option.isSome_iff_exists.1 hfound
    refine ⟨x.l1BlockNumber, by rw [genesisRevert, hx]; rfl, ?_⟩
    obtain ⟨-, before, after, rfl, hbefore⟩ := List.find?_eq_some_iff_append.1 hx
    obtain ⟨-, hpair, -⟩ := List.pairwise_append.1 h
    rcases List.mem_append.1 he with he | he
    · have hfalse := hbefore e he
      rw [hp] at hfalse
      cases hfalse
    · rcases List.mem_cons.1 he with rfl | he
      · exact hle
      · exact ((List.pairwise_cons.1 hpair).1 e he).trans hle

theorem restores_genesis_iff {db : Db} (h : GenesisState db reverted) (n : ℕ) :
    db.Restores n 0 ↔ reverted.any (n < ·) = true := by
  obtain ⟨r, hr, hhash, -, hblock, hrev⟩ := h.batch
  constructor
  · rintro ⟨q, hq, -, hqrev, hqhash⟩
    have heq := db.batchCommits.eq_of_key hq hr (hqhash.trans hhash.symm)
    subst heq
    rwa [revertedAbove, hrev] at hqrev
  · intro hlate
    refine ⟨r, hr, by omega, ?_, hhash⟩
    rwa [revertedAbove, hrev]

theorem live_withoutAbove_iff {db : Db} (h : GenesisState db reverted) (n : ℕ) :
    (∃ b ∈ (db.withoutAbove n).l2Blocks, b.reverted = false) ↔
      ¬∃ b, reverted = some b ∧ b ≤ n := by
  obtain ⟨r, hr, hhash, -, hblock, -⟩ := h.batch
  obtain ⟨c, hc, hbatch, hflag⟩ := h.block
  have hrestores := restores_genesis_iff h n
  have hkept : ¬db.Removes n c.batchHash := by
    rw [hbatch, ← hhash]
    exact not_removes_of_le hr (by omega)
  have hmem : c ∈ db.l2Blocks := by
    rw [← Table.mem_rows, hc]
    exact List.mem_cons_self
  constructor
  · rintro ⟨b, hb, hlive⟩ ⟨k, rfl, hk⟩
    obtain ⟨d, hd, -, hcase⟩ := (db.mem_withoutAbove_l2Blocks n b).1 hb
    rw [← Table.mem_rows, hc, List.mem_singleton] at hd
    subst hd
    rcases hcase with ⟨hres, -⟩ | ⟨-, rfl⟩
    · rw [hbatch, hrestores] at hres
      have hlate : n < k := by simpa using hres
      omega
    · rw [hflag] at hlive
      cases hlive
  · intro hnone
    by_cases hres : db.Restores n c.batchHash
    · exact ⟨_, (db.mem_withoutAbove_l2Blocks n _).2 ⟨c, hmem, hkept, Or.inl ⟨hres, rfl⟩⟩, rfl⟩
    · refine ⟨c, (db.mem_withoutAbove_l2Blocks n c).2 ⟨c, hmem, hkept, Or.inr ⟨hres, rfl⟩⟩, ?_⟩
      rw [hflag]
      cases reverted with
      | none => rfl
      | some k =>
        rw [hbatch, hrestores] at hres
        have hk : ¬n < k := by simpa using hres
        exact absurd ⟨k, rfl, by omega⟩ hnone

/-- An unwind fails only where it has to find a safe block and the genesis batch is reverted. -/
theorem unwind_ok_iff {db : Db} (h : GenesisState db reverted) (n : ℕ) :
    (∃ result, db.unwind n = .ok result) ↔
      ¬(db.movesSafe n ∧ ∃ b, reverted = some b ∧ b ≤ n) := by
  have hlive := live_withoutAbove_iff h n
  rw [← getLatestSafeL2Info_ok_iff] at hlive
  rw [unwind_eq, recomputedSafe]
  by_cases hm : db.movesSafe n
  · simp only [hm, true_and, ← hlive]
    cases (db.withoutAbove n).getLatestSafeL2Info <;> simp [Except.map]
  · simp only [hm, false_and, not_false_eq_true, iff_true]
    exact ⟨_, rfl⟩

end Db

def UnwindUndoes (genesisHash : B256) (events : List L1Event) (n : ℕ) : Prop :=
  ∃ db result, (run Db.apply (migrated genesisHash) events).unwind n = .ok (db, result) ∧
    db.batchColumns =
      (run Db.apply (migrated genesisHash) (L1Event.upTo n events)).batchColumns ∧
    db.messageColumns =
      (run Db.apply (migrated genesisHash) (L1Event.upTo n events)).messageColumns

/-- An unwind leaves the rows of the earlier events, unless it has to find a safe block after the
genesis batch was reverted. -/
theorem unwindUndoes_iff (genesisHash : B256) (events : List L1Event) (n : ℕ)
    (hordered : L1Event.Ordered events)
    (hfresh : Meets Db.apply Db.Fresh (migrated genesisHash) events) :
    UnwindUndoes genesisHash events n ↔
      ¬((run Db.apply (migrated genesisHash) events).movesSafe n ∧
        ∃ e ∈ events, e.revertsGenesis = true ∧ e.l1BlockNumber ≤ n) := by
  have hok := Db.unwind_ok_iff (Db.genesisState_run genesisHash events hfresh) n
  rw [Db.genesisRevert_le_iff n events hordered] at hok
  rw [← hok]
  constructor
  · rintro ⟨db, result, h, -⟩
    exact ⟨_, h⟩
  · rintro ⟨⟨db, result⟩, h⟩
    obtain ⟨hcols, hmsgs⟩ := Db.asOf_run genesisHash n events hordered hfresh
    refine ⟨db, result, h, ?_⟩
    rw [Db.unwind_eq] at h
    cases hsafe : (run Db.apply (migrated genesisHash) events).recomputedSafe n with
    | error e =>
      rw [hsafe] at h
      cases h
    | ok safe =>
      rw [hsafe] at h
      cases h
      rw [Db.withHead_batchColumns, Db.withHead_messageColumns, Db.withoutAbove_batchColumns,
        Db.withoutAbove_messageColumns]
      exact ⟨hcols, hmsgs⟩

def revertedEvents : List L1Event :=
  [.commit ⟨11, 1, 10, 0, [], none, none, none⟩, .message ⟨⟨0, 21000, 100⟩, 12, none, none⟩,
    .finalize 1 14, .revert 1 1 ⟨20, 5⟩, .message ⟨⟨1, 21000, 101⟩, 22, none, none⟩,
    .commit ⟨12, 1, 25, 0, [], none, none, none⟩]

theorem unwindUndoes_revertedEvents : UnwindUndoes 7 revertedEvents 15 := by
  refine (unwindUndoes_iff 7 revertedEvents 15 ?_ ?_).2 ?_
  · unfold L1Event.Ordered
    decide
  · decide
  · rintro ⟨-, e, he, hgenesis, -⟩
    revert e
    decide

def genesisReverted : List L1Event :=
  [.revert 0 0 ⟨10, 5⟩, .commit ⟨12, 1, 20, 0, [], none, none, none⟩]

/-- Once a revert range covers the genesis batch, removing a later commit panics. -/
theorem unwind_panics_after_genesis_revert :
    L1Event.Ordered genesisReverted ∧ Meets Db.apply Db.Fresh (migrated 7) genesisReverted ∧
      ¬UnwindUndoes 7 genesisReverted 15 := by
  refine ⟨by unfold L1Event.Ordered; decide, by decide, ?_⟩
  rintro ⟨db, result, h, -⟩
  have hpanic : (run Db.apply (migrated 7) genesisReverted).unwind 15 = .error (.panic
      "there should always be at least the genesis block in the database") := rfl
  rw [hpanic] at h
  cases h

end RollupNode
