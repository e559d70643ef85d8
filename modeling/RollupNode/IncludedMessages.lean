import RollupNode.PeerImport

set_option autoImplicit false

/-! The L1 messages a sequencer chooses and those a validator expects. -/
namespace RollupNode
open RelationalTable

theorem prefix_filter_le {α : Type} {f : α → ℕ} {l : List α}
    (h : l.Pairwise (fun a b => f a ≤ f b)) (bound : ℕ) :
    l.filter (fun a => f a ≤ bound) <+: l := by
  induction l with
  | nil => exact List.prefix_refl []
  | cons a as ih =>
    obtain ⟨hle, has⟩ := List.pairwise_cons.1 h
    by_cases ha : f a ≤ bound
    · simp only [List.filter_cons, ha, decide_true, if_true]
      exact List.cons_prefix_cons.2 ⟨rfl, ih has⟩
    · have hnone : (a :: as).filter (fun a => f a ≤ bound) = [] := by
        rw [List.filter_eq_nil_iff]
        intro b hb
        rcases List.mem_cons.1 hb with rfl | hb
        · simpa using ha
        · have hge := hle b hb
          have hlt : ¬f b ≤ bound := by omega
          simpa using hlt
      rw [hnone]
      exact List.nil_prefix

theorem mem_take_of_le {α : Type} {f : α → ℕ} {l : List α} (h : l.Pairwise (fun a b => f a < f b))
    {k : ℕ} {a b : α} (ha : a ∈ l) (hb : b ∈ l.take k) (hle : f a ≤ f b) : a ∈ l.take k := by
  rw [← List.take_append_drop k l] at h ha
  rcases List.mem_append.1 ha with ha | ha
  · exact ha
  · have hlt := (List.pairwise_append.1 h).2.2 b hb a ha
    omega

namespace Db

def queueRows (db : Db) : List L1MessageRow :=
  orderBy L1MessageRow.queueIndex db.l1Messages.rows

def pendingRows (db : Db) : List L1MessageRow :=
  db.queueRows.filter (fun r => r.l2BlockNumber = none ∧ r.skipped = false)

theorem queueRows_ascending (db : Db) :
    db.queueRows.Pairwise (fun a b => a.queueIndex < b.queueIndex) :=
  pairwise_orderBy db.l1Messages.unique

theorem messagesFrom_eq (db : Db) (p : L1MessageRow → Bool) (n : ℕ) :
    db.messagesFrom p n = ((db.queueRows.filter p).take n).map L1MessageRow.toEnvelope := by
  rw [messagesFrom, Table.select, orderBy_filter db.l1Messages.unique, queueRows]

variable {r : L1MessageRow}

theorem mem_queueRows {db : Db} : r ∈ db.queueRows ↔ r ∈ db.l1Messages :=
  mem_orderBy

theorem mem_pendingRows {db : Db} :
    r ∈ db.pendingRows ↔ r ∈ db.l1Messages ∧ r.l2BlockNumber = none ∧ r.skipped = false := by
  rw [pendingRows, List.mem_filter, mem_queueRows, decide_eq_true_eq]

def lastIndex (db : Db) (number : ℕ) : Option ℕ :=
  (db.lastIncludedBefore number).map L1MessageRow.queueIndex

def expectedRows (db : Db) (number : ℕ) : List L1MessageRow :=
  db.queueRows.filter (fun r => (db.lastIndex number).all (· < r.queueIndex) ∧ r.skipped = false)

theorem getNL1Messages_blockNumber (db : Db) (number n : ℕ) :
    db.getNL1Messages (some (.blockNumber number)) n =
      .ok (((db.expectedRows number).take n).map L1MessageRow.toEnvelope) := by
  rw [getNL1Messages, expectedRows, lastIndex]
  cases db.lastIncludedBefore number with
  | none =>
    simp only
    rw [messagesFrom_eq]
    simp
  | some record =>
    simp only
    rw [messagesFrom_eq]
    simp only [Nat.add_one_le_iff, Option.map_some, Option.all_some, decide_eq_true_eq]

/-- The last message of the blocks below a number, if there is one. -/
theorem lastIndex_spec (db : Db) (number : ℕ) :
    (db.lastIndex number = none ∧
      ∀ q ∈ db.l1Messages, ∀ n, q.l2BlockNumber = some n → number ≤ n) ∨
    ∃ r ∈ db.l1Messages, ∃ m, db.lastIndex number = some r.queueIndex ∧
      r.l2BlockNumber = some m ∧ m < number ∧
      ∀ q ∈ db.l1Messages, ∀ n, q.l2BlockNumber = some n → n < number →
        n < m ∨ n = m ∧ q.queueIndex ≤ r.queueIndex := by
  cases hrecord : db.lastIncludedBefore number with
  | none =>
    refine .inl ⟨by rw [lastIndex, hrecord, Option.map_none], ?_⟩
    intro q hq n hn
    by_contra hlt
    have hselected : q ∈ db.l1Messages.select (fun r => r.l2BlockNumber.any (· < number)) := by
      refine (db.l1Messages.mem_select _ q).2 ⟨hq, ?_⟩
      rw [hn]
      exact decide_eq_true (by omega)
    rw [(highest_eq_none _ _).1 hrecord] at hselected
    cases hselected
  | some record =>
    obtain ⟨hmem, hany⟩ := (db.l1Messages.mem_select _ record).1 (highest_mem hrecord)
    obtain ⟨m, hm, hbelow⟩ := (Option.any_eq_true _ _).1 hany
    refine .inr ⟨record, hmem, m, by rw [lastIndex, hrecord, Option.map_some], hm,
      of_decide_eq_true hbelow, ?_⟩
    intro q hq n hn hlt
    have hselected : q ∈ db.l1Messages.select (fun r => r.l2BlockNumber.any (· < number)) := by
      refine (db.l1Messages.mem_select _ q).2 ⟨hq, ?_⟩
      rw [hn]
      exact decide_eq_true hlt
    have hle := le_highest hrecord hselected
    rw [hm, hn] at hle
    rcases Prod.Lex.toLex_le_toLex.1 hle with hlower | ⟨heq, hindex⟩
    · exact .inl hlower
    · exact .inr ⟨heq, hindex⟩

/-- The messages in blocks are the first of those that are not skipped, in the order of their
blocks, and no block is above `h`. Hashes are unique, and no message comes from an earlier L1 block
than one before it in the queue. -/
structure MappedUpTo (db : Db) (h : ℕ) : Prop where
  hash_unique : ∀ r ∈ db.l1Messages, ∀ q ∈ db.l1Messages, r.hash = q.hash → r = q
  not_skipped : ∀ r ∈ db.l1Messages, r.l2BlockNumber ≠ none → r.skipped = false
  no_gap : ∀ r ∈ db.l1Messages, ∀ q ∈ db.l1Messages, r.skipped = false →
    r.queueIndex ≤ q.queueIndex → q.l2BlockNumber ≠ none → r.l2BlockNumber ≠ none
  ordered : ∀ r ∈ db.l1Messages, ∀ q ∈ db.l1Messages, ∀ m n, r.l2BlockNumber = some m →
    q.l2BlockNumber = some n → r.queueIndex ≤ q.queueIndex → m ≤ n
  bounded : ∀ r ∈ db.l1Messages, ∀ n, r.l2BlockNumber = some n → n ≤ h
  l1_ordered : ∀ r ∈ db.l1Messages, ∀ q ∈ db.l1Messages, r.skipped = false → q.skipped = false →
    r.queueIndex ≤ q.queueIndex → r.l1BlockNumber ≤ q.l1BlockNumber

variable {db : Db} {h : ℕ}

theorem MappedUpTo.expectedRows_eq (hmapped : db.MappedUpTo h) :
    db.expectedRows (h + 1) = db.pendingRows := by
  refine List.filter_congr ?_
  intro r hr
  have hmem := mem_queueRows.1 hr
  rw [decide_eq_decide]
  refine and_congr_left ?_
  intro hskipped
  rcases db.lastIndex_spec (h + 1) with ⟨hindex, hunmapped⟩ | ⟨record, hrecord, m, hindex, hm, -, hbound⟩
  · rw [hindex]
    refine iff_of_true rfl ?_
    cases hn : r.l2BlockNumber with
    | none => rfl
    | some n =>
      have hlow := hunmapped r hmem n hn
      have hhigh := hmapped.bounded r hmem n hn
      omega
  · rw [hindex, Option.all_some, decide_eq_true_eq]
    constructor
    · intro hafter
      cases hn : r.l2BlockNumber with
      | none => rfl
      | some n =>
        have hhigh := hmapped.bounded r hmem n hn
        have hbefore := hbound r hmem n hn (by omega)
        have hmn := hmapped.ordered record hrecord r hmem m n hm hn (by omega)
        omega
    · intro hnone
      by_contra hbefore
      refine hmapped.no_gap r hmem record hrecord hskipped (by omega) ?_ hnone
      rw [hm]
      exact Option.some_ne_none m

theorem MappedUpTo.getNL1Messages_next (hmapped : db.MappedUpTo h) (n : ℕ) :
    db.getNL1Messages (some (.blockNumber (h + 1))) n =
      .ok ((db.pendingRows.take n).map L1MessageRow.toEnvelope) := by
  rw [db.getNL1Messages_blockNumber, hmapped.expectedRows_eq]

theorem MappedUpTo.prefix_notIncludedUpTo (hmapped : db.MappedUpTo h) (target n : ℕ) :
    db.notIncludedUpTo target n <+: db.pendingRows.map L1MessageRow.toEnvelope := by
  have hfilter : db.queueRows.filter (fun r => r.l1BlockNumber ≤ target ∧ r.l2BlockNumber = none ∧
      r.skipped = false) = db.pendingRows.filter (fun r => r.l1BlockNumber ≤ target) := by
    rw [pendingRows, List.filter_filter]
    refine List.filter_congr ?_
    intro r _
    rw [← Bool.decide_and]
  have hordered : db.pendingRows.Pairwise (fun a b => a.l1BlockNumber ≤ b.l1BlockNumber) := by
    have hascending := db.queueRows_ascending.filter
      (fun r => r.l2BlockNumber = none ∧ r.skipped = false)
    refine hascending.imp_of_mem ?_
    intro a b ha hb hlt
    obtain ⟨hamem, -, haskipped⟩ := mem_pendingRows.1 ha
    obtain ⟨hbmem, -, hbskipped⟩ := mem_pendingRows.1 hb
    exact hmapped.l1_ordered a hamem b hbmem haskipped hbskipped (by omega)
  rw [notIncludedUpTo, messagesFrom_eq, hfilter]
  exact ((List.take_prefix n _).trans (prefix_filter_le hordered target)).map _

def includeIn (number : ℕ) (hashes : List B256) (r : L1MessageRow) : L1MessageRow :=
  if r.hash ∈ hashes then { r with l2BlockNumber := some number } else r

theorem includeIn_key (number : ℕ) (hashes : List B256) (r : L1MessageRow) :
    (includeIn number hashes r).queueIndex = r.queueIndex ∧
      (includeIn number hashes r).hash = r.hash ∧
      (includeIn number hashes r).skipped = r.skipped ∧
      (includeIn number hashes r).l1BlockNumber = r.l1BlockNumber := by
  unfold includeIn
  split <;> exact ⟨rfl, rfl, rfl, rfl⟩

theorem unmapWhere_of_none {p : ℕ → Bool}
    (hnone : ∀ r ∈ db.l1Messages, ∀ n, r.l2BlockNumber = some n → p n = false) :
    db.unmapWhere p = db := by
  have hrows : (db.unmapWhere p).l1Messages = db.l1Messages := by
    refine Table.ext_rows ((List.map_congr_left ?_).trans (List.map_id' _))
    intro r hr
    have hany : r.l2BlockNumber.any p = false := by
      cases hn : r.l2BlockNumber with
      | none => rfl
      | some n => exact hnone r hr n hn
    simp only [hany, Bool.false_eq_true, if_false]
  rw [unmapWhere] at hrows ⊢
  simp only at hrows
  rw [hrows]

theorem MappedUpTo.updateL1MessagesFromL2Blocks (hmapped : db.MappedUpTo h) {block : L2Block}
    (hnumber : block.number = h + 1) :
    ∃ db', db.updateL1MessagesFromL2Blocks [block.withL1Messages] = .ok db' ∧
      db'.l1Messages.rows = db.l1Messages.rows.map (includeIn (h + 1) block.l1Messages) := by
  refine ⟨_, rfl, ?_⟩
  have hpurged : db.unmapWhere (block.number ≤ ·) = db := by
    refine unmapWhere_of_none ?_
    intro r hr n hn
    have hle := hmapped.bounded r hr n hn
    exact decide_eq_false (by omega)
  change ((db.unmapWhere (block.number ≤ ·)).updateL1MessagesWithL2Blocks
    [block.withL1Messages]).l1Messages.rows = _
  rw [hpurged]
  refine List.map_congr_left ?_
  intro r _
  have hhashes : allHashes [block.withL1Messages] = block.l1Messages := List.append_nil _
  by_cases hr : r.hash ∈ block.l1Messages
  · have hcase : caseNumber [block.withL1Messages] r.hash = some (h + 1) := by
      obtain ⟨b, hb, -, hcase⟩ := caseNumber_of_mem [block.withL1Messages] r.hash (hhashes ▸ hr)
      rw [hcase, List.mem_singleton.1 hb, ← hnumber]
      rfl
    simp only [hhashes, hr, decide_true, if_true, includeIn, hcase]
  · simp only [hhashes, hr, decide_false, Bool.false_eq_true, if_false, includeIn]

def nextBlock (db : Db) (h count : ℕ) (r : L1MessageRow) : Option ℕ :=
  if r ∈ db.pendingRows.take count then some (h + 1) else r.l2BlockNumber

theorem MappedUpTo.includeIn_l2BlockNumber (hmapped : db.MappedUpTo h) (count : ℕ)
    (hr : r ∈ db.l1Messages) :
    (includeIn (h + 1) ((db.pendingRows.take count).map L1MessageRow.hash) r).l2BlockNumber =
      db.nextBlock h count r := by
  have hchosen : r.hash ∈ (db.pendingRows.take count).map L1MessageRow.hash ↔
      r ∈ db.pendingRows.take count := by
    rw [List.mem_map]
    constructor
    · rintro ⟨q, hq, hsame⟩
      have hqmem := (mem_pendingRows.1 (List.mem_of_mem_take hq)).1
      rwa [← hmapped.hash_unique q hqmem r hr hsame]
    · intro hr
      exact ⟨r, hr, rfl⟩
  unfold nextBlock
  by_cases hfirst : r ∈ db.pendingRows.take count
  · rw [includeIn, if_pos (hchosen.2 hfirst), if_pos hfirst]
  · rw [includeIn, if_neg (mt hchosen.1 hfirst), if_neg hfirst]

theorem MappedUpTo.nextBlock_not_skipped {count : ℕ} (hmapped : db.MappedUpTo h)
    (hr : r ∈ db.l1Messages) (hne : db.nextBlock h count r ≠ none) : r.skipped = false := by
  unfold nextBlock at hne
  by_cases hfirst : r ∈ db.pendingRows.take count
  · exact (mem_pendingRows.1 (List.mem_of_mem_take hfirst)).2.2
  · rw [if_neg hfirst] at hne
    exact hmapped.not_skipped r hr hne

theorem MappedUpTo.nextBlock_no_gap {count : ℕ} (hmapped : db.MappedUpTo h) {q : L1MessageRow}
    (hr : r ∈ db.l1Messages) (hq : q ∈ db.l1Messages) (hskipped : r.skipped = false)
    (hle : r.queueIndex ≤ q.queueIndex) (hne : db.nextBlock h count q ≠ none) :
    db.nextBlock h count r ≠ none := by
  have hascending : db.pendingRows.Pairwise (fun a b => a.queueIndex < b.queueIndex) :=
    db.queueRows_ascending.filter _
  unfold nextBlock at hne ⊢
  by_cases hr0 : r ∈ db.pendingRows.take count
  · rw [if_pos hr0]
    exact Option.some_ne_none _
  · rw [if_neg hr0]
    by_cases hq0 : q ∈ db.pendingRows.take count
    · -- a pending message before a chosen one is chosen
      intro hnone
      exact hr0 (mem_take_of_le hascending (mem_pendingRows.2 ⟨hr, hnone, hskipped⟩) hq0 hle)
    · rw [if_neg hq0] at hne
      exact hmapped.no_gap r hr q hq hskipped hle hne

theorem MappedUpTo.nextBlock_le {count : ℕ} (hmapped : db.MappedUpTo h) (hr : r ∈ db.l1Messages)
    {n : ℕ} (hn : db.nextBlock h count r = some n) : n ≤ h + 1 := by
  unfold nextBlock at hn
  by_cases hfirst : r ∈ db.pendingRows.take count
  · rw [if_pos hfirst] at hn
    cases hn
    exact Nat.le_refl _
  · rw [if_neg hfirst] at hn
    exact Nat.le_succ_of_le (hmapped.bounded r hr n hn)

theorem MappedUpTo.nextBlock_ordered {count : ℕ} (hmapped : db.MappedUpTo h) {q : L1MessageRow}
    (hr : r ∈ db.l1Messages) (hq : q ∈ db.l1Messages) {m n : ℕ}
    (hm : db.nextBlock h count r = some m) (hn : db.nextBlock h count q = some n)
    (hle : r.queueIndex ≤ q.queueIndex) : m ≤ n := by
  have hbound := hmapped.nextBlock_le hr hm
  unfold nextBlock at hm hn
  by_cases hq0 : q ∈ db.pendingRows.take count
  · rw [if_pos hq0] at hn
    cases hn
    exact hbound
  · rw [if_neg hq0] at hn
    by_cases hr0 : r ∈ db.pendingRows.take count
    · -- a pending message does not come before one in a block
      obtain ⟨-, hnone, hskipped⟩ := mem_pendingRows.1 (List.mem_of_mem_take hr0)
      refine absurd hnone (hmapped.no_gap r hr q hq hskipped hle ?_)
      rw [hn]
      exact Option.some_ne_none n
    · rw [if_neg hr0] at hm
      exact hmapped.ordered r hr q hq m n hm hn hle

theorem MappedUpTo.next {count : ℕ} (hmapped : db.MappedUpTo h) {db' : Db} {hashes : List B256}
    (hhashes : hashes = (db.pendingRows.take count).map L1MessageRow.hash)
    (hrows : db'.l1Messages.rows = db.l1Messages.rows.map (includeIn (h + 1) hashes)) :
    db'.MappedUpTo (h + 1) := by
  have hmem : ∀ r' ∈ db'.l1Messages, ∃ r ∈ db.l1Messages, includeIn (h + 1) hashes r = r' := by
    intro r' hr'
    have hr' : r' ∈ db'.l1Messages.rows := hr'
    rw [hrows] at hr'
    exact List.mem_map.1 hr'
  have hblock : ∀ r ∈ db.l1Messages, (includeIn (h + 1) hashes r).l2BlockNumber =
      db.nextBlock h count r := by
    intro r hr
    rw [hhashes]
    exact hmapped.includeIn_l2BlockNumber count hr
  refine ⟨?_, ?_, ?_, ?_, ?_, ?_⟩
  · intro r' hr' q' hq' hsame
    obtain ⟨r, hr, rfl⟩ := hmem r' hr'
    obtain ⟨q, hq, rfl⟩ := hmem q' hq'
    rw [(includeIn_key _ _ r).2.1, (includeIn_key _ _ q).2.1] at hsame
    rw [hmapped.hash_unique r hr q hq hsame]
  · intro r' hr' hne
    obtain ⟨r, hr, rfl⟩ := hmem r' hr'
    rw [hblock r hr] at hne
    rw [(includeIn_key _ _ r).2.2.1]
    exact hmapped.nextBlock_not_skipped hr hne
  · intro r' hr' q' hq' hskipped hle hne
    obtain ⟨r, hr, rfl⟩ := hmem r' hr'
    obtain ⟨q, hq, rfl⟩ := hmem q' hq'
    rw [(includeIn_key _ _ r).2.2.1] at hskipped
    rw [(includeIn_key _ _ r).1, (includeIn_key _ _ q).1] at hle
    rw [hblock q hq] at hne
    rw [hblock r hr]
    exact hmapped.nextBlock_no_gap hr hq hskipped hle hne
  · intro r' hr' q' hq' m n hm hn hle
    obtain ⟨r, hr, rfl⟩ := hmem r' hr'
    obtain ⟨q, hq, rfl⟩ := hmem q' hq'
    rw [(includeIn_key _ _ r).1, (includeIn_key _ _ q).1] at hle
    rw [hblock r hr] at hm
    rw [hblock q hq] at hn
    exact hmapped.nextBlock_ordered hr hq hm hn hle
  · intro r' hr' n hn
    obtain ⟨r, hr, rfl⟩ := hmem r' hr'
    rw [hblock r hr] at hn
    exact hmapped.nextBlock_le hr hn
  · intro r' hr' q' hq' hrskipped hqskipped hle
    obtain ⟨r, hr, rfl⟩ := hmem r' hr'
    obtain ⟨q, hq, rfl⟩ := hmem q' hq'
    obtain ⟨hrindex, -, hrs, hrl1⟩ := includeIn_key (h + 1) hashes r
    obtain ⟨hqindex, -, hqs, hql1⟩ := includeIn_key (h + 1) hashes q
    rw [hrl1, hql1]
    rw [hrindex, hqindex] at hle
    rw [hrs] at hrskipped
    rw [hqs] at hqskipped
    exact hmapped.l1_ordered r hr q hq hrskipped hqskipped hle

end Db

theorem prefix_fittingMessages (blockGasLimit cumulativeGasUsed : ℕ)
    (messages : List L1MessageEnvelope) :
    fittingMessages blockGasLimit cumulativeGasUsed messages <+: messages := by
  induction messages generalizing cumulativeGasUsed with
  | nil => exact List.prefix_refl []
  | cons m ms ih =>
    rw [fittingMessages]
    split
    · exact List.cons_prefix_cons.2 ⟨rfl, ih _⟩
    · exact List.nil_prefix

theorem compareL1Messages_self (messages : List L1MessageEnvelope) :
    Node.compareL1Messages (messages.map (·.transaction.txHash)) messages = .ok () := by
  induction messages with
  | nil => rfl
  | cons m ms ih =>
    rw [List.map_cons, Node.compareL1Messages, if_pos rfl]
    exact ih

variable {db : Db} {h : ℕ}

theorem Sequencer.job_messages {s s' : Sequencer} {fcs : ForkchoiceState}
    {reply : Reply ForkchoiceUpdated} (hmapped : db.MappedUpTo h)
    (hstart : s.startPayloadBuilding db fcs reply = (s', .ok ())) :
    ∃ job, s'.payloadBuildingJob = some job ∧ job.parent = fcs.head ∧
      job.messages <+: db.pendingRows.map L1MessageRow.toEnvelope := by
  have hoffered : ∀ mode n offered, db.getNL1Messages (some (L1MessageInclusionMode.toKey mode)) n =
      .ok offered → offered <+: db.pendingRows.map L1MessageRow.toEnvelope := by
    intro mode n offered hquery
    cases mode with
    | blockDepth depth =>
      simp only [L1MessageInclusionMode.toKey, Db.getNL1Messages] at hquery
      split at hquery
      · cases hquery
        exact hmapped.prefix_notIncludedUpTo _ n
      · cases hquery
        exact List.nil_prefix
    | finalizedWithBlockDepth depth =>
      simp only [L1MessageInclusionMode.toKey, Db.getNL1Messages] at hquery
      split at hquery
      · cases hquery
        exact hmapped.prefix_notIncludedUpTo _ n
      · cases hquery
        exact List.nil_prefix
  obtain ⟨offered, payloadId, hquery, rfl⟩ := startPayloadBuilding_ok hstart
  exact ⟨_, rfl, rfl, (prefix_fittingMessages _ _ _).trans (hoffered _ _ _ hquery)⟩

theorem Db.MappedUpTo.congr {db' : Db} (hmapped : db.MappedUpTo h)
    (hsame : db'.l1Messages = db.l1Messages) : db'.MappedUpTo h := by
  constructor <;> rw [hsame]
  · exact hmapped.hash_unique
  · exact hmapped.not_skipped
  · exact hmapped.no_gap
  · exact hmapped.ordered
  · exact hmapped.bounded
  · exact hmapped.l1_ordered

theorem Db.MappedUpTo.accepts_block (hmapped : db.MappedUpTo h) {messages : List L1MessageEnvelope}
    (hmessages : messages <+: db.pendingRows.map L1MessageRow.toEnvelope) {block : L2Block}
    (hnumber : block.number = h + 1)
    (hblock : block.l1Messages = messages.map (·.transaction.txHash)) :
    Node.validateL1Messages db [block] = .ok () ∧
      ∃ db', db.updateL1MessagesFromL2Blocks [block.withL1Messages] = .ok db' ∧
        db'.l1Messages.rows = db.l1Messages.rows.map (includeIn (h + 1) block.l1Messages) ∧
        db'.MappedUpTo (h + 1) := by
  have htake : messages = (db.pendingRows.take messages.length).map L1MessageRow.toEnvelope := by
    rw [List.map_take]
    exact List.prefix_iff_eq_take.1 hmessages
  constructor
  · have hvalid := compareL1Messages_self messages
    rw [← hblock] at hvalid
    have hflat : [block].flatMap (·.l1Messages) = block.l1Messages := List.append_nil _
    have hlength : block.l1Messages.length = messages.length := by
      rw [hblock, List.length_map]
    have hquery := hmapped.getNL1Messages_next block.l1Messages.length
    rw [hlength, ← htake, ← hnumber, ← hlength, ← hflat] at hquery
    rw [Node.validateL1Messages_cons hquery, hflat]
    exact hvalid
  · have hhashes : messages.map (·.transaction.txHash) =
        (db.pendingRows.take messages.length).map L1MessageRow.hash := by
      conv_lhs => rw [htake]
      rw [List.map_map]
      rfl
    obtain ⟨db', hupdate, hrows⟩ := hmapped.updateL1MessagesFromL2Blocks hnumber
    exact ⟨db', hupdate, hrows, hmapped.next (hblock.trans hhashes) hrows⟩

/-- The sequencer starts a job, and the block it builds next has exactly the messages of the job. -/
structure Builds (db : Db) (h : ℕ) (block : L2Block) : Prop where
  job : ∃ (s s' : Sequencer) (fcs : ForkchoiceState) (reply : Reply ForkchoiceUpdated)
    (job : PayloadBuildingJob), fcs.head.number = h ∧
      s.startPayloadBuilding db fcs reply = (s', .ok ()) ∧ s'.payloadBuildingJob = some job ∧
      block.l1Messages = job.messages.map (·.transaction.txHash)
  number : block.number = h + 1

/-- Blocks that a sequencer builds one on the other, mapping each before the next. -/
inductive BuiltChain : Db → ℕ → List L2Block → Db → Prop where
  | nil (db : Db) (h : ℕ) : BuiltChain db h [] db
  | cons {db db' last : Db} {h : ℕ} {block : L2Block} {blocks : List L2Block}
      (hbuilds : Builds db h block)
      (hmapped : db.updateL1MessagesFromL2Blocks [block.withL1Messages] = .ok db')
      (hrest : BuiltChain db' (h + 1) blocks last) : BuiltChain db h (block :: blocks) last

def followBlocks (db : Db) : List L2Block → Except Halt Db
  | [] => .ok db
  | block :: blocks => do
    Node.validateL1Messages db [block]
    let db ← (db.updateL1MessagesFromL2Blocks [block.withL1Messages]).mapError Abort.toHalt
    followBlocks db blocks

theorem Builds.messages {block : L2Block} (hbuilds : Builds db h block) (hmapped : db.MappedUpTo h) :
    ∃ messages, messages <+: db.pendingRows.map L1MessageRow.toEnvelope ∧
      block.l1Messages = messages.map (·.transaction.txHash) := by
  obtain ⟨s, s', fcs, reply, job, -, hstart, hjob, hblock⟩ := hbuilds.job
  obtain ⟨started, hstarted, -, hmessages⟩ := Sequencer.job_messages hmapped hstart
  cases hjob.symm.trans hstarted
  exact ⟨job.messages, hmessages, hblock⟩

theorem BuiltChain.followed {last follower : Db} {blocks : List L2Block}
    (hchain : BuiltChain db h blocks last) (hmapped : db.MappedUpTo h)
    (hview : follower.l1Messages = db.l1Messages) :
    ∃ followed, followBlocks follower blocks = .ok followed ∧
      followed.l1Messages = last.l1Messages ∧ last.MappedUpTo (h + blocks.length) := by
  induction hchain generalizing follower with
  | nil db h => exact ⟨follower, rfl, hview, hmapped⟩
  | @cons db db' last h block blocks hbuilds hupdate hrest ih =>
    obtain ⟨messages, hmessages, hblock⟩ := hbuilds.messages hmapped
    obtain ⟨-, mapped, hmap, hrows, hnext⟩ :=
      hmapped.accepts_block hmessages hbuilds.number hblock
    cases hupdate.symm.trans hmap
    have hpending : follower.pendingRows = db.pendingRows := by
      rw [Db.pendingRows, Db.queueRows, hview]
      rfl
    obtain ⟨hvalid, followed, hfollow, hfollowed, -⟩ :=
      (hmapped.congr hview).accepts_block (hpending ▸ hmessages) hbuilds.number hblock
    have hsame : followed.l1Messages = db'.l1Messages := by
      refine Table.ext_rows ?_
      rw [hfollowed, hrows, hview]
    obtain ⟨end', hend, hlast, hbound⟩ := ih hnext hsame
    refine ⟨end', ?_, hlast, ?_⟩
    · rw [followBlocks, hvalid, hfollow]
      exact hend
    · rw [List.length_cons, Nat.add_comm blocks.length 1, ← Nat.add_assoc]
      exact hbound

/-- The messages chosen for the next block are the first that the validator expects there, a block
with exactly these messages is accepted, and mapping it keeps the messages in blocks first. So a
follower accepts every chain of such blocks. -/
theorem sequencer_and_validator_agree {db : Db} {h : ℕ} (hmapped : db.MappedUpTo h) :
    (∀ (s s' : Sequencer) (fcs : ForkchoiceState) (reply : Reply ForkchoiceUpdated),
      fcs.head.number = h → s.startPayloadBuilding db fcs reply = (s', .ok ()) →
      ∃ job, s'.payloadBuildingJob = some job ∧
        (∀ n, job.messages.length ≤ n → ∃ expected,
          db.getNL1Messages (some (.blockNumber (h + 1))) n = .ok expected ∧
            job.messages <+: expected) ∧
        ∀ block : L2Block, block.number = h + 1 →
          block.l1Messages = job.messages.map (·.transaction.txHash) →
          Node.validateL1Messages db [block] = .ok () ∧
          ∃ db', db.updateL1MessagesFromL2Blocks [block.withL1Messages] = .ok db' ∧
            db'.MappedUpTo (h + 1)) ∧
    ∀ (blocks : List L2Block) (last follower : Db), BuiltChain db h blocks last →
      follower.l1Messages = db.l1Messages →
      ∃ followed, followBlocks follower blocks = .ok followed ∧
        followed.l1Messages = last.l1Messages := by
  constructor
  · intro s s' fcs reply hhead hstart
    obtain ⟨job, hjob, -, hmessages⟩ := Sequencer.job_messages hmapped hstart
    refine ⟨job, hjob, ?_, ?_⟩
    · intro n hn
      refine ⟨_, hmapped.getNL1Messages_next n, ?_⟩
      rw [List.map_take, List.prefix_take_iff]
      exact ⟨hmessages, hn⟩
    · intro block hnumber hblock
      obtain ⟨hvalid, db', hupdate, -, hnext⟩ :=
        hmapped.accepts_block hmessages hnumber hblock
      exact ⟨hvalid, db', hupdate, hnext⟩
  · intro blocks last follower hchain hview
    obtain ⟨followed, hfollowed, hsame, -⟩ := hchain.followed hmapped hview
    exact ⟨followed, hfollowed, hsame⟩

def oneOfTwoIncluded : Db :=
  { migrated 7 with
    l1Messages := ⟨[⟨⟨0, 21000, 100⟩, none, 5, some 1, false⟩, ⟨⟨1, 21000, 101⟩, none, 6, none, false⟩],
      by decide⟩
    l1LatestBlock := 8 }

theorem mappedUpTo_oneOfTwoIncluded : oneOfTwoIncluded.MappedUpTo 1 := by
  have hrows : ∀ r ∈ oneOfTwoIncluded.l1Messages,
      r = ⟨⟨0, 21000, 100⟩, none, 5, some 1, false⟩ ∨
        r = ⟨⟨1, 21000, 101⟩, none, 6, none, false⟩ := by decide
  refine ⟨by decide, by decide, by decide, ?_, ?_, by decide⟩
  · intro r hr q hq m n hm hn _
    rcases hrows r hr with rfl | rfl
    · rcases hrows q hq with rfl | rfl
      · cases hm
        cases hn
        exact Nat.le_refl 1
      · cases hn
    · cases hm
  · intro r hr n hn
    rcases hrows r hr with rfl | rfl
    · cases hn
      exact Nat.le_refl 1
    · cases hn

def twoDeepSequencer : Sequencer :=
  ⟨⟨⟨30000000, 4, .blockDepth 2⟩, true⟩, true, none, ⟨none, none⟩⟩

/-- The second message is chosen for block 2, and the block is accepted. -/
theorem sequencer_and_validator_agree_second :
    ∃ s', twoDeepSequencer.startPayloadBuilding oneOfTwoIncluded ⟨⟨1, 21⟩, ⟨0, 7⟩, ⟨0, 7⟩⟩
        (.ok ⟨⟨.valid, none⟩, some 3⟩) = (s', .ok ()) ∧
      s'.payloadBuildingJob.map (·.messages) = some [⟨⟨1, 21000, 101⟩, 6, none, none⟩] ∧
      Node.validateL1Messages oneOfTwoIncluded
        [{ emptyBlock 2 22 21 with l1Messages := [101] }] = .ok () := by
  have hstart : twoDeepSequencer.startPayloadBuilding oneOfTwoIncluded
      ⟨⟨1, 21⟩, ⟨0, 7⟩, ⟨0, 7⟩⟩ (.ok ⟨⟨.valid, none⟩, some 3⟩) = (_, .ok ()) := rfl
  obtain ⟨job, hjob, -, haccepted⟩ :=
    (sequencer_and_validator_agree mappedUpTo_oneOfTwoIncluded).1 _ _ _ _ rfl hstart
  cases hjob
  exact ⟨_, hstart, rfl, (haccepted { emptyBlock 2 22 21 with l1Messages := [101] } rfl rfl).1⟩

end RollupNode
