import RollupNode.UnwindReplay
import RollupNode.WatcherReorg

set_option autoImplicit false

/-! The start of the L1 watcher: stored unsafe blocks are compared with the chain. -/
namespace RollupNode
open LinkedChain RelationalTable

/-- The list of unsafe blocks is never empty. -/
inductive L1BlockStartupInfo where
  | unsafeBlocks (first : BlockInfo) (rest : List BlockInfo)
  | finalizedBlockNumber (number : ℕ)
  | none
  deriving DecidableEq, Repr

def L1BlockStartupInfo.new (unsafeBlocks : List BlockInfo) (finalizedBlockNumber : Option ℕ) :
    L1BlockStartupInfo :=
  match unsafeBlocks with
  | first :: rest => .unsafeBlocks first rest
  | [] => finalizedBlockNumber.elim .none .finalizedBlockNumber

namespace Db

def getL1BlockInfo (db : Db) : List BlockInfo := orderBy BlockInfo.number db.l1Blocks.rows

def getLatestIndexedEventL1BlockNumber (db : Db) : Option ℕ :=
  let commits := db.batchCommits.select (fun r => 0 < r.index)
  (db.l1Messages.rows.map L1MessageRow.l1BlockNumber ++
    commits.map BatchCommitRow.blockNumber ++
    commits.filterMap BatchCommitRow.finalizedBlockNumber ++
    commits.filterMap BatchCommitRow.revertedBlockNumber).max?

def prepareL1WatcherStartInfo (db : Db) : Db × L1BlockStartupInfo :=
  let db := db.changeBatchProcessingToCommittedStatus
  (db, .new db.getL1BlockInfo db.getLatestIndexedEventL1BlockNumber)

end Db

/-- The scan from the newest block on, with the height that is used when no block matches. There is
no result while the provider has no block at one of the heights: the request is repeated. -/
def scanUnsafeBlocks (chain : Chain Header) (fallback : ℕ) :
    ℕ → List BlockInfo → Option (Bool × ℕ)
  | _, [] => some (true, fallback)
  | i, block :: rest => do
    let current ← chain.blocks[block.number]?
    if current.hash = block.hash then return (i ≠ 0, current.number)
    else scanUnsafeBlocks chain fallback (i + 1) rest

def startPoint (chain : Chain Header) (startL1Block : ℕ) : L1BlockStartupInfo → Option (Bool × ℕ)
  | .unsafeBlocks first rest => scanUnsafeBlocks chain first.number 0 (first :: rest).reverse
  | .finalizedBlockNumber number => some (false, number)
  | .none => some (false, startL1Block)

def Watcher.spawn (view : L1View) (info : L1BlockStartupInfo) (startL1Block range : ℕ) :
    Option (Watcher × List L1Notification) := do
  let (reorg, startBlock) ← startPoint view.chain startL1Block info
  return (⟨.new, ⟨view.latest.number, view.finalized.number⟩, startBlock - 1, range⟩,
    (if reorg then [.reorg startBlock] else []) ++
      [.finalized view.finalized.number, .newBlock view.latest.blockInfo])

/-- The database after the notifications of the start: a reported reorg is unwound. -/
def Db.applyStart (db : Db) (notifications : List L1Notification) : Except Abort Db :=
  match notifications with
  | .reorg n :: _ => (db.unwind n).map Prod.fst
  | _ => .ok db

def OnChain (chain : Chain Header) (block : BlockInfo) : Prop :=
  ∃ current, chain.blocks[block.number]? = some current ∧ current.hash = block.hash

structure StartsAt (chain : Chain Header) (blocks : List BlockInfo) (reorg : Bool)
    (start : ℕ) : Prop where
  listed : ∃ b ∈ blocks, b.number = start
  canonical_le : ∀ b ∈ blocks, OnChain chain b → b.number ≤ start
  found : (∃ b ∈ blocks, OnChain chain b ∧ b.number = start) ∨ ∀ b ∈ blocks, start ≤ b.number
  reorg_iff : reorg = true ↔ ∃ b ∈ blocks, ¬OnChain chain b ∧ ∀ c ∈ blocks, c.number ≤ b.number

variable {chain : Chain Header} {start : ℕ} {blocks : List BlockInfo} {reorg : Bool}

/-- The scan ends at the newest block that is on the chain, or falls back when there is none. -/
theorem scanUnsafeBlocks_cases {fallback i : ℕ}
    (h : scanUnsafeBlocks chain fallback i blocks = some (reorg, start)) :
    (∃ newer block older, blocks = newer ++ block :: older ∧ (∀ b ∈ newer, ¬OnChain chain b) ∧
      OnChain chain block ∧ start = block.number ∧ (reorg = true ↔ i ≠ 0 ∨ newer ≠ [])) ∨
    ((∀ b ∈ blocks, ¬OnChain chain b) ∧ reorg = true ∧ start = fallback) := by
  induction blocks generalizing i with
  | nil =>
    cases h
    right
    exact ⟨List.forall_mem_nil _, rfl, rfl⟩
  | cons block rest ih =>
    simp only [scanUnsafeBlocks, Option.bind_eq_bind, Option.bind_eq_some_iff] at h
    obtain ⟨current, hcurrent, h⟩ := h
    split at h
    · rename_i hhash
      cases h
      refine Or.inl ⟨[], block, rest, rfl, ?_, ⟨current, hcurrent, hhash⟩, ?_, ?_⟩
      · intro b hb
        cases hb
      · exact chain.numbered _ _ hcurrent
      · simp only [decide_eq_true_eq, ne_eq, not_true_eq_false, or_false]
    · rename_i hhash
      have hstale : ¬OnChain chain block := by
        rintro ⟨other, hother, hsame⟩
        rw [hcurrent] at hother
        cases hother
        exact hhash hsame
      rcases ih h with ⟨newer, found, older, rfl, hnewer, hfound, hstart, hreorg⟩ | hnone
      · refine Or.inl ⟨block :: newer, found, older, rfl, ?_, hfound, hstart, ?_⟩
        · exact List.forall_mem_cons.2 ⟨hstale, hnewer⟩
        · rw [hreorg]
          simp
      · exact Or.inr ⟨List.forall_mem_cons.2 ⟨hstale, hnone.1⟩, hnone.2⟩

theorem le_last_of_ascending {last : BlockInfo}
    (h : (blocks ++ [last]).Pairwise (fun a b => a.number < b.number)) :
    ∀ b ∈ blocks ++ [last], b.number ≤ last.number := by
  intro b hb
  rcases List.mem_append.1 hb with hb | hb
  · exact Nat.le_of_lt ((List.pairwise_append.1 h).2.2 b hb last List.mem_cons_self)
  · rw [List.mem_singleton.1 hb]

theorem startsAt_of_startPoint {startL1Block : ℕ} {first : BlockInfo} {rest : List BlockInfo}
    (hascending : (first :: rest).Pairwise (fun a b => a.number < b.number))
    (h : startPoint chain startL1Block (.unsafeBlocks first rest) = some (reorg, start)) :
    StartsAt chain (first :: rest) reorg start := by
  have hlowest : ∀ b ∈ first :: rest, first.number ≤ b.number := by
    intro b hb
    rcases List.mem_cons.1 hb with rfl | hb
    · exact Nat.le_refl _
    · exact Nat.le_of_lt ((List.pairwise_cons.1 hascending).1 b hb)
  rcases scanUnsafeBlocks_cases h with
    ⟨newer, block, older, hsplit, hnewer, hblock, rfl, hreorg⟩ | ⟨hstale, rfl, rfl⟩
  · have horder : first :: rest = older.reverse ++ block :: newer.reverse := by
      have hreverse := congrArg List.reverse hsplit
      simpa using hreverse
    rw [horder] at hascending ⊢
    obtain ⟨-, hright, hcross⟩ := List.pairwise_append.1 hascending
    have hbelow : ∀ b ∈ older.reverse, b.number < block.number := by
      intro b hb
      exact hcross b hb block List.mem_cons_self
    have hmem : block ∈ older.reverse ++ block :: newer.reverse :=
      List.mem_append_right _ List.mem_cons_self
    refine ⟨⟨block, hmem, rfl⟩, ?_, Or.inl ⟨block, hmem, hblock, rfl⟩, ?_⟩
    · intro b hb hon
      rcases List.mem_append.1 hb with hb | hb
      · exact Nat.le_of_lt (hbelow b hb)
      · rcases List.mem_cons.1 hb with rfl | hb
        · exact Nat.le_refl _
        · exact absurd hon (hnewer b (List.mem_reverse.1 hb))
    · rw [hreorg]
      constructor
      · intro hnonempty
        have hne : newer ≠ [] := hnonempty.resolve_left (fun h => h rfl)
        obtain ⟨newest, others, rfl⟩ := List.exists_cons_of_ne_nil hne
        have hlast : older.reverse ++ block :: (newest :: others).reverse =
            (older.reverse ++ block :: others.reverse) ++ [newest] := by
          simp
        rw [hlast] at hascending ⊢
        exact ⟨newest, List.mem_append_right _ List.mem_cons_self,
          hnewer newest List.mem_cons_self, le_last_of_ascending hascending⟩
      · rintro ⟨newest, hlisted, hstale, hmax⟩
        right
        rintro rfl
        rcases List.mem_append.1 hlisted with hb | hb
        · have hlt := hbelow newest hb
          have hle := hmax block hmem
          omega
        · rw [List.mem_singleton.1 hb] at hstale
          exact hstale hblock
  · have hnone : ∀ b ∈ first :: rest, ¬OnChain chain b := by
      intro b hb
      exact hstale b (List.mem_reverse.2 hb)
    refine ⟨⟨first, List.mem_cons_self, rfl⟩, ?_, Or.inr hlowest, ?_⟩
    · intro b hb hon
      exact absurd hon (hnone b hb)
    · refine ⟨fun _ => ?_, fun _ => rfl⟩
      have hlast := List.dropLast_append_getLast (List.cons_ne_nil first rest)
      rw [← hlast] at hascending hnone ⊢
      exact ⟨_, List.mem_append_right _ List.mem_cons_self,
        hnone _ (List.mem_append_right _ List.mem_cons_self), le_last_of_ascending hascending⟩

def BatchColumns.EventAt (c : BatchColumns) (n : ℕ) : Prop :=
  c.blockNumber = n ∨ c.finalizedBlockNumber = some n ∨ c.revertedBlockNumber = some n

/-- A commit, finalization, revert or message of the L1 block at height `n` is stored, and only an
unwind to a height below `held` removes it: a finalization and a revert go with their commit. -/
def Db.EventHeld (db : Db) (n held : ℕ) : Prop :=
  (∃ c ∈ db.batchColumns, c.EventAt n ∧ held = max c.blockNumber n) ∨
  ∃ m ∈ db.messageColumns, m.l1BlockNumber = n ∧ held = n

variable {db : Db}

theorem Db.EventHeld.le {n held : ℕ} (h : db.EventHeld n held) : n ≤ held := by
  rcases h with ⟨c, -, -, rfl⟩ | ⟨m, -, -, rfl⟩
  · exact Nat.le_max_right _ _
  · exact Nat.le_refl _

def Db.EventAt (db : Db) (n : ℕ) : Prop :=
  (∃ c ∈ db.batchColumns, c.EventAt n) ∨ ∃ m ∈ db.messageColumns, m.l1BlockNumber = n

/-- The heights of the events that the second database has lost. The columns of a batch go with
its commit. -/
inductive Db.Removed (db db' : Db) : ℕ → Prop where
  | commit (c : BatchColumns) (hc : c ∈ db.batchColumns)
      (hgone : ∀ d ∈ db'.batchColumns, d.hash ≠ c.hash) : Removed db db' c.blockNumber
  | finalization (c d : BatchColumns) (n : ℕ) (hc : c ∈ db.batchColumns)
      (hd : d ∈ db'.batchColumns) (hhash : d.hash = c.hash)
      (hn : c.finalizedBlockNumber = some n) (hgone : d.finalizedBlockNumber ≠ some n) :
      Removed db db' n
  | revert (c d : BatchColumns) (n : ℕ) (hc : c ∈ db.batchColumns)
      (hd : d ∈ db'.batchColumns) (hhash : d.hash = c.hash)
      (hn : c.revertedBlockNumber = some n) (hgone : d.revertedBlockNumber ≠ some n) :
      Removed db db' n
  | message (m : MessageColumns) (hm : m ∈ db.messageColumns) (hgone : m ∉ db'.messageColumns) :
      Removed db db' m.l1BlockNumber

def BatchColumns.asOf (n : ℕ) (c : BatchColumns) : BatchColumns :=
  { c with
    finalizedBlockNumber := c.finalizedBlockNumber.filter (· ≤ n)
    revertedBlockNumber := c.revertedBlockNumber.filter (· ≤ n) }

namespace Db
variable {db db' : Db} {n k : ℕ} {result : UnwindResult}

theorem mem_batchColumns_of_unwind (h : db.unwind n = .ok (db', result)) (d : BatchColumns) :
    d ∈ db'.batchColumns ↔ ∃ c ∈ db.batchColumns, c.blockNumber ≤ n ∧ c.asOf n = d := by
  rw [(unwind_ok h).1, withHead_batchColumns, withoutAbove_batchColumns]
  simp only [columnsAsOf, batchColumns, List.mem_map, List.mem_filter, decide_eq_true_eq]
  constructor
  · rintro ⟨r, ⟨hr, hle⟩, rfl⟩
    exact ⟨r.columns, ⟨r, hr, rfl⟩, hle, rfl⟩
  · rintro ⟨_, ⟨r, hr, rfl⟩, hle, rfl⟩
    exact ⟨r, ⟨hr, hle⟩, rfl⟩

theorem mem_messageColumns_of_unwind (h : db.unwind n = .ok (db', result)) (m : MessageColumns) :
    m ∈ db'.messageColumns ↔ m ∈ db.messageColumns ∧ m.l1BlockNumber ≤ n := by
  rw [(unwind_ok h).1, withHead_messageColumns, withoutAbove_messageColumns]
  simp only [messagesAsOf, messageColumns, List.mem_map, List.mem_filter, decide_eq_true_eq]
  constructor
  · rintro ⟨r, ⟨hr, hle⟩, rfl⟩
    exact ⟨⟨r, hr, rfl⟩, hle⟩
  · rintro ⟨⟨r, hr, rfl⟩, hle⟩
    exact ⟨r, ⟨hr, hle⟩, rfl⟩

theorem filter_le_eq_some {o : Option ℕ} :
    o.filter (· ≤ n) = some k ↔ o = some k ∧ k ≤ n := by
  cases o with
  | none => simp
  | some j =>
    by_cases hj : j ≤ n
    · simp only [Option.filter_some, hj, decide_true, if_true]
      constructor
      · intro heq
        cases heq
        exact ⟨rfl, hj⟩
      · exact fun heq => heq.1
    · simp only [Option.filter_some, hj, decide_false, Bool.false_eq_true, if_false, reduceCtorEq,
        false_iff]
      rintro ⟨heq, hle⟩
      cases heq
      exact hj hle

theorem eventAt_asOf {c : BatchColumns} (hle : c.blockNumber ≤ n) :
    (c.asOf n).EventAt k ↔ c.EventAt k ∧ k ≤ n := by
  simp only [BatchColumns.EventAt, BatchColumns.asOf, filter_le_eq_some]
  constructor
  · rintro (rfl | ⟨hfinalized, hk⟩ | ⟨hreverted, hk⟩)
    · exact ⟨Or.inl rfl, hle⟩
    · exact ⟨Or.inr (Or.inl hfinalized), hk⟩
    · exact ⟨Or.inr (Or.inr hreverted), hk⟩
  · rintro ⟨rfl | hfinalized | hreverted, hk⟩
    · exact Or.inl rfl
    · exact Or.inr (Or.inl ⟨hfinalized, hk⟩)
    · exact Or.inr (Or.inr ⟨hreverted, hk⟩)

theorem eventAt_iff_held : db.EventAt k ↔ ∃ held, db.EventHeld k held := by
  constructor
  · rintro (⟨c, hc, hat⟩ | ⟨m, hm, hat⟩)
    · exact ⟨_, Or.inl ⟨c, hc, hat, rfl⟩⟩
    · exact ⟨_, Or.inr ⟨m, hm, hat, rfl⟩⟩
  · rintro ⟨held, ⟨c, hc, hat, -⟩ | ⟨m, hm, hat, -⟩⟩
    · exact Or.inl ⟨c, hc, hat⟩
    · exact Or.inr ⟨m, hm, hat⟩

theorem eventAt_unwind (h : db.unwind n = .ok (db', result)) :
    db'.EventAt k ↔ ∃ held, db.EventHeld k held ∧ held ≤ n := by
  constructor
  · rintro (⟨d, hd, hat⟩ | ⟨m, hm, hat⟩)
    · obtain ⟨c, hc, hle, rfl⟩ := (mem_batchColumns_of_unwind h d).1 hd
      obtain ⟨hbefore, hk⟩ := (eventAt_asOf hle).1 hat
      exact ⟨_, Or.inl ⟨c, hc, hbefore, rfl⟩, Nat.max_le.2 ⟨hle, hk⟩⟩
    · obtain ⟨hmem, hle⟩ := (mem_messageColumns_of_unwind h m).1 hm
      exact ⟨k, Or.inr ⟨m, hmem, hat, rfl⟩, by omega⟩
  · rintro ⟨held, ⟨c, hc, hat, rfl⟩ | ⟨m, hm, rfl, rfl⟩, hheld⟩
    · obtain ⟨hle, hk⟩ := Nat.max_le.1 hheld
      exact Or.inl ⟨_, (mem_batchColumns_of_unwind h _).2 ⟨c, hc, hle, rfl⟩,
        (eventAt_asOf hle).2 ⟨hat, hk⟩⟩
    · exact Or.inr ⟨m, (mem_messageColumns_of_unwind h m).2 ⟨hm, hheld⟩, rfl⟩

theorem columns_eq_of_hash {c d : BatchColumns} (hc : c ∈ db.batchColumns)
    (hd : d ∈ db.batchColumns) (h : c.hash = d.hash) : c = d := by
  obtain ⟨r, hr, rfl⟩ := List.mem_map.1 hc
  obtain ⟨q, hq, rfl⟩ := List.mem_map.1 hd
  rw [db.batchCommits.eq_of_key hr hq h]

theorem lt_of_removed (h : db.unwind n = .ok (db', result)) (hremoved : db.Removed db' k) :
    n < k := by
  by_contra hle
  cases hremoved with
  | commit c hc hgone =>
    exact hgone _ ((mem_batchColumns_of_unwind h _).2 ⟨c, hc, by omega, rfl⟩) rfl
  | finalization c d k hc hd hhash hn hgone =>
    obtain ⟨c', hc', -, rfl⟩ := (mem_batchColumns_of_unwind h d).1 hd
    rw [columns_eq_of_hash hc' hc hhash] at hgone
    exact hgone (filter_le_eq_some.2 ⟨hn, by omega⟩)
  | revert c d k hc hd hhash hn hgone =>
    obtain ⟨c', hc', -, rfl⟩ := (mem_batchColumns_of_unwind h d).1 hd
    rw [columns_eq_of_hash hc' hc hhash] at hgone
    exact hgone (filter_le_eq_some.2 ⟨hn, by omega⟩)
  | message m hm hgone =>
    exact hgone ((mem_messageColumns_of_unwind h m).2 ⟨hm, by omega⟩)

theorem not_removed_self : ¬db.Removed db k := by
  intro hremoved
  cases hremoved with
  | commit c hc hgone => exact hgone c hc rfl
  | finalization c d k hc hd hhash hn hgone =>
    rw [columns_eq_of_hash hd hc hhash] at hgone
    exact hgone hn
  | revert c d k hc hd hhash hn hgone =>
    rw [columns_eq_of_hash hd hc hhash] at hgone
    exact hgone hn
  | message m hm hgone => exact hgone hm

end Db

/-- After the start no event of a listed block that is off the chain is stored, and the watcher
goes on at or below every height that lost events. -/
structure StartedClean (chain : Chain Header) (blocks : List BlockInfo) (db db' : Db)
    (watcher : Watcher) : Prop where
  no_stale : ∀ b ∈ blocks, ¬OnChain chain b → ¬db'.EventAt b.number
  resumes : ∀ n, db.Removed db' n → watcher.currentBlockNumber + 1 ≤ n

/-- Where a listed block off the chain has events, the newest block of the list is off the chain
too, and the events are held above the listed blocks on the chain and above the lowest of the
list. -/
def StaleAbove (chain : Chain Header) (blocks : List BlockInfo) (db : Db) : Prop :=
  ∀ b ∈ blocks, ¬OnChain chain b → ∀ held, db.EventHeld b.number held →
    (∃ newest ∈ blocks, ¬OnChain chain newest ∧ ∀ c ∈ blocks, c.number ≤ newest.number) ∧
    (∀ c ∈ blocks, OnChain chain c → c.number < held) ∧ ∃ c ∈ blocks, c.number < held

inductive Started (db : Db) (start : ℕ) : Bool → Db → Prop where
  | kept : Started db start false db
  | unwound (db' : Db) (result : UnwindResult) (h : db.unwind start = .ok (db', result)) :
      Started db start true db'

theorem started_of_spawn {view : L1View} {info : L1BlockStartupInfo} {startL1Block range : ℕ}
    {watcher : Watcher} {notifications : List L1Notification} {db' : Db}
    (hspawn : Watcher.spawn view info startL1Block range = some (watcher, notifications))
    (happlied : db.applyStart notifications = .ok db') :
    ∃ reorg start, startPoint view.chain startL1Block info = some (reorg, start) ∧
      watcher.currentBlockNumber = start - 1 ∧ Started db start reorg db' := by
  simp only [Watcher.spawn, Option.bind_eq_bind, Option.bind_eq_some_iff] at hspawn
  obtain ⟨⟨reorg, start⟩, hstart, hspawn⟩ := hspawn
  cases hspawn
  refine ⟨reorg, start, hstart, rfl, ?_⟩
  cases reorg with
  | false =>
    cases happlied
    exact .kept
  | true =>
    change (db.unwind start).map Prod.fst = .ok db' at happlied
    cases hunwind : db.unwind start with
    | error e =>
      rw [hunwind] at happlied
      cases happlied
    | ok unwound =>
      rw [hunwind] at happlied
      cases happlied
      exact .unwound _ unwound.2 hunwind

theorem Started.eventAt_iff {db' : Db} {n : ℕ} (h : Started db start reorg db') :
    db'.EventAt n ↔ ∃ held, db.EventHeld n held ∧ (reorg = true → held ≤ start) := by
  cases h with
  | kept => simp only [Db.eventAt_iff_held, Bool.false_eq_true, false_imp_iff, and_true]
  | unwound _ result h => simp only [Db.eventAt_unwind h, true_imp_iff]

theorem Started.lt_of_removed {db' : Db} {n : ℕ} (h : Started db start reorg db')
    (hremoved : db.Removed db' n) : start < n := by
  cases h with
  | kept => exact absurd hremoved Db.not_removed_self
  | unwound _ result h => exact Db.lt_of_removed h hremoved

theorem StartsAt.lt_iff (h : StartsAt chain blocks reorg start) (n : ℕ) :
    start < n ↔
      (∀ c ∈ blocks, OnChain chain c → c.number < n) ∧ ∃ c ∈ blocks, c.number < n := by
  constructor
  · intro hlt
    obtain ⟨b, hb, heq⟩ := h.listed
    refine ⟨?_, b, hb, by omega⟩
    intro c hc hon
    have hle := h.canonical_le c hc hon
    omega
  · rintro ⟨hcanonical, c, hc, hlt⟩
    rcases h.found with ⟨b, hb, hon, rfl⟩ | hlowest
    · exact hcanonical b hb hon
    · have hle := hlowest c hc
      omega

/-- The start removes every stale event just when each is held above the height it starts from and
the newest listed block is off the chain. -/
theorem startedClean_iff {view : L1View} {first : BlockInfo} {rest : List BlockInfo}
    {startL1Block range : ℕ} {watcher : Watcher} {notifications : List L1Notification}
    {db db' : Db} (hascending : (first :: rest).Pairwise (fun a b => a.number < b.number))
    (hspawn : Watcher.spawn view (.unsafeBlocks first rest) startL1Block range =
      some (watcher, notifications))
    (happlied : db.applyStart notifications = .ok db') :
    StartedClean view.chain (first :: rest) db db' watcher ↔
      StaleAbove view.chain (first :: rest) db := by
  obtain ⟨reorg, start, hstart, hcurrent, hstarted⟩ := started_of_spawn hspawn happlied
  have hat := startsAt_of_startPoint hascending hstart
  constructor
  · intro hclean b hb hstale held hheld
    -- were the event kept, it would be left at a stale height
    have hremoved : ¬(reorg = true → held ≤ start) := by
      intro hkept
      exact hclean.no_stale b hb hstale (hstarted.eventAt_iff.2 ⟨held, hheld, hkept⟩)
    have hreorg : reorg = true := by
      by_contra hno
      exact hremoved (fun h => absurd h hno)
    have hlt : start < held := by
      by_contra hle
      exact hremoved (fun _ => by omega)
    exact ⟨hat.reorg_iff.1 hreorg, (hat.lt_iff held).1 hlt⟩
  · intro habove
    refine ⟨?_, ?_⟩
    · intro b hb hstale hevent
      obtain ⟨held, hheld, hkept⟩ := hstarted.eventAt_iff.1 hevent
      obtain ⟨hnewest, hlower⟩ := habove b hb hstale held hheld
      have hle := hkept (hat.reorg_iff.2 hnewest)
      have hlt := (hat.lt_iff held).2 hlower
      omega
    · intro n hremoved
      have hlt := hstarted.lt_of_removed hremoved
      omega

def committedInThird : Db := (migrated 7).insertBatch ⟨11, 1, 3, 0, [], none, none, none⟩

theorem third_off_viewOfOther : ¬OnChain viewOfOther.chain ⟨3, 1003⟩ := by
  rintro ⟨current, hcurrent, hhash⟩
  cases hcurrent
  revert hhash
  decide

/-- The block below the replaced one is listed and on the chain. -/
theorem startedClean_replacedThird :
    ∃ watcher notifications db',
      Watcher.spawn viewOfOther (.unsafeBlocks ⟨2, 1002⟩ [⟨3, 1003⟩]) 0 500 =
        some (watcher, notifications) ∧
      committedInThird.applyStart notifications = .ok db' ∧
      StartedClean viewOfOther.chain [⟨2, 1002⟩, ⟨3, 1003⟩] committedInThird db' watcher := by
  have hspawn : Watcher.spawn viewOfOther (.unsafeBlocks ⟨2, 1002⟩ [⟨3, 1003⟩]) 0 500 =
      some (_, _) := rfl
  refine ⟨_, _, _, hspawn, rfl, (startedClean_iff (by decide) hspawn rfl).2 ?_⟩
  intro b hb hstale held hheld
  have hle := hheld.le
  have hlisted : ∀ c ∈ [(⟨2, 1002⟩ : BlockInfo), ⟨3, 1003⟩], c = ⟨2, 1002⟩ ∨ c = ⟨3, 1003⟩ := by
    decide
  rcases hlisted b hb with rfl | rfl
  · exact absurd ⟨_, rfl, rfl⟩ hstale
  · refine ⟨⟨⟨3, 1003⟩, by decide, third_off_viewOfOther, by decide⟩, ?_,
      ⟨2, 1002⟩, by decide, hle⟩
    intro c hc hon
    rcases hlisted c hc with rfl | rfl
    · exact hle
    · exact absurd hon third_off_viewOfOther

/-- The only listed block is replaced: its height is the one the unwind keeps. -/
theorem startedClean_onlyThird :
    ∃ watcher notifications db',
      Watcher.spawn viewOfOther (.unsafeBlocks ⟨3, 1003⟩ []) 0 500 =
        some (watcher, notifications) ∧
      notifications.head? = some (.reorg 3) ∧
      committedInThird.applyStart notifications = .ok db' ∧
      ¬StartedClean viewOfOther.chain [⟨3, 1003⟩] committedInThird db' watcher := by
  refine ⟨_, _, _, rfl, rfl, rfl, ?_⟩
  intro hclean
  refine hclean.no_stale ⟨3, 1003⟩ List.mem_cons_self third_off_viewOfOther ?_
  exact Or.inl ⟨_, List.mem_cons_of_mem _ List.mem_cons_self, Or.inl rfl⟩

end RollupNode
