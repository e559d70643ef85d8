import RollupNode.DerivationState

set_option autoImplicit false

/-! The reconciliation of the stored genesis with the configured one at startup. -/
namespace RollupNode
open RelationalTable

namespace Db

/-- A write query in its transaction: it is committed when the query succeeds and rolled back
when it fails. Opening the transaction and ending it can fail as well; a transaction that is not
committed leaves nothing behind. -/
def write {α : Type} (db : Db) (opening ending : Option DatabaseError)
    (query : Db → Db × Except Abort α) : Db × Except Abort α :=
  match opening with
  | some e => (db, .error (.error e))
  | none =>
    match query db, ending with
    | (changed, .ok a), none => (changed, .ok a)
    | (_, .error e), none => (db, .error e)
    | _, some e => (db, .error (.error e))

def insertGenesisBlock (db : Db) (genesisHash : B256) : Except Abort Db :=
  db.insertBlocks [⟨0, genesisHash⟩] ⟨0, 0⟩

def mismatchedGenesis (genesisHash : B256) (r : L2BlockRow) : Bool :=
  r.blockNumber = 0 ∧ r.blockHash ≠ genesisHash

def deleteMismatchedGenesisBlocks (db : Db) (genesisHash : B256) : Db × ℕ :=
  ({ db with l2Blocks := db.l2Blocks.deleteWhere (mismatchedGenesis genesisHash) },
    (db.l2Blocks.select (mismatchedGenesis genesisHash)).length)

def storedGenesisHashes (db : Db) : List B256 :=
  (db.l2Blocks.select (fun r => r.blockNumber = 0)).map (·.blockHash)

def rowsAboveGenesis (db : Db) : Bool := ∃ r ∈ db.l2Blocks, 0 < r.blockNumber

def checkGenesis (db : Db) (faults : Faults) (genesisHash seededGenesis : B256) :
    Except Abort Bool := do
  let stored ← call (faults 0) (.ok db.storedGenesisHashes)
  match stored.find? (fun hash => hash ≠ genesisHash ∧ hash ≠ seededGenesis) with
  | some foreign => .error (.error (.genesisMismatch genesisHash foreign))
  | none =>
    let above ← call (faults 1) (.ok db.rowsAboveGenesis)
    let head ← call (faults 2) (.ok db.l2HeadBlock)
    if 0 < head ∨ above then
      if stored = [] then .error (.error (.genesisMissing genesisHash))
      else if genesisHash ∈ stored then .ok true
      else .error (.error (.genesisAmbiguous genesisHash seededGenesis))
    else .ok false

def reconcileGenesisQuery (faults : Faults) (genesisHash seededGenesis : B256) (db : Db) :
    Db × Except Abort ℕ :=
  match db.checkGenesis faults genesisHash seededGenesis with
  | .error e => (db, .error e)
  | .ok populated =>
    match call (faults 3) (.ok (db.deleteMismatchedGenesisBlocks genesisHash)) with
    | .error e => (db, .error e)
    | .ok (kept, removed) =>
      if populated then (kept, .ok removed)
      else
        match call (faults 4) (kept.insertGenesisBlock genesisHash) with
        | .error e => (kept, .error e)
        | .ok inserted => (inserted, .ok removed)

def reconcileGenesisBlock (db : Db) (faults : Faults) (genesisHash seededGenesis : B256) :
    Db × Except Abort ℕ :=
  db.write (faults 5) (faults 6) (reconcileGenesisQuery faults genesisHash seededGenesis)

/-- The database holds blocks above genesis, by its head number or by its rows. -/
def Populated (db : Db) : Prop := 0 < db.l2HeadBlock ∨ ∃ r ∈ db.l2Blocks, 0 < r.blockNumber

structure GenesisKnown (db : Db) (genesisHash seededGenesis : B256) : Prop where
  known : ∀ r ∈ db.l2Blocks, r.blockNumber = 0 →
    r.blockHash = genesisHash ∨ r.blockHash = seededGenesis
  owned : db.Populated → ∃ r ∈ db.l2Blocks, r.blockNumber = 0 ∧ r.blockHash = genesisHash

theorem mem_storedGenesisHashes (db : Db) (hash : B256) :
    hash ∈ db.storedGenesisHashes ↔ ∃ r ∈ db.l2Blocks, r.blockNumber = 0 ∧ r.blockHash = hash := by
  unfold storedGenesisHashes
  rw [List.mem_map]
  simp only [Table.mem_select, decide_eq_true_eq, and_assoc]

theorem find?_foreign_eq_none (db : Db) (genesisHash seededGenesis : B256) :
    db.storedGenesisHashes.find? (fun hash => hash ≠ genesisHash ∧ hash ≠ seededGenesis) = none ↔
      ∀ r ∈ db.l2Blocks, r.blockNumber = 0 →
        r.blockHash = genesisHash ∨ r.blockHash = seededGenesis := by
  simp only [List.find?_eq_none, mem_storedGenesisHashes, decide_eq_true_eq]
  constructor
  · intro h r hr hzero
    by_contra hforeign
    exact h r.blockHash ⟨r, hr, hzero, rfl⟩ (not_or.1 hforeign)
  · rintro h hash ⟨r, hr, hzero, rfl⟩ hforeign
    exact not_or.2 hforeign (h r hr hzero)

theorem populated_iff (db : Db) :
    (0 < db.l2HeadBlock ∨ db.rowsAboveGenesis = true) ↔ db.Populated := by
  unfold rowsAboveGenesis Populated
  rw [decide_eq_true_eq]

variable {faults : Faults} {db' : Db} {db : Db} {genesisHash seededGenesis : B256}

theorem checkGenesis_ok_iff {populated : Bool} :
    db.checkGenesis faults genesisHash seededGenesis = .ok populated ↔
      faults 0 = none ∧ faults 1 = none ∧ faults 2 = none ∧
        db.GenesisKnown genesisHash seededGenesis ∧ (populated = true ↔ db.Populated) := by
  unfold checkGenesis
  rw [ExceptTraversal.bind_eq_ok]
  simp only [call_eq_ok, Except.ok.injEq]
  constructor
  · rintro ⟨stored, ⟨hread, rfl⟩, h⟩
    split at h
    · cases h
    · rename_i hknown
      obtain ⟨above, hcall, h⟩ := ExceptTraversal.bind_eq_ok.1 h
      obtain ⟨habove, heq⟩ := call_eq_ok.1 hcall
      cases heq
      obtain ⟨head, hcall, h⟩ := ExceptTraversal.bind_eq_ok.1 h
      obtain ⟨hhead, heq⟩ := call_eq_ok.1 hcall
      cases heq
      have hknown := (find?_foreign_eq_none db genesisHash seededGenesis).1 hknown
      by_cases hpopulated : 0 < db.l2HeadBlock ∨ db.rowsAboveGenesis = true
      · rw [if_pos hpopulated] at h
        split at h
        · cases h
        · split at h
          · rename_i howned
            cases h
            exact ⟨hread, habove, hhead,
              ⟨hknown, fun _ => (mem_storedGenesisHashes db genesisHash).1 howned⟩,
              iff_of_true rfl (db.populated_iff.1 hpopulated)⟩
          · cases h
      · rw [if_neg hpopulated] at h
        cases h
        rw [populated_iff] at hpopulated
        exact ⟨hread, habove, hhead, ⟨hknown, fun hp => absurd hp hpopulated⟩,
          iff_of_false Bool.false_ne_true hpopulated⟩
  · rintro ⟨hread, habove, hhead, hgenesis, hpopulated⟩
    refine ⟨_, ⟨hread, rfl⟩, ?_⟩
    rw [(find?_foreign_eq_none db genesisHash seededGenesis).2 hgenesis.known]
    rw [← populated_iff] at hpopulated
    simp only [habove, hhead, call, bind, Except.bind]
    cases populated with
    | true =>
      have howned := (mem_storedGenesisHashes db genesisHash).2
        (hgenesis.owned (db.populated_iff.1 (hpopulated.1 rfl)))
      rw [if_pos (hpopulated.1 rfl), if_neg (List.ne_nil_of_mem howned), if_pos howned]
    | false => rw [if_neg (fun hp => Bool.false_ne_true (hpopulated.2 hp))]

theorem write_eq_ok_iff {opening ending : Option DatabaseError} {α : Type}
    {query : Db → Db × Except Abort α} {a : α} :
    db.write opening ending query = (db', .ok a) ↔
      opening = none ∧ ending = none ∧ query db = (db', .ok a) := by
  unfold write
  cases opening with
  | some e => simp
  | none =>
    rcases hquery : query db with ⟨changed, outcome⟩
    cases ending with
    | some e => simp
    | none =>
      cases outcome with
      | ok b => simp
      | error e => simp

theorem write_error {opening ending : Option DatabaseError} {α : Type}
    {query : Db → Db × Except Abort α} {e : Abort}
    (h : db.write opening ending query = (db', .error e)) : db' = db := by
  unfold write at h
  split at h
  · cases h
    rfl
  · split at h
    · cases h
    · cases h
      rfl
    · cases h
      rfl

def reconciledRows (db : Db) (genesisHash : B256) (populated : Bool) : Table L2BlockRow.key :=
  let kept := db.l2Blocks.deleteWhere (mismatchedGenesis genesisHash)
  if populated then kept else upsertBlock ⟨0, 0⟩ kept ⟨0, genesisHash⟩

theorem reconcileGenesisQuery_ok_iff {removed : ℕ} :
    reconcileGenesisQuery faults genesisHash seededGenesis db = (db', .ok removed) ↔
      ∃ populated : Bool, db.checkGenesis faults genesisHash seededGenesis = .ok populated ∧
        faults 3 = none ∧
        (populated = false → faults 4 = none ∧ ∃ r ∈ db.batchCommits, r.hash = 0) ∧
        db' = { db with l2Blocks := db.reconciledRows genesisHash populated } ∧
        removed = (db.l2Blocks.select (mismatchedGenesis genesisHash)).length := by
  unfold reconcileGenesisQuery
  cases hcheck : db.checkGenesis faults genesisHash seededGenesis with
  | error e => simp
  | ok populated =>
    simp only [Except.ok.injEq, exists_eq_left']
    cases hdelete : faults 3 with
    | some e => simp [call]
    | none =>
      simp only [call, deleteMismatchedGenesisBlocks, true_and]
      cases populated with
      | true =>
        simp only [reconciledRows, if_true, Prod.mk.injEq, Except.ok.injEq, reduceCtorEq,
          false_implies, true_and]
        exact and_congr eq_comm eq_comm
      | false =>
        simp only [reconciledRows, Bool.false_eq_true, if_false, insertGenesisBlock, insertBlocks,
          List.cons_ne_nil, forall_const]
        cases hinsert : faults 4 with
        | some e => simp
        | none =>
          by_cases hbatch : ∃ r ∈ db.batchCommits, r.hash = 0
          · rw [if_pos hbatch]
            simp only [Prod.mk.injEq, Except.ok.injEq, hbatch, true_and]
            exact and_congr eq_comm eq_comm
          · rw [if_neg hbatch]
            simp only [hbatch, Prod.mk.injEq, reduceCtorEq, and_false, false_and]

section
variable {db : Db} {genesisHash seededGenesis : B256} {populated : Bool} {r : L2BlockRow}

theorem mismatchedGenesis_eq_true :
    mismatchedGenesis genesisHash r = true ↔ r.blockNumber = 0 ∧ r.blockHash ≠ genesisHash :=
  decide_eq_true_iff

theorem mismatchedGenesis_eq_false :
    mismatchedGenesis genesisHash r = false ↔ (r.blockNumber = 0 → r.blockHash = genesisHash) := by
  rw [Bool.eq_false_iff, ne_eq, mismatchedGenesis_eq_true, not_and, not_not]

theorem cases_of_mem_reconciledRows (h : r ∈ db.reconciledRows genesisHash populated) :
    (r ∈ db.l2Blocks ∧ (r.blockNumber = 0 → r.blockHash = genesisHash)) ∨
      (populated = false ∧ r.blockNumber = 0 ∧ r.blockHash = genesisHash) := by
  unfold reconciledRows at h
  cases populated with
  | true =>
    obtain ⟨hr, hkept⟩ := (Table.mem_deleteWhere _ _ r).1 h
    exact Or.inl ⟨hr, mismatchedGenesis_eq_false.1 hkept⟩
  | false =>
    rcases Table.cases_of_mem_upsert _ _ _ _ h with ⟨hr, -⟩ | ⟨-, rfl⟩ | ⟨q, hq, hkey, rfl⟩
    · obtain ⟨hr, hkept⟩ := (Table.mem_deleteWhere _ _ r).1 hr
      exact Or.inl ⟨hr, mismatchedGenesis_eq_false.1 hkept⟩
    · exact Or.inr ⟨rfl, rfl, rfl⟩
    · exact Or.inr ⟨rfl, rfl, congrArg Prod.snd hkey⟩

theorem mem_reconciledRows_of_above (hpopulated : populated = true ↔ db.Populated)
    (habove : 0 < r.blockNumber) :
    r ∈ db.reconciledRows genesisHash populated ↔ r ∈ db.l2Blocks := by
  constructor
  · intro h
    rcases cases_of_mem_reconciledRows h with ⟨hr, -⟩ | ⟨-, hzero, -⟩
    · exact hr
    · omega
  · intro hr
    have htrue : populated = true := hpopulated.2 (Or.inr ⟨r, hr, habove⟩)
    rw [htrue]
    exact (Table.mem_deleteWhere _ _ r).2
      ⟨hr, mismatchedGenesis_eq_false.2 (fun hzero => absurd hzero (by omega))⟩

theorem reconciledRows_genesis (hr : r ∈ db.reconciledRows genesisHash populated)
    (hzero : r.blockNumber = 0) : r.blockHash = genesisHash := by
  rcases cases_of_mem_reconciledRows hr with ⟨-, hkept⟩ | ⟨-, -, hhash⟩
  · exact hkept hzero
  · exact hhash

theorem exists_reconciledRows (hgenesis : db.GenesisKnown genesisHash seededGenesis)
    (hpopulated : populated = true ↔ db.Populated) :
    ∃ r ∈ db.reconciledRows genesisHash populated,
      r.blockNumber = 0 ∧ r.blockHash = genesisHash := by
  cases populated with
  | true =>
    obtain ⟨r, hr, hzero, hhash⟩ := hgenesis.owned (hpopulated.1 rfl)
    exact ⟨r, (Table.mem_deleteWhere _ _ r).2
      ⟨hr, mismatchedGenesis_eq_false.2 (fun _ => hhash)⟩, hzero, hhash⟩
  | false =>
    obtain ⟨r, hr, hkey, hrow⟩ := Table.exists_mem_upsert
      (db.l2Blocks.deleteWhere (mismatchedGenesis genesisHash))
      (L2BlockRow.ofBlock ⟨0, genesisHash⟩ ⟨0, 0⟩)
      (fun r => { r with blockNumber := 0, batchIndex := 0 }) (fun _ => rfl)
    refine ⟨r, hr, ?_, congrArg Prod.snd hkey⟩
    rcases hrow with rfl | ⟨q, -, rfl⟩
    · rfl
    · rfl

theorem seeded_of_removed (hgenesis : db.GenesisKnown genesisHash seededGenesis)
    (hr : r ∈ db.l2Blocks) (hgone : r.key ∉ (db.reconciledRows genesisHash populated).keys) :
    r.blockNumber = 0 ∧ r.blockHash ≠ genesisHash ∧ r.blockHash = seededGenesis := by
  have hmismatched : mismatchedGenesis genesisHash r = true := by
    by_contra hkept
    rw [Bool.not_eq_true] at hkept
    have hkeys : r.key ∈ (db.l2Blocks.deleteWhere (mismatchedGenesis genesisHash)).keys :=
      (Table.mem_keys _ _).2 ⟨r, (Table.mem_deleteWhere _ _ r).2 ⟨hr, hkept⟩, rfl⟩
    apply hgone
    unfold reconciledRows
    cases populated with
    | true => exact hkeys
    | false => exact (Table.mem_keys_upsert _ _ _ _ _).2 (Or.inl hkeys)
  obtain ⟨hzero, hother⟩ := mismatchedGenesis_eq_true.1 hmismatched
  refine ⟨hzero, hother, ?_⟩
  rcases hgenesis.known r hr hzero with hhash | hhash
  · exact absurd hhash hother
  · exact hhash

theorem reconciledRows_again :
    ({ db with l2Blocks := db.reconciledRows genesisHash populated } : Db).reconciledRows
      genesisHash populated = db.reconciledRows genesisHash populated := by
  have hkept : (db.reconciledRows genesisHash populated).deleteWhere
      (mismatchedGenesis genesisHash) = db.reconciledRows genesisHash populated := by
    apply Table.deleteWhere_eq_self
    intro r hr
    exact mismatchedGenesis_eq_false.2 (reconciledRows_genesis hr)
  cases populated with
  | true => exact hkept
  | false =>
    change upsertBlock ⟨0, 0⟩ ((db.reconciledRows genesisHash false).deleteWhere
      (mismatchedGenesis genesisHash)) ⟨0, genesisHash⟩ = _
    rw [hkept]
    apply Table.upsert_eq_self
    · exact (Table.mem_keys_upsert _ _ _ _ _).2 (Or.inr rfl)
    · intro r hr hkey
      rcases Table.cases_of_mem_upsert _ _ _ _ hr with ⟨-, hother⟩ | ⟨-, rfl⟩ | ⟨q, -, -, rfl⟩
      · exact absurd hkey hother
      · rfl
      · rfl

theorem populated_reconciled (hpopulated : populated = true ↔ db.Populated) :
    ({ db with l2Blocks := db.reconciledRows genesisHash populated } : Db).Populated ↔
      db.Populated := by
  refine or_congr Iff.rfl ?_
  constructor
  · rintro ⟨r, hr, habove⟩
    exact ⟨r, (mem_reconciledRows_of_above hpopulated habove).1 hr, habove⟩
  · rintro ⟨r, hr, habove⟩
    exact ⟨r, (mem_reconciledRows_of_above hpopulated habove).2 hr, habove⟩

theorem GenesisKnown.reconciled (hgenesis : db.GenesisKnown genesisHash seededGenesis)
    (hpopulated : populated = true ↔ db.Populated) :
    ({ db with l2Blocks := db.reconciledRows genesisHash populated } : Db).GenesisKnown
      genesisHash seededGenesis where
  known _ hr hzero := Or.inl (reconciledRows_genesis hr hzero)
  owned _ := exists_reconciledRows hgenesis hpopulated

theorem select_mismatched_reconciled :
    (db.reconciledRows genesisHash populated).select (mismatchedGenesis genesisHash) = [] := by
  apply List.filter_eq_nil_iff.2
  intro r hr
  rw [mismatchedGenesis_eq_false.2 (reconciledRows_genesis hr)]
  exact Bool.false_ne_true

end

theorem reconcileGenesisBlock_ok_iff {removed : ℕ} :
    db.reconcileGenesisBlock faults genesisHash seededGenesis = (db', .ok removed) ↔
      faults 5 = none ∧ faults 6 = none ∧
        reconcileGenesisQuery faults genesisHash seededGenesis db = (db', .ok removed) :=
  write_eq_ok_iff

theorem reconcileGenesisBlock_again {removed : ℕ}
    (h : db.reconcileGenesisBlock faults genesisHash seededGenesis = (db', .ok removed)) :
    db'.reconcileGenesisBlock noFaults genesisHash seededGenesis = (db', .ok 0) := by
  obtain ⟨-, -, h⟩ := reconcileGenesisBlock_ok_iff.1 h
  obtain ⟨populated, hcheck, -, hbatch, rfl, -⟩ := reconcileGenesisQuery_ok_iff.1 h
  obtain ⟨-, -, -, hgenesis, hpopulated⟩ := checkGenesis_ok_iff.1 hcheck
  refine reconcileGenesisBlock_ok_iff.2 ⟨rfl, rfl, reconcileGenesisQuery_ok_iff.2 ?_⟩
  refine ⟨populated, ?_, rfl, fun hfresh => ⟨rfl, (hbatch hfresh).2⟩, ?_, ?_⟩
  · exact checkGenesis_ok_iff.2 ⟨rfl, rfl, rfl, hgenesis.reconciled hpopulated,
      hpopulated.trans (populated_reconciled hpopulated).symm⟩
  · rw [reconciledRows_again]
  · rw [select_mismatched_reconciled]
    rfl

theorem reconcileGenesisBlock_again_fst {removed : ℕ}
    (h : db.reconcileGenesisBlock faults genesisHash seededGenesis = (db', .ok removed))
    (again : Faults) : (db'.reconcileGenesisBlock again genesisHash seededGenesis).1 = db' := by
  rcases hagain : db'.reconcileGenesisBlock again genesisHash seededGenesis with ⟨after, outcome⟩
  cases outcome with
  | error e => exact write_error hagain
  | ok n =>
    -- the same statements succeed without faults, where the result is known
    obtain ⟨-, -, hquery⟩ := reconcileGenesisBlock_ok_iff.1 hagain
    obtain ⟨populated, hcheck, -, hbatch, hafter, hremoved⟩ :=
      reconcileGenesisQuery_ok_iff.1 hquery
    obtain ⟨-, -, -, hgenesis, hpopulated⟩ := checkGenesis_ok_iff.1 hcheck
    have hclean : db'.reconcileGenesisBlock noFaults genesisHash seededGenesis = (after, .ok n) :=
      reconcileGenesisBlock_ok_iff.2 ⟨rfl, rfl, reconcileGenesisQuery_ok_iff.2
        ⟨populated, checkGenesis_ok_iff.2 ⟨rfl, rfl, rfl, hgenesis, hpopulated⟩, rfl,
          fun hfresh => ⟨rfl, (hbatch hfresh).2⟩, hafter, hremoved⟩⟩
    rw [reconcileGenesisBlock_again h] at hclean
    exact (congrArg Prod.fst hclean).symm

theorem reconcileGenesisBlock_succeeds_iff (db : Db) (faults : Faults)
    (genesisHash seededGenesis : B256) :
    (∃ removed, (db.reconcileGenesisBlock faults genesisHash seededGenesis).2 = .ok removed) ↔
      (∀ i ∈ [0, 1, 2, 3, 5, 6], faults i = none) ∧ db.GenesisKnown genesisHash seededGenesis ∧
        (db.Populated ∨ faults 4 = none ∧ ∃ r ∈ db.batchCommits, r.hash = 0) := by
  have hpair : (∃ removed, (db.reconcileGenesisBlock faults genesisHash seededGenesis).2 =
      .ok removed) ↔ ∃ removed db',
        db.reconcileGenesisBlock faults genesisHash seededGenesis = (db', .ok removed) :=
    exists_congr (fun removed => ⟨fun h => ⟨_, Prod.ext rfl h⟩, fun ⟨_, h⟩ => congrArg Prod.snd h⟩)
  simp only [hpair, reconcileGenesisBlock_ok_iff, reconcileGenesisQuery_ok_iff,
    checkGenesis_ok_iff, List.forall_mem_cons, List.not_mem_nil, false_imp_iff, implies_true,
    and_true]
  constructor
  · rintro ⟨-, -, h5, h6, populated, ⟨h0, h1, h2, hgenesis, hpopulated⟩, h3, hinsert, -, -⟩
    refine ⟨⟨h0, h1, h2, h3, h5, h6⟩, hgenesis, ?_⟩
    cases populated with
    | true => exact .inl (hpopulated.1 rfl)
    | false => exact .inr (hinsert rfl)
  · rintro ⟨⟨h0, h1, h2, h3, h5, h6⟩, hgenesis, hinsert⟩
    classical
    refine ⟨_, _, h5, h6, decide db.Populated, ⟨h0, h1, h2, hgenesis, decide_eq_true_iff⟩, h3, ?_,
      rfl, rfl⟩
    intro hfresh
    exact hinsert.resolve_left (of_decide_eq_false hfresh)

/-- The reconciliation either leaves exactly the configured genesis at height 0, having removed
nothing but rows of the migration seed there, or it fails and leaves everything as it was; it fails
on a populated database without the configured genesis and on a foreign one, and succeeds on all
others that no call fails on. -/
theorem reconcileGenesisBlock_safe_and_complete (db : Db) (faults : Faults)
    (genesisHash seededGenesis : B256) :
    (∀ db' removed,
      db.reconcileGenesisBlock faults genesisHash seededGenesis = (db', .ok removed) →
        (∃ r ∈ db'.l2Blocks, r.blockNumber = 0) ∧
        (∀ r ∈ db'.l2Blocks, r.blockNumber = 0 → r.blockHash = genesisHash) ∧
        (∀ r : L2BlockRow, 0 < r.blockNumber → (r ∈ db'.l2Blocks ↔ r ∈ db.l2Blocks)) ∧
        (∀ r ∈ db.l2Blocks, r.key ∉ db'.l2Blocks.keys →
          r.blockNumber = 0 ∧ r.blockHash ≠ genesisHash ∧ r.blockHash = seededGenesis) ∧
        db' = { db with l2Blocks := db'.l2Blocks } ∧
        db'.reconcileGenesisBlock noFaults genesisHash seededGenesis = (db', .ok 0) ∧
        ∀ again : Faults,
          (db'.reconcileGenesisBlock again genesisHash seededGenesis).1 = db') ∧
    (∀ db' e, db.reconcileGenesisBlock faults genesisHash seededGenesis = (db', .error e) →
      db' = db) ∧
    ((0 < db.l2HeadBlock ∨ ∃ r ∈ db.l2Blocks, 0 < r.blockNumber) ∧
        (∀ r ∈ db.l2Blocks, r.blockNumber = 0 → r.blockHash ≠ genesisHash) ∨
      (∃ r ∈ db.l2Blocks, r.blockNumber = 0 ∧ r.blockHash ≠ genesisHash ∧
        r.blockHash ≠ seededGenesis) →
      ∃ e, (db.reconcileGenesisBlock faults genesisHash seededGenesis).2 = .error e) ∧
    ((∃ removed, (db.reconcileGenesisBlock faults genesisHash seededGenesis).2 = .ok removed) ↔
      (∀ i ∈ [0, 1, 2, 3, 5, 6], faults i = none) ∧ db.GenesisKnown genesisHash seededGenesis ∧
        (db.Populated ∨ faults 4 = none ∧ ∃ r ∈ db.batchCommits, r.hash = 0)) := by
  refine ⟨?_, fun db' e => write_error, ?_,
    db.reconcileGenesisBlock_succeeds_iff faults genesisHash seededGenesis⟩
  · intro db' removed h
    have hagain := reconcileGenesisBlock_again h
    have hstays := reconcileGenesisBlock_again_fst h
    obtain ⟨-, -, h⟩ := reconcileGenesisBlock_ok_iff.1 h
    obtain ⟨populated, hcheck, -, -, rfl, -⟩ := reconcileGenesisQuery_ok_iff.1 h
    obtain ⟨-, -, -, hgenesis, hpopulated⟩ := checkGenesis_ok_iff.1 hcheck
    obtain ⟨genesis, hmem, hzero, -⟩ := exists_reconciledRows hgenesis hpopulated
    exact ⟨⟨genesis, hmem, hzero⟩, fun r hr => reconciledRows_genesis hr,
      fun r habove => mem_reconciledRows_of_above hpopulated habove,
      fun r hr => seeded_of_removed hgenesis hr, rfl, hagain, hstays⟩
  · intro hbad
    rcases h : db.reconcileGenesisBlock faults genesisHash seededGenesis with ⟨db', outcome⟩
    cases outcome with
    | error e => exact ⟨e, rfl⟩
    | ok removed =>
      obtain ⟨-, -, h⟩ := reconcileGenesisBlock_ok_iff.1 h
      obtain ⟨populated, hcheck, -⟩ := reconcileGenesisQuery_ok_iff.1 h
      obtain ⟨-, -, -, hgenesis, -⟩ := checkGenesis_ok_iff.1 hcheck
      rcases hbad with ⟨hpopulated, hmissing⟩ | ⟨r, hr, hzero, hother, hforeign⟩
      · obtain ⟨r, hr, hzero, hhash⟩ := hgenesis.owned hpopulated
        exact absurd hhash (hmissing r hr hzero)
      · rcases hgenesis.known r hr hzero with hhash | hhash
        · exact absurd hhash hother
        · exact absurd hhash hforeign

/-- The seed of the migration gives way to the configured genesis. Once there are blocks above it,
the database is another chain's. -/
theorem reconcileGenesisBlock_safe_and_complete_seeded :
    (migrated 7).reconcileGenesisBlock noFaults 5 7 = (migrated 5, .ok 1) ∧
      (migrated 5).reconcileGenesisBlock noFaults 5 7 = (migrated 5, .ok 0) ∧
      ∃ e, (({ migrated 7 with l2HeadBlock := 3 } : Db).reconcileGenesisBlock noFaults 5 7).2 =
        .error e := by
  obtain ⟨hok, -⟩ := reconcileGenesisBlock_safe_and_complete (migrated 7) noFaults 5 7
  obtain ⟨-, -, hfails, -⟩ := reconcileGenesisBlock_safe_and_complete
    { migrated 7 with l2HeadBlock := 3 } noFaults 5 7
  have hreconciled : (migrated 7).reconcileGenesisBlock noFaults 5 7 = (migrated 5, .ok 1) := by
    decide
  obtain ⟨-, -, -, -, -, hagain, -⟩ := hok _ _ hreconciled
  exact ⟨hreconciled, hagain, hfails (.inl ⟨.inl (by decide), by decide⟩)⟩

end Db
end RollupNode
