import RollupNode.ChunkedConsolidation
import RollupNode.StoredMessages

set_option autoImplicit false

/-! The L1 message that an import is blocked on, read off the node before the import. -/
namespace RollupNode
open ExceptTraversal

def Halt.missing (hash : B256) : Halt := .error (.l1MessageNotFound (.transactionHash hash))

/-- The messages up to some chunk of blocks are expected, and those up to its end go on with the
missing one behind all that are. The blocks are read, and no call of the database fails. -/
def MissesUnsafe (client : L2Client) (faults : Faults) (expected : List B256)
    (recorded : List L2Block) (chunks : List (List ℕ)) (hash : B256) : Prop :=
  ∃ before chunk after earlier blocks, chunks = before ++ chunk :: after ∧
    before.flatten.mapM (Node.blockAt client) = .ok earlier ∧
    chunk.mapM (Node.blockAt client) = .ok blocks ∧
    (∀ i < 2 * before.length + 2, faults i = none) ∧
    hashesOf (recorded ++ earlier) <+: expected ∧
    expected ++ [hash] <+: hashesOf (recorded ++ earlier ++ blocks)

inductive MissesOf (node : Node) (client : L2Client) (faults : Faults) (replies : ImportReplies)
    (chain : List L2Block) (hash : B256) : Prop where
  | synced (first : L2Block) (hsynced : node.syncState.isSynced = true)
      (hfirst : chain.head? = some first) (hread : faults 0 = none)
      (h : node.db.expectedHashes first.number ++ [hash] <+: hashesOf chain)
  /-- The last block becomes the head before the blocks up to it are consolidated. -/
  | consolidated (last : L2Block) (fcs : ForkchoiceState) (response : ForkchoiceUpdated)
      (latest : BlockInfo × BatchInfo) (hunsynced : node.syncState = ⟨true, false⟩)
      (hlast : chain.getLast? = some last) (hsubmitted : submitPayloads replies chain = .ok ())
      (hhead : node.fcs.optimisticSync last.blockInfo replies.fcu = (fcs, .ok response))
      (hvalid : response.status = .valid) (hlatest : node.db.getLatestSafeL2Info = .ok latest)
      (h : MissesUnsafe client (fun i => faults (i + 2))
        (node.db.expectedHashes (fcs.safe.number + 1)) [] (Faulty.unsafeChunks fcs) hash)

def Misses (node : Node) (config : ChainOrchestratorConfig) (faults : Faults)
    (received : PeerImport) (hash : B256) : Prop :=
  ∃ decision chain, decidePeerBlock node.fcs config.optimisticSyncThreshold received.sources
      received.peer = .ok decision ∧ decision.imported = some chain ∧
    MissesOf node received.sources.client faults received.replies chain hash

/-! ### The consolidation of the blocks above the safe one -/

/-- A message is not found when all that is expected came before it. -/
theorem compareHashes_eq_missing (hashes expected : List B256) (hash : B256) :
    compareHashes hashes expected = .error (.missing hash) ↔ expected ++ [hash] <+: hashes := by
  induction hashes generalizing expected with
  | nil =>
    refine iff_of_false (fun h => by cases h) ?_
    intro h
    exact absurd h.length_le (by simp)
  | cons first hashes ih =>
    cases expected with
    | nil =>
      rw [compareHashes, List.nil_append, List.cons_prefix_cons]
      simp [Halt.missing, eq_comm]
    | cons e expected =>
      rw [compareHashes, List.cons_append, List.cons_prefix_cons, ← ih]
      split
      · rename_i heq
        exact (and_iff_right heq.symm).symm
      · rename_i hne
        refine iff_of_false (fun h => by cases h) (fun h => hne h.1.symm)

/-- Something else than an L1 message is missing, or nothing is. -/
def Unblocked {α : Type} (x : Except Halt α) : Prop := ∀ hash, x ≠ .error (.missing hash)

theorem Unblocked.ok {α : Type} (a : α) : Unblocked (.ok a : Except Halt α) :=
  fun _ h => by cases h

theorem Unblocked.bind {α β : Type} {x : Except Halt α} {f : α → Except Halt β} (hx : Unblocked x)
    (hf : ∀ a, Unblocked (f a)) : Unblocked (x >>= f) := by
  intro hash h
  rcases bind_eq_error.1 h with h | ⟨a, -, h⟩
  · exact hx hash h
  · exact hf a hash h

theorem Abort.toHalt_unblocked {α : Type} (e : Abort) :
    Unblocked (.error e.toHalt : Except Halt α) := by
  intro hash h
  cases e with
  | error e => cases h
  | panic message => cases h

theorem EngineError.toHalt_unblocked {α : Type} (e : EngineError) :
    Unblocked (.error e.toHalt : Except Halt α) := by
  intro hash h
  cases e <;> cases h

theorem Db.failConsolidation_missing (db : Db) (e : Halt) (hash : B256) :
    (db.failConsolidation e).2 = .error (.missing hash) ↔
      (∃ latest, db.getLatestSafeL2Info = .ok latest) ∧ e = .missing hash := by
  cases hlatest : db.getLatestSafeL2Info with
  | ok latest =>
    rw [failConsolidation_eq hlatest]
    simp
  | error abort =>
    refine iff_of_false ?_ (by simp)
    rw [failConsolidation, purgeL1MessageToL2BlockMappings, hlatest]
    exact abort.toHalt_unblocked hash

theorem missesUnsafe_nil (client : L2Client) (faults : Faults) (expected : List B256)
    (recorded : List L2Block) (hash : B256) :
    ¬ MissesUnsafe client faults expected recorded [] hash := by
  rintro ⟨before, chunk, after, -, -, hsplit, -⟩
  simp at hsplit

theorem MissesUnsafe.recorded_expected {client : L2Client} {faults : Faults}
    {expected : List B256} {recorded : List L2Block} {chunks : List (List ℕ)} {hash : B256}
    (h : MissesUnsafe client faults expected recorded chunks hash) :
    hashesOf recorded <+: expected := by
  obtain ⟨-, -, -, earlier, -, -, -, -, -, hexpected, -⟩ := h
  rw [hashesOf_append] at hexpected
  exact (List.prefix_append _ _).trans hexpected

theorem missesUnsafe_cons (client : L2Client) (faults : Faults) (expected : List B256)
    (recorded : List L2Block) (chunk : List ℕ) (chunks : List (List ℕ)) (hash : B256) :
    MissesUnsafe client faults expected recorded (chunk :: chunks) hash ↔
      (faults 0 = none ∧ faults 1 = none) ∧ ∃ blocks, chunk.mapM (Node.blockAt client) = .ok blocks ∧
        (hashesOf recorded <+: expected ∧ expected ++ [hash] <+: hashesOf (recorded ++ blocks) ∨
          MissesUnsafe client (fun i => faults (i + 2)) expected (recorded ++ blocks) chunks
            hash) := by
  constructor
  · rintro ⟨before, last, after, earlier, blocks, hsplit, hearlier, hblocks, hcalls, hexpected, h⟩
    refine ⟨⟨hcalls 0 (by omega), hcalls 1 (by omega)⟩, ?_⟩
    cases before with
    | nil =>
      cases hsplit
      obtain rfl : earlier = [] := (Except.ok.inj hearlier).symm
      rw [List.append_nil] at hexpected h
      exact ⟨blocks, hblocks, .inl ⟨hexpected, h⟩⟩
    | cons first before =>
      cases hsplit
      rw [List.flatten_cons] at hearlier
      obtain ⟨bs, rest, hbs, hrest, rfl⟩ := mapM_append_eq_ok hearlier
      rw [← List.append_assoc] at hexpected h
      refine ⟨bs, hbs, .inr ⟨before, last, after, rest, blocks, rfl, hrest, hblocks, ?_, hexpected,
        h⟩⟩
      intro i hi
      exact hcalls (i + 2) (by rw [List.length_cons]; omega)
  · rintro ⟨hcall, blocks, hblocks, ⟨hexpected, h⟩ |
      ⟨before, last, after, rest, bs, rfl, hrest, hbs, hcalls, hexpected, h⟩⟩
    · refine ⟨[], chunk, chunks, [], blocks, rfl, rfl, hblocks, ?_, ?_, ?_⟩
      · intro i hi
        obtain rfl | rfl : i = 0 ∨ i = 1 := by
          rw [List.length_nil] at hi
          omega
        · exact hcall.1
        · exact hcall.2
      · rw [List.append_nil]
        exact hexpected
      · rw [List.append_nil]
        exact h
    · rw [List.append_assoc recorded] at hexpected h
      refine ⟨chunk :: before, last, after, blocks ++ rest, bs, rfl, ?_, hbs, ?_, hexpected, ?_⟩
      · rw [List.flatten_cons, List.mapM_append, hblocks, hrest]
        rfl
      · intro i hi
        rw [List.length_cons] at hi
        rcases i with _ | _ | i
        · exact hcall.1
        · exact hcall.2
        · exact hcalls i (by omega)
      · exact h

namespace Faulty

/-- A failing call ends a chunk with another error than a missing message. -/
theorem consolidateChunk_fails (client : L2Client) {faults : Faults} (db : Db) (numbers : List ℕ)
    (h : ¬ (faults 0 = none ∧ faults 1 = none)) :
    ∃ db' e, consolidateChunk client faults db numbers = (db', .error e) ∧
      Unblocked (.error e : Except Halt Unit) := by
  unfold consolidateChunk validateL1Messages
  cases numbers.mapM (Node.blockAt client) with
  | error e => exact ⟨_, _, rfl, fun _ h => by cases h⟩
  | ok blocks =>
    simp only
    cases hread : faults 0 with
    | some e =>
      simp only
      split
      · exact ⟨_, _, rfl, Abort.toHalt_unblocked _⟩
      · exact ⟨_, _, rfl, fun _ h => by cases h⟩
    | none =>
      cases hwrite : faults 1 with
      | none => exact absurd ⟨hread, hwrite⟩ h
      | some e =>
        simp only [Db.call]
        split
        · exact ⟨_, _, rfl, Abort.toHalt_unblocked _⟩
        · exact ⟨_, _, rfl, Abort.toHalt_unblocked _⟩

/-- The induction is on the chunks, with the blocks of the earlier ones recorded. -/
theorem consolidateChunks_missing {db : Db} (hunique : db.HashesUnique) {client : L2Client}
    {safe : ℕ} {hash : B256} {chunks : List (List ℕ)} (hchunks : ∀ numbers ∈ chunks, numbers ≠ [])
    {faults : Faults} {recorded : List L2Block} {n : ℕ}
    (hnumbers : List.range' (safe + 1) n = recorded.map (·.number) ++ chunks.flatten)
    (hexpected : hashesOf recorded <+: db.expectedHashes (safe + 1)) :
    (consolidateChunks client faults (db.withUnsafe safe recorded) chunks).2 =
        .error (.missing hash) ↔
      (∃ latest, db.getLatestSafeL2Info = .ok latest) ∧
        MissesUnsafe client faults (db.expectedHashes (safe + 1)) recorded chunks hash := by
  induction chunks generalizing faults recorded with
  | nil => exact iff_of_false (fun h => by cases h) (fun h => missesUnsafe_nil _ _ _ _ _ h.2)
  | cons numbers chunks ih =>
    obtain ⟨hne, hchunks⟩ := List.forall_mem_cons.1 hchunks
    rw [missesUnsafe_cons, consolidateChunks]
    by_cases hcalls : faults 0 = none ∧ faults 1 = none
    swap
    · obtain ⟨db', e, hchunk, hother⟩ := consolidateChunk_fails client
        (db.withUnsafe safe recorded) numbers hcalls
      refine iff_of_false ?_ (fun h => hcalls h.2.1)
      rw [hchunk]
      exact hother hash
    cases hfetched : numbers.mapM (Node.blockAt client) with
    | error e =>
      refine iff_of_false ?_ (by simp)
      rw [consolidateChunk, hfetched]
      exact fun h => by cases h
    | ok blocks =>
      have hblocks := map_number_of_mapM hfetched
      have hlength : blocks.length = numbers.length := by rw [← hblocks, List.length_map]
      rw [List.flatten_cons, ← List.append_assoc, ← hblocks, ← List.map_append] at hnumbers
      have hnumbered : Db.Numbered safe (recorded ++ blocks) := by
        obtain ⟨k, -, hk, -⟩ := List.range'_eq_append_iff.1 hnumbers
        have hlength := congrArg List.length hk
        rw [List.length_map, List.length_range'] at hlength
        rw [Db.Numbered, hk, hlength]
      have hblocksne : blocks ≠ [] := by
        rintro rfl
        exact hne (List.length_eq_zero_iff.1 hlength.symm)
      rw [Node.consolidateChunk_withUnsafe hunique hfetched hblocksne hnumbered hexpected hcalls]
      simp only [hcalls, true_and, Except.ok.injEq, exists_eq_left', hexpected]
      cases hcompare : compareHashes (hashesOf (recorded ++ blocks))
          (db.expectedHashes (safe + 1)) with
      | error e =>
        have hlater : ¬ MissesUnsafe client (fun i => faults (i + 2))
            (db.expectedHashes (safe + 1)) (recorded ++ blocks) chunks hash := by
          intro h
          rw [(compareHashes_eq_ok _ _).2 h.recorded_expected] at hcompare
          cases hcompare
        obtain ⟨purged, e', hfailed⟩ :=
          Db.exists_failConsolidation (db.withUnsafe safe recorded) e
        have hmissing := db.failConsolidation_missing e hash
        rw [← Db.failConsolidation_withUnsafe_error db safe recorded, hfailed] at hmissing
        simp only [hfailed]
        rw [← compareHashes_eq_missing, hcompare, or_iff_left hlater, hmissing,
          Except.error.injEq]
      | ok _ =>
        have hlisted := (compareHashes_eq_ok _ _).1 hcompare
        have hhere : ¬ db.expectedHashes (safe + 1) ++ [hash] <+: hashesOf (recorded ++ blocks) := by
          rw [← compareHashes_eq_missing, hcompare]
          exact fun h => by cases h
        rw [or_iff_right hhere]
        exact ih hchunks hnumbers hlisted

theorem consolidateChain_missing (node : Node) (hunique : node.db.HashesUnique)
    (client : L2Client) (faults : Faults) (hash : B256) :
    (consolidateChain node client faults).2 = .error (.missing hash) ↔
      (∃ latest, node.db.getLatestSafeL2Info = .ok latest) ∧
        MissesUnsafe client faults (node.db.expectedHashes (node.fcs.safe.number + 1)) []
          (unsafeChunks node.fcs) hash := by
  have hnumbers : List.range' (node.fcs.safe.number + 1)
      (node.fcs.head.number + 1 - (node.fcs.safe.number + 1)) =
        ([] : List L2Block).map (·.number) ++ (unsafeChunks node.fcs).flatten :=
    (flatten_toChunks batchSize _).symm
  have hrun : (consolidateChunks client faults (node.db.withUnsafe node.fcs.safe.number [])
      (unsafeChunks node.fcs)).2 = .error (.missing hash) ↔ _ :=
    consolidateChunks_missing hunique (ne_nil_of_mem_toChunks batchSize _) hnumbers List.nil_prefix
  rw [Db.withUnsafe_nil] at hrun
  refine Iff.trans ?_ hrun
  rw [consolidateChain]
  cases hresult : consolidateChunks client faults node.db (unsafeChunks node.fcs) with
  | mk db outcome =>
    cases outcome with
    | error e => rfl
    | ok _ =>
      refine iff_of_false ?_ (fun h => by cases h)
      cases faults (2 * (unsafeChunks node.fcs).length) with
      | none => exact fun h => by cases h
      | some e => exact fun h => by cases h

/-! ### The import of a chain -/

theorem submitPayloads_unblocked (replies : ImportReplies) (chain : List L2Block) :
    Unblocked (submitPayloads replies chain) := by
  induction chain with
  | nil => exact .ok ()
  | cons block rest ih =>
    unfold submitPayloads
    split
    · exact EngineError.toHalt_unblocked _
    split
    · exact fun _ h => by cases h
    · exact ih

theorem recordImport_unblocked (node : Node) (fault : Option DatabaseError)
    (chain : List L2Block) (received : ℕ) :
    Unblocked (recordImport node fault chain received).2 := by
  unfold recordImport
  split
  · split
    · exact Abort.toHalt_unblocked _
    · exact .ok ()
  · exact .ok ()

/-- What comes behind the validation of a chain is blocked on nothing, unless it consolidates. -/
theorem importChain_unblocked {node : Node} (hl2 : node.syncState.l2 = true) (client : L2Client)
    {faults : Faults} {chain : List L2Block} (received : ℕ) {replies : ImportReplies}
    (hvalidated : validateImport node (faults 0) replies chain = submitPayloads replies chain) :
    Unblocked (importChain node client faults chain received replies).2 := by
  unfold importChain
  split
  · exact fun _ h => by cases h
  rw [hvalidated]
  have hsubmitted := submitPayloads_unblocked replies chain
  split
  · rename_i e hsubmit
    rw [hsubmit] at hsubmitted
    exact hsubmitted
  simp only
  split
  · exact EngineError.toHalt_unblocked _
  split
  · exact fun _ h => by cases h
  · rw [finishImport, if_pos hl2]
    exact recordImport_unblocked _ _ chain received
  · exact .ok ()

theorem importChain_synced_missing {node : Node} (hsynced : node.syncState.isSynced = true)
    (client : L2Client) (faults : Faults) (chain : List L2Block) (received : ℕ)
    (replies : ImportReplies) (hash : B256) :
    (importChain node client faults chain received replies).2 = .error (.missing hash) ↔
      ∃ first, chain.head? = some first ∧ faults 0 = none ∧
        node.db.expectedHashes first.number ++ [hash] <+: hashesOf chain := by
  have hvalidate : validateImport node (faults 0) replies chain =
      (validateL1Messages (faults 0) node.db chain >>= fun _ => submitPayloads replies chain) := by
    rw [validateImport, if_pos hsynced]
  have hl2 : node.syncState.l2 = true := (Bool.and_eq_true_iff.1 hsynced).2
  cases chain with
  | nil => exact iff_of_false (fun h => by cases h) (by simp)
  | cons first rest =>
    simp only [List.head?_cons, Option.some.injEq, exists_eq_left']
    cases hread : faults 0 with
    | some e =>
      refine iff_of_false ?_ (by simp)
      rw [hread] at hvalidate
      unfold importChain
      rw [List.getLast?_cons, hread, hvalidate]
      exact fun h => by cases h
    | none =>
      have hcompare : Node.validateL1Messages node.db (first :: rest) =
          compareHashes (hashesOf (first :: rest)) (node.db.expectedHashes first.number) :=
        node.db.validateL1Messages_eq (by simp)
      rw [hread] at hvalidate
      cases hresult : Node.validateL1Messages node.db (first :: rest) with
      | error e =>
        rw [← compareHashes_eq_missing, ← hcompare, hresult, and_iff_right rfl]
        have hfailed : validateImport node (faults 0) replies (first :: rest) = .error e := by
          rw [hread, hvalidate, validateL1Messages, hresult]
          rfl
        unfold importChain
        rw [List.getLast?_cons, hfailed]
      | ok u =>
        rw [← compareHashes_eq_missing, ← hcompare, hresult]
        refine iff_of_false (importChain_unblocked hl2 client received ?_ hash)
          (fun h => by cases h.2)
        rw [hread, hvalidate, validateL1Messages, hresult]
        rfl

theorem finishImport_missing {node : Node} (hl2 : node.syncState.l2 = false) (client : L2Client)
    (faults : Faults) (recorded : Option DatabaseError) (chain : List L2Block) (received : ℕ)
    (hash : B256) :
    (finishImport node client faults recorded chain received).2 = .error (.missing hash) ↔
      node.syncState = ⟨true, false⟩ ∧ (consolidateChain { node with syncState := ⟨true, true⟩ }
        client faults).2 = .error (.missing hash) := by
  have hstate : node.syncState = ⟨node.syncState.l1, false⟩ := by rw [← hl2]
  unfold finishImport
  rw [hstate]
  cases node.syncState.l1 with
  | false => exact iff_of_false (fun h => by cases h) (fun h => by cases h.1)
  | true =>
    simp only [SyncState.isSynced, Bool.false_eq_true, if_false, Bool.and_self, if_true, true_and]
    rcases consolidateChain { node with syncState := ⟨true, true⟩ } client faults with ⟨after, outcome⟩
    cases outcome with
    | error e => rfl
    | ok u =>
      exact iff_of_false (recordImport_unblocked after recorded chain received hash)
        (fun h => by cases h)

theorem importChain_unsynced_missing {node : Node} (hunsynced : node.syncState.isSynced = false)
    (client : L2Client) (faults : Faults) (chain : List L2Block) (received : ℕ)
    (replies : ImportReplies) (hash : B256) :
    (importChain node client faults chain received replies).2 = .error (.missing hash) ↔
      node.syncState = ⟨true, false⟩ ∧ ∃ last fcs response, chain.getLast? = some last ∧
        submitPayloads replies chain = .ok () ∧
        node.fcs.optimisticSync last.blockInfo replies.fcu = (fcs, .ok response) ∧
        response.status = .valid ∧
        (consolidateChain { node with fcs := fcs, syncState := ⟨true, true⟩ } client
          (fun i => faults (i + 2))).2 = .error (.missing hash) := by
  have hvalidate : validateImport node (faults 0) replies chain = submitPayloads replies chain := by
    rw [validateImport, hunsynced]
    rfl
  cases hl2 : node.syncState.l2 with
  | true =>
    refine iff_of_false (importChain_unblocked hl2 client received hvalidate hash) ?_
    rintro ⟨hstate, -⟩
    rw [hstate] at hl2
    cases hl2
  | false =>
    unfold importChain
    cases hlast : chain.getLast? with
    | none => exact iff_of_false (fun h => by cases h) (by simp)
    | some last =>
      simp only [hvalidate, hl2, Bool.false_eq_true, if_false, Option.some.injEq]
      cases hsubmit : submitPayloads replies chain with
      | error e =>
        have hsubmitted := submitPayloads_unblocked replies chain
        rw [hsubmit] at hsubmitted
        exact iff_of_false (hsubmitted hash) (by simp)
      | ok u =>
        rcases hresult : node.fcs.optimisticSync last.blockInfo replies.fcu with ⟨fcs, outcome⟩
        cases outcome with
        | error e =>
          refine iff_of_false (e.toHalt_unblocked hash) ?_
          rintro ⟨-, last', fcs', response', rfl, -, hresult', -⟩
          cases hresult.symm.trans hresult'
        | ok response =>
          cases hstatus : response.status with
          | valid =>
            have hl2 : ({ node with fcs := fcs } : Node).syncState.l2 = false := hl2
            simp only [hstatus]
            refine (finishImport_missing hl2 client _ _ chain received hash).trans ?_
            constructor
            · rintro ⟨hstate, h⟩
              exact ⟨hstate, last, fcs, response, rfl, trivial, hresult, hstatus, h⟩
            · rintro ⟨hstate, last', fcs', response', rfl, -, hresult', -, h⟩
              cases hresult.symm.trans hresult'
              exact ⟨hstate, h⟩
          | _ =>
            refine iff_of_false ?_ ?_
            · simp only [hstatus]
              exact fun h => by cases h
            rintro ⟨-, last', fcs', response', rfl, -, hresult', hvalid, -⟩
            cases hresult.symm.trans hresult'
            rw [hstatus] at hvalid
            cases hvalid

theorem importChain_missing {node : Node} (hunique : node.db.HashesUnique) (client : L2Client)
    (faults : Faults) (chain : List L2Block) (received : ℕ) (replies : ImportReplies)
    (hash : B256) :
    (importChain node client faults chain received replies).2 = .error (.missing hash) ↔
      MissesOf node client faults replies chain hash := by
  cases hsynced : node.syncState.isSynced with
  | true =>
    rw [importChain_synced_missing hsynced]
    constructor
    · rintro ⟨first, hfirst, hread, h⟩
      exact .synced first hsynced hfirst hread h
    · intro h
      cases h with
      | synced first _ hfirst hread h => exact ⟨first, hfirst, hread, h⟩
      | consolidated _ _ _ _ hunsynced =>
        rw [hunsynced] at hsynced
        cases hsynced
  | false =>
    have hchain (fcs : ForkchoiceState) := consolidateChain_missing
      { node with fcs := fcs, syncState := ⟨true, true⟩ } hunique client (fun i => faults (i + 2)) hash
    rw [importChain_unsynced_missing hsynced]
    constructor
    · rintro ⟨hunsynced, last, fcs, response, hlast, hsubmitted, hhead, hvalid, h⟩
      obtain ⟨⟨latest, hlatest⟩, h⟩ := (hchain fcs).1 h
      exact .consolidated last fcs response latest hunsynced hlast hsubmitted hhead hvalid hlatest h
    · intro h
      cases h with
      | synced _ hsynced' =>
        rw [hsynced] at hsynced'
        cases hsynced'
      | consolidated last fcs response latest hunsynced hlast hsubmitted hhead hvalid hlatest h =>
        exact ⟨hunsynced, last, fcs, response, hlast, hsubmitted, hhead, hvalid,
          (hchain fcs).2 ⟨⟨latest, hlatest⟩, h⟩⟩

end Faulty

/-! ### The import of a peer's block -/

theorem blockAt_unblocked (client : L2Client) (number : ℕ) :
    Unblocked (Node.blockAt client number) := by
  unfold Node.blockAt
  split
  · exact fun _ h => by cases h
  · exact fun _ h => by cases h
  · exact .ok _

theorem commonAncestor_unblocked (client : L2Client) (headers : List L2Block) :
    Unblocked (commonAncestor client headers) := by
  induction headers with
  | nil => exact .ok none
  | cons header rest ih =>
    refine (blockAt_unblocked client header.number).bind ?_
    intro current
    split
    · exact .ok (some 0)
    · exact ih.bind (fun index => .ok _)

theorem reconcileFork_unblocked (sources : BlockSources) (safe fuel : ℕ) (chain : List L2Block) :
    Unblocked (reconcileFork sources safe fuel chain) := by
  induction fuel generalizing chain with
  | zero =>
    unfold reconcileFork
    split
    · exact fun _ h => by cases h
    split
    · exact .ok _
    · exact fun _ h => by cases h
  | succ fuel ih =>
    unfold reconcileFork
    split
    · exact fun _ h => by cases h
    split
    · refine (commonAncestor_unblocked sources.client _).bind ?_
      intro index
      cases index with
      | some index => exact .ok _
      | none => exact ih _
    · exact fun _ h => by cases h

theorem decidePeerBlock_unblocked (fcs : ForkchoiceState) (optimisticSyncThreshold : ℕ)
    (sources : BlockSources) (peer : PeerBlock) :
    Unblocked (decidePeerBlock fcs optimisticSyncThreshold sources peer) := by
  unfold decidePeerBlock
  simp only
  split
  · exact .ok _
  split
  · exact .ok _
  split
  · exact Abort.toHalt_unblocked _
  split
  · exact .ok _
  split
  · unfold decideAboveHead
    simp only
    split
    · exact fun _ h => by cases h
    split
    · exact .ok _
    · exact reconcileFork_unblocked sources _ _ _
  · refine (blockAt_unblocked sources.client _).bind ?_
    intro current
    split
    · exact .ok _
    split
    · exact fun _ h => by cases h
    refine (blockAt_unblocked sources.client _).bind ?_
    intro head
    split
    · exact .ok _
    split
    · exact fun _ h => by cases h
    · split
      · exact .ok _
      · exact fun _ h => by cases h
    · exact reconcileFork_unblocked sources _ _ _

namespace Faulty

theorem startOptimisticSync_unblocked (node : Node) (fault : Option DatabaseError)
    (target : BlockInfo) (reply : Reply ForkchoiceUpdated) :
    Unblocked (startOptimisticSync node fault target reply).2 := by
  unfold startOptimisticSync
  simp only
  split
  · exact EngineError.toHalt_unblocked _
  split
  · exact Abort.toHalt_unblocked _
  · exact .ok ()

/-- An import ends with a missing message exactly where one is missing before it. -/
theorem importPeerBlock_missing {node : Node} (hunique : node.db.HashesUnique)
    (config : ChainOrchestratorConfig) (faults : Faults) (received : PeerImport) (hash : B256) :
    (importPeerBlock node config faults received).2 = .error (.missing hash) ↔
      Misses node config faults received hash := by
  have hunblocked := decidePeerBlock_unblocked node.fcs config.optimisticSyncThreshold
    received.sources received.peer
  unfold importPeerBlock Misses
  simp only
  cases hdecision : decidePeerBlock node.fcs config.optimisticSyncThreshold received.sources
      received.peer with
  | error e =>
    rw [hdecision] at hunblocked
    refine iff_of_false ?_ (by simp)
    exact fun h => hunblocked hash (congrArg Except.error (Except.error.inj h))
  | ok decision =>
    cases decision with
    | extendChain chain =>
      simp only [importChain_missing hunique, Except.ok.injEq, exists_and_left, exists_eq_left',
        PeerDecision.imported, Option.some.injEq]
    | reorgChain chain =>
      simp only [importChain_missing hunique, Except.ok.injEq, exists_and_left, exists_eq_left',
        PeerDecision.imported, Option.some.injEq]
    | optimisticSync target =>
      refine iff_of_false (startOptimisticSync_unblocked node _ target _ hash) ?_
      simp [PeerDecision.imported]
    | _ => exact iff_of_false (fun h => by cases h) (by simp [PeerDecision.imported])

end Faulty

theorem Db.hashesUnique_iff {db : Db} : db.HashesUnique ↔ db.storedHashes.Nodup := by
  have hhashes : db.storedHashes = db.l1Messages.rows.map L1MessageRow.hash := by
    rw [storedHashes, messageColumns, List.map_map]
    rfl
  rw [hhashes]
  constructor
  · intro hunique
    exact db.l1Messages.unique.of_map.map_on hunique
  · intro hnodup
    exact List.inj_on_of_nodup_map hnodup

theorem Faulty.handleL1Message_hashesUnique {node : Node} (hunique : node.db.HashesUnique)
    (config : ChainOrchestratorConfig) (faults : Faults) (message : TxL1Message)
    (l1BlockInfo : BlockInfo) :
    (handleL1Message node config faults message l1BlockInfo).1.db.HashesUnique := by
  rw [Db.hashesUnique_iff] at hunique ⊢
  rcases handleL1Message_storedHashes node config faults message l1BlockInfo with
    hsame | ⟨-, hnew, hafter⟩
  · rw [hsame]
    exact hunique
  · rw [hafter, ← List.concat_eq_append]
    exact hunique.concat hnew

end RollupNode
