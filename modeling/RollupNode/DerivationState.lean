import RollupNode.HandlerFrames

set_option autoImplicit false

/-! What consolidation does to the part of the node that derivation rests on. -/
namespace RollupNode
open RelationalTable ExceptTraversal

def BatchCommitRow.batchInfo (r : BatchCommitRow) : BatchInfo := ⟨r.index, r.hash⟩

theorem BatchCommitRow.hash_processing (r : BatchCommitRow) :
    hash { r with status := .processing } = r.hash := rfl

namespace DerivationState

def fetch (s : DerivationState) (p : BatchCommitRow → Bool) (target : BatchStatus) :
    DerivationState :=
  { s with
    batches := s.batches.updateWhere p (fun r => { r with status := .processing })
      BatchCommitRow.hash_processing
    pipeline := s.pipeline ++
      (orderBy BatchCommitRow.index (s.batches.select p)).map (fun r => ⟨r.batchInfo, target⟩) }

def fetchCommitted (s : DerivationState) : DerivationState :=
  s.fetch (fun r => r.status = .committed) .consolidated

end DerivationState

theorem Db.unwind_batchCommits {db db' : Db} {n : ℕ} {result : UnwindResult}
    (h : db.unwind n = .ok (db', result)) :
    db'.batchCommits = (db.withoutAbove n).batchCommits := by
  obtain ⟨rfl, -⟩ := unwind_ok h
  cases db.loweredHead n <;> rfl

theorem Node.push_fetched_derivation (node : Node) (db : Db) (p : BatchCommitRow → Bool)
    (target : BatchStatus) :
    (({ node with db := (db.fetchAndUpdate p).1 }).push (db.fetchAndUpdate p).2 target).derivation =
      DerivationState.fetch { node.derivation with batches := db.batchCommits } p target := by
  simp only [Node.derivation, Node.push, Db.fetchAndUpdate, DerivationState.fetch, List.map_map]
  rfl

/-! ### Consolidation of the chain -/

structure Consolidation where
  client : L2Client
  faults : Faults
  db : Db
  fcs : ForkchoiceState

/-- The client has the blocks of each chunk, they list the next messages of the queue, and the
database does not fail. -/
def ChunksServed (client : L2Client) : Faults → Db → List (List ℕ) → Prop
  | _, _, [] => True
  | faults, db, chunk :: chunks => ∃ blocks db', chunk.mapM (Node.blockAt client) = .ok blocks ∧
      faults 0 = none ∧ Node.validateL1Messages db blocks = .ok () ∧ faults 1 = none ∧
      db.updateL1MessagesFromL2Blocks (blocks.map L2Block.withL1Messages) = .ok db' ∧
      ChunksServed client (fun i => faults (i + 2)) db' chunks

def Consolidation.Served (c : Consolidation) : Prop :=
  ChunksServed c.client c.faults c.db (Faulty.unsafeChunks c.fcs) ∧
    c.faults (2 * (Faulty.unsafeChunks c.fcs).length) = none

namespace Faulty

theorem validateL1Messages_eq_ok {fault : Option DatabaseError} {db : Db}
    {blocks : List L2Block} : validateL1Messages fault db blocks = .ok () ↔
      fault = none ∧ Node.validateL1Messages db blocks = .ok () := by
  cases fault with
  | none => simp [validateL1Messages]
  | some e => simp [validateL1Messages]

theorem consolidateChunk_eq_ok {client : L2Client} {faults : Faults} {db db' : Db}
    {numbers : List ℕ} : consolidateChunk client faults db numbers = (db', .ok ()) ↔
      ∃ blocks, numbers.mapM (Node.blockAt client) = .ok blocks ∧ faults 0 = none ∧
        Node.validateL1Messages db blocks = .ok () ∧ faults 1 = none ∧
        db.updateL1MessagesFromL2Blocks (blocks.map L2Block.withL1Messages) = .ok db' := by
  unfold consolidateChunk
  cases hblocks : numbers.mapM (Node.blockAt client) with
  | error e => simp
  | ok blocks =>
    simp only [Except.ok.injEq, exists_eq_left']
    cases hvalid : validateL1Messages (faults 0) db blocks with
    | error e =>
      have hnot : ¬(faults 0 = none ∧ Node.validateL1Messages db blocks = .ok ()) := by
        rw [← validateL1Messages_eq_ok, hvalid]
        simp
      constructor
      · intro h
        simp only at h
        split at h
        · cases h
        · cases h
      · rintro ⟨hfault, hblocks, -⟩
        exact absurd ⟨hfault, hblocks⟩ hnot
    | ok u =>
      obtain ⟨hfault, hblocks⟩ := validateL1Messages_eq_ok.1 hvalid
      simp only [hfault, hblocks, true_and]
      rw [← Db.call_eq_ok]
      cases Db.call (faults 1)
          (db.updateL1MessagesFromL2Blocks (blocks.map L2Block.withL1Messages)) with
      | error e => simp
      | ok stored => simp

theorem consolidateChunks_eq_ok (client : L2Client) (faults : Faults) (db : Db)
    (chunks : List (List ℕ)) : (consolidateChunks client faults db chunks).2 = .ok () ↔
      ChunksServed client faults db chunks := by
  induction chunks generalizing faults db with
  | nil => exact iff_of_true rfl trivial
  | cons chunk chunks ih =>
    simp only [consolidateChunks, ChunksServed]
    cases hchunk : consolidateChunk client faults db chunk with
    | mk db' ended =>
      cases ended with
      | error e =>
        refine iff_of_false (fun h => by cases h) ?_
        rintro ⟨blocks, stored, hblocks, hread, hvalid, hwrite, hstored, -⟩
        rw [consolidateChunk_eq_ok.2 ⟨blocks, hblocks, hread, hvalid, hwrite, hstored⟩] at hchunk
        cases hchunk
      | ok u =>
        refine (ih (fun i => faults (i + 2)) db').trans ?_
        obtain ⟨blocks, hblocks, hread, hvalid, hwrite, hstored⟩ := consolidateChunk_eq_ok.1 hchunk
        constructor
        · intro h
          exact ⟨blocks, db', hblocks, hread, hvalid, hwrite, hstored, h⟩
        · rintro ⟨blocks', stored', hblocks', -, -, -, hstored', h⟩
          rw [hblocks] at hblocks'
          cases hblocks'
          rw [hstored] at hstored'
          cases hstored'
          exact h

theorem consolidateChain_derivation (node : Node) (client : L2Client) (faults : Faults) :
    let served := (Consolidation.mk client faults node.db node.fcs).Served
    (served ∧ (consolidateChain node client faults).1.derivation =
        node.derivation.fetchCommitted ∧ (consolidateChain node client faults).2 = .ok ()) ∨
      (¬served ∧ (consolidateChain node client faults).1.derivation = node.derivation ∧
        (consolidateChain node client faults).2 ≠ .ok ()) := by
  have hbatches := (consolidateChunks_remaps client faults node.db (unsafeChunks node.fcs)).batches
  have hserved := consolidateChunks_eq_ok client faults node.db (unsafeChunks node.fcs)
  unfold consolidateChain Consolidation.Served
  cases hchunks : consolidateChunks client faults node.db (unsafeChunks node.fcs) with
  | mk db ended =>
    rw [hchunks] at hbatches hserved
    simp only at hbatches hserved
    cases ended with
    | error e =>
      refine Or.inr ⟨fun h => ?_, ?_, fun h => by cases h⟩
      · cases hserved.2 h.1
      · simp only [Node.derivation, hbatches]
    | ok u =>
      simp only
      cases hfault : faults (2 * (unsafeChunks node.fcs).length) with
      | some e =>
        refine Or.inr ⟨fun h => absurd h.2 (Option.some_ne_none e), ?_, fun h => by cases h⟩
        simp only [Node.transact, Node.derivation, hbatches]
      | none =>
        refine Or.inl ⟨⟨hserved.1 rfl, rfl⟩, ?_, rfl⟩
        refine (node.push_fetched_derivation db _ _).trans ?_
        rw [hbatches]
        rfl

end Faulty

/-- The consolidation that an import runs: L1 is synced, and the Engine answers `VALID` to the
optimistic head. -/
def importConsolidation (node : Node) (client : L2Client) (faults : Faults)
    (chain : List L2Block) (replies : ImportReplies) : Option Consolidation :=
  match node.syncState, chain.getLast?, submitPayloads replies chain with
  | ⟨true, false⟩, some last, .ok _ =>
    match node.fcs.optimisticSync last.blockInfo replies.fcu with
    | (fcs, .ok response) =>
      if response.status = .valid then some ⟨client, fun i => faults (i + 2), node.db, fcs⟩
      else none
    | _ => none
  | _, _, _ => none

def peerConsolidation (config : ChainOrchestratorConfig) (node : Node) (faults : Faults)
    (received : PeerImport) : Option Consolidation :=
  match decidePeerBlock node.fcs config.optimisticSyncThreshold received.sources received.peer with
  | .error _ => none
  | .ok decision => decision.imported.bind (fun chain =>
      importConsolidation node received.sources.client faults chain received.replies)

/-- What becoming synced, or falling behind, does to the derivation. -/
inductive SyncMoves (s : DerivationState) (c : Option Consolidation) : DerivationState → Prop where
  | keeps : SyncMoves s c s
  | leaves : SyncMoves s c { s with syncState := { s.syncState with l2 := false } }
  | marks (flags : SyncState) (hkept : s.syncState.isSynced = true → flags = s.syncState)
      (hfailed : flags.isSynced = true → ∃ d ∈ c, ¬d.Served) :
      SyncMoves s c { s with syncState := flags }
  | consolidates (flags : SyncState) (hsynced : flags.isSynced = true) :
      SyncMoves s c ({ s with syncState := flags }).fetchCommitted

namespace Faulty

theorem finishImport_syncMoves (node : Node) (client : L2Client) (faults : Faults)
    (recorded : Option DatabaseError) (chain : List L2Block) (received : ℕ)
    {c : Option Consolidation}
    (h : node.syncState = ⟨true, false⟩ → c = some ⟨client, faults, node.db, node.fcs⟩) :
    SyncMoves node.derivation c
      (finishImport node client faults recorded chain received).1.derivation := by
  unfold finishImport
  split
  · rw [(recordImport_leaves node recorded chain received).derivation]
    exact .keeps
  rename_i hl2
  simp only
  have hunsynced (hs : node.syncState.isSynced = true) :
      (⟨node.syncState.l1, true⟩ : SyncState) = node.syncState := by
    rw [SyncState.isSynced, Bool.and_eq_true] at hs
    exact absurd hs.2 hl2
  split
  · rename_i hsynced
    have hflags : node.syncState = ⟨true, false⟩ := by
      rw [SyncState.isSynced, Bool.and_eq_true] at hsynced
      cases hstate : node.syncState with
      | mk l1 l2 =>
        rw [hstate] at hl2 hsynced
        simp only [Bool.not_eq_true] at hl2 hsynced
        rw [hl2, hsynced.1]
    have hchain := consolidateChain_derivation
      { node with syncState := { node.syncState with l2 := true } } client faults
    rcases hchain with ⟨-, hstate, hok⟩ | ⟨hserved, hstate, hok⟩
    · split
      · rename_i hresult
        rw [hresult] at hok
        cases hok
      · rename_i hresult
        rw [hresult] at hstate
        rw [(recordImport_leaves _ recorded chain received).derivation, hstate]
        exact .consolidates _ hsynced
    · split
      · rename_i hresult
        rw [hresult] at hstate
        rw [hstate]
        exact .marks _ hunsynced (fun _ => ⟨_, h hflags, hserved⟩)
      · rename_i hresult
        rw [hresult] at hok
        exact absurd rfl hok
  · rename_i hsynced
    exact .marks _ hunsynced (fun hs => absurd hs hsynced)

theorem importChain_syncMoves (node : Node) (client : L2Client) (faults : Faults)
    (chain : List L2Block) (received : ℕ) (replies : ImportReplies) :
    SyncMoves node.derivation (importConsolidation node client faults chain replies)
      (importChain node client faults chain received replies).1.derivation := by
  unfold importChain
  split
  · exact .keeps
  rename_i last hlast
  split
  · exact .keeps
  rename_i hvalidate
  dsimp only
  generalize hresult : (if node.syncState.l2 = true then
    node.fcs.updateFcs (some last.blockInfo) none none replies.fcu
    else node.fcs.optimisticSync last.blockInfo replies.fcu) = result
  split
  · exact .keeps
  rename_i response hresponse
  split
  · exact .keeps
  · rename_i hvalid
    refine finishImport_syncMoves { node with fcs := result.1 } client _ _ chain received ?_
    intro hflags
    have hflags : node.syncState = ⟨true, false⟩ := hflags
    have hsubmitted : submitPayloads replies chain = .ok () := by
      rw [validateImport, hflags] at hvalidate
      exact hvalidate
    have hsync : node.fcs.optimisticSync last.blockInfo replies.fcu = (result.1, .ok response) := by
      rw [hflags] at hresult
      rw [← hresponse]
      exact hresult
    simp only [importConsolidation, hflags, hlast, hsubmitted, hsync, if_pos hvalid]
  · exact .keeps

theorem startOptimisticSync_syncMoves (node : Node) (fault : Option DatabaseError)
    (target : BlockInfo) (reply : Reply ForkchoiceUpdated) (c : Option Consolidation) :
    SyncMoves node.derivation c (startOptimisticSync node fault target reply).1.derivation := by
  unfold startOptimisticSync
  simp only
  split
  · exact .keeps
  split
  · exact .leaves
  · rename_i h
    simp only [Node.derivation, (Db.remaps_of_purge (Db.call_eq_ok.1 h).2).batches]
    exact .leaves

theorem importPeerBlock_syncMoves (config : ChainOrchestratorConfig) (node : Node)
    (faults : Faults) (received : PeerImport) :
    SyncMoves node.derivation (peerConsolidation config node faults received)
      (importPeerBlock node config faults received).1.derivation := by
  unfold importPeerBlock peerConsolidation
  simp only
  cases decidePeerBlock node.fcs config.optimisticSyncThreshold received.sources
      received.peer with
  | error e => exact .keeps
  | ok decision =>
    cases decision with
    | optimisticSync target => exact startOptimisticSync_syncMoves node (faults 0) target _ _
    | extendChain chain => exact importChain_syncMoves node _ faults chain _ _
    | reorgChain chain => exact importChain_syncMoves node _ faults chain _ _
    | _ => exact .keeps

end Faulty

def syncedConsolidation (node : Node) (client : L2Client) (faults : Faults) :
    Option Consolidation :=
  if node.syncState.l2 then some ⟨client, faults, node.db, node.fcs⟩ else none

theorem Faulty.handleSynced_syncMoves (node : Node) (client : L2Client) (faults : Faults) :
    SyncMoves node.derivation (syncedConsolidation node client faults)
      (handleSynced node client faults).1.derivation := by
  have hkept (hs : node.syncState.isSynced = true) :
      (⟨true, node.syncState.l2⟩ : SyncState) = node.syncState := by
    rw [SyncState.isSynced, Bool.and_eq_true] at hs
    rw [← hs.1]
  unfold handleSynced
  simp only
  split
  · rename_i hsynced
    have hl2 : node.syncState.l2 = true := by
      rw [SyncState.isSynced, Bool.and_eq_true] at hsynced
      exact hsynced.2
    rcases consolidateChain_derivation
        { node with syncState := { node.syncState with l1 := true } } client faults with
      ⟨-, hstate, -⟩ | ⟨hserved, hstate, -⟩
    · rw [hstate]
      exact .consolidates _ hsynced
    · rw [hstate]
      refine .marks _ hkept (fun _ => ⟨_, ?_, hserved⟩)
      rw [syncedConsolidation, if_pos hl2]
      rfl
  · rename_i hsynced
    exact .marks _ hkept (fun hs => absurd hs hsynced)

end RollupNode
