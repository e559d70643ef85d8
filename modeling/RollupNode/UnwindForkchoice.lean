import RollupNode.Orchestrator

set_option autoImplicit false

/-! The Engine's safe block after the L1 events that can lower the database's. -/
namespace RollupNode
open RelationalTable ExceptTraversal

inductive UnwindEvent where
  | l1Reorg (blockNumber : ℕ) (client : L2Client) (reply : Reply ForkchoiceUpdated)
  | batchRevert (startIndex endIndex : ℕ) (l1BlockInfo : BlockInfo) (reply : Reply ForkchoiceUpdated)
  | revertToL1Block (blockNumber : ℕ) (reply : Reply ForkchoiceUpdated)

/-- The client returns the block `first` and every block above it up to `last`. -/
def L2Client.Serves (client : L2Client) (first last : ℕ) : Prop :=
  ∀ k, k = first ∨ first < k ∧ k ≤ last → ∃ b, client.blockByNumber k = .ok (some b)

namespace Db

theorem mem_withoutAbove_of_not_movesSafe {db : Db} {n : ℕ} (h : ¬db.movesSafe n)
    (b : L2BlockRow) : b ∈ (db.withoutAbove n).l2Blocks ↔ b ∈ db.l2Blocks := by
  have hremoves : ∀ hash, ¬db.Removes n hash := by
    rintro hash ⟨r, hr, hb, _⟩
    exact h ⟨r, hr, Or.inl hb⟩
  have hrestores : ∀ hash, ¬db.Restores n hash := by
    rintro hash ⟨r, hr, _, hrev, _⟩
    exact h ⟨r, hr, Or.inr hrev⟩
  rw [mem_withoutAbove_l2Blocks]
  constructor
  · rintro ⟨c, hc, _, ⟨hres, _⟩ | ⟨_, rfl⟩⟩
    · exact absurd hres (hrestores _)
    · exact hc
  · intro hb
    exact ⟨b, hb, hremoves _, Or.inr ⟨hrestores _, rfl⟩⟩

theorem safe_number_of_mem {db db' : Db} (h : ∀ b, b ∈ db'.l2Blocks ↔ b ∈ db.l2Blocks)
    {safe : BlockInfo} {batch : BatchInfo} (hsafe : db'.getLatestSafeL2Info = .ok (safe, batch)) :
    ∃ safe' batch', db.getLatestSafeL2Info = .ok (safe', batch') ∧ safe'.number = safe.number := by
  obtain ⟨r, hr, hlive, rfl, rfl, hmax⟩ := getLatestSafeL2Info_spec hsafe
  have hmem := (h r).1 hr
  obtain ⟨⟨safe', batch'⟩, hok⟩ := db.getLatestSafeL2Info_ok_iff.2 ⟨r, hmem, hlive⟩
  obtain ⟨q, hq, hqlive, rfl, rfl, hqmax⟩ := getLatestSafeL2Info_spec hok
  refine ⟨q.blockInfo, q.batchInfo, hok, ?_⟩
  have hle : r.blockNumber ≤ q.blockNumber := hqmax r hmem hlive
  have hge : q.blockNumber ≤ r.blockNumber := hmax q ((h q).2 hq) hqlive
  exact le_antisymm hge hle

end Db

namespace Node

def process (node : Node) : UnwindEvent → Processed
  | .l1Reorg blockNumber client reply => .ofNotification (node.handleL1Reorg blockNumber client reply)
  | .batchRevert startIndex endIndex l1BlockInfo reply =>
    .ofNotification (node.handleBatchRevert startIndex endIndex l1BlockInfo reply)
  | .revertToL1Block blockNumber reply =>
    .ofRevertCommand node.held.isSome (node.revertToL1Block blockNumber reply)

/-- The Engine's safe block is not above the database's, except for what is final. -/
def SafeFollows (node : Node) : Prop :=
  ∀ safe batch, node.db.getLatestSafeL2Info = .ok (safe, batch) →
    node.fcs.safe.number ≤ max safe.number node.fcs.finalized.number

variable {node node' : Node}

theorem SafeFollows.of_same_rows (h : node.SafeFollows)
    (hfcs : node'.fcs.safe = node.fcs.safe ∧ node'.fcs.finalized = node.fcs.finalized)
    (hrows : ∀ b, b ∈ node'.db.l2Blocks ↔ b ∈ node.db.l2Blocks) : node'.SafeFollows := by
  intro safe batch hsafe
  obtain ⟨safe', batch', hok, hnumber⟩ := Db.safe_number_of_mem hrows hsafe
  have hle := h safe' batch' hok
  rw [hfcs.1, hfcs.2, ← hnumber]
  exact hle

theorem safeFollows_of_safe_eq {safe : BlockInfo} {batch : BatchInfo}
    (hsafe : node.db.getLatestSafeL2Info = .ok (safe, batch))
    (hle : node.fcs.safe.number ≤ max safe.number node.fcs.finalized.number) :
    node.SafeFollows := by
  intro safe' batch' hsafe'
  rw [hsafe] at hsafe'
  cases hsafe'
  exact hle

theorem updateFcsAfterUnwind_cases (node : Node) (operation : String)
    (head safe : Option BlockInfo) (reply : Reply ForkchoiceUpdated) :
    (∃ engineSafe reason, (node.updateFcsAfterUnwind operation head safe reply).2 =
        .error (.error (.unwindForkchoiceUpdateFailed operation safe engineSafe reason))) ∨
      ∃ fcs, node.fcs.update head safe none = .ok fcs ∧
        node.updateFcsAfterUnwind operation head safe reply = ({ node with fcs := fcs }, .ok ()) := by
  unfold updateFcsAfterUnwind
  cases hresult : node.fcs.updateFcsChecked head safe none reply with
  | mk fcs result =>
    cases result with
    | error e => exact Or.inl ⟨_, _, rfl⟩
    | ok response =>
      simp only
      split
      · rename_i hvalid
        have hok := ForkchoiceState.updateFcsChecked_valid (congrArg Prod.snd hresult) hvalid
        rw [hresult] at hok
        exact Or.inr ⟨fcs, hok, rfl⟩
      · exact Or.inl ⟨_, _, rfl⟩
      · exact Or.inl ⟨_, _, rfl⟩
      · exact Or.inl ⟨_, _, rfl⟩

/-- What an unwind leaves: the Engine and the sequencer where they were, the blocks and the
report of the database. -/
structure Unwound (node node' : Node) (n : ℕ) (result : UnwindResult) : Prop where
  fcs : node'.fcs = node.fcs
  sequencer : node'.sequencer = node.sequencer
  blocks : node'.db.l2Blocks = (node.db.withoutAbove n).l2Blocks
  l1BlockNumber : result.l1BlockNumber = n
  head : result.l2HeadBlockNumber = node.db.loweredHead n
  safe : node.db.SafeReport n result.l2SafeBlockInfo

theorem revalidateHeld_db (db : Db) (n : ℕ) (held : Option BatchDerivationResult) :
    ∃ batchCommits, (revalidateHeld db n held).1 = { db with batchCommits := batchCommits } := by
  unfold revalidateHeld
  split
  · exact ⟨_, rfl⟩
  split
  · exact ⟨_, rfl⟩
  · exact ⟨_, rfl⟩
  · exact ⟨_, rfl⟩

/-- The node once its held batch was checked against the unwound rows. -/
def revalidated (node : Node) (checked : Db × HeldReorgOutcome) : Node :=
  match checked.2 with
  | .invalidated _ _ => { node with db := checked.1, held := none, attemptScheduled := false }
  | _ => { node with db := checked.1 }

theorem revalidated_eq (node : Node) (checked : Db × HeldReorgOutcome) :
    ∃ held scheduled, node.revalidated checked =
      { node with db := checked.1, held := held, attemptScheduled := scheduled } := by
  unfold revalidated
  split
  · exact ⟨_, _, rfl⟩
  · exact ⟨_, _, rfl⟩

variable {n : ℕ} {result : UnwindResult}

theorem unwindAndRevalidateHeldBatch_ok {outcome : HeldReorgOutcome}
    (h : node.unwindAndRevalidateHeldBatch n = .ok (node', result, outcome)) :
    ∃ db, node.db.unwind n = .ok (db, result) ∧ outcome = (revalidateHeld db n node.held).2 ∧
      node' = node.revalidated (revalidateHeld db n node.held) := by
  obtain ⟨⟨db, report⟩, hunwind, h⟩ := bind_eq_ok.1 h
  cases h
  exact ⟨db, hunwind, rfl, rfl⟩

theorem unwound_of_ok {outcome : HeldReorgOutcome}
    (h : node.unwindAndRevalidateHeldBatch n = .ok (node', result, outcome)) :
    Unwound node node' n result := by
  obtain ⟨db, hunwind, -, rfl⟩ := unwindAndRevalidateHeldBatch_ok h
  obtain ⟨rfl, hnumber, hhead, hsafe⟩ := Db.unwind_ok hunwind
  obtain ⟨held, scheduled, hnode⟩ := node.revalidated_eq (revalidateHeld
    ((node.db.withoutAbove n).withHead (node.db.loweredHead n)) n node.held)
  obtain ⟨batchCommits, hchecked⟩ := revalidateHeld_db
    ((node.db.withoutAbove n).withHead (node.db.loweredHead n)) n node.held
  rw [hnode, hchecked]
  exact ⟨rfl, rfl, Db.withHead_l2Blocks _ _, hnumber, hhead, hsafe⟩

theorem panic_of_unwind_error {e : Abort} (h : node.unwindAndRevalidateHeldBatch n = .error e) :
    ∃ message, e = .panic message := by
  rcases bind_eq_error.1 h with hunwind | ⟨_, -, h⟩
  swap
  · cases h
  rw [Db.unwind_eq, Db.recomputedSafe] at hunwind
  split at hunwind
  · unfold Db.getLatestSafeL2Info at hunwind
    split at hunwind
    · cases hunwind
    · cases hunwind
      exact ⟨_, rfl⟩
  · cases hunwind

/-- An administrative unwind that gets past the database moves the Engine, and schedules the
attempt of a held batch once it has. -/
theorem revertToL1Block_cases (node : Node) (n : ℕ) (reply : Reply ForkchoiceUpdated) :
    let cleared : Node := { node with
      syncState := { node.syncState with l1 := false }
      attemptScheduled := false }
    (∃ e, node.revertToL1Block n reply = (cleared, .error e)) ∨
      ∃ unwound result held fcs,
        cleared.unwindAndRevalidateHeldBatch n = .ok (unwound, result, held) ∧
        ((∃ e, node.revertToL1Block n reply = ({ unwound with fcs := fcs }, .error e)) ∨
          node.revertToL1Block n reply =
            (({ unwound with fcs := fcs } : Node).scheduleIfSurvived held, .ok ())) := by
  intro cleared
  simp only [revertToL1Block]
  cases hunwind : cleared.unwindAndRevalidateHeldBatch n with
  | error e => exact Or.inl ⟨_, rfl⟩
  | ok unwound =>
    obtain ⟨unwound, result, held⟩ := unwound
    obtain ⟨fcs, hmoved⟩ := unwound.moveSafeAfterRevert_node reply result.l2SafeBlockInfo
    refine Or.inr ⟨unwound, result, held, fcs, rfl, ?_⟩
    simp only
    cases hresult : unwound.moveSafeAfterRevert reply result.l2SafeBlockInfo with
    | mk moved outcome =>
      rw [hresult] at hmoved
      obtain rfl : moved = _ := hmoved
      cases outcome with
      | error e => exact Or.inl ⟨e, rfl⟩
      | ok _ => exact Or.inr rfl

theorem Unwound.safeFollows {next : Node} (h : Unwound node node' n result)
    (hpre : node.db.movesSafe n ∨ node.SafeFollows) (hdb : next.db = node'.db)
    (hfinalized : next.fcs.finalized = node.fcs.finalized)
    (hkept : result.l2SafeBlockInfo = none → next.fcs.safe = node.fcs.safe)
    (hmoved : ∀ safe, result.l2SafeBlockInfo = some safe →
      next.fcs.safe.number ≤ max safe.number node.fcs.finalized.number) : next.SafeFollows := by
  have hblocks : next.db.l2Blocks = (node.db.withoutAbove n).l2Blocks := by
    rw [hdb]
    exact h.blocks
  generalize hreport : result.l2SafeBlockInfo = report at hkept hmoved
  have hsafe := h.safe
  rw [hreport] at hsafe
  cases hsafe with
  | unchanged hmoves =>
    have hfollows := hpre.resolve_left hmoves
    refine hfollows.of_same_rows ⟨hkept rfl, hfinalized⟩ ?_
    intro b
    rw [hblocks]
    exact Db.mem_withoutAbove_of_not_movesSafe hmoves b
  | recomputed safe batch hmoves hlatest =>
    rw [← Db.getLatestSafeL2Info_congr hblocks] at hlatest
    refine safeFollows_of_safe_eq hlatest ?_
    rw [hfinalized]
    exact hmoved safe rfl

theorem blockAt_of_served {client : L2Client} {k : ℕ} {b : L2Block}
    (h : client.blockByNumber k = .ok (some b)) :
    blockAt client k = .ok b := by
  unfold blockAt
  rw [h]

theorem collectRevertedTxsInRange_of_serves {client : L2Client} {first last : ℕ}
    (h : client.Serves first last) :
    collectRevertedTxsInRange client (first + 1) last = .ok () := by
  have hall : ∀ k ∈ List.range' (first + 1) (last + 1 - (first + 1)),
      ∃ b, blockAt client k = .ok b := by
    intro k hk
    rw [List.mem_range'_1] at hk
    obtain ⟨b, hb⟩ := h k (Or.inr (by omega))
    exact ⟨b, blockAt_of_served hb⟩
  obtain ⟨blocks, hblocks⟩ := mapM_ok_of_forall hall
  unfold collectRevertedTxsInRange
  rw [hblocks]
  rfl

theorem loweredHeadInfo_of_serves (node : Node) (client : L2Client) (head : Option ℕ)
    (h : ∀ k ∈ head, client.Serves k node.fcs.head.number) :
    ∃ node' info, node.loweredHeadInfo client head = (node', .ok info) ∧ node'.db = node.db ∧
      node'.fcs = node.fcs ∧ info.map BlockInfo.number = head ∧
      ∀ b ∈ info, ∀ block, client.blockByNumber b.number = .ok (some block) → b.hash = block.hash := by
  cases head with
  | none => exact ⟨node, none, rfl, rfl, rfl, rfl, fun b hb => by cases hb⟩
  | some number =>
    have hserves := h number rfl
    obtain ⟨block, hblock⟩ := hserves number (Or.inl rfl)
    refine ⟨node.cancelPayloadBuildingJob, some ⟨number, block.hash⟩, ?_, rfl, rfl, rfl, ?_⟩
    · have hcollected : collectRevertedTxsInRange client (number + 1)
          node.cancelPayloadBuildingJob.fcs.head.number = .ok () :=
        collectRevertedTxsInRange_of_serves hserves
      unfold loweredHeadInfo
      simp only [blockAt_of_served hblock, hcollected]
    · intro b hb other hother
      cases hb
      rw [hblock] at hother
      cases hother
      rfl

/-- The head of the reorged chain, as the database lowered it and the client serves it. -/
def HeadLowered (node : Node) (n : ℕ) (client : L2Client) (next : Node) : Prop :=
  ∀ number ∈ node.db.loweredHead n, next.fcs.head.number = number ∧
    ∀ block, client.blockByNumber number = .ok (some block) → next.fcs.head.hash = block.hash

theorem finishL1Reorg_cases (node : Node) (unwound : UnwindResult) (held : HeldReorgOutcome)
    (head : Option BlockInfo) (reply : Reply ForkchoiceUpdated) :
    (Processed.ofNotification (node.finishL1Reorg unwound held head reply)).stopped = true ∨
      ((node.finishL1Reorg unwound held head reply).1.db = node.db ∧
        (node.finishL1Reorg unwound held head reply).1.fcs =
          node.fcs.candidate head unwound.l2SafeBlockInfo none) := by
  obtain ⟨sequencer, hcancel⟩ := node.cancelJobAbove_node unwound.l1BlockNumber
  unfold finishL1Reorg
  simp only [hcancel, scheduleIfSurvived_eq]
  by_cases hnone : head = none ∧ unwound.l2SafeBlockInfo = none
  · refine Or.inr ?_
    rw [if_pos hnone, hnone.1, hnone.2]
    exact ⟨rfl, rfl⟩
  · rw [if_neg hnone]
    generalize hnext : ({ node with sequencer := sequencer } : Node) = next
    rcases next.updateFcsAfterUnwind_cases "L1 reorg" head unwound.l2SafeBlockInfo reply with
      ⟨engineSafe, reason, hfailed⟩ | ⟨fcs, hupdate, hdone⟩
    · refine Or.inl ?_
      cases hresult : next.updateFcsAfterUnwind "L1 reorg" head unwound.l2SafeBlockInfo reply with
      | mk after result =>
        rw [hresult] at hfailed
        cases hfailed
        rfl
    · refine Or.inr ?_
      rw [hdone, ← hnext]
      rw [← hnext] at hupdate
      exact ⟨rfl, (ForkchoiceState.update_eq_ok hupdate).1⟩

theorem handleL1Reorg_follows (node : Node) (n : ℕ) (client : L2Client)
    (reply : Reply ForkchoiceUpdated) (hpre : node.db.movesSafe n ∨ node.SafeFollows)
    (hserves : ∀ k ∈ node.db.loweredHead n, client.Serves k node.fcs.head.number) :
    (Processed.ofNotification (node.handleL1Reorg n client reply)).stopped = true ∨
      ((node.handleL1Reorg n client reply).1.SafeFollows ∧
        node.HeadLowered n client (node.handleL1Reorg n client reply).1) := by
  simp only [handleL1Reorg]
  cases hunwind : unwindAndRevalidateHeldBatch { node with attemptScheduled := false } n with
  | error e =>
    obtain ⟨message, rfl⟩ := panic_of_unwind_error hunwind
    exact Or.inl rfl
  | ok unwound =>
    obtain ⟨node₁, result, held⟩ := unwound
    have hunwound := unwound_of_ok hunwind
    have hfcs : node₁.fcs = node.fcs := hunwound.fcs
    have hhead : result.l2HeadBlockNumber = node.db.loweredHead n := hunwound.head
    obtain ⟨node₂, info, hlookup, hdb₂, hfcs₂, hnumber, hhash⟩ :=
      node₁.loweredHeadInfo_of_serves client result.l2HeadBlockNumber (by
        rw [hhead, hfcs]
        exact hserves)
    simp only [hlookup]
    rcases node₂.finishL1Reorg_cases result held info reply with hstopped | ⟨hdb, hmoved⟩
    · exact Or.inl hstopped
    · have hcandidate := hmoved.trans (congrArg
        (fun s : ForkchoiceState => s.candidate info result.l2SafeBlockInfo none) (hfcs₂.trans hfcs))
      refine Or.inr ⟨?_, ?_⟩
      · refine hunwound.safeFollows hpre (hdb.trans hdb₂) ?_ ?_ ?_
        · rw [hcandidate]
          rfl
        · intro hsafe
          rw [hcandidate, hsafe]
          rfl
        · intro safe hsafe
          rw [hcandidate, hsafe]
          exact le_max_left _ _
      · intro number hlowered
        rw [← hhead, ← hnumber] at hlowered
        obtain ⟨b, rfl, rfl⟩ := Option.map_eq_some_iff.1 hlowered
        rw [hcandidate]
        exact ⟨rfl, hhash b rfl⟩

theorem revertBatches_error {db : Db} {startIndex endIndex : ℕ} {l1BlockInfo : BlockInfo} {e : Abort}
    (h : revertBatches db startIndex endIndex l1BlockInfo = .error e)
    (hstored : ∃ stored, db.insertL1BlockInfo l1BlockInfo = .ok stored) :
    ∃ message, e = .panic message := by
  obtain ⟨stored, hinfo⟩ := hstored
  unfold revertBatches at h
  simp only [hinfo, bind, Except.bind] at h
  unfold Db.getLatestSafeL2Info at h
  split at h
  · rename_i e' hlatest
    cases h
    split at hlatest
    · cases hlatest
    · cases hlatest
      exact ⟨_, rfl⟩
  · cases h

theorem handleBatchRevert_follows (node : Node) (startIndex endIndex : ℕ) (l1BlockInfo : BlockInfo)
    (reply : Reply ForkchoiceUpdated) (hsynced : node.syncState.isSynced = true)
    (hpre : node.SafeFollows ∨ ∃ stored, node.db.insertL1BlockInfo l1BlockInfo = .ok stored) :
    (Processed.ofNotification
        (node.handleBatchRevert startIndex endIndex l1BlockInfo reply)).stopped = true ∨
      (node.handleBatchRevert startIndex endIndex l1BlockInfo reply).1.SafeFollows := by
  unfold handleBatchRevert
  cases hrevert : revertBatches node.db startIndex endIndex l1BlockInfo with
  | error e =>
    rcases hpre with hfollows | hstored
    · exact Or.inr hfollows
    · obtain ⟨message, rfl⟩ := revertBatches_error hrevert hstored
      exact Or.inl rfl
  | ok reverted =>
    obtain ⟨db, safe⟩ := reverted
    obtain ⟨-, batch, hlatest⟩ := revertBatches_ok hrevert
    simp only [hsynced, if_true]
    rcases updateFcsAfterUnwind_cases { node with db := db } "batch revert" none (some safe) reply with
      ⟨engineSafe, reason, hfailed⟩ | ⟨fcs, hupdate, hdone⟩
    · refine Or.inl ?_
      cases hresult : updateFcsAfterUnwind { node with db := db } "batch revert" none (some safe)
          reply with
      | mk after result =>
        rw [hresult] at hfailed
        cases hfailed
        rfl
    · refine Or.inr ?_
      rw [hdone]
      refine safeFollows_of_safe_eq hlatest ?_
      rw [(ForkchoiceState.update_eq_ok hupdate).1]
      exact le_max_left _ _

/-- The Engine answers `VALID` or `SYNCING` to the safe block that the unwind asks for, which
is not above the head. -/
def Adopts (node : Node) (reply : Reply ForkchoiceUpdated) (safe : BlockInfo) : Prop :=
  max safe.number node.fcs.finalized.number ≤ node.fcs.head.number ∧
    ∃ response, reply = .ok response ∧ (response.status = .valid ∨ response.status = .syncing)

theorem moveSafeAfterRevert_of_adopts {safe : BlockInfo} {reply : Reply ForkchoiceUpdated}
    (h : node.Adopts reply safe) :
    ∃ target : BlockInfo, target.number ≤ max safe.number node.fcs.finalized.number ∧
      node.moveSafeAfterRevert reply (some safe) =
        ({ node with fcs := { node.fcs with safe := target } }, .ok ()) := by
  obtain ⟨hhead, response, rfl, hstatus⟩ := h
  unfold moveSafeAfterRevert
  by_cases hle : node.fcs.finalized.number ≤ safe.number
  · have hupdate := ForkchoiceState.update_safe_eq_ok hle (by omega)
    have hcommitted := ForkchoiceState.updateFcs_of_answer hupdate hstatus
    refine ⟨safe, by omega, ?_⟩
    simp only [if_pos hle, updateFcs, hcommitted]
    rfl
  · have hupdate := ForkchoiceState.update_safe_eq_ok (le_refl node.fcs.finalized.number)
      (by omega)
    have hcommitted := ForkchoiceState.updateFcs_of_answer hupdate hstatus
    refine ⟨node.fcs.finalized, by omega, ?_⟩
    simp only [if_neg hle, updateFcs, hcommitted]
    rfl

theorem revertToL1Block_follows (node : Node) (n : ℕ) (reply : Reply ForkchoiceUpdated)
    (held : Bool) (hpre : node.db.movesSafe n ∨ node.SafeFollows)
    (hadopts : node.db.movesSafe n → ∀ safe batch,
      (node.db.withoutAbove n).getLatestSafeL2Info = .ok (safe, batch) → node.Adopts reply safe) :
    (Processed.ofRevertCommand held (node.revertToL1Block n reply)).stopped = true ∨
      (node.revertToL1Block n reply).1.SafeFollows := by
  simp only [revertToL1Block]
  cases hunwind : unwindAndRevalidateHeldBatch { node with
      syncState := { node.syncState with l1 := false }, attemptScheduled := false } n with
  | error e =>
    obtain ⟨message, rfl⟩ := panic_of_unwind_error hunwind
    exact Or.inl rfl
  | ok unwound =>
    obtain ⟨node₁, result, outcome⟩ := unwound
    have hunwound := unwound_of_ok hunwind
    have hfcs : node₁.fcs = node.fcs := hunwound.fcs
    refine Or.inr ?_
    dsimp only
    generalize hreport : result.l2SafeBlockInfo = report
    have hsafe := hunwound.safe
    rw [hreport] at hsafe
    cases hsafe with
    | unchanged hmoves =>
      simp only [moveSafeAfterRevert, scheduleIfSurvived_eq]
      refine hunwound.safeFollows hpre rfl (congrArg ForkchoiceState.finalized hfcs)
        (fun _ => congrArg ForkchoiceState.safe hfcs) ?_
      intro safe hsome
      rw [hreport] at hsome
      cases hsome
    | recomputed safe batch hmoves hlatest =>
      have hadopted : node₁.Adopts reply safe := by
        unfold Adopts
        rw [hfcs]
        exact hadopts hmoves safe batch hlatest
      obtain ⟨target, htarget, hdone⟩ := moveSafeAfterRevert_of_adopts hadopted
      simp only [hdone, scheduleIfSurvived_eq]
      refine hunwound.safeFollows hpre rfl ?_ ?_ ?_
      · rw [← hfcs]
      · intro hnone
        rw [hreport] at hnone
        cases hnone
      · intro safe' hsome
        rw [hreport] at hsome
        cases hsome
        rw [← hfcs]
        exact htarget

/-- The loop has stopped, or the Engine's safe block follows the database and its head is the
lowered one. -/
def FollowsDatabase (node : Node) (event : UnwindEvent) : Prop :=
  (node.process event).stopped = true ∨ ((node.process event).node.SafeFollows ∧
    match event with
    | .l1Reorg blockNumber client _ =>
      node.HeadLowered blockNumber client (node.process event).node
    | _ => True)

/-- The L2 client answers, the revert is stored in a synced state, the Engine adopts the block
of an administrative unwind; and what does not move the safe block starts from agreement. -/
def Unimpeded (node : Node) : UnwindEvent → Prop
  | .l1Reorg blockNumber client _ => (node.db.movesSafe blockNumber ∨ node.SafeFollows) ∧
      ∀ number ∈ node.db.loweredHead blockNumber, client.Serves number node.fcs.head.number
  | .batchRevert _ _ l1BlockInfo _ => node.syncState.isSynced = true ∧
      (node.SafeFollows ∨ ∃ stored, node.db.insertL1BlockInfo l1BlockInfo = .ok stored)
  | .revertToL1Block blockNumber reply => (node.db.movesSafe blockNumber ∨ node.SafeFollows) ∧
      (node.db.movesSafe blockNumber → ∀ safe batch,
        (node.db.withoutAbove blockNumber).getLatestSafeL2Info = .ok (safe, batch) →
          node.Adopts reply safe)

def RecordsOnly (node : Node) : UnwindEvent → Prop
  | .batchRevert _ _ _ _ => node.syncState.isSynced = false
  | _ => False

theorem handleBatchRevert_unsynced (node : Node) (startIndex endIndex : ℕ)
    (l1BlockInfo : BlockInfo) (reply : Reply ForkchoiceUpdated)
    (hsynced : node.syncState.isSynced = false) :
    (node.handleBatchRevert startIndex endIndex l1BlockInfo reply).1.fcs = node.fcs := by
  unfold handleBatchRevert
  split
  · rfl
  · simp only [hsynced, Bool.false_eq_true, if_false]

end Node

/-- An unwind that nothing impedes moves the Engine with the database; a revert that is only
recorded leaves it. -/
theorem engine_follows_database (node : Node) (event : UnwindEvent) :
    (node.Unimpeded event → node.FollowsDatabase event) ∧
      (node.RecordsOnly event → (node.process event).node.fcs = node.fcs) := by
  cases event with
  | l1Reorg blockNumber client reply =>
    refine ⟨?_, False.elim⟩
    intro h
    exact node.handleL1Reorg_follows blockNumber client reply h.1 h.2
  | batchRevert startIndex endIndex l1BlockInfo reply =>
    refine ⟨?_, node.handleBatchRevert_unsynced startIndex endIndex l1BlockInfo reply⟩
    intro h
    rcases node.handleBatchRevert_follows startIndex endIndex l1BlockInfo reply h.1 h.2 with
      hstopped | hfollows
    · exact Or.inl hstopped
    · exact Or.inr ⟨hfollows, trivial⟩
  | revertToL1Block blockNumber reply =>
    refine ⟨?_, False.elim⟩
    intro h
    rcases node.revertToL1Block_follows blockNumber reply node.held.isSome h.1 h.2 with
      hstopped | hfollows
    · exact Or.inl hstopped
    · exact Or.inr ⟨hfollows, trivial⟩

def onFirstBatch (l1Synced : Bool) : Node where
  db := consolidatedFirst
  fcs := ⟨⟨1, 21⟩, ⟨1, 21⟩, ⟨0, 7⟩⟩
  syncState := ⟨l1Synced, true⟩
  sequencer := none
  pipeline := []
  held := none
  attemptScheduled := false

def revertFirst : UnwindEvent := .batchRevert 1 1 ⟨20, 120⟩ (.ok (.ofStatus .valid))

theorem engine_follows_database_revertFirst :
    (onFirstBatch true).Unimpeded revertFirst ∧ (onFirstBatch true).FollowsDatabase revertFirst := by
  have h : (onFirstBatch true).Unimpeded revertFirst := ⟨rfl, Or.inr ⟨_, rfl⟩⟩
  exact ⟨h, (engine_follows_database (onFirstBatch true) revertFirst).1 h⟩

/-- The same revert while L1 is still syncing leaves the safe block of a reverted batch. -/
theorem engine_keeps_reverted_safe_before_sync :
    (onFirstBatch false).SafeFollows ∧ ¬(onFirstBatch false).FollowsDatabase revertFirst := by
  constructor
  · exact Node.safeFollows_of_safe_eq rfl (by decide)
  · rintro (hstopped | ⟨hfollows, -⟩)
    · cases hstopped
    · have hle := hfollows ⟨0, 7⟩ ⟨0, 0⟩ rfl
      revert hle
      decide

end RollupNode
