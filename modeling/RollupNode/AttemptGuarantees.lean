import RollupNode.AttemptBlocks
import RollupNode.ForkchoiceCalls
import Mathlib.Data.List.Chain

set_option autoImplicit false

/-! What a completed attempt guarantees of its blocks and of the forkchoice state. -/
namespace RollupNode
open ExceptTraversal

variable {fcs fcs' : ForkchoiceState} {a : DerivedAttributes} {block : L2BlockInfoWithL1Messages}
  {progress progress' : AttemptProgress} {batch : BatchDerivationResult} {target : BlockInfo}
  {replies : ℕ → ActionReplies} {action : BlockConsolidationAction}

/-- A forkchoice request of an attempt: the candidate, and the answer it gets when it is sent. -/
structure FcuRequest where
  candidate : Except FcsError ForkchoiceState
  answer : Reply ForkchoiceUpdated

def actionRequests (batch : BatchDerivationResult) (fcs : ForkchoiceState)
    (action : BlockConsolidationAction) (replies : ActionReplies) : List FcuRequest :=
  match action with
  | .skip _ => []
  | .updateFcs block =>
    [⟨fcs.update (confirmedHead fcs block.blockInfo) (some block.blockInfo)
      (finalizedTarget batch block.blockInfo), replies.fcu⟩]
  | .reorg index =>
    match batch.attributes[index]? with
    | none => []
    | some a =>
      if fcs.safe.number ≠ a.blockNumber - 1 then []
      else ⟨fcs.update (some fcs.safe) none none, replies.build⟩ ::
        match rebuildBlock batch.batchInfo fcs a replies with
        | .error _ => []
        | .ok block => [⟨fcs.update (some block.blockInfo) (some block.blockInfo)
            (finalizedTarget batch block.blockInfo), replies.fcu⟩]

def attemptRequests (batch : BatchDerivationResult) (fcs : ForkchoiceState)
    (progress : AttemptProgress) :
    List BlockConsolidationAction → (ℕ → ActionReplies) → List FcuRequest
  | [], _ => []
  | action :: actions, replies =>
    actionRequests batch fcs action (replies 0) ++
      match performAction batch fcs progress action (replies 0) with
      | (_, .error _) => []
      | (next, .ok made) =>
        attemptRequests batch next made actions (fun i => replies (i + 1))

/-- `update` accepts the candidate, and a head at the height of the safe block is that block. -/
def FcuRequest.Coherent (r : FcuRequest) : Prop :=
  ∃ new, r.candidate = .ok new ∧ (new.head.number = new.safe.number → new.head = new.safe)

theorem coherent_confirmedHead {new : ForkchoiceState} {finalized : Option BlockInfo}
    (h : fcs.update (confirmedHead fcs target) (some target) finalized = .ok new)
    (heq : new.head.number = new.safe.number) : new.head = new.safe := by
  obtain ⟨rfl, -, -, -⟩ := ForkchoiceState.update_eq_ok h
  simp only [ForkchoiceState.candidate, confirmedHead, Option.getD_some] at heq ⊢
  split
  · rfl
  · rename_i hkept
    rw [if_neg hkept] at heq
    by_contra hne
    exact hkept ⟨Nat.le_of_eq heq, hne⟩

theorem performAction_coherent {replies : ActionReplies}
    (h : performAction batch fcs progress action replies = (fcs', .ok progress')) :
    ∀ r ∈ actionRequests batch fcs action replies, r.Coherent := by
  intro r hr
  cases action with
  | skip block => cases h
  | updateFcs block =>
    have hnew := (performAction_updateFcs_ok h).1
    rw [List.mem_singleton.1 hr]
    exact ⟨fcs', hnew, coherent_confirmedHead hnew⟩
  | reorg index =>
    obtain ⟨a, block, hattributes, hblock, hnew, -⟩ := performAction_reorg_ok h
    have hrebuilds := rebuilds_of_rebuildBlock hblock
    simp only [actionRequests, hattributes, hrebuilds.onSafe, ne_eq, not_true_eq_false, if_false,
      hblock] at hr
    rcases List.mem_cons.1 hr with rfl | hr
    · obtain ⟨new, hcandidate⟩ := hrebuilds.candidate
      refine ⟨new, hcandidate, ?_⟩
      obtain ⟨rfl, -, -, -⟩ := ForkchoiceState.update_eq_ok hcandidate
      exact fun _ => rfl
    · rw [List.mem_singleton.1 hr]
      refine ⟨fcs', hnew, ?_⟩
      obtain ⟨rfl, -, -, -⟩ := ForkchoiceState.update_eq_ok hnew
      exact fun _ => rfl

theorem performActions_coherent (actions : List BlockConsolidationAction)
    (h : performActions batch fcs progress actions replies = (fcs', .ok progress')) :
    ∀ r ∈ attemptRequests batch fcs progress actions replies, r.Coherent := by
  induction actions generalizing fcs progress replies with
  | nil =>
    intro r hr
    cases hr
  | cons action actions ih =>
    obtain ⟨next, made, hfirst, hrest⟩ := performActions_cons_ok h
    intro r hr
    simp only [attemptRequests, hfirst] at hr
    rcases List.mem_append.1 hr with hr | hr
    · exact performAction_coherent hfirst r hr
    · exact ih hrest r hr

/-- The hash that a block of the outcome names as its parent, by the client that serves the
block or by the payload that the Engine built. -/
inductive ParentOf (client : L2Client) (replies : ℕ → ActionReplies) :
    L2BlockInfoWithL1Messages → B256 → Prop
  | served {block : L2Block} (h : client.blockByNumber block.number = .ok (some block)) :
      ParentOf client replies block.withL1Messages block.parentHash
  | built {i : ℕ} {p : ExecutionPayload} {l1Messages : List B256}
      (h : (replies i).payload = .ok p) (hmessages : p.l1Messages = some l1Messages) :
      ParentOf client replies ⟨⟨p.blockNumber, p.blockHash⟩, l1Messages⟩ p.parentHash

def LinkedBlocks (client : L2Client) (replies : ℕ → ActionReplies)
    (blocks : List L2BlockInfoWithL1Messages) : Prop :=
  blocks.IsChain (fun parent block => ParentOf client replies block parent.blockInfo.hash)

variable {client : L2Client}

theorem ParentOf.of_shift {hash : B256} (h : ParentOf client (fun i => replies (i + 1)) block hash) :
    ParentOf client replies block hash := by
  cases h with
  | served hserved => exact .served hserved
  | built hpayload hmessages => exact .built hpayload hmessages

theorem Rebuilds.parentOf (h : Rebuilds fcs a (replies 0) block) (client : L2Client) :
    ParentOf client replies block fcs.safe.hash := by
  obtain ⟨p, hpayload, hmatch, hmessages, hinfo⟩ := h.payload
  have hparent := (payloadMismatch_eq_none_iff.1 hmatch).1
  rcases block with ⟨info, l1Messages⟩
  simp only at hinfo
  rw [hinfo, ← hparent]
  exact .built hpayload hmessages

/-- A block that was built on the safe block. -/
def BuiltOn (client : L2Client) (replies : ℕ → ActionReplies) (safe : BlockInfo)
    (block : L2BlockInfoWithL1Messages) : Prop :=
  ParentOf client replies block safe.hash ∧ safe.number = block.blockInfo.number - 1

/-- The blocks that were rebuilt from the attributes, each on the one before it and the first of
them on the safe block. -/
structure BuiltFrom (client : L2Client) (replies : ℕ → ActionReplies) (safe : BlockInfo)
    (attributes : List DerivedAttributes) (blocks : List L2BlockInfoWithL1Messages) : Prop where
  numbers : blocks.map (·.blockInfo.number) = attributes.map (·.blockNumber)
  linked : blocks.IsChain (fun parent => BuiltOn client replies parent.blockInfo)
  onSafe : ∀ block ∈ blocks.head?, BuiltOn client replies safe block

theorem BuiltFrom.of_shift {safe : BlockInfo} {attributes : List DerivedAttributes}
    {blocks : List L2BlockInfoWithL1Messages}
    (h : BuiltFrom client (fun i => replies (i + 1)) safe attributes blocks) :
    BuiltFrom client replies safe attributes blocks where
  numbers := h.numbers
  linked := h.linked.imp (fun _ _ hstep => ⟨hstep.1.of_shift, hstep.2⟩)
  onSafe b hb := ⟨(h.onSafe b hb).1.of_shift, (h.onSafe b hb).2⟩

def ForkchoiceState.settledOn (fcs : ForkchoiceState) (batch : BatchDerivationResult)
    (blocks : List L2BlockInfoWithL1Messages) : ForkchoiceState :=
  match blocks.getLast? with
  | none => fcs
  | some last => ⟨last.blockInfo, last.blockInfo,
      (finalizedTarget batch last.blockInfo).getD fcs.finalized⟩

theorem settledOn_cons (fcs : ForkchoiceState) (batch : BatchDerivationResult)
    (block : L2BlockInfoWithL1Messages) (blocks : List L2BlockInfoWithL1Messages) :
    fcs.settledOn batch (block :: blocks) =
      (fcs.settledOn batch [block]).settledOn batch blocks := by
  unfold ForkchoiceState.settledOn
  rw [List.getLast?_cons]
  cases blocks.getLast? with
  | none => rfl
  | some last =>
    simp only [Option.getD_some, List.getLast?_singleton, finalizedTarget]
    split <;> rfl

theorem performActions_reorgs_ok (client : L2Client) (attributes : List DerivedAttributes)
    {index : ℕ} (hattributes : batch.attributes.drop index = attributes)
    (h : performActions batch fcs progress ((List.range' index attributes.length).map .reorg)
      replies = (fcs', .ok progress')) :
    ∃ blocks, progress' =
        ⟨progress.reorgResults ++ blocks, progress.l2HeadUpdated || !blocks.isEmpty⟩ ∧
      fcs' = fcs.settledOn batch blocks ∧
      BuiltFrom client replies fcs.safe attributes blocks := by
  induction attributes generalizing index fcs progress replies with
  | nil =>
    cases h
    refine ⟨[], ?_, rfl, rfl, List.IsChain.nil, ?_⟩
    · simp
    · exact fun block hblock => by cases hblock
  | cons a rest ih =>
    rw [List.length_cons, List.range'_succ, List.map_cons] at h
    obtain ⟨next, made, hfirst, hlater⟩ := performActions_cons_ok h
    obtain ⟨a', block, ha, hblock, hnew, rfl⟩ := performAction_reorg_ok hfirst
    have hhead : batch.attributes[index]? = some a := by
      rw [← List.head?_drop, hattributes]
      rfl
    obtain rfl : a = a' := Option.some.inj (hhead.symm.trans ha)
    have hdrop : batch.attributes.drop (index + 1) = rest := by
      rw [← List.tail_drop, hattributes]
      rfl
    obtain ⟨blocks, rfl, rfl, hbuilt⟩ := ih hdrop hlater
    have hbuilt := hbuilt.of_shift
    have hrebuilds := rebuilds_of_rebuildBlock hblock
    obtain ⟨rfl, -, -, -⟩ := ForkchoiceState.update_eq_ok hnew
    refine ⟨block :: blocks, ?_, ?_, ?_, ?_, ?_⟩
    · simp
    · rw [settledOn_cons]
      rfl
    · rw [List.map_cons, List.map_cons, hbuilt.numbers, hrebuilds.number]
    · exact List.isChain_cons.2 ⟨hbuilt.onSafe, hbuilt.linked⟩
    · intro b hb
      cases hb
      exact ⟨hrebuilds.parentOf client, hrebuilds.number ▸ hrebuilds.onSafe⟩

def L2Client.Linked (client : L2Client) : Prop :=
  ∀ n parent block, client.blockByNumber n = .ok (some parent) →
    client.blockByNumber (n + 1) = .ok (some block) → block.parentHash = parent.hash

def L2Client.ServesBlock (client : L2Client) (info : BlockInfo) : Prop :=
  ∃ block, client.blockByNumber info.number = .ok (some block) ∧ block.blockInfo = info

theorem ConsecutiveAttributes.tail {first : ℕ} {rest : List DerivedAttributes}
    (h : ConsecutiveAttributes first (a :: rest)) :
    a.blockNumber = first ∧ ConsecutiveAttributes (first + 1) rest := by
  unfold ConsecutiveAttributes at h
  rw [List.map_cons, List.length_cons, List.range'_succ] at h
  obtain ⟨ha, hrest⟩ := List.cons.inj h
  exact ⟨ha, hrest⟩

theorem matchedBlock_parentOf {block : L2Block} (h : matchedBlock client a = some block)
    (replies : ℕ → ActionReplies) :
    ParentOf client replies block.withL1Messages block.parentHash := by
  refine .served ?_
  rw [matchedBlock_number h]
  exact (matchedBlock_eq_some h).1

theorem matchedBlocks_linked (hclient : client.Linked) (replies : ℕ → ActionReplies)
    (attributes : List DerivedAttributes) {first : ℕ}
    (hconsecutive : ConsecutiveAttributes first attributes) :
    LinkedBlocks client replies ((matchedBlocks client attributes).map L2Block.withL1Messages) := by
  induction attributes generalizing first with
  | nil => exact List.IsChain.nil
  | cons a rest ih =>
    obtain ⟨ha, hrest⟩ := hconsecutive.tail
    unfold matchedBlocks
    split
    · rename_i parent hparent
      refine List.isChain_cons.2 ⟨?_, ih hrest⟩
      intro child hchild
      rw [List.head?_map, Option.mem_map] at hchild
      obtain ⟨block, hblock, rfl⟩ := hchild
      rw [Option.mem_def, List.head?_eq_getElem?] at hblock
      obtain ⟨b, hb, hmatched⟩ := matchedBlocks_get hblock
      have hnext : b.blockNumber = a.blockNumber + 1 := by
        rw [hrest.get hb, ha]
      have hserved := (matchedBlock_eq_some hmatched).1
      rw [hnext] at hserved
      have hlink := hclient _ _ _ (matchedBlock_eq_some hparent).1 hserved
      change ParentOf client replies block.withL1Messages parent.hash
      rw [← hlink]
      exact matchedBlock_parentOf hmatched replies
    · exact List.IsChain.nil

/-- The state after the update to the last kept block, if the plan has one, and whether the
update moved the head. -/
inductive Confirms (batch : BatchDerivationResult) (fcs : ForkchoiceState)
    (matched : List L2Block) : ForkchoiceState → Bool → Prop
  | nothing (h : ∀ last ∈ matched.getLast?, last.number ≤ fcs.finalized.number) :
      Confirms batch fcs matched fcs false
  | update {last : L2Block} {mid : ForkchoiceState} (hlast : matched.getLast? = some last)
      (h : fcs.update (confirmedHead fcs last.blockInfo) (some last.blockInfo)
        (finalizedTarget batch last.blockInfo) = .ok mid) :
      Confirms batch fcs matched mid (confirmedHead fcs last.blockInfo).isSome

theorem performActions_aggregated_ok (h : performActions batch fcs ⟨[], false⟩
      (aggregatedActions client fcs.finalized.number batch.attributes) replies =
        (fcs', .ok progress)) :
    ∃ mid moved blocks,
      Confirms batch fcs (matchedBlocks client batch.attributes) mid moved ∧
      progress = ⟨blocks, moved || !blocks.isEmpty⟩ ∧ fcs' = mid.settledOn batch blocks ∧
      BuiltFrom client replies mid.safe
        (batch.attributes.drop (matchedBlocks client batch.attributes).length) blocks := by
  simp only [aggregatedActions, confirmActions] at h
  rw [← List.length_drop] at h
  split at h
  · rename_i last hlast
    split at h
    · rename_i hfinal
      obtain ⟨blocks, rfl, rfl, hblocks⟩ := performActions_reorgs_ok client _ rfl h
      refine ⟨fcs, false, blocks, .nothing ?_, rfl, rfl, hblocks⟩
      intro b hb
      rw [hlast] at hb
      cases hb
      exact hfinal
    · obtain ⟨mid, made, hfirst, hrest⟩ := performActions_cons_ok h
      obtain ⟨hupdate, rfl⟩ := performAction_updateFcs_ok hfirst
      obtain ⟨blocks, rfl, rfl, hbuilt⟩ := performActions_reorgs_ok client _ rfl hrest
      exact ⟨mid, _, blocks, .update hlast hupdate, rfl, rfl, hbuilt.of_shift⟩
  · rename_i hnone
    obtain ⟨blocks, rfl, rfl, hblocks⟩ := performActions_reorgs_ok client _ rfl h
    refine ⟨fcs, false, blocks, .nothing ?_, rfl, rfl, hblocks⟩
    intro b hb
    rw [hnone] at hb
    cases hb

theorem updatedL2Head_iff {o : BatchConsolidationOutcome} (h : o.l2HeadUpdated = true → o.blocks ≠ []) :
    (∃ head, o.updatedL2Head = .ok (some head)) ↔ o.l2HeadUpdated = true := by
  unfold BatchConsolidationOutcome.updatedL2Head
  split
  · rename_i hfalse
    rw [hfalse]
    refine iff_of_false ?_ Bool.false_ne_true
    rintro ⟨head, hhead⟩
    cases hhead
  · rename_i last htrue hlast
    exact iff_of_true ⟨_, rfl⟩ htrue
  · rename_i htrue hnone
    exact absurd (List.getLast?_eq_none_iff.1 hnone) (h htrue)

def reconcileRequests (client : L2Client) (replies : ℕ → ActionReplies) (fcs : ForkchoiceState)
    (db : Db) (batch : BatchDerivationResult) : List FcuRequest :=
  match checkSafeFrontier client fcs db batch.batchInfo, reconcileBatch client batch fcs with
  | .ok _, .ok plan => attemptRequests batch fcs ⟨[], false⟩ plan.aggregateActions replies
  | _, _ => []

/-- Every block of the batch is on the client's chain, at or below the finalized height. -/
def MatchedFinal (client : L2Client) (fcs : ForkchoiceState) (batch : BatchDerivationResult) :
    Prop :=
  ∀ a ∈ batch.attributes,
    a.blockNumber ≤ fcs.finalized.number ∧ (matchedBlock client a).isSome

structure CompletedAttempt (client : L2Client) (replies : ℕ → ActionReplies)
    (fcs fcs' : ForkchoiceState) (db db' : Db) (batch : BatchDerivationResult)
    (outcome : BatchConsolidationOutcome) : Prop where
  numbers : outcome.blocks.map (·.blockInfo.number) = batch.attributes.map (·.blockNumber)
  linked : LinkedBlocks client replies outcome.blocks
  settled : ¬ MatchedFinal client fcs batch → ∃ last, outcome.blocks.getLast? = some last ∧
    fcs'.safe = last.blockInfo ∧ last.blockInfo.number ≤ fcs'.head.number ∧
    (batch.targetStatus.isFinalized = true → fcs'.finalized = last.blockInfo)
  coherent : ∀ r ∈ reconcileRequests client replies fcs db batch, r.Coherent
  stored : db' = db.consolidated { outcome with skippedL1Messages := batch.skippedL1Messages }
  headWritten : (∃ head, outcome.updatedL2Head = .ok (some head)) ↔
    fcs'.head ≠ fcs.head ∨ ∃ a ∈ batch.attributes, matchedBlock client a = none

section
variable {client : L2Client} {replies : ℕ → ActionReplies} {batch : BatchDerivationResult}
  {fcs mid : ForkchoiceState} {moved : Bool} {blocks : List L2BlockInfoWithL1Messages} {first : ℕ}

theorem Confirms.linked (hclient : client.Linked) (hsafe : client.ServesBlock fcs.safe)
    (hconsecutive : ConsecutiveAttributes first batch.attributes)
    (hconfirms : Confirms batch fcs (matchedBlocks client batch.attributes) mid moved)
    (hbuilt : BuiltFrom client replies mid.safe
      (batch.attributes.drop (matchedBlocks client batch.attributes).length) blocks) :
    LinkedBlocks client replies
      ((matchedBlocks client batch.attributes).map L2Block.withL1Messages ++ blocks) := by
  refine List.isChain_append.2 ⟨matchedBlocks_linked hclient replies _ hconsecutive,
    hbuilt.linked.imp (fun _ _ hstep => hstep.1), ?_⟩
  intro previous hprevious block hblock
  rw [List.getLast?_map, Option.mem_map] at hprevious
  obtain ⟨last, hlast, rfl⟩ := hprevious
  obtain ⟨hparent, honsafe⟩ := hbuilt.onSafe block hblock
  suffices hhash : mid.safe.hash = last.hash by
    rw [hhash] at hparent
    exact hparent
  cases hconfirms with
  | update hlast' hupdate =>
    obtain ⟨rfl, -, -, -⟩ := ForkchoiceState.update_eq_ok hupdate
    obtain rfl := Option.some.inj (hlast'.symm.trans hlast)
    rfl
  | nothing hfinal =>
    -- without an update the safe block is the one that the client serves at this height
    have hlastnumber := hconsecutive.last_number hlast
    rw [Option.mem_def, List.getLast?_eq_getElem?] at hlast
    obtain ⟨a, ha, hmatched⟩ := matchedBlocks_get hlast
    have hnumber : block.blockInfo.number =
        first + (matchedBlocks client batch.attributes).length := by
      have hhead := congrArg List.head? hbuilt.numbers
      rw [List.head?_map, List.head?_map, List.head?_drop, Option.mem_def.1 hblock] at hhead
      obtain ⟨b, hb, hbnumber⟩ := Option.map_eq_some_iff.1 hhead.symm
      exact hbnumber.symm.trans (hconsecutive.get hb)
    have hheight : fcs.safe.number = a.blockNumber := by
      have hanumber := matchedBlock_number hmatched
      omega
    obtain ⟨served, hserved, hinfo⟩ := hsafe
    rw [hheight, (matchedBlock_eq_some hmatched).1] at hserved
    cases hserved
    exact (congrArg BlockInfo.hash hinfo).symm

theorem BuiltFrom.eq_nil_iff {safe : BlockInfo} (h : BuiltFrom client replies safe
      (batch.attributes.drop (matchedBlocks client batch.attributes).length) blocks) :
    blocks = [] ↔ ∀ a ∈ batch.attributes, (matchedBlock client a).isSome := by
  have hlength := congrArg List.length h.numbers
  have hle := matchedBlocks_length_le client batch.attributes
  rw [List.length_map, List.length_map, List.length_drop] at hlength
  rw [← matchedBlocks_length_eq_iff, ← List.length_eq_zero_iff]
  omega

theorem Confirms.settled (hconsecutive : ConsecutiveAttributes first batch.attributes)
    (hconfirms : Confirms batch fcs (matchedBlocks client batch.attributes) mid moved)
    (hall : ∀ a ∈ batch.attributes, (matchedBlock client a).isSome)
    (hnew : ¬ MatchedFinal client fcs batch) :
    ∃ last, (matchedBlocks client batch.attributes).getLast? = some last ∧
      mid.safe = last.blockInfo ∧ last.number ≤ mid.head.number ∧
      (batch.targetStatus.isFinalized = true → mid.finalized = last.blockInfo) := by
  cases hconfirms with
  | update hlast hupdate =>
    refine ⟨_, hlast, ?_⟩
    obtain ⟨rfl, -, hhead, -⟩ := ForkchoiceState.update_eq_ok hupdate
    refine ⟨rfl, hhead, ?_⟩
    intro hfinalized
    simp only [ForkchoiceState.candidate, finalizedTarget, hfinalized, if_true, Option.getD_some]
  | nothing hfinal =>
    refine absurd ?_ hnew
    intro a ha
    refine ⟨?_, hall a ha⟩
    -- the last block is final, and no block of the batch is above it
    obtain ⟨i, hi⟩ := List.mem_iff_getElem?.1 ha
    have hilt := (List.getElem?_eq_some_iff.1 hi).1
    have hlength := (matchedBlocks_length_eq_iff client batch.attributes).2 hall
    have hne : matchedBlocks client batch.attributes ≠ [] :=
      List.ne_nil_of_length_pos (by omega)
    have hlast := List.getLast?_eq_some_getLast hne
    have hle := hfinal _ hlast
    have hlastnumber := hconsecutive.last_number hlast
    have hanumber := hconsecutive.get hi
    omega

theorem Confirms.moved_iff {matched : List L2Block}
    (hconfirms : Confirms batch fcs matched mid moved) : moved = true ↔ mid.head ≠ fcs.head := by
  cases hconfirms with
  | nothing hfinal => exact iff_of_false Bool.false_ne_true (fun h => h rfl)
  | update hlast hupdate =>
    obtain ⟨rfl, -, -, -⟩ := ForkchoiceState.update_eq_ok hupdate
    simp only [ForkchoiceState.candidate, confirmedHead]
    split
    · rename_i hmoves
      exact iff_of_true rfl hmoves.2.symm
    · exact iff_of_false Bool.false_ne_true (fun h => h rfl)

theorem Confirms.settledOn_last (hconsecutive : ConsecutiveAttributes first batch.attributes)
    (hconfirms : Confirms batch fcs (matchedBlocks client batch.attributes) mid moved)
    (hbuilt : BuiltFrom client replies mid.safe
      (batch.attributes.drop (matchedBlocks client batch.attributes).length) blocks)
    (hnew : ¬ MatchedFinal client fcs batch) :
    ∃ last, ((matchedBlocks client batch.attributes).map L2Block.withL1Messages ++
        blocks).getLast? = some last ∧
      (mid.settledOn batch blocks).safe = last.blockInfo ∧
      last.blockInfo.number ≤ (mid.settledOn batch blocks).head.number ∧
      (batch.targetStatus.isFinalized = true →
        (mid.settledOn batch blocks).finalized = last.blockInfo) := by
  cases hlast : blocks.getLast? with
  | some last =>
    refine ⟨last, ?_, ?_⟩
    · rw [List.getLast?_append, hlast]
      rfl
    · simp only [ForkchoiceState.settledOn, hlast, Nat.le_refl, true_and]
      intro hfinalized
      simp only [finalizedTarget, hfinalized, if_true, Option.getD_some]
  | none =>
    obtain rfl := List.getLast?_eq_none_iff.1 hlast
    have hall := hbuilt.eq_nil_iff.1 rfl
    obtain ⟨last, hlast, hstate⟩ := hconfirms.settled hconsecutive hall hnew
    refine ⟨last.withL1Messages, ?_, hstate⟩
    rw [List.append_nil, List.getLast?_map, hlast]
    rfl

theorem Confirms.head_moved_iff
    (hconfirms : Confirms batch fcs (matchedBlocks client batch.attributes) mid moved)
    (hbuilt : BuiltFrom client replies mid.safe
      (batch.attributes.drop (matchedBlocks client batch.attributes).length) blocks) :
    (moved || !blocks.isEmpty) = true ↔ (mid.settledOn batch blocks).head ≠ fcs.head ∨
      ∃ a ∈ batch.attributes, matchedBlock client a = none := by
  have hrebuilt := hbuilt.eq_nil_iff
  rw [Bool.or_eq_true, hconfirms.moved_iff]
  cases blocks with
  | nil =>
    refine or_congr_right (iff_of_false (by simp) ?_)
    rintro ⟨a, ha, hnone⟩
    have hsome := hrebuilt.1 rfl a ha
    rw [hnone] at hsome
    cases hsome
  | cons block rest =>
    refine iff_of_true (Or.inr rfl) (Or.inr ?_)
    by_contra hall
    refine List.cons_ne_nil block rest (hrebuilt.2 ?_)
    intro a ha
    exact Option.isSome_iff_ne_none.2 (fun hnone => hall ⟨a, ha, hnone⟩)

end

/-- A completed attempt leaves one linked block for each attribute and a forkchoice state on the
last of them. It writes the head number when the head moved or a block was rebuilt: a rebuilt
block may be the head already. -/
theorem reconcileAndConsolidate_guarantees {client : L2Client} {replies : ℕ → ActionReplies}
    {fcs fcs' : ForkchoiceState} {db db' : Db} {batch : BatchDerivationResult}
    {outcome : BatchConsolidationOutcome} {first : ℕ}
    (hconsecutive : ConsecutiveAttributes first batch.attributes) (hclient : client.Linked)
    (hsafe : client.ServesBlock fcs.safe)
    (h : reconcileAndConsolidate client replies fcs db batch = (fcs', db', .ok outcome)) :
    CompletedAttempt client replies fcs fcs' db db' batch outcome := by
  obtain ⟨plan, progress, hfrontier, hplan, hperformed, houtcome, hstore⟩ :=
    reconcileAndConsolidate_eq_ok h
  have hactions := aggregateActions_eq hconsecutive hplan
  have hcoherent := performActions_coherent _ hperformed
  have houtcomeOf := outcomeOf_plan hplan hperformed
  rw [hactions] at hperformed
  obtain ⟨mid, moved, blocks, hconfirms, rfl, rfl, hbuilt⟩ :=
    performActions_aggregated_ok hperformed
  have hblocks : outcome.blocks =
      (matchedBlocks client batch.attributes).map L2Block.withL1Messages ++ blocks := by
    rw [houtcome]
    exact intoBatchConsolidationOutcome_blocks hplan _ _
  have hupdated : outcome.l2HeadUpdated = (moved || !blocks.isEmpty) := by
    rw [houtcome]
    rfl
  obtain ⟨-, haccepts, hstored⟩ := storeOutcome_eq_ok hstore
  refine ⟨?_, ?_, ?_, ?_, hstored, ?_⟩
  · rw [houtcome]
    exact houtcomeOf.numbers
  · rw [hblocks]
    exact hconfirms.linked hclient hsafe hconsecutive hbuilt
  · intro hnew
    rw [hblocks]
    exact hconfirms.settledOn_last hconsecutive hbuilt hnew
  · intro r hr
    simp only [reconcileRequests, hfrontier, hplan] at hr
    exact hcoherent r hr
  · have hnonempty : outcome.l2HeadUpdated = true → outcome.blocks ≠ [] :=
      haccepts.head
    rw [updatedL2Head_iff hnonempty, hupdated]
    exact hconfirms.head_moved_iff hbuilt

theorem L2Client.ofChain_linked {blocks : List L2Block}
    (h : ∀ a ∈ blocks, ∀ b ∈ blocks, b.number = a.number + 1 → b.parentHash = a.hash) :
    (L2Client.ofChain blocks).Linked := by
  intro n parent block hparent hblock
  have hparentNumber := (L2Client.ofChain blocks).number_eq _ _ hparent
  have hblockNumber := (L2Client.ofChain blocks).number_eq _ _ hblock
  refine h parent (List.mem_of_find?_eq_some (Except.ok.inj hparent)) block
    (List.mem_of_find?_eq_some (Except.ok.inj hblock)) ?_
  rw [hparentNumber, hblockNumber]

def plainAttributes (number : ℕ) : DerivedAttributes :=
  ⟨number, 1, ⟨0, 0, some [], none, ⟨none, none, none, none, none⟩⟩⟩

def plainReplies (parentHash : B256) (number : ℕ) (hash : B256) : ActionReplies :=
  ⟨.ok ⟨⟨.valid, none⟩, some 0⟩, .ok ⟨parentHash, number, hash, 1, [], some []⟩,
    .ok ⟨.valid, none⟩, validReply⟩

/-- The client has block 1 of a batch of two. -/
theorem reconcileAndConsolidate_guarantees_twoBlocks :
    ∃ fcs' db' outcome,
      reconcileAndConsolidate (.ofChain [emptyBlock 0 7 0, emptyBlock 1 21 7])
        (fun _ => plainReplies 21 2 22) ⟨⟨1, 21⟩, ⟨0, 7⟩, ⟨0, 7⟩⟩
        ((migrated 7).insertBatch firstCommit)
        ⟨[plainAttributes 1, plainAttributes 2], ⟨1, 11⟩, [], .finalized⟩ =
          (fcs', db', .ok outcome) ∧
      CompletedAttempt (.ofChain [emptyBlock 0 7 0, emptyBlock 1 21 7])
        (fun _ => plainReplies 21 2 22) ⟨⟨1, 21⟩, ⟨0, 7⟩, ⟨0, 7⟩⟩ fcs'
        ((migrated 7).insertBatch firstCommit) db'
        ⟨[plainAttributes 1, plainAttributes 2], ⟨1, 11⟩, [], .finalized⟩ outcome :=
  ⟨_, _, _, rfl, reconcileAndConsolidate_guarantees
    (show ConsecutiveAttributes 1 [plainAttributes 1, plainAttributes 2] from rfl)
    (L2Client.ofChain_linked (by decide)) ⟨_, rfl, rfl⟩ rfl⟩

/-- The head is a block that the client does not serve yet. Its rebuild gives the same block: the
head stays, and the head number is written. -/
theorem head_written_without_move :
    ∃ client replies fcs db batch fcs' db' outcome,
      ConsecutiveAttributes 1 batch.attributes ∧ L2Client.Linked client ∧
      client.ServesBlock fcs.safe ∧ fcs.Ordered ∧
      reconcileAndConsolidate client replies fcs db batch = (fcs', db', .ok outcome) ∧
      fcs'.head = fcs.head ∧ outcome.updatedL2Head = .ok (some fcs.head) ∧
      db.l2HeadBlock = 0 ∧ db'.l2HeadBlock = 1 :=
  ⟨.ofChain [emptyBlock 0 7 0], fun _ => plainReplies 7 1 21, ⟨⟨1, 21⟩, ⟨0, 7⟩, ⟨0, 7⟩⟩,
    (migrated 7).insertBatch firstCommit, ⟨[plainAttributes 1], ⟨1, 11⟩, [], .consolidated⟩, _, _, _,
    rfl, L2Client.ofChain_linked (by decide), ⟨_, rfl, rfl⟩, by decide, rfl, rfl, rfl, rfl, rfl⟩

end RollupNode
