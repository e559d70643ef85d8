import RollupNode.AttemptGuarantees
import RollupNode.PeerImport

set_option autoImplicit false

/-! Attempts that are held and tried again, against an Engine that may have moved. -/
namespace RollupNode
open LinkedChain

def L2Block.payload (b : L2Block) : ExecutionPayload :=
  ⟨b.parentHash, b.number, b.hash, b.baseFeePerGas.getD 0, b.transactions, some b.l1Messages⟩

def clientOf (chain : Chain L2Block) : L2Client := .ofChain chain.blocks

theorem clientOf_blockByNumber (chain : Chain L2Block) (n : ℕ) :
    (clientOf chain).blockByNumber n = .ok chain.blocks[n]? := by
  refine congrArg Except.ok ?_
  cases hfound : chain.blocks.find? (fun b => b.number = n) with
  | some b =>
    have hnumber := List.find?_some hfound
    have hnumber : b.number = n := of_decide_eq_true hnumber
    rw [← hnumber]
    exact ((chain.mem_iff b).1 (List.mem_of_find?_eq_some hfound)).symm
  | none =>
    cases hat : chain.blocks[n]? with
    | none => rfl
    | some b =>
      have hne := List.find?_eq_none.1 hfound b (List.mem_of_getElem? hat)
      have hnumber : b.number = n := chain.numbered n b hat
      exact absurd (decide_eq_true hnumber) hne

/-- The blocks there are, and the block that the Engine builds on a parent. -/
structure Builder where
  blocks : Set L2Block
  build : BlockInfo → DerivedAttributes → L2Block

namespace Builder

/-- What is assumed of the Engine: a hash names one block, and a block built from attributes of
the batch is a child that matches them. -/
structure Builds (e : Builder) (batch : BatchDerivationResult) : Prop where
  hash_inj : ∀ a ∈ e.blocks, ∀ b ∈ e.blocks, a.hash = b.hash → a = b
  number : ∀ parent a, (e.build parent a).number = parent.number + 1
  builds : ∀ parent ∈ e.blocks, ∀ a ∈ batch.attributes, a.blockNumber = parent.number + 1 →
    e.build parent.blockInfo a ∈ e.blocks ∧
    (e.build parent.blockInfo a).parentHash = parent.hash ∧
    blockMatchesAttributes a.attributes a.baseFee (e.build parent.blockInfo a) = true

/-- The Engine is ready or `SYNCING`, and it builds its block on the safe block. -/
structure Answers (e : Builder) (batch : BatchDerivationResult) (fcs : ForkchoiceState)
    (action : BlockConsolidationAction) (replies : ActionReplies) : Prop where
  build : ∃ r, replies.build = .ok r ∧
    (r.status = .valid ∧ r.payloadId.isSome ∨ r.status = .syncing)
  payload : ∀ index a, action = .reorg index → batch.attributes[index]? = some a →
    replies.payload = .ok (e.build fcs.safe a).payload
  newPayload : ∃ r, replies.newPayload = .ok r ∧
    (r.status = .valid ∨ r.status = .syncing ∨ r.status = .accepted)
  fcu : ∃ r, replies.fcu = .ok r ∧ (r.status = .valid ∨ r.status = .syncing)

def AnswersAll (e : Builder) (batch : BatchDerivationResult) (fcs : ForkchoiceState)
    (progress : AttemptProgress) :
    List BlockConsolidationAction → (ℕ → ActionReplies) → Prop
  | [], _ => True
  | action :: actions, replies =>
    e.Answers batch fcs action (replies 0) ∧
      ∀ next made, performAction batch fcs progress action (replies 0) = (next, .ok made) →
        e.AnswersAll batch next made actions (fun i => replies (i + 1))

def AnswersAttempt (e : Builder) (node : Node) (client : L2Client)
    (replies : ℕ → ActionReplies) : Prop :=
  ∀ batch plan, node.held = some batch → reconcileBatch client batch node.fcs = .ok plan →
    e.AnswersAll batch node.fcs ⟨[], false⟩ plan.aggregateActions replies

end Builder

structure ActionReplies.AllValid (replies : ActionReplies) : Prop where
  build : ∀ r, replies.build = .ok r → r.status = .valid
  newPayload : ∀ r, replies.newPayload = .ok r → r.status = .valid
  fcu : ∀ r, replies.fcu = .ok r → r.status = .valid

def Node.attemptRequests (node : Node) (client : L2Client) (replies : ℕ → ActionReplies) :
    List FcuRequest :=
  match node.held with
  | none => []
  | some batch => reconcileRequests client replies node.fcs node.db batch

namespace Builder

/-- The Engine's chain after requests: at each of them it may stay or make the head that the
request names the tip of its chain, whatever it answers. -/
inductive Adopts (e : Builder) : Chain L2Block → List FcuRequest → Chain L2Block → Prop
  | nil {chain : Chain L2Block} : Adopts e chain [] chain
  | keeps {chain chain' : Chain L2Block} {request : FcuRequest} {requests : List FcuRequest}
      (h : Adopts e chain requests chain') : Adopts e chain (request :: requests) chain'
  | adopts {chain mid chain' : Chain L2Block} {request : FcuRequest}
      {requests : List FcuRequest} {new : ForkchoiceState} {tip : L2Block}
      (hnew : request.candidate = .ok new) (hblocks : ∀ b ∈ mid, b ∈ e.blocks)
      (htip : mid.blocks.getLast? = some tip) (hhead : tip.blockInfo = new.head)
      (h : Adopts e mid requests chain') : Adopts e chain (request :: requests) chain'

/-- Attempts from a node and a chain, all of them held but the last, which completes. -/
inductive Retries (e : Builder) : Node → Chain L2Block → Node → BatchConsolidationOutcome → Prop
  | completed {node node' : Node} {chain : Chain L2Block} {replies : ℕ → ActionReplies}
      {outcome : BatchConsolidationOutcome}
      (hanswers : e.AnswersAttempt node (clientOf chain) replies)
      (h : node.runAttempt (clientOf chain) replies = (node', .ok (.completed outcome))) :
      Retries e node chain node' outcome
  | held {node mid node' : Node} {chain chain' : Chain L2Block} {replies : ℕ → ActionReplies}
      {outcome : BatchConsolidationOutcome}
      (hanswers : e.AnswersAttempt node (clientOf chain) replies)
      (h : node.runAttempt (clientOf chain) replies = (mid, .ok .held))
      (hadopts : e.Adopts chain (node.attemptRequests (clientOf chain) replies) chain')
      (hrest : Retries e mid chain' node' outcome) : Retries e node chain node' outcome

end Builder

/-! ### One action under such answers -/

theorem ForkchoiceState.update_of_ordered {head : Option BlockInfo} {s : ForkchoiceState}
    {safe finalized : Option BlockInfo} (hsome : head ≠ none ∨ safe ≠ none)
    (hfinalized : (s.candidate head safe finalized).finalized.number ≤ s.finalized.number →
      (s.candidate head safe finalized).finalized = s.finalized)
    (hordered : (s.candidate head safe finalized).Ordered) :
    s.update head safe finalized = .ok (s.candidate head safe finalized) := by
  simp only [update]
  rw [if_neg (fun h => hsome.elim (fun hne => hne h.1) (fun hne => hne h.2.1)),
    if_neg (fun h => h.2 (hfinalized h.1)), if_neg (Nat.not_lt.2 hordered.1),
    if_neg (Nat.not_lt.2 hordered.2)]

section
variable {batch : BatchDerivationResult} {fcs : ForkchoiceState}
  {target : BlockInfo} {block : L2BlockInfoWithL1Messages} {new : ForkchoiceState}
  {replies : ActionReplies} {a : DerivedAttributes} {e : Builder}

theorem finalizedTarget_above (batch : BatchDerivationResult)
    (h : fcs.finalized.number < target.number) :
    (((finalizedTarget batch target).getD fcs.finalized).number ≤ fcs.finalized.number →
      (finalizedTarget batch target).getD fcs.finalized = fcs.finalized) ∧
      ((finalizedTarget batch target).getD fcs.finalized).number ≤ target.number := by
  unfold finalizedTarget
  split
  · exact ⟨fun hle => absurd hle (Nat.not_le.2 h), Nat.le_refl _⟩
  · exact ⟨fun _ => rfl, Nat.le_of_lt h⟩

theorem update_confirmedHead (batch : BatchDerivationResult)
    (h : fcs.finalized.number < target.number) :
    fcs.update (confirmedHead fcs target) (some target) (finalizedTarget batch target) =
      .ok (fcs.candidate (confirmedHead fcs target) (some target)
        (finalizedTarget batch target)) := by
  obtain ⟨hnew, hle⟩ := finalizedTarget_above batch h
  refine ForkchoiceState.update_of_ordered (Or.inr (Option.some_ne_none _)) hnew ⟨?_, hle⟩
  simp only [ForkchoiceState.candidate, confirmedHead, Option.getD_some]
  split
  · exact Nat.le_refl _
  · rename_i hkept
    by_cases heq : fcs.head = target
    · exact Nat.le_of_eq (congrArg BlockInfo.number heq.symm)
    · exact Nat.le_of_lt (Nat.lt_of_not_le (fun hle => hkept ⟨hle, heq⟩))

theorem update_rebuilt (batch : BatchDerivationResult)
    (hle : fcs.finalized.number ≤ fcs.safe.number)
    (h : block.blockInfo.number = fcs.safe.number + 1) :
    fcs.update (some block.blockInfo) (some block.blockInfo)
      (finalizedTarget batch block.blockInfo) = .ok (fcs.settledOn batch [block]) := by
  have hbelow : fcs.finalized.number < block.blockInfo.number := by omega
  obtain ⟨hnew, hsafe⟩ := finalizedTarget_above batch hbelow
  exact ForkchoiceState.update_of_ordered (Or.inl (Option.some_ne_none _)) hnew
    ⟨Nat.le_refl _, hsafe⟩

theorem update_safe (hle : fcs.finalized.number ≤ fcs.safe.number) :
    fcs.update (some fcs.safe) none none = .ok (fcs.candidate (some fcs.safe) none none) :=
  ForkchoiceState.update_of_ordered (Or.inl (Option.some_ne_none _)) (fun _ => rfl)
    ⟨Nat.le_refl _, hle⟩

theorem confirmBlock_answered {head : Option BlockInfo}
    (hnew : fcs.update head (some target) (finalizedTarget batch target) = .ok new)
    (hfcu : ∃ r, replies.fcu = .ok r ∧ (r.status = .valid ∨ r.status = .syncing)) :
    (confirmBlock batch fcs head target replies.fcu =
        (fcs, .error (.hold fcuMethod "SYNCING")) ∧ ¬ replies.AllValid) ∨
      confirmBlock batch fcs head target replies.fcu = (new, .ok ()) := by
  obtain ⟨r, hreply, hstatus⟩ := hfcu
  unfold finalizedTarget at hnew
  simp only [confirmBlock, ForkchoiceState.updateFcsChecked, hnew, hreply]
  rcases hstatus with hvalid | hsyncing
  · simp only [hvalid, if_true, classifyCheckedFcu]
    exact Or.inr trivial
  · simp only [hsyncing, reduceCtorEq, if_false, classifyCheckedFcu]
    refine Or.inl ⟨trivial, ?_⟩
    intro hall
    rw [hall.fcu r hreply] at hsyncing
    cases hsyncing

theorem payloadMismatch_payload {safe : BlockInfo} {block : L2Block}
    (hparent : block.parentHash = safe.hash) (hnumber : block.number = a.blockNumber)
    (hmatch : blockMatchesAttributes a.attributes a.baseFee block = true) :
    payloadMismatch a safe block.payload = none := by
  have hconditions := of_decide_eq_true hmatch
  unfold payloadMismatch L2Block.payload
  simp only [hparent, hnumber, hconditions.1, hconditions.2.2.1, Option.getD_some, ne_eq,
    not_true_eq_false, if_false]

theorem rebuildBlock_answered {block : L2Block} (info : BatchInfo)
    (hle : fcs.finalized.number ≤ fcs.safe.number)
    (hbuild : ∃ r, replies.build = .ok r ∧
      (r.status = .valid ∧ r.payloadId.isSome ∨ r.status = .syncing))
    (hpayload : replies.payload = .ok block.payload)
    (hnewPayload : ∃ r, replies.newPayload = .ok r ∧
      (r.status = .valid ∨ r.status = .syncing ∨ r.status = .accepted))
    (honsafe : fcs.safe.number = a.blockNumber - 1)
    (hmismatch : payloadMismatch a fcs.safe block.payload = none) :
    (∃ method status, rebuildBlock info fcs a replies = .error (.hold method status) ∧
      ¬ replies.AllValid) ∨
      rebuildBlock info fcs a replies = .ok block.withL1Messages := by
  obtain ⟨built, hbuilt, hstatus⟩ := hbuild
  obtain ⟨imported, himported, himport⟩ := hnewPayload
  have hrequest : fcs.buildPayload (some fcs.safe) replies.build = .ok built := by
    simp only [ForkchoiceState.buildPayload, Option.map_some, update_safe hle, hbuilt]
  simp only [rebuildBlock, honsafe, ne_eq, not_true_eq_false, if_false, bind, Except.bind, pure,
    Except.pure]
  rw [hrequest]
  rcases hstatus with ⟨hvalid, hid⟩ | hsyncing
  · obtain ⟨id, hid⟩ := Option.isSome_iff_exists.1 hid
    simp only [Except.mapError, classifyBuildFcu, hvalid, hid, hpayload, hmismatch, himported]
    rcases himport with himport | himport | himport
    · refine Or.inr ?_
      simp only [L2Block.payload, classifyNewPayload, himport]
      rfl
    · refine Or.inl ⟨newPayloadMethod, "SYNCING", ?_, ?_⟩
      · simp only [L2Block.payload, classifyNewPayload, himport]
      · intro hall
        rw [hall.newPayload imported himported] at himport
        cases himport
    · refine Or.inl ⟨newPayloadMethod, "ACCEPTED", ?_, ?_⟩
      · simp only [L2Block.payload, classifyNewPayload, himport]
      · intro hall
        rw [hall.newPayload imported himported] at himport
        cases himport
  · refine Or.inl ⟨buildFcuMethod, "SYNCING", ?_, ?_⟩
    · simp only [Except.mapError, classifyBuildFcu, hsyncing]
    · intro hall
      rw [hall.build built hbuilt] at hsyncing
      cases hsyncing

theorem performAction_updateFcs_answered (progress : AttemptProgress)
    (hfinal : fcs.finalized.number < block.blockInfo.number)
    (hfcu : ∃ r, replies.fcu = .ok r ∧ (r.status = .valid ∨ r.status = .syncing)) :
    (∃ method status, performAction batch fcs progress (.updateFcs block) replies =
        (fcs, .error (.hold method status)) ∧ ¬ replies.AllValid) ∨
      performAction batch fcs progress (.updateFcs block) replies =
        (fcs.candidate (confirmedHead fcs block.blockInfo) (some block.blockInfo)
          (finalizedTarget batch block.blockInfo),
        .ok { progress with l2HeadUpdated :=
          progress.l2HeadUpdated || (confirmedHead fcs block.blockInfo).isSome }) := by
  change (∃ method status, ((confirmBlock batch fcs (confirmedHead fcs block.blockInfo) _ _).1,
      (confirmBlock batch fcs (confirmedHead fcs block.blockInfo) _ _).2.map _) = _ ∧ _) ∨
    ((confirmBlock batch fcs (confirmedHead fcs block.blockInfo) _ _).1,
      (confirmBlock batch fcs (confirmedHead fcs block.blockInfo) _ _).2.map _) = _
  rcases confirmBlock_answered (update_confirmedHead batch hfinal) hfcu with
    ⟨hheld, hnot⟩ | hconfirmed
  · refine Or.inl ⟨fcuMethod, "SYNCING", ?_, hnot⟩
    rw [hheld]
    rfl
  · refine Or.inr ?_
    rw [hconfirmed]
    rfl

structure ChildOf (fcs : ForkchoiceState) (a : DerivedAttributes) (block : L2Block) : Prop where
  onSafe : a.blockNumber = fcs.safe.number + 1
  number : block.number = a.blockNumber
  parent : block.parentHash = fcs.safe.hash
  matching : blockMatchesAttributes a.attributes a.baseFee block = true

theorem rebuildBlock_child {index : ℕ} {block : L2Block}
    (hle : fcs.finalized.number ≤ fcs.safe.number) (ha : batch.attributes[index]? = some a)
    (hanswers : e.Answers batch fcs (.reorg index) replies) (hblock : block = e.build fcs.safe a)
    (hchild : ChildOf fcs a block) :
    (∃ method status, rebuildBlock batch.batchInfo fcs a replies =
        .error (.hold method status) ∧ ¬ replies.AllValid) ∨
      rebuildBlock batch.batchInfo fcs a replies = .ok block.withL1Messages := by
  have hpayload := hanswers.payload index a rfl ha
  rw [← hblock] at hpayload
  refine rebuildBlock_answered batch.batchInfo hle hanswers.build hpayload
    hanswers.newPayload ?_ (payloadMismatch_payload hchild.parent hchild.number hchild.matching)
  rw [hchild.onSafe, Nat.add_sub_cancel]

theorem performAction_reorg_answered {index : ℕ} {block : L2Block} (progress : AttemptProgress)
    (hle : fcs.finalized.number ≤ fcs.safe.number) (ha : batch.attributes[index]? = some a)
    (hanswers : e.Answers batch fcs (.reorg index) replies) (hblock : block = e.build fcs.safe a)
    (hchild : ChildOf fcs a block) :
    (∃ method status, performAction batch fcs progress (.reorg index) replies =
        (fcs, .error (.hold method status)) ∧ ¬ replies.AllValid) ∨
      performAction batch fcs progress (.reorg index) replies =
        (fcs.settledOn batch [block.withL1Messages],
          .ok ⟨progress.reorgResults ++ [block.withL1Messages], true⟩) := by
  simp only [performAction, ha]
  rcases rebuildBlock_child hle ha hanswers hblock hchild with
    ⟨method, status, hheld, hnot⟩ | hbuilt
  · exact Or.inl ⟨method, status, by rw [hheld], hnot⟩
  · have hnumber : block.withL1Messages.blockInfo.number = fcs.safe.number + 1 :=
      hchild.number.trans hchild.onSafe
    simp only [hbuilt]
    rcases confirmBlock_answered (update_rebuilt batch hle hnumber) hanswers.fcu with
      ⟨hheld, hnot⟩ | hconfirmed
    · refine Or.inl ⟨fcuMethod, "SYNCING", ?_, hnot⟩
      rw [hheld]
      rfl
    · refine Or.inr ?_
      rw [hconfirmed]
      rfl

def HeadsIn (heads : BlockInfo → Prop) (requests : List FcuRequest) : Prop :=
  ∀ request ∈ requests, ∀ new, request.candidate = .ok new → heads new.head

theorem headsIn_updateFcs {heads : BlockInfo → Prop} (replies : ActionReplies)
    (h : heads ((confirmedHead fcs block.blockInfo).getD fcs.head)) :
    HeadsIn heads (actionRequests batch fcs (.updateFcs block) replies) := by
  intro request hrequest new hnew
  rw [List.mem_singleton.1 hrequest] at hnew
  rw [(ForkchoiceState.update_eq_ok hnew).1]
  exact h

theorem headsIn_reorg {index : ℕ} {heads : BlockInfo → Prop} {block : L2Block}
    (hle : fcs.finalized.number ≤ fcs.safe.number) (ha : batch.attributes[index]? = some a)
    (hanswers : e.Answers batch fcs (.reorg index) replies) (hblock : block = e.build fcs.safe a)
    (hchild : ChildOf fcs a block) (hsafe : heads fcs.safe) (hhead : heads block.blockInfo) :
    HeadsIn heads (actionRequests batch fcs (.reorg index) replies) := by
  intro request hrequest new hnew
  have honsafe : fcs.safe.number = a.blockNumber - 1 := by
    rw [hchild.onSafe, Nat.add_sub_cancel]
  simp only [actionRequests, ha, honsafe, ne_eq, not_true_eq_false, if_false] at hrequest
  rcases List.mem_cons.1 hrequest with rfl | hrequest
  · have hnew : fcs.update (some fcs.safe) none none = .ok new := hnew
    rw [(ForkchoiceState.update_eq_ok hnew).1]
    exact hsafe
  · rcases rebuildBlock_child hle ha hanswers hblock hchild with
      ⟨method, status, hheld, -⟩ | hbuilt
    · rw [hheld] at hrequest
      cases hrequest
    · rw [hbuilt] at hrequest
      rw [List.mem_singleton.1 hrequest] at hnew
      have hnew : fcs.update (some block.blockInfo) (some block.blockInfo)
        (finalizedTarget batch block.blockInfo) = .ok new := hnew
      rw [(ForkchoiceState.update_eq_ok hnew).1]
      exact hhead

end
end RollupNode
