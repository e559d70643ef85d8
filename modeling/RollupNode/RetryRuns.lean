import RollupNode.RetryEquivalence

set_option autoImplicit false

/-! Runs of held attempts that end in a completed one, compared with a single attempt. -/
namespace RollupNode
open LinkedChain

variable {client : L2Client} {db : Db} {fcs : ForkchoiceState} {o : BatchConsolidationOutcome}
  {replies : ℕ → ActionReplies} {node node' : Node} {c : Chain L2Block}
  {plan : BatchReconciliationResult} {action : BlockConsolidationAction}

theorem checkSafeFrontier_ne_hold {method status : String} {batch : BatchInfo} :
    checkSafeFrontier client fcs db batch ≠ .error (.hold method status) := by
  intro h
  unfold checkSafeFrontier at h
  split at h
  · cases h
  · cases h
  · split at h
    · cases h
    · split at h
      · cases h
      · split at h
        · cases h
        · cases h

theorem storeOutcome_ne_hold {method status : String} {skipped : List ℕ} :
    (storeOutcome db o skipped).2 ≠ .error (.hold method status) := by
  intro h
  unfold storeOutcome at h
  split at h
  · cases h
  · cases h
  · cases h

variable {batch : BatchDerivationResult} {fcs' : ForkchoiceState}

theorem reconcileAndConsolidate_eq_hold {method status : String} {db' : Db}
    (h : reconcileAndConsolidate client replies fcs db batch =
      (fcs', db', .error (.hold method status))) :
    ∃ plan, checkSafeFrontier client fcs db batch.batchInfo = .ok () ∧
      reconcileBatch client batch fcs = .ok plan ∧
      performActions batch fcs ⟨[], false⟩ plan.aggregateActions replies =
        (fcs', .error (.hold method status)) := by
  unfold reconcileAndConsolidate at h
  split at h
  · rename_i failure hfrontier
    cases h
    exact absurd hfrontier checkSafeFrontier_ne_hold
  rename_i u hfrontier
  split at h
  · cases h
  rename_i plan hplan
  split at h
  · rename_i fcs₁ failure hperformed
    cases h
    exact ⟨plan, hfrontier, hplan, hperformed⟩
  · simp only [Prod.mk.injEq] at h
    exact absurd h.2.2 storeOutcome_ne_hold

variable {a : DerivedAttributes}

theorem rebuildBlock_of_number {batch : BatchInfo} {replies : ActionReplies}
    (h : fcs.safe.number ≠ a.blockNumber - 1) :
    ∃ method status error,
      rebuildBlock batch fcs a replies = .error (.fatal method status error) := by
  simp only [rebuildBlock, h, ne_eq, not_false_eq_true, if_true, throw, throwThe,
    MonadExceptOf.throw, bind, Except.bind]
  exact ⟨_, _, _, rfl⟩

theorem rebuildBlock_of_safe_lt {batch : BatchInfo} {replies : ActionReplies}
    (hcheck : fcs.safe.number = a.blockNumber - 1) (h : fcs.safe.number < fcs.finalized.number) :
    ∃ method status error,
      rebuildBlock batch fcs a replies = .error (.fatal method status error) := by
  have hrequest : ∃ error, fcs.buildPayload (some fcs.safe) replies.build = .error error := by
    cases hbuilt : fcs.buildPayload (some fcs.safe) replies.build with
    | error error => exact ⟨error, rfl⟩
    | ok response =>
      obtain ⟨new, hnew⟩ := update_of_buildPayload hbuilt
      obtain ⟨rfl, -, -, hle⟩ := ForkchoiceState.update_eq_ok hnew
      exact absurd hle (Nat.not_le.2 h)
  obtain ⟨error, hrequest⟩ := hrequest
  simp only [rebuildBlock, hcheck, ne_eq, not_true_eq_false, if_false, bind, Except.bind, pure,
    Except.pure]
  rw [hrequest]
  exact ⟨_, _, _, rfl⟩

theorem rebuildReady_of_performed {first : ℕ} {result : Except AttemptFailure AttemptProgress}
    (hconsecutive : ConsecutiveAttributes first batch.attributes)
    (habove : (matchedBlocks client batch.attributes).length < batch.attributes.length →
      0 < first + (matchedBlocks client batch.attributes).length)
    (hplan : reconcileBatch client batch fcs = .ok plan)
    (h : performActions batch fcs ⟨[], false⟩ plan.aggregateActions replies = (fcs', result))
    (hgoes : ∀ method status error, result ≠ .error (.fatal method status error)) :
    RebuildReady batch first client fcs := by
  intro hconfirm hlt
  have hpos := habove hlt
  obtain ⟨a, ha⟩ : ∃ a, batch.attributes[(matchedBlocks client batch.attributes).length]? =
      some a := ⟨_, List.getElem?_eq_getElem hlt⟩
  have hnumber := hconsecutive.get ha
  obtain ⟨k, hk⟩ : ∃ k, batch.attributes.length -
      (matchedBlocks client batch.attributes).length = k + 1 :=
    Nat.exists_eq_add_one.2 (by omega)
  rw [aggregateActions_eq hconsecutive hplan] at h
  simp only [aggregatedActions, hconfirm, List.nil_append, hk, List.range'_succ, List.map_cons,
    performActions, performAction, ha] at h
  by_contra hne
  obtain ⟨method, status, error, hfatal⟩ : ∃ method status error,
      rebuildBlock batch.batchInfo fcs a (replies 0) = .error (.fatal method status error) := by
    by_cases hcheck : fcs.safe.number = a.blockNumber - 1
    · refine rebuildBlock_of_safe_lt hcheck (Nat.lt_of_not_le (fun hle => hne ⟨?_, hle⟩))
      omega
    · exact rebuildBlock_of_number hcheck
  simp only [hfatal] at h
  cases h
  exact hgoes _ _ _ rfl

/-- An attempt that does not fail had a plan, and was ready to rebuild. -/
theorem Node.runAttempt_eq_ok {step : AttemptStep} {first : ℕ} (hheld : node.held = some batch)
    (hconsecutive : ConsecutiveAttributes first batch.attributes)
    (habove : (matchedBlocks client batch.attributes).length < batch.attributes.length →
      0 < first + (matchedBlocks client batch.attributes).length)
    (h : node.runAttempt client replies = (node', .ok step)) :
    ∃ plan, checkSafeFrontier client node.fcs node.db batch.batchInfo = .ok () ∧
      reconcileBatch client batch node.fcs = .ok plan ∧
      RebuildReady batch first client node.fcs := by
  simp only [runAttempt, hheld] at h
  split at h
  · rename_i fcs db outcome hattempt
    obtain ⟨plan, progress, hfrontier, hplan, hperformed, -, -⟩ :=
      reconcileAndConsolidate_eq_ok hattempt
    exact ⟨plan, hfrontier, hplan, rebuildReady_of_performed hconsecutive habove hplan hperformed
      (fun _ _ _ hfatal => by cases hfatal)⟩
  · rename_i fcs db method status hattempt
    obtain ⟨plan, hfrontier, hplan, hperformed⟩ := reconcileAndConsolidate_eq_hold hattempt
    exact ⟨plan, hfrontier, hplan, rebuildReady_of_performed hconsecutive habove hplan hperformed
      (fun _ _ _ hfatal => by cases hfatal)⟩
  · cases h
  · cases h

namespace RetryStart

variable {e : Builder} {s : RetryStart e} {d : Chain L2Block} {final : ForkchoiceState}
  {moved : Bool}

def completedNode (node : Node) (final : ForkchoiceState) (db : Db) : Node :=
  { node with fcs := final, db := db, held := none, attemptScheduled := false }

theorem EndsIn.runAttempt (h : s.EndsIn d final moved) (hd : s.Target d) {step : Node.AttemptStep}
    (hheld : node.held = some s.batch) (hway : s.OnTheWay d c) (hreached : s.Reached d node.fcs)
    (hanswers : e.AnswersAttempt node (clientOf c) replies)
    (hrun : node.runAttempt (clientOf c) replies = (node', .ok step)) :
    HeadsIn (s.Heads d) (node.attemptRequests (clientOf c) replies) ∧
      (step = .held ∧ (∃ fcs, s.Reached d fcs ∧
          node' = { node with fcs := fcs, attemptScheduled := true }) ∧
          (¬ ∀ i, (replies i).AllValid) ∨
        ∃ db, storeOutcome node.db (s.outcome d moved) s.batch.skippedL1Messages =
            (db, .ok (s.outcome d moved)) ∧
          step = .completed (s.outcome d moved) ∧ node' = completedNode node final db) := by
  have habove : (matchedBlocks (clientOf c) s.batch.attributes).length <
      s.batch.attributes.length →
        0 < s.first + (matchedBlocks (clientOf c) s.batch.attributes).length := by
    intro hlt
    obtain ⟨m, hlow, hm, hfound⟩ := hway.matched hd
    rw [hfound, hd.targets_take_length hm] at hlt ⊢
    have hpos := s.above (Nat.lt_of_le_of_lt hlow hlt)
    omega
  obtain ⟨plan, hfrontier, hplan, hready⟩ :=
    Node.runAttempt_eq_ok hheld s.consecutive habove hrun
  obtain ⟨hheads, hends⟩ := h.attempt hway hreached hready hfrontier hplan
    (hanswers s.batch plan hheld hplan)
  refine ⟨?_, ?_⟩
  · simp only [Node.attemptRequests, hheld]
    exact hheads
  · simp only [Node.runAttempt, hheld] at hrun
    rcases hends with ⟨fcs', method, status, hattempt, hreached', hnot⟩ | hattempt
    · simp only [hattempt] at hrun
      cases hrun
      exact Or.inl ⟨rfl, ⟨fcs', hreached', by rw [← hheld]⟩, hnot⟩
    · simp only [hattempt] at hrun
      refine Or.inr ?_
      rcases hstored : storeOutcome node.db (s.outcome d moved) s.batch.skippedL1Messages with
        ⟨db, failure | o⟩
      · simp only [hstored] at hrun
        cases failure with
        | hold method status => exact absurd (congrArg Prod.snd hstored) storeOutcome_ne_hold
        | fatal method status error => cases hrun
        | panic message => cases hrun
      · simp only [hstored] at hrun
        cases hrun
        obtain rfl := (storeOutcome_eq_ok hstored).1
        exact ⟨db, rfl, rfl, rfl⟩

theorem EndsIn.retries (h : s.EndsIn d final moved) (hd : s.Target d)
    (hrun : e.Retries node c node' o) (hheld : node.held = some s.batch) (hway : s.OnTheWay d c)
    (hreached : s.Reached d node.fcs) :
    ∃ db, storeOutcome node.db (s.outcome d moved) s.batch.skippedL1Messages =
        (db, .ok (s.outcome d moved)) ∧
      o = s.outcome d moved ∧ node' = completedNode node final db := by
  induction hrun with
  | completed hanswers hattempt =>
    obtain ⟨-, ⟨hstep, -⟩ | ⟨db, hstored, hstep, hnode⟩⟩ :=
      h.runAttempt hd hheld hway hreached hanswers hattempt
    · cases hstep
    · cases hstep
      exact ⟨db, hstored, rfl, hnode⟩
  | held hanswers hattempt hadopts hrest ih =>
    obtain ⟨hheads, ⟨-, ⟨fcs, hfcs, rfl⟩, -⟩ | ⟨db, -, hstep, -⟩⟩ :=
      h.runAttempt hd hheld hway hreached hanswers hattempt
    · exact ih hheld (hway.adopts hd hadopts hheads) hfcs
    · cases hstep

theorem begins_of_retries (hheld : node.held = some s.batch) (hfcs : node.fcs = s.fcs)
    (hrun : e.Retries node s.chain node' o) :
    s.Begins ∧ ∃ plan,
      checkSafeFrontier (clientOf s.chain) node.fcs node.db s.batch.batchInfo = .ok () ∧
      reconcileBatch (clientOf s.chain) s.batch node.fcs = .ok plan := by
  unfold Begins
  rw [← hfcs]
  cases hrun with
  | completed hanswers hattempt =>
    obtain ⟨plan, hfrontier, hplan, hready⟩ :=
      Node.runAttempt_eq_ok hheld s.consecutive s.aboveGenesis hattempt
    exact ⟨hready, plan, hfrontier, hplan⟩
  | held hanswers hattempt hadopts hrest =>
    obtain ⟨plan, hfrontier, hplan, hready⟩ :=
      Node.runAttempt_eq_ok hheld s.consecutive s.aboveGenesis hattempt
    exact ⟨hready, plan, hfrontier, hplan⟩

theorem onTheWay_chain (s : RetryStart e) (d : Chain L2Block) : s.OnTheWay d s.chain := by
  refine ⟨s.first + s.kept + s.chain.blocks.length, by omega, Or.inl ?_⟩
  exact (List.take_of_length_le (by omega)).symm

end RetryStart

/-! ### A batch cannot rebuild genesis -/
section
variable {e : Builder} {batch : BatchDerivationResult} {a : DerivedAttributes}
  {rest : List DerivedAttributes}

theorem rebuildBlock_genesis {replies : ActionReplies} (hbuilds : e.Builds batch)
    (hattributes : batch.attributes = a :: rest) (hgenesis : a.blockNumber = 0)
    (hanswers : e.Answers batch fcs (.reorg 0) replies) :
    ∃ failure, rebuildBlock batch.batchInfo fcs a replies = .error failure := by
  cases hbuilt : rebuildBlock batch.batchInfo fcs a replies with
  | error failure => exact ⟨failure, rfl⟩
  | ok block =>
    have hrebuilds := rebuilds_of_rebuildBlock hbuilt
    obtain ⟨p, hpayload, -, -, hinfo⟩ := hrebuilds.payload
    have ha : batch.attributes[0]? = some a := by
      rw [hattributes]
      rfl
    obtain rfl := Except.ok.inj ((hanswers.payload 0 a rfl ha).symm.trans hpayload)
    have hnumber : block.blockInfo.number = (e.build fcs.safe a).number :=
      congrArg BlockInfo.number hinfo
    rw [hrebuilds.number, hgenesis, hbuilds.number] at hnumber
    omega

theorem performActions_genesis {first : ℕ} (hbuilds : e.Builds batch)
    (hattributes : batch.attributes = a :: rest) (hgenesis : a.blockNumber = 0)
    (hconsecutive : ConsecutiveAttributes first batch.attributes)
    (hnone : matchedBlock client a = none) (hplan : reconcileBatch client batch fcs = .ok plan)
    (hanswers : e.AnswersAll batch fcs ⟨[], false⟩ plan.aggregateActions replies) :
    (∃ failure, performActions batch fcs ⟨[], false⟩ plan.aggregateActions replies =
        (fcs, .error failure)) ∧
      HeadsIn (· = fcs.safe)
        (attemptRequests batch fcs ⟨[], false⟩ plan.aggregateActions replies) := by
  have hmatched : matchedBlocks client batch.attributes = [] := by
    rw [hattributes]
    simp only [matchedBlocks, hnone]
  have hactions : plan.aggregateActions =
      .reorg 0 :: (List.range' 1 rest.length).map .reorg := by
    rw [aggregateActions_eq hconsecutive hplan, aggregatedActions, hmatched]
    simp only [confirmActions, List.getLast?_nil, List.nil_append, List.length_nil, hattributes,
      List.length_cons, Nat.sub_zero, List.range'_succ, List.map_cons]
  rw [hactions] at hanswers ⊢
  obtain ⟨failure, hfailure⟩ := rebuildBlock_genesis hbuilds hattributes hgenesis hanswers.1
  have ha : batch.attributes[0]? = some a := by
    rw [hattributes]
    rfl
  have hperformed : performAction batch fcs ⟨[], false⟩ (.reorg 0) (replies 0) =
      (fcs, .error failure) := by
    simp only [performAction, ha, hfailure]
  refine ⟨⟨failure, by simp only [performActions, hperformed]⟩, ?_⟩
  intro request hrequest new hnew
  simp only [attemptRequests, hperformed, List.append_nil, actionRequests, ha, hfailure] at hrequest
  split at hrequest
  · cases hrequest
  · rw [List.mem_singleton.1 hrequest] at hnew
    have hnew : fcs.update (some fcs.safe) none none = .ok new := hnew
    rw [(ForkchoiceState.update_eq_ok hnew).1]
    rfl

theorem Builder.Adopts.genesis {start : Chain L2Block} {safe : L2Block} {c' : Chain L2Block}
    {requests : List FcuRequest} (hbuilds : e.Builds batch) (hstart : ∀ b ∈ start, b ∈ e.blocks)
    (hsafe : safe ∈ start) (hadopts : e.Adopts c requests c')
    (hheads : HeadsIn (· = safe.blockInfo) requests) (hc : c.blocks[0]? = start.blocks[0]?) :
    c'.blocks[0]? = start.blocks[0]? := by
  induction hadopts with
  | nil => exact hc
  | keeps hrest ih => exact ih (fun r hr => hheads r (List.mem_cons_of_mem _ hr)) hc
  | adopts hnew hblocks htip hhead hrest ih =>
    refine ih (fun r hr => hheads r (List.mem_cons_of_mem _ hr)) ?_
    have hinfo := hhead.trans (hheads _ List.mem_cons_self _ hnew)
    have htipIn := List.mem_of_getLast? htip
    obtain rfl := hbuilds.hash_inj _ (hblocks _ htipIn) safe (hstart safe hsafe)
      (congrArg BlockInfo.hash hinfo)
    have hfree : CollisionFree _ start := fun x hx y hy hhash =>
      hbuilds.hash_inj x (hblocks x hx) y (hstart y hy) hhash
    exact agreesTo_of_mem hfree htipIn hsafe 0 (Nat.zero_le _)

theorem not_retries_genesis {start : Chain L2Block} {safe : L2Block} {first : ℕ}
    (hbuilds : e.Builds batch) (hattributes : batch.attributes = a :: rest)
    (hgenesis : a.blockNumber = 0) (hconsecutive : ConsecutiveAttributes first batch.attributes)
    (hstart : ∀ b ∈ start, b ∈ e.blocks) (hin : safe ∈ start)
    (hnone : matchedBlock (clientOf start) a = none) (hheld : node.held = some batch)
    (hsafe : safe.blockInfo = node.fcs.safe) (hc : c.blocks[0]? = start.blocks[0]?) :
    ¬ e.Retries node c node' o := by
  intro hrun
  have hnoneOf : ∀ chain : Chain L2Block, chain.blocks[0]? = start.blocks[0]? →
      matchedBlock (clientOf chain) a = none := by
    intro chain hchain
    refine Option.eq_none_iff_forall_ne_some.2 ?_
    intro b hb
    obtain ⟨hat, hmatch⟩ := matchedBlock_clientOf.1 hb
    rw [hgenesis, hchain, ← hgenesis] at hat
    rw [matchedBlock_clientOf.2 ⟨hat, hmatch⟩] at hnone
    cases hnone
  induction hrun with
  | completed hanswers hattempt =>
    simp only [Node.runAttempt, hheld] at hattempt
    split at hattempt
    · rename_i fcs db outcome hdone
      obtain ⟨plan, progress, -, hplan, hperformed, -, -⟩ := reconcileAndConsolidate_eq_ok hdone
      obtain ⟨⟨failure, hfailure⟩, -⟩ := performActions_genesis hbuilds hattributes hgenesis
        hconsecutive (hnoneOf _ hc) hplan (hanswers batch plan hheld hplan)
      rw [hfailure] at hperformed
      cases hperformed
    · cases hattempt
    · cases hattempt
    · cases hattempt
  | held hanswers hattempt hadopts hrest ih =>
    simp only [Node.runAttempt, hheld] at hattempt
    split at hattempt
    · cases hattempt
    · rename_i fcs db method status hdone
      obtain ⟨plan, hfrontier, hplan, hperformed⟩ := reconcileAndConsolidate_eq_hold hdone
      obtain ⟨⟨failure, hfailure⟩, hheads⟩ := performActions_genesis hbuilds hattributes hgenesis
        hconsecutive (hnoneOf _ hc) hplan (hanswers batch plan hheld hplan)
      rw [hfailure] at hperformed
      cases hperformed
      cases hattempt
      refine ih rfl hsafe (hadopts.genesis hbuilds hstart hin ?_ hc)
      rw [hsafe]
      simp only [Node.attemptRequests, hheld, reconcileRequests, hfrontier, hplan]
      exact hheads
    · cases hattempt
    · cases hattempt

end

/-- Holding and retrying changes nothing: a run of attempts that completes ends in the node and
with the outcome of a single attempt with `VALID` answers, when the head is not above the batch
or the chain has the whole batch. -/
theorem retries_eq_single {e : Builder} {node node' : Node} {chain : Chain L2Block}
    {batch : BatchDerivationResult} {first : ℕ} {outcome : BatchConsolidationOutcome}
    {replies : ℕ → ActionReplies} (hheld : node.held = some batch)
    (hconsecutive : ConsecutiveAttributes first batch.attributes)
    (hbuilds : e.Builds batch) (hblocks : ∀ b ∈ chain, b ∈ e.blocks)
    (hhead : ∃ b ∈ chain, b.blockInfo = node.fcs.head)
    (hsafe : ∃ b ∈ chain, b.blockInfo = node.fcs.safe)
    (hcondition : node.fcs.head.number < first + batch.attributes.length ∨
      ∀ a ∈ batch.attributes, (matchedBlock (clientOf chain) a).isSome)
    (hrun : e.Retries node chain node' outcome)
    (hanswers : e.AnswersAttempt node (clientOf chain) replies)
    (hvalid : ∀ i, (replies i).AllValid) :
    node.runAttempt (clientOf chain) replies = (node', .ok (.completed outcome)) := by
  have habove : (matchedBlocks (clientOf chain) batch.attributes).length <
      batch.attributes.length →
        0 < first + (matchedBlocks (clientOf chain) batch.attributes).length := by
    intro hlt
    by_contra hzero
    obtain ⟨safe, hin, hinfo⟩ := hsafe
    have hnil : (matchedBlocks (clientOf chain) batch.attributes).length = 0 := by omega
    obtain ⟨a, rest, hattributes⟩ := List.exists_cons_of_length_pos (Nat.zero_lt_of_lt hlt)
    have ha : batch.attributes[0]? = some a := by
      rw [hattributes]
      rfl
    have hgenesis := hconsecutive.get ha
    have hat : batch.attributes[(matchedBlocks (clientOf chain) batch.attributes).length]? =
        some a := by
      rw [hnil]
      exact ha
    exact not_retries_genesis hbuilds hattributes (by omega) hconsecutive hblocks hin
      (matchedBlock_at_length hat) hheld hinfo rfl hrun
  let s : RetryStart e := ⟨batch, first, chain, node.fcs, hconsecutive, habove, hbuilds, hblocks,
    hhead, hsafe⟩
  obtain ⟨hbegins, plan, hfrontier, hplan⟩ :=
    RetryStart.begins_of_retries (s := s) hheld rfl hrun
  obtain ⟨d, hd⟩ := s.exists_target hbegins
  obtain ⟨final, moved, hends⟩ := hd.exists_end hbegins
    (hcondition.imp_right (matchedBlocks_length_eq_iff _ _).2)
  have hway := s.onTheWay_chain d
  have hreached : s.Reached d node.fcs := Or.inl rfl
  obtain ⟨db, hstored, rfl, rfl⟩ := hends.retries hd hrun hheld hway hreached
  -- the single attempt is not held, so it ends where the run did
  obtain ⟨-, ⟨_, _, _, -, -, hnot⟩ | hattempt⟩ := hends.attempt hway hreached hbegins hfrontier
    hplan (hanswers batch plan hheld hplan)
  · exact absurd hvalid hnot
  · simp only [Node.runAttempt, hheld]
    rw [hattempt, hstored]
    rfl

def staleBlock : L2Block := { emptyBlock 1 21 7 with timestamp := 5 }

def rebuiltBlock : L2Block := emptyBlock 1 31 7

def knownBlocks : List L2Block :=
  [emptyBlock 0 7 0, staleBlock, emptyBlock 2 22 21, rebuiltBlock]

def rebuildingEngine : Builder where
  blocks := { b | b ∈ knownBlocks }
  build := fun parent _ => emptyBlock (parent.number + 1) 31 parent.hash

def genesisChain : Chain L2Block := .ofBlocks [emptyBlock 0 7 0] (by decide) (by decide)

def staleChain : Chain L2Block :=
  .ofBlocks [emptyBlock 0 7 0, staleBlock, emptyBlock 2 22 21] (by decide) (by decide)

def rebuiltChain : Chain L2Block :=
  .ofBlocks [emptyBlock 0 7 0, rebuiltBlock] (by decide) (by decide)

def firstBlockBatch : BatchDerivationResult := ⟨[plainAttributes 1], ⟨1, 11⟩, [], .consolidated⟩

def holdingNode (head : BlockInfo) : Node :=
  { Node.fresh 7 with
    db := (migrated 7).insertBatch firstCommit
    fcs := ⟨head, ⟨0, 7⟩, ⟨0, 7⟩⟩
    held := some firstBlockBatch
    attemptScheduled := true }

def answering (fcu : PayloadStatusEnum) : ActionReplies :=
  { plainReplies 7 1 31 with fcu := .ok (.ofStatus fcu) }

theorem answering_answers {head : BlockInfo} {fcu : PayloadStatusEnum}
    (h : fcu = .valid ∨ fcu = .syncing) :
    rebuildingEngine.Answers batch (holdingNode head).fcs action (answering fcu) where
  build := ⟨_, rfl, Or.inl ⟨rfl, rfl⟩⟩
  payload := fun _ _ _ _ => rfl
  newPayload := ⟨_, rfl, Or.inl rfl⟩
  fcu := ⟨_, rfl, h⟩

theorem answering_valid : (answering .valid).AllValid := by
  constructor
  · rintro r ⟨⟩
    rfl
  · rintro r ⟨⟩
    rfl
  · rintro r ⟨⟩
    rfl

theorem Builder.answersAttempt_of_action {e : Builder} (hheld : node.held = some batch)
    (hplan : reconcileBatch client batch node.fcs = .ok plan)
    (hactions : plan.aggregateActions = [action]) (h : e.Answers batch node.fcs action (replies 0)) :
    e.AnswersAttempt node client replies := by
  intro batch' plan' hheld' hplan'
  obtain rfl := Option.some.inj (hheld.symm.trans hheld')
  obtain rfl := Except.ok.inj (hplan.symm.trans hplan')
  rw [hactions]
  exact ⟨h, fun _ _ _ => trivial⟩

theorem rebuildingEngine_builds : rebuildingEngine.Builds firstBlockBatch where
  hash_inj := by
    change ∀ a ∈ knownBlocks, ∀ b ∈ knownBlocks, a.hash = b.hash → a = b
    decide
  number := fun _ _ => rfl
  builds := by
    change ∀ parent ∈ knownBlocks, ∀ a ∈ [plainAttributes 1], a.blockNumber = parent.number + 1 →
      emptyBlock (parent.number + 1) 31 parent.hash ∈ knownBlocks ∧
      (emptyBlock (parent.number + 1) 31 parent.hash).parentHash = parent.hash ∧
      blockMatchesAttributes a.attributes a.baseFee
        (emptyBlock (parent.number + 1) 31 parent.hash) = true
    decide

theorem retries_adopted (chain : Chain L2Block) (head : BlockInfo) {build confirm : FcuRequest}
    {plan' : BatchReconciliationResult} {outcome : BatchConsolidationOutcome}
    (hplan : reconcileBatch (clientOf chain) firstBlockBatch (holdingNode head).fcs = .ok plan)
    (hactions : plan.aggregateActions = [.reorg 0])
    (hheld : (holdingNode head).runAttempt (clientOf chain) (fun _ => answering .syncing) =
      (holdingNode head, .ok .held))
    (hrequests : (holdingNode head).attemptRequests (clientOf chain)
      (fun _ => answering .syncing) = [build, confirm])
    (hconfirm : confirm.candidate = .ok ⟨⟨1, 31⟩, ⟨1, 31⟩, ⟨0, 7⟩⟩)
    (hplan' : reconcileBatch (clientOf rebuiltChain) firstBlockBatch (holdingNode head).fcs =
      .ok plan') (hactions' : plan'.aggregateActions = [action])
    (hcompleted : (holdingNode head).runAttempt (clientOf rebuiltChain)
      (fun _ => answering .valid) = (node', .ok (.completed outcome))) :
    rebuildingEngine.Retries (holdingNode head) chain node' outcome := by
  have hblocks : ∀ b ∈ rebuiltChain, b ∈ rebuildingEngine.blocks := by
    change ∀ b ∈ [emptyBlock 0 7 0, rebuiltBlock], b ∈ knownBlocks
    decide
  refine .held (Builder.answersAttempt_of_action rfl hplan hactions
    (answering_answers (Or.inr rfl))) hheld ?_ (.completed (Builder.answersAttempt_of_action rfl
      hplan' hactions' (answering_answers (Or.inl rfl))) hcompleted)
  rw [hrequests]
  exact .keeps (.adopts hconfirm hblocks rfl rfl .nil)

theorem retries_eq_single_genesis :
    ∃ node' outcome,
      rebuildingEngine.Retries (holdingNode ⟨0, 7⟩) genesisChain node' outcome ∧
      (holdingNode ⟨0, 7⟩).runAttempt (clientOf genesisChain) (fun _ => answering .valid) =
        (node', .ok (.completed outcome)) := by
  have hrun := retries_adopted genesisChain ⟨0, 7⟩ rfl rfl rfl rfl rfl rfl rfl rfl
  refine ⟨_, _, hrun, ?_⟩
  have hblocks : ∀ b ∈ genesisChain, b ∈ rebuildingEngine.blocks := by
    change ∀ b ∈ [emptyBlock 0 7 0], b ∈ knownBlocks
    decide
  have hanswers : rebuildingEngine.AnswersAttempt (holdingNode ⟨0, 7⟩) (clientOf genesisChain)
      (fun _ => answering .valid) :=
    Builder.answersAttempt_of_action rfl rfl rfl (answering_answers (Or.inl rfl))
  exact retries_eq_single rfl (show ConsecutiveAttributes 1 _ from rfl) rebuildingEngine_builds
    hblocks ⟨emptyBlock 0 7 0, List.mem_cons_self, rfl⟩ ⟨emptyBlock 0 7 0, List.mem_cons_self, rfl⟩
    (Or.inl (by decide)) hrun hanswers (fun _ => answering_valid)

/-- Block 1 of the starting chain does not match, and the head is block 2 above it. The held
attempt ends with this head, which is no longer on the chain of the safe block; the single
attempt moves the head to the rebuilt block. -/
theorem retried_head_off_safe_chain :
    ∃ node' node'' outcome outcome',
      rebuildingEngine.Builds firstBlockBatch ∧
      rebuildingEngine.Retries (holdingNode ⟨2, 22⟩) staleChain node' outcome ∧
      rebuildingEngine.AnswersAttempt (holdingNode ⟨2, 22⟩) (clientOf staleChain)
        (fun _ => answering .valid) ∧
      (answering .valid).AllValid ∧
      (holdingNode ⟨2, 22⟩).runAttempt (clientOf staleChain) (fun _ => answering .valid) =
        (node'', .ok (.completed outcome')) ∧
      node'.fcs.head = ⟨2, 22⟩ ∧ node'.fcs.safe = ⟨1, 31⟩ ∧ node''.fcs.head = ⟨1, 31⟩ :=
  ⟨_, _, _, _, rebuildingEngine_builds,
    retries_adopted staleChain ⟨2, 22⟩ rfl rfl rfl rfl rfl rfl rfl rfl,
    Builder.answersAttempt_of_action rfl rfl rfl (answering_answers (Or.inl rfl)),
    answering_valid, rfl, rfl, rfl, rfl⟩

end RollupNode
