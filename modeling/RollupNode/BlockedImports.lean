import RollupNode.BuildRequests
import RollupNode.ImportAncestors
import RollupNode.MissingMessages

set_option autoImplicit false

/-! Blocked imports: a peer block that lacks an L1 message waits for the hash of that message. -/
namespace RollupNode
open GuardedRuns ExceptTraversal

/-! ### The held import -/

structure BlockedImport where
  block : L2Block
  missingL1Message : B256
  ancestors : List B256
  deriving DecidableEq, Repr

def Faulty.peerBlockEvent (node : Node) (config : ChainOrchestratorConfig) (faults : Faults)
    (received : PeerImport) : Except Halt PeerDecision := do
  let decision ← decidePeerBlock node.fcs config.optimisticSyncThreshold received.sources
    received.peer
  (importPeerBlock node config faults received).2
  return decision

def PeerDecision.isChainImport : PeerDecision → Bool
  | .extendChain _ => true
  | .reorgChain _ => true
  | .optimisticSync _ => true
  | _ => false

def supersedesBlockedImport (result : Except Halt PeerDecision) (blockNumber blockedNumber : ℕ) :
    Bool :=
  blockedNumber ≤ blockNumber &&
    match result with
    | .ok decision => decision.isChainImport
    | .error _ => false

def blockedOn : Except Halt PeerDecision → Option B256
  | .error (.error (.l1MessageNotFound (.transactionHash hash))) => some hash
  | _ => none

def trackBlockedImport (blocked : Option BlockedImport) (heldPasses : Bool) (block : L2Block)
    (ancestors : List B256) (result : Except Halt PeerDecision) : Option BlockedImport :=
  match blockedOn result with
  | some missing =>
    if blocked.any (fun held => block.hash ∈ held.ancestors ∧ heldPasses) then blocked
    else some ⟨block, missing, ancestors⟩
  | none =>
    if blocked.any (fun held => supersedesBlockedImport result block.number held.block.number) then
      none
    else blocked

/-- A turn of the loop, with the verdict on the held block and what the world answers when that
block is retried. -/
structure ImportTurn extends Turn where
  heldPasses : Bool
  sources : BlockSources
  signatureStored : Except Abort Unit
  replies : ImportReplies

def ImportTurn.retry (t : ImportTurn) (held : BlockedImport) : PeerImport :=
  ⟨t.sources, ⟨held.block, t.heldPasses, t.signatureStored⟩, t.replies⟩

def unblocksImport (blocked : Option BlockedImport) : L1Notification → Option BlockedImport
  | .l1Message message _ _ =>
    blocked.filter (fun held => message.txHash = held.missingL1Message)
  | _ => none

def Branch.retrying (retried : Option PeerImport) : Branch → Branch
  | .notification n client reply _ => .notification n client reply retried
  | branch => branch

def Branch.unwinds : Branch → Bool
  | .command (.revertToL1Block _ _) => true
  | .notification (.reorg _) _ _ _ => true
  | _ => false

structure ImportLoop where
  loop : Processed
  blocked : Option BlockedImport

namespace ImportLoop

def importPeerBlock (config : ChainOrchestratorConfig) (node : Node) (faults : Faults)
    (blocked : Option BlockedImport) (heldPasses : Bool) (received : PeerImport) :
    Option BlockedImport :=
  trackBlockedImport blocked heldPasses received.peer.block
    (importAncestors node.fcs config.optimisticSyncThreshold received.sources received.peer.block)
    (Faulty.peerBlockEvent node config faults received)

/-- What is held after a retry. A block that is finalized by now or no longer passes is dropped in
front of the import, which would do nothing with it but blame the peer. -/
def retryBlockedImport (config : ChainOrchestratorConfig) (node : Node) (t : ImportTurn)
    (held : BlockedImport) : Option BlockedImport :=
  if held.block.number ≤ node.fcs.finalized.number then none
  else if t.heldPasses = false then none
  else importPeerBlock config node (fun i => t.faults (i + 2)) none t.heldPasses (t.retry held)

def unblocked (config : ChainOrchestratorConfig) (s : ImportLoop) (t : ImportTurn) :
    Option BlockedImport :=
  match t.branch with
  | .notification n client reply _ =>
    match (Faulty.handleL1Notification s.loop.node config t.faults client reply n).2 with
    | .ok _ => unblocksImport s.blocked n
    | .error _ => none
  | _ => none

def blockedAfter (config : ChainOrchestratorConfig) (s : ImportLoop) (t : ImportTurn) :
    Option BlockedImport :=
  match t.branch with
  | .newBlock received =>
    importPeerBlock config s.loop.node t.faults s.blocked t.heldPasses received
  | .command (.revertToL1Block _ _) => none
  | .notification (.reorg _) _ _ _ => none
  | .notification n client reply _ =>
    match s.unblocked config t with
    | some held => retryBlockedImport config
        (Faulty.handleL1Notification s.loop.node config t.faults client reply n).1 t held
    | none => s.blocked
  | _ => s.blocked

def step (config : ChainOrchestratorConfig) (s : ImportLoop) (t : ImportTurn) : ImportLoop :=
  if s.loop.takes t.branch then
    { loop := s.loop.turn config
        ⟨t.branch.retrying ((s.unblocked config t).map t.retry), t.faults⟩
      blocked := s.blockedAfter config t }
  else s

def Waits (s : ImportLoop) : Prop :=
  s.loop.stopped = false → ∀ held ∈ s.blocked, ¬ s.loop.node.db.Stores held.missingL1Message

instance (s : ImportLoop) : Decidable s.Waits :=
  inferInstanceAs (Decidable (_ → ∀ held ∈ s.blocked, ¬ _))

/-- The turn is the notification of the message that the import waits for, and goes on with it. -/
def Retries (config : ChainOrchestratorConfig) (s : ImportLoop) (t : ImportTurn)
    (held : BlockedImport) : Prop :=
  ∃ message blockInfo timestamp client reply retried,
    t.branch = .notification (.l1Message message blockInfo timestamp) client reply retried ∧
      message.txHash = held.missingL1Message ∧
      (s.step config t).loop = .ofOutcome (Faulty.importPeerBlock
        (Faulty.handleL1Message s.loop.node config t.faults message blockInfo).1 config
        (fun i => t.faults (i + 2)) (t.retry held))

def WakesUp (config : ChainOrchestratorConfig) (s : ImportLoop) (t : ImportTurn) : Prop :=
  ∀ held ∈ s.blocked, ¬ s.loop.node.db.Stores held.missingL1Message →
    (s.step config t).loop.node.db.Stores held.missingL1Message → s.Retries config t held

end ImportLoop

inductive Descends (blockOf : B256 → Option L2Block) : L2Block → B256 → Prop where
  | parent (block : L2Block) : Descends blockOf block block.parentHash
  | ancestor {block parent : L2Block} {hash : B256} (hparent : blockOf block.parentHash = some parent)
      (h : Descends blockOf parent hash) : Descends blockOf block hash

namespace ImportLoop

inductive Drops (config : ChainOrchestratorConfig) (blockOf : B256 → Option L2Block)
    (s : ImportLoop) (t : ImportTurn) (held : BlockedImport) : Prop where
  | retried (h : s.Retries config t held)
  | reached (received : PeerImport) (decision : PeerDecision) (hbranch : t.branch = .newBlock received)
      (hevent : Faulty.peerBlockEvent s.loop.node config t.faults received = .ok decision)
      (himport : decision.isChainImport = true)
      (hheight : held.block.number ≤ received.peer.block.number)
  | replaced (received : PeerImport) (hash : B256) (hbranch : t.branch = .newBlock received)
      (hblocked : blockedOn (Faulty.peerBlockEvent s.loop.node config t.faults received) = some hash)
      (h : ¬ Descends blockOf held.block received.peer.block.hash ∨ t.heldPasses = false)
  | unwound (h : t.branch.unwinds = true)

def DropsOnly (config : ChainOrchestratorConfig) (blockOf : B256 → Option L2Block)
    (s : ImportLoop) (t : ImportTurn) : Prop :=
  ∀ held ∈ s.blocked, (s.step config t).blocked.map (·.block) ≠ some held.block →
    Drops config blockOf s t held

/-- The message that an import misses, a peer's or the one that is retried, is not stored. A held
block that is kept is not asked about again. -/
def BlocksOnAbsent (config : ChainOrchestratorConfig) (s : ImportLoop) (t : ImportTurn) : Prop :=
  s.loop.takes t.branch = true →
    match t.branch with
    | .newBlock received =>
      ∀ hash, Misses s.loop.node config t.faults received hash →
        (∃ held ∈ s.blocked, received.peer.block.hash ∈ held.ancestors ∧ t.heldPasses = true) ∨
          ¬ s.loop.node.db.Stores hash
    | .notification (.l1Message message blockInfo _) _ _ _ =>
      let handled := Faulty.handleL1Message s.loop.node config t.faults message blockInfo
      handled.2 = .ok () → ∀ held ∈ s.blocked, message.txHash = held.missingL1Message →
        ∀ hash, Misses handled.1 config (fun i => t.faults (i + 2)) (t.retry held) hash →
          ¬ handled.1.db.Stores hash
    | _ => True

def NamesAncestors (config : ChainOrchestratorConfig) (blockOf : B256 → Option L2Block)
    (s : ImportLoop) (t : ImportTurn) : Prop :=
  s.loop.takes t.branch = true →
    match t.branch with
    | .newBlock received =>
      ∀ hash, Misses s.loop.node config t.faults received hash →
        ∀ held ∈ s.blocked, received.peer.block ≠ held.block → t.heldPasses = true →
          Descends blockOf held.block received.peer.block.hash →
            received.peer.block.hash ∈ held.ancestors
    | _ => True

end ImportLoop

/-! ### What one turn does to the held import -/

variable {hash : B256} {result : Except Halt PeerDecision} {faults : Faults} {node : Node}
  {received : PeerImport} {client : L2Client}

theorem blockedOn_eq_some :
    blockedOn result = some hash ↔
      result = .error (.error (.l1MessageNotFound (.transactionHash hash))) := by
  constructor
  · intro h
    unfold blockedOn at h
    split at h
    · cases h
      rfl
    · cases h
  · rintro rfl
    rfl

variable {config : ChainOrchestratorConfig}

theorem Faulty.blockedOn_iff :
    blockedOn (peerBlockEvent node config faults received) = some hash ↔
      (importPeerBlock node config faults received).2 = .error (.missing hash) := by
  rw [blockedOn_eq_some]
  cases hdecision : decidePeerBlock node.fcs config.optimisticSyncThreshold received.sources
      received.peer with
  | error e =>
    have hevent : peerBlockEvent node config faults received = .error e := by
      rw [peerBlockEvent, hdecision]
      rfl
    rw [hevent, importPeerBlock]
    simp only [hdecision, Except.error.injEq]
    rfl
  | ok decision =>
    have hevent : peerBlockEvent node config faults received =
        ((importPeerBlock node config faults received).2 >>= fun _ => .ok decision) := by
      rw [peerBlockEvent, hdecision]
      rfl
    rw [hevent]
    cases (importPeerBlock node config faults received).2 with
    | error e =>
      constructor
      · intro h
        exact congrArg Except.error (Except.error.inj h)
      · intro h
        exact congrArg Except.error (Except.error.inj h)
    | ok u => exact iff_of_false (fun h => by cases h) (fun h => by cases h)

theorem Faulty.mem_blockedOn (hunique : node.db.HashesUnique) :
    hash ∈ blockedOn (peerBlockEvent node config faults received) ↔
      Misses node config faults received hash :=
  blockedOn_iff.trans (importPeerBlock_missing hunique config faults received hash)

theorem Faulty.blockedOn_of_ignored {decision : PeerDecision}
    (hdecision : decidePeerBlock node.fcs config.optimisticSyncThreshold received.sources
      received.peer = .ok decision) (hignored : decision.isChainImport = false) :
    blockedOn (peerBlockEvent node config faults received) = none := by
  have hok : (importPeerBlock node config faults received).2 = .ok () := by
    unfold importPeerBlock
    simp only [hdecision]
    cases decision <;> first | rfl | cases hignored
  have hevent : peerBlockEvent node config faults received = .ok decision := by
    unfold peerBlockEvent
    rw [hdecision, hok]
    rfl
  rw [hevent]
  rfl

theorem trackBlockedImport_some (held : BlockedImport) (heldPasses : Bool) (block : L2Block)
    (ancestors : List B256) (result : Except Halt PeerDecision) :
    trackBlockedImport (some held) heldPasses block ancestors result =
      match blockedOn result with
      | some missing =>
        if block.hash ∈ held.ancestors ∧ heldPasses = true then some held
        else some ⟨block, missing, ancestors⟩
      | none =>
        if supersedesBlockedImport result block.number held.block.number then none
        else some held := by
  unfold trackBlockedImport
  simp only [Option.any_some, decide_eq_true_eq]

theorem supersedesBlockedImport_iff {blockNumber blockedNumber : ℕ} :
    supersedesBlockedImport result blockNumber blockedNumber = true ↔
      blockedNumber ≤ blockNumber ∧ ∃ decision, result = .ok decision ∧
        decision.isChainImport = true := by
  unfold supersedesBlockedImport
  cases result with
  | error e => simp
  | ok decision => simp

namespace Branch

theorem selects_retrying (node : Node) (retried : Option PeerImport) (branch : Branch) :
    node.selects (branch.retrying retried) = node.selects branch := by
  cases branch <;> rfl

theorem eq_notification_of_retrying {retried retried' : Option PeerImport} {branch : Branch}
    {n : L1Notification} {reply : Reply ForkchoiceUpdated}
    (h : branch.retrying retried = .notification n client reply retried') :
    retried = retried' ∧ ∃ given, branch = .notification n client reply given := by
  cases branch with
  | notification n client reply given =>
    cases h
    exact ⟨rfl, given, rfl⟩
  | _ => cases h

end Branch

namespace ImportLoop

section
variable {config : ChainOrchestratorConfig} {s : ImportLoop} {t : ImportTurn}

theorem step_of_takes (h : s.loop.takes t.branch = true) : s.step config t =
    ⟨Faulty.takeBranch config t.faults s.loop.node
      (t.branch.retrying ((s.unblocked config t).map t.retry)), s.blockedAfter config t⟩ := by
  have htakes : s.loop.takes (t.branch.retrying ((s.unblocked config t).map t.retry)) = true := by
    rw [Processed.takes, Branch.selects_retrying]
    exact h
  rw [step, if_pos h, Processed.turn, if_pos htakes]

theorem step_of_not_takes (h : ¬ s.loop.takes t.branch = true) : s.step config t = s := if_neg h

theorem unblocked_eq_some {held : BlockedImport} : s.unblocked config t = some held ↔
    ∃ message blockInfo timestamp client reply retried,
      t.branch = .notification (.l1Message message blockInfo timestamp) client reply retried ∧
        (Faulty.handleL1Message s.loop.node config t.faults message blockInfo).2 = .ok () ∧
        s.blocked = some held ∧ message.txHash = held.missingL1Message := by
  constructor
  · intro h
    unfold unblocked at h
    split at h
    · rename_i n client reply retried hbranch
      split at h
      · rename_i hok
        unfold unblocksImport at h
        split at h
        · rename_i message blockInfo timestamp
          obtain ⟨hheld, hhash⟩ := Option.filter_eq_some_iff.1 h
          exact ⟨message, blockInfo, timestamp, client, reply, retried, hbranch, hok, hheld,
            of_decide_eq_true hhash⟩
        · cases h
      · cases h
    · cases h
  · rintro ⟨message, blockInfo, timestamp, client, reply, retried, hbranch, hok, hheld, hhash⟩
    have hok : (Faulty.handleL1Notification s.loop.node config t.faults client reply
        (.l1Message message blockInfo timestamp)).2 = .ok () := hok
    simp only [unblocked, hbranch, hok, unblocksImport, hheld]
    exact Option.filter_eq_some_iff.2 ⟨rfl, decide_eq_true hhash⟩

theorem retries_of_unblocked {held : BlockedImport} (htakes : s.loop.takes t.branch = true)
    (h : s.unblocked config t = some held) : s.Retries config t held := by
  obtain ⟨message, blockInfo, timestamp, client, reply, retried, hbranch, hok, -, hhash⟩ :=
    unblocked_eq_some.1 h
  refine ⟨message, blockInfo, timestamp, client, reply, retried, hbranch, hhash, ?_⟩
  have hok : (Faulty.handleL1Notification s.loop.node config t.faults client reply
      (.l1Message message blockInfo timestamp)).2 = .ok () := hok
  rw [step_of_takes htakes, h, hbranch]
  simp only [Branch.retrying, Option.map_some, Faulty.takeBranch, Faulty.retryBlockedImport, hok]
  rfl

theorem unblocked_of_stores {held : BlockedImport} (htakes : s.loop.takes t.branch = true)
    (hheld : s.blocked = some held) (hbefore : ¬ s.loop.node.db.Stores held.missingL1Message)
    (hafter : (s.step config t).loop.node.db.Stores held.missingL1Message) :
    s.unblocked config t = some held := by
  rw [step_of_takes htakes] at hafter
  rcases Faulty.takeBranch_stores hafter with hstored |
    ⟨message, blockInfo, timestamp, client, reply, retried, hbranch, hhash, hok⟩
  · exact absurd hstored hbefore
  · obtain ⟨-, given, hbranch⟩ := Branch.eq_notification_of_retrying hbranch
    exact unblocked_eq_some.2 ⟨message, blockInfo, timestamp, client, reply, given, hbranch, hok,
      hheld, hhash.symm⟩

theorem wakesUp (config : ChainOrchestratorConfig) (s : ImportLoop) (t : ImportTurn) :
    WakesUp config s t := by
  intro held hheld hbefore hafter
  by_cases htakes : s.loop.takes t.branch = true
  · exact retries_of_unblocked htakes (unblocked_of_stores htakes hheld hbefore hafter)
  · rw [step_of_not_takes htakes] at hafter
    exact absurd hafter hbefore

theorem importPeerBlock_none (config : ChainOrchestratorConfig) (node : Node) (faults : Faults)
    (heldPasses : Bool) (received : PeerImport) :
    importPeerBlock config node faults none heldPasses received =
      (blockedOn (Faulty.peerBlockEvent node config faults received)).map
        (fun missing => ⟨received.peer.block, missing, importAncestors node.fcs
          config.optimisticSyncThreshold received.sources received.peer.block⟩) := by
  unfold importPeerBlock trackBlockedImport
  cases blockedOn (Faulty.peerBlockEvent node config faults received) with
  | none => rfl
  | some missing => rfl

theorem retryBlockedImport_eq (config : ChainOrchestratorConfig) (node : Node) (t : ImportTurn)
    (held : BlockedImport) : retryBlockedImport config node t held =
      (blockedOn (Faulty.peerBlockEvent node config (fun i => t.faults (i + 2)) (t.retry held))).map
        (fun missing => ⟨held.block, missing, importAncestors node.fcs
          config.optimisticSyncThreshold t.sources held.block⟩) := by
  unfold retryBlockedImport
  split
  · rename_i hfinalized
    have hdecision : decidePeerBlock node.fcs config.optimisticSyncThreshold t.sources
        (t.retry held).peer = .ok .finalizedBlockReceived := if_pos hfinalized
    rw [Faulty.blockedOn_of_ignored hdecision rfl]
    rfl
  rename_i hfinalized
  split
  · rename_i hfails
    have hdecision : decidePeerBlock node.fcs config.optimisticSyncThreshold t.sources
        (t.retry held).peer = .ok .blockFailedConsensusChecks :=
      (if_neg hfinalized).trans (if_pos hfails)
    rw [Faulty.blockedOn_of_ignored hdecision rfl]
    rfl
  · exact importPeerBlock_none config node _ t.heldPasses (t.retry held)

/-! ### Dropping the held block -/

theorem dropped_by_newBlock {held : BlockedImport} (hbranch : t.branch = .newBlock received)
    (hheld : s.blocked = some held) (h : (s.blockedAfter config t).map (·.block) ≠ some held.block) :
    (∃ decision, Faulty.peerBlockEvent s.loop.node config t.faults received = .ok decision ∧
        decision.isChainImport = true ∧ held.block.number ≤ received.peer.block.number) ∨
      ∃ hash, blockedOn (Faulty.peerBlockEvent s.loop.node config t.faults received) = some hash ∧
        received.peer.block ≠ held.block ∧
        ¬ (received.peer.block.hash ∈ held.ancestors ∧ t.heldPasses = true) := by
  simp only [blockedAfter, hbranch, importPeerBlock, hheld, trackBlockedImport_some] at h
  cases hblocked : blockedOn (Faulty.peerBlockEvent s.loop.node config t.faults received) with
  | some hash =>
    simp only [hblocked] at h
    split at h
    · exact absurd rfl h
    · rename_i hnew
      refine .inr ⟨hash, rfl, ?_, hnew⟩
      intro hsame
      exact h (congrArg some hsame)
  | none =>
    simp only [hblocked] at h
    split at h
    · rename_i hreaches
      obtain ⟨hheight, decision, hevent, himport⟩ := supersedesBlockedImport_iff.1 hreaches
      exact .inl ⟨decision, hevent, himport, hheight⟩
    · exact absurd rfl h

/-- Other turns than peer blocks drop the held import at an unwind, retry it or leave it. -/
theorem blockedAfter_cases (config : ChainOrchestratorConfig)
    (hother : ∀ received, t.branch ≠ .newBlock received) :
    t.branch.unwinds = true ∧ s.blockedAfter config t = none ∨
      (∃ held, s.blocked = some held ∧ s.unblocked config t = some held) ∨
      s.unblocked config t = none ∧ s.blockedAfter config t = s.blocked := by
  have hretry (hafter : s.unblocked config t = none → s.blockedAfter config t = s.blocked) :
      (∃ held, s.blocked = some held ∧ s.unblocked config t = some held) ∨
        s.unblocked config t = none ∧ s.blockedAfter config t = s.blocked := by
    cases hunblocked : s.unblocked config t with
    | none => exact .inr ⟨rfl, hafter hunblocked⟩
    | some held =>
      obtain ⟨_, _, _, _, _, _, -, -, hheld, -⟩ := unblocked_eq_some.1 hunblocked
      exact .inl ⟨held, hheld, rfl⟩
  cases hbranch : t.branch with
  | newBlock received => exact absurd hbranch (hother received)
  | command command =>
    cases command with
    | revertToL1Block n reply => exact .inl ⟨rfl, by simp only [blockedAfter, hbranch]⟩
    | _ => exact .inr (hretry (fun _ => by simp only [blockedAfter, hbranch]))
  | notification n client reply retried =>
    cases n with
    | reorg number => exact .inl ⟨rfl, by simp only [blockedAfter, hbranch]⟩
    | _ =>
      refine .inr (hretry ?_)
      intro hnone
      simp only [blockedAfter, hbranch, hnone]
  | _ => exact .inr (hretry (fun _ => by simp only [blockedAfter, hbranch]))

theorem dropsOnly_iff (hunique : s.loop.node.db.HashesUnique)
    (blockOf : B256 → Option L2Block) :
    DropsOnly config blockOf s t ↔ NamesAncestors config blockOf s t := by
  by_cases htakes : s.loop.takes t.branch = true
  swap
  · refine iff_of_true ?_ (fun htaken => absurd htaken htakes)
    intro held hheld hdropped
    rw [step_of_not_takes htakes, hheld] at hdropped
    exact absurd rfl hdropped
  unfold DropsOnly NamesAncestors
  rw [step_of_takes htakes]
  simp only [htakes, forall_true_left]
  split
  · rename_i received hbranch
    constructor
    · intro hdrops hash hmisses held hheld hother hpasses hdescends
      by_contra hunnamed
      have hblocked := Option.mem_def.1 ((Faulty.mem_blockedOn hunique).2 hmisses)
      have hreplaced : (s.blockedAfter config t).map (·.block) = some received.peer.block := by
        simp only [blockedAfter, hbranch, importPeerBlock, Option.mem_def.1 hheld,
          trackBlockedImport_some, hblocked]
        rw [if_neg (fun hkept => hunnamed hkept.1)]
        rfl
      have hdropped : (s.blockedAfter config t).map (·.block) ≠ some held.block := by
        rw [hreplaced]
        exact fun hsame => hother (Option.some.inj hsame)
      cases hdrops held hheld hdropped with
      | retried h =>
        obtain ⟨_, _, _, _, _, _, hnotified, -⟩ := h
        rw [hbranch] at hnotified
        cases hnotified
      | reached received' decision hbranch' hevent himport hheight =>
        rw [hbranch] at hbranch'
        cases hbranch'
        rw [hevent] at hblocked
        cases hblocked
      | replaced received' hash' hbranch' hblocked' h =>
        rw [hbranch] at hbranch'
        cases hbranch'
        rcases h with h | h
        · exact h hdescends
        · rw [hpasses] at h
          cases h
      | unwound h =>
        rw [hbranch] at h
        cases h
    · intro hnamed held hheld hdropped
      rcases dropped_by_newBlock hbranch hheld hdropped with
        ⟨decision, hevent, himport, hheight⟩ | ⟨hash, hblocked, hother, hnew⟩
      · exact .reached received decision hbranch hevent himport hheight
      · refine .replaced received hash hbranch hblocked ?_
        by_contra hkept
        simp only [not_or, not_not, Bool.not_eq_false] at hkept
        refine hnew ⟨?_, hkept.2⟩
        exact hnamed hash ((Faulty.mem_blockedOn hunique).1 hblocked) held hheld hother hkept.2
          hkept.1
  · rename_i hother
    refine iff_of_true ?_ trivial
    intro held hheld hdropped
    have hheld : s.blocked = some held := hheld
    rcases blockedAfter_cases config hother with
      ⟨hunwinds, -⟩ | ⟨found, hfound, hunblocked⟩ | ⟨-, hsame⟩
    · exact .unwound hunwinds
    · rw [hheld] at hfound
      cases hfound
      exact .retried (retries_of_unblocked htakes hunblocked)
    · rw [hsame, hheld] at hdropped
      exact absurd rfl hdropped

/-! ### Waiting for what is not stored -/

theorem waits_import_iff (config : ChainOrchestratorConfig) (node : Node) (faults : Faults)
    (received : PeerImport) (ancestors : List B256) :
    Waits ⟨.ofOutcome (Faulty.importPeerBlock node config faults received),
        (blockedOn (Faulty.peerBlockEvent node config faults received)).map
          (fun missing => ⟨received.peer.block, missing, ancestors⟩)⟩ ↔
      ∀ hash ∈ blockedOn (Faulty.peerBlockEvent node config faults received),
        ¬ node.db.Stores hash := by
  cases hblocked : blockedOn (Faulty.peerBlockEvent node config faults received) with
  | none => simp [Waits]
  | some hash =>
    have hended := Faulty.blockedOn_iff.1 hblocked
    have hstores := (Faulty.importPeerBlock_keeps node config faults received).stores_iff hash
    simp only [Waits, Processed.ofOutcome, hended, Halt.missing, forall_true_left, Option.map_some,
      Option.mem_some_iff, forall_eq', hstores]

theorem waits_of_same (h : s.Waits) (htakes : s.loop.takes t.branch = true)
    (hunblocked : s.unblocked config t = none) (hsame : s.blockedAfter config t = s.blocked) :
    (s.step config t).Waits := by
  intro _ held hheld hafter
  have hheld : s.blocked = some held := by
    rw [← hsame]
    rw [step_of_takes htakes] at hheld
    exact hheld
  have hbefore := h (BuildRequests.not_stopped_of_takes htakes) held hheld
  rw [unblocked_of_stores htakes hheld hbefore hafter] at hunblocked
  cases hunblocked

theorem waits_newBlock_iff (h : s.Waits) (hbranch : t.branch = .newBlock received)
    (htakes : s.loop.takes t.branch = true) :
    (s.step config t).Waits ↔
      ∀ hash ∈ blockedOn (Faulty.peerBlockEvent s.loop.node config t.faults received),
        (∃ held ∈ s.blocked, received.peer.block.hash ∈ held.ancestors ∧ t.heldPasses = true) ∨
          ¬ s.loop.node.db.Stores hash := by
  have hunblocked : s.unblocked config t = none := by
    simp only [unblocked, hbranch]
  have himport := waits_import_iff config s.loop.node t.faults received
    (importAncestors s.loop.node.fcs config.optimisticSyncThreshold received.sources
      received.peer.block)
  have hloop : Faulty.takeBranch config t.faults s.loop.node
      (t.branch.retrying ((s.unblocked config t).map t.retry)) =
        .ofOutcome (Faulty.importPeerBlock s.loop.node config t.faults received) := by
    rw [hbranch]
    rfl
  have hafter : s.blockedAfter config t =
      importPeerBlock config s.loop.node t.faults s.blocked t.heldPasses received := by
    simp only [blockedAfter, hbranch]
  cases hheld : s.blocked with
  | none =>
    rw [step_of_takes htakes, hloop, hafter, hheld, importPeerBlock_none]
    simp [himport]
  | some held =>
    have hwaits := waits_of_same h htakes hunblocked
    rw [hafter, hheld, importPeerBlock, trackBlockedImport_some] at hwaits
    simp only [Option.mem_some_iff, exists_eq_left']
    cases hblocked : blockedOn (Faulty.peerBlockEvent s.loop.node config t.faults received) with
    | none =>
      refine iff_of_true ?_ (by simp)
      simp only [hblocked] at hwaits
      by_cases hreached : supersedesBlockedImport (Faulty.peerBlockEvent s.loop.node config t.faults
          received) received.peer.block.number held.block.number = true
      · intro _ held' hheld'
        rw [step_of_takes htakes, hafter, hheld, importPeerBlock, trackBlockedImport_some] at hheld'
        simp only [hblocked, if_pos hreached] at hheld'
        cases hheld'
      · exact hwaits (if_neg hreached)
    | some hash =>
      simp only [hblocked] at hwaits
      by_cases hkept : received.peer.block.hash ∈ held.ancestors ∧ t.heldPasses = true
      · exact iff_of_true (hwaits (if_pos hkept)) (fun _ _ => .inl hkept)
      · rw [step_of_takes htakes, hloop, hafter, hheld, importPeerBlock, trackBlockedImport_some]
        rw [hblocked] at himport ⊢
        simp only [hkept, if_false, false_or]
        exact himport

/-- A turn keeps the held import waiting exactly when what it blocks on is absent. -/
theorem waits_step_iff (hunique : s.loop.node.db.HashesUnique) (h : s.Waits) :
    (s.step config t).Waits ↔ BlocksOnAbsent config s t := by
  by_cases htakes : s.loop.takes t.branch = true
  swap
  · rw [step_of_not_takes htakes]
    exact iff_of_true h (fun htaken => absurd htaken htakes)
  unfold BlocksOnAbsent
  simp only [htakes, forall_true_left]
  split
  · rename_i received hbranch
    rw [waits_newBlock_iff h hbranch htakes]
    simp only [Faulty.mem_blockedOn hunique]
  · rename_i message blockInfo timestamp client reply retried hbranch
    cases hunblocked : s.unblocked config t with
    | none =>
      refine iff_of_true (waits_of_same h htakes hunblocked ?_) ?_
      · simp only [blockedAfter, hbranch, hunblocked]
      · intro hok held hheld hhash
        have hsome := unblocked_eq_some.2 ⟨message, blockInfo, timestamp, client, reply, retried,
          hbranch, hok, hheld, hhash⟩
        rw [hunblocked] at hsome
        cases hsome
    | some held =>
      obtain ⟨_, _, _, _, _, _, hbranch', hok, hheld, hhash⟩ := unblocked_eq_some.1 hunblocked
      rw [hbranch] at hbranch'
      cases hbranch'
      obtain ⟨_, _, _, _, _, _, hbranch', -, hloop⟩ := retries_of_unblocked htakes hunblocked
      rw [hbranch] at hbranch'
      cases hbranch'
      have hafter : (s.step config t).blocked = retryBlockedImport config
          (Faulty.handleL1Message s.loop.node config t.faults message blockInfo).1 t held := by
        rw [step_of_takes htakes]
        simp only [blockedAfter, hbranch, hunblocked]
        rfl
      have hstep : s.step config t = ⟨(s.step config t).loop, (s.step config t).blocked⟩ := rfl
      have hhandled := Faulty.handleL1Message_hashesUnique hunique config t.faults message blockInfo
      rw [hstep, hloop, hafter, retryBlockedImport_eq]
      simp only [hok, forall_true_left, hheld, Option.mem_some_iff, forall_eq', hhash]
      refine (waits_import_iff config _ _ (t.retry held) _).trans ?_
      simp only [Faulty.mem_blockedOn hhandled]
  · rename_i hnew hmessage
    refine iff_of_true ?_ trivial
    rcases blockedAfter_cases config hnew with
      ⟨-, hnone⟩ | ⟨held, -, hunblocked⟩ | ⟨hunblocked, hsame⟩
    · intro _ held hheld
      rw [step_of_takes htakes, hnone] at hheld
      cases hheld
    · obtain ⟨_, _, _, _, _, _, hbranch, -⟩ := unblocked_eq_some.1 hunblocked
      exact absurd hbranch (hmessage _ _ _ _ _ _)
    · exact waits_of_same h htakes hunblocked hsame

end

/-- In every state of the run what the held import waits for is not stored, the turn that stores
it retries the import, and the held block is dropped for one of the four reasons only. -/
structure NoLostWakeUp (config : ChainOrchestratorConfig) (blockOf : B256 → Option L2Block)
    (start : ImportLoop) (turns : List ImportTurn) : Prop where
  waits : ∀ done rest, turns = done ++ rest → (run (step config) start done).Waits
  wakesUp : ∀ done t rest, turns = done ++ t :: rest → WakesUp config (run (step config) start done) t
  dropsOnly : ∀ done t rest, turns = done ++ t :: rest →
    DropsOnly config blockOf (run (step config) start done) t

theorem hashesUnique_step (config : ChainOrchestratorConfig) {s : ImportLoop} (t : ImportTurn)
    (h : s.loop.node.db.HashesUnique) : (s.step config t).loop.node.db.HashesUnique := by
  by_cases htakes : s.loop.takes t.branch = true
  · rw [step_of_takes htakes]
    rw [Db.hashesUnique_iff] at h ⊢
    exact Faulty.takeBranch_nodup h
  · rw [step_of_not_takes htakes]
    exact h

theorem hashesUnique_run (config : ChainOrchestratorConfig) (s : ImportLoop)
    (h : s.loop.node.db.HashesUnique) (turns : List ImportTurn) :
    (run (step config) s turns).loop.node.db.HashesUnique :=
  (meets_true (step config) s turns).invariant (step config) (fun s => s.loop.node.db.HashesUnique)
    (fun _ t hs _ => hashesUnique_step config t hs) h

/-- No wake-up is lost in a run exactly if every turn meets both conditions in the state it is
taken in. The database starts with the unique hashes that its schema demands. -/
theorem noLostWakeUp_iff (config : ChainOrchestratorConfig) (blockOf : B256 → Option L2Block)
    (loop : Processed) (hunique : loop.node.db.HashesUnique) (turns : List ImportTurn) :
    NoLostWakeUp config blockOf ⟨loop, none⟩ turns ↔
      Meets (step config) (fun s t => BlocksOnAbsent config s t ∧ NamesAncestors config blockOf s t)
        ⟨loop, none⟩ turns := by
  have hstart : Waits ⟨loop, none⟩ := fun _ held hheld => by cases hheld
  have hwaits : Meets (step config) (BlocksOnAbsent config) ⟨loop, none⟩ turns ↔
      ∀ done rest, turns = done ++ rest → (run (step config) ⟨loop, none⟩ done).Waits := by
    refine meets_iff_forall_run (step config) Waits (fun s => s.loop.node.db.HashesUnique) ?_ hunique
      hstart (meets_true (step config) _ turns)
    intro s t hs hwaits _
    exact ⟨hashesUnique_step config t hs, waits_step_iff hs hwaits⟩
  have hdrops : Meets (step config) (NamesAncestors config blockOf) ⟨loop, none⟩ turns ↔
      ∀ done t rest, turns = done ++ t :: rest →
        DropsOnly config blockOf (run (step config) ⟨loop, none⟩ done) t := by
    rw [meets_iff_forall_step]
    simp only [dropsOnly_iff (hashesUnique_run config ⟨loop, none⟩ hunique _)]
  rw [meets_and, hwaits, hdrops]
  constructor
  · intro h
    exact ⟨h.waits, h.dropsOnly⟩
  · rintro ⟨hall, honly⟩
    exact ⟨hall, fun done t rest _ => wakesUp config _ t, honly⟩

end ImportLoop

/-- While the held block passes, it is kept for a delayed block of its chain, down to where that
chain meets the canonical one. It gives way to a block that is not below it on its chain, and to
every block once it no longer passes. -/
theorem ForkScenario.trackBlockedImport_delayed (s : ForkScenario) (haccepted : s.Accepted)
    (missing hash : B256) (heldPasses : Bool) (block : L2Block) (ancestors : List B256)
    (result : Except Halt PeerDecision) (hblocked : blockedOn result = some hash) :
    let held : BlockedImport :=
      ⟨s.received, missing, importAncestors s.fcs s.threshold s.sources s.received⟩
    (heldPasses = true → block ∈ s.peer → s.ancestor.number ≤ block.number →
      block.number < s.received.number →
      trackBlockedImport (some held) heldPasses block ancestors result = some held) ∧
    (heldPasses = false ∨ (∀ b ∈ s.peer, b.number < s.received.number → b.hash ≠ block.hash) →
      trackBlockedImport (some held) heldPasses block ancestors result =
        some ⟨block, hash, ancestors⟩) := by
  obtain ⟨hnamed, hall⟩ := s.importAncestors_named haccepted
  simp only [trackBlockedImport_some, hblocked]
  constructor
  · intro hpasses hpeer hle hlt
    exact if_pos ⟨hall block hpeer hle hlt, hpasses⟩
  · intro hother
    refine if_neg ?_
    rintro ⟨hmem, hpasses⟩
    rcases hother with hfails | hother
    · rw [hpasses] at hfails
      cases hfails
    · obtain ⟨b, hb, hlt, hsame⟩ := hnamed block.hash hmem
      exact hother b hb hlt hsame

def forkAboveSafe : ForkScenario :=
  { forkAtSafe with
    fcs := ⟨⟨3, 23⟩, ⟨0, 7⟩, ⟨0, 7⟩⟩
    fcs_head := rfl
    finalized_le := le_rfl
    safe_le := by decide
    unfinalized := by decide
    within := by decide
    newer := Or.inl (by decide) }

/-- The third block of the fork comes late: the held fourth one is kept, unless it fails by now. -/
theorem trackBlockedImport_delayed_third : let s := forkAboveSafe
    let held : BlockedImport :=
      ⟨s.received, 5, importAncestors s.fcs s.threshold s.sources s.received⟩
    let delayed : Except Halt PeerDecision := .error (.missing 6)
    s.Accepted ∧ trackBlockedImport (some held) true (emptyBlock 3 33 32) [] delayed = some held ∧
      trackBlockedImport (some held) false (emptyBlock 3 33 32) [] delayed =
        some ⟨emptyBlock 3 33 32, 6, []⟩ := by
  have haccepted : forkAboveSafe.Accepted := .inl (by decide)
  have hdelayed (heldPasses : Bool) := forkAboveSafe.trackBlockedImport_delayed haccepted 5 6
    heldPasses (emptyBlock 3 33 32) [] (.error (.missing 6)) rfl
  exact ⟨haccepted, (hdelayed true).1 rfl (by decide) (by decide) (by decide),
    (hdelayed false).2 (.inl rfl)⟩

/-! ### Imports that nobody retries -/

def BlockSources.ofChains (canonical peer : List L2Block) : BlockSources where
  client := .ofChain canonical
  blockByHash hash := .ok (canonical.find? (fun b => b.hash = hash))
  fullBlockRange hash count :=
    ((peer.take (peer.findIdx (fun b => b.hash = hash) + 1)).reverse).take count

def announced (canonical peer : List L2Block) (status : PayloadStatusEnum) : ImportTurn where
  branch := .newBlock ⟨.ofChains canonical peer,
    ⟨peer.getLastD (emptyBlock 0 0 0), true, .ok ()⟩,
    ⟨fun _ => .ok ⟨.valid, none⟩, .ok (.ofStatus status)⟩⟩
  faults := noFaults
  heldPasses := true
  sources := .ofChains canonical peer
  signatureStored := .ok ()
  replies := ⟨fun _ => .ok ⟨.valid, none⟩, validReply⟩

def notifiedOf (canonical : List L2Block) (n : L1Notification) : ImportTurn :=
  { announced canonical [] .valid with branch := .notification n (.ofChain canonical) validReply none }

namespace DelayedMessage

def genesis : L2Block := emptyBlock 0 1 0
def first : L2Block := blockWith 1 21 1 100
def rival : L2Block := { emptyBlock 1 31 1 with timestamp := 5 }
def taken : L2Block := { blockWith 2 32 31 100 with timestamp := 6 }

/-- The message of the first block comes back in a fork. The Engine is still syncing the fork's
first block, so that the message stays mapped to the block that is replaced. -/
def turns : List ImportTurn :=
  [notifiedOf [genesis] (.l1Message ⟨0, 21000, 100⟩ ⟨10, 10⟩ 0),
    announced [genesis] [genesis, first] .valid,
    announced [genesis, first] [genesis, rival] .syncing,
    announced [genesis, rival] [genesis, rival, taken] .valid]

def inTime : List ImportTurn :=
  [announced [genesis] [genesis, first] .valid,
    notifiedOf [genesis] (.l1Message ⟨0, 21000, 100⟩ ⟨10, 10⟩ 0)]

end DelayedMessage

theorem hashesUnique_of_empty {db : Db} (h : db.l1Messages.rows = []) : db.HashesUnique := by
  intro r hr
  have hr : r ∈ db.l1Messages.rows := hr
  rw [h] at hr
  cases hr

/-- The block is held for the message, and imported when the message comes. -/
theorem noLostWakeUp_iff_inTime :
    ImportLoop.NoLostWakeUp sampleConfig (fun _ => none) ⟨syncedSequencer, none⟩
        DelayedMessage.inTime ∧
      (run (ImportLoop.step sampleConfig) ⟨syncedSequencer, none⟩
        (DelayedMessage.inTime.take 1)).blocked.map (fun held => (held.block, held.missingL1Message)) =
          some (DelayedMessage.first, 100) ∧
      (run (ImportLoop.step sampleConfig) ⟨syncedSequencer, none⟩
        DelayedMessage.inTime).loop.node.fcs.head = ⟨1, 21⟩ := by
  have hunique : syncedSequencer.node.db.HashesUnique := hashesUnique_of_empty rfl
  have hheld := ImportLoop.hashesUnique_step sampleConfig (s := ⟨syncedSequencer, none⟩)
    (announced [DelayedMessage.genesis] [DelayedMessage.genesis, DelayedMessage.first] .valid) hunique
  refine ⟨(ImportLoop.noLostWakeUp_iff sampleConfig _ syncedSequencer hunique _).2 ?_, by decide,
    by decide⟩
  exact ⟨⟨(ImportLoop.waits_step_iff hunique (by decide)).1 (by decide),
      fun _ _ _ held hheld => by cases hheld⟩,
    ⟨(ImportLoop.waits_step_iff hheld (by decide)).1 (by decide), fun _ => trivial⟩, trivial⟩

namespace DelayedAncestor

def genesis : L2Block := emptyBlock 0 1 0
def first : L2Block := emptyBlock 1 21 1
def second : L2Block := blockWith 2 22 21 100
def third : L2Block := emptyBlock 3 23 22
def fourth : L2Block := emptyBlock 4 24 23
def fifth : L2Block := blockWith 5 25 24 101
def rival : L2Block := { emptyBlock 2 32 21 with timestamp := 5 }

def peer : List L2Block := [genesis, first, second, third, fourth, fifth]

/-- Four blocks are imported before L1 is synced, the fifth is blocked on top of them, and a rival
of the second block wins. -/
def turns : List ImportTurn :=
  [announced [genesis] (peer.take 5) .valid,
    notifiedOf (peer.take 5) .synced,
    announced (peer.take 5) peer .valid,
    announced (peer.take 5) [genesis, first, rival] .valid]

def last : ImportTurn := announced [genesis, first, rival] (peer.take 4) .valid

end DelayedAncestor

/-- The fork's block waits for a message that is stored; and the fifth block is dropped for one of
its ancestors, which its import had no need to fetch. -/
theorem held_imports_lost :
    (∀ blockOf, ¬ ImportLoop.NoLostWakeUp sampleConfig blockOf ⟨syncedSequencer, none⟩
        DelayedMessage.turns) ∧
      ¬ ImportLoop.NoLostWakeUp sampleConfig
        (fun hash => DelayedAncestor.peer.find? (fun b => b.hash = hash)) ⟨⟨.fresh 1, false⟩, none⟩
        (DelayedAncestor.turns ++ [DelayedAncestor.last]) := by
  constructor
  · intro blockOf h
    have hwaits := h.waits DelayedMessage.turns [] rfl
    revert hwaits
    decide
  · intro h
    have hunique := ImportLoop.hashesUnique_run sampleConfig ⟨⟨.fresh 1, false⟩, none⟩
      (hashesUnique_of_empty rfl) DelayedAncestor.turns
    have hnamed := (ImportLoop.dropsOnly_iff hunique _).1
      (h.dropsOnly DelayedAncestor.turns _ [] rfl)
    have hheld : (run (ImportLoop.step sampleConfig) ⟨⟨.fresh 1, false⟩, none⟩
        DelayedAncestor.turns).blocked = some ⟨DelayedAncestor.fifth, 101, [24, 24]⟩ := by
      decide
    have hparent : DelayedAncestor.peer.find? (fun b => b.hash = DelayedAncestor.fifth.parentHash) =
      some DelayedAncestor.fourth := rfl
    have hmember : DelayedAncestor.third.hash ∈ [(24 : B256), 24] :=
      hnamed (by decide) 100 ((Faulty.mem_blockedOn hunique).1 (by decide)) _ hheld (by decide) rfl
        (.ancestor hparent (.parent _))
    revert hmember
    decide

end RollupNode
