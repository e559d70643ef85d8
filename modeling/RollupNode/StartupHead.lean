import Mathlib.Tactic.IntervalCases
import RollupNode.Reconciliation

set_option autoImplicit false

/-! The L2 head at startup: the stored head is lowered to the newest block the node still has. -/
namespace RollupNode
open RelationalTable Table

/-- The execution node: its canonical blocks by number, and the blocks behind its tags. -/
structure L2Node extends L2Client where
  latest : Reply (Option L2Block)
  safe : Reply (Option L2Block)
  finalized : Reply (Option L2Block)

def ForkchoiceState.fromProvider (node : L2Node) : Option ForkchoiceState := do
  let latest ← node.latest.toOption.join
  let safe ← node.safe.toOption.join
  let finalized ← node.finalized.toOption.join
  let safe := if safe.number < finalized.number then finalized else safe
  return ⟨latest.blockInfo, safe.blockInfo, finalized.blockInfo⟩

inductive StartupError where
  | rpcError (message : String)
  | fcsError (e : FcsError)
  | database (e : Abort)
  deriving DecidableEq, Repr

/-- The loop from a head number downwards, while it is above the finalized block. Only a block
that is found moves the forkchoice state and the database. -/
def recoverL2Head (client : L2Client) (fcs : ForkchoiceState) (db : Db) :
    ℕ → Except StartupError (ForkchoiceState × Db)
  | 0 => .ok (fcs, db)
  | n + 1 =>
    if n + 1 ≤ fcs.finalized.number then .ok (fcs, db)
    else
      match client.blockByNumber (n + 1) with
      | .error message => .error (.rpcError message)
      | .ok none => recoverL2Head client fcs db n
      | .ok (some block) =>
        match fcs.update (some block.blockInfo) none none with
        | .error e => .error (.fcsError e)
        | .ok fcs' =>
          match (db.setL2HeadBlockNumber (n + 1)).purgeL1MessageToL2BlockMappings
              (some (n + 1 + 1)) with
          | .error e => .error (.database e)
          | .ok db' => .ok (fcs', db')

def startupL2Head (node : L2Node) (fcs : ForkchoiceState) (db : Db) :
    Except StartupError (ForkchoiceState × Db) :=
  recoverL2Head node.toL2Client fcs db db.l2HeadBlock

structure L2Node.Canonical (node : L2Node) (head : ℕ) : Prop where
  served : ∀ n, n ≤ head → ∃ block, node.blockByNumber n = .ok (some block)
  above : ∀ n, head < n → node.blockByNumber n = .ok none

def Db.UnmappedAbove (db : Db) (head : ℕ) : Prop :=
  ∀ r ∈ db.l1Messages.rows, ∀ n, r.l2BlockNumber = some n → n ≤ head

/-- The stored head and the forkchoice head agree, and no message is mapped above. -/
def HeadRecovered (fcs : ForkchoiceState) (db : Db) : Prop :=
  db.l2HeadBlock = fcs.head.number ∧ db.UnmappedAbove fcs.head.number

theorem ForkchoiceState.update_head {fcs : ForkchoiceState} (head : BlockInfo)
    (h : fcs.finalized.number ≤ fcs.safe.number) :
    fcs.update (some head) none none =
      if head.number < fcs.safe.number then .error .headBelowSafe
      else .ok { fcs with head := head } := by
  have hle : ¬fcs.safe.number < fcs.finalized.number := Nat.not_lt.2 h
  by_cases hlt : head.number < fcs.safe.number
  · simp [ForkchoiceState.update, ForkchoiceState.candidate, hlt]
  · simp [ForkchoiceState.update, ForkchoiceState.candidate, hlt, hle]

theorem Db.unmappedAbove_unmapWhere (db : Db) (n : ℕ) :
    (db.unmapWhere (n + 1 ≤ ·)).UnmappedAbove n := by
  intro r hr m hm
  have hnot : ¬n + 1 ≤ m := of_decide_eq_false (kept_of_mem_unmapWhere hr hm)
  omega

theorem ForkchoiceState.fromProvider_finalized_le {fcs : ForkchoiceState} {node : L2Node}
    (h : ForkchoiceState.fromProvider node = some fcs) :
    fcs.finalized.number ≤ fcs.safe.number := by
  simp only [ForkchoiceState.fromProvider, Option.bind_eq_bind, Option.bind_eq_some_iff] at h
  obtain ⟨latest, -, safe, -, finalized, -, h⟩ := h
  cases h
  split
  · exact Nat.le_refl _
  · rename_i hle
    exact Nat.le_of_not_lt hle

theorem recoverL2Head_eq {fcs : ForkchoiceState} {client : L2Client} {head : ℕ}
    (hordered : fcs.finalized.number ≤ fcs.safe.number)
    (hserved : ∀ n, n ≤ head → ∃ block, client.blockByNumber n = .ok (some block))
    (habove : ∀ n, head < n → client.blockByNumber n = .ok none) (db : Db) (stored : ℕ) :
    (min stored head ≤ fcs.finalized.number ∧ recoverL2Head client fcs db stored = .ok (fcs, db)) ∨
    (fcs.finalized.number < min stored head ∧ min stored head < fcs.safe.number ∧
      recoverL2Head client fcs db stored = .error (.fcsError .headBelowSafe)) ∨
    (fcs.finalized.number < min stored head ∧ fcs.safe.number ≤ min stored head ∧
      ∃ block : L2Block, block.number = min stored head ∧ recoverL2Head client fcs db stored =
        .ok ({ fcs with head := block.blockInfo },
          (db.setL2HeadBlockNumber (min stored head)).unmapWhere (min stored head + 1 ≤ ·))) := by
  induction stored with
  | zero =>
    left
    rw [Nat.zero_min]
    exact ⟨Nat.zero_le _, rfl⟩
  | succ n ih =>
    unfold recoverL2Head
    by_cases hstop : n + 1 ≤ fcs.finalized.number
    · left
      rw [if_pos hstop]
      exact ⟨by omega, rfl⟩
    · rw [if_neg hstop]
      by_cases hhas : n + 1 ≤ head
      · obtain ⟨block, hblock⟩ := hserved (n + 1) hhas
        have hnumber : block.blockInfo.number = n + 1 := client.number_eq _ _ hblock
        rw [Nat.min_eq_left hhas, hblock]
        simp only [ForkchoiceState.update_head block.blockInfo hordered, hnumber]
        by_cases hbelow : n + 1 < fcs.safe.number
        · right
          left
          rw [if_pos hbelow]
          exact ⟨by omega, hbelow, rfl⟩
        · right
          right
          rw [if_neg hbelow]
          exact ⟨by omega, by omega, block, hnumber, rfl⟩
      · have hmin : min (n + 1) head = min n head := by omega
        rw [habove (n + 1) (by omega), hmin]
        exact ih

/-- The startup succeeds with the stored head at the forkchoice head exactly when the stored head
is above the finalized block and not below the safe one and the node has a block above the finalized
one, or when everything is at one height already. -/
theorem startupL2Head_recovers_iff {node : L2Node} {fcs : ForkchoiceState}
    (hfcs : ForkchoiceState.fromProvider node = some fcs)
    (hcanonical : node.Canonical fcs.head.number)
    (hsafe : fcs.safe.number ≤ fcs.head.number) (db : Db) :
    (∃ fcs' db', startupL2Head node fcs db = .ok (fcs', db') ∧ HeadRecovered fcs' db') ↔
      (fcs.finalized.number < db.l2HeadBlock ∧ fcs.finalized.number < fcs.head.number ∧
        fcs.safe.number ≤ db.l2HeadBlock) ∨
      (db.l2HeadBlock = fcs.head.number ∧ fcs.head.number = fcs.finalized.number ∧
        db.UnmappedAbove fcs.head.number) := by
  have hordered := ForkchoiceState.fromProvider_finalized_le hfcs
  have hend := recoverL2Head_eq hordered hcanonical.served hcanonical.above db db.l2HeadBlock
  unfold startupL2Head
  rcases hend with ⟨hlow, heq⟩ | ⟨hlow, hbelow, heq⟩ | ⟨hlow, hnot, block, hnumber, heq⟩
  · rw [heq]
    constructor
    · rintro ⟨fcs', db', h, hhead, hunmapped⟩
      cases h
      right
      exact ⟨hhead, by omega, hunmapped⟩
    · rintro (hmoved | ⟨hhead, -, hunmapped⟩)
      · omega
      · exact ⟨fcs, db, rfl, hhead, hunmapped⟩
  · rw [heq]
    constructor
    · rintro ⟨fcs', db', h, -⟩
      cases h
    · rintro (hmoved | hsame)
      · omega
      · omega
  · rw [heq]
    constructor
    · intro _
      left
      omega
    · intro _
      refine ⟨_, _, rfl, hnumber.symm, ?_⟩
      have hunmapped := (db.setL2HeadBlockNumber
        (min db.l2HeadBlock fcs.head.number)).unmappedAbove_unmapWhere
          (min db.l2HeadBlock fcs.head.number)
      rw [← hnumber] at hunmapped ⊢
      exact hunmapped

def L2Node.ofChain (blocks : List L2Block) (latest safe finalized : L2Block) : L2Node :=
  { L2Client.ofChain blocks with
    latest := .ok (some latest)
    safe := .ok (some safe)
    finalized := .ok (some finalized) }

def fourBlockNode : L2Node :=
  .ofChain [emptyBlock 0 7 0, emptyBlock 1 21 7, emptyBlock 2 22 21, emptyBlock 3 23 22]
    (emptyBlock 3 23 22) (emptyBlock 2 22 21) (emptyBlock 0 7 0)

theorem fourBlockNode_canonical : fourBlockNode.Canonical 3 where
  served := by
    intro n hn
    interval_cases n <;> exact ⟨_, rfl⟩
  above := by
    intro n hn
    have hnone : ([emptyBlock 0 7 0, emptyBlock 1 21 7, emptyBlock 2 22 21,
        emptyBlock 3 23 22] : List L2Block).find? (fun b => b.number = n) = none := by
      simp only [List.find?_eq_none, List.mem_cons, List.not_mem_nil, or_false, forall_eq_or_imp,
        forall_eq, emptyBlock, decide_eq_true_eq]
      omega
    exact congrArg Except.ok hnone

/-- The stored head is the block below the node's head. -/
theorem startupL2Head_recovers_storedSafe :
    ForkchoiceState.fromProvider fourBlockNode = some ⟨⟨3, 23⟩, ⟨2, 22⟩, ⟨0, 7⟩⟩ ∧
      ∃ fcs' db', startupL2Head fourBlockNode ⟨⟨3, 23⟩, ⟨2, 22⟩, ⟨0, 7⟩⟩
        ((migrated 7).setL2HeadBlockNumber 2) = .ok (fcs', db') ∧ HeadRecovered fcs' db' :=
  ⟨rfl, (startupL2Head_recovers_iff rfl fourBlockNode_canonical (by decide)
    ((migrated 7).setL2HeadBlockNumber 2)).2 (Or.inl (by decide))⟩

/-- The stored head is below the node's safe block, as after a crash between the Engine's answer
and the commit: the startup fails. With a node that has lost all blocks above the final one, the
stored head stays. -/
theorem startupL2Head_below_safe :
    ForkchoiceState.fromProvider fourBlockNode = some ⟨⟨3, 23⟩, ⟨2, 22⟩, ⟨0, 7⟩⟩ ∧
      fourBlockNode.Canonical 3 ∧
      startupL2Head fourBlockNode ⟨⟨3, 23⟩, ⟨2, 22⟩, ⟨0, 7⟩⟩
        ((migrated 7).setL2HeadBlockNumber 1) = .error (.fcsError .headBelowSafe) ∧
      startupL2Head (.ofChain [emptyBlock 0 7 0] (emptyBlock 0 7 0) (emptyBlock 0 7 0)
        (emptyBlock 0 7 0)) ⟨⟨0, 7⟩, ⟨0, 7⟩, ⟨0, 7⟩⟩ ((migrated 7).setL2HeadBlockNumber 2) =
          .ok (⟨⟨0, 7⟩, ⟨0, 7⟩, ⟨0, 7⟩⟩, (migrated 7).setL2HeadBlockNumber 2) :=
  ⟨rfl, fourBlockNode_canonical, rfl, rfl⟩

end RollupNode
