import RollupNode.RunLoop

set_option autoImplicit false

/-! The command that moves the head to a requested block. -/
namespace RollupNode
namespace Node

def recordedHead (node : Node) (head : BlockInfo) : Db :=
  (node.db.unmapWhere (head.number + 1 ≤ ·)).setL2HeadBlockNumber head.number

/-- The Engine is asked: the reverted blocks are known and the forkchoice rules allow the head. -/
def AsksEngine (node : Node) (head : BlockInfo) (client : L2Client) : Prop :=
  collectRevertedTxsInRange client (head.number + 1) node.fcs.head.number = .ok () ∧
    node.fcs.update (some head) none none = .ok { node.fcs with head := head }

/-- The command moves both, records a head that the Engine rejects, or changes nothing. -/
theorem updateFcsHead_cases (node : Node) (head : BlockInfo) (client : L2Client)
    (reply : Reply ForkchoiceUpdated) :
    (node.AsksEngine head client ∧
      (∃ response, reply = .ok response ∧
        (response.status = .valid ∨ response.status = .syncing)) ∧
      node.updateFcsHead head client reply =
        ({ node with fcs := { node.fcs with head := head }, db := node.recordedHead head },
          .ok ())) ∨
    (node.AsksEngine head client ∧
      (∃ response e, reply = .ok response ∧ response.status = .invalid e) ∧
      node.updateFcsHead head client reply =
        ({ node with db := node.recordedHead head }, .ok ())) ∨
    ((node.AsksEngine head client → ∀ response, reply = .ok response →
        response.status = .accepted) ∧
      ∃ e, node.updateFcsHead head client reply = (node, .error e)) := by
  unfold updateFcsHead AsksEngine
  cases hcollect : collectRevertedTxsInRange client (head.number + 1) node.fcs.head.number with
  | error e => exact Or.inr (Or.inr ⟨fun h => (by cases h.1), e, rfl⟩)
  | ok =>
    simp only [updateFcs, ForkchoiceState.updateFcs]
    cases hupdate : node.fcs.update (some head) none none with
    | error e => exact Or.inr (Or.inr ⟨fun h => (by cases h.2), _, rfl⟩)
    | ok new =>
      have hnew : new = { node.fcs with head := head } :=
        (ForkchoiceState.update_eq_ok hupdate).1
      cases reply with
      | error message =>
        exact Or.inr (Or.inr ⟨fun _ response h => (by cases h), _, rfl⟩)
      | ok response =>
        cases hstatus : response.status with
        | valid =>
          rw [hnew]
          exact Or.inl ⟨⟨trivial, rfl⟩, ⟨response, rfl, Or.inl hstatus⟩, by simp [hstatus]; rfl⟩
        | syncing =>
          rw [hnew]
          exact Or.inl ⟨⟨trivial, rfl⟩, ⟨response, rfl, Or.inr hstatus⟩, by simp [hstatus]; rfl⟩
        | invalid e =>
          rw [hnew]
          exact Or.inr (Or.inl ⟨⟨trivial, rfl⟩, ⟨response, e, rfl, hstatus⟩, by simp [hstatus]; rfl⟩)
        | accepted =>
          refine Or.inr (Or.inr ⟨fun _ answer h => ?_, _, by simp [hstatus]; rfl⟩)
          cases h
          exact hstatus

def UnmappedAboveHead (node : Node) : Prop :=
  ∀ r ∈ node.db.l1Messages, ∀ n, r.l2BlockNumber = some n → n ≤ node.fcs.head.number

/-- Database and Engine are together after the command, and the caller is told the truth. -/
structure Together (node : Node) (head : BlockInfo) (handled : Handled) : Prop where
  head_kept : node.db.l2HeadBlock = node.fcs.head.number →
    handled.1.db.l2HeadBlock = handled.1.fcs.head.number
  unmapped : handled.1.UnmappedAboveHead
  told : handled.2 = .ok () → handled.1.fcs.head = head

theorem recordedHead_unmapped {node : Node} {head : BlockInfo} {r : L1MessageRow}
    (hr : r ∈ (node.recordedHead head).l1Messages) {n : ℕ} (hn : r.l2BlockNumber = some n) :
    n ≤ head.number := by
  have hkept := Db.kept_of_mem_unmapWhere hr hn
  rw [decide_eq_false_iff_not] at hkept
  omega

/-- The command keeps database and Engine together if and only if the Engine does not reject a
block other than the current head and, where the forkchoice does not move, no message was mapped
above it. -/
theorem updateFcsHead_together_iff (node : Node) (head : BlockInfo) (client : L2Client)
    (reply : Reply ForkchoiceUpdated) :
    node.Together head (node.updateFcsHead head client reply) ↔
      (node.AsksEngine head client →
        ∀ response e, reply = .ok response → response.status = .invalid e →
          head = node.fcs.head) ∧
      ((node.AsksEngine head client → ∀ response, reply = .ok response →
          response.status = .accepted) → node.UnmappedAboveHead) := by
  rcases node.updateFcsHead_cases head client reply with
    ⟨hasks, ⟨response, rfl, hstatus⟩, heq⟩ | ⟨hasks, ⟨response, e, rfl, hstatus⟩, heq⟩ |
      ⟨hsilent, e, heq⟩
  · rw [heq]
    refine iff_of_true ⟨fun _ => rfl, fun r hr n => recordedHead_unmapped hr, fun _ => rfl⟩ ⟨?_, ?_⟩
    · intro _ answer e hanswer hinvalid
      cases hanswer
      rw [hinvalid] at hstatus
      exact absurd hstatus (by simp)
    · intro haccepted
      rw [haccepted hasks response rfl] at hstatus
      exact absurd hstatus (by simp)
  · rw [heq]
    constructor
    · intro htogether
      refine ⟨fun _ _ _ _ _ => (htogether.told rfl).symm, ?_⟩
      intro haccepted
      rw [haccepted hasks response rfl] at hstatus
      cases hstatus
    · rintro ⟨hhead, -⟩
      have hsame := hhead hasks response e rfl hstatus
      refine ⟨fun _ => congrArg BlockInfo.number hsame, ?_, fun _ => hsame.symm⟩
      intro r hr n hn
      rw [← hsame]
      exact recordedHead_unmapped hr hn
  · rw [heq]
    constructor
    · intro htogether
      refine ⟨?_, fun _ => htogether.unmapped⟩
      intro hasks response e hreply hinvalid
      rw [hsilent hasks response hreply] at hinvalid
      cases hinvalid
    · rintro ⟨-, hunmapped⟩
      exact ⟨id, hunmapped hsilent, fun hok => (by cases hok)⟩

/-- A head that the Engine rejects is recorded and reported all the same. -/
theorem updateFcsHead_rejected :
    (fresh 7).updateFcsHead ⟨1, 9⟩ (.ofChain []) (.ok (.ofStatus (.invalid "unknown block"))) =
      ({ fresh 7 with db := { migrated 7 with l2HeadBlock := 1 } }, .ok ()) ∧
    ¬ (fresh 7).Together ⟨1, 9⟩
      ((fresh 7).updateFcsHead ⟨1, 9⟩ (.ofChain [])
        (.ok (.ofStatus (.invalid "unknown block")))) := by
  refine ⟨rfl, fun htogether => ?_⟩
  have htold := htogether.told rfl
  exact absurd htold (by decide)

end Node
end RollupNode
