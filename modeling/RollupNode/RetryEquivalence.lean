import RollupNode.RetryTarget

set_option autoImplicit false

/-! Holding a batch and trying it again ends where a single attempt ends. -/
namespace RollupNode
open LinkedChain

theorem HeadsIn.append {heads : BlockInfo → Prop} {xs ys : List FcuRequest}
    (hx : HeadsIn heads xs) (hy : HeadsIn heads ys) : HeadsIn heads (xs ++ ys) := by
  intro request hrequest
  rcases List.mem_append.1 hrequest with h | h
  · exact hx request h
  · exact hy request h

theorem headsIn_nil (heads : BlockInfo → Prop) : HeadsIn heads [] := by
  intro request hrequest
  cases hrequest

namespace RetryStart

variable {e : Builder} {s : RetryStart e} {d : Chain L2Block}

def Settles (s : RetryStart e) (d : Chain L2Block) (info : BlockInfo) : Prop :=
  ∃ b ∈ d, b.number + 1 < s.first + s.count ∧ b.blockInfo = info

structure Moved (s : RetryStart e) (d : Chain L2Block) (fcs : ForkchoiceState) : Prop where
  finalized_le : fcs.finalized.number ≤ fcs.safe.number
  safe : s.Settles d fcs.safe
  head : fcs.head = s.fcs.head ∨ s.Settles d fcs.head
  finalized : fcs.finalized = s.fcs.finalized ∨
    s.batch.targetStatus.isFinalized = true ∧ s.Settles d fcs.finalized

def Reached (s : RetryStart e) (d : Chain L2Block) (fcs : ForkchoiceState) : Prop :=
  fcs = s.fcs ∨ s.kept < s.count ∧ s.Moved d fcs

variable {fcs : ForkchoiceState}

theorem Reached.head (h : s.Reached d fcs) :
    fcs.head = s.fcs.head ∨ s.kept < s.count ∧ s.Settles d fcs.head := by
  rcases h with rfl | ⟨hkept, h⟩
  · exact Or.inl rfl
  · exact h.head.imp_right (fun hsettles => ⟨hkept, hsettles⟩)

theorem Reached.finalized (h : s.Reached d fcs) :
    fcs.finalized = s.fcs.finalized ∨
      s.batch.targetStatus.isFinalized = true ∧ s.Settles d fcs.finalized := by
  rcases h with rfl | ⟨-, h⟩
  · exact Or.inl rfl
  · exact h.finalized

theorem Settles.number_lt {info : BlockInfo} (h : s.Settles d info) :
    info.number + 1 < s.first + s.count := by
  obtain ⟨b, -, hnumber, rfl⟩ := h
  exact hnumber

theorem Begins.finalized_lt (h : s.Begins) (hkept : s.kept < s.count) :
    s.fcs.finalized.number < s.first + s.kept := by
  by_cases hconfirm : confirmActions s.fcs.finalized.number
      (matchedBlocks (clientOf s.chain) s.batch.attributes) = []
  · obtain ⟨hsafe, hle⟩ := h hconfirm hkept
    change _ < s.first + (matchedBlocks (clientOf s.chain) s.batch.attributes).length
    omega
  · unfold confirmActions at hconfirm
    split at hconfirm
    · rename_i last hlast
      have hnumber := s.consecutive.last_number hlast
      have hlow : ¬ last.number ≤ s.fcs.finalized.number :=
        fun hle => hconfirm (if_pos hle)
      change _ < s.first + (matchedBlocks (clientOf s.chain) s.batch.attributes).length
      omega
    · exact absurd rfl hconfirm

theorem Reached.finalized_lt (h : s.Reached d fcs) (hbegins : s.Begins) (hkept : s.kept < s.count) :
    fcs.finalized.number + 1 < s.first + s.count := by
  rcases h.finalized with hsame | ⟨-, hsettles⟩
  · have hlt := Begins.finalized_lt hbegins hkept
    rw [hsame]
    omega
  · exact hsettles.number_lt

theorem Reached.settledOn_eq (h : s.Reached d fcs) {blocks : List L2BlockInfoWithL1Messages}
    {last : L2BlockInfoWithL1Messages} (hlast : blocks.getLast? = some last) :
    fcs.settledOn s.batch blocks = s.fcs.settledOn s.batch [last] := by
  simp only [ForkchoiceState.settledOn, hlast, List.getLast?_singleton, finalizedTarget]
  split
  · rfl
  · rename_i hnot
    rcases h.finalized with hsame | ⟨hfinal, -⟩
    · rw [hsame]
    · exact absurd hfinal hnot

variable {b : L2Block}

theorem Reached.settles (h : s.Reached d fcs) (hb : b ∈ d) (hlow : b.number + 1 < s.first + s.count)
    (hfinal : fcs.finalized.number ≤ b.number) :
    s.Moved d (fcs.settledOn s.batch [b.withL1Messages]) := by
  have hsettles : s.Settles d b.blockInfo := ⟨b, hb, hlow, rfl⟩
  refine ⟨?_, hsettles, Or.inr hsettles, ?_⟩
  · simp only [ForkchoiceState.settledOn, List.getLast?_singleton, finalizedTarget]
    split
    · exact Nat.le_refl _
    · exact hfinal
  · simp only [ForkchoiceState.settledOn, List.getLast?_singleton, finalizedTarget]
    split
    · rename_i hfinal
      exact Or.inr ⟨hfinal, hsettles⟩
    · exact h.finalized

theorem Reached.confirms (h : s.Reached d fcs) (hb : b ∈ d)
    (hlow : b.number + 1 < s.first + s.count) (hfinal : fcs.finalized.number < b.number) :
    s.Moved d (fcs.candidate (confirmedHead fcs b.blockInfo) (some b.blockInfo)
      (finalizedTarget s.batch b.blockInfo)) := by
  have hsettles : s.Settles d b.blockInfo := ⟨b, hb, hlow, rfl⟩
  have hupdate : fcs.update (confirmedHead fcs b.blockInfo) (some b.blockInfo)
      (finalizedTarget s.batch b.blockInfo) = .ok _ := update_confirmedHead s.batch hfinal
  obtain ⟨-, -, -, hsafe⟩ := ForkchoiceState.update_eq_ok hupdate
  refine ⟨hsafe, hsettles, ?_, ?_⟩
  · simp only [ForkchoiceState.candidate, confirmedHead]
    split
    · exact Or.inr hsettles
    · exact h.head.imp_right And.right
  · simp only [ForkchoiceState.candidate, finalizedTarget]
    split
    · rename_i hfinalized
      exact Or.inr ⟨hfinalized, hsettles⟩
    · exact h.finalized

theorem Target.childOf {index : ℕ} (hd : s.Target d) {a : DerivedAttributes}
    (hindex : s.kept ≤ index) (ha : s.batch.attributes[index]? = some a) {parent : L2Block}
    (hparent : d.blocks[s.first + index - 1]? = some parent) (hsafe : fcs.safe = parent.blockInfo) :
    ∃ b, d.blocks[s.first + index]? = some b ∧ b = e.build fcs.safe a ∧ ChildOf fcs a b := by
  obtain ⟨parent', hparent', hblock⟩ := hd.built index a hindex ha
  obtain rfl := Option.some.inj (hparent'.symm.trans hparent)
  obtain ⟨hheight, -, hbparent, hmatch⟩ := s.builds_on hindex ha
    (hd.mem parent' (d.mem_of_getElem? hparent)) (d.numbered _ _ hparent)
  refine ⟨_, hblock, by rw [hsafe], ?_, (s.builds.number _ a).trans hheight.symm, ?_, hmatch⟩
  · rw [hsafe]
    exact hheight
  · rw [hsafe]
    exact hbparent

theorem heads_of_target (hkept : s.kept < s.count) {i : ℕ} (hi : s.first + s.kept ≤ i + 1)
    (hb : d.blocks[i]? = some b) : s.Heads d b.blockInfo := by
  have hnumber : b.number = i := d.numbered _ _ hb
  exact ⟨b, Or.inr ⟨hkept, d.mem_of_getElem? hb⟩, by omega, rfl⟩

theorem Target.targets_drop {index : ℕ} (hd : s.Target d) (hindex : index < s.count)
    (hb : d.blocks[s.first + index]? = some b) :
    (s.targets d).drop index = b :: (s.targets d).drop (index + 1) := by
  have hlt : index < (s.targets d).length := by
    rw [hd.targets_length]
    exact hindex
  rw [List.drop_eq_getElem_cons hlt]
  congr 1
  rw [← targets_get hindex, List.getElem?_eq_getElem hlt] at hb
  exact Option.some.inj hb

/-- How actions end under the Engine's answers: held in a state between attempts, or done as
said. On the way they only name heads of the two chains. -/
structure ActionsEnd (s : RetryStart e) (d : Chain L2Block) (fcs : ForkchoiceState)
    (progress : AttemptProgress) (actions : List BlockConsolidationAction)
    (replies : ℕ → ActionReplies) (final : ForkchoiceState) (made : AttemptProgress) : Prop where
  heads : HeadsIn (s.Heads d) (attemptRequests s.batch fcs progress actions replies)
  ends : (∃ fcs' method status,
      performActions s.batch fcs progress actions replies =
        (fcs', .error (.hold method status)) ∧
      s.Reached d fcs' ∧ ¬ ∀ i, (replies i).AllValid) ∨
    performActions s.batch fcs progress actions replies = (final, .ok made)

section
variable {fcs next final : ForkchoiceState} {progress made made' : AttemptProgress}
  {action : BlockConsolidationAction} {actions : List BlockConsolidationAction}
  {replies : ℕ → ActionReplies}

theorem ActionsEnd.nil : s.ActionsEnd d fcs progress [] replies fcs progress :=
  ⟨headsIn_nil _, Or.inr rfl⟩

theorem ActionsEnd.held {method status : String}
    (hheads : HeadsIn (s.Heads d) (actionRequests s.batch fcs action (replies 0)))
    (hheld : performAction s.batch fcs progress action (replies 0) =
      (fcs, .error (.hold method status)))
    (hreached : s.Reached d fcs) (hnot : ¬ (replies 0).AllValid) :
    s.ActionsEnd d fcs progress (action :: actions) replies final made := by
  constructor
  · simp only [attemptRequests, hheld]
    exact hheads.append (headsIn_nil _)
  · simp only [performActions, hheld]
    exact Or.inl ⟨fcs, method, status, rfl, hreached, fun hall => hnot (hall 0)⟩

theorem ActionsEnd.cons
    (hheads : HeadsIn (s.Heads d) (actionRequests s.batch fcs action (replies 0)))
    (hdone : performAction s.batch fcs progress action (replies 0) = (next, .ok made'))
    (hrest : s.ActionsEnd d next made' actions (fun i => replies (i + 1)) final made) :
    s.ActionsEnd d fcs progress (action :: actions) replies final made := by
  constructor
  · simp only [attemptRequests, hdone]
    exact hheads.append hrest.heads
  · simp only [performActions, hdone]
    refine hrest.ends.imp_left ?_
    rintro ⟨fcs', method, status, hheld, hreached, hnot⟩
    exact ⟨fcs', method, status, hheld, hreached, fun hall => hnot (fun i => hall (i + 1))⟩

end

theorem rebuilds_end {index : ℕ} {replies : ℕ → ActionReplies} (hd : s.Target d)
    (hkept : s.kept < s.count) (rest : List DerivedAttributes)
    (hrest : s.batch.attributes.drop index = rest) (hindex : s.kept ≤ index)
    {progress : AttemptProgress}
    (hstate : rest ≠ [] → s.Reached d fcs ∧ fcs.finalized.number ≤ fcs.safe.number ∧
      ∃ parent, d.blocks[s.first + index - 1]? = some parent ∧ fcs.safe = parent.blockInfo)
    (hanswers : e.AnswersAll s.batch fcs progress
      ((List.range' index rest.length).map .reorg) replies) :
    s.ActionsEnd d fcs progress ((List.range' index rest.length).map .reorg) replies
      (fcs.settledOn s.batch (((s.targets d).drop index).map L2Block.withL1Messages))
      ⟨progress.reorgResults ++ ((s.targets d).drop index).map L2Block.withL1Messages,
        progress.l2HeadUpdated || !rest.isEmpty⟩ := by
  induction rest generalizing index fcs progress replies with
  | nil =>
    have hend : (s.targets d).drop index = [] := by
      refine List.drop_eq_nil_of_le ?_
      rw [hd.targets_length]
      exact List.drop_eq_nil_iff.1 hrest
    simp only [hend, List.map_nil, ForkchoiceState.settledOn, List.getLast?_nil, List.append_nil,
      List.isEmpty_nil, Bool.not_true, Bool.or_false]
    exact .nil
  | cons a rest ih =>
    obtain ⟨hreached, hle, parent, hparent, hsafe⟩ := hstate (List.cons_ne_nil a rest)
    have ha : s.batch.attributes[index]? = some a := by
      rw [← List.head?_drop, hrest]
      rfl
    have hlt : index < s.count := (List.getElem?_eq_some_iff.1 ha).1
    have hdrop : s.batch.attributes.drop (index + 1) = rest := by
      rw [← List.tail_drop, hrest]
      rfl
    obtain ⟨b, hb, hbuilt, hchild⟩ := hd.childOf hindex ha hparent hsafe
    have hnumber : b.number = s.first + index := d.numbered _ _ hb
    rw [List.length_cons, List.range'_succ, List.map_cons] at hanswers ⊢
    obtain ⟨hnow, hlater⟩ := hanswers
    have hheads : HeadsIn (s.Heads d)
        (actionRequests s.batch fcs (.reorg index) (replies 0)) := by
      refine headsIn_reorg hle ha hnow hbuilt hchild ?_ ?_
      · rw [hsafe]
        exact heads_of_target hkept (by omega) hparent
      · exact heads_of_target hkept (by omega) hb
    rcases performAction_reorg_answered progress hle ha hnow hbuilt hchild
      with ⟨method, status, hheld, hnot⟩ | hdone
    · exact .held hheads hheld hreached hnot
    · have hnext : rest ≠ [] → s.Reached d (fcs.settledOn s.batch [b.withL1Messages]) ∧
          (fcs.settledOn s.batch [b.withL1Messages]).finalized.number ≤
            (fcs.settledOn s.batch [b.withL1Messages]).safe.number ∧
          ∃ parent, d.blocks[s.first + (index + 1) - 1]? = some parent ∧
            (fcs.settledOn s.batch [b.withL1Messages]).safe = parent.blockInfo := by
        intro hmore
        have hlonger : index + 1 < s.count := by
          refine Nat.lt_of_not_le (fun hle => hmore ?_)
          rw [← hdrop]
          exact List.drop_eq_nil_of_le hle
        have honsafe := hchild.onSafe
        have hbnumber := hchild.number
        have hmoved := hreached.settles (d.mem_of_getElem? hb) (by omega) (by omega)
        exact ⟨Or.inr ⟨hkept, hmoved⟩, hmoved.finalized_le, b, hb, rfl⟩
      have hend := ih hdrop (Nat.le_succ_of_le hindex) hnext (hlater _ _ hdone)
      rw [hd.targets_drop hlt hb, List.map_cons, settledOn_cons]
      rw [List.append_assoc] at hend
      refine .cons hheads hdone ?_
      simp only [List.isEmpty_cons, Bool.not_false, Bool.or_true]
      exact hend

theorem Target.not_mem_chain (hd : s.Target d) {i : ℕ} (hi : s.kept ≤ i) (hcount : i < s.count)
    (hb : d.blocks[s.first + i]? = some b) : b ∉ s.chain := by
  intro hin
  have hfree : CollisionFree s.chain d := by
    intro x hx y hy hhash
    exact s.builds.hash_inj x (s.blocks x hx) y (hd.mem y hy) hhash
  have hagrees := agreesTo_of_mem hfree hin (d.mem_of_getElem? hb)
  have hnumber : b.number = s.first + i := d.numbered _ _ hb
  obtain ⟨a, ha⟩ := s.attributes_at (Nat.lt_of_le_of_lt hi hcount)
  obtain ⟨x, hx, hmatch⟩ := hd.block_at ha
  have hat := hagrees (s.first + s.kept) (by
    change s.first + s.kept ≤ b.number
    omega)
  exact s.chain_stops ha (hat.trans hx) hmatch

theorem Target.found_last {m : ℕ} (hd : s.Target d) (hpos : 0 < m) (hm : m ≤ s.count) :
    ∃ b, d.blocks[s.first + m - 1]? = some b ∧ ((s.targets d).take m).getLast? = some b := by
  obtain ⟨a, ha⟩ := s.attributes_at (i := m - 1) (by omega)
  obtain ⟨b, hb, -⟩ := hd.block_at ha
  have hindex : s.first + m - 1 = s.first + (m - 1) := by omega
  refine ⟨b, by rw [hindex]; exact hb, ?_⟩
  rw [List.getLast?_eq_getElem?, hd.targets_take_length hm, List.getElem?_take_of_lt (by omega),
    targets_get (by omega)]
  exact hb

theorem Target.heads_found {m : ℕ} (hd : s.Target d) (hpos : 0 < m) (hlow : s.kept ≤ m)
    (hm : m ≤ s.count) (hb : d.blocks[s.first + m - 1]? = some b) :
    s.Heads d b.blockInfo := by
  by_cases hkept : s.kept < s.count
  · exact heads_of_target hkept (by omega) hb
  · have hnumber : b.number = s.first + m - 1 := d.numbered _ _ hb
    rw [hd.agrees _ (by omega)] at hb
    exact ⟨b, Or.inl (s.chain.mem_of_getElem? hb), by omega, rfl⟩

theorem Reached.heads_confirmed (h : s.Reached d fcs) (hb : s.Heads d b.blockInfo) :
    s.Heads d ((confirmedHead fcs b.blockInfo).getD fcs.head) := by
  unfold confirmedHead
  split
  · exact hb
  · rename_i hkeeps
    by_cases heq : fcs.head = b.blockInfo
    · rw [heq]
      exact hb
    · have hnumber : b.number < fcs.head.number :=
        Nat.lt_of_not_le (fun hle => hkeeps ⟨hle, heq⟩)
      obtain ⟨b', -, hlow, hinfo⟩ := hb
      have hsame : b'.number = b.number := congrArg BlockInfo.number hinfo
      rcases h.head with hhead | ⟨hkept, x, hx, -, hhead⟩
      · obtain ⟨x, hx, hxinfo⟩ := s.head
        have hxnumber : x.number = fcs.head.number := by
          rw [hhead]
          exact congrArg BlockInfo.number hxinfo
        exact ⟨x, Or.inl hx, by omega, hxinfo.trans hhead.symm⟩
      · have hxnumber : x.number = fcs.head.number := congrArg BlockInfo.number hhead
        exact ⟨x, Or.inr ⟨hkept, hx⟩, by omega, hhead⟩

theorem Reached.safe_at {m : ℕ} (h : s.Reached d fcs) (hd : s.Target d) (hlow : s.kept ≤ m)
    (hnumber : fcs.safe.number + 1 = s.first + m)
    (hfinal : s.kept < m → s.first + m ≤ fcs.finalized.number + 1)
    (hbelow : s.fcs.finalized.number < s.first + s.kept) :
    ∃ parent, d.blocks[s.first + m - 1]? = some parent ∧ fcs.safe = parent.blockInfo := by
  rcases h with rfl | ⟨-, hmoved⟩
  · obtain ⟨b, hb, hinfo⟩ := s.safe
    have hbnumber : b.number = s.fcs.safe.number := congrArg BlockInfo.number hinfo
    have hkept : m = s.kept := by
      by_contra hne
      have hle := hfinal (by omega)
      omega
    refine ⟨b, ?_, hinfo.symm⟩
    rw [hd.agrees _ (by omega)]
    have hindex : s.first + m - 1 = b.number := by omega
    rw [hindex]
    exact (s.chain.mem_iff b).1 hb
  · obtain ⟨b, hb, -, hinfo⟩ := hmoved.safe
    have hbnumber : b.number = fcs.safe.number := congrArg BlockInfo.number hinfo
    have hindex : s.first + m - 1 = b.number := by omega
    refine ⟨b, ?_, hinfo.symm⟩
    rw [hindex]
    exact (d.mem_iff b).1 hb

theorem Target.aggregated {m : ℕ} (hd : s.Target d) {c : Chain L2Block} (hm : m ≤ s.count)
    (hfound : matchedBlocks (clientOf c) s.batch.attributes = (s.targets d).take m) (finalized : ℕ) :
    aggregatedActions (clientOf c) finalized s.batch.attributes =
      confirmActions finalized ((s.targets d).take m) ++
        (List.range' m (s.batch.attributes.drop m).length).map .reorg := by
  simp only [aggregatedActions, hfound, hd.targets_take_length hm, List.length_drop]

theorem Target.confirm_cases {m : ℕ} (hd : s.Target d) (hm : m ≤ s.count) (finalized : ℕ) :
    confirmActions finalized ((s.targets d).take m) = [] ∧
        (0 < m → s.first + m ≤ finalized + 1) ∨
      ∃ b, 0 < m ∧ d.blocks[s.first + m - 1]? = some b ∧ finalized < b.number ∧
        confirmActions finalized ((s.targets d).take m) = [.updateFcs b.withL1Messages] := by
  by_cases hpos : 0 < m
  · obtain ⟨b, hb, hlast⟩ := hd.found_last hpos hm
    have hnumber : b.number = s.first + m - 1 := d.numbered _ _ hb
    simp only [confirmActions, hlast]
    by_cases hle : b.number ≤ finalized
    · refine Or.inl ⟨if_pos hle, ?_⟩
      intro _
      omega
    · exact Or.inr ⟨b, hpos, hb, Nat.lt_of_not_le hle, if_neg hle⟩
  · refine Or.inl ⟨?_, fun h => absurd h hpos⟩
    have hzero : m = 0 := by omega
    rw [hzero]
    rfl

theorem Target.last_at (hd : s.Target d) (hkept : s.kept < s.count) :
    ∃ last, d.blocks[s.first + s.count - 1]? = some last ∧
      ∀ m, m < s.count → ((s.targets d).drop m).getLast? = some last := by
  obtain ⟨last, hlast, hfound⟩ := hd.found_last (m := s.count) (by omega) (Nat.le_refl _)
  refine ⟨last, hlast, ?_⟩
  intro m hm
  have hwhole : (s.targets d).take s.count = s.targets d :=
    List.take_of_length_le (Nat.le_of_eq hd.targets_length)
  rw [hwhole] at hfound
  rw [List.getLast?_drop, if_neg (by rw [hd.targets_length]; omega)]
  exact hfound

theorem Reached.confirmedHead_last (h : s.Reached d fcs) (hd : s.Target d)
    (hkept : s.kept < s.count) (hhead : s.fcs.head.number < s.first + s.count) {last : L2Block}
    (hlast : d.blocks[s.first + s.count - 1]? = some last) :
    confirmedHead fcs last.blockInfo = some last.blockInfo := by
  have hnumber : last.number = s.first + s.count - 1 := d.numbered _ _ hlast
  refine if_pos ?_
  change fcs.head.number ≤ last.number ∧ _
  rcases h.head with hsame | ⟨-, hsettles⟩
  · rw [hsame]
    refine ⟨by omega, ?_⟩
    intro heq
    obtain ⟨x, hx, hinfo⟩ := s.head
    have hindex : s.first + s.count - 1 = s.first + (s.count - 1) := by omega
    rw [hindex] at hlast
    obtain rfl := s.block_eq_of_info (s.blocks x hx) (hd.mem last (d.mem_of_getElem? hlast))
      (hinfo.trans heq)
    exact hd.not_mem_chain (by omega) (by omega) hlast hx
  · have hlow := hsettles.number_lt
    refine ⟨by omega, ?_⟩
    intro heq
    have hsame : fcs.head.number = last.number := congrArg BlockInfo.number heq
    omega

theorem Reached.update_end {replies : ℕ → ActionReplies} {final : ForkchoiceState}
    (h : s.Reached d fcs) (hheads : s.Heads d b.blockInfo)
    (hfinal : fcs.finalized.number < b.number) {actions : List BlockConsolidationAction}
    {made : AttemptProgress}
    (hanswers : e.AnswersAll s.batch fcs ⟨[], false⟩
      (.updateFcs b.withL1Messages :: actions) replies)
    (hrest : e.AnswersAll s.batch (fcs.candidate (confirmedHead fcs b.blockInfo)
        (some b.blockInfo) (finalizedTarget s.batch b.blockInfo))
        ⟨[], (confirmedHead fcs b.blockInfo).isSome⟩ actions (fun i => replies (i + 1)) →
      s.ActionsEnd d (fcs.candidate (confirmedHead fcs b.blockInfo)
        (some b.blockInfo) (finalizedTarget s.batch b.blockInfo))
        ⟨[], (confirmedHead fcs b.blockInfo).isSome⟩ actions (fun i => replies (i + 1))
        final made) :
    s.ActionsEnd d fcs ⟨[], false⟩ (.updateFcs b.withL1Messages :: actions) replies final
      made := by
  obtain ⟨hnow, hlater⟩ := hanswers
  have hnamed : HeadsIn (s.Heads d)
      (actionRequests s.batch fcs (.updateFcs b.withL1Messages) (replies 0)) :=
    headsIn_updateFcs _ (h.heads_confirmed hheads)
  have hblock : fcs.finalized.number < b.withL1Messages.blockInfo.number := hfinal
  rcases performAction_updateFcs_answered ⟨[], false⟩ hblock hnow.fcu with
    ⟨method, status, hheld, hnot⟩ | hdone
  · exact .held hnamed hheld h hnot
  · exact .cons hnamed hdone (hrest (hlater _ _ hdone))

/-- The state and the flag with which every attempt that is not held ends. -/
def EndsIn (s : RetryStart e) (d : Chain L2Block) (final : ForkchoiceState) (moved : Bool) :
    Prop :=
  ∀ c fcs replies, s.OnTheWay d c → s.Reached d fcs →
    RebuildReady s.batch s.first (clientOf c) fcs →
    e.AnswersAll s.batch fcs ⟨[], false⟩
      (aggregatedActions (clientOf c) fcs.finalized.number s.batch.attributes) replies →
    ∃ rebuilt, s.ActionsEnd d fcs ⟨[], false⟩
        (aggregatedActions (clientOf c) fcs.finalized.number s.batch.attributes) replies final
        ⟨rebuilt, moved⟩ ∧
      (matchedBlocks (clientOf c) s.batch.attributes).map L2Block.withL1Messages ++ rebuilt =
        (s.targets d).map L2Block.withL1Messages

/-- Where the attempts of a batch that has to be rebuilt end, from whichever chain and state on
the way. -/
theorem Target.rebuilding_end (hd : s.Target d) (hbegins : s.Begins) (hkept : s.kept < s.count)
    (hhead : s.fcs.head.number < s.first + s.count) :
    ∃ final, s.EndsIn d final true := by
  obtain ⟨last, hlast, hrestLast⟩ := hd.last_at hkept
  refine ⟨s.fcs.settledOn s.batch [last.withL1Messages], ?_⟩
  intro c fcs replies hway hreached hready hanswers
  obtain ⟨m, hlow, hm, hfound⟩ := hway.matched hd
  refine ⟨((s.targets d).drop m).map L2Block.withL1Messages, ?_, ?_⟩
  · have hbelow := Begins.finalized_lt hbegins hkept
    have hfinalized := hreached.finalized_lt hbegins hkept
    have hlastOf : m < s.count → (((s.targets d).drop m).map L2Block.withL1Messages).getLast? =
        some last.withL1Messages := by
      intro hlt
      rw [List.getLast?_map, hrestLast m hlt]
      rfl
    have hmore : m < s.count → s.batch.attributes.drop m ≠ [] := by
      intro hlt hnil
      exact Nat.not_le.2 hlt (List.drop_eq_nil_iff.1 hnil)
    rw [hd.aggregated hm hfound] at hanswers ⊢
    rcases hd.confirm_cases hm fcs.finalized.number with ⟨hnone, hfinal⟩ | ⟨b, hpos, hb, hnew, hone⟩
    · -- nothing to confirm: the rebuilds begin on the safe block
      have hlt : m < s.count := by
        by_contra hge
        have hle := hfinal (by omega)
        omega
      have hsafe : fcs.safe.number + 1 = s.first + m ∧
          fcs.finalized.number ≤ fcs.safe.number := by
        have hnumber := hready (by rw [hfound]; exact hnone)
        rw [hfound, hd.targets_take_length hm] at hnumber
        exact hnumber hlt
      obtain ⟨parent, hparent, hinfo⟩ := hreached.safe_at hd hlow hsafe.1
        (fun hgt => hfinal (by omega)) hbelow
      rw [hnone, List.nil_append] at hanswers ⊢
      have hend := rebuilds_end hd hkept _ rfl hlow
        (fun _ => ⟨hreached, hsafe.2, parent, hparent, hinfo⟩) hanswers
      rw [hreached.settledOn_eq (hlastOf hlt), List.nil_append, Bool.false_or,
        List.isEmpty_eq_false_iff.2 (hmore hlt)] at hend
      exact hend
    · rw [hone] at hanswers ⊢
      have hnumber : b.number = s.first + m - 1 := d.numbered _ _ hb
      refine hreached.update_end (hd.heads_found hpos hlow hm hb) hnew hanswers ?_
      intro hrest
      by_cases hlt : m < s.count
      · have hmoved := hreached.confirms (d.mem_of_getElem? hb) (by omega) hnew
        have hnext : s.Reached d _ := Or.inr ⟨hkept, hmoved⟩
        have hend := rebuilds_end hd hkept _ rfl hlow
          (fun _ => ⟨hnext, hmoved.finalized_le, b, hb, rfl⟩) hrest
        rw [hnext.settledOn_eq (hlastOf hlt), List.nil_append,
          List.isEmpty_eq_false_iff.2 (hmore hlt), Bool.not_false, Bool.or_true] at hend
        exact hend
      · -- every block is found: the update ends the attempt
        obtain rfl : m = s.count := by omega
        obtain rfl := Option.some.inj (hb.symm.trans hlast)
        have hmoves := hreached.confirmedHead_last hd hkept hhead hlast
        have hempty : s.batch.attributes.drop s.count = [] := List.drop_length
        have hdone : (s.targets d).drop s.count = [] :=
          List.drop_eq_nil_of_le (Nat.le_of_eq hd.targets_length)
        rw [hempty, hdone, hmoves]
        have hstate := hreached.settledOn_eq (List.getLast?_singleton (a := b.withL1Messages))
        rw [← hstate]
        exact .nil
  · rw [hfound, ← List.map_append, List.take_append_drop]

theorem Target.keeping_end (hd : s.Target d) (hkept : ¬ s.kept < s.count) :
    ∃ final moved, s.EndsIn d final moved := by
  have hall : s.kept = s.count := Nat.le_antisymm s.kept_le (Nat.le_of_not_lt hkept)
  have hwhole : (s.targets d).take s.count = s.targets d :=
    List.take_of_length_le (Nat.le_of_eq hd.targets_length)
  have hempty : s.batch.attributes.drop s.count = [] := List.drop_length
  -- every chain on the way has the whole batch, and the forkchoice state has not moved
  have hsame : ∀ c fcs, s.OnTheWay d c → s.Reached d fcs → fcs = s.fcs ∧
      matchedBlocks (clientOf c) s.batch.attributes = (s.targets d).take s.count := by
    intro c fcs hway hreached
    obtain ⟨m, hlow, hm, hfound⟩ := hway.matched hd
    obtain rfl : m = s.count := by omega
    exact ⟨hreached.resolve_right (fun h => hkept h.1), hfound⟩
  rcases hd.confirm_cases (Nat.le_refl s.count) s.fcs.finalized.number with
    ⟨hnone, -⟩ | ⟨b, hpos, hb, hnew, hone⟩
  · refine ⟨s.fcs, false, ?_⟩
    intro c fcs replies hway hreached _ hanswers
    obtain ⟨rfl, hfound⟩ := hsame c fcs hway hreached
    refine ⟨[], ?_, by rw [hfound, hwhole, List.append_nil]⟩
    rw [hd.aggregated (Nat.le_refl _) hfound, hnone, hempty]
    exact .nil
  · refine ⟨s.fcs.candidate (confirmedHead s.fcs b.blockInfo) (some b.blockInfo)
      (finalizedTarget s.batch b.blockInfo), (confirmedHead s.fcs b.blockInfo).isSome, ?_⟩
    intro c fcs replies hway hreached _ hanswers
    obtain ⟨rfl, hfound⟩ := hsame c fcs hway hreached
    refine ⟨[], ?_, by rw [hfound, hwhole, List.append_nil]⟩
    rw [hd.aggregated (Nat.le_refl _) hfound, hone, hempty] at hanswers ⊢
    exact hreached.update_end (hd.heads_found hpos s.kept_le (Nat.le_refl _) hb) hnew hanswers
      (fun _ => .nil)

theorem Target.exists_end (hd : s.Target d) (hbegins : s.Begins)
    (hhead : s.fcs.head.number < s.first + s.count ∨ s.kept = s.count) :
    ∃ final moved, s.EndsIn d final moved := by
  by_cases hkept : s.kept < s.count
  · obtain ⟨final, hend⟩ := hd.rebuilding_end hbegins hkept (hhead.resolve_right (by omega))
    exact ⟨final, true, hend⟩
  · exact hd.keeping_end hkept

def outcome (s : RetryStart e) (d : Chain L2Block) (moved : Bool) : BatchConsolidationOutcome :=
  ⟨s.batch.batchInfo, (s.targets d).map L2Block.withL1Messages, [], s.batch.targetStatus, moved⟩

theorem EndsIn.attempt {final : ForkchoiceState} {moved : Bool} {c : Chain L2Block}
    {fcs : ForkchoiceState} {db : Db} {replies : ℕ → ActionReplies}
    {plan : BatchReconciliationResult} (h : s.EndsIn d final moved) (hway : s.OnTheWay d c)
    (hreached : s.Reached d fcs) (hready : RebuildReady s.batch s.first (clientOf c) fcs)
    (hfrontier : checkSafeFrontier (clientOf c) fcs db s.batch.batchInfo = .ok ())
    (hplan : reconcileBatch (clientOf c) s.batch fcs = .ok plan)
    (hanswers : e.AnswersAll s.batch fcs ⟨[], false⟩ plan.aggregateActions replies) :
    HeadsIn (s.Heads d) (reconcileRequests (clientOf c) replies fcs db s.batch) ∧
      ((∃ fcs' method status,
          reconcileAndConsolidate (clientOf c) replies fcs db s.batch =
            (fcs', db, .error (.hold method status)) ∧
          s.Reached d fcs' ∧ ¬ ∀ i, (replies i).AllValid) ∨
        reconcileAndConsolidate (clientOf c) replies fcs db s.batch =
          (final, storeOutcome db (s.outcome d moved) s.batch.skippedL1Messages)) := by
  have hactions := aggregateActions_eq s.consecutive hplan
  rw [hactions] at hanswers
  obtain ⟨rebuilt, hends, hblocks⟩ := h c fcs replies hway hreached hready hanswers
  rw [← hactions] at hends
  constructor
  · simp only [reconcileRequests, hfrontier, hplan]
    exact hends.heads
  · simp only [reconcileAndConsolidate, hfrontier, hplan]
    rcases hends.ends with ⟨fcs', method, status, hheld, hreached', hnot⟩ | hdone
    · simp only [hheld]
      exact Or.inl ⟨fcs', method, status, rfl, hreached', hnot⟩
    · simp only [hdone]
      have houtcome : plan.intoBatchConsolidationOutcome rebuilt moved = s.outcome d moved := by
        have hlist := intoBatchConsolidationOutcome_blocks hplan rebuilt moved
        rw [hblocks] at hlist
        simp only [BatchReconciliationResult.intoBatchConsolidationOutcome] at hlist ⊢
        rw [hlist, reconcileBatch_eq_ok hplan]
        rfl
      rw [houtcome]
      exact Or.inr rfl

end RetryStart
end RollupNode
