import RollupNode.HeaderWalk

set_option autoImplicit false

/-! The remembered headers stay the end of a chain through a poll. -/
namespace RollupNode
open LinkedChain

namespace Watcher

variable {chain : BoundedVec Header headerCapacity}

theorem fetchUnfinalizedChain_ok {w : Watcher} {v : L1View} {c : Chain Header}
    (hcf : CollisionFree c v.chain) (hsuffix : w.unfinalizedBlocks.data <:+ c.blocks)
    (h : w.fetchUnfinalizedChain v = .ok chain) :
    chain.data <:+ v.chain.blocks ∧ chain.data ≠ [] := by
  obtain ⟨j, b, hwalk, -, hdata⟩ := fetchUnfinalizedChain_found h
  have hjlen := (List.getElem?_eq_some_iff.1 hwalk.block).1
  have hwhole : w.unfinalizedBlocks.data.take ((rposition w.unfinalizedBlocks.data b).getD 0) ++
      v.chain.blocks.drop j <:+ v.chain.blocks := by
    cases hposition : rposition w.unfinalizedBlocks.data b with
    | none => exact List.drop_suffix _ _
    | some p => exact take_append_drop_suffix hcf hsuffix (rposition_spec hposition) hwalk.block
  rw [hdata]
  refine ⟨(List.drop_suffix _ _).trans hwhole, ?_⟩
  intro hnil
  have hlen := congrArg List.length hnil
  have hpos := Nat.pos_of_neZero headerCapacity
  rw [newest, List.length_drop, List.length_append, List.length_drop, List.length_nil] at hlen
  omega

/-- Finalization raises the finalized block, reports one that is new and keeps the remembered
headers behind the finalized one. -/
theorem handleFinalizedBlock_spec (w : Watcher) (finalized : Header) :
    ∃ kept : BoundedVec Header headerCapacity,
      w.handleFinalizedBlock finalized =
        ⟨{ w with
            l1State := { w.l1State with finalized := max w.l1State.finalized finalized.number }
            unfinalizedBlocks := kept },
          if w.l1State.finalized < finalized.number then [.sent (.finalized finalized.number)]
          else [], .ok ()⟩ ∧
      ((kept.data = w.unfinalizedBlocks.data ∧
        (∀ h ∈ w.unfinalizedBlocks.data, h.hash ≠ finalized.hash) ∧
        ∀ tail ∈ w.unfinalizedBlocks.data.getLast?, finalized.number ≤ tail.number) ∨
      (kept.data = [] ∧
        ∃ tail ∈ w.unfinalizedBlocks.data.getLast?, tail.number < finalized.number) ∨
      ∃ p h, w.unfinalizedBlocks.data[p]? = some h ∧ h.hash = finalized.hash ∧
        kept.data = w.unfinalizedBlocks.data.drop (p + 1)) := by
  have hraised : (if w.l1State.finalized < finalized.number then
      { w with l1State := { w.l1State with finalized := finalized.number } } else w) =
        { w with
          l1State := { w.l1State with finalized := max w.l1State.finalized finalized.number } } := by
    split
    · rename_i hnew
      rw [Nat.max_eq_right (Nat.le_of_lt hnew)]
    · rename_i hold
      rw [Nat.max_eq_left (Nat.le_of_not_lt hold)]
  simp only [handleFinalizedBlock, hraised]
  split
  · rename_i hnone
    refine ⟨w.unfinalizedBlocks, rfl, .inl ⟨rfl, ?_, ?_⟩⟩
    · intro h hh
      rw [List.getLast?_eq_none_iff.1 hnone] at hh
      cases hh
    · intro tail htail
      rw [hnone] at htail
      cases htail
  · rename_i tail htail
    split
    · rename_i hlt
      exact ⟨.new, rfl, .inr (.inl ⟨rfl, tail, htail, hlt⟩)⟩
    · rename_i hle
      split
      · rename_i hfind
        refine ⟨w.unfinalizedBlocks, rfl, .inl ⟨rfl, ?_, ?_⟩⟩
        · intro h hh heq
          have hno := List.findIdx?_eq_none_iff.1 hfind h hh
          exact of_decide_eq_false hno heq
        · intro last hlast
          rw [htail] at hlast
          cases hlast
          exact Nat.le_of_not_lt hle
      · rename_i p hfind
        obtain ⟨hlt, heq, -⟩ := List.findIdx?_eq_some_iff_getElem.1 hfind
        exact ⟨w.unfinalizedBlocks.drainTo p, rfl,
          .inr (.inr ⟨p, _, List.getElem?_eq_getElem hlt, of_decide_eq_true heq, rfl⟩)⟩

theorem handleFinalizedBlock_cases (w : Watcher) (finalized : Header) :
    let unfinalized := w.unfinalizedBlocks.data
    let after := (w.handleFinalizedBlock finalized).watcher.unfinalizedBlocks.data
    (after = unfinalized ∧ (∀ h ∈ unfinalized, h.hash ≠ finalized.hash) ∧
      ∀ tail ∈ unfinalized.getLast?, finalized.number ≤ tail.number) ∨
      (after = [] ∧ ∃ tail ∈ unfinalized.getLast?, tail.number < finalized.number) ∨
      ∃ p h, unfinalized[p]? = some h ∧ h.hash = finalized.hash ∧ after = unfinalized.drop (p + 1) := by
  obtain ⟨kept, heq, hkept⟩ := w.handleFinalizedBlock_spec finalized
  simp only [heq]
  exact hkept

theorem handleFinalizedBlock_frame (w : Watcher) (finalized : Header) :
    (w.handleFinalizedBlock finalized).result = .ok () ∧
      (w.handleFinalizedBlock finalized).watcher.currentBlockNumber = w.currentBlockNumber ∧
      ∀ e ∈ (w.handleFinalizedBlock finalized).emitted, e = .sent (.finalized finalized.number) := by
  obtain ⟨kept, heq, -⟩ := w.handleFinalizedBlock_spec finalized
  rw [heq]
  refine ⟨rfl, rfl, ?_⟩
  intro e he
  simp only at he
  split at he
  · exact List.mem_singleton.1 he
  · cases he

/-- What a poll does when it adopts the served chain in place of `c`: it goes on when nothing of
`c` was replaced, or takes indexing back to a block up to which the chains agree. -/
inductive Adopts (c : Chain Header) (v : L1View) (w : Watcher) : Watcher → List Emission → Prop where
  | extended (w' : Watcher) (announced : List L1Notification) (hsub : ∀ b ∈ c, b ∈ v.chain)
      (hcurrent : w'.currentBlockNumber = w.currentBlockNumber)
      (hquiet : ∀ n ∈ announced, n = .newBlock v.latest.blockInfo) :
      Adopts c v w w' (announced.map Emission.sent)
  | reorged (w' : Watcher) (n : ℕ) (hagree : AgreesTo c v.chain n) (hn : n < v.chain.blocks.length)
      (hcurrent : w'.currentBlockNumber = min w.currentBlockNumber n) :
      Adopts c v w w' [.sent (.reorg n), .sent (.newBlock v.latest.blockInfo)]

section
variable {w : Watcher} {v : L1View} {c : Chain Header}

theorem tip_of_suffix {tail : Header} (hsuffix : w.unfinalizedBlocks.data <:+ c.blocks)
    (htail : w.unfinalizedBlocks.data.getLast? = some tail) :
    c.blocks.getLast? = some tail ∧ tail ∈ c := by
  have hne : w.unfinalizedBlocks.data ≠ [] := by
    intro hnil
    rw [hnil] at htail
    cases htail
  rw [getLast?_suffix hsuffix hne] at htail
  exact ⟨htail, List.mem_of_getLast? htail⟩

theorem suffix_of_same_tip {tail : Header} (hcf : CollisionFree c v.chain)
    (hsuffix : w.unfinalizedBlocks.data <:+ c.blocks)
    (htail : w.unfinalizedBlocks.data.getLast? = some tail) (hhash : tail.hash = v.latest.hash) :
    (∀ b ∈ c, b ∈ v.chain) ∧ w.unfinalizedBlocks.data <:+ v.chain.blocks := by
  obtain ⟨htip, hmem⟩ := tip_of_suffix hsuffix htail
  have hlatest : v.latest ∈ v.chain := List.mem_of_getLast? v.latest_tip
  have heq : tail = v.latest := hcf tail hmem v.latest hlatest hhash
  obtain ⟨hagree, hsub⟩ := subset_of_tip hcf htip (heq ▸ hlatest)
  refine ⟨hsub, ?_⟩
  have hlen := v.latest_number
  have hwhole := hagree.blocks_eq_take (c.number_getLast htip)
  rw [heq] at hwhole
  change c.blocks = v.chain.blocks.take (v.latest.number + 1) at hwhole
  rw [hlen, List.take_length] at hwhole
  rw [← hwhole]
  exact hsuffix

theorem suffix_of_parent {tail : Header} (hcf : CollisionFree c v.chain)
    (hsuffix : w.unfinalizedBlocks.data <:+ c.blocks)
    (htail : w.unfinalizedBlocks.data.getLast? = some tail)
    (hhash : tail.hash = v.latest.parentHash) (hnumber : v.latest.number = tail.number + 1) :
    (∀ b ∈ c, b ∈ v.chain) ∧
      (w.unfinalizedBlocks.pushBack v.latest).data <:+ v.chain.blocks := by
  obtain ⟨htip, hmem⟩ := tip_of_suffix hsuffix htail
  obtain ⟨hget, -, hstart⟩ := latest_start v
  have hlt := (List.getElem?_eq_some_iff.1 hget).1
  obtain ⟨parent, hparent, hpget, hpnumber⟩ := v.chain.exists_at (i := tail.number) (by omega)
  have hlink := v.chain.linked tail.number parent v.latest hpget (by rw [← hnumber]; exact hget)
  have heq : tail = parent := hcf tail hmem parent hparent (hhash.trans hlink)
  obtain ⟨hagree, hsub⟩ := subset_of_tip hcf htip (heq ▸ hparent)
  refine ⟨hsub, ?_⟩
  have hwhole : c.blocks ++ [v.latest] = v.chain.blocks := by
    have hinitial := hagree.blocks_eq_take (c.number_getLast htip)
    change c.blocks = v.chain.blocks.take (tail.number + 1) at hinitial
    rw [hinitial, hstart, hnumber, List.take_append_drop]
  obtain ⟨t, ht⟩ := hsuffix
  have hpush : (w.unfinalizedBlocks.pushBack v.latest).data <:+
      w.unfinalizedBlocks.data ++ [v.latest] :=
    BoundedVec.extend_suffix w.unfinalizedBlocks [v.latest]
  refine hpush.trans ⟨t, ?_⟩
  rw [← List.append_assoc, ht, hwhole]

/-- The latest block is known, a child of the last remembered one, or the end of a fetched chain. -/
theorem handleLatestBlock_cases (w : Watcher) (v : L1View) :
    (∃ tail, w.unfinalizedBlocks.data.getLast? = some tail ∧ tail.hash = v.latest.hash ∧
      w.handleLatestBlock v = ⟨w, [], .ok ()⟩) ∨
    (∃ tail, w.unfinalizedBlocks.data.getLast? = some tail ∧ tail.hash = v.latest.parentHash ∧
      tail.hash ≠ v.latest.hash ∧ w.handleLatestBlock v =
        ⟨{ w with unfinalizedBlocks := w.unfinalizedBlocks.pushBack v.latest }.newHead v.latest,
          [.sent (.newBlock v.latest.blockInfo)], .ok ()⟩) ∨
    (∃ e, w.fetchUnfinalizedChain v = .error e ∧ w.handleLatestBlock v = ⟨w, [], .error e⟩) ∨
    ∃ chain, w.fetchUnfinalizedChain v = .ok chain ∧
      (∀ tail ∈ w.unfinalizedBlocks.data.getLast?, tail.hash ≠ v.latest.hash ∧
        tail.hash ≠ v.latest.parentHash) ∧
      w.handleLatestBlock v = ⟨(w.reorged chain).1.newHead v.latest,
        (w.reorged chain).2 ++ [.sent (.newBlock v.latest.blockInfo)], .ok ()⟩ := by
  unfold handleLatestBlock
  simp only
  split
  · rename_i hany
    obtain ⟨tail, htail, hhash⟩ := (Option.any_eq_true _ _).1 hany
    exact Or.inl ⟨tail, htail, of_decide_eq_true hhash, rfl⟩
  rename_i hother
  split
  · rename_i hany
    obtain ⟨tail, htail, hhash⟩ := (Option.any_eq_true _ _).1 hany
    refine Or.inr (Or.inl ⟨tail, htail, of_decide_eq_true hhash, ?_, rfl⟩)
    intro hsame
    exact hother ((Option.any_eq_true _ _).2 ⟨tail, htail, decide_eq_true hsame⟩)
  rename_i hgap
  split
  · rename_i e hfetch
    exact Or.inr (Or.inr (Or.inl ⟨e, hfetch, rfl⟩))
  · rename_i chain hfetch
    refine Or.inr (Or.inr (Or.inr ⟨chain, hfetch, ?_, rfl⟩))
    intro tail htail
    constructor
    · intro hhash
      exact hother ((Option.any_eq_true _ _).2 ⟨tail, htail, decide_eq_true hhash⟩)
    · intro hhash
      exact hgap ((Option.any_eq_true _ _).2 ⟨tail, htail, decide_eq_true hhash⟩)

theorem handleLatestBlock_error {e : Interruption} (h : (w.handleLatestBlock v).result = .error e) :
    (w.handleLatestBlock v).watcher = w ∧ (w.handleLatestBlock v).emitted = [] := by
  rcases w.handleLatestBlock_cases v with ⟨_, -, -, heq⟩ | ⟨_, -, -, -, heq⟩ | ⟨e', -, heq⟩ |
    ⟨_, -, -, heq⟩
  · rw [heq] at h
    cases h
  · rw [heq] at h
    cases h
  · rw [heq]
    exact ⟨rfl, rfl⟩
  · rw [heq] at h
    cases h

theorem reorged_none (h : divergence w.unfinalizedBlocks.data chain.data = none) :
    w.reorged chain = ({ w with unfinalizedBlocks := chain }, []) := by
  simp only [reorged, h, Option.map_none]

theorem reorged_some {old new : Header}
    (h : divergence w.unfinalizedBlocks.data chain.data = some (old, new)) :
    w.reorged chain =
      ({ w with
          unfinalizedBlocks := chain
          currentBlockNumber := min w.currentBlockNumber (old.number - 1) },
        [.sent (.reorg (old.number - 1))]) := by
  have hcurrent : (if old.number - 1 < w.currentBlockNumber then old.number - 1
      else w.currentBlockNumber) = min w.currentBlockNumber (old.number - 1) := by
    split
    · omega
    · omega
  simp only [reorged, h, Option.map_some, hcurrent]

theorem reorged_unfinalizedBlocks (w : Watcher) (chain : BoundedVec Header headerCapacity) :
    (w.reorged chain).1.unfinalizedBlocks = chain := by
  cases hdiv : divergence w.unfinalizedBlocks.data chain.data with
  | none => rw [reorged_none hdiv]
  | some found => rw [reorged_some hdiv]

theorem reorged_adopts (hcf : CollisionFree c v.chain)
    (hsuffix : w.unfinalizedBlocks.data <:+ c.blocks)
    (hempty : w.unfinalizedBlocks.data = [] → ∀ b ∈ c, b ∈ v.chain)
    (hroot : ∀ oldest ∈ w.unfinalizedBlocks.data.head?, Rooted v.chain oldest)
    (hrollback : v.latest ∉ w.unfinalizedBlocks.data.dropLast)
    (hchain : chain.data <:+ v.chain.blocks) (hne : chain.data ≠ []) :
    Adopts c v w ((w.reorged chain).1.newHead v.latest)
      ((w.reorged chain).2 ++ [.sent (.newBlock v.latest.blockInfo)]) := by
  cases hdiv : divergence w.unfinalizedBlocks.data chain.data with
  | none =>
    rw [reorged_none hdiv]
    refine .extended _ [.newBlock v.latest.blockInfo] ?_ rfl (fun n hn => List.mem_singleton.1 hn)
    cases htail : w.unfinalizedBlocks.data.getLast? with
    | none => exact hempty (List.getLast?_eq_none_iff.1 htail)
    | some tail =>
      have hlast := (getLast?_suffix hchain hne).trans v.latest_tip
      have hmem := (tip_of_no_divergence hcf hsuffix hchain hdiv htail hlast).resolve_right hrollback
      exact (subset_of_tip hcf (tip_of_suffix hsuffix htail).1 hmem).2
  | some found =>
    obtain ⟨old, new⟩ := found
    have hagree := agreesTo_of_divergence hcf hsuffix hchain hroot hdiv
    rw [reorged_some hdiv]
    refine .reorged _ (old.number - 1) hagree ?_ rfl
    · obtain ⟨i, hold, -⟩ := divergence_eq_some hdiv
      have hlt : old.number < c.blocks.length :=
        c.number_lt (hsuffix.subset (List.mem_of_getElem? hold))
      have hsame := hagree (old.number - 1) (Nat.le_refl _)
      rw [List.getElem?_eq_getElem (by omega)] at hsame
      exact (List.getElem?_eq_some_iff.1 hsame.symm).1

theorem handleLatestBlock_ok (hcf : CollisionFree c v.chain)
    (hparent : ∀ b ∈ c, v.latest.parentHash = b.hash → v.latest.number = b.number + 1)
    (hsuffix : w.unfinalizedBlocks.data <:+ c.blocks)
    (hempty : w.unfinalizedBlocks.data = [] → ∀ b ∈ c, b ∈ v.chain)
    (hroot : ∀ oldest ∈ w.unfinalizedBlocks.data.head?, Rooted v.chain oldest)
    (hrollback : v.latest ∉ w.unfinalizedBlocks.data.dropLast)
    (hok : (w.handleLatestBlock v).result = .ok ()) :
    Adopts c v w (w.handleLatestBlock v).watcher (w.handleLatestBlock v).emitted ∧
      (w.handleLatestBlock v).watcher.unfinalizedBlocks.data <:+ v.chain.blocks ∧
      (w.handleLatestBlock v).watcher.unfinalizedBlocks.data ≠ [] := by
  rcases w.handleLatestBlock_cases v with ⟨tail, htail, hhash, heq⟩ |
    ⟨tail, htail, hhash, -, heq⟩ | ⟨e, -, heq⟩ | ⟨chain, hfetch, -, heq⟩
  · obtain ⟨hsub, hserved⟩ := suffix_of_same_tip hcf hsuffix htail hhash
    rw [heq]
    refine ⟨.extended w [] hsub rfl (fun n hn => by cases hn), hserved, ?_⟩
    intro hnil
    rw [hnil] at htail
    cases htail
  · have hnumber := hparent tail (tip_of_suffix hsuffix htail).2 hhash.symm
    obtain ⟨hsub, hserved⟩ := suffix_of_parent hcf hsuffix htail hhash hnumber
    rw [heq]
    refine ⟨.extended _ [_] hsub rfl (fun n hn => List.mem_singleton.1 hn), hserved, ?_⟩
    exact List.append_ne_nil_of_right_ne_nil _ (List.cons_ne_nil _ _)
  · rw [heq] at hok
    cases hok
  · obtain ⟨hchain, hne⟩ := fetchUnfinalizedChain_ok hcf hsuffix hfetch
    have hunf := w.reorged_unfinalizedBlocks chain
    rw [heq]
    refine ⟨reorged_adopts hcf hsuffix hempty hroot hrollback hchain hne, ?_, ?_⟩
    · change (w.reorged chain).1.unfinalizedBlocks.data <:+ v.chain.blocks
      rw [hunf]
      exact hchain
    · change (w.reorged chain).1.unfinalizedBlocks.data ≠ []
      rw [hunf]
      exact hne

end

theorem step_cases (w : Watcher) (v : L1View) :
    let first := w.handleFinalizedBlock v.finalized
    let second := first.watcher.handleLatestBlock v
    let third := second.watcher.indexNext v
    (∃ e, w.step v = ⟨w, [], .error e⟩) ∨
      (∃ e, w.step v = ⟨first.watcher, first.emitted, .error e⟩) ∨
      second.result = .ok () ∧
        w.step v = ⟨third.watcher, first.emitted ++ (second.emitted ++ third.emitted), third.result⟩ := by
  have hfirst := (w.handleFinalizedBlock_frame v.finalized).1
  unfold step
  simp only
  split
  · exact Or.inl ⟨_, rfl⟩
  simp only [Stepped.andThen, hfirst]
  split
  · simp only [List.append_nil]
    exact Or.inr (Or.inl ⟨_, rfl⟩)
  cases hresult : ((w.handleFinalizedBlock v.finalized).watcher.handleLatestBlock v).result with
  | error e =>
    obtain ⟨hwatcher, hemitted⟩ := handleLatestBlock_error hresult
    simp only [hwatcher, hemitted, List.append_nil]
    exact Or.inr (Or.inl ⟨e, rfl⟩)
  | ok done => exact Or.inr (Or.inr ⟨rfl, rfl⟩)

end Watcher
end RollupNode
