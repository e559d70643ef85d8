import RollupNode.WatcherChain

set_option autoImplicit false

/-! The remembered headers while the L1 chain only grows. -/
namespace RollupNode
open LinkedChain

namespace Watcher

/-- The new headers fit behind the remembered ones: there is none or one of them, or the whole is
not longer than the buffer. -/
def Fits (headers : List Header) (v : L1View) : Prop :=
  ∀ first ∈ headers.head?, ∀ tail ∈ headers.getLast?,
    v.latest.number ≤ tail.number + 1 ∨ v.latest.number < first.number + headerCapacity

theorem handleFinalizedBlock_keeps (w : Watcher) (finalized : Header) :
    (w.handleFinalizedBlock finalized).watcher.unfinalizedBlocks.data <:+ w.unfinalizedBlocks.data ∧
      (w.handleFinalizedBlock finalized).watcher.l1State.head = w.l1State.head ∧
      (w.handleFinalizedBlock finalized).watcher.logQueryBlockRange = w.logQueryBlockRange := by
  obtain ⟨kept, heq, hkept⟩ := w.handleFinalizedBlock_spec finalized
  rw [heq]
  refine ⟨?_, rfl, rfl⟩
  rcases hkept with ⟨hdata, -⟩ | ⟨hdata, -⟩ | ⟨p, -, -, -, hdata⟩
  · refine ⟨[], ?_⟩
    rw [List.nil_append, hdata]
  · rw [hdata]
    exact List.nil_suffix
  · rw [hdata]
    exact List.drop_suffix _ _

theorem handleFinalizedBlock_head (w : Watcher) (finalized : Header)
    (h : ∀ tail ∈ w.unfinalizedBlocks.data.getLast?, w.l1State.head = tail.number) :
    ∀ tail ∈ (w.handleFinalizedBlock finalized).watcher.unfinalizedBlocks.data.getLast?,
      (w.handleFinalizedBlock finalized).watcher.l1State.head = tail.number := by
  obtain ⟨hkept, hhead, -⟩ := w.handleFinalizedBlock_keeps finalized
  intro tail htail
  have hne : (w.handleFinalizedBlock finalized).watcher.unfinalizedBlocks.data ≠ [] := by
    intro hnil
    rw [hnil] at htail
    cases htail
  rw [getLast?_suffix hkept hne] at htail
  rw [hhead]
  exact h tail htail

section
variable {v : L1View} {c : Chain Header} {w : Watcher} (hcf : CollisionFree v.chain v.chain)
  (hgrown : c.blocks <+: v.chain.blocks) (hsuffix : w.unfinalizedBlocks.data <:+ c.blocks)
include hcf hgrown hsuffix

theorem handleFinalizedBlock_data :
    (w.handleFinalizedBlock v.finalized).watcher.unfinalizedBlocks.data =
      w.unfinalizedBlocks.data.filter (fun b => v.finalized.number < b.number) := by
  have hserved : ∀ b ∈ w.unfinalizedBlocks.data, b ∈ v.chain :=
    fun b hb => hgrown.subset (hsuffix.subset hb)
  obtain ⟨first, -, -, hnumber⟩ := getElem?_suffix hsuffix
  have hindex : ∀ b ∈ w.unfinalizedBlocks.data, ∃ i, w.unfinalizedBlocks.data[i]? = some b ∧
      b.number = first + i := by
    intro b hb
    obtain ⟨i, hi⟩ := List.mem_iff_getElem?.1 hb
    exact ⟨i, hi, hnumber i b hi⟩
  have hlast : ∀ tail ∈ w.unfinalizedBlocks.data.getLast?,
      tail.number + 1 = first + w.unfinalizedBlocks.data.length := by
    intro tail htail
    rw [List.getLast?_eq_getElem?] at htail
    have hlt := (List.getElem?_eq_some_iff.1 htail).1
    have htailNumber : tail.number = _ := hnumber _ tail htail
    omega
  rcases w.handleFinalizedBlock_cases v.finalized with ⟨hdata, hne, hle⟩ | ⟨hdata, tail, htail, hlt⟩ |
    ⟨p, h, hp, hhash, hdata⟩
  · rw [hdata]
    symm
    rw [List.filter_eq_self]
    intro b hb
    rw [decide_eq_true_eq]
    by_contra hlow
    obtain ⟨i, hi, hb'⟩ := hindex b hb
    obtain ⟨tail, htail⟩ : ∃ tail, w.unfinalizedBlocks.data.getLast? = some tail :=
      ⟨_, List.getLast?_eq_some_getLast (List.ne_nil_of_mem hb)⟩
    have htailLe := hle tail htail
    have htailNumber := hlast tail htail
    -- the finalized block would be one of the remembered ones
    have hget := List.getElem?_eq_getElem (l := w.unfinalizedBlocks.data)
      (i := v.finalized.number - first) (by omega)
    have hfound := List.mem_of_getElem? hget
    have hfoundNumber := hnumber _ _ hget
    have hsame := v.chain.eq_of_number (hserved _ hfound) v.finalized_mem (hfoundNumber.trans (by
      change _ = v.finalized.number
      omega))
    exact hne _ hfound (congrArg Header.hash hsame)
  · rw [hdata]
    symm
    rw [List.filter_eq_nil_iff]
    intro b hb
    obtain ⟨i, hi, hb'⟩ := hindex b hb
    have hilt := (List.getElem?_eq_some_iff.1 hi).1
    have htailNumber := hlast tail htail
    rw [decide_eq_true_eq]
    omega
  · rw [hdata]
    have hsame : h = v.finalized :=
      hcf h (hserved h (List.mem_of_getElem? hp)) v.finalized v.finalized_mem hhash
    rw [hsame] at hp
    exact (filter_above_suffix hsuffix hp).symm

theorem fetchUnfinalizedChain_grown {first : Header} {chain : BoundedVec Header headerCapacity}
    (habove : ∀ b ∈ w.unfinalizedBlocks.data, v.finalized.number < b.number)
    (hfirst : w.unfinalizedBlocks.data.head? = some first)
    (h : w.fetchUnfinalizedChain v = .ok chain) :
    chain.data = newest (v.chain.blocks.drop first.number) := by
  have hmem := List.mem_of_head? hfirst
  have hserved : ∀ b ∈ w.unfinalizedBlocks.data, b ∈ v.chain :=
    fun b hb => hgrown.subset (hsuffix.subset hb)
  have hmet : Met w.unfinalizedBlocks.data v := by
    have hlow := habove first hmem
    refine ⟨first, hmem, hserved first hmem, ?_⟩
    unfold walkEnd
    omega
  have hnamed : Named w.unfinalizedBlocks.data v.chain := fun a ha => hcf a (hserved a ha)
  rcases fetched_exact (linked_of_suffix hsuffix) hnamed hcf h with
    ⟨-, oldest, holdest, -, hdata⟩ | ⟨hmissed, -⟩
  · rw [hfirst] at holdest
    cases holdest
    exact hdata
  · exact absurd hmet hmissed

theorem divergence_fetched {first : Header} {chain : BoundedVec Header headerCapacity}
    (hfirst : w.unfinalizedBlocks.data.head? = some first)
    (hchain : chain.data = newest (v.chain.blocks.drop first.number)) :
    (v.latest.number < first.number + headerCapacity →
      divergence w.unfinalizedBlocks.data chain.data = none) ∧
    (first.number + headerCapacity ≤ v.latest.number →
      ∃ new, divergence w.unfinalizedBlocks.data chain.data = some (first, new)) := by
  have hlatest := v.latest_number
  have hmem : first ∈ v.chain := hgrown.subset (hsuffix.subset (List.mem_of_head? hfirst))
  obtain ⟨offset, hdata, hlength, hnumber⟩ := getElem?_suffix hsuffix
  have hget := hfirst
  rw [List.head?_eq_getElem?] at hget
  have hoffset : first.number = offset + 0 := hnumber 0 first hget
  constructor
  · intro hroom
    apply divergence_of_same_beginning
    obtain ⟨rest, hrest⟩ := hgrown
    rw [hchain, newest, List.length_drop, Nat.sub_eq_zero_of_le (by omega), List.drop_zero, hdata,
      hoffset, ← hrest, List.drop_append_of_le_length (by omega)]
    exact ⟨rest, rfl⟩
  · intro hfull
    have hnamed : Named w.unfinalizedBlocks.data v.chain :=
      fun a ha => hcf a (hgrown.subset (hsuffix.subset ha))
    have hlt : first.number < v.chain.blocks.length := v.chain.number_lt hmem
    obtain ⟨hrun, htip⟩ := newest_run v first.number (by omega)
    rw [hchain]
    refine divergence_of_head_ne hnamed hfirst hrun ?_ ?_
    · intro hnil
      rw [hnil] at htip
      cases htip
    · intro b hb heq
      have hnumber := (newest_head v hb).2
      rw [heq] at hnumber
      omega

theorem latest_above_tail {tail : Header}
    (htail : w.unfinalizedBlocks.data.getLast? = some tail) :
    tail.number ≤ v.latest.number ∧ (tail.hash = v.latest.hash ↔ v.latest.number = tail.number) ∧
      (tail.hash ≠ v.latest.hash → (tail.hash = v.latest.parentHash ↔
        v.latest.number = tail.number + 1)) := by
  obtain ⟨hget, -, -⟩ := latest_start v
  have hlatest := v.latest_number
  have hlatestMem : v.latest ∈ v.chain := v.chain.mem_of_getElem? hget
  have hmem : tail ∈ v.chain := hgrown.subset (tip_of_suffix hsuffix htail).2
  have hlt : tail.number < v.chain.blocks.length := v.chain.number_lt hmem
  have hsame : v.latest.number = tail.number → tail = v.latest :=
    fun heq => v.chain.eq_of_number hmem hlatestMem heq.symm
  refine ⟨by omega, ⟨?_, ?_⟩, ?_⟩
  · intro hhash
    rw [hcf tail hmem v.latest hlatestMem hhash]
  · intro heq
    rw [hsame heq]
  · intro hother
    have hbelow : tail.number < v.latest.number := by
      have hne : v.latest.number ≠ tail.number := fun heq => hother (congrArg Header.hash (hsame heq))
      omega
    obtain ⟨parent, hparent, hparentGet, hparentNumber⟩ :=
      v.chain.exists_at (i := v.latest.number - 1) (by omega)
    change parent.number = v.latest.number - 1 at hparentNumber
    have hlink : v.latest.parentHash = parent.hash := v.chain.linked _ parent v.latest hparentGet (by
      rw [Nat.sub_add_cancel (by omega)]
      exact hget)
    rw [hlink]
    constructor
    · intro hhash
      rw [hcf tail hmem parent hparent hhash]
      omega
    · intro heq
      have hsameParent : tail = parent := v.chain.eq_of_number hmem hparent (by
        change tail.number = parent.number
        omega)
      rw [hsameParent]

theorem handleLatestBlock_grown
    (habove : ∀ b ∈ w.unfinalizedBlocks.data, v.finalized.number < b.number)
    (hhead : ∀ tail ∈ w.unfinalizedBlocks.data.getLast?, w.l1State.head = tail.number)
    (hfits : Fits w.unfinalizedBlocks.data v) (hok : (w.handleLatestBlock v).result = .ok ()) :
    ∃ w' es, w.handleLatestBlock v = ⟨w', es, .ok ()⟩ ∧
      w'.unfinalizedBlocks.data <:+ v.chain.blocks ∧ w'.unfinalizedBlocks.data ≠ [] ∧
      w'.l1State.head = v.latest.number ∧ w'.currentBlockNumber = w.currentBlockNumber ∧
      w'.logQueryBlockRange = w.logQueryBlockRange ∧
      ∀ e ∈ es, e = .sent (.newBlock v.latest.blockInfo) := by
  have hcf' : CollisionFree c v.chain := fun a ha b hb hhash => hcf a (hgrown.subset ha) b hb hhash
  rcases w.handleLatestBlock_cases v with ⟨tail, htail, hhash, heq⟩ | ⟨tail, htail, hhash, hother, heq⟩ |
    ⟨e, -, heq⟩ | ⟨chain, hfetch, hgap, heq⟩
  · obtain ⟨-, hsame, -⟩ := latest_above_tail hcf hgrown hsuffix htail
    refine ⟨w, [], heq, (suffix_of_same_tip hcf' hsuffix htail hhash).2, ?_, ?_, rfl, rfl, ?_⟩
    · intro hnil
      rw [hnil] at htail
      cases htail
    · rw [hhead tail htail, hsame.1 hhash]
    · intro e he
      cases he
  · obtain ⟨-, -, hparent⟩ := latest_above_tail hcf hgrown hsuffix htail
    have hnumber := (hparent hother).1 hhash
    refine ⟨_, _, heq, (suffix_of_parent hcf' hsuffix htail hhash hnumber).2, ?_, rfl, rfl, rfl, ?_⟩
    · exact List.append_ne_nil_of_right_ne_nil _ (List.cons_ne_nil _ _)
    · intro e he
      exact List.mem_singleton.1 he
  · rw [heq] at hok
    cases hok
  · obtain ⟨hchain, hne⟩ := fetchUnfinalizedChain_ok hcf' hsuffix hfetch
    have hnone : divergence w.unfinalizedBlocks.data chain.data = none := by
      cases hfirst : w.unfinalizedBlocks.data.head? with
      | none =>
        rw [List.head?_eq_none_iff.1 hfirst]
        rfl
      | some first =>
        have hdata := fetchUnfinalizedChain_grown hcf hgrown hsuffix habove hfirst hfetch
        refine (divergence_fetched hcf hgrown hsuffix hfirst hdata).1 ?_
        obtain ⟨tail, htail⟩ : ∃ tail, w.unfinalizedBlocks.data.getLast? = some tail :=
          ⟨_, List.getLast?_eq_some_getLast (List.ne_nil_of_mem (List.mem_of_head? hfirst))⟩
        obtain ⟨hle, hsame, hparent⟩ := latest_above_tail hcf hgrown hsuffix htail
        have hneSame := mt hsame.2 (hgap tail htail).1
        have hneParent := mt (hparent (hgap tail htail).1).2 (hgap tail htail).2
        rcases hfits first hfirst tail htail with hnear | hroom
        · omega
        · exact hroom
    rw [reorged_none hnone] at heq
    refine ⟨_, _, heq, hchain, hne, rfl, rfl, rfl, ?_⟩
    intro e he
    exact List.mem_singleton.1 he

theorem handleLatestBlock_evicts
    (habove : ∀ b ∈ w.unfinalizedBlocks.data, v.finalized.number < b.number)
    (hfits : ¬Fits w.unfinalizedBlocks.data v) (hcall : v.fails .blockByNumber = false) :
    ∃ first ∈ w.unfinalizedBlocks.data, (w.handleLatestBlock v).emitted =
      [.sent (.reorg (first.number - 1)), .sent (.newBlock v.latest.blockInfo)] := by
  obtain ⟨first, hfirst, tail, htail, hnear, hfull⟩ :
      ∃ first ∈ w.unfinalizedBlocks.data.head?, ∃ tail ∈ w.unfinalizedBlocks.data.getLast?,
        tail.number + 1 < v.latest.number ∧ first.number + headerCapacity ≤ v.latest.number := by
    by_contra hnone
    apply hfits
    intro first hfirst tail htail
    by_contra hneither
    exact hnone ⟨first, hfirst, tail, htail, by omega, by omega⟩
  obtain ⟨hle, hsame, hparent⟩ := latest_above_tail hcf hgrown hsuffix htail
  refine ⟨first, List.mem_of_head? hfirst, ?_⟩
  rcases w.handleLatestBlock_cases v with ⟨last, hlast, hhash, -⟩ | ⟨last, hlast, hhash, hother, -⟩ |
    ⟨e, hfetch, -⟩ | ⟨chain, hfetch, -, heq⟩
  · rw [htail] at hlast
    cases hlast
    have hnumber := hsame.1 hhash
    omega
  · rw [htail] at hlast
    cases hlast
    have hnumber := (hparent hother).1 hhash
    omega
  · rw [(fetchUnfinalizedChain_error hfetch).2] at hcall
    cases hcall
  · have hdata := fetchUnfinalizedChain_grown hcf hgrown hsuffix habove hfirst hfetch
    obtain ⟨new, hnew⟩ := (divergence_fetched hcf hgrown hsuffix hfirst hdata).2 hfull
    rw [heq, reorged_some hnew]
    rfl

end

theorem handleLatestBlock_answered {w : Watcher} {v : L1View} (hcall : v.fails .blockByNumber = false) :
    (w.handleLatestBlock v).result = .ok () := by
  rcases w.handleLatestBlock_cases v with ⟨_, -, -, heq⟩ | ⟨_, -, -, -, heq⟩ | ⟨e, hfetch, -⟩ |
    ⟨_, -, -, heq⟩
  · rw [heq]
  · rw [heq]
  · rw [(fetchUnfinalizedChain_error hfetch).2] at hcall
    cases hcall
  · rw [heq]

theorem step_answered {w : Watcher} {v : L1View} (hcalls : ∀ rpc, v.fails rpc = false) :
    let first := w.handleFinalizedBlock v.finalized
    let second := first.watcher.handleLatestBlock v
    let third := second.watcher.indexNext v
    w.step v = ⟨third.watcher, first.emitted ++ (second.emitted ++ third.emitted), third.result⟩ := by
  have hfirst := (w.handleFinalizedBlock_frame v.finalized).1
  have hsecond := handleLatestBlock_answered (w := (w.handleFinalizedBlock v.finalized).watcher)
    (hcalls .blockByNumber)
  unfold step
  simp only [hcalls, Stepped.andThen, hfirst, hsecond]
  rfl

end Watcher
end RollupNode
