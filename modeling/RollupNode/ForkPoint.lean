import RollupNode.WatcherDelivery

set_option autoImplicit false

/-! The fork point that a poll reports. Remembered and fetched headers are compared by position,
which is by height only while both begin at one block. -/
namespace RollupNode
open LinkedChain

namespace Watcher

def blockRequests (w : Watcher) (v : L1View) : ℕ :=
  let tail := w.unfinalizedBlocks.data.getLast?
  if tail.any (fun h => h.hash = v.latest.hash) then 0
  else if tail.any (fun h => h.hash = v.latest.parentHash) then 0
  else walkRequests w.unfinalizedBlocks.data v v.latest.number v.latest

/-- The remembered headers are parent-linked, a hash that they share with the served chain names
one block, and so does the latest block's parent hash. -/
structure Remembered (headers : List Header) (v : L1View) : Prop where
  linked : Linked headers
  named : Named headers v.chain
  served : CollisionFree v.chain v.chain
  parent : ∀ b ∈ headers, v.latest.parentHash = b.hash → v.latest.number = b.number + 1

theorem reorg_mem_iff (w : Watcher) (v : L1View) (chain : BoundedVec Header headerCapacity) (n : ℕ) :
    .sent (.reorg n) ∈ (w.reorged chain).2 ++ [Emission.sent (.newBlock v.latest.blockInfo)] ↔
      ∃ old new, divergence w.unfinalizedBlocks.data chain.data = some (old, new) ∧
        n = old.number - 1 := by
  cases hdiv : divergence w.unfinalizedBlocks.data chain.data with
  | none => simp [reorged_none hdiv]
  | some found =>
    obtain ⟨old, new⟩ := found
    simp [reorged_some hdiv]

/-- The remembered block right above `n` is not on the served chain, and those up to `n` are. -/
def ForkPoint (headers : List Header) (v : L1View) (n : ℕ) : Prop :=
  (∃ b ∈ headers, b.number = n + 1 ∧ b ∉ v.chain) ∧ ∀ b ∈ headers, b.number ≤ n → b ∈ v.chain

/-- The oldest remembered block is the first one off the served chain. Below genesis there is
no number: there it is the one above. -/
def OldestReplaced (headers : List Header) (v : L1View) (first : Header) : Prop :=
  (first.number ≠ 0 ∧ first ∉ v.chain) ∨
    (first.number = 0 ∧ first ∈ v.chain ∧ ∃ b ∈ headers, b.number = 1 ∧ b ∉ v.chain)

/-- The fetched headers begin with the oldest remembered one: the walk meets the remembered
headers, and the buffer has room for the whole. -/
def Aligned (headers : List Header) (v : L1View) (first : Header) : Prop :=
  Met headers v ∧ v.latest.number < first.number + headerCapacity

/-- The latest block is the last remembered one or its child, the comparison by position is one by
height, or the oldest remembered block is where the chains part. -/
def Comparable (headers : List Header) (v : L1View) : Prop :=
  ∀ first ∈ headers.head?, ∀ tail ∈ headers.getLast?,
    tail.hash = v.latest.hash ∨ tail.hash = v.latest.parentHash ∨ Aligned headers v first ∨
      OldestReplaced headers v first

section
variable {v : L1View} {headers : List Header} {first : Header}

theorem forkPoint_oldest_iff (h : Linked headers) (hfirst : headers.head? = some first) :
    ForkPoint headers v (first.number - 1) ↔ OldestReplaced headers v first := by
  have hnumber : ∀ b ∈ headers, first.number ≤ b.number ∧ (b.number = first.number → b = first) := by
    intro b hb
    obtain ⟨i, hi⟩ := List.mem_iff_getElem?.1 hb
    have hbnumber : b.number = first.number + i := h.number_eq hfirst i b hi
    refine ⟨by omega, ?_⟩
    intro heq
    rw [List.head?_eq_getElem?] at hfirst
    rw [show i = 0 by omega, hfirst] at hi
    exact (Option.some.inj hi).symm
  have hmem := List.mem_of_head? hfirst
  unfold ForkPoint OldestReplaced
  by_cases hzero : first.number = 0
  · simp only [hzero, ne_eq, not_true_eq_false, false_and, true_and, false_or, Nat.zero_sub,
      Nat.zero_add, Nat.le_zero]
    constructor
    · rintro ⟨hoff, hon⟩
      exact ⟨hon first hmem hzero, hoff⟩
    · rintro ⟨hserved, hoff⟩
      refine ⟨hoff, ?_⟩
      intro b hb hbzero
      rw [(hnumber b hb).2 (hbzero.trans hzero.symm)]
      exact hserved
  · simp only [hzero, ne_eq, not_false_eq_true, true_and, false_and, or_false]
    constructor
    · rintro ⟨⟨b, hb, hbnumber, hoff⟩, -⟩
      rw [← (hnumber b hb).2 (by omega)]
      exact hoff
    · intro hoff
      refine ⟨⟨first, hmem, by omega, hoff⟩, ?_⟩
      intro b hb hle
      have hge := (hnumber b hb).1
      omega

theorem forkPoint_of_aligned (h : Remembered headers v) (hfirst : headers.head? = some first)
    (hserved : first ∈ v.chain) {old new : Header}
    (hdiv : divergence headers (v.chain.blocks.drop first.number) = some (old, new)) :
    ForkPoint headers v (old.number - 1) := by
  obtain ⟨i, hold, hnew, hne, hbefore⟩ := divergence_eq_some hdiv
  have hget : v.chain.blocks[first.number]? = some first := (v.chain.mem_iff first).1 hserved
  have holdNumber : old.number = first.number + i := h.linked.number_eq hfirst i old hold
  rw [List.getElem?_drop] at hnew
  have hipos : i ≠ 0 := by
    rintro rfl
    rw [← List.head?_eq_getElem?, hfirst] at hold
    cases hold
    rw [Nat.add_zero, hget] at hnew
    cases hnew
    exact hne rfl
  refine ⟨⟨old, List.mem_of_getElem? hold, by omega, ?_⟩, ?_⟩
  · intro hmem
    have hthere : v.chain.blocks[old.number]? = some old := (v.chain.mem_iff old).1 hmem
    rw [holdNumber, hnew] at hthere
    cases hthere
    exact hne rfl
  · intro b hb hle
    obtain ⟨j, hj⟩ := List.mem_iff_getElem?.1 hb
    have hbNumber : b.number = first.number + j := h.linked.number_eq hfirst j b hj
    have hlt := (List.getElem?_eq_some_iff.1 hnew).1
    have hthere : v.chain.blocks[first.number + j]? = some v.chain.blocks[first.number + j] :=
      List.getElem?_eq_getElem (by omega)
    have hhash := hbefore j b v.chain.blocks[first.number + j] (by omega) hj (by
      rw [List.getElem?_drop]
      exact hthere)
    have hmem := v.chain.mem_of_getElem? hthere
    rw [h.named b hb _ hmem hhash]
    exact hmem

variable {w : Watcher} {chain : BoundedVec Header headerCapacity}

theorem divergence_not_aligned (h : Remembered w.unfinalizedBlocks.data v)
    (hfirst : w.unfinalizedBlocks.data.head? = some first)
    (haligned : ¬Aligned w.unfinalizedBlocks.data v first)
    (hfetch : w.fetchUnfinalizedChain v = .ok chain) :
    ∃ new, divergence w.unfinalizedBlocks.data chain.data = some (first, new) := by
  have hcases := fetched_exact h.linked h.named h.served hfetch
  have hlatest := v.latest_number
  rcases hcases with ⟨hmet, oldest, holdest, hserved, hdata⟩ | ⟨hmissed, hdata⟩
  · obtain rfl : first = oldest := Option.some.inj (hfirst.symm.trans holdest)
    have hlt : first.number < v.chain.blocks.length := v.chain.number_lt hserved
    have hfull : ¬v.latest.number < first.number + headerCapacity :=
      fun hroom => haligned ⟨hmet, hroom⟩
    obtain ⟨hsuffix, htip⟩ := newest_run v first.number (by omega)
    rw [hdata]
    refine divergence_of_head_ne h.named hfirst hsuffix ?_ ?_
    · intro hnil
      rw [hnil] at htip
      cases htip
    · intro b hb heq
      have hnumber := (newest_head v hb).2
      rw [heq] at hnumber
      omega
  · obtain ⟨hsuffix, htip⟩ := newest_run v (walkEnd v v.latest.number) (Nat.min_le_right _ _)
    rw [hdata]
    refine divergence_of_head_ne h.named hfirst hsuffix ?_ ?_
    · intro hnil
      rw [hnil] at htip
      cases htip
    · intro b hb heq
      obtain ⟨hserved, hnumber⟩ := newest_head v hb
      rw [heq] at hserved hnumber
      exact hmissed ⟨first, List.mem_of_head? hfirst, hserved, by omega⟩

theorem divergence_aligned (h : Remembered w.unfinalizedBlocks.data v)
    (hfirst : w.unfinalizedBlocks.data.head? = some first)
    (haligned : Aligned w.unfinalizedBlocks.data v first)
    (hfetch : w.fetchUnfinalizedChain v = .ok chain) {old new : Header}
    (hdiv : divergence w.unfinalizedBlocks.data chain.data = some (old, new)) :
    ForkPoint w.unfinalizedBlocks.data v (old.number - 1) := by
  have hcases := fetched_exact h.linked h.named h.served hfetch
  obtain ⟨-, oldest, holdest, hserved, hdata⟩ :=
    hcases.resolve_right (fun hmissed => hmissed.1 haligned.1)
  obtain rfl : first = oldest := Option.some.inj (hfirst.symm.trans holdest)
  have hlatest := v.latest_number
  have hroom := haligned.2
  have hwhole : newest (v.chain.blocks.drop first.number) = v.chain.blocks.drop first.number := by
    unfold newest
    rw [List.length_drop, Nat.sub_eq_zero_of_le (by omega), List.drop_zero]
  rw [hdata, hwhole] at hdiv
  exact forkPoint_of_aligned h hfirst hserved hdiv

theorem comparable_of_gap (hfirst : headers.head? = some first)
    (hgap : ∀ tail ∈ headers.getLast?, tail.hash ≠ v.latest.hash ∧ tail.hash ≠ v.latest.parentHash) :
    Comparable headers v ↔ Aligned headers v first ∨ OldestReplaced headers v first := by
  obtain ⟨tail, htail⟩ : ∃ tail, headers.getLast? = some tail :=
    ⟨_, List.getLast?_eq_some_getLast (List.ne_nil_of_mem (List.mem_of_head? hfirst))⟩
  constructor
  · intro hcomparable
    rcases hcomparable first hfirst tail htail with hsame | hparent | hrest
    · exact absurd hsame (hgap tail htail).1
    · exact absurd hparent (hgap tail htail).2
    · exact hrest
  · intro hrest oldest holdest _ _
    rw [hfirst] at holdest
    cases holdest
    exact Or.inr (Or.inr hrest)

/-- The reported reorgs are fork points exactly when the headers are comparable. -/
theorem handleLatestBlock_reorg_iff (h : Remembered w.unfinalizedBlocks.data v)
    (hcall : v.fails .blockByNumber = false) :
    (∀ n, .sent (.reorg n) ∈ (w.handleLatestBlock v).emitted →
      ForkPoint w.unfinalizedBlocks.data v n) ↔ Comparable w.unfinalizedBlocks.data v := by
  rcases w.handleLatestBlock_cases v with ⟨tail, htail, hhash, heq⟩ | ⟨tail, htail, hhash, -, heq⟩ |
    ⟨e, hfetch, -⟩ | ⟨chain, hfetch, hgap, heq⟩
  · refine iff_of_true ?_ ?_
    · intro n hn
      rw [heq] at hn
      cases hn
    · intro first _ last hlast
      rw [htail] at hlast
      cases hlast
      exact Or.inl hhash
  · refine iff_of_true ?_ ?_
    · intro n hn
      rw [heq] at hn
      simp at hn
    · intro first _ last hlast
      rw [htail] at hlast
      cases hlast
      exact Or.inr (Or.inl hhash)
  · rw [(fetchUnfinalizedChain_error hfetch).2] at hcall
    cases hcall
  rw [heq]
  simp only [reorg_mem_iff]
  cases hfirst : w.unfinalizedBlocks.data.head? with
  | none =>
    have hnil := List.head?_eq_none_iff.1 hfirst
    refine iff_of_true ?_ ?_
    · rintro n ⟨old, new, hdiv, -⟩
      rw [hnil] at hdiv
      cases hdiv
    · intro first hsome
      rw [hfirst] at hsome
      cases hsome
  | some first =>
    rw [comparable_of_gap hfirst hgap]
    by_cases haligned : Aligned w.unfinalizedBlocks.data v first
    · refine iff_of_true ?_ (Or.inl haligned)
      rintro n ⟨old, new, hdiv, rfl⟩
      exact divergence_aligned h hfirst haligned hfetch hdiv
    · obtain ⟨new, hdiv⟩ := divergence_not_aligned h hfirst haligned hfetch
      rw [or_iff_right haligned, ← forkPoint_oldest_iff h.linked hfirst]
      constructor
      · intro hexact
        exact hexact _ ⟨first, new, hdiv, rfl⟩
      · rintro hfork n ⟨old, new', hdiv', rfl⟩
        rw [hdiv] at hdiv'
        cases hdiv'
        exact hfork

def ServedRun (headers : List Header) (v : L1View) (after : List Header) : Prop :=
  ∃ start, start ≤ v.latest.number ∧
    (start = walkEnd v v.latest.number ∨ ∃ first ∈ headers.head?, start = first.number) ∧
    after = newest (v.chain.blocks.drop start)

theorem Remembered.continued (h : Remembered headers v) {tail : Header}
    (htail : headers.getLast? = some tail) (hserved : tail ∈ v.chain) :
    ∃ first ∈ headers.head?, first.number ≤ v.latest.number ∧
      headers ++ v.chain.blocks.drop (tail.number + 1) = v.chain.blocks.drop first.number := by
  have hlatest := v.latest_number
  have hne : headers ≠ [] := List.ne_nil_of_mem (List.mem_of_getLast? htail)
  have hfirst : headers.head? = some (headers.head hne) := List.head?_eq_some_head hne
  have hlast := htail
  have hbegin := hfirst
  rw [List.getLast?_eq_getElem?] at hlast
  rw [List.head?_eq_getElem?] at hbegin
  have holdest := h.linked.mem_of_le h.named hlast hserved 0 _ (Nat.zero_le _) hbegin
  have hlt : (headers.head hne).number < v.chain.blocks.length := v.chain.number_lt holdest
  refine ⟨headers.head hne, hfirst, by omega, ?_⟩
  exact h.linked.append_drop h.named hfirst htail ((v.chain.mem_iff tail).1 hserved)

theorem handleLatestBlock_run (h : Remembered w.unfinalizedBlocks.data v)
    (hcall : v.fails .blockByNumber = false) :
    ServedRun w.unfinalizedBlocks.data v
      (w.handleLatestBlock v).watcher.unfinalizedBlocks.data := by
  obtain ⟨hget, -, hstart⟩ := latest_start v
  have hlatest := v.latest_number
  have hmem : v.latest ∈ v.chain := v.chain.mem_of_getElem? hget
  rcases w.handleLatestBlock_cases v with ⟨tail, htail, hhash, heq⟩ | ⟨tail, htail, hhash, -, heq⟩ |
    ⟨e, hfetch, -⟩ | ⟨chain, hfetch, -, heq⟩
  · have hsame : tail = v.latest := h.named tail (List.mem_of_getLast? htail) v.latest hmem hhash
    rw [hsame] at htail
    obtain ⟨first, hfirst, hle, hwhole⟩ := h.continued htail hmem
    rw [hlatest, List.drop_length, List.append_nil] at hwhole
    rw [heq]
    refine ⟨first.number, hle, Or.inr ⟨first, hfirst, rfl⟩, ?_⟩
    have hbound := w.unfinalizedBlocks.bounded
    unfold newest
    rw [← hwhole, Nat.sub_eq_zero_of_le hbound, List.drop_zero]
  · have hnumber := h.parent tail (List.mem_of_getLast? htail) hhash.symm
    obtain ⟨parent, hparent, hparentGet, -⟩ := v.chain.exists_at (i := tail.number) (by omega)
    have hlink : v.latest.parentHash = parent.hash := v.chain.linked tail.number parent v.latest
      hparentGet (by rw [← hnumber]; exact hget)
    have hsame : tail = parent :=
      h.named tail (List.mem_of_getLast? htail) parent hparent (hhash.trans hlink)
    rw [← hsame] at hparent
    obtain ⟨first, hfirst, hle, hwhole⟩ := h.continued htail hparent
    rw [← hnumber, ← hstart] at hwhole
    rw [heq]
    refine ⟨first.number, hle, Or.inr ⟨first, hfirst, rfl⟩, ?_⟩
    change (w.unfinalizedBlocks.extend [v.latest]).data = newest (v.chain.blocks.drop first.number)
    rw [BoundedVec.extend_data, hwhole]
    rfl
  · rw [(fetchUnfinalizedChain_error hfetch).2] at hcall
    cases hcall
  · have hcases := fetched_exact h.linked h.named h.served hfetch
    have hunf := w.reorged_unfinalizedBlocks chain
    rw [heq]
    change ServedRun _ v (w.reorged chain).1.unfinalizedBlocks.data
    rw [hunf]
    rcases hcases with ⟨-, first, hfirst, hserved, hdata⟩ | ⟨-, hdata⟩
    · have hlt : first.number < v.chain.blocks.length := v.chain.number_lt hserved
      exact ⟨first.number, by omega, Or.inr ⟨first, hfirst, rfl⟩, hdata⟩
    · exact ⟨walkEnd v v.latest.number, Nat.min_le_right _ _, Or.inl rfl, hdata⟩

theorem blockRequests_le (hcall : v.fails .blockByNumber = false) :
    w.blockRequests v ≤ v.latest.number - v.finalized.number := by
  unfold blockRequests
  simp only
  split
  · exact Nat.zero_le _
  split
  · exact Nat.zero_le _
  rcases w.fetchUnfinalizedChain_result v with ⟨j, b, chain, hwalk, hrequests, -⟩ | ⟨hfails, -⟩
  · have hrange := hwalk.range
    omega
  · rw [hfails] at hcall
    cases hcall

end

/-- One poll of the latest block. It ends after at most as many requests as there are blocks above
the finalized one and remembers the served run up to the latest block; the reorgs that it reports
are fork points exactly when the headers are comparable, and with all of them on the served chain
it reports none exactly then. -/
theorem handleLatestBlock_forkPoint_iff (w : Watcher) (v : L1View)
    (h : Remembered w.unfinalizedBlocks.data v) (hcall : v.fails .blockByNumber = false) :
    let headers := w.unfinalizedBlocks.data
    let s := w.handleLatestBlock v
    let after := s.watcher.unfinalizedBlocks.data
    (s.result = .ok () ∧ w.blockRequests v ≤ v.latest.number - v.finalized.number) ∧
      (ServedRun headers v after ∧ after <:+ v.chain.blocks ∧ Linked after ∧
        after.getLast? = some v.latest) ∧
      ((∀ n, .sent (.reorg n) ∈ s.emitted → ForkPoint headers v n) ↔ Comparable headers v) ∧
      ((∀ b ∈ headers, b ∈ v.chain) →
        ((∀ n, .sent (.reorg n) ∉ s.emitted) ↔ Comparable headers v)) := by
  intro headers s after
  have hrun := handleLatestBlock_run h hcall
  have hreorg := handleLatestBlock_reorg_iff h hcall
  refine ⟨⟨handleLatestBlock_answered hcall, blockRequests_le hcall⟩, ⟨hrun, ?_⟩, hreorg, ?_⟩
  · obtain ⟨start, hle, -, hafter⟩ := hrun
    obtain ⟨hsuffix, htip⟩ := newest_run v start hle
    rw [← hafter] at hsuffix htip
    exact ⟨hsuffix, linked_of_suffix hsuffix, htip⟩
  · intro hserved
    rw [← hreorg]
    constructor
    · intro hnone n hn
      exact absurd hn (hnone n)
    · intro hexact n hn
      obtain ⟨⟨b, hb, -, hoff⟩, -⟩ := hexact n hn
      exact hoff (hserved b hb)

end Watcher

def watcherOf (headers : List Header) (h : headers.length ≤ headerCapacity) : Watcher :=
  ⟨⟨headers, h⟩, ⟨1, 0⟩, 1, 500⟩

theorem linked_pair {a b : Header} (h : b.parentHash = a.hash ∧ b.number = a.number + 1) :
    Linked [a, b] := by
  intro i x y hx hy
  cases i with
  | zero =>
    cases hx
    cases hy
    exact h
  | succ i => simp at hy

/-- Block 2 of the remembered headers is replaced. -/
theorem handleLatestBlock_forkPoint_iff_replaced :
    let w := watcherOf [countedHeader 1, header 2 500 2] (by decide)
    let v := countedView 3 0 (by decide) (fun _ => false)
    .sent (.reorg 1) ∈ (w.handleLatestBlock v).emitted ∧
      ∀ n, .sent (.reorg n) ∈ (w.handleLatestBlock v).emitted →
        Watcher.ForkPoint w.unfinalizedBlocks.data v n := by
  intro w v
  have hremembered : Watcher.Remembered w.unfinalizedBlocks.data v :=
    ⟨linked_pair ⟨rfl, rfl⟩, by decide, countedChain_collisionFree (by decide), by decide⟩
  have haligned : Watcher.Aligned w.unfinalizedBlocks.data v (countedHeader 1) := by
    refine ⟨⟨countedHeader 1, by decide, by decide, by decide⟩, by decide⟩
  refine ⟨by decide, ?_⟩
  refine (Watcher.handleLatestBlock_forkPoint_iff w v hremembered rfl).2.2.1.2 ?_
  intro first hfirst _ _
  cases hfirst
  exact Or.inr (Or.inr (Or.inl haligned))

/-- The chain only grows, from block 1 to block 193 over a finalized genesis: block 1 does not fit
any more and is reported as replaced. -/
theorem grown_chain_reported :
    let w := watcherOf [countedHeader 1] (by decide)
    let v := countedView 193 0 (by decide) (fun _ => false)
    Watcher.Remembered w.unfinalizedBlocks.data v ∧ (∀ b ∈ w.unfinalizedBlocks.data, b ∈ v.chain) ∧
      .sent (.reorg 0) ∈ (w.handleLatestBlock v).emitted ∧
      ¬Watcher.ForkPoint w.unfinalizedBlocks.data v 0 := by
  intro w v
  have hcf : CollisionFree v.chain v.chain := countedChain_collisionFree (by decide)
  have hgrown : (countedChain 1).blocks <+: v.chain.blocks := countedChain_grows (by decide)
  have hsuffix : w.unfinalizedBlocks.data <:+ (countedChain 1).blocks := ⟨[countedHeader 0], rfl⟩
  have hserved : ∀ b ∈ w.unfinalizedBlocks.data, b ∈ v.chain :=
    fun b hb => hgrown.subset (hsuffix.subset hb)
  have hfull : ¬Watcher.Fits w.unfinalizedBlocks.data v := by
    intro hfits
    exact absurd (hfits _ rfl _ rfl) (by decide)
  refine ⟨⟨linked_of_suffix hsuffix, fun a ha b hb => hcf a (hserved a ha) b hb, hcf, by decide⟩,
    hserved, ?_, ?_⟩
  · obtain ⟨first, hfirst, hemitted⟩ :=
      Watcher.handleLatestBlock_evicts hcf hgrown hsuffix (by decide) hfull rfl
    rw [List.mem_singleton.1 hfirst] at hemitted
    rw [hemitted]
    exact List.mem_cons_self
  · rintro ⟨⟨b, hb, -, hoff⟩, -⟩
    exact hoff (hserved b hb)

end RollupNode
