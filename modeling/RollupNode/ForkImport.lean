import RollupNode.PeerImport

set_option autoImplicit false

/-! Which forks a peer block brings in: the height of the meeting block decides. -/
namespace RollupNode
open LinkedChain

/-- A received block with its ancestors, against a canonical chain whose tip is the head. The
block is above the finalized one, within the threshold, and above or later than the head. -/
structure ForkScenario where
  canonical : Chain L2Block
  head : L2Block
  head_tip : canonical.blocks.getLast? = some head
  timestamps : ∀ b ∈ canonical, b.timestamp ≤ head.timestamp
  fcs : ForkchoiceState
  fcs_head : fcs.head = head.blockInfo
  finalized_le : fcs.finalized.number ≤ fcs.safe.number
  safe_le : fcs.safe.number ≤ fcs.head.number
  peer : Chain L2Block
  received : L2Block
  received_tip : peer.blocks.getLast? = some received
  unique : ∀ a b, a ∈ canonical ∨ a ∈ peer → b ∈ canonical ∨ b ∈ peer → a.hash = b.hash → a = b
  ancestor : L2Block
  ancestor_canonical : ancestor ∈ canonical
  ancestor_peer : ancestor ∈ peer
  meets : ∀ b ∈ peer, b ∈ canonical → b.number ≤ ancestor.number
  threshold : ℕ
  unfinalized : fcs.finalized.number < received.number
  within : received.number ≤ fcs.head.number + threshold
  newer : fcs.head.number < received.number ∨ head.timestamp < received.timestamp

namespace ForkScenario

def sources (s : ForkScenario) : BlockSources where
  client :=
    { blockByNumber := fun n => .ok s.canonical.blocks[n]?
      number_eq := by
        intro n b h
        exact s.canonical.numbered n b (Except.ok.inj h) }
  blockByHash h := .ok (s.canonical.blocks.find? (fun b => b.hash = h))
  fullBlockRange h count :=
    match s.peer.blocks.find? (fun b => b.hash = h) with
    | none => []
    | some b => s.peer.below (b.number + 1) count

def decision (s : ForkScenario) : Except Halt PeerDecision :=
  decidePeerBlock s.fcs s.threshold s.sources ⟨s.received, true, .ok ()⟩

def Imports (s : ForkScenario) (chain : List L2Block) : Prop :=
  ∃ d, s.decision = .ok d ∧ d.imported = some chain

/-- Exactly the forks from the safe block on are imported, as the blocks after the ancestor. -/
structure ImportsExactly (s : ForkScenario) : Prop where
  accepts : (∃ chain, s.Imports chain) ↔ s.fcs.safe.number ≤ s.ancestor.number
  rejects : s.ancestor.number < s.fcs.safe.number →
    s.decision = .error (.error .l2SafeBlockReorgDetected)
  linked : ∀ chain, s.Imports chain → LinkedFrom s.ancestor s.received chain

section
variable (s : ForkScenario)

theorem lengths : s.fcs.head.number + 1 = s.canonical.blocks.length ∧
    s.received.number + 1 = s.peer.blocks.length := by
  have hhead : s.head.number + 1 = s.canonical.blocks.length :=
    s.canonical.number_getLast s.head_tip
  have hreceived : s.received.number + 1 = s.peer.blocks.length :=
    s.peer.number_getLast s.received_tip
  rw [s.fcs_head]
  exact ⟨hhead, hreceived⟩

theorem mem_canonical_iff {b : L2Block} (hb : b ∈ s.peer) :
    b ∈ s.canonical ↔ b.number ≤ s.ancestor.number := by
  constructor
  · exact s.meets b hb
  · intro hle
    have hcf : CollisionFree s.peer s.canonical := by
      intro a ha c hc hhash
      exact s.unique a c (Or.inr ha) (Or.inl hc) hhash
    exact (agreesTo_of_mem hcf s.ancestor_peer s.ancestor_canonical).mem hb hle

theorem find_peer {b : L2Block} (hb : b ∈ s.peer) :
    s.peer.blocks.find? (fun c => c.hash = b.hash) = some b := by
  cases hfind : s.peer.blocks.find? (fun c => c.hash = b.hash) with
  | none =>
    have hno := List.find?_eq_none.1 hfind b hb
    simp at hno
  | some c =>
    have hhash : c.hash = b.hash := by simpa using List.find?_some hfind
    rw [s.unique c b (Or.inr (List.mem_of_find?_eq_some hfind)) (Or.inr hb) hhash]

theorem fullBlockRange_eq {b : L2Block} (hb : b ∈ s.peer) (count : ℕ) :
    s.sources.fullBlockRange b.hash count = s.peer.below (b.number + 1) count := by
  simp only [sources, s.find_peer hb]

theorem blockAt_peer {b : L2Block} (hb : b ∈ s.peer) (hle : b.number ≤ s.fcs.head.number) :
    ∃ c, Node.blockAt s.sources.client b.number = .ok c ∧
      (b.hash = c.hash ↔ b.number ≤ s.ancestor.number) := by
  have hlen := s.lengths.1
  obtain ⟨c, hc, hget, hnumber⟩ := s.canonical.exists_at (i := b.number) (by omega)
  refine ⟨c, by simp only [Node.blockAt, sources, hget], ?_⟩
  rw [← s.mem_canonical_iff hb]
  constructor
  · intro hhash
    rw [s.unique b c (Or.inr hb) (Or.inl hc) hhash]
    exact hc
  · intro hmem
    rw [s.canonical.eq_of_number hmem hc hnumber.symm]

theorem commonAncestor_below (count : ℕ) : ∀ k, k ≤ s.peer.blocks.length →
    k ≤ s.fcs.head.number + 1 → s.ancestor.number < k → count ≤ k →
      commonAncestor s.sources.client (s.peer.below k count) =
        .ok (if k - count ≤ s.ancestor.number then some (k - 1 - s.ancestor.number) else none) := by
  induction count with
  | zero =>
    intro k _ _ hlt _
    rw [if_neg (by omega)]
    unfold Chain.below
    rw [List.take_zero]
    rfl
  | succ count ih =>
    intro k hlen hhead hlt hcount
    obtain ⟨j, rfl⟩ : ∃ j, k = j + 1 := ⟨k - 1, by omega⟩
    obtain ⟨b, hb, hget, hnumber⟩ := s.peer.exists_at (i := j) (by omega)
    change b.number = j at hnumber
    obtain ⟨c, hc, hsame⟩ := s.blockAt_peer hb (by omega)
    rw [below_succ s.peer hget]
    unfold commonAncestor
    simp only [hc, bind, Except.bind]
    by_cases hat : b.hash = c.hash
    · have hle := hsame.1 hat
      have hzero : j + 1 - 1 - s.ancestor.number = 0 := by omega
      rw [if_pos hat, if_pos (by omega), hzero]
    · have hgt : s.ancestor.number < j := by
        by_contra hge
        exact hat (hsame.2 (by omega))
      rw [if_neg hat, ih j (by omega) (by omega) hgt (by omega)]
      by_cases hfound : j - count ≤ s.ancestor.number
      · have hindex : j - 1 - s.ancestor.number + 1 = j + 1 - 1 - s.ancestor.number := by omega
        rw [if_pos hfound, if_pos (by omega), ← hindex]
        rfl
      · rw [if_neg hfound, if_neg (by omega)]
        rfl

def searchResult (s : ForkScenario) : Except Halt PeerDecision :=
  if s.fcs.safe.number < s.ancestor.number then
    .ok (.reorgChain (s.peer.blocks.drop (s.ancestor.number + 1)))
  else .error (.error .l2SafeBlockReorgDetected)

theorem drop_eq_cons {k : ℕ} (hk : k < s.peer.blocks.length) : ∃ front rest,
    s.peer.blocks.drop k = front :: rest ∧ front ∈ s.peer ∧ front.number = k ∧
      s.peer.blocks[k]? = some front := by
  obtain ⟨b, hb, hget, hnumber⟩ := s.peer.exists_at hk
  refine ⟨b, s.peer.blocks.drop (k + 1), ?_, hb, hnumber, hget⟩
  rw [List.drop_eq_getElem_cons hk, (List.getElem?_eq_some_iff.1 hget).2]

theorem round_eq {k : ℕ} {front : L2Block} (hfront : s.peer.blocks[k]? = some front)
    (hnumber : front.number = k) (habove : s.fcs.safe.number + 1 < k)
    (hhead : k ≤ s.fcs.head.number + 1) (hlt : s.ancestor.number < k) :
    ∃ count, min headerFetchCount (front.number - 1 - s.fcs.safe.number) = count ∧
      0 < count ∧ count + s.fcs.safe.number < k ∧
      s.sources.fullBlockRange front.parentHash count = s.peer.below k count ∧
      commonAncestor s.sources.client (s.peer.below k count) =
        .ok (if k - count ≤ s.ancestor.number then some (k - 1 - s.ancestor.number) else none) := by
  obtain ⟨j, rfl⟩ : ∃ j, k = j + 1 := ⟨k - 1, by omega⟩
  have hlen := (List.getElem?_eq_some_iff.1 hfront).1
  obtain ⟨parent, hparent, hpget, hpnumber⟩ := s.peer.exists_at (i := j) (by omega)
  have hlink : front.parentHash = parent.hash := s.peer.linked j parent front hpget hfront
  have hpnumber' : parent.number = j := hpnumber
  have hfetch : 0 < headerFetchCount := by decide
  refine ⟨_, rfl, by omega, by omega, ?_, ?_⟩
  · rw [hlink, s.fullBlockRange_eq hparent, hpnumber']
  · exact s.commonAncestor_below _ (j + 1) (by omega) hhead hlt (by omega)

theorem reconcileFork_eq (fuel : ℕ) : ∀ k, k < s.peer.blocks.length →
    k ≤ s.fcs.head.number + 1 → s.ancestor.number < k → k ≤ fuel + s.fcs.safe.number + 1 →
      reconcileFork s.sources s.fcs.safe.number fuel (s.peer.blocks.drop k) = s.searchResult := by
  induction fuel with
  | zero =>
    intro k hlen _ hlt hfuel
    obtain ⟨front, rest, hdrop, -, hnumber, -⟩ := s.drop_eq_cons hlen
    rw [hdrop]
    unfold reconcileFork searchResult
    rw [if_neg (by omega), if_neg (by omega)]
  | succ fuel ih =>
    intro k hlen hhead hlt hfuel
    obtain ⟨front, rest, hdrop, -, hnumber, hfront⟩ := s.drop_eq_cons hlen
    rw [hdrop]
    unfold reconcileFork
    by_cases habove : s.fcs.safe.number + 1 < k
    · obtain ⟨count, hcount, hpositive, hsafe, hrange, hcommon⟩ :=
        s.round_eq hfront hnumber habove hhead hlt
      rw [if_pos (by omega)]
      simp only [hcount, hrange, hcommon, bind, Except.bind]
      rw [← hdrop]
      by_cases hfound : k - count ≤ s.ancestor.number
      · have hindex : k - (k - 1 - s.ancestor.number) = s.ancestor.number + 1 := by omega
        simp only [if_pos hfound]
        rw [take_below s.peer _ (by omega), reverse_below_append s.peer (by omega) (by omega), hindex]
        unfold searchResult
        rw [if_pos (by omega)]
      · simp only [if_neg hfound]
        rw [reverse_below_append s.peer (by omega) (by omega)]
        exact ih (k - count) (by omega) (by omega) (by omega) (by omega)
    · rw [if_neg (by omega)]
      unfold searchResult
      rw [if_neg (by omega)]

theorem ancestor_le : s.ancestor.number ≤ s.received.number ∧
    s.ancestor.number ≤ s.fcs.head.number := by
  have hpeer : s.ancestor.number < s.peer.blocks.length := s.peer.number_lt s.ancestor_peer
  have hcanonical : s.ancestor.number < s.canonical.blocks.length :=
    s.canonical.number_lt s.ancestor_canonical
  have hlengths := s.lengths
  constructor
  · omega
  · omega

theorem fetched_eq (hlt : s.fcs.head.number < s.received.number) :
    (if s.fcs.head.number + 1 < s.received.number then
      (s.sources.fullBlockRange s.received.hash (s.received.number - s.fcs.head.number)).reverse
      else [s.received]) = s.peer.blocks.drop (s.fcs.head.number + 1) := by
  have hplen := s.lengths.2
  have hreceived : s.received ∈ s.peer := List.mem_of_getLast? s.received_tip
  split
  · rw [s.fullBlockRange_eq hreceived]
    have hall : (s.peer.below (s.received.number + 1)
        (s.received.number - s.fcs.head.number)).reverse ++
        s.peer.blocks.drop (s.received.number + 1) = _ :=
      reverse_below_append s.peer (by omega) (by omega)
    rw [hplen, List.drop_length, List.append_nil] at hall
    rw [hplen, hall]
    congr 1
    omega
  · have hlast : s.received.number = s.fcs.head.number + 1 := by omega
    rw [← hlast]
    have hreceivedget := (s.peer.mem_iff s.received).1 hreceived
    change s.peer.blocks[s.received.number]? = some s.received at hreceivedget
    have hrlt := (List.getElem?_eq_some_iff.1 hreceivedget).1
    rw [List.drop_eq_getElem_cons hrlt, (List.getElem?_eq_some_iff.1 hreceivedget).2, hplen,
      List.drop_length]

theorem extends_iff {first : L2Block} (hget : s.peer.blocks[s.fcs.head.number + 1]? = some first) :
    first.parentHash = s.fcs.head.hash ↔ s.ancestor.number = s.fcs.head.number := by
  have hlt := (List.getElem?_eq_some_iff.1 hget).1
  obtain ⟨parent, hparent, hpget, hpnumber⟩ := s.peer.exists_at (i := s.fcs.head.number) (by omega)
  have hlink : first.parentHash = parent.hash := s.peer.linked _ parent first hpget hget
  have hpnumber' : parent.number = s.fcs.head.number := hpnumber
  have hhead : s.head ∈ s.canonical := List.mem_of_getLast? s.head_tip
  have hheadnumber : s.fcs.head.number = s.head.number := congrArg BlockInfo.number s.fcs_head
  have hancestor := s.ancestor_le
  rw [hlink, s.fcs_head]
  change parent.hash = s.head.hash ↔ s.ancestor.number = s.head.number
  rw [← hheadnumber]
  constructor
  · intro hhash
    have hsame := s.unique parent s.head (Or.inr hparent) (Or.inl hhead) hhash
    have hle := s.meets parent hparent (hsame ▸ hhead)
    omega
  · intro hat
    have hmem := (s.mem_canonical_iff hparent).2 (by omega)
    rw [s.canonical.eq_of_number hmem hhead (hpnumber'.trans hheadnumber)]

theorem decideAboveHead_eq (hlt : s.fcs.head.number < s.received.number) :
    decideAboveHead s.fcs s.sources s.received =
      if s.ancestor.number = s.fcs.head.number then
        .ok (.extendChain (s.peer.blocks.drop (s.ancestor.number + 1)))
      else s.searchResult := by
  have hplen := s.lengths.2
  have hancestor := s.ancestor_le
  obtain ⟨first, rest, hdrop, -, -, hget⟩ :=
    s.drop_eq_cons (k := s.fcs.head.number + 1) (by omega)
  have hextends := s.extends_iff hget
  unfold decideAboveHead
  simp only [s.fetched_eq hlt, hdrop]
  by_cases hat : s.ancestor.number = s.fcs.head.number
  · rw [if_pos (hextends.2 hat), if_pos hat, hat, hdrop]
  · rw [if_neg (fun h => hat (hextends.1 h)), if_neg hat, ← hdrop]
    exact s.reconcileFork_eq s.received.number (s.fcs.head.number + 1) (by omega) (by omega)
      (by omega) (by omega)

theorem drop_received : s.peer.blocks.drop s.received.number = [s.received] := by
  have hreceived : s.received ∈ s.peer := List.mem_of_getLast? s.received_tip
  have hget : s.peer.blocks[s.received.number]? = some s.received :=
    (s.peer.mem_iff s.received).1 hreceived
  have hlt := (List.getElem?_eq_some_iff.1 hget).1
  rw [List.drop_eq_getElem_cons hlt, (List.getElem?_eq_some_iff.1 hget).2, s.lengths.2,
    List.drop_length]

theorem blockAt_head : Node.blockAt s.sources.client s.fcs.head.number = .ok s.head := by
  have hhead : s.head ∈ s.canonical := List.mem_of_getLast? s.head_tip
  have hget : s.canonical.blocks[s.head.number]? = some s.head := (s.canonical.mem_iff s.head).1 hhead
  rw [s.fcs_head]
  simp only [Node.blockAt, sources, L2Block.blockInfo, hget]

theorem blockByHash_parent (hlt : s.ancestor.number < s.received.number) :
    s.sources.blockByHash s.received.parentHash =
      .ok (if s.ancestor.number + 1 = s.received.number then some s.ancestor else none) := by
  have hplen := s.lengths.2
  have hreceived : s.received ∈ s.peer := List.mem_of_getLast? s.received_tip
  have hget : s.peer.blocks[s.received.number]? = some s.received :=
    (s.peer.mem_iff s.received).1 hreceived
  obtain ⟨j, hj⟩ : ∃ j, s.received.number = j + 1 := ⟨s.received.number - 1, by omega⟩
  obtain ⟨parent, hparent, hpget, hpnumber⟩ := s.peer.exists_at (i := j) (by omega)
  have hpnumber' : parent.number = j := hpnumber
  have hlink : s.received.parentHash = parent.hash :=
    s.peer.linked j parent s.received hpget (hj ▸ hget)
  have hfound : ∀ b, s.canonical.blocks.find? (fun c => c.hash = s.received.parentHash) = some b →
      b = parent ∧ b ∈ s.canonical := by
    intro b hfind
    have hmem : b ∈ s.canonical := List.mem_of_find?_eq_some hfind
    have hhash : b.hash = s.received.parentHash := by simpa using List.find?_some hfind
    exact ⟨s.unique b parent (Or.inl hmem) (Or.inr hparent) (hhash.trans hlink), hmem⟩
  change Except.ok (s.canonical.blocks.find? (fun c => c.hash = s.received.parentHash)) = _
  cases hfind : s.canonical.blocks.find? (fun c => c.hash = s.received.parentHash) with
  | none =>
    rw [if_neg]
    intro hat
    have hmem := (s.mem_canonical_iff hparent).2 (by omega)
    have hno := List.find?_eq_none.1 hfind parent hmem
    simp [hlink] at hno
  | some b =>
    obtain ⟨rfl, hmem⟩ := hfound b hfind
    have hle := s.meets b hparent hmem
    have hsame := s.peer.eq_of_number hparent s.ancestor_peer
      (show b.number = s.ancestor.number by omega)
    rw [if_pos (by omega), hsame]

theorem ancestor_lt_of_le (hle : s.received.number ≤ s.fcs.head.number) :
    s.ancestor.number < s.received.number ∧ s.head.timestamp < s.received.timestamp := by
  have hnewer := s.newer.resolve_left (by omega)
  refine ⟨?_, hnewer⟩
  by_contra hge
  have hreceived : s.received ∈ s.peer := List.mem_of_getLast? s.received_tip
  have hmem := (s.mem_canonical_iff hreceived).2 (by omega)
  have hold := s.timestamps s.received hmem
  omega

theorem decideBelowHead_eq (hle : s.received.number ≤ s.fcs.head.number) :
    decideBelowHead s.fcs s.sources s.received =
      if s.received.number ≤ s.fcs.safe.number then .error (.error .l2SafeBlockReorgDetected)
      else if s.ancestor.number + 1 = s.received.number then
        .ok (.reorgChain (s.peer.blocks.drop (s.ancestor.number + 1)))
      else s.searchResult := by
  obtain ⟨hlt, hnewer⟩ := s.ancestor_lt_of_le hle
  have hreceived : s.received ∈ s.peer := List.mem_of_getLast? s.received_tip
  obtain ⟨c, hc, hsame⟩ := s.blockAt_peer hreceived hle
  have hnew : ¬c.hash = s.received.hash := by
    intro hhash
    have hknown := hsame.1 hhash.symm
    omega
  unfold decideBelowHead
  simp only [hc, bind, Except.bind, if_neg hnew]
  by_cases hsafe : s.received.number ≤ s.fcs.safe.number
  · simp only [if_pos hsafe]
  · simp only [if_neg hsafe, s.blockAt_head, if_neg (Nat.not_le.2 hnewer), s.blockByHash_parent hlt]
    by_cases hat : s.ancestor.number + 1 = s.received.number
    · simp only [if_pos hat]
      rw [if_pos (by omega), hat, s.drop_received]
      rfl
    · simp only [if_neg hat]
      rw [← s.drop_received]
      exact s.reconcileFork_eq s.received.number s.received.number (by have := s.lengths; omega)
        (by omega) hlt (by omega)

theorem decision_eq : s.decision =
    if s.fcs.head.number < s.received.number then
      if s.ancestor.number = s.fcs.head.number then
        .ok (.extendChain (s.peer.blocks.drop (s.ancestor.number + 1)))
      else s.searchResult
    else if s.received.number ≤ s.fcs.safe.number then
      .error (.error .l2SafeBlockReorgDetected)
    else if s.ancestor.number + 1 = s.received.number then
      .ok (.reorgChain (s.peer.blocks.drop (s.ancestor.number + 1)))
    else s.searchResult := by
  have hunfinalized := s.unfinalized
  have hwithin := s.within
  unfold decision decidePeerBlock
  simp only [Bool.true_eq_false, if_false]
  rw [if_neg (by omega), if_neg (by omega)]
  by_cases hlt : s.fcs.head.number < s.received.number
  · rw [if_pos hlt, if_pos hlt, s.decideAboveHead_eq hlt]
  · rw [if_neg hlt, if_neg hlt, s.decideBelowHead_eq (by omega)]

/-- The forks that are imported: above the safe block, and from it only where the search is not
needed. -/
def Accepted (s : ForkScenario) : Prop :=
  s.fcs.safe.number < s.ancestor.number ∨ s.ancestor.number = s.fcs.safe.number ∧
    (s.fcs.safe.number = s.fcs.head.number ∨ s.received.number = s.fcs.safe.number + 1)

/-- A fork is imported from the meeting block on, or rejected as a reorg of the safe block. -/
theorem decision_cases :
    (s.Accepted ∧ ∃ d, s.decision = .ok d ∧
      d.imported = some (s.peer.blocks.drop (s.ancestor.number + 1))) ∨
    (¬s.Accepted ∧ s.decision = .error (.error .l2SafeBlockReorgDetected)) := by
  have hsafe := s.safe_le
  have hsearch : (s.fcs.safe.number < s.ancestor.number ∧ ∃ d, s.searchResult = .ok d ∧
      d.imported = some (s.peer.blocks.drop (s.ancestor.number + 1))) ∨
      (¬s.fcs.safe.number < s.ancestor.number ∧
        s.searchResult = .error (.error .l2SafeBlockReorgDetected)) := by
    unfold searchResult
    split
    · rename_i hlt
      exact Or.inl ⟨hlt, _, rfl, rfl⟩
    · rename_i hge
      exact Or.inr ⟨hge, rfl⟩
  rw [s.decision_eq]
  unfold Accepted
  split
  · split
    · exact Or.inl ⟨by omega, _, rfl, rfl⟩
    · rcases hsearch with ⟨hlt, hfound⟩ | ⟨hge, hfailed⟩
      · exact Or.inl ⟨Or.inl hlt, hfound⟩
      · exact Or.inr ⟨by omega, hfailed⟩
  · have hlt := (s.ancestor_lt_of_le (by omega)).1
    split
    · exact Or.inr ⟨by omega, rfl⟩
    · split
      · exact Or.inl ⟨by omega, _, rfl, rfl⟩
      · rcases hsearch with ⟨hlt', hfound⟩ | ⟨hge, hfailed⟩
        · exact Or.inl ⟨Or.inl hlt', hfound⟩
        · exact Or.inr ⟨by omega, hfailed⟩

theorem imports_iff : (∃ chain, s.Imports chain) ↔ s.Accepted := by
  rcases s.decision_cases with ⟨haccepted, d, hok, himported⟩ | ⟨hrejected, herror⟩
  · exact iff_of_true ⟨_, d, hok, himported⟩ haccepted
  · refine iff_of_false ?_ hrejected
    rintro ⟨chain, d, hok, -⟩
    rw [herror] at hok
    cases hok

theorem linkedFrom_of_imports {chain : List L2Block} (h : s.Imports chain) :
    LinkedFrom s.ancestor s.received chain := by
  obtain ⟨d, hok, himported⟩ := h
  have hlt : s.ancestor.number < s.received.number := by
    by_cases hle : s.received.number ≤ s.fcs.head.number
    · exact (s.ancestor_lt_of_le hle).1
    · have hancestor := s.ancestor_le
      omega
  rcases s.decision_cases with ⟨-, d', hok', himported'⟩ | ⟨-, herror⟩
  · rw [hok] at hok'
    cases hok'
    rw [himported] at himported'
    rw [Option.some.inj himported']
    exact linkedFrom_drop s.peer s.ancestor_peer s.received_tip hlt
  · rw [hok] at herror
    cases herror

end
end ForkScenario

/-- Exactly the forks that meet the chain at the safe block or above are imported, unless one leaves
the head's chain at the safe block and is longer than a block. -/
theorem importsExactly_iff (s : ForkScenario) : s.ImportsExactly ↔
    (s.ancestor.number = s.fcs.safe.number →
      s.fcs.safe.number = s.fcs.head.number ∨ s.received.number = s.fcs.safe.number + 1) := by
  constructor
  · intro h hat
    have haccepted := s.imports_iff.1 (h.accepts.2 (by omega))
    rcases haccepted with hlt | ⟨-, hkept⟩
    · omega
    · exact hkept
  · intro h
    refine ⟨?_, ?_, fun chain => s.linkedFrom_of_imports⟩
    · rw [s.imports_iff]
      constructor
      · rintro (hlt | ⟨hat, -⟩)
        · omega
        · omega
      · intro hle
        by_cases hlt : s.fcs.safe.number < s.ancestor.number
        · exact Or.inl hlt
        · have hat : s.ancestor.number = s.fcs.safe.number := by omega
          exact Or.inr ⟨hat, h hat⟩
    · intro hlt
      rcases s.decision_cases with ⟨haccepted, -⟩ | ⟨-, herror⟩
      · unfold ForkScenario.Accepted at haccepted
        omega
      · exact herror

def forkAtSafe : ForkScenario where
  canonical := .ofBlocks [emptyBlock 0 7 0, emptyBlock 1 21 7, emptyBlock 2 22 21,
    emptyBlock 3 23 22] (by decide) (by decide)
  head := emptyBlock 3 23 22
  head_tip := rfl
  timestamps := by decide
  fcs := ⟨⟨3, 23⟩, ⟨1, 21⟩, ⟨0, 7⟩⟩
  fcs_head := rfl
  finalized_le := by decide
  safe_le := by decide
  peer := .ofBlocks [emptyBlock 0 7 0, emptyBlock 1 21 7, emptyBlock 2 32 21, emptyBlock 3 33 32,
    emptyBlock 4 34 33] (by decide) (by decide)
  received := emptyBlock 4 34 33
  received_tip := rfl
  unique := by
    have hall : ∀ a ∈ [emptyBlock 0 7 0, emptyBlock 1 21 7, emptyBlock 2 22 21, emptyBlock 3 23 22,
        emptyBlock 2 32 21, emptyBlock 3 33 32, emptyBlock 4 34 33],
        ∀ b ∈ [emptyBlock 0 7 0, emptyBlock 1 21 7, emptyBlock 2 22 21, emptyBlock 3 23 22,
        emptyBlock 2 32 21, emptyBlock 3 33 32, emptyBlock 4 34 33], a.hash = b.hash → a = b := by
      decide
    have hsub : ∀ a, a ∈ [emptyBlock 0 7 0, emptyBlock 1 21 7, emptyBlock 2 22 21,
        emptyBlock 3 23 22] ∨ a ∈ [emptyBlock 0 7 0, emptyBlock 1 21 7, emptyBlock 2 32 21,
        emptyBlock 3 33 32, emptyBlock 4 34 33] → a ∈ [emptyBlock 0 7 0, emptyBlock 1 21 7,
        emptyBlock 2 22 21, emptyBlock 3 23 22, emptyBlock 2 32 21, emptyBlock 3 33 32,
        emptyBlock 4 34 33] := by
      intro a ha
      simp only [List.mem_cons, List.not_mem_nil, or_false] at ha ⊢
      tauto
    intro a b ha hb
    exact hall a (hsub a ha) b (hsub b hb)
  ancestor := emptyBlock 1 21 7
  ancestor_canonical := by decide
  ancestor_peer := by decide
  meets := by decide
  threshold := 100
  unfinalized := by decide
  within := by decide
  newer := Or.inl (by decide)

/-- The fork keeps the safe block and is rejected as a reorg of it. -/
theorem forkAtSafe_rejected :
    forkAtSafe.fcs.safe.number ≤ forkAtSafe.ancestor.number ∧
      forkAtSafe.decision = .error (.error .l2SafeBlockReorgDetected) ∧
      ¬forkAtSafe.ImportsExactly := by
  have hdecision : forkAtSafe.decision = .error (.error .l2SafeBlockReorgDetected) := rfl
  refine ⟨by decide, hdecision, ?_⟩
  intro h
  obtain ⟨chain, d, hok, -⟩ := h.accepts.2 (by decide)
  rw [hdecision] at hok
  cases hok

end RollupNode
