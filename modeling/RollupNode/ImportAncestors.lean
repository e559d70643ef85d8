import RollupNode.ForkImport

set_option autoImplicit false

/-! The ancestors that the import of a peer block names. -/
namespace RollupNode
open LinkedChain

def forkAncestors (sources : BlockSources) (safe : ℕ) : ℕ → List L2Block → List B256
  | _, [] => []
  | fuel, front :: rest =>
    if safe + 1 < front.number then
      match fuel with
      | 0 => []
      | fuel + 1 =>
        let fetchCount := min headerFetchCount (front.number - 1 - safe)
        let headers := sources.fullBlockRange front.parentHash fetchCount
        headers.map (·.hash) ++
          match commonAncestor sources.client headers with
          | .ok none => forkAncestors sources safe fuel (headers.reverse ++ front :: rest)
          | _ => []
    else []

def newHeaders (fcs : ForkchoiceState) (sources : BlockSources) (received : L2Block) :
    List L2Block :=
  if fcs.head.number + 1 < received.number then
    (sources.fullBlockRange received.hash (received.number - fcs.head.number)).reverse
  else [received]

/-- What `ancestors` holds when the import of a block fails for want of an L1 message. It is read
only then, so that a block at or below the head has passed the checks in front of the search. -/
def importAncestors (fcs : ForkchoiceState) (optimisticSyncThreshold : ℕ) (sources : BlockSources)
    (received : L2Block) : List B256 :=
  received.parentHash ::
    if fcs.head.number + optimisticSyncThreshold < received.number then []
    else if fcs.head.number < received.number then
      let headers := newHeaders fcs sources received
      headers.map (·.parentHash) ++
        if headers.head?.any (·.parentHash = fcs.head.hash) then []
        else forkAncestors sources fcs.safe.number received.number headers
    else
      match sources.blockByHash received.parentHash with
      | .ok none => forkAncestors sources fcs.safe.number received.number [received]
      | _ => []

namespace ForkScenario

theorem forkAncestors_named (s : ForkScenario) (fuel : ℕ) : ∀ k, k < s.peer.blocks.length →
    k ≤ s.fcs.head.number + 1 → s.ancestor.number < k → k ≤ fuel + s.fcs.safe.number + 1 →
      (∀ hash ∈ forkAncestors s.sources s.fcs.safe.number fuel (s.peer.blocks.drop k),
        ∃ b ∈ s.peer, b.number < k ∧ b.hash = hash) ∧
      (s.fcs.safe.number < s.ancestor.number → ∀ b ∈ s.peer, s.ancestor.number ≤ b.number →
        b.number < k →
          b.hash ∈ forkAncestors s.sources s.fcs.safe.number fuel (s.peer.blocks.drop k)) := by
  induction fuel with
  | zero =>
    intro k hlen _ hlt hfuel
    obtain ⟨front, rest, hdrop, -, hnumber, -⟩ := s.drop_eq_cons hlen
    rw [hdrop]
    unfold forkAncestors
    rw [if_neg (by omega)]
    refine ⟨by simp, ?_⟩
    intro hsafe
    omega
  | succ fuel ih =>
    intro k hlen hhead hlt hfuel
    obtain ⟨front, rest, hdrop, -, hnumber, hfront⟩ := s.drop_eq_cons hlen
    rw [hdrop]
    unfold forkAncestors
    by_cases habove : s.fcs.safe.number + 1 < k
    · obtain ⟨count, hcount, hpositive, hunsafe, hrange, hcommon⟩ :=
        s.round_eq hfront hnumber habove hhead hlt
      have hfetched {b : L2Block} : b ∈ s.peer.below k count ↔
          b ∈ s.peer ∧ b.number < k ∧ k ≤ b.number + count := mem_below s.peer (by omega)
      rw [if_pos (by omega)]
      simp only [hcount, hrange, hcommon]
      rw [← hdrop, reverse_below_append s.peer (by omega) (by omega)]
      by_cases hfound : k - count ≤ s.ancestor.number
      · simp only [if_pos hfound, List.append_nil, List.mem_map]
        constructor
        · rintro hash ⟨b, hb, rfl⟩
          exact ⟨b, (hfetched.1 hb).1, (hfetched.1 hb).2.1, rfl⟩
        · intro _ b hb hle hbelow
          exact ⟨b, hfetched.2 ⟨hb, hbelow, by omega⟩, rfl⟩
      · simp only [if_neg hfound, List.mem_append, List.mem_map]
        obtain ⟨hnamed, hall⟩ :=
          ih (k - count) (by omega) (by omega) (by omega) (by omega)
        constructor
        · rintro hash (⟨b, hb, rfl⟩ | hash)
          · exact ⟨b, (hfetched.1 hb).1, (hfetched.1 hb).2.1, rfl⟩
          · obtain ⟨b, hb, hbelow, rfl⟩ := hnamed _ hash
            exact ⟨b, hb, by omega, rfl⟩
        · intro hsafe b hb hle hbelow
          by_cases hlow : b.number < k - count
          · exact Or.inr (hall hsafe b hb hle hlow)
          · exact Or.inl ⟨b, hfetched.2 ⟨hb, hbelow, by omega⟩, rfl⟩
    · rw [if_neg (by omega)]
      refine ⟨by simp, ?_⟩
      intro hsafe
      omega

theorem mem_parents_iff (s : ForkScenario) {k : ℕ} {hash : B256} :
    hash ∈ (s.peer.blocks.drop (k + 1)).map (·.parentHash) ↔
      ∃ b ∈ s.peer, k ≤ b.number ∧ b.number < s.received.number ∧ b.hash = hash := by
  have hplen := s.lengths.2
  rw [List.mem_map]
  constructor
  · rintro ⟨child, hchild, rfl⟩
    obtain ⟨i, hi⟩ := List.mem_iff_getElem?.1 hchild
    rw [List.getElem?_drop] at hi
    have hlt := (List.getElem?_eq_some_iff.1 hi).1
    obtain ⟨b, hb, hget, hnumber⟩ := s.peer.exists_at (i := k + i) (by omega)
    have hnumber : b.number = k + i := hnumber
    refine ⟨b, hb, by omega, by omega, ?_⟩
    refine (s.peer.linked (k + i) b child hget ?_).symm
    rw [← hi]
    congr 1
    omega
  · rintro ⟨b, hb, hle, hlt, rfl⟩
    obtain ⟨child, hchild, hget, hnumber⟩ := s.peer.exists_at (i := b.number + 1) (by omega)
    refine ⟨child, ?_, s.peer.linked b.number b child ((s.peer.mem_iff b).1 hb) hget⟩
    refine List.mem_of_getElem? (i := b.number - k) ?_
    rw [List.getElem?_drop, ← hget]
    congr 1
    omega

/-- The import of an accepted fork names blocks below the received one on its chain, and all of
them from the common ancestor on. -/
theorem importAncestors_named (s : ForkScenario) (haccepted : s.Accepted) :
    (∀ hash ∈ importAncestors s.fcs s.threshold s.sources s.received,
      ∃ b ∈ s.peer, b.number < s.received.number ∧ b.hash = hash) ∧
    ∀ b ∈ s.peer, s.ancestor.number ≤ b.number → b.number < s.received.number →
      b.hash ∈ importAncestors s.fcs s.threshold s.sources s.received := by
  have hplen := s.lengths.2
  have hpositive := s.unfinalized
  have hwithin := s.within
  have hancestor := s.ancestor_le
  unfold Accepted at haccepted
  have hparent {hash : B256} : hash = s.received.parentHash ↔
      ∃ b ∈ s.peer, b.number + 1 = s.received.number ∧ b.hash = hash := by
    have hparents : hash ∈ (s.peer.blocks.drop (s.received.number - 1 + 1)).map (·.parentHash) ↔ _ :=
      s.mem_parents_iff
    rw [Nat.sub_add_cancel (by omega), s.drop_received, List.map_singleton,
      List.mem_singleton] at hparents
    rw [hparents]
    refine exists_congr fun b => and_congr_right fun _ => ?_
    rw [← and_assoc]
    refine and_congr_left fun _ => ?_
    omega
  unfold importAncestors
  rw [if_neg (by omega)]
  by_cases hlt : s.fcs.head.number < s.received.number
  · rw [if_pos hlt]
    obtain ⟨first, rest, hdrop, -, -, hget⟩ :=
      s.drop_eq_cons (k := s.fcs.head.number + 1) (by omega)
    have hheaders : newHeaders s.fcs s.sources s.received =
        s.peer.blocks.drop (s.fcs.head.number + 1) := s.fetched_eq hlt
    have hextends := s.extends_iff hget
    obtain ⟨hnamed, hall⟩ := s.forkAncestors_named s.received.number (s.fcs.head.number + 1)
      (by omega) (by omega) (by omega) (by omega)
    simp only [hheaders, List.mem_cons, List.mem_append, s.mem_parents_iff]
    constructor
    · rintro hash (hash | ⟨b, hb, -, hbelow, rfl⟩ | hash)
      · obtain ⟨b, hb, hnumber, rfl⟩ := hparent.1 hash
        exact ⟨b, hb, by omega, rfl⟩
      · exact ⟨b, hb, hbelow, rfl⟩
      · split at hash
        · cases hash
        · obtain ⟨b, hb, hbelow, rfl⟩ := hnamed _ hash
          exact ⟨b, hb, by omega, rfl⟩
    · intro b hb hle hbelow
      by_cases hhigh : s.fcs.head.number ≤ b.number
      · exact Or.inr (Or.inl ⟨b, hb, hhigh, hbelow, rfl⟩)
      · refine Or.inr (Or.inr ?_)
        rw [hdrop, List.head?_cons, Option.any_some, if_neg, ← hdrop]
        · exact hall (by omega) b hb hle (by omega)
        · rw [decide_eq_true_eq, hextends]
          omega
  · rw [if_neg hlt]
    have hbelow := (s.ancestor_lt_of_le (by omega)).1
    rw [s.blockByHash_parent hbelow]
    by_cases hat : s.ancestor.number + 1 = s.received.number
    · simp only [if_pos hat, List.mem_singleton]
      constructor
      · intro hash hhash
        obtain ⟨b, hb, hnumber, rfl⟩ := hparent.1 hhash
        exact ⟨b, hb, by omega, rfl⟩
      · intro b hb hle hlower
        exact hparent.2 ⟨b, hb, by omega, rfl⟩
    · obtain ⟨hnamed, hall⟩ := s.forkAncestors_named s.received.number s.received.number
        (by omega) (by omega) (by omega) (by omega)
      rw [s.drop_received] at hnamed hall
      simp only [if_neg hat, List.mem_cons]
      constructor
      · rintro hash (hash | hash)
        · obtain ⟨b, hb, hnumber, rfl⟩ := hparent.1 hash
          exact ⟨b, hb, by omega, rfl⟩
        · exact hnamed _ hash
      · intro b hb hle hlower
        exact Or.inr (hall (by omega) b hb hle hlower)

end ForkScenario
end RollupNode
