import RollupNode.Watcher

set_option autoImplicit false

/-! The walk down from the latest block, and the headers that it fetches. -/
namespace RollupNode
open LinkedChain

theorem L1View.latest_number (v : L1View) : v.latest.number + 1 = v.chain.blocks.length :=
  v.chain.number_getLast v.latest_tip

namespace Watcher

variable {headers : List Header} {header : Header}

theorem rposition_spec {p : ℕ} (h : rposition headers header = some p) :
    headers[p]? = some header := by
  obtain ⟨i, hi, hp⟩ := Option.map_eq_some_iff.1 h
  obtain ⟨hlt, heq, -⟩ := List.findIdx?_eq_some_iff_getElem.1 hi
  rw [List.length_reverse] at hlt
  have hget : headers.reverse[i]? = some header := by
    rw [List.getElem?_eq_getElem (by rw [List.length_reverse]; exact hlt)]
    exact congrArg some (of_decide_eq_true heq)
  rw [List.getElem?_reverse hlt, hp] at hget
  exact hget

theorem rposition_isSome (h : header ∈ headers) :
    (rposition headers header).isSome := by
  unfold rposition
  rw [Option.isSome_map, List.findIdx?_isSome, List.any_eq_true]
  exact ⟨header, List.mem_reverse.2 h, by simp⟩

def walkRequests (unfinalized : List Header) (v : L1View) : ℕ → Header → ℕ
  | fuel, current =>
    let position := rposition unfinalized current
    if position.isSome ∨ current.parentHash = v.finalized.hash ∨ current.hash = v.finalized.hash then 0
    else
      match fuel with
      | 0 => 0
      | fuel + 1 =>
        if v.fails .blockByNumber then 1
        else
          match v.chain.blocks[current.number - 1]? with
          | none => 1
          | some block => walkRequests unfinalized v fuel block + 1

def walkEnd (v : L1View) (k : ℕ) : ℕ := min (v.finalized.number + 1) k

def newest (headers : List Header) : List Header := headers.drop (headers.length - headerCapacity)

def Met (headers : List Header) (v : L1View) : Prop :=
  ∃ b ∈ headers, b ∈ v.chain ∧ walkEnd v v.latest.number ≤ b.number

def EndsAt (unfinalized : List Header) (v : L1View) (current : Header) : Prop :=
  (rposition unfinalized current).isSome ∨ current.parentHash = v.finalized.hash ∨
    current.hash = v.finalized.hash

/-- From height `k` the walk ends at the block `b` of height `j`. -/
structure EndsWalk (unfinalized : List Header) (v : L1View) (k j : ℕ) (b : Header) : Prop where
  block : v.chain.blocks[j]? = some b
  range : v.finalized.number ≤ j ∧ j ≤ k
  ends : EndsAt unfinalized v b
  above : ∀ i x, j < i → i ≤ k → v.chain.blocks[i]? = some x → ¬EndsAt unfinalized v x

section
variable {v : L1View} {unfinalized : List Header} {current : Header} {k : ℕ}

theorem endsWalk_here (hk : v.chain.blocks[k]? = some current) (hfinal : v.finalized.number ≤ k)
    (hends : EndsAt unfinalized v current) : EndsWalk unfinalized v k k current where
  block := hk
  range := ⟨hfinal, Nat.le_refl k⟩
  ends := hends
  above := fun _ _ hlt hle => absurd hlt (Nat.not_lt.2 hle)

theorem EndsWalk.succ {j : ℕ} {b : Header} (h : EndsWalk unfinalized v (k - 1) j b)
    (hk : v.chain.blocks[k]? = some current) (hends : ¬EndsAt unfinalized v current) :
    EndsWalk unfinalized v k j b where
  block := h.block
  range := ⟨h.range.1, Nat.le_trans h.range.2 (Nat.sub_le k 1)⟩
  ends := h.ends
  above := by
    intro i x hlt hle hx
    by_cases hi : i = k
    · rw [hi, hk] at hx
      cases hx
      exact hends
    · exact h.above i x hlt (by omega) hx

theorem walkDown_here (fuel : ℕ) (chain : List Header) (hends : EndsAt unfinalized v current) :
    walkDown unfinalized v fuel current chain = .ok (rposition unfinalized current, chain) ∧
      walkRequests unfinalized v fuel current = 0 := by
  unfold walkDown walkRequests
  exact ⟨if_pos hends, if_pos hends⟩

theorem walkDown_below (hk : v.chain.blocks[k]? = some current)
    (hfinal : v.finalized.number ≤ k) (hends : ¬EndsAt unfinalized v current) :
    v.finalized.number + 1 ≤ k ∧ ∃ block, v.chain.blocks[current.number - 1]? = some block ∧
      v.chain.blocks[k - 1]? = some block ∧
      block :: v.chain.blocks.drop k = v.chain.blocks.drop (k - 1) := by
  have hnumber : current.number = k := v.chain.numbered k current hk
  have hlt := (List.getElem?_eq_some_iff.1 hk).1
  have hne : v.finalized.number ≠ k := by
    intro heq
    have hsame := v.chain.eq_of_number (v.chain.mem_of_getElem? hk) v.finalized_mem
      (hnumber.trans heq.symm)
    exact hends (.inr (.inr (congrArg Header.hash hsame)))
  have hget : v.chain.blocks[k - 1]? = some v.chain.blocks[k - 1] :=
    List.getElem?_eq_getElem (by omega)
  refine ⟨by omega, v.chain.blocks[k - 1], by rw [hnumber]; exact hget, hget, ?_⟩
  rw [List.drop_eq_getElem_cons (i := k - 1) (by omega), Nat.sub_add_cancel (by omega)]

theorem walkDown_result (unfinalized : List Header) (fuel : ℕ) : ∀ (current : Header) (k : ℕ),
    v.chain.blocks[k]? = some current → v.finalized.number ≤ k → k ≤ fuel + v.finalized.number →
      (∃ j b, EndsWalk unfinalized v k j b ∧
        walkDown unfinalized v fuel current (v.chain.blocks.drop k) =
          .ok (rposition unfinalized b, v.chain.blocks.drop j) ∧
        walkRequests unfinalized v fuel current = k - j) ∨
      v.fails .blockByNumber = true ∧
        walkDown unfinalized v fuel current (v.chain.blocks.drop k) =
          .error (.error .providerRpc) := by
  induction fuel with
  | zero =>
    intro current k hk hfinal hfuel
    by_cases hends : EndsAt unfinalized v current
    · obtain ⟨hfound, hrequests⟩ := walkDown_here 0 (v.chain.blocks.drop k) hends
      exact .inl ⟨k, current, endsWalk_here hk hfinal hends, hfound, by rw [hrequests, Nat.sub_self]⟩
    · have hbelow := walkDown_below hk hfinal hends
      omega
  | succ fuel ih =>
    intro current k hk hfinal hfuel
    by_cases hends : EndsAt unfinalized v current
    · obtain ⟨hfound, hrequests⟩ := walkDown_here (fuel + 1) (v.chain.blocks.drop k) hends
      exact .inl ⟨k, current, endsWalk_here hk hfinal hends, hfound, by rw [hrequests, Nat.sub_self]⟩
    obtain ⟨hlt, block, hread, hblock, hdrop⟩ := walkDown_below hk hfinal hends
    unfold EndsAt at hends
    unfold walkDown walkRequests
    cases hfails : v.fails .blockByNumber with
    | true => exact .inr ⟨rfl, if_neg hends⟩
    | false =>
      have hwalk := ih block (k - 1) hblock (by omega) (by omega)
      simp only [hfails, Bool.false_eq_true, false_and, or_false] at hwalk
      obtain ⟨j, b, hwalk, hfound, hrequests⟩ := hwalk
      have hj := hwalk.range.2
      refine .inl ⟨j, b, hwalk.succ hk hends, ?_, ?_⟩
      · simp only [if_neg hends, hread, hdrop]
        exact hfound
      · simp only [if_neg hends, hread, hrequests, Bool.false_eq_true, if_false]
        omega

theorem parent_finalized_iff (hcf : CollisionFree v.chain v.chain)
    (hk : v.chain.blocks[k]? = some current) (hpos : 0 < k) :
    current.parentHash = v.finalized.hash ↔ k = v.finalized.number + 1 := by
  have hlt := (List.getElem?_eq_some_iff.1 hk).1
  obtain ⟨parent, hparent, hget, hnumber⟩ := v.chain.exists_at (i := k - 1) (by omega)
  have hlink : current.parentHash = parent.hash := v.chain.linked (k - 1) parent current hget (by
    rw [Nat.sub_add_cancel hpos]
    exact hk)
  change parent.number = k - 1 at hnumber
  rw [hlink]
  constructor
  · intro hhash
    rw [hcf parent hparent v.finalized v.finalized_mem hhash] at hnumber
    omega
  · intro hk'
    rw [v.chain.eq_of_number hparent v.finalized_mem (by
      change parent.number = v.finalized.number
      omega)]

theorem hash_finalized_iff (hcf : CollisionFree v.chain v.chain)
    (hk : v.chain.blocks[k]? = some current) :
    current.hash = v.finalized.hash ↔ k = v.finalized.number := by
  have hmem := v.chain.mem_of_getElem? hk
  have hnumber : current.number = k := v.chain.numbered k current hk
  constructor
  · intro hhash
    rw [← hnumber, hcf current hmem v.finalized v.finalized_mem hhash]
  · intro heq
    rw [v.chain.eq_of_number hmem v.finalized_mem (hnumber.trans heq)]

theorem walk_stops_iff (hcf : CollisionFree v.chain v.chain)
    (hk : v.chain.blocks[k]? = some current) (hfinal : v.finalized.number ≤ k) :
    (current.parentHash = v.finalized.hash ∨ current.hash = v.finalized.hash) ↔
      k ≤ v.finalized.number + 1 := by
  rw [hash_finalized_iff hcf hk]
  rcases Nat.eq_zero_or_pos k with rfl | hpos
  · constructor
    · intro _
      omega
    · intro _
      omega
  · rw [parent_finalized_iff hcf hk hpos]
    omega

end

theorem latest_start (v : L1View) : v.chain.blocks[v.latest.number]? = some v.latest ∧
    v.finalized.number ≤ v.latest.number ∧
      [v.latest] = v.chain.blocks.drop v.latest.number := by
  have hmem : v.latest ∈ v.chain := List.mem_of_getLast? v.latest_tip
  have hget := (v.chain.mem_iff v.latest).1 hmem
  have hlen := v.latest_number
  have hfinal : v.finalized.number < v.chain.blocks.length := v.chain.number_lt v.finalized_mem
  refine ⟨hget, by omega, ?_⟩
  have hlt : v.latest.number < v.chain.blocks.length := by omega
  have helem : v.chain.blocks[v.latest.number] = v.latest := (List.getElem?_eq_some_iff.1 hget).2
  rw [List.drop_eq_getElem_cons hlt, helem, hlen, List.drop_length]

theorem newest_extend (chain : List Header) (h : headers.length ≤ headerCapacity) :
    (((BoundedVec.new : BoundedVec Header headerCapacity).extend headers).extend chain).data =
      newest (headers ++ chain) := by
  have hkept : ((BoundedVec.new : BoundedVec Header headerCapacity).extend headers).data =
      headers := by
    rw [BoundedVec.extend_data]
    simp only [BoundedVec.new, List.nil_append]
    rw [Nat.sub_eq_zero_of_le h, List.drop_zero]
  rw [BoundedVec.extend_data, hkept]
  rfl

theorem fetchUnfinalizedChain_result (w : Watcher) (v : L1View) :
    (∃ j b chain, EndsWalk w.unfinalizedBlocks.data v v.latest.number j b ∧
      walkRequests w.unfinalizedBlocks.data v v.latest.number v.latest = v.latest.number - j ∧
      w.fetchUnfinalizedChain v = .ok chain ∧
      chain.data = newest (w.unfinalizedBlocks.data.take
        ((rposition w.unfinalizedBlocks.data b).getD 0) ++ v.chain.blocks.drop j)) ∨
    v.fails .blockByNumber = true ∧ w.fetchUnfinalizedChain v = .error (.error .providerRpc) := by
  obtain ⟨hget, hfinal, hstart⟩ := latest_start v
  rw [fetchUnfinalizedChain, hstart]
  rcases walkDown_result w.unfinalizedBlocks.data v.latest.number v.latest v.latest.number hget
    hfinal (by omega) with ⟨j, b, hwalk, hfound, hrequests⟩ | ⟨hfails, herror⟩
  · rw [hfound]
    refine .inl ⟨j, b, _, hwalk, hrequests, rfl, newest_extend _ ?_⟩
    have hbound := w.unfinalizedBlocks.bounded
    rw [List.length_take]
    omega
  · rw [herror]
    exact .inr ⟨hfails, rfl⟩

variable {w : Watcher} {v : L1View} {chain : BoundedVec Header headerCapacity}

theorem fetchUnfinalizedChain_error {e : Interruption} (h : w.fetchUnfinalizedChain v = .error e) :
    e = .error .providerRpc ∧ v.fails .blockByNumber = true := by
  rcases w.fetchUnfinalizedChain_result v with ⟨j, b, chain, -, -, hok, -⟩ | ⟨hfails, herror⟩
  · rw [hok] at h
    cases h
  · rw [herror] at h
    cases h
    exact ⟨rfl, hfails⟩

theorem fetchUnfinalizedChain_returns (w : Watcher) (v : L1View) :
    w.fetchUnfinalizedChain v ≠ .error .loops := by
  intro h
  cases (fetchUnfinalizedChain_error h).1

theorem fetchUnfinalizedChain_found (h : w.fetchUnfinalizedChain v = .ok chain) :
    ∃ j b, EndsWalk w.unfinalizedBlocks.data v v.latest.number j b ∧
      walkRequests w.unfinalizedBlocks.data v v.latest.number v.latest = v.latest.number - j ∧
      chain.data = newest (w.unfinalizedBlocks.data.take
        ((rposition w.unfinalizedBlocks.data b).getD 0) ++ v.chain.blocks.drop j) := by
  rcases w.fetchUnfinalizedChain_result v with ⟨j, b, fetched, hwalk, hrequests, hok, hdata⟩ |
    ⟨-, herror⟩
  · rw [hok] at h
    cases h
    exact ⟨j, b, hwalk, hrequests, hdata⟩
  · rw [herror] at h
    cases h

/-- The fetched headers are those of the served chain, from where the walk ends. -/
theorem fetched_exact (hlinked : Linked w.unfinalizedBlocks.data)
    (hnamed : Named w.unfinalizedBlocks.data v.chain) (hcf : CollisionFree v.chain v.chain)
    (hfetch : w.fetchUnfinalizedChain v = .ok chain) :
    (Met w.unfinalizedBlocks.data v ∧ ∃ first ∈ w.unfinalizedBlocks.data.head?,
        first ∈ v.chain ∧ chain.data = newest (v.chain.blocks.drop first.number)) ∨
      (¬Met w.unfinalizedBlocks.data v ∧
        chain.data = newest (v.chain.blocks.drop (walkEnd v v.latest.number))) := by
  obtain ⟨j, b, hwalk, -, hdata⟩ := fetchUnfinalizedChain_found hfetch
  have hlatest := v.latest_number
  have hrange := hwalk.range
  have hend : walkEnd v v.latest.number ≤ j := by
    by_contra hlow
    unfold walkEnd at hlow
    have hnext := List.getElem?_eq_getElem (l := v.chain.blocks) (i := v.finalized.number + 1)
      (by omega)
    have hstops := (walk_stops_iff hcf hnext (by omega)).2 (Nat.le_refl _)
    exact hwalk.above _ _ (by omega) (by omega) hnext (.inr hstops)
  rw [hdata]
  cases hposition : rposition w.unfinalizedBlocks.data b with
  | none =>
    have hmissed : ¬(rposition w.unfinalizedBlocks.data b).isSome := by simp [hposition]
    have hle := (walk_stops_iff hcf hwalk.block hrange.1).1 (hwalk.ends.resolve_left hmissed)
    have hj : j = walkEnd v v.latest.number := by
      unfold walkEnd at hend ⊢
      omega
    refine .inr ⟨?_, by rw [hj]; rfl⟩
    rintro ⟨x, hx, hserved, hnumber⟩
    have hget : v.chain.blocks[x.number]? = some x := (v.chain.mem_iff x).1 hserved
    have hlt : x.number < v.chain.blocks.length := v.chain.number_lt hserved
    by_cases hsame : x.number = j
    · rw [hsame, hwalk.block] at hget
      cases hget
      exact hmissed (rposition_isSome hx)
    · exact hwalk.above x.number x (by omega) (by omega) hget (.inl (rposition_isSome hx))
  | some p =>
    have hp := rposition_spec hposition
    have hserved := v.chain.mem_of_getElem? hwalk.block
    have hnumber : b.number = j := v.chain.numbered j b hwalk.block
    obtain ⟨first, hfirst⟩ : ∃ first, w.unfinalizedBlocks.data.head? = some first :=
      ⟨_, List.head?_eq_some_head (List.ne_nil_of_mem (List.mem_of_getElem? hp))⟩
    refine .inl ⟨⟨b, List.mem_of_getElem? hp, hserved, by omega⟩, first, hfirst, ?_, ?_⟩
    · rw [List.head?_eq_getElem?] at hfirst
      exact hlinked.mem_of_le hnamed hp hserved 0 first (Nat.zero_le p) hfirst
    · rw [Option.getD_some, hlinked.take_append_drop hnamed hfirst hp hwalk.block]
      rfl

theorem newest_run (v : L1View) (start : ℕ) (h : start ≤ v.latest.number) :
    newest (v.chain.blocks.drop start) <:+ v.chain.blocks ∧
      (newest (v.chain.blocks.drop start)).getLast? = some v.latest := by
  have hlatest := v.latest_number
  have hsuffix : newest (v.chain.blocks.drop start) <:+ v.chain.blocks :=
    (List.drop_suffix _ _).trans (List.drop_suffix _ _)
  refine ⟨hsuffix, (getLast?_suffix hsuffix ?_).trans v.latest_tip⟩
  intro hnil
  have hlen := congrArg List.length hnil
  have hpos := Nat.pos_of_neZero headerCapacity
  unfold newest at hlen
  rw [List.length_drop, List.length_drop, List.length_nil] at hlen
  omega

theorem newest_head (v : L1View) {start : ℕ} {b : Header}
    (h : b ∈ (newest (v.chain.blocks.drop start)).head?) :
    b ∈ v.chain ∧ b.number = start + (v.chain.blocks.length - start - headerCapacity) := by
  unfold newest at h
  rw [List.drop_drop, List.head?_drop, List.length_drop] at h
  exact ⟨v.chain.mem_of_getElem? h, v.chain.numbered _ b h⟩

theorem divergence_of_head_ne {served : List Header} {first : Header} (h : Named headers v.chain)
    (hfirst : headers.head? = some first) (hserved : served <:+ v.chain.blocks) (hne : served ≠ [])
    (hother : ∀ b ∈ served.head?, b ≠ first) :
    ∃ new, divergence headers served = some (first, new) := by
  obtain ⟨rest, rfl⟩ := List.head?_eq_some_iff.1 hfirst
  cases served with
  | nil => exact absurd rfl hne
  | cons new served =>
    refine ⟨new, divergence_cons rest served ?_⟩
    intro hhash
    have hsame := h first List.mem_cons_self new (hserved.subset List.mem_cons_self) hhash
    exact hother new rfl hsame.symm

end Watcher
end RollupNode
