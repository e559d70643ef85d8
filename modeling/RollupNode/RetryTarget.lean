import RollupNode.RetriedAttempts

set_option autoImplicit false

/-! The chain that the attempts of a held batch lead to, and its beginnings. -/
namespace RollupNode
open LinkedChain

theorem matchedBlock_clientOf {chain : Chain L2Block} {a : DerivedAttributes} {block : L2Block} :
    matchedBlock (clientOf chain) a = some block ↔
      chain.blocks[a.blockNumber]? = some block ∧
        blockMatchesAttributes a.attributes a.baseFee block = true := by
  constructor
  · intro h
    obtain ⟨hserved, hmatch⟩ := matchedBlock_eq_some h
    rw [clientOf_blockByNumber] at hserved
    exact ⟨Except.ok.inj hserved, hmatch⟩
  · rintro ⟨hat, hmatch⟩
    refine matchedBlock_of_served ?_ hmatch
    rw [clientOf_blockByNumber, hat]

structure RetryStart (e : Builder) where
  batch : BatchDerivationResult
  first : ℕ
  chain : Chain L2Block
  fcs : ForkchoiceState
  consecutive : ConsecutiveAttributes first batch.attributes
  aboveGenesis : (matchedBlocks (clientOf chain) batch.attributes).length <
    batch.attributes.length →
      0 < first + (matchedBlocks (clientOf chain) batch.attributes).length
  builds : e.Builds batch
  blocks : ∀ b ∈ chain, b ∈ e.blocks
  head : ∃ b ∈ chain, b.blockInfo = fcs.head
  safe : ∃ b ∈ chain, b.blockInfo = fcs.safe

def RebuildReady (batch : BatchDerivationResult) (first : ℕ) (client : L2Client)
    (fcs : ForkchoiceState) : Prop :=
  confirmActions fcs.finalized.number (matchedBlocks client batch.attributes) = [] →
    (matchedBlocks client batch.attributes).length < batch.attributes.length →
      fcs.safe.number + 1 = first + (matchedBlocks client batch.attributes).length ∧
        fcs.finalized.number ≤ fcs.safe.number

namespace RetryStart

variable {e : Builder} (s : RetryStart e)

def count : ℕ := s.batch.attributes.length

def kept : ℕ := (matchedBlocks (clientOf s.chain) s.batch.attributes).length

def Begins : Prop := RebuildReady s.batch s.first (clientOf s.chain) s.fcs

theorem kept_le : s.kept ≤ s.count := matchedBlocks_length_le _ _

theorem above (hkept : s.kept < s.count) : 0 < s.first + s.kept := s.aboveGenesis hkept

theorem chain_at {a : DerivedAttributes} {i : ℕ} (hi : i < s.kept)
    (ha : s.batch.attributes[i]? = some a) :
    ∃ b, s.chain.blocks[s.first + i]? = some b ∧
      blockMatchesAttributes a.attributes a.baseFee b = true := by
  obtain ⟨b, hb⟩ : ∃ b, (matchedBlocks (clientOf s.chain) s.batch.attributes)[i]? = some b :=
    ⟨_, List.getElem?_eq_getElem hi⟩
  obtain ⟨a', ha', hmatched⟩ := matchedBlocks_get hb
  cases ha.symm.trans ha'
  rw [matchedBlock_clientOf, s.consecutive.get ha] at hmatched
  exact ⟨b, hmatched⟩

theorem chain_stops {a : DerivedAttributes} (ha : s.batch.attributes[s.kept]? = some a)
    {b : L2Block} (hb : s.chain.blocks[s.first + s.kept]? = some b) :
    blockMatchesAttributes a.attributes a.baseFee b ≠ true := by
  intro hmatch
  have hnone := matchedBlock_at_length ha
  rw [← s.consecutive.get ha] at hb
  rw [matchedBlock_clientOf.2 ⟨hb, hmatch⟩] at hnone
  cases hnone

theorem attributes_at {i : ℕ} (hi : i < s.count) : ∃ a, s.batch.attributes[i]? = some a :=
  ⟨_, List.getElem?_eq_getElem hi⟩

theorem chain_base (hbegins : s.Begins) (hkept : s.kept < s.count) :
    ∃ b, s.chain.blocks[s.first + s.kept - 1]? = some b := by
  by_cases hnone : s.kept = 0
  · have hnil : matchedBlocks (clientOf s.chain) s.batch.attributes = [] :=
      List.length_eq_zero_iff.1 hnone
    have hsafe := (hbegins (by rw [hnil]; rfl) hkept).1
    obtain ⟨b, hb, hinfo⟩ := s.safe
    have hnumber : b.number = s.fcs.safe.number := congrArg BlockInfo.number hinfo
    rw [hnil, List.length_nil] at hsafe
    refine ⟨b, ?_⟩
    have hindex : s.first + s.kept - 1 = b.number := by omega
    rw [hindex]
    exact (s.chain.mem_iff b).1 hb
  · obtain ⟨a, ha⟩ := s.attributes_at (i := s.kept - 1) (by omega)
    obtain ⟨b, hb, -⟩ := s.chain_at (i := s.kept - 1) (by omega) ha
    refine ⟨b, ?_⟩
    have hindex : s.first + s.kept - 1 = s.first + (s.kept - 1) := by omega
    rw [hindex]
    exact hb

theorem builds_on {a : DerivedAttributes} {i : ℕ} (hi : s.kept ≤ i)
    (ha : s.batch.attributes[i]? = some a) {parent : L2Block} (hparent : parent ∈ e.blocks)
    (hnumber : parent.number = s.first + i - 1) :
    a.blockNumber = parent.number + 1 ∧ e.build parent.blockInfo a ∈ e.blocks ∧
      (e.build parent.blockInfo a).parentHash = parent.hash ∧
      blockMatchesAttributes a.attributes a.baseFee (e.build parent.blockInfo a) = true := by
  have hlt : i < s.count := (List.getElem?_eq_some_iff.1 ha).1
  have hfirst := s.above (by omega)
  have hheight : a.blockNumber = parent.number + 1 := by
    rw [s.consecutive.get ha]
    omega
  exact ⟨hheight, s.builds.builds parent hparent a (List.mem_of_getElem? ha) hheight⟩

/-- The chain that a single attempt makes: the starting chain as far as it is kept, then a built
block for each of the other attributes. -/
structure Target (d : Chain L2Block) : Prop where
  length : s.kept < s.count → d.blocks.length = s.first + s.count
  agrees : ∀ i, i < s.first + s.kept → d.blocks[i]? = s.chain.blocks[i]?
  mem : ∀ b ∈ d, b ∈ e.blocks
  built : ∀ i a, s.kept ≤ i → s.batch.attributes[i]? = some a →
    ∃ parent, d.blocks[s.first + i - 1]? = some parent ∧
      d.blocks[s.first + i]? = some (e.build parent.blockInfo a)

structure Extension (k : ℕ) (d : Chain L2Block) : Prop where
  length : d.blocks.length = s.first + s.kept + k
  agrees : ∀ i, i < s.first + s.kept → d.blocks[i]? = s.chain.blocks[i]?
  mem : ∀ b ∈ d, b ∈ e.blocks
  built : ∀ i a, s.kept ≤ i → i < s.kept + k → s.batch.attributes[i]? = some a →
    ∃ parent, d.blocks[s.first + i - 1]? = some parent ∧
      d.blocks[s.first + i]? = some (e.build parent.blockInfo a)

theorem extension_zero (hbegins : s.Begins) (hkept : s.kept < s.count) :
    s.Extension 0 (s.chain.take (s.first + s.kept)) := by
  obtain ⟨base, hbase⟩ := s.chain_base hbegins hkept
  have hlt := (List.getElem?_eq_some_iff.1 hbase).1
  have hfirst := s.above hkept
  constructor
  · change (s.chain.blocks.take _).length = _
    rw [List.length_take]
    omega
  · intro i hi
    exact List.getElem?_take_of_lt hi
  · intro b hb
    exact s.blocks b (List.mem_of_mem_take hb)
  · intro i a hi hlow
    omega

variable {d : Chain L2Block}

theorem exists_next {k : ℕ} (h : s.Extension k d) (hk : s.kept + k < s.count) :
    ∃ parent a, d.blocks[s.first + s.kept + k - 1]? = some parent ∧
      s.batch.attributes[s.kept + k]? = some a ∧ parent.number = s.first + s.kept + k - 1 ∧
      e.build parent.blockInfo a ∈ e.blocks ∧
      (e.build parent.blockInfo a).parentHash = parent.hash := by
  have hlength := h.length
  have hfirst := s.above (by omega)
  obtain ⟨a, ha⟩ := s.attributes_at hk
  obtain ⟨parent, hin, hat, hnumber⟩ := d.exists_at (i := s.first + s.kept + k - 1) (by omega)
  have hnumber : parent.number = s.first + s.kept + k - 1 := hnumber
  obtain ⟨-, hblock, hparent, -⟩ := s.builds_on (Nat.le_add_right _ _) ha (h.mem parent hin)
    (by omega)
  exact ⟨parent, a, hat, ha, hnumber, hblock, hparent⟩

theorem extension_succ {k : ℕ} (h : s.Extension k d) (hk : s.kept + k < s.count) :
    ∃ d', s.Extension (k + 1) d' := by
  obtain ⟨parent, a, hat, ha, hnumber, hblock, hparent⟩ := s.exists_next h hk
  have hlength := h.length
  have hfirst := s.above (by omega)
  have hblockNumber : (e.build parent.blockInfo a).number = parent.number + 1 :=
    s.builds.number _ a
  refine ⟨d.push (e.build parent.blockInfo a) ?_ ?_, ?_, ?_, ?_, ?_⟩
  · change (e.build parent.blockInfo a).number = _
    rw [hblockNumber]
    omega
  · intro tip htip
    rw [List.getLast?_eq_getElem?, hlength] at htip
    cases htip.symm.trans hat
    exact hparent
  · change (d.blocks ++ [e.build parent.blockInfo a]).length = _
    rw [List.length_append, hlength]
    rfl
  · intro i hi
    rw [← h.agrees i hi]
    exact List.getElem?_append_left (by omega)
  · intro b hb
    rcases List.mem_append.1 hb with hb | hb
    · exact h.mem b hb
    · rw [List.mem_singleton.1 hb]
      exact hblock
  · intro i a' hi hlow ha'
    change ∃ parent', (d.blocks ++ [e.build parent.blockInfo a])[_]? = _ ∧
      (d.blocks ++ [e.build parent.blockInfo a])[_]? = _
    by_cases hlast : i = s.kept + k
    · subst hlast
      cases ha.symm.trans ha'
      refine ⟨parent, ?_, ?_⟩
      · rw [List.getElem?_append_left (by omega), ← Nat.add_assoc]
        exact hat
      · rw [← Nat.add_assoc, ← hlength]
        exact List.getElem?_concat_length
    · obtain ⟨parent', hparentAt, hblockAt⟩ := h.built i a' hi (by omega) ha'
      refine ⟨parent', ?_, ?_⟩
      · rw [List.getElem?_append_left (by omega)]
        exact hparentAt
      · rw [List.getElem?_append_left (by omega)]
        exact hblockAt

theorem exists_extension (hbegins : s.Begins) (hkept : s.kept < s.count) (k : ℕ)
    (hk : s.kept + k ≤ s.count) : ∃ d, s.Extension k d := by
  induction k with
  | zero => exact ⟨_, s.extension_zero hbegins hkept⟩
  | succ k ih =>
    obtain ⟨d, hd⟩ := ih (by omega)
    exact s.extension_succ hd (by omega)

theorem exists_target (hbegins : s.Begins) : ∃ d, s.Target d := by
  by_cases hkept : s.kept < s.count
  · obtain ⟨d, hlength, hagrees, hmem, hbuilt⟩ :=
      s.exists_extension hbegins hkept (s.count - s.kept) (by omega)
    refine ⟨d, ?_, hagrees, hmem, ?_⟩
    · intro _
      omega
    · intro i a hi ha
      have hlt : i < s.count := (List.getElem?_eq_some_iff.1 ha).1
      exact hbuilt i a hi (by omega) ha
  · refine ⟨s.chain, fun h => absurd h hkept, fun i _ => rfl, s.blocks, ?_⟩
    intro i a hi ha
    have hlt : i < s.count := (List.getElem?_eq_some_iff.1 ha).1
    omega

section
variable {s} {d : Chain L2Block}

theorem Target.block_at (h : s.Target d) {i : ℕ} {a : DerivedAttributes}
    (ha : s.batch.attributes[i]? = some a) :
    ∃ b, d.blocks[s.first + i]? = some b ∧
      blockMatchesAttributes a.attributes a.baseFee b = true := by
  by_cases hi : i < s.kept
  · obtain ⟨b, hb, hmatch⟩ := s.chain_at hi ha
    refine ⟨b, ?_, hmatch⟩
    rw [h.agrees _ (Nat.add_lt_add_left hi s.first)]
    exact hb
  · obtain ⟨parent, hparent, hblock⟩ := h.built i a (Nat.le_of_not_lt hi) ha
    have hbuilds := s.builds_on (Nat.le_of_not_lt hi) ha
      (h.mem parent (d.mem_of_getElem? hparent)) (d.numbered _ _ hparent)
    exact ⟨_, hblock, hbuilds.2.2.2⟩

def targets (s : RetryStart e) (d : Chain L2Block) : List L2Block :=
  (d.blocks.drop s.first).take s.count

theorem targets_get {i : ℕ} (hi : i < s.count) :
    (s.targets d)[i]? = d.blocks[s.first + i]? := by
  rw [targets, List.getElem?_take_of_lt hi, List.getElem?_drop]

theorem Target.targets_length (h : s.Target d) : (s.targets d).length = s.count := by
  by_cases hcount : s.count = 0
  · rw [targets, hcount]
    rfl
  · obtain ⟨a, ha⟩ := s.attributes_at (i := s.count - 1) (by omega)
    obtain ⟨b, hb, -⟩ := h.block_at ha
    have hlt := (List.getElem?_eq_some_iff.1 hb).1
    rw [targets, List.length_take, List.length_drop]
    omega

theorem Target.targets_take_length (h : s.Target d) {m : ℕ} (hm : m ≤ s.count) :
    ((s.targets d).take m).length = m := by
  rw [List.length_take, h.targets_length, Nat.min_eq_left hm]

/-- A chain the Engine can be on: no less than the kept part of the starting chain, and behind
it nothing but blocks of that chain or of the target. -/
def OnTheWay (s : RetryStart e) (d c : Chain L2Block) : Prop :=
  ∃ j, s.first + s.kept ≤ j ∧
    (c.blocks = s.chain.blocks.take j ∨ s.kept < s.count ∧ c.blocks = d.blocks.take j)

theorem OnTheWay.matched {c : Chain L2Block} (h : s.OnTheWay d c) (hd : s.Target d) :
    ∃ m, s.kept ≤ m ∧ m ≤ s.count ∧
      matchedBlocks (clientOf c) s.batch.attributes = (s.targets d).take m := by
  obtain ⟨j, hj, hchain⟩ := h
  -- the common part: a block of the target that the chain has is matched
  have hfound : ∀ m, m ≤ s.count →
      (∀ i, i < m → c.blocks[s.first + i]? = d.blocks[s.first + i]?) →
      ∀ (i : ℕ) (block : L2Block), ((s.targets d).take m)[i]? = some block →
        ∃ a, s.batch.attributes[i]? = some a ∧ matchedBlock (clientOf c) a = some block := by
    intro m hm hagrees i block hblock
    obtain ⟨hi, hblock⟩ := getElem?_of_take hblock
    rw [targets_get (Nat.lt_of_lt_of_le hi hm)] at hblock
    obtain ⟨a, ha⟩ := s.attributes_at (Nat.lt_of_lt_of_le hi hm)
    obtain ⟨b, hb, hmatch⟩ := hd.block_at ha
    cases hb.symm.trans hblock
    refine ⟨a, ha, matchedBlock_clientOf.2 ⟨?_, hmatch⟩⟩
    rw [s.consecutive.get ha, hagrees i hi]
    exact hb
  rcases hchain with hstart | ⟨hkept, htarget⟩
  · refine ⟨s.kept, Nat.le_refl _, s.kept_le, matchedBlocks_eq (hfound s.kept s.kept_le ?_) ?_⟩
    · intro i hi
      rw [hstart, List.getElem?_take_of_lt (by omega), hd.agrees _ (by omega)]
    · intro a ha
      rw [hd.targets_take_length s.kept_le] at ha
      refine Option.eq_none_iff_forall_ne_some.2 ?_
      intro b hb
      obtain ⟨hat, hmatch⟩ := matchedBlock_clientOf.1 hb
      rw [s.consecutive.get ha, hstart] at hat
      exact s.chain_stops ha (getElem?_of_take hat).2 hmatch
  · have hlength := hd.length hkept
    by_cases hall : s.first + s.count ≤ j
    · refine ⟨s.count, s.kept_le, Nat.le_refl _,
        matchedBlocks_eq (hfound s.count (Nat.le_refl _) ?_) ?_⟩
      · intro i hi
        rw [htarget, List.getElem?_take_of_lt (by omega)]
      · intro a ha
        rw [hd.targets_take_length (Nat.le_refl _)] at ha
        exact absurd (List.getElem?_eq_some_iff.1 ha).1 (Nat.lt_irrefl _)
    · refine ⟨j - s.first, by omega, by omega, matchedBlocks_eq (hfound _ (by omega) ?_) ?_⟩
      · intro i hi
        rw [htarget, List.getElem?_take_of_lt (by omega)]
      · intro a ha
        rw [hd.targets_take_length (by omega)] at ha
        refine Option.eq_none_iff_forall_ne_some.2 ?_
        intro b hb
        obtain ⟨hat, -⟩ := matchedBlock_clientOf.1 hb
        rw [s.consecutive.get ha, htarget] at hat
        have hlt := (getElem?_of_take hat).1
        omega

def Heads (s : RetryStart e) (d : Chain L2Block) (info : BlockInfo) : Prop :=
  ∃ b, (b ∈ s.chain ∨ s.kept < s.count ∧ b ∈ d) ∧ s.first + s.kept ≤ b.number + 1 ∧
    b.blockInfo = info

theorem block_eq_of_info (s : RetryStart e) {a b : L2Block} (ha : a ∈ e.blocks) (hb : b ∈ e.blocks)
    (h : a.blockInfo = b.blockInfo) : a = b :=
  s.builds.hash_inj a ha b hb (congrArg BlockInfo.hash h)

theorem blocks_eq_take_of_tip {c : Chain L2Block} (s : RetryStart e) {mid : Chain L2Block}
    (hc : ∀ b ∈ c, b ∈ e.blocks) (hmid : ∀ b ∈ mid, b ∈ e.blocks) {tip : L2Block}
    (htip : mid.blocks.getLast? = some tip) (hin : tip ∈ c) :
    mid.blocks = c.blocks.take (tip.number + 1) := by
  have hfree : CollisionFree mid c := by
    intro a ha b hb hhash
    exact s.builds.hash_inj a (hmid a ha) b (hc b hb) hhash
  have hlast := mid.number_getLast htip
  exact (agreesTo_of_mem hfree (List.mem_of_getLast? htip) hin).blocks_eq_take hlast

theorem OnTheWay.adopts {c c' : Chain L2Block} {requests : List FcuRequest} (h : s.OnTheWay d c)
    (hd : s.Target d) (hadopts : e.Adopts c requests c') (hheads : HeadsIn (s.Heads d) requests) :
    s.OnTheWay d c' := by
  induction hadopts with
  | nil => exact h
  | keeps hrest ih => exact ih h (fun r hr => hheads r (List.mem_cons_of_mem _ hr))
  | adopts hnew hblocks htip hhead hrest ih =>
    refine ih ?_ (fun r hr => hheads r (List.mem_cons_of_mem _ hr))
    obtain ⟨b, hb, hnumber, hinfo⟩ := hheads _ List.mem_cons_self _ hnew
    have htipIn := hblocks _ (List.mem_of_getLast? htip)
    rcases hb with hb | ⟨hkept, hb⟩
    · obtain rfl := s.block_eq_of_info htipIn (s.blocks b hb) (hhead.trans hinfo.symm)
      exact ⟨_, hnumber, Or.inl (s.blocks_eq_take_of_tip s.blocks hblocks htip hb)⟩
    · obtain rfl := s.block_eq_of_info htipIn (hd.mem b hb) (hhead.trans hinfo.symm)
      exact ⟨_, hnumber, Or.inr ⟨hkept, s.blocks_eq_take_of_tip hd.mem hblocks htip hb⟩⟩

end
end RetryStart
end RollupNode
