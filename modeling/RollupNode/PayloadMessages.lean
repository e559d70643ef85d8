import RollupNode.BudgetedPrefix
import RollupNode.Sequencer

set_option autoImplicit false

/-! The L1 messages a payload is requested with: as many of the offered ones as fit the block. -/
namespace RollupNode
open BudgetedPrefix

def L1MessageEnvelope.gas (m : L1MessageEnvelope) : ℕ := m.transaction.gasLimit

/-- Adding the gas limit of the first message that does not fit stays within 64 bits. -/
def NoOverflow (blockGasLimit used : ℕ) (offered : List L1MessageEnvelope) : Prop :=
  ∀ before m after, offered = before ++ m :: after →
    used + total L1MessageEnvelope.gas before ≤ blockGasLimit →
    blockGasLimit < used + total L1MessageEnvelope.gas before + m.gas →
    used + total L1MessageEnvelope.gas before + m.gas < 2 ^ 64

section
variable {blockGasLimit used : ℕ} {m : L1MessageEnvelope} {offered : List L1MessageEnvelope}

theorem noOverflow_cons_of_le (h : used + m.gas ≤ blockGasLimit) :
    NoOverflow blockGasLimit used (m :: offered) ↔
      NoOverflow blockGasLimit (used + m.gas) offered := by
  constructor
  · intro hall before next after hsplit
    have hcons := hall (m :: before) next after (by rw [hsplit, List.cons_append])
    rw [total_cons] at hcons
    simpa only [Nat.add_assoc] using hcons
  · intro hall before next after hsplit hfits hover
    cases before with
    | nil =>
      cases hsplit
      rw [total_nil] at hover
      omega
    | cons first before =>
      rw [List.cons_append] at hsplit
      obtain ⟨rfl, hrest⟩ := List.cons.inj hsplit
      have hnext := hall before next after hrest
      rw [total_cons] at hfits hover ⊢
      omega

theorem noOverflow_cons_of_lt (hused : used ≤ blockGasLimit) (h : blockGasLimit < used + m.gas) :
    NoOverflow blockGasLimit used (m :: offered) ↔ used + m.gas < 2 ^ 64 := by
  constructor
  · intro hall
    exact hall [] m offered rfl hused h
  · intro hlt before next after hsplit hfits hover
    cases before with
    | nil =>
      cases hsplit
      exact hlt
    | cons first before =>
      rw [List.cons_append] at hsplit
      obtain ⟨rfl, -⟩ := List.cons.inj hsplit
      rw [total_cons] at hfits
      omega

theorem fittingMessages_longest_iff (hlimit : blockGasLimit < 2 ^ 64) (hused : used ≤ blockGasLimit)
    (hgas : ∀ m ∈ offered, m.gas < 2 ^ 64) :
    Longest L1MessageEnvelope.gas (blockGasLimit - used) offered
        (fittingMessages blockGasLimit used offered) ↔
      NoOverflow blockGasLimit used offered := by
  induction offered generalizing used with
  | nil =>
    refine iff_of_true (longest_nil _ _) ?_
    intro before m after hsplit
    exact absurd hsplit (by simp)
  | cons m offered ih =>
    obtain ⟨hm, hrest⟩ := List.forall_mem_cons.1 hgas
    rw [fittingMessages]
    change Longest _ _ _ (if (m.gas + used) % 2 ^ 64 ≤ blockGasLimit then
      m :: fittingMessages blockGasLimit ((m.gas + used) % 2 ^ 64) offered else []) ↔ _
    by_cases hfits : used + m.gas ≤ blockGasLimit
    · have hsum : (m.gas + used) % 2 ^ 64 = used + m.gas := by omega
      have hleft : blockGasLimit - used - m.gas = blockGasLimit - (used + m.gas) := by omega
      rw [hsum, if_pos hfits, longest_cons _ (by omega), hleft, ih hfits hrest,
        noOverflow_cons_of_le hfits]
    · rw [longest_cons_of_lt _ (by omega), noOverflow_cons_of_lt hused (by omega)]
      by_cases hwraps : used + m.gas < 2 ^ 64
      · have hsum : (m.gas + used) % 2 ^ 64 = used + m.gas := by omega
        rw [hsum, if_neg hfits]
        exact iff_of_true rfl hwraps
      · -- the wrapped sum is below what was used before
        have hsum : (m.gas + used) % 2 ^ 64 ≤ blockGasLimit := by omega
        rw [if_pos hsum]
        exact iff_of_false (List.cons_ne_nil _ _) hwraps

end

/-- The messages of a request are the longest initial segment of the offered ones whose gas limits
sum up to at most the block gas limit if and only if adding the gas limit of the first message that
does not fit stays within 64 bits. -/
theorem Sequencer.startPayloadBuilding_longest_iff {s s' : Sequencer} {db : Db}
    {fcs : ForkchoiceState} {reply : Reply ForkchoiceUpdated} {offered : List L1MessageEnvelope}
    (hoffered : db.getNL1Messages
      (some s.config.payloadBuildingConfig.l1MessageInclusionMode.toKey)
      (s.l1MessageRecovery.maxMessages fcs.head
        s.config.payloadBuildingConfig.maxL1MessagesPerBlock).2 = .ok offered)
    (hstart : s.startPayloadBuilding db fcs reply = (s', .ok ()))
    (hlimit : s.config.payloadBuildingConfig.blockGasLimit < 2 ^ 64)
    (hgas : ∀ m ∈ offered, m.gas < 2 ^ 64) :
    ∃ job, s'.payloadBuildingJob = some job ∧
      (Longest L1MessageEnvelope.gas s.config.payloadBuildingConfig.blockGasLimit offered
          job.messages ↔
        NoOverflow s.config.payloadBuildingConfig.blockGasLimit 0 offered) := by
  obtain ⟨queried, payloadId, hquery, rfl⟩ := startPayloadBuilding_ok hstart
  cases hoffered.symm.trans hquery
  exact ⟨_, rfl, fittingMessages_longest_iff hlimit (Nat.zero_le _) hgas⟩

def twoPending (first second : ℕ) : Db :=
  { migrated 7 with
    l1Messages := ⟨[⟨⟨0, first, 100⟩, none, 5, none, false⟩, ⟨⟨1, second, 101⟩, none, 6, none, false⟩],
      show ([0, 1] : List ℕ).Nodup by decide⟩
    l1LatestBlock := 8 }

def tenGasSequencer : Sequencer := ⟨⟨⟨10, 4, .blockDepth 0⟩, true⟩, true, none, ⟨none, none⟩⟩

/-- The second message does not fit and is left out. -/
theorem startPayloadBuilding_longest_iff_two :
    ∃ s', tenGasSequencer.startPayloadBuilding (twoPending 4 7) ⟨⟨0, 7⟩, ⟨0, 7⟩, ⟨0, 7⟩⟩
        (.ok ⟨⟨.valid, none⟩, some 3⟩) = (s', .ok ()) ∧
      ∃ job, s'.payloadBuildingJob = some job ∧
        Longest L1MessageEnvelope.gas 10
          [⟨⟨0, 4, 100⟩, 5, none, none⟩, ⟨⟨1, 7, 101⟩, 6, none, none⟩] job.messages := by
  have hstart : tenGasSequencer.startPayloadBuilding (twoPending 4 7) ⟨⟨0, 7⟩, ⟨0, 7⟩, ⟨0, 7⟩⟩
      (.ok ⟨⟨.valid, none⟩, some 3⟩) = (_, .ok ()) := rfl
  have hoffered : (twoPending 4 7).getNL1Messages
      (some tenGasSequencer.config.payloadBuildingConfig.l1MessageInclusionMode.toKey)
      (tenGasSequencer.l1MessageRecovery.maxMessages ⟨0, 7⟩
        tenGasSequencer.config.payloadBuildingConfig.maxL1MessagesPerBlock).2 =
      .ok [⟨⟨0, 4, 100⟩, 5, none, none⟩, ⟨⟨1, 7, 101⟩, 6, none, none⟩] := rfl
  obtain ⟨job, hjob, hiff⟩ :=
    Sequencer.startPayloadBuilding_longest_iff hoffered hstart (by decide) (by decide)
  refine ⟨_, hstart, job, hjob, hiff.2 ?_⟩
  rw [noOverflow_cons_of_le (by decide), noOverflow_cons_of_lt (by decide) (by decide)]
  decide

/-- A message far over the limit is requested with the first one: the sum of their gas limits wraps
to zero. -/
theorem startPayloadBuilding_wraps :
    ∃ s', tenGasSequencer.startPayloadBuilding (twoPending 1 (2 ^ 64 - 1))
        ⟨⟨0, 7⟩, ⟨0, 7⟩, ⟨0, 7⟩⟩ (.ok ⟨⟨.valid, none⟩, some 3⟩) = (s', .ok ()) ∧
      s'.payloadBuildingJob.map (·.messages) = some
        [⟨⟨0, 1, 100⟩, 5, none, none⟩, ⟨⟨1, 2 ^ 64 - 1, 101⟩, 6, none, none⟩] ∧
      ¬ Longest L1MessageEnvelope.gas 10
        [⟨⟨0, 1, 100⟩, 5, none, none⟩, ⟨⟨1, 2 ^ 64 - 1, 101⟩, 6, none, none⟩]
        [⟨⟨0, 1, 100⟩, 5, none, none⟩, ⟨⟨1, 2 ^ 64 - 1, 101⟩, 6, none, none⟩] := by
  refine ⟨_, rfl, rfl, ?_⟩
  intro hlongest
  exact absurd hlongest.fits (by decide)

end RollupNode
