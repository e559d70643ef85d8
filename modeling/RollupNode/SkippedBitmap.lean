import RollupNode.QueueSlices

set_option autoImplicit false

/-! The contract fills one 256-bit word after another, the code reads the bytes backwards. -/
namespace RollupNode
open ByteReader ExceptTraversal
open Codec (CommitBatch CommitBatchCall)

def wordBytes (words : List B256) : Bytes := words.flatMap (fun word => beBytes 32 word.toNat)

def marked (words : List B256) (j : ℕ) : Bool := (words[j / 256]?.getD 0).getLsbD (j % 256)

def wordBits (words : List B256) : List Bool :=
  words.flatMap (fun word => (List.range 256).map word.getLsbD)

theorem length_wordBits (words : List B256) : (wordBits words).length = 256 * words.length := by
  induction words with
  | nil => rfl
  | cons word words ih =>
    rw [wordBits, List.flatMap_cons, List.length_append, List.length_map, List.length_range,
      List.length_cons]
    rw [wordBits] at ih
    omega

theorem wordBits_get (words : List B256) {j : ℕ} (h : j < 256 * words.length) :
    (wordBits words)[j]? = some (marked words j) := by
  induction words generalizing j with
  | nil => cases h
  | cons word words ih =>
    have hlength : ((List.range 256).map word.getLsbD).length = 256 := by
      rw [List.length_map, List.length_range]
    rw [wordBits, List.flatMap_cons]
    by_cases hj : j < 256
    · rw [List.getElem?_append_left (by rw [hlength]; exact hj), List.getElem?_map,
        List.getElem?_range hj, marked, Nat.div_eq_of_lt hj, Nat.mod_eq_of_lt hj]
      rfl
    · rw [List.length_cons] at h
      have hnext := ih (j := j - 256) (by omega)
      have hdiv : j / 256 = (j - 256) / 256 + 1 := by omega
      have hmod : j % 256 = (j - 256) % 256 := by omega
      rw [List.getElem?_append_right (by omega), hlength, marked, hdiv, hmod,
        List.getElem?_cons_succ]
      exact hnext

theorem marked_of_le (words : List B256) {j : ℕ} (h : 256 * words.length ≤ j) :
    marked words j = false := by
  rw [marked, List.getElem?_eq_none (by omega)]
  exact BitVec.getLsbD_zero

theorem bitAt_wordBits (words : List B256) (j : ℕ) : bitAt (wordBits words) j = marked words j := by
  by_cases hj : j < 256 * words.length
  · rw [bitAt, wordBits_get words hj, Option.getD_some]
  · rw [bitAt, List.getElem?_eq_none (by rw [length_wordBits]; omega),
      marked_of_le words (Nat.le_of_not_lt hj), Option.getD_none]

theorem bitsOf_byte (value place : ℕ) :
    CommitBatchCall.bitsOf (UInt8.ofNat (value / 256 ^ place)) =
      (List.range 8).map (fun i => value.testBit (8 * place + i)) := by
  refine List.map_congr_left ?_
  intro i hi
  have hlt := List.mem_range.1 hi
  have hpow : (256 : ℕ) ^ place = 2 ^ (8 * place) := by rw [Nat.pow_mul]
  rw [UInt8.toNat_ofNat', hpow, Nat.testBit_mod_two_pow, Nat.testBit_div_two_pow, Nat.add_comm i]
  simp [hlt]

theorem bits_beBytes (count value : ℕ) :
    (beBytes count value).reverse.flatMap CommitBatchCall.bitsOf =
      (List.range (8 * count)).map value.testBit := by
  induction count with
  | zero => rfl
  | succ count ih =>
    rw [beBytes_succ, List.reverse_cons, List.flatMap_append, ih, List.flatMap_singleton,
      bitsOf_byte, Nat.mul_succ, List.range_add, List.map_append, List.map_map]
    rfl

theorem length_wordBytes (words : List B256) : (wordBytes words).length % 32 = 0 := by
  induction words with
  | nil => rfl
  | cons word words ih =>
    rw [wordBytes, List.flatMap_cons, List.length_append, length_beBytes]
    rw [wordBytes] at ih
    omega

theorem read_wordBytes (words : List B256) :
    CommitBatchCall.skippedL1MessageBitmap.read (wordBytes words) =
      .ok (some (wordBits words.reverse)) := by
  unfold CommitBatchCall.skippedL1MessageBitmap.read
  rw [if_neg (by rw [length_wordBytes]; simp)]
  have hbits : (wordBytes words).reverse.flatMap CommitBatchCall.bitsOf = wordBits words.reverse := by
    rw [wordBytes, List.reverse_flatMap, List.flatMap_assoc, wordBits]
    refine List.flatMap_congr ?_
    intro word _
    exact bits_beBytes 32 word.toNat
  rw [hbits]

theorem eq_of_marked {words words' : List B256} (hlength : words.length = words'.length)
    (h : ∀ j < 256 * words.length, marked words j = marked words' j) : words = words' := by
  refine List.ext_getElem hlength ?_
  intro i hi hi'
  refine BitVec.eq_of_getLsbD_eq ?_
  intro bit hbit
  have hsame := h (256 * i + bit) (by omega)
  have hdiv : (256 * i + bit) / 256 = i := by omega
  have hmod : (256 * i + bit) % 256 = bit := by omega
  rw [marked, marked, hdiv, hmod, List.getElem?_eq_getElem hi, List.getElem?_eq_getElem hi'] at hsame
  exact hsame

theorem filter_range_eq_iff (p q : ℕ → Bool) (n : ℕ) :
    (List.range n).filter p = (List.range n).filter q ↔ ∀ j < n, p j = q j := by
  constructor
  · intro h j hj
    have hmem : j ∈ (List.range n).filter p ↔ j ∈ (List.range n).filter q := by rw [h]
    rw [List.mem_filter, List.mem_filter, and_iff_right (List.mem_range.2 hj),
      and_iff_right (List.mem_range.2 hj)] at hmem
    exact Bool.eq_iff_iff.2 hmem
  · intro h
    refine List.filter_congr ?_
    intro j hj
    exact h j (List.mem_range.1 hj)

/-- A batch skips the messages that the contract marks. -/
def SkipsMarked (words : List B256) (first total : ℕ) (result : BatchDerivationResult) : Prop :=
  result.skippedL1Messages =
    ((List.range total).filter (marked words)).map (fun j => first + j)

/-- The bitmap of a call is read as the contract wrote it exactly when its words read the same
backwards, and a batch skips the marked messages exactly when the marks of its messages do. -/
theorem skippedL1MessageBitmap_iff (words : List B256) (commit : CommitBatch) (blobDataProof : Bytes)
    (call : CommitBatchCall)
    (hcall : call = .commitBatch commit ∨ call = .commitBatchWithBlobProof commit blobDataProof)
    (hwords : commit.skippedL1MessageBitmap = wordBytes words) :
    (∃ bits, call.skippedL1MessageBitmap = .ok (some bits) ∧ bits.length = 256 * words.length ∧
      ((∀ j < 256 * words.length, bits[j]? = some (marked words j)) ↔ words.reverse = words)) ∧
    ∀ (inputs : DerivationInputs) (batch : BatchCommitData) (targetStatus : BatchStatus)
      (queue : ℕ → L1MessageEnvelope) (version : ℕ) (blob : Option Bytes) (decoded : Codec.Batch)
      (result : BatchDerivationResult),
      inputs.externals.tryDecode batch.calldata = some call →
      Codec.getCodecVersion batch.calldata = .ok version → version < 7 →
      (∀ i, (queue i).transaction.queueIndex = i) →
      batchBlob inputs batch = .ok blob →
      Codec.decode inputs.externals inputs.build batch.calldata blob = .ok decoded →
      inputs.provider.Serves queue (queueRequest inputs.l1V2MessageQueueStartIndex decoded.data) →
      derive inputs batch targetStatus = .ok result →
      ∃ first, FirstUsed inputs.l1V2MessageQueueStartIndex queue decoded.data first ∧
        (SkipsMarked words first (totalL1Messages decoded.data) result ↔
          ∀ j < totalL1Messages decoded.data, marked words.reverse j = marked words j) := by
  have hread : call.skippedL1MessageBitmap = .ok (some (wordBits words.reverse)) := by
    have hbitmap := read_wordBytes words
    rw [← hwords] at hbitmap
    rcases hcall with rfl | rfl <;> exact hbitmap
  have hlength : words.reverse.length = words.length := List.length_reverse
  refine ⟨⟨_, hread, by rw [length_wordBits, hlength], ?_⟩, ?_⟩
  · constructor
    · intro h
      refine eq_of_marked hlength ?_
      intro j hj
      have hbit := wordBits_get words.reverse hj
      rw [hlength] at hj
      rw [h j hj] at hbit
      exact (Option.some.inj hbit).symm
    · intro hreverse j hj
      rw [hreverse]
      exact wordBits_get words hj
  · intro inputs batch targetStatus queue version blob decoded result htryDecode hversion hold hindex
      hblob hdecoded hserved hderive
    obtain ⟨version', hversion', hfrom, -⟩ := Codec.decode_spec hdecoded
    rw [hversion] at hversion'
    cases hversion'
    obtain ⟨call', hcall', hreadFrom⟩ := hfrom hold
    rw [htryDecode] at hcall'
    cases hcall'
    have hbitmap := hreadFrom.bitmap
    rw [hread] at hbitmap
    have hbitmap := Except.ok.inj hbitmap
    obtain ⟨first, hfirst, hskipped⟩ :=
      derive_skipped hindex hblob hdecoded hserved hderive
    refine ⟨first, hfirst, ?_⟩
    rw [← hbitmap, Option.getD_some] at hskipped
    rw [SkipsMarked, hskipped, (List.map_injective_iff.2 (add_right_injective first)).eq_iff,
      filter_range_eq_iff]
    simp only [bitAt_wordBits]

/-- One word, in which the first of two messages is marked. -/
theorem skippedL1MessageBitmap_iff_oneWord :
    ∃ result, derive (messagesInputs 2 (wordBytes [1])) messagesCommit .consolidated = .ok result ∧
      SkipsMarked [1] 0 2 result := by
  have hbytes : wordBytes [1] = List.replicate 31 0 ++ [1] := by decide +kernel
  have hderive : derive (messagesInputs 2 (wordBytes [1])) messagesCommit .consolidated =
      .ok ⟨[⟨5, 0, ⟨0, 0, some [[0, 1]], some 0, ⟨none, none, none, none, none⟩⟩⟩], ⟨1, 11⟩, [0],
        .consolidated⟩ := by
    rw [hbytes]
    rfl
  have hdecode := decode_messages
  rw [← hbytes] at hdecode
  obtain ⟨-, hskips⟩ := skippedL1MessageBitmap_iff [1] _ [] (messagesCall 2 (wordBytes [1]))
    (Or.inl rfl) rfl
  obtain ⟨first, hfirst, hiff⟩ := hskips (messagesInputs 2 (wordBytes [1])) messagesCommit
    .consolidated plainQueue 0 none _ _ rfl (by decide +kernel) (by decide) (fun _ => rfl) rfl
    hdecode (plainProvider_serves 0 2) hderive
  have hzero : first = 0 := hfirst
  rw [hzero] at hiff
  exact ⟨_, hderive, hiff.2 (fun _ _ => rfl)⟩

/-- Two words, in which only message 0 of 257 is marked: message 256 is skipped in its place. -/
theorem second_word_read_first :
    marked [1, 0] 0 = true ∧ marked [1, 0] 256 = false ∧
    (∃ bits, (messagesCall 257 (wordBytes [1, 0])).skippedL1MessageBitmap = .ok (some bits) ∧
      bits[0]? = some false ∧ bits[256]? = some true) ∧
    ∃ result, derive (messagesInputs 257 (wordBytes [1, 0])) messagesCommit .consolidated =
        .ok result ∧
      result.skippedL1Messages = [256] ∧ ¬SkipsMarked [1, 0] 0 257 result := by
  have hskipped : (derive (messagesInputs 257 (wordBytes [1, 0])) messagesCommit
      .consolidated).map (·.skippedL1Messages) = .ok [256] := by decide +kernel
  refine ⟨by decide, by decide, ⟨wordBits [0, 1], read_wordBytes [1, 0], ?_, ?_⟩, ?_⟩
  · exact wordBits_get [0, 1] (by decide)
  · exact wordBits_get [0, 1] (by decide)
  · cases hderive : derive (messagesInputs 257 (wordBytes [1, 0])) messagesCommit .consolidated with
    | error e =>
      rw [hderive] at hskipped
      cases hskipped
    | ok result =>
      rw [hderive] at hskipped
      have hresult : result.skippedL1Messages = [256] := Except.ok.inj hskipped
      refine ⟨result, rfl, hresult, ?_⟩
      rw [SkipsMarked, hresult]
      decide +kernel

end RollupNode
