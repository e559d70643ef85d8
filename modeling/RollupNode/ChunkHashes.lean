import RollupNode.DecodedBlocks
import RollupNode.HeaderHash

set_option autoImplicit false

/-! The chunks of a batch up to version 6, and the data hash over them. -/
namespace RollupNode.Codec
open ByteReader

namespace BlockContext

def toBeBytes (c : BlockContext) : Bytes :=
  beBytes 8 c.number ++ (beBytes 8 c.timestamp ++
    ((if c.baseFee ≠ 0 then beBytes 32 c.baseFee else List.replicate 32 0) ++
      (beBytes 8 c.gasLimit ++ (beBytes 2 c.numTransactions ++ beBytes 2 c.numL1Messages))))

structure Fits (c : BlockContext) : Prop where
  number : c.number < 2 ^ 64
  timestamp : c.timestamp < 2 ^ 64
  baseFee : c.baseFee < 2 ^ 256
  gasLimit : c.gasLimit < 2 ^ 64
  numTransactions : c.numTransactions < 2 ^ 16
  numL1Messages : c.numL1Messages < 2 ^ 16

theorem toBeBytes_eq (c : BlockContext) :
    c.toBeBytes = beBytes 8 c.number ++ (beBytes 8 c.timestamp ++ (beBytes 32 c.baseFee ++
      (beBytes 8 c.gasLimit ++ (beBytes 2 c.numTransactions ++ beBytes 2 c.numL1Messages)))) := by
  unfold toBeBytes
  by_cases hzero : c.baseFee = 0
  · rw [hzero, if_neg (by simp)]
    rfl
  · rw [if_pos hzero]

end BlockContext

theorem guarded_blockContextV0 : Guarded Stop.IsPanic 0 BlockContextV0.tryFromBuf
    (fun c _ => c.Fits) BlockContext.toBeBytes := by
  refine .congr (guarded_checkBufLen (
    .field BlockContext.number (fixed_fromBeBytes 8) fun number =>
    .field BlockContext.timestamp (fixed_fromBeBytes 8) fun timestamp =>
    .field BlockContext.baseFee (fixed_fromBeBytes 32) fun baseFee =>
    .field BlockContext.gasLimit (fixed_fromBeBytes 8) fun gasLimit =>
    .field BlockContext.numTransactions (fixed_fromBeBytes 2) fun numTransactions =>
    .field BlockContext.numL1Messages (fixed_fromBeBytes 2) fun numL1Messages =>
    guarded_pure fun c => ?_) ?_) ?_ ?_
  · obtain ⟨⟩ := c
    simp [and_assoc]
  · simp [length_beBytes]
  · intro c rest
    constructor
    · rintro ⟨h₁, h₂, h₃, h₄, h₅, h₆, -⟩
      exact ⟨h₁, h₂, h₃, h₄, h₅, h₆⟩
    · rintro ⟨h₁, h₂, h₃, h₄, h₅, h₆⟩
      exact ⟨h₁, h₂, h₃, h₄, h₅, h₆, trivial⟩
  · intro c
    simp only [BlockContext.toBeBytes_eq, List.append_nil]

variable {rest : Bytes} {contexts : List BlockContext}

theorem chunkContexts_eq_ok {chunk : Bytes} :
    chunkContexts chunk = .ok (contexts, rest) ↔
      ∃ count : UInt8, count.toNat = contexts.length ∧ (∀ c ∈ contexts, c.Fits) ∧
        chunk = count :: (contexts.flatMap BlockContext.toBeBytes ++ rest) := by
  constructor
  · intro h
    unfold chunkContexts at h
    split at h
    · cases h
    · rename_i count buf
      obtain ⟨⟨hlength, hfits⟩, rfl⟩ := (exact_times guarded_blockContextV0.eq_ok count.toNat _ _ _).1 h
      exact ⟨count, hlength.symm, hfits, rfl⟩
  · rintro ⟨count, hlength, hfits, rfl⟩
    exact (exact_times guarded_blockContextV0.eq_ok count.toNat _ _ _).2 ⟨⟨hlength.symm, hfits⟩, rfl⟩

variable {blocks : List L2Block}

def PrefixedBy4 (tx part : Bytes) : Prop := ∃ length : Bytes, length.length = 4 ∧ part = length ++ tx

theorem transactionV0_written {buf tx : Bytes} (h : transactionV0 buf = .ok (tx, rest)) :
    ∃ part, PrefixedBy4 tx part ∧ buf = part ++ rest := by
  obtain ⟨_, mid, hadvance, hread⟩ := bind_eq_ok.1 h
  obtain ⟨length, _, hlength, hbuf, hdone⟩ := (exact_takeBytes _ 4).bind_ok hadvance
  cases hdone
  obtain ⟨-, hmid⟩ := (exact_transaction mid tx rest).1 hread
  refine ⟨length ++ tx, ⟨length, hlength, rfl⟩, ?_⟩
  rw [hbuf, hmid, List.append_assoc]
  rfl

/-! ### The data hash -/

abbrev Assignment := List (L2Block × List TxL1Message)

/-- Every block has as many messages as its context says, and in their order they are all the
messages. -/
structure Assigned (blocks : List L2Block) (l1Messages : List TxL1Message) (pairs : Assignment) :
    Prop where
  blocks_eq : pairs.map Prod.fst = blocks
  lengths : ∀ pair ∈ pairs, pair.2.length = pair.1.context.numL1Messages
  messages : pairs.flatMap Prod.snd = l1Messages

theorem Assigned.append {messages : List TxL1Message} {later : List L2Block}
    {rest : List TxL1Message} {pairs others : Assignment} (h : Assigned blocks messages pairs)
    (hlater : Assigned later rest others) :
    Assigned (blocks ++ later) (messages ++ rest) (pairs ++ others) where
  blocks_eq := by rw [List.map_append, h.blocks_eq, hlater.blocks_eq]
  lengths := List.forall_mem_append.2 ⟨h.lengths, hlater.lengths⟩
  messages := by rw [List.flatMap_append, h.messages, hlater.messages]

end RollupNode.Codec
