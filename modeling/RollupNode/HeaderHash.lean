import RollupNode.PayloadV7

set_option autoImplicit false

/-! The hash of a batch header: keccak over the fields as they are written. -/
namespace RollupNode.Codec
open ByteReader

def B256.bytes (hash : B256) : Bytes := beBytes 32 hash.toNat

namespace BatchHeaderV0

def fields (header : BatchHeaderV0) : Bytes :=
  beBytes 1 header.version ++ (beBytes 8 header.batchIndex ++ (beBytes 8 header.l1MessagePopped ++
    (beBytes 8 header.totalL1MessagePopped ++ (B256.bytes header.dataHash ++
      B256.bytes header.parentBatchHash))))

def hashSlow (keccak256 : Bytes → B256) (header : BatchHeaderV0) : B256 :=
  keccak256 (header.fields ++ header.skippedL1MessageBitmap)

theorem length_fields (header : BatchHeaderV0) : header.fields.length = 89 := by
  simp only [fields, B256.bytes, List.length_append, length_beBytes]

end BatchHeaderV0

namespace BatchHeaderV1

def fields (header : BatchHeaderV1) : Bytes :=
  beBytes 1 header.version ++ (beBytes 8 header.batchIndex ++ (beBytes 8 header.l1MessagePopped ++
    (beBytes 8 header.totalL1MessagePopped ++ (B256.bytes header.dataHash ++
      (B256.bytes header.blobVersionedHash ++ B256.bytes header.parentBatchHash)))))

def hashSlow (keccak256 : Bytes → B256) (header : BatchHeaderV1) : B256 :=
  keccak256 (header.fields ++ header.skippedL1MessageBitmap)

theorem length_fields (header : BatchHeaderV1) : header.fields.length = 121 := by
  simp only [fields, B256.bytes, List.length_append, length_beBytes]

end BatchHeaderV1

namespace BatchHeaderV3

def fields (header : BatchHeaderV3) : Bytes :=
  beBytes 1 header.version ++ (beBytes 8 header.batchIndex ++ (beBytes 8 header.l1MessagePopped ++
    (beBytes 8 header.totalL1MessagePopped ++ (B256.bytes header.dataHash ++
      (B256.bytes header.blobVersionedHash ++ (B256.bytes header.parentBatchHash ++
        (beBytes 8 header.lastBlockTimestamp ++ (B256.bytes header.blobDataProof.1 ++
          B256.bytes header.blobDataProof.2))))))))

def hashSlow (keccak256 : Bytes → B256) (header : BatchHeaderV3) : B256 := keccak256 header.fields

theorem length_fields (header : BatchHeaderV3) : header.fields.length = 193 := by
  simp only [fields, B256.bytes, List.length_append, length_beBytes]

end BatchHeaderV3

theorem guarded_leftoverBitmap (popped : ℕ) :
    Guarded Stop.IsPanic 0 (leftoverBitmap popped)
      (fun bitmap rest => bitmap.length = (popped + 255) / 256 * 32 ∧ rest = []) List.reverse := by
  constructor
  · intro buf bitmap rest
    unfold leftoverBitmap
    constructor
    · intro h
      split at h
      · cases h
      · rename_i hlength
        cases h
        rw [List.length_reverse, List.reverse_reverse, List.append_nil]
        exact ⟨⟨not_not.1 hlength, rfl⟩, rfl⟩
    · rintro ⟨⟨hlength, rfl⟩, rfl⟩
      rw [List.append_nil, List.length_reverse, if_neg (not_not.2 hlength), List.reverse_reverse]
  · intro buf e _ hstop
    unfold leftoverBitmap at hstop
    split at hstop
    · cases hstop
      exact not_isPanic_error .eof
    · cases hstop

theorem BatchHeaderV0.tryFromBuf_spec :
    (∀ buf header rest, tryFromBuf buf = .ok (header, rest) →
      rest = [] ∧ buf = header.fields ++ header.skippedL1MessageBitmap.reverse) ∧
    Avoids Stop.IsPanic 0 tryFromBuf := by
  have h := guarded_checkBufLen (
    .field BatchHeaderV0.version (fixed_fromBeBytes 1) fun version =>
    .field BatchHeaderV0.batchIndex (fixed_fromBeBytes 8) fun batchIndex =>
    .field BatchHeaderV0.l1MessagePopped (fixed_fromBeBytes 8) fun popped =>
    .field BatchHeaderV0.totalL1MessagePopped (fixed_fromBeBytes 8) fun total =>
    .field BatchHeaderV0.dataHash fixed_b256FromSlice fun dataHash =>
    .field BatchHeaderV0.parentBatchHash fixed_b256FromSlice fun parentBatchHash =>
    .last BatchHeaderV0.skippedL1MessageBitmap (guarded_leftoverBitmap popped)
      (fun header rest hknown => by rw [← hknown.1.1.1.2]) fun bytes _ _ header => show _ ↔ header =
        ⟨version, batchIndex, popped, total, dataHash, parentBatchHash, bytes⟩ by
      obtain ⟨⟩ := header
      simp [and_assoc]) (fun header => by
        simp only [List.length_append, length_beBytes]
        omega)
  refine ⟨fun buf header rest hread => ?_, h.avoids⟩
  obtain ⟨hvalid, hbuf⟩ := (h.eq_ok buf header rest).1 hread
  refine ⟨hvalid.2.2.2.2.2.2.2, ?_⟩
  rw [hbuf, hvalid.2.2.2.2.2.2.2]
  simp only [fields, B256.bytes, List.append_assoc, List.append_nil]

theorem BatchHeaderV1.tryFromBuf_spec :
    (∀ buf header rest, tryFromBuf buf = .ok (header, rest) →
      rest = [] ∧ buf = header.fields ++ header.skippedL1MessageBitmap.reverse) ∧
    Avoids Stop.IsPanic 0 tryFromBuf := by
  have h := guarded_checkBufLen (
    .field BatchHeaderV1.version (fixed_fromBeBytes 1) fun version =>
    .field BatchHeaderV1.batchIndex (fixed_fromBeBytes 8) fun batchIndex =>
    .field BatchHeaderV1.l1MessagePopped (fixed_fromBeBytes 8) fun popped =>
    .field BatchHeaderV1.totalL1MessagePopped (fixed_fromBeBytes 8) fun total =>
    .field BatchHeaderV1.dataHash fixed_b256FromSlice fun dataHash =>
    .field BatchHeaderV1.blobVersionedHash fixed_b256FromSlice fun blobVersionedHash =>
    .field BatchHeaderV1.parentBatchHash fixed_b256FromSlice fun parentBatchHash =>
    .last BatchHeaderV1.skippedL1MessageBitmap (guarded_leftoverBitmap popped)
      (fun header rest hknown => by rw [← hknown.1.1.1.1.2]) fun bytes _ _ header => show _ ↔ header =
        ⟨version, batchIndex, popped, total, dataHash, blobVersionedHash, parentBatchHash, bytes⟩ by
      obtain ⟨⟩ := header
      simp [and_assoc]) (fun header => by
        simp only [List.length_append, length_beBytes]
        omega)
  refine ⟨fun buf header rest hread => ?_, h.avoids⟩
  obtain ⟨hvalid, hbuf⟩ := (h.eq_ok buf header rest).1 hread
  refine ⟨hvalid.2.2.2.2.2.2.2.2, ?_⟩
  rw [hbuf, hvalid.2.2.2.2.2.2.2.2]
  simp only [fields, B256.bytes, List.append_assoc, List.append_nil]

theorem BatchHeaderV3.tryFromBuf_spec :
    (∀ buf header rest, tryFromBuf buf = .ok (header, rest) → buf = header.fields ++ rest) ∧
    Avoids Stop.IsPanic 0 tryFromBuf := by
  have h := guarded_checkBufLen (
    .field BatchHeaderV3.version (fixed_fromBeBytes 1) fun version =>
    .field BatchHeaderV3.batchIndex (fixed_fromBeBytes 8) fun batchIndex =>
    .field BatchHeaderV3.l1MessagePopped (fixed_fromBeBytes 8) fun popped =>
    .field BatchHeaderV3.totalL1MessagePopped (fixed_fromBeBytes 8) fun total =>
    .field BatchHeaderV3.dataHash fixed_b256FromSlice fun dataHash =>
    .field BatchHeaderV3.blobVersionedHash fixed_b256FromSlice fun blobVersionedHash =>
    .field BatchHeaderV3.parentBatchHash fixed_b256FromSlice fun parentBatchHash =>
    .field BatchHeaderV3.lastBlockTimestamp (fixed_fromBeBytes 8) fun lastBlockTimestamp =>
    .field (fun header : BatchHeaderV3 => header.blobDataProof.1) fixed_b256FromSlice fun proofZ =>
    .field (fun header : BatchHeaderV3 => header.blobDataProof.2) fixed_b256FromSlice fun proofY =>
    guarded_pure fun header => show _ ↔ header =
        ⟨version, batchIndex, popped, total, dataHash, blobVersionedHash, parentBatchHash,
          lastBlockTimestamp, (proofZ, proofY)⟩ by
      obtain ⟨⟩ := header
      simp [and_assoc, Prod.ext_iff]) (by simp [length_beBytes])
  refine ⟨fun buf header rest hread => ?_, h.avoids⟩
  rw [((h.eq_ok buf header rest).1 hread).2]
  simp only [fields, B256.bytes, List.append_assoc, List.append_nil]

namespace BatchHeader

def bytesLength : BatchHeader → ℕ
  | .v0 _ => 89
  | .v1 _ => 121
  | .v3 _ => 193

def hashedBytes : BatchHeader → Bytes
  | .v0 header => header.fields ++ header.skippedL1MessageBitmap
  | .v1 header => header.fields ++ header.skippedL1MessageBitmap
  | .v3 header => header.fields

def hashSlow (keccak256 : Bytes → B256) : BatchHeader → B256
  | .v0 header => header.hashSlow keccak256
  | .v1 header => header.hashSlow keccak256
  | .v3 header => header.hashSlow keccak256

def ParsedFrom (buf rest : Bytes) : BatchHeader → Prop
  | .v0 header => BatchHeaderV0.tryFromBuf buf = .ok (header, rest)
  | .v1 header => BatchHeaderV1.tryFromBuf buf = .ok (header, rest)
  | .v3 header => BatchHeaderV3.tryFromBuf buf = .ok (header, rest)

theorem hashSlow_eq (keccak256 : Bytes → B256) (header : BatchHeader) :
    header.hashSlow keccak256 = keccak256 header.hashedBytes := by
  cases header with
  | v0 header => rfl
  | v1 header => rfl
  | v3 header => rfl

theorem reversed_iff {fields bitmap : Bytes} {length : ℕ} (h : fields.length = length) :
    fields ++ bitmap = fields ++ bitmap.reverse ↔
      ((fields ++ bitmap.reverse).drop length).reverse = (fields ++ bitmap.reverse).drop length := by
  rw [← h, List.drop_left, List.reverse_reverse]
  exact List.append_right_inj fields

theorem hashedBytes_eq_iff {header : BatchHeader} {consumed rest : Bytes}
    (h : header.ParsedFrom (consumed ++ rest) rest) :
    header.hashedBytes = consumed ↔
      (consumed.drop header.bytesLength).reverse = consumed.drop header.bytesLength := by
  cases header with
  | v0 header =>
    obtain ⟨rfl, hbuf⟩ := BatchHeaderV0.tryFromBuf_spec.1 _ _ _ h
    rw [List.append_nil] at hbuf
    cases hbuf
    exact reversed_iff header.length_fields
  | v1 header =>
    obtain ⟨rfl, hbuf⟩ := BatchHeaderV1.tryFromBuf_spec.1 _ _ _ h
    rw [List.append_nil] at hbuf
    cases hbuf
    exact reversed_iff header.length_fields
  | v3 header =>
    have hbuf := List.append_cancel_right (BatchHeaderV3.tryFromBuf_spec.1 _ _ _ h)
    cases hbuf
    refine iff_of_true rfl ?_
    rw [bytesLength, ← header.length_fields, List.drop_length]
    rfl

/-- The hash of a parsed header is the hash of the bytes that were consumed if and only if the
bitmap of the skipped messages reads the same backwards; that is for a hash without a collision of
the two strings. -/
theorem parsed_hashSlow_eq_iff (keccak256 : Bytes → B256) {header : BatchHeader} {consumed rest : Bytes}
    (h : header.ParsedFrom (consumed ++ rest) rest)
    (hcollision : keccak256 header.hashedBytes = keccak256 consumed →
      header.hashedBytes = consumed) :
    header.hashSlow keccak256 = keccak256 consumed ↔
      (consumed.drop header.bytesLength).reverse = consumed.drop header.bytesLength := by
  rw [← hashedBytes_eq_iff h, hashSlow_eq]
  constructor
  · exact hcollision
  · intro hsame
    rw [hsame]

def onePopped (first : UInt8) : Bytes :=
  beBytes 1 0 ++ beBytes 8 5 ++ beBytes 8 1 ++ beBytes 8 1 ++ beBytes 32 7 ++ beBytes 32 8 ++
    (first :: List.replicate 31 0)

/-- Without a skipped message the bitmap is all zero and the hashes agree. -/
theorem parsed_hashSlow_eq_iff_onePopped :
    ∃ header, ParsedFrom (onePopped 0 ++ []) [] header ∧
      header.hashSlow (fun bytes => BitVec.ofNat 256 (beValue bytes)) =
        BitVec.ofNat 256 (beValue (onePopped 0)) := by
  have hparsed : ParsedFrom (onePopped 0 ++ []) []
      (.v0 ⟨0, 5, 1, 1, 7, 8, List.replicate 32 0⟩) := by
    unfold ParsedFrom
    decide +kernel
  refine ⟨_, hparsed, (parsed_hashSlow_eq_iff (fun bytes => BitVec.ofNat 256 (beValue bytes)) hparsed
    (fun _ => ?_)).2 ?_⟩
  · decide +kernel
  · decide +kernel

/-- A bitmap whose first byte is one is hashed with its last byte one. -/
theorem hashSlow_reversed_bitmap :
    ∃ header, BatchHeaderV0.tryFromBuf (onePopped 1) = .ok (header, []) ∧
      header.skippedL1MessageBitmap = List.replicate 31 0 ++ [1] ∧
      ∀ keccak256 : Bytes → B256,
        (keccak256 (header.fields ++ header.skippedL1MessageBitmap) = keccak256 (onePopped 1) →
          header.fields ++ header.skippedL1MessageBitmap = onePopped 1) →
        header.hashSlow keccak256 ≠ keccak256 (onePopped 1) := by
  refine ⟨⟨0, 5, 1, 1, 7, 8, List.replicate 31 0 ++ [1]⟩, by decide +kernel, rfl, ?_⟩
  intro keccak256 hcollision hsame
  exact absurd (hcollision hsame) (by decide +kernel)

end BatchHeader
end RollupNode.Codec
