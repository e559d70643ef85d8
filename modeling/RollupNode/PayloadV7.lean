import RollupNode.Derivation

set_option autoImplicit false

/-! The payload of version 7: the decoder accepts what is written for its blocks, and no more. -/
namespace RollupNode.Codec
open ByteReader

theorem exact_fromBeBytes (count : ℕ) :
    Exact (fromBeBytes count) (· < 256 ^ count) (beBytes count) := exact_takeNat _ count

theorem exact_b256FromSlice :
    Exact b256FromSlice (fun _ => True) (fun hash => beBytes 32 hash.toNat) := by
  intro buf hash rest
  constructor
  · intro h
    obtain ⟨n, mid, hn, hhash⟩ := bind_eq_ok.1 h
    obtain ⟨hlt, rfl⟩ := (exact_fromBeBytes 32 _ _ _).1 hn
    cases hhash
    have hself : (BitVec.ofNat 256 n).toNat = n := by
      rw [BitVec.toNat_ofNat]
      exact Nat.mod_eq_of_lt hlt
    exact ⟨trivial, by simp only [hself]⟩
  · rintro ⟨-, rfl⟩
    have hread := (exact_fromBeBytes 32 _ _ rest).2 ⟨hash.isLt, rfl⟩
    refine bind_eq_ok.2 ⟨hash.toNat, rest, hread, ?_⟩
    rw [BitVec.ofNat_toNat, BitVec.setWidth_eq]
    rfl

variable {blob buf rest tx : Bytes} {blocks : List L2Block} {build : Build} {ext : Externals}

theorem checkBufLen_eq_ok {count : ℕ} {u : Unit} :
    checkBufLen count buf = .ok (u, rest) ↔ count ≤ buf.length ∧ rest = buf := by
  unfold checkBufLen
  constructor
  · intro h
    split at h
    · cases h
    · rename_i hlong
      cases h
      exact ⟨Nat.le_of_not_lt hlong, rfl⟩
  · rintro ⟨hlong, rfl⟩
    rw [if_neg (Nat.not_lt.2 hlong)]

theorem fixed_fromBeBytes (count : ℕ) :
    Fixed (fromBeBytes count) count (· < 256 ^ count) (beBytes count) :=
  ⟨exact_fromBeBytes count, takes_takeNat _ count⟩

theorem fixed_b256FromSlice :
    Fixed b256FromSlice 32 (fun _ => True) (fun hash => beBytes 32 hash.toNat) :=
  ⟨exact_b256FromSlice, (takes_takeNat _ 32).map _⟩

def Stop.IsPanic (stop : Stop) : Prop := ∃ message, stop = .panic message

theorem not_isPanic_error (e : DecodingError) : ¬ (Stop.error e).IsPanic := by
  rintro ⟨message, h⟩
  cases h

theorem avoids_checkBufLen_bind {α : Type} {count : ℕ} {next : Unit → Decoder α}
    (h : Avoids Stop.IsPanic count (next ())) :
    Avoids Stop.IsPanic 0 (checkBufLen count >>= next) := by
  intro buf e _ hread
  rcases bind_eq_error.1 hread with hstop | ⟨u, mid, hcheck, hstop⟩
  · rw [checkBufLen] at hstop
    split at hstop
    · cases hstop
      exact not_isPanic_error .eof
    · cases hstop
  · obtain ⟨hlong, rfl⟩ := checkBufLen_eq_ok.1 hcheck
    exact h mid e hlong hstop

/-- Behind a check of the length nothing panics. -/
theorem guarded_checkBufLen {α : Type} {count : ℕ} {reader : Decoder α} {valid : α → Bytes → Prop}
    {write : α → Bytes}
    (h : Guarded Stop.IsPanic count reader (fun a rest => valid a rest ∧ True) write)
    (hlong : ∀ a, count ≤ (write a).length) :
    Guarded Stop.IsPanic 0 (checkBufLen count >>= fun _ => reader) valid write := by
  refine ⟨?_, avoids_checkBufLen_bind h.avoids⟩
  intro buf a rest
  rw [bind_eq_ok]
  constructor
  · rintro ⟨_, _, hcheck, hread⟩
    obtain ⟨-, rfl⟩ := checkBufLen_eq_ok.1 hcheck
    obtain ⟨hvalid, hbuf⟩ := (h.eq_ok _ _ _).1 hread
    exact ⟨hvalid.1, hbuf⟩
  · rintro ⟨hvalid, rfl⟩
    refine ⟨(), _, checkBufLen_eq_ok.2 ⟨?_, rfl⟩, (h.eq_ok _ _ _).2 ⟨⟨hvalid, trivial⟩, rfl⟩⟩
    rw [List.length_append]
    exact Nat.le_add_right_of_le (hlong a)

namespace BlockContextV7

structure Fits (c : BlockContextV7) : Prop where
  timestamp : c.timestamp < 2 ^ 64
  baseFee : c.baseFee < 2 ^ 256
  gasLimit : c.gasLimit < 2 ^ 64
  numTransactions : c.numTransactions < 2 ^ 16
  numL1Messages : c.numL1Messages < 2 ^ 16

def bytes (c : BlockContextV7) : Bytes :=
  beBytes 8 c.timestamp ++ (beBytes 32 c.baseFee ++ (beBytes 8 c.gasLimit ++
    (beBytes 2 c.numTransactions ++ beBytes 2 c.numL1Messages)))

theorem guarded_tryFromBuf :
    Guarded Stop.IsPanic 0 tryFromBuf (fun c _ => c.Fits) bytes := by
  refine .congr (guarded_checkBufLen (
    .field BlockContextV7.timestamp (fixed_fromBeBytes 8) fun timestamp =>
    .field BlockContextV7.baseFee (fixed_fromBeBytes 32) fun baseFee =>
    .field BlockContextV7.gasLimit (fixed_fromBeBytes 8) fun gasLimit =>
    .field BlockContextV7.numTransactions (fixed_fromBeBytes 2) fun numTransactions =>
    .field BlockContextV7.numL1Messages (fixed_fromBeBytes 2) fun numL1Messages =>
    guarded_pure fun c => ?_) ?_) ?_ ?_
  · obtain ⟨⟩ := c
    simp [and_assoc]
  · simp [length_beBytes]
  · intro c rest
    constructor
    · rintro ⟨h₁, h₂, h₃, h₄, h₅, -⟩
      exact ⟨h₁, h₂, h₃, h₄, h₅⟩
    · rintro ⟨h₁, h₂, h₃, h₄, h₅⟩
      exact ⟨h₁, h₂, h₃, h₄, h₅, trivial⟩
  · intro c
    simp only [bytes, List.append_nil]

end BlockContextV7

def IsL2Transaction (tx : Bytes) : Prop :=
  Rlp.IsList tx ∨ ∃ type ∈ ([1, 2, 4] : Bytes), ∃ body, Rlp.IsList body ∧ tx = type :: body

theorem l2TransactionType_small {type : UInt8} (h : type ∈ ([1, 2, 4] : Bytes)) :
    type.toNat < 0x80 ∧ type ≠ l1MessageTxTypeId := by
  simp only [List.mem_cons, List.not_mem_nil, or_false] at h
  rcases h with rfl | rfl | rfl
  · decide
  · decide
  · decide

theorem IsL2Transaction.head (h : IsL2Transaction tx) : tx.head? ≠ some l1MessageTxTypeId := by
  rcases h with hlist | ⟨type, htype, body, -, rfl⟩
  · obtain ⟨byte, rest, rfl, hbyte⟩ := hlist.head
    intro hhead
    cases hhead
    revert hbyte
    decide
  · intro hhead
    exact (l2TransactionType_small htype).2 (Option.some.inj hhead)

theorem finishTransaction_take {length : ℕ} (h : length ≤ buf.length) :
    finishTransaction length buf = .ok (buf.take length, buf.drop length) := if_neg (by omega)

theorem Transaction.tryFromBuf_ok (h : Transaction.tryFromBuf buf = .ok (tx, rest)) :
    IsL2Transaction tx ∧ buf = tx ++ rest := by
  obtain ⟨_, _, hbuf, h⟩ := bind_eq_ok.1 h
  cases hbuf
  cases hheader : Rlp.decodeHeader buf with
  | none =>
    rw [hheader] at h
    cases h
  | some found =>
    obtain ⟨header, payload⟩ := found
    rw [hheader] at h
    simp only at h
    split at h
    · rename_i hlist
      obtain ⟨hle, hwhole⟩ := Rlp.decodeHeader_list hlist hheader
      rw [finishTransaction_take hle] at h
      cases h
      exact ⟨Or.inl hwhole, (List.take_append_drop _ _).symm⟩
    · cases buf with
      | nil => cases h
      | cons type body =>
        simp only at h
        split at h
        · cases h
        rename_i htype
        cases hbody : Rlp.decodeHeader body with
        | none =>
          rw [hbody] at h
          cases h
        | some found =>
          obtain ⟨header', payload'⟩ := found
          rw [hbody] at h
          simp only at h
          split at h
          · rename_i hlist
            obtain ⟨hle, hwhole⟩ := Rlp.decodeHeader_list hlist hbody
            rw [finishTransaction_take (Nat.succ_le_succ hle)] at h
            cases h
            exact ⟨Or.inr ⟨type, not_not.1 htype, _, hwhole, rfl⟩,
              (List.take_append_drop _ (type :: body)).symm⟩
          · cases h

theorem Transaction.tryFromBuf_append (h : IsL2Transaction tx) (rest : Bytes) :
    Transaction.tryFromBuf (tx ++ rest) = .ok (tx, rest) := by
  rcases h with hlist | ⟨type, htype, body, hlist, rfl⟩
  · obtain ⟨header, payload, hheader, htrue, hlength⟩ := Rlp.decodeHeader_of_isList hlist rest
    refine bind_eq_ok.2 ⟨_, _, rfl, ?_⟩
    rw [hheader]
    simp only [htrue, if_true]
    rw [finishTransaction_take (by simp [hlength]), hlength, List.take_left, List.drop_left]
  · obtain ⟨header, payload, hheader, htrue, hlength⟩ := Rlp.decodeHeader_of_isList hlist rest
    have hsmall := (l2TransactionType_small htype).1
    refine bind_eq_ok.2 ⟨_, _, rfl, ?_⟩
    rw [List.cons_append, Rlp.decodeHeader_small hsmall]
    simp only [Bool.false_eq_true, if_false, not_not.2 htype, hheader, htrue, if_true]
    rw [finishTransaction_take (by simp [hlength]), hlength, List.take_succ_cons,
      List.drop_succ_cons, List.take_left, List.drop_left]

theorem exact_transaction : Exact Transaction.tryFromBuf IsL2Transaction id := by
  intro buf tx rest
  constructor
  · intro h
    exact Transaction.tryFromBuf_ok h
  · rintro ⟨htx, rfl⟩
    exact Transaction.tryFromBuf_append htx rest

def BlockContext.toV7 (c : BlockContext) : BlockContextV7 :=
  ⟨c.timestamp, c.baseFee, c.gasLimit, c.numTransactions, c.numL1Messages⟩

structure L2Block.Complete (block : L2Block) : Prop where
  length : block.transactions.length = block.context.transactionsCount
  transactions : ∀ tx ∈ block.transactions, IsL2Transaction tx

def writtenContexts (blocks : List L2Block) : Bytes := blocks.flatMap (·.context.toV7.bytes)

def writtenTransactions (blocks : List L2Block) : Bytes := blocks.flatMap (·.transactions.flatten)

theorem writtenTransactions_cons (block : L2Block) (blocks : List L2Block) :
    writtenTransactions (block :: blocks) = block.transactions.flatten ++ writtenTransactions blocks :=
  List.flatMap_cons

theorem addU64_of_lt (build : Build) {a b : ℕ} (h : a + b < 2 ^ 64) :
    addU64 build a b = .ok (a + b) := if_pos h

theorem exact_transactions (count : ℕ) :
    Exact (times Transaction.tryFromBuf count)
      (fun txs => txs.length = count ∧ ∀ tx ∈ txs, IsL2Transaction tx) List.flatten := by
  intro buf txs rest
  rw [exact_times exact_transaction count buf txs rest]
  simp only [List.flatMap_id]

theorem readBlocksV7_written {initial index : ℕ} {contexts : List BlockContextV7}
    (h : readBlocksV7 build initial index contexts buf = .ok (blocks, rest)) :
    blocks.map (·.context.toV7) = contexts ∧ (∀ block ∈ blocks, block.Complete) ∧
      blocks.map (·.context.number) =
        (List.range' index blocks.length).map (fun i => (initial + i) % 2 ^ 64) ∧
      buf = writtenTransactions blocks ++ rest := by
  induction contexts generalizing index buf blocks with
  | nil =>
    cases h
    exact ⟨rfl, by simp, rfl, rfl⟩
  | cons context contexts ih =>
    obtain ⟨transactions, mid, htransactions, h⟩ := bind_eq_ok.1 h
    obtain ⟨number, mid', hnumber, h⟩ := bind_eq_ok.1 h
    obtain ⟨later, last, hlater, h⟩ := bind_eq_ok.1 h
    cases h
    obtain ⟨⟨hlength, hall⟩, rfl⟩ := (exact_transactions _ _ _ _).1 htransactions
    obtain ⟨hsum, rfl⟩ := lift_eq_ok.1 hnumber
    obtain ⟨hcontexts, hcomplete, hnumbers, rfl⟩ := ih hlater
    refine ⟨?_, List.forall_mem_cons.2 ⟨⟨hlength, hall⟩, hcomplete⟩, ?_, ?_⟩
    · rw [List.map_cons, hcontexts]
      rfl
    · rw [List.map_cons, List.length_cons, List.range'_succ, List.map_cons, hnumbers,
        ← addU64_ok hsum]
      rfl
    · rw [writtenTransactions_cons, List.append_assoc]

theorem readBlocksV7_of_written {initial : ℕ} (build : Build) {index : ℕ}
    (hnumbers : blocks.map (·.context.number) = List.range' (initial + index) blocks.length)
    (hlast : initial + index + blocks.length ≤ 2 ^ 64)
    (hcomplete : ∀ block ∈ blocks, block.Complete) (rest : Bytes) :
    readBlocksV7 build initial index (blocks.map (·.context.toV7))
      (writtenTransactions blocks ++ rest) = .ok (blocks, rest) := by
  induction blocks generalizing index with
  | nil => rfl
  | cons block blocks ih =>
    obtain ⟨hblock, hcomplete⟩ := List.forall_mem_cons.1 hcomplete
    rw [List.map_cons, List.length_cons, List.range'_succ, List.cons.injEq] at hnumbers
    rw [List.length_cons] at hlast
    rw [writtenTransactions_cons, List.append_assoc]
    refine bind_eq_ok.2 ⟨block.transactions, writtenTransactions blocks ++ rest,
      (exact_transactions _ _ _ _).2 ⟨⟨hblock.length, hblock.transactions⟩, rfl⟩, ?_⟩
    refine bind_eq_ok.2 ⟨block.context.number, writtenTransactions blocks ++ rest,
      lift_eq_ok.2 ⟨?_, rfl⟩, ?_⟩
    · rw [addU64_of_lt build (by omega), hnumbers.1]
    · refine bind_eq_ok.2 ⟨blocks, rest, ih ?_ (by omega) hcomplete, rfl⟩
      rw [hnumbers.2, Nat.add_assoc]

def payloadBytes (prev post : B256) (initialBlockNumber : ℕ) (blocks : List L2Block) : Bytes :=
  beBytes 32 prev.toNat ++ (beBytes 32 post.toNat ++ (beBytes 8 initialBlockNumber ++
    (beBytes 2 blocks.length ++ (writtenContexts blocks ++ writtenTransactions blocks))))

structure PayloadHead where
  prev : B256
  post : B256
  initialBlockNumber : ℕ
  contexts : List BlockContextV7

namespace PayloadHead

structure Fits (head : PayloadHead) : Prop where
  initialBlockNumber : head.initialBlockNumber < 2 ^ 64
  count : head.contexts.length < 2 ^ 16
  contexts : ∀ c ∈ head.contexts, c.Fits

def bytes (head : PayloadHead) : Bytes :=
  beBytes 32 head.prev.toNat ++ (beBytes 32 head.post.toNat ++
    (beBytes 8 head.initialBlockNumber ++ (beBytes 2 head.contexts.length ++
      head.contexts.flatMap BlockContextV7.bytes)))

def read : Decoder PayloadHead := do
  checkBufLen 74
  let prev ← b256FromSlice
  let post ← b256FromSlice
  let initialBlockNumber ← fromBeBytes 8
  let blocksCount ← fromBeBytes 2
  let contexts ← times BlockContextV7.tryFromBuf blocksCount
  return ⟨prev, post, initialBlockNumber, contexts⟩

theorem guarded_read : Guarded Stop.IsPanic 0 read (fun head _ => head.Fits) bytes := by
  have hcontexts (count : ℕ) : Guarded Stop.IsPanic 0 (times BlockContextV7.tryFromBuf count)
      (fun contexts _ => contexts.length = count ∧ ∀ c ∈ contexts, c.Fits)
      (fun contexts => contexts.flatMap BlockContextV7.bytes) :=
    ⟨exact_times BlockContextV7.guarded_tryFromBuf.eq_ok count,
      BlockContextV7.guarded_tryFromBuf.avoids.times count⟩
  refine .congr (guarded_checkBufLen (
    .field PayloadHead.prev fixed_b256FromSlice fun prev =>
    .field PayloadHead.post fixed_b256FromSlice fun post =>
    .field PayloadHead.initialBlockNumber (fixed_fromBeBytes 8) fun initialBlockNumber =>
    .field (fun head : PayloadHead => head.contexts.length) (fixed_fromBeBytes 2) fun count =>
    .last PayloadHead.contexts (hcontexts count)
      (fun head _ hknown => and_iff_right hknown.2) fun contexts _ hvalid head => ?_) ?_) ?_ ?_
  · obtain ⟨⟩ := head
    simp only [and_assoc, true_and, mk.injEq]
    refine and_congr_right fun _ => and_congr_right fun _ => and_congr_right fun _ => ?_
    refine and_iff_right_of_imp ?_
    rintro rfl
    exact hvalid.1
  · intro head
    simp only [List.length_append, length_beBytes]
    omega
  · intro head rest
    constructor
    · rintro ⟨-, -, h₁, h₂, h₃⟩
      exact ⟨h₁, h₂, h₃⟩
    · rintro ⟨h₁, h₂, h₃⟩
      exact ⟨trivial, trivial, h₁, h₂, h₃⟩
  · intro head
    rfl

end PayloadHead

theorem payloadV7_eq (build : Build) : payloadV7 build = (do
    let head ← PayloadHead.read
    let blocks ← readBlocksV7 build head.initialBlockNumber 0 head.contexts
    return ⟨blocks, .hashed head.prev head.post, none⟩) := by
  simp only [payloadV7, PayloadHead.read, bind_assoc, pure_bind]

theorem payloadBytes_eq (prev post : B256) (initial : ℕ) (blocks : List L2Block) :
    payloadBytes prev post initial blocks =
      PayloadHead.bytes ⟨prev, post, initial, blocks.map (·.context.toV7)⟩ ++
        writtenTransactions blocks := by
  have hflat : writtenContexts blocks =
      (blocks.map (·.context.toV7)).flatMap BlockContextV7.bytes := by
    rw [List.flatMap_map]
    rfl
  simp only [payloadBytes, PayloadHead.bytes, List.length_map, hflat, List.append_assoc]

theorem payloadV7_written {data : PayloadData} (h : payloadV7 build blob = .ok (data, rest)) :
    ∃ prev post initial, data.l1MessageQueueInfo = .hashed prev post ∧
      data.skippedL1MessageBitmap = none ∧ initial < 2 ^ 64 ∧ data.blocks.length < 2 ^ 16 ∧
      data.blocks.map (·.context.number) =
        (List.range data.blocks.length).map (fun i => (initial + i) % 2 ^ 64) ∧
      (∀ block ∈ data.blocks, block.context.toV7.Fits ∧ block.Complete) ∧
      blob = payloadBytes prev post initial data.blocks ++ rest := by
  rw [payloadV7_eq] at h
  obtain ⟨⟨prev, post, initial, contexts⟩, _, hfits, hbuf, h⟩ :=
    Exact.bind_ok PayloadHead.guarded_read.eq_ok h
  obtain ⟨blocks, _, hread, h⟩ := bind_eq_ok.1 h
  obtain ⟨rfl, hcomplete, hnumbers, hbuf'⟩ := readBlocksV7_written hread
  cases h
  have hcount : (blocks.map (·.context.toV7)).length < 2 ^ 16 := hfits.count
  rw [List.length_map] at hcount
  refine ⟨prev, post, initial, rfl, rfl, hfits.initialBlockNumber, hcount, ?_, ?_, ?_⟩
  · rw [List.range_eq_range']
    exact hnumbers
  · intro block hblock
    exact ⟨hfits.contexts _ (List.mem_map_of_mem hblock), hcomplete block hblock⟩
  · rw [hbuf, hbuf', payloadBytes_eq, List.append_assoc]

structure WellFormed (initialBlockNumber : ℕ) (blocks : List L2Block) : Prop where
  count : blocks.length < 2 ^ 16
  initial : initialBlockNumber < 2 ^ 64
  last : initialBlockNumber + blocks.length ≤ 2 ^ 64
  numbers : blocks.map (·.context.number) = List.range' initialBlockNumber blocks.length
  fits : ∀ block ∈ blocks, block.context.toV7.Fits
  complete : ∀ block ∈ blocks, block.Complete

theorem payloadV7_of_wellFormed {initial : ℕ} (build : Build) (prev post : B256)
    (h : WellFormed initial blocks) (rest : Bytes) :
    payloadV7 build (payloadBytes prev post initial blocks ++ rest) =
      .ok (⟨blocks, .hashed prev post, none⟩, rest) := by
  have hfits : PayloadHead.Fits ⟨prev, post, initial, blocks.map (·.context.toV7)⟩ := by
    refine ⟨h.initial, ?_, ?_⟩
    · rw [List.length_map]
      exact h.count
    · intro c hc
      obtain ⟨block, hblock, rfl⟩ := List.mem_map.1 hc
      exact h.fits block hblock
  rw [payloadV7_eq, payloadBytes_eq, List.append_assoc]
  refine bind_eq_ok.2 ⟨_, _, (PayloadHead.guarded_read.eq_ok _ _ _).2 ⟨hfits, rfl⟩, ?_⟩
  refine bind_eq_ok.2 ⟨blocks, rest, ?_, rfl⟩
  exact readBlocksV7_of_written build h.numbers h.last h.complete rest

theorem decodeV7Payload_eq_ok {data : PayloadData} :
    decodeV7Payload build blob = .ok data ↔ ∃ rest, payloadV7 build blob = .ok (data, rest) := by
  unfold decodeV7Payload
  cases hread : payloadV7 build blob with
  | error e => simp [Except.map]
  | ok result =>
    obtain ⟨read, rest⟩ := result
    simp [Except.map]

def dataBytes (blob : Bytes) : Bytes :=
  (blob.zipIdx.filter (fun entry => entry.2 % 32 ≠ 0)).map Prod.fst

theorem blobSlice_eq (blob : Bytes) : blobSlice blob = dataBytes blob := by
  have hfrom : ∀ count, blobSliceFrom count blob =
      ((blob.zipIdx count).filter (fun entry => entry.2 % 32 ≠ 0)).map Prod.fst := by
    induction blob with
    | nil => intro count; rfl
    | cons byte blob ih =>
      intro count
      rw [blobSliceFrom, List.zipIdx_cons, ih]
      by_cases hcount : count % 32 = 0 <;> simp [hcount]
  exact hfrom 0

theorem debugAssert_eq_ok {condition : Bool} {message : String} {u : Unit} :
    debugAssert build condition message = .ok u ↔
      (build.debugAssertions = true → condition = true) := by
  unfold debugAssert
  cases build.debugAssertions <;> cases condition <;> simp

structure Envelope where
  version : UInt8
  size : Bytes
  isCompressed : UInt8
  body : Bytes
  rest : Bytes
  size_length : size.length = 3
  size_eq : beValue size = body.length

def Envelope.bytes (e : Envelope) : Bytes :=
  e.version :: (e.size ++ e.isCompressed :: (e.body ++ e.rest))

def Envelope.payload (ext : Externals) (e : Envelope) : Bytes :=
  if e.isCompressed = 1 then ext.decompressBlobData e.body else e.body

def Envelope.Checked (build : Build) (e : Envelope) : Prop :=
  build.debugAssertions = true →
    (e.version = 7 ∨ e.version = 8 ∨ e.version = 9 ∨ e.version = 10) ∧
      (e.isCompressed = 1 ∨ e.isCompressed = 0)

theorem beBytes_one (value : ℕ) : beBytes 1 value = [UInt8.ofNat value] := by
  simp [beBytes]

theorem drop_envelope {size : Bytes} (hsize : size.length = 3) (version isCompressed : UInt8)
    (tail : Bytes) : (version :: (size ++ isCompressed :: tail)).drop 5 = tail := by
  rw [List.drop_succ_cons, show 4 = size.length + 1 by omega, List.drop_length_add_append]
  rfl

theorem envelopePayload_eq_ok {heapBlob body : Bytes} {size : ℕ} :
    envelopePayload heapBlob size = .ok body ↔
      size + 5 ≤ heapBlob.length ∧ body = (heapBlob.drop 5).take size := by
  unfold envelopePayload
  constructor
  · intro h
    split at h
    · cases h
    · rename_i hlong
      cases h
      exact ⟨Nat.le_of_not_lt hlong, rfl⟩
  · rintro ⟨hlong, rfl⟩
    rw [if_neg (Nat.not_lt.2 hlong)]

def envelopeV7 (ext : Externals) (build : Build) (blob : Bytes) : Except Stop (ℕ × Bytes) := do
  let heapBlob := blobSlice blob
  let (_, buf) ← checkBufLen 5 heapBlob
  let (version, buf) ← fromBeBytes 1 buf
  debugAssert build (version = 7 ∨ version = 8 ∨ version = 9 ∨ version = 10)
    "incorrect blob version"
  let (blobPayloadSize, buf) ← fromBeBytes 3 buf
  let (isCompressed, _) ← fromBeBytes 1 buf
  debugAssert build (isCompressed = 1 ∨ isCompressed = 0) "incorrect compressed byte flag"
  let body ← envelopePayload heapBlob blobPayloadSize
  return (version, if isCompressed = 1 then ext.decompressBlobData body else body)

theorem decodeV7_eq (ext : Externals) (build : Build) (blob : Bytes) :
    decodeV7 ext build blob = (do
      let (version, payload) ← envelopeV7 ext build blob
      let data ← decodeV7Payload build payload
      return ⟨version, none, data⟩) := by
  simp only [decodeV7, envelopeV7, bind_assoc, pure_bind]

theorem envelopeV7_of_heap {size tail : Bytes} {version isCompressed : UInt8}
    (hsize : size.length = 3) (hheap : blobSlice blob = version :: (size ++ isCompressed :: tail)) :
    envelopeV7 ext build blob = (do
      debugAssert build (version.toNat = 7 ∨ version.toNat = 8 ∨ version.toNat = 9 ∨
        version.toNat = 10) "incorrect blob version"
      debugAssert build (isCompressed.toNat = 1 ∨ isCompressed.toNat = 0)
        "incorrect compressed byte flag"
      let body ← envelopePayload (blobSlice blob) (beValue size)
      return (version.toNat,
        if isCompressed.toNat = 1 then ext.decompressBlobData body else body)) := by
  have hself : ∀ byte : UInt8, beBytes 1 byte.toNat = [byte] := by
    intro byte
    rw [beBytes_one, UInt8.ofNat_toNat]
  have hcheck : checkBufLen 5 (blobSlice blob) = .ok ((), blobSlice blob) := by
    refine checkBufLen_eq_ok.2 ⟨?_, rfl⟩
    simp only [hheap, List.length_cons, List.length_append, hsize]
    omega
  have hversion : fromBeBytes 1 (blobSlice blob) =
      .ok (version.toNat, size ++ isCompressed :: tail) :=
    (exact_fromBeBytes 1 _ _ _).2 ⟨version.toNat_lt, by rw [hself, hheap]; rfl⟩
  have hlength : fromBeBytes 3 (size ++ isCompressed :: tail) =
      .ok (beValue size, isCompressed :: tail) := by
    refine (exact_fromBeBytes 3 _ _ _).2 ⟨?_, ?_⟩
    · rw [← hsize]
      exact beValue_lt size
    · rw [← hsize, beBytes_beValue]
  have hflag : fromBeBytes 1 (isCompressed :: tail) = .ok (isCompressed.toNat, tail) :=
    (exact_fromBeBytes 1 _ _ _).2 ⟨isCompressed.toNat_lt, by rw [hself]; rfl⟩
  simp only [envelopeV7, hcheck, hversion, hlength, hflag, bind, Except.bind]

theorem envelopeV7_of_short (h : (blobSlice blob).length < 5) :
    envelopeV7 ext build blob = .error (.error .eof) := by
  have hcheck : checkBufLen 5 (blobSlice blob) = .error (.error .eof) := if_pos h
  simp only [envelopeV7, hcheck, bind, Except.bind]

theorem exists_envelope {heap : Bytes} (h : 5 ≤ heap.length) :
    ∃ (version isCompressed : UInt8) (size tail : Bytes), size.length = 3 ∧
      heap = version :: (size ++ isCompressed :: tail) := by
  match heap, h with
  | version :: a :: b :: c :: isCompressed :: tail, _ =>
    exact ⟨version, isCompressed, [a, b, c], tail, rfl, rfl⟩

/-- The envelopes that are opened are the written ones that pass the checks of the build. -/
theorem envelopeV7_eq_ok {payload : Bytes} {version : ℕ} :
    envelopeV7 ext build blob = .ok (version, payload) ↔ ∃ e : Envelope,
      dataBytes blob = e.bytes ∧ e.Checked build ∧ version = e.version.toNat ∧
        payload = e.payload ext := by
  rw [← blobSlice_eq]
  constructor
  · intro h
    by_cases hshort : (blobSlice blob).length < 5
    · rw [envelopeV7_of_short hshort] at h
      cases h
    obtain ⟨first, flag, size, tail, hsize, hheap⟩ := exists_envelope (Nat.le_of_not_lt hshort)
    rw [envelopeV7_of_heap hsize hheap] at h
    obtain ⟨_, hversions, h⟩ := ExceptTraversal.bind_eq_ok.1 h
    obtain ⟨_, hflags, h⟩ := ExceptTraversal.bind_eq_ok.1 h
    obtain ⟨body, hbody, h⟩ := ExceptTraversal.bind_eq_ok.1 h
    cases h
    obtain ⟨hlong, rfl⟩ := envelopePayload_eq_ok.1 hbody
    have htail : beValue size ≤ tail.length := by
      simp only [hheap, List.length_cons, List.length_append, hsize] at hlong
      omega
    refine ⟨⟨first, size, flag, tail.take (beValue size), tail.drop (beValue size), hsize, ?_⟩,
      ?_, ?_, rfl, ?_⟩
    · rw [List.length_take_of_le htail]
    · rw [hheap, Envelope.bytes, List.take_append_drop]
    · intro hdebug
      have hversions := of_decide_eq_true (debugAssert_eq_ok.1 hversions hdebug)
      have hflags := of_decide_eq_true (debugAssert_eq_ok.1 hflags hdebug)
      simp only [← UInt8.toNat_inj]
      exact ⟨hversions, hflags⟩
    · rw [hheap, drop_envelope hsize, Envelope.payload]
      simp only [← UInt8.toNat_inj]
      rfl
  · rintro ⟨e, hheap, hchecked, rfl, rfl⟩
    have hbody : envelopePayload (blobSlice blob) (beValue e.size) = .ok e.body := by
      refine envelopePayload_eq_ok.2 ⟨?_, ?_⟩
      · simp only [hheap, Envelope.bytes, List.length_cons, List.length_append, e.size_length,
          e.size_eq]
        omega
      · rw [hheap, Envelope.bytes, drop_envelope e.size_length, e.size_eq, List.take_left]
    rw [envelopeV7_of_heap e.size_length hheap]
    refine ExceptTraversal.bind_eq_ok.2 ⟨(), debugAssert_eq_ok.2 ?_, ?_⟩
    · intro hdebug
      have hversions := (hchecked hdebug).1
      simp only [← UInt8.toNat_inj] at hversions
      exact decide_eq_true hversions
    refine ExceptTraversal.bind_eq_ok.2 ⟨(), debugAssert_eq_ok.2 ?_, ?_⟩
    · intro hdebug
      have hflags := (hchecked hdebug).2
      simp only [← UInt8.toNat_inj] at hflags
      exact decide_eq_true hflags
    refine ExceptTraversal.bind_eq_ok.2 ⟨e.body, hbody, ?_⟩
    simp only [Envelope.payload, ← UInt8.toNat_inj]
    rfl

theorem range_of_no_overflow {initial count : ℕ} (h : initial + count ≤ 2 ^ 64) :
    (List.range count).map (fun i => (initial + i) % 2 ^ 64) = List.range' initial count := by
  rw [List.range'_eq_map_range]
  refine List.map_congr_left ?_
  intro i hi
  have hlt := List.mem_range.1 hi
  exact Nat.mod_eq_of_lt (by omega)

theorem ensure_of_complete {block : L2Block} (h : block.Complete) :
    ensureBatchContainsOnlyL2Transactions block.transactions = .ok () := by
  refine if_neg ?_
  rw [List.any_eq_true]
  rintro ⟨tx, htx, hhead⟩
  exact (h.transactions tx htx).head (of_decide_eq_true hhead)

/-- Decoding a payload gives the blocks that it was written for, whatever follows them; a blob
holds such a payload in its envelope. -/
theorem decodeV7_exact (ext : Externals) (build : Build) :
    (∀ blob data, decodeV7Payload build blob = .ok data → ∃ prev post initial,
      data.l1MessageQueueInfo = .hashed prev post ∧ data.skippedL1MessageBitmap = none ∧
      payloadBytes prev post initial data.blocks <+: blob ∧
      (initial + data.blocks.length ≤ 2 ^ 64 → WellFormed initial data.blocks) ∧
      ∀ block ∈ data.blocks,
        block.transactions.length =
          block.context.numTransactions - block.context.numL1Messages ∧
        (∀ tx ∈ block.transactions, IsL2Transaction tx) ∧
        ensureBatchContainsOnlyL2Transactions block.transactions = .ok ()) ∧
    (∀ prev post initial blocks blob, WellFormed initial blocks →
      payloadBytes prev post initial blocks <+: blob →
      decodeV7Payload build blob = .ok ⟨blocks, .hashed prev post, none⟩) ∧
    ∀ blob batch, decodeV7 ext build blob = .ok batch ↔ ∃ e : Envelope,
      dataBytes blob = e.bytes ∧ e.Checked build ∧
        ∃ data, decodeV7Payload build (e.payload ext) = .ok data ∧
          batch = ⟨e.version.toNat, none, data⟩ := by
  refine ⟨?_, ?_, ?_⟩
  · intro blob data h
    obtain ⟨rest, hread⟩ := decodeV7Payload_eq_ok.1 h
    obtain ⟨prev, post, initial, hqueue, hbitmap, hinitial, hcount, hnumbers, hblocks, rfl⟩ :=
      payloadV7_written hread
    refine ⟨prev, post, initial, hqueue, hbitmap, List.prefix_append _ _, ?_, ?_⟩
    · intro hlast
      refine ⟨hcount, hinitial, hlast, ?_, fun b hb => (hblocks b hb).1,
        fun b hb => (hblocks b hb).2⟩
      rw [hnumbers, range_of_no_overflow hlast]
    · intro block hblock
      have hcomplete := (hblocks block hblock).2
      exact ⟨hcomplete.length, hcomplete.transactions, ensure_of_complete hcomplete⟩
  · rintro prev post initial blocks blob hwell ⟨rest, rfl⟩
    exact decodeV7Payload_eq_ok.2 ⟨rest, payloadV7_of_wellFormed build prev post hwell rest⟩
  · intro blob batch
    rw [decodeV7_eq]
    constructor
    · intro h
      obtain ⟨⟨version, payload⟩, henvelope, h⟩ := ExceptTraversal.bind_eq_ok.1 h
      obtain ⟨data, hdata, h⟩ := ExceptTraversal.bind_eq_ok.1 h
      cases h
      obtain ⟨e, hbytes, hchecked, rfl, rfl⟩ := envelopeV7_eq_ok.1 henvelope
      exact ⟨e, hbytes, hchecked, data, hdata, rfl⟩
    · rintro ⟨e, hbytes, hchecked, data, hdata, rfl⟩
      refine ExceptTraversal.bind_eq_ok.2 ⟨(e.version.toNat, e.payload ext),
        envelopeV7_eq_ok.2 ⟨e, hbytes, hchecked, rfl, rfl⟩, ?_⟩
      exact ExceptTraversal.bind_eq_ok.2 ⟨data, hdata, rfl⟩

def writtenBlock : L2Block := ⟨[[0xc0], [0x02, 0xc0]], ⟨5, 10, 1, 30, 3, 1⟩⟩

theorem decodeV7_exact_writtenBlock :
    WellFormed 5 [writtenBlock] ∧
      decodeV7Payload ⟨true⟩ (payloadBytes 1 2 5 [writtenBlock] ++ [0]) =
        .ok ⟨[writtenBlock], .hashed 1 2, none⟩ := by
  have hlist : Rlp.IsList [0xc0] := ⟨[], by decide, rfl⟩
  have hcomplete : writtenBlock.Complete := by
    refine ⟨rfl, ?_⟩
    intro tx htx
    rcases List.mem_cons.1 htx with rfl | htx
    · exact Or.inl hlist
    · rw [List.mem_singleton.1 htx]
      exact Or.inr ⟨0x02, by decide, [0xc0], hlist, rfl⟩
  have hfits : writtenBlock.context.toV7.Fits := by constructor <;> decide
  have hwell : WellFormed 5 [writtenBlock] :=
    ⟨by decide, by decide, by decide, rfl, List.forall_mem_singleton.2 hfits,
      List.forall_mem_singleton.2 hcomplete⟩
  exact ⟨hwell, (decodeV7_exact ⟨fun _ => none, id⟩ ⟨true⟩).2.1 1 2 5 [writtenBlock] _ hwell
    (List.prefix_append _ _)⟩

end RollupNode.Codec
