import RollupNode.Primitives
import RollupNode.LruCache
import RollupNode.Rlp

set_option autoImplicit false

/-! Signed blocks from the two wire protocols. The hash function and the recovery of a signer are
parameters. -/
namespace RollupNode.SignedBlocks
open ByteReader LruCache Rlp

structure Header where
  parentHash : B256
  ommersHash : B256
  beneficiary : BitVec 160
  stateRoot : B256
  transactionsRoot : B256
  receiptsRoot : B256
  logsBloom : BitVec 2048
  difficulty : BitVec 256
  number : BitVec 64
  gasLimit : BitVec 64
  gasUsed : BitVec 64
  timestamp : BitVec 64
  extraData : Bytes
  mixHash : B256
  nonce : BitVec 64
  baseFeePerGas : Option (BitVec 64)
  withdrawalsRoot : Option B256
  blobGasUsed : Option (BitVec 64)
  excessBlobGas : Option (BitVec 64)
  parentBeaconBlockRoot : Option B256
  requestsHash : Option B256
  extraData_length : extraData.length < 2 ^ 63

def fixedItem {w : ℕ} (value : BitVec w) : Bytes := beBytes (w / 8) value.toNat

def numberItem {w : ℕ} (value : BitVec w) : Bytes := trimmedBytes value.toNat

namespace Header

def upToTimestamp (header : Header) : List Bytes :=
  [fixedItem header.parentHash, fixedItem header.ommersHash, fixedItem header.beneficiary,
    fixedItem header.stateRoot, fixedItem header.transactionsRoot, fixedItem header.receiptsRoot,
    fixedItem header.logsBloom, numberItem header.difficulty, numberItem header.number,
    numberItem header.gasLimit, numberItem header.gasUsed, numberItem header.timestamp]

def mixHashAndNonce (header : Header) : List Bytes :=
  [fixedItem header.mixHash, fixedItem header.nonce]

def baseFee (header : Header) : List Bytes := (header.baseFeePerGas.map numberItem).toList

def laterForkFields (header : Header) : List Bytes :=
  (header.withdrawalsRoot.map fixedItem).toList ++ (header.blobGasUsed.map numberItem).toList ++
    (header.excessBlobGas.map numberItem).toList ++
    (header.parentBeaconBlockRoot.map fixedItem).toList ++
    (header.requestsHash.map fixedItem).toList

/-- `sig_encode_hash` before hashing: no extra data and nothing behind the base fee. -/
def sigItems (header : Header) : List Bytes :=
  header.upToTimestamp ++ header.mixHashAndNonce ++ header.baseFee

def items (header : Header) : List Bytes :=
  header.upToTimestamp ++ [header.extraData] ++ header.mixHashAndNonce ++ header.baseFee ++
    header.laterForkFields

end Header

/-- The hash function and the signature scheme. Different inputs have different hashes, and with one
signature a signer is recovered for one message only. -/
structure Crypto (Digest Address Signature : Type) where
  keccak256 : Bytes → Digest
  keccak256_injective : Function.Injective keccak256
  recoverSigner : Signature → Digest → Except String Address
  one_message : ∀ signature digest digest' signer, recoverSigner signature digest = .ok signer →
    recoverSigner signature digest' = .ok signer → digest = digest'
  fromRaw : Bytes → Option Signature

inductive ConsensusError (Address : Type) where
  | signature (message : String)
  | incorrectSigner (got expected : Address)

structure SystemContractConsensus (Address : Type) where
  authorizedSigner : Address

abbrev PeerId := ℕ
def lruCacheSize : ℕ := 100
def ecdsaSignatureLen : ℕ := 65

structure NewBlockWithPeer (Signature : Type) where
  peerId : PeerId
  block : Header
  signature : Signature

/-- The blocks seen, from each peer and at all, and the peers that lost reputation. -/
structure ScrollNetworkManager (Digest Signature : Type) where
  peerState : PeerId → Option (Cache Digest Unit lruCacheSize)
  blocksSeen : Cache (Digest × Signature) Unit lruCacheSize
  penalized : List PeerId

/-- A block as it comes in, over scroll-wire with its signature or over eth-wire with the signature
in its extra data. -/
inductive Arrival (Signature : Type) where
  | scrollWire (peerId : PeerId) (block : Header) (signature : Signature)
  | ethWire (peerId : PeerId) (block : Header)

section
variable {Digest Address Signature : Type}

def Header.sigEncodeHash (crypto : Crypto Digest Address Signature) (header : Header) : Digest :=
  crypto.keccak256 (encodeList header.sigItems)

def Header.hashSlow (crypto : Crypto Digest Address Signature) (header : Header) : Digest :=
  crypto.keccak256 (encodeList header.items)

def SystemContractConsensus.validateNewBlock [DecidableEq Address]
    (crypto : Crypto Digest Address Signature) (consensus : SystemContractConsensus Address)
    (block : Header) (signature : Signature) : Except (ConsensusError Address) Unit :=
  match crypto.recoverSigner signature (block.sigEncodeHash crypto) with
  | .error message => .error (.signature message)
  | .ok signer =>
    if consensus.authorizedSigner ≠ signer then
      .error (.incorrectSigner signer consensus.authorizedSigner)
    else .ok ()

namespace ScrollNetworkManager
variable [DecidableEq Digest] [DecidableEq Signature]

def markBlockSeen (manager : ScrollNetworkManager Digest Signature) (peerId : PeerId)
    (blockHash : Digest) : ScrollNetworkManager Digest Signature × Bool :=
  let state := (manager.peerState peerId).getD .empty
  let seen := state.contains blockHash
  let state := if seen then state else state.put blockHash ()
  ({ manager with peerState := fun p => if p = peerId then some state else manager.peerState p },
    seen)

def penalize (manager : ScrollNetworkManager Digest Signature) (peerId : PeerId) :
    ScrollNetworkManager Digest Signature :=
  { manager with penalized := peerId :: manager.penalized }

/-- A block passes on once with each signature, and once from each peer. -/
def passOn (crypto : Crypto Digest Address Signature)
    (manager : ScrollNetworkManager Digest Signature) (peerId : PeerId) (block : Header)
    (signature : Signature) :
    ScrollNetworkManager Digest Signature × Option (NewBlockWithPeer Signature) :=
  let blockHash := block.hashSlow crypto
  let (manager, seen) := manager.markBlockSeen peerId blockHash
  if seen then (manager.penalize peerId, none)
  else if manager.blocksSeen.contains (blockHash, signature) then (manager, none)
  else
    ({ manager with blocksSeen := manager.blocksSeen.put (blockHash, signature) () },
      some ⟨peerId, block, signature⟩)

def onScrollWireEvent (crypto : Crypto Digest Address Signature)
    (manager : ScrollNetworkManager Digest Signature) (peerId : PeerId) (block : Header)
    (signature : Signature) :
    ScrollNetworkManager Digest Signature × Option (NewBlockWithPeer Signature) :=
  manager.passOn crypto peerId block signature

/-- The signature is at the end of the extra data, which is then cleared. -/
def handleEthWireBlock (crypto : Crypto Digest Address Signature)
    (manager : ScrollNetworkManager Digest Signature) (peerId : PeerId) (block : Header) :
    ScrollNetworkManager Digest Signature × Option (NewBlockWithPeer Signature) :=
  let extraData := block.extraData
  let block := { block with extraData := [], extraData_length := Nat.two_pow_pos 63 }
  let signature :=
    if ecdsaSignatureLen ≤ extraData.length then
      crypto.fromRaw (extraData.drop (extraData.length - ecdsaSignatureLen))
    else none
  match signature with
  | some signature => manager.passOn crypto peerId block signature
  | none => (manager.penalize peerId, none)

def onArrival (crypto : Crypto Digest Address Signature)
    (manager : ScrollNetworkManager Digest Signature) :
    Arrival Signature →
      ScrollNetworkManager Digest Signature × Option (NewBlockWithPeer Signature)
  | .scrollWire peerId block signature => manager.onScrollWireEvent crypto peerId block signature
  | .ethWire peerId block => manager.handleEthWireBlock crypto peerId block

end ScrollNetworkManager

/-- What a block that passes the consensus checks is known by: the key its signature is stored
under, and the number and hash for the fork choice and the import. -/
structure AcceptedBlock (Digest : Type) where
  signatureKey : Digest
  receivedBlockNumber : BitVec 64
  receivedBlockHash : Digest

/-- `handle_block_from_peer` from the consensus checks to the hashes that all else uses. -/
def acceptPeerBlock [DecidableEq Address] (crypto : Crypto Digest Address Signature)
    (consensus : SystemContractConsensus Address) (received : NewBlockWithPeer Signature) :
    Except (ConsensusError Address) (AcceptedBlock Digest) := do
  consensus.validateNewBlock crypto received.block received.signature
  return {
    signatureKey := received.block.hashSlow crypto
    receivedBlockNumber := received.block.number
    receivedBlockHash := received.block.hashSlow crypto }

theorem length_fixedItem {w : ℕ} (value : BitVec w) : (fixedItem value).length = w / 8 :=
  length_beBytes _ _

theorem length_numberItem_le {w : ℕ} (value : BitVec w) : (numberItem value).length ≤ w := by
  rw [numberItem, length_trimmedBytes]
  refine byteLength_le ?_
  calc value.toNat < 2 ^ w := value.isLt
    _ ≤ 256 ^ w := Nat.pow_le_pow_left (by decide) w

theorem numberItem_inj {w : ℕ} {value value' : BitVec w} (h : numberItem value = numberItem value') :
    value = value' := by
  have hvalue := congrArg beValue h
  rw [numberItem, numberItem, beValue_trimmedBytes, beValue_trimmedBytes] at hvalue
  exact BitVec.eq_of_toNat_eq hvalue

namespace Header

theorem length_upToTimestamp (header : Header) :
    header.upToTimestamp.length = 12 ∧ ∀ item ∈ header.upToTimestamp, item.length ≤ 256 := by
  refine ⟨rfl, ?_⟩
  have hdifficulty := length_numberItem_le header.difficulty
  have hnumber := length_numberItem_le header.number
  have hgasLimit := length_numberItem_le header.gasLimit
  have hgasUsed := length_numberItem_le header.gasUsed
  have htimestamp := length_numberItem_le header.timestamp
  simp only [upToTimestamp, List.forall_mem_cons, length_fixedItem]
  refine ⟨by decide, by decide, by decide, by decide, by decide, by decide, by decide, hdifficulty,
    by omega, by omega, by omega, by omega, ?_⟩
  intro item hitem
  cases hitem

theorem length_behindExtraData (header : Header) :
    (header.mixHashAndNonce ++ header.baseFee ++ header.laterForkFields).length ≤ 8 ∧
      ∀ item ∈ header.mixHashAndNonce ++ header.baseFee ++ header.laterForkFields,
        item.length ≤ 256 := by
  have hnumber : ∀ value : Option (BitVec 64), (value.map numberItem).toList.length ≤ 1 ∧
      ∀ item ∈ (value.map numberItem).toList, item.length ≤ 256 := by
    intro value
    cases value with
    | none => exact ⟨Nat.zero_le 1, fun item hitem => by cases hitem⟩
    | some value =>
      refine ⟨Nat.le_refl 1, ?_⟩
      intro item hitem
      rw [List.mem_singleton.1 hitem]
      exact (length_numberItem_le value).trans (by decide)
  have hfixed : ∀ value : Option B256, (value.map fixedItem).toList.length ≤ 1 ∧
      ∀ item ∈ (value.map fixedItem).toList, item.length ≤ 256 := by
    intro value
    cases value with
    | none => exact ⟨Nat.zero_le 1, fun item hitem => by cases hitem⟩
    | some value =>
      refine ⟨Nat.le_refl 1, ?_⟩
      intro item hitem
      rw [List.mem_singleton.1 hitem, length_fixedItem]
      decide
  constructor
  · have hbaseFee := (hnumber header.baseFeePerGas).1
    have hwithdrawals := (hfixed header.withdrawalsRoot).1
    have hblob := (hnumber header.blobGasUsed).1
    have hexcess := (hnumber header.excessBlobGas).1
    have hbeacon := (hfixed header.parentBeaconBlockRoot).1
    have hrequests := (hfixed header.requestsHash).1
    simp only [List.length_append, mixHashAndNonce, baseFee, laterForkFields, List.length_cons,
      List.length_nil]
    omega
  · intro item hitem
    simp only [mixHashAndNonce, baseFee, laterForkFields, List.mem_append] at hitem
    rcases hitem with (hitem | hitem) | ((((hitem | hitem) | hitem) | hitem) | hitem)
    · simp only [List.mem_cons, List.not_mem_nil, or_false] at hitem
      rcases hitem with rfl | rfl
      · rw [length_fixedItem]
        decide
      · rw [length_fixedItem]
        decide
    · exact (hnumber _).2 item hitem
    · exact (hfixed _).2 item hitem
    · exact (hnumber _).2 item hitem
    · exact (hnumber _).2 item hitem
    · exact (hfixed _).2 item hitem
    · exact (hfixed _).2 item hitem

theorem length_encodeStrings_items (header : Header) :
    (encodeStrings header.items).length < 2 ^ 64 := by
  obtain ⟨hcount, hsmall⟩ := header.length_upToTimestamp
  obtain ⟨hcount', hsmall'⟩ := header.length_behindExtraData
  have hfront := length_encodeStrings_le (by decide) hsmall
  have hback := length_encodeStrings_le (by decide) hsmall'
  have hextra := length_encodeString_le (header.extraData_length.trans (by decide))
  have hlength := header.extraData_length
  have hsplit : encodeStrings header.items = encodeStrings header.upToTimestamp ++
      (encodeString header.extraData ++ encodeStrings
        (header.mixHashAndNonce ++ header.baseFee ++ header.laterForkFields)) := by
    simp [encodeStrings, items]
  rw [hcount] at hfront
  rw [hsplit, List.length_append, List.length_append]
  omega

theorem length_encodeStrings_sigItems (header : Header) :
    (encodeStrings header.sigItems).length < 2 ^ 64 := by
  have hsub : (encodeStrings header.sigItems).length ≤ (encodeStrings header.items).length := by
    simp only [encodeStrings, sigItems, items, List.flatMap_append, List.length_append]
    omega
  exact Nat.lt_of_le_of_lt hsub header.length_encodeStrings_items

theorem covered_of_sigItems {header header' : Header} (h : header.sigItems = header'.sigItems) :
    header.upToTimestamp = header'.upToTimestamp ∧
      header.mixHashAndNonce = header'.mixHashAndNonce ∧ header.baseFee = header'.baseFee := by
  obtain ⟨hfront, hbaseFee⟩ := List.append_inj h rfl
  obtain ⟨hup, hmix⟩ := List.append_inj hfront rfl
  exact ⟨hup, hmix, hbaseFee⟩

theorem number_of_upToTimestamp {header header' : Header}
    (h : header.upToTimestamp = header'.upToTimestamp) :
    header.number = header'.number := by
  simp only [upToTimestamp, List.cons.injEq] at h
  obtain ⟨-, -, -, -, -, -, -, -, hnumber, -⟩ := h
  exact numberItem_inj hnumber

theorem hashSlow_eq_iff {header header' : Header} (crypto : Crypto Digest Address Signature)
    (h : header.sigEncodeHash crypto = header'.sigEncodeHash crypto) :
    header.hashSlow crypto = header'.hashSlow crypto ↔
      header.extraData = header'.extraData ∧ header.laterForkFields = header'.laterForkFields := by
  have hsig : header.sigItems = header'.sigItems :=
    encodeList_inj header.length_encodeStrings_sigItems header'.length_encodeStrings_sigItems
      (crypto.keccak256_injective h)
  obtain ⟨hup, hmix, hbaseFee⟩ := covered_of_sigItems hsig
  constructor
  · intro hhash
    have hitems : header.items = header'.items :=
      encodeList_inj header.length_encodeStrings_items header'.length_encodeStrings_items
        (crypto.keccak256_injective hhash)
    rw [items, items, hup, hmix, hbaseFee, List.append_assoc, List.append_assoc, List.append_assoc,
      List.append_assoc, List.append_assoc, List.append_assoc] at hitems
    have hbehind := List.append_cancel_left hitems
    obtain ⟨hextra, hrest⟩ := List.append_inj hbehind rfl
    exact ⟨List.singleton_inj.1 hextra, List.append_cancel_left (List.append_cancel_left hrest)⟩
  · rintro ⟨hextra, hlater⟩
    rw [hashSlow, hashSlow, items, items, hup, hmix, hbaseFee, hextra, hlater]

end Header

namespace Arrival

def block : Arrival Signature → Header
  | .scrollWire _ block _ => block
  | .ethWire _ block => block

def keptExtraData : Arrival Signature → Bytes
  | .scrollWire _ block _ => block.extraData
  | .ethWire _ _ => []

def SameUncovered (arrival arrival' : Arrival Signature) : Prop :=
  arrival.keptExtraData = arrival'.keptExtraData ∧
    arrival.block.laterForkFields = arrival'.block.laterForkFields

end Arrival

variable {crypto : Crypto Digest Address Signature} {received : NewBlockWithPeer Signature}

namespace ScrollNetworkManager
variable [DecidableEq Digest] [DecidableEq Signature]

theorem passOn_eq_some {manager : ScrollNetworkManager Digest Signature} {peerId : PeerId}
    {block : Header} {signature : Signature}
    (h : (manager.passOn crypto peerId block signature).2 = some received) :
    received = ⟨peerId, block, signature⟩ := by
  simp only [passOn] at h
  split at h
  · cases h
  · split at h
    · cases h
    · exact (Option.some.inj h).symm

theorem onArrival_eq_some {manager : ScrollNetworkManager Digest Signature}
    {arrival : Arrival Signature} (h : (manager.onArrival crypto arrival).2 = some received) :
    received.block.extraData = arrival.keptExtraData ∧
      received.block.laterForkFields = arrival.block.laterForkFields := by
  cases arrival with
  | scrollWire peerId block signature =>
    rw [passOn_eq_some h]
    exact ⟨rfl, rfl⟩
  | ethWire peerId block =>
    rw [onArrival, handleEthWireBlock] at h
    split at h
    · rw [passOn_eq_some h]
      exact ⟨rfl, rfl⟩
    · cases h

end ScrollNetworkManager

variable [DecidableEq Address]

theorem recovered_of_validateNewBlock {consensus : SystemContractConsensus Address} {block : Header}
    {signature : Signature} (h : consensus.validateNewBlock crypto block signature = .ok ()) :
    crypto.recoverSigner signature (block.sigEncodeHash crypto) = .ok consensus.authorizedSigner := by
  rw [SystemContractConsensus.validateNewBlock] at h
  split at h
  · cases h
  · rename_i signer hsigner
    split at h
    · cases h
    · rename_i hsame
      rw [hsigner, not_not.1 hsame]

/-- An accepted block is signed by the authorized signer and known by its own hash. -/
theorem accepted_spec {consensus : SystemContractConsensus Address}
    {accepted : AcceptedBlock Digest} (h : acceptPeerBlock crypto consensus received = .ok accepted) :
    crypto.recoverSigner received.signature (received.block.sigEncodeHash crypto) =
        .ok consensus.authorizedSigner ∧
      accepted = ⟨received.block.hashSlow crypto, received.block.number,
        received.block.hashSlow crypto⟩ := by
  obtain ⟨_, hvalid, haccepted⟩ := ExceptTraversal.bind_eq_ok.1 h
  exact ⟨recovered_of_validateNewBlock hvalid, (Except.ok.inj haccepted).symm⟩

/-- Two blocks accepted with one signature are known by the same hashes exactly when they agree in
what the signature does not cover and the network does not clear. -/
theorem accepted_alike_iff [DecidableEq Digest] [DecidableEq Signature]
    (crypto : Crypto Digest Address Signature) (consensus : SystemContractConsensus Address)
    (manager manager' : ScrollNetworkManager Digest Signature) (arrival arrival' : Arrival Signature)
    (received received' : NewBlockWithPeer Signature) (accepted accepted' : AcceptedBlock Digest)
    (hreceived : (manager.onArrival crypto arrival).2 = some received)
    (hreceived' : (manager'.onArrival crypto arrival').2 = some received')
    (haccepted : acceptPeerBlock crypto consensus received = .ok accepted)
    (haccepted' : acceptPeerBlock crypto consensus received' = .ok accepted')
    (hsignature : received.signature = received'.signature) :
    accepted = accepted' ↔ arrival.SameUncovered arrival' := by
  obtain ⟨hextra, hlater⟩ := ScrollNetworkManager.onArrival_eq_some hreceived
  obtain ⟨hextra', hlater'⟩ := ScrollNetworkManager.onArrival_eq_some hreceived'
  obtain ⟨hsigner, rfl⟩ := accepted_spec haccepted
  obtain ⟨hsigner', rfl⟩ := accepted_spec haccepted'
  rw [← hsignature] at hsigner'
  have hsigned := crypto.one_message _ _ _ _ hsigner hsigner'
  have hnumber : received.block.number = received'.block.number := by
    have hsig := encodeList_inj received.block.length_encodeStrings_sigItems
      received'.block.length_encodeStrings_sigItems (crypto.keccak256_injective hsigned)
    exact Header.number_of_upToTimestamp (Header.covered_of_sigItems hsig).1
  have hhash := Header.hashSlow_eq_iff crypto hsigned
  rw [Arrival.SameUncovered, ← hextra, ← hextra', ← hlater, ← hlater', ← hhash, hnumber]
  constructor
  · intro h
    exact congrArg AcceptedBlock.receivedBlockHash h
  · intro h
    rw [h]

end

def idealCrypto : Crypto Bytes (Bytes × Bytes) Bytes where
  keccak256 := id
  keccak256_injective := Function.injective_id
  recoverSigner signature digest := .ok (signature, digest)
  one_message signature digest digest' signer h h' := by
    cases h
    cases h'
    rfl
  fromRaw bytes := some bytes

def plainHeader (extraData : Bytes) (h : extraData.length < 2 ^ 63) : Header where
  parentHash := 21
  ommersHash := 1
  beneficiary := 0
  stateRoot := 2
  transactionsRoot := 3
  receiptsRoot := 4
  logsBloom := 0
  difficulty := 1
  number := 22
  gasLimit := 10000000
  gasUsed := 21000
  timestamp := 1745337938
  extraData := extraData
  mixHash := 0
  nonce := 0
  baseFeePerGas := some 40306624
  withdrawalsRoot := none
  blobGasUsed := none
  excessBlobGas := none
  parentBeaconBlockRoot := none
  requestsHash := none
  extraData_length := h

def plainSignature : Bytes := List.replicate 65 7

def plainConsensus : SystemContractConsensus (Bytes × Bytes) :=
  ⟨(plainSignature, (plainHeader [] (by decide)).sigEncodeHash idealCrypto)⟩

def freshManager : ScrollNetworkManager Bytes Bytes := ⟨fun _ => none, .empty, []⟩

theorem passOn_fresh (peerId : PeerId) (block : Header) (signature : Bytes) :
    (freshManager.passOn idealCrypto peerId block signature).2 =
      some ⟨peerId, block, signature⟩ := rfl

def known (header : Header) : AcceptedBlock Bytes :=
  ⟨header.hashSlow idealCrypto, header.number, header.hashSlow idealCrypto⟩

theorem sigEncodeHash_plain (extraData : Bytes) (h : extraData.length < 2 ^ 63) :
    (plainHeader extraData h).sigEncodeHash idealCrypto =
      (plainHeader [] (by decide)).sigEncodeHash idealCrypto := by
  have hitems : (plainHeader extraData h).sigItems = (plainHeader [] (by decide)).sigItems := rfl
  rw [Header.sigEncodeHash, Header.sigEncodeHash, hitems]

theorem acceptPeerBlock_plain (peerId : PeerId) (extraData : Bytes) (h : extraData.length < 2 ^ 63) :
    acceptPeerBlock idealCrypto plainConsensus ⟨peerId, plainHeader extraData h, plainSignature⟩ =
      .ok (known (plainHeader extraData h)) := by
  have hvalid : plainConsensus.validateNewBlock idealCrypto (plainHeader extraData h)
      plainSignature = .ok () := by
    have hsigner : idealCrypto.recoverSigner plainSignature
        ((plainHeader extraData h).sigEncodeHash idealCrypto) =
        .ok plainConsensus.authorizedSigner := by
      rw [sigEncodeHash_plain]
      rfl
    rw [SystemContractConsensus.validateNewBlock, hsigner]
    exact if_neg (not_not.2 rfl)
  rw [acceptPeerBlock, hvalid]
  rfl

/-- The signed block comes over both protocols and is the same afterwards. -/
theorem accepted_alike_both_wires :
    ∃ received',
      (freshManager.onArrival idealCrypto
        (.ethWire 2 (plainHeader plainSignature (by decide)))).2 = some received' ∧
      ∃ accepted', acceptPeerBlock idealCrypto plainConsensus received' = .ok accepted' ∧
        known (plainHeader [] (by decide)) = accepted' := by
  have hscroll : (freshManager.onArrival idealCrypto
      (.scrollWire 1 (plainHeader [] (by decide)) plainSignature)).2 =
      some ⟨1, plainHeader [] (by decide), plainSignature⟩ := passOn_fresh _ _ _
  have heth : (freshManager.onArrival idealCrypto
      (.ethWire 2 (plainHeader plainSignature (by decide)))).2 =
      some ⟨2, plainHeader [] (by decide), plainSignature⟩ := rfl
  have haccepted := acceptPeerBlock_plain 1 [] (by decide)
  have haccepted' := acceptPeerBlock_plain 2 [] (by decide)
  refine ⟨_, heth, _, haccepted', ?_⟩
  exact (accepted_alike_iff idealCrypto plainConsensus freshManager freshManager _ _ _ _ _ _ hscroll
    heth haccepted haccepted' rfl).2 ⟨rfl, rfl⟩

/-- Over scroll-wire the block is accepted with other extra data, too, and is another one then. -/
theorem accepted_apart_extraData :
    ∃ received received',
      (freshManager.onArrival idealCrypto
        (.scrollWire 1 (plainHeader [] (by decide)) plainSignature)).2 = some received ∧
      (freshManager.onArrival idealCrypto
        (.scrollWire 2 (plainHeader [1] (by decide)) plainSignature)).2 = some received' ∧
      received.signature = received'.signature ∧
      ∃ accepted accepted', acceptPeerBlock idealCrypto plainConsensus received = .ok accepted ∧
        acceptPeerBlock idealCrypto plainConsensus received' = .ok accepted' ∧
        accepted.signatureKey ≠ accepted'.signatureKey ∧
        accepted.receivedBlockHash ≠ accepted'.receivedBlockHash := by
  have hhash : (plainHeader [] (by decide)).hashSlow idealCrypto ≠
      (plainHeader [1] (by decide)).hashSlow idealCrypto := by
    intro h
    have hextra := ((Header.hashSlow_eq_iff idealCrypto (sigEncodeHash_plain [1] _).symm).1 h).1
    cases hextra
  exact ⟨_, _, passOn_fresh _ _ _, passOn_fresh _ _ _, rfl, _, _, acceptPeerBlock_plain 1 [] _,
    acceptPeerBlock_plain 2 [1] _, hhash, hhash⟩

end RollupNode.SignedBlocks
