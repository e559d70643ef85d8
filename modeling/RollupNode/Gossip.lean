import Mathlib.Data.List.Induction
import RollupNode.GuardedRuns
import RollupNode.SignedBlocks

set_option autoImplicit false

/-! The gossip of blocks between nodes. What was seen is remembered in bounded caches. -/
namespace RollupNode.SignedBlocks
open LruCache GuardedRuns

structure NewBlock where
  signature : Bytes
  block : Header
  signature_length : signature.length < 2 ^ 63

inductive Announcement where
  | scrollWire (peerId : PeerId) (block : NewBlock)
  | ethWire (peerId : PeerId) (block : Header) (td : ℕ)

inductive BlockImportError (Address : Type) where
  | consensus (e : ConsensusError Address)
  | invalidBlock
  | l2FinalizedBlockReceived (peerId : PeerId)

structure Peers where
  all : Except String (List PeerId)
  sends : PeerId → Bool

inductive Message (Address Signature : Type) where
  | arrival (arrival : Arrival Signature)
  | connectionEstablished (peerId : PeerId)
  | announceBlock (block : NewBlock) (peers : Peers)
  | blockImportOutcome (peerId : PeerId) (result : Except (BlockImportError Address) NewBlock)
      (peers : Peers)
  | setGossip (enabled : Bool)

/-- The manager with its scroll-wire connections, the blocks handed to the orchestrator, the last
one first, and what was announced. -/
structure ScrollNetwork (Digest Address Signature : Type) where
  manager : ScrollNetworkManager Digest Signature
  connections : List PeerId
  tdConstant : ℕ
  authorizedSigner : Option Address
  gossip : Bool
  events : List (NewBlockWithPeer Signature)
  announced : List Announcement

variable {Digest Address Signature : Type} [DecidableEq Digest] [DecidableEq Address]
  [DecidableEq Signature]

def ScrollNetworkManager.peerHasSeenBlock (manager : ScrollNetworkManager Digest Signature)
    (peerId : PeerId) (blockHash : Digest) : Bool :=
  (manager.peerState peerId).any (·.contains blockHash)

def computeTd (tdConstant blockNumber : ℕ) : ℕ := min (tdConstant + blockNumber) (2 ^ 128 - 1)

/-- The signature takes the place of the extra data. -/
def NewBlock.ethWireBlock (new : NewBlock) : Header :=
  { new.block with extraData := new.signature, extraData_length := new.signature_length }

namespace ScrollNetwork
variable (crypto : Crypto Digest Address Signature) (net : ScrollNetwork Digest Address Signature)

def verifyBlockSignature (new : NewBlock) : Bool :=
  match net.authorizedSigner, crypto.fromRaw new.signature with
  | none, _ => true
  | some _, none => false
  | some authorized, some signature =>
    match crypto.recoverSigner signature (new.block.sigEncodeHash crypto) with
    | .error _ => false
    | .ok signer => authorized = signer

/-- A peer that a message cannot be sent to loses its connection and what it has seen. -/
def announceTo (new : NewBlock) (overEthWire : Bool) (sends : PeerId → Bool) (peerId : PeerId) :
    ScrollNetwork Digest Address Signature :=
  if net.manager.peerHasSeenBlock peerId (new.block.hashSlow crypto) then net
  else if peerId ∈ net.connections then
    if sends peerId then { net with announced := .scrollWire peerId new :: net.announced }
    else { net with
      connections := net.connections.filter (· ≠ peerId)
      manager := { net.manager with
        peerState := fun p => if p = peerId then none else net.manager.peerState p } }
  else if overEthWire then
    let td := computeTd net.tdConstant new.block.number.toNat
    { net with announced := .ethWire peerId new.ethWireBlock td :: net.announced }
  else net

def announceBlock (new : NewBlock) (peers : Peers) : ScrollNetwork Digest Address Signature :=
  match net.gossip, peers.all with
  | true, .ok all =>
    let overEthWire := net.verifyBlockSignature crypto new
    all.foldl (fun net peerId => net.announceTo crypto new overEthWire peers.sends peerId) net
  | _, _ => net

def penalize (peerId : PeerId) : ScrollNetwork Digest Address Signature :=
  { net with manager := net.manager.penalize peerId }

def onBlockImportResult (peerId : PeerId) (peers : Peers) :
    Except (BlockImportError Address) NewBlock → ScrollNetwork Digest Address Signature
  | .ok new => net.announceBlock crypto new peers
  | .error (.consensus _) => net.penalize peerId
  | .error .invalidBlock => net.penalize peerId
  | .error (.l2FinalizedBlockReceived peerId) => net.penalize peerId

def step : Message Address Signature → ScrollNetwork Digest Address Signature
  | .arrival arrival =>
    let (manager, event) := net.manager.onArrival crypto arrival
    { net with manager := manager, events := event.toList ++ net.events }
  | .connectionEstablished peerId =>
    { net with connections := peerId :: net.connections.filter (· ≠ peerId) }
  | .announceBlock new peers => net.announceBlock crypto new peers
  | .blockImportOutcome peerId result peers => net.onBlockImportResult crypto peerId peers result
  | .setGossip enabled => { net with gossip := enabled }

end ScrollNetwork

/-! ### What a message does -/

def Arrival.sender : Arrival Signature → PeerId
  | .scrollWire peerId _ _ => peerId
  | .ethWire peerId _ => peerId

theorem length_no_extraData : ([] : Bytes).length < 2 ^ 63 := Nat.two_pow_pos 63

def Header.cleared (block : Header) : Header :=
  { block with extraData := [], extraData_length := length_no_extraData }

def Arrival.received (crypto : Crypto Digest Address Signature) :
    Arrival Signature → Option (NewBlockWithPeer Signature)
  | .scrollWire peerId block signature => some ⟨peerId, block, signature⟩
  | .ethWire peerId block =>
    if ecdsaSignatureLen ≤ block.extraData.length then
      (crypto.fromRaw (block.extraData.drop (block.extraData.length - ecdsaSignatureLen))).map
        (⟨peerId, block.cleared, ·⟩)
    else none

def NewBlockWithPeer.key (crypto : Crypto Digest Address Signature)
    (received : NewBlockWithPeer Signature) : Digest × Signature :=
  (received.block.hashSlow crypto, received.signature)

section
variable {crypto : Crypto Digest Address Signature}

namespace ScrollNetworkManager
variable {manager : ScrollNetworkManager Digest Signature} {p peerId : PeerId} {h hash : Digest}

omit [DecidableEq Address] in
theorem onArrival_eq (arrival : Arrival Signature) :
    manager.onArrival crypto arrival = match arrival.received crypto with
      | none => (manager.penalize arrival.sender, none)
      | some received => manager.passOn crypto received.peerId received.block received.signature := by
  cases arrival with
  | scrollWire peerId block signature => rfl
  | ethWire peerId block =>
    simp only [onArrival, handleEthWireBlock, Arrival.received]
    by_cases hlong : ecdsaSignatureLen ≤ block.extraData.length
    · simp only [if_pos hlong]
      cases crypto.fromRaw _ with
      | none => rfl
      | some signature => rfl
    · simp only [if_neg hlong]
      rfl

omit [DecidableEq Signature] in
theorem markBlockSeen_seen :
    (manager.markBlockSeen peerId hash).2 = manager.peerHasSeenBlock peerId hash := by
  rw [markBlockSeen, peerHasSeenBlock]
  cases manager.peerState peerId with
  | none => rfl
  | some state => rfl

omit [DecidableEq Signature] in
theorem seen_of_markBlockSeen
    (hseen : (manager.markBlockSeen peerId hash).1.peerHasSeenBlock p h = true) :
    (p = peerId ∧ h = hash) ∨ manager.peerHasSeenBlock p h = true := by
  by_cases hp : p = peerId
  · subst hp
    simp only [markBlockSeen, peerHasSeenBlock, if_true, Option.any_some] at hseen
    have hstate : ((manager.peerState p).getD .empty).contains h = true →
        (manager.peerState p).any (·.contains h) = true := by
      cases manager.peerState p with
      | none => exact fun hempty => absurd hempty Bool.false_ne_true
      | some state => exact id
    split at hseen
    · exact .inr (hstate hseen)
    · rcases Cache.contains_of_put hseen with hnew | hold
      · exact .inl ⟨rfl, hnew⟩
      · exact .inr (hstate hold)
  · simp only [markBlockSeen, peerHasSeenBlock, if_neg hp] at hseen
    exact .inr hseen

end ScrollNetworkManager

namespace ScrollNetwork
variable {net net' net'' : ScrollNetwork Digest Address Signature}

/-- Nothing is handed on, no peer has seen more than before, and what goes out over eth-wire is
signed. -/
structure Announces (crypto : Crypto Digest Address Signature)
    (net net' : ScrollNetwork Digest Address Signature) : Prop where
  events : net'.events = net.events
  blocksSeen : net'.manager.blocksSeen = net.manager.blocksSeen
  penalized : net'.manager.penalized = net.manager.penalized
  seen : ∀ p h, net'.manager.peerHasSeenBlock p h = true → net.manager.peerHasSeenBlock p h = true
  signer : net'.authorizedSigner = net.authorizedSigner
  relayed : ∀ p block td, .ethWire p block td ∈ net'.announced → .ethWire p block td ∈ net.announced ∨
    ∃ new : NewBlock, block = new.ethWireBlock ∧ net.verifyBlockSignature crypto new = true

omit [DecidableEq Digest] [DecidableEq Signature] in
theorem verifyBlockSignature_congr (h : net'.authorizedSigner = net.authorizedSigner)
    (new : NewBlock) : net'.verifyBlockSignature crypto new = net.verifyBlockSignature crypto new := by
  rw [verifyBlockSignature, verifyBlockSignature, h]

omit [DecidableEq Signature] in
theorem Announces.refl (net : ScrollNetwork Digest Address Signature) : net.Announces crypto net :=
  ⟨rfl, rfl, rfl, fun _ _ h => h, rfl, fun _ _ _ h => .inl h⟩

omit [DecidableEq Signature] in
theorem Announces.trans (h : net.Announces crypto net') (h' : net'.Announces crypto net'') :
    net.Announces crypto net'' where
  events := h'.events.trans h.events
  blocksSeen := h'.blocksSeen.trans h.blocksSeen
  penalized := h'.penalized.trans h.penalized
  seen p hash hseen := h.seen p hash (h'.seen p hash hseen)
  signer := h'.signer.trans h.signer
  relayed p block td hmem := by
    rcases h'.relayed p block td hmem with hold | ⟨new, hblock, hsigned⟩
    · exact h.relayed p block td hold
    · exact .inr ⟨new, hblock, (verifyBlockSignature_congr h.signer new).symm.trans hsigned⟩

omit [DecidableEq Signature] in
theorem announces_announceTo {new : NewBlock} {overEthWire : Bool}
    (hsigned : overEthWire = true → net.verifyBlockSignature crypto new = true)
    (sends : PeerId → Bool) (peerId : PeerId) :
    net.Announces crypto (net.announceTo crypto new overEthWire sends peerId) := by
  unfold announceTo
  split
  · exact .refl net
  split
  · split
    · refine ⟨rfl, rfl, rfl, fun _ _ h => h, rfl, ?_⟩
      intro p block td hmem
      rcases List.mem_cons.1 hmem with hnew | hold
      · cases hnew
      · exact .inl hold
    · refine ⟨rfl, rfl, rfl, ?_, rfl, fun _ _ _ h => .inl h⟩
      intro p h hseen
      simp only [ScrollNetworkManager.peerHasSeenBlock] at hseen ⊢
      split at hseen
      · cases hseen
      · exact hseen
  split
  · rename_i hover
    refine ⟨rfl, rfl, rfl, fun _ _ h => h, rfl, ?_⟩
    intro p block td hmem
    rcases List.mem_cons.1 hmem with hnew | hold
    · cases hnew
      exact .inr ⟨new, rfl, hsigned hover⟩
    · exact .inl hold
  · exact .refl net

omit [DecidableEq Signature] in
theorem announces_announceBlock (new : NewBlock) (peers : Peers) :
    net.Announces crypto (net.announceBlock crypto new peers) := by
  have hfold : ∀ (all : List PeerId) (overEthWire : Bool) (net : ScrollNetwork Digest Address Signature),
      (overEthWire = true → net.verifyBlockSignature crypto new = true) →
      net.Announces crypto (all.foldl
        (fun net peerId => net.announceTo crypto new overEthWire peers.sends peerId) net) := by
    intro all overEthWire
    induction all with
    | nil => exact fun net _ => .refl net
    | cons peerId all ih =>
      intro net hsigned
      have hone := announces_announceTo hsigned peers.sends peerId
      refine hone.trans (ih _ ?_)
      rw [verifyBlockSignature_congr hone.signer]
      exact hsigned
  unfold announceBlock
  split
  · exact hfold _ _ net id
  · exact .refl net

end ScrollNetwork

def Message.received (crypto : Crypto Digest Address Signature) :
    Message Address Signature → Option (NewBlockWithPeer Signature)
  | .arrival block => block.received crypto
  | _ => none

def Message.Reports (peerId : PeerId) : Message Address Signature → Prop
  | .blockImportOutcome _ (.error (.l2FinalizedBlockReceived sender)) _ => sender = peerId
  | .blockImportOutcome sender (.error _) _ => sender = peerId
  | _ => False

namespace ScrollNetwork
variable {net net' : ScrollNetwork Digest Address Signature}

/-- A message is an arrival, blames a peer, or at most announces a block. -/
theorem step_cases (net : ScrollNetwork Digest Address Signature) (message : Message Address Signature) :
    (∃ arrival, message = .arrival arrival) ∨
    (∃ peerId, message.Reports peerId ∧ net.step crypto message = net.penalize peerId) ∨
    net.Announces crypto (net.step crypto message) := by
  cases message with
  | arrival arrival => exact .inl ⟨arrival, rfl⟩
  | connectionEstablished peerId =>
    exact .inr (.inr ⟨rfl, rfl, rfl, fun _ _ h => h, rfl, fun _ _ _ h => .inl h⟩)
  | announceBlock new peers => exact .inr (.inr (announces_announceBlock new peers))
  | setGossip enabled =>
    exact .inr (.inr ⟨rfl, rfl, rfl, fun _ _ h => h, rfl, fun _ _ _ h => .inl h⟩)
  | blockImportOutcome peerId result peers =>
    cases result with
    | ok new => exact .inr (.inr (announces_announceBlock new peers))
    | error e =>
      cases e with
      | consensus e => exact .inr (.inl ⟨peerId, rfl, rfl⟩)
      | invalidBlock => exact .inr (.inl ⟨peerId, rfl, rfl⟩)
      | l2FinalizedBlockReceived sender => exact .inr (.inl ⟨sender, rfl, rfl⟩)

/-! ### Runs -/

def arrivals (crypto : Crypto Digest Address Signature)
    (messages : List (Message Address Signature)) : List (NewBlockWithPeer Signature) :=
  messages.filterMap (·.received crypto)

structure Fresh (net : ScrollNetwork Digest Address Signature) : Prop where
  peerState : net.manager.peerState = fun _ => none
  blocksSeen : net.manager.blocksSeen = .empty
  penalized : net.manager.penalized = []
  events : net.events = []
  announced : net.announced = []

structure Tracks (crypto : Crypto Digest Address Signature)
    (messages : List (Message Address Signature)) (net : ScrollNetwork Digest Address Signature) :
    Prop where
  seen : ∀ p h, net.manager.peerHasSeenBlock p h = true →
    ∃ r ∈ arrivals crypto messages, r.peerId = p ∧ r.block.hashSlow crypto = h
  received : net.events ⊆ arrivals crypto messages
  recent : net.manager.blocksSeen.entries.map Prod.fst =
    (net.events.map (·.key crypto)).take lruCacheSize
  apart : ∀ window, window <:+: net.events.map (·.key crypto) →
    window.length ≤ lruCacheSize + 1 → window.Nodup

variable {messages : List (Message Address Signature)} {message : Message Address Signature}

omit [DecidableEq Address] [DecidableEq Signature] in
theorem Fresh.tracks (h : net.Fresh) : Tracks crypto [] net where
  seen p hash hseen := by
    rw [ScrollNetworkManager.peerHasSeenBlock, h.peerState] at hseen
    cases hseen
  received := by
    rw [h.events]
    exact List.nil_subset _
  recent := by
    rw [h.blocksSeen, h.events]
    rfl
  apart window hwindow _ := by
    rw [h.events, List.map_nil, List.infix_nil] at hwindow
    rw [hwindow]
    exact List.nodup_nil

omit [DecidableEq Digest] [DecidableEq Address] [DecidableEq Signature] in
theorem arrivals_append :
    arrivals crypto (messages ++ [message]) =
      arrivals crypto messages ++ (message.received crypto).toList := by
  rw [arrivals, List.filterMap_append]
  cases h : message.received crypto with
  | none => simp [h, arrivals]
  | some received => simp [h, arrivals]

def SeenBy (crypto : Crypto Digest Address Signature) (message : Message Address Signature)
    (net net' : ScrollNetwork Digest Address Signature) : Prop :=
  ∀ p h, net'.manager.peerHasSeenBlock p h = true →
    (∃ r, message.received crypto = some r ∧ p = r.peerId ∧ h = r.block.hashSlow crypto) ∨
      net.manager.peerHasSeenBlock p h = true

omit [DecidableEq Address] [DecidableEq Signature] in
theorem Tracks.seen_append (h : Tracks crypto messages net)
    (hseen : SeenBy crypto message net net') (p : PeerId) (hash : Digest)
    (hnow : net'.manager.peerHasSeenBlock p hash = true) :
    ∃ r ∈ arrivals crypto (messages ++ [message]), r.peerId = p ∧ r.block.hashSlow crypto = hash := by
  rw [arrivals_append]
  rcases hseen p hash hnow with ⟨r, hr, rfl, rfl⟩ | hold
  · rw [hr]
    exact ⟨r, List.mem_append_right _ (List.mem_singleton_self r), rfl, rfl⟩
  · obtain ⟨r, hr, hpeer⟩ := h.seen p hash hold
    exact ⟨r, List.mem_append_left _ hr, hpeer⟩

omit [DecidableEq Address] [DecidableEq Signature] in
theorem Tracks.received_append (h : Tracks crypto messages net) :
    net.events ⊆ arrivals crypto (messages ++ [message]) := by
  rw [arrivals_append]
  exact fun r hr => List.mem_append_left _ (h.received hr)

omit [DecidableEq Address] [DecidableEq Signature] in
/-- What is tracked stays so when nothing is handed on. -/
theorem Tracks.quiet (h : Tracks crypto messages net) (hevents : net'.events = net.events)
    (hblocks : net'.manager.blocksSeen = net.manager.blocksSeen)
    (hseen : SeenBy crypto message net net') :
    Tracks crypto (messages ++ [message]) net' where
  seen := h.seen_append hseen
  received := by
    rw [hevents]
    exact h.received_append
  recent := by
    rw [hevents, hblocks]
    exact h.recent
  apart := by
    rw [hevents]
    exact h.apart

omit [DecidableEq Address] in
/-- A window that ends with a new block holds at most the blocks that the cache knows. -/
theorem Tracks.handsOn (h : Tracks crypto messages net) {received : NewBlockWithPeer Signature}
    (hnew : net.manager.blocksSeen.contains (received.key crypto) = false) :
    ∀ window, window <:+: (received :: net.events).map (·.key crypto) →
      window.length ≤ lruCacheSize + 1 → window.Nodup := by
  intro window hwindow hlength
  rw [List.map_cons, List.infix_cons_iff] at hwindow
  rcases hwindow with hstart | hinner
  · rcases List.prefix_cons_iff.1 hstart with rfl | ⟨rest, rfl, hrest⟩
    · exact List.nodup_nil
    · have hrestLength : rest.length ≤ lruCacheSize := by
        rw [List.length_cons] at hlength
        exact Nat.le_of_succ_le_succ hlength
      refine List.nodup_cons.2 ⟨?_, h.apart rest hrest.isInfix (Nat.le_succ_of_le hrestLength)⟩
      rw [LruCache.Cache.not_contains_iff, h.recent] at hnew
      intro hmem
      obtain ⟨later, hlater⟩ := hrest
      apply hnew
      rw [← hlater, List.take_append, List.take_of_length_le hrestLength]
      exact List.mem_append_left _ hmem
  · exact h.apart window hinner hlength

/-- A block is a duplicate of its sender's, known from another peer, or handed on. -/
theorem step_arrival (net : ScrollNetwork Digest Address Signature) {arrival : Arrival Signature}
    {received : NewBlockWithPeer Signature} (hreceived : arrival.received crypto = some received) :
    let net' := net.step crypto (.arrival arrival)
    let seen := net.manager.peerHasSeenBlock received.peerId (received.block.hashSlow crypto)
    SeenBy crypto (.arrival arrival) net net' ∧
    ((seen = true ∧ net'.events = net.events ∧
        net'.manager.blocksSeen = net.manager.blocksSeen ∧
        net'.manager.penalized = received.peerId :: net.manager.penalized) ∨
      (seen = false ∧ net'.manager.penalized = net.manager.penalized ∧
        ((net.manager.blocksSeen.contains (received.key crypto) = true ∧
            net'.events = net.events ∧ net'.manager.blocksSeen = net.manager.blocksSeen) ∨
          (net.manager.blocksSeen.contains (received.key crypto) = false ∧
            net'.events = received :: net.events ∧ net'.manager.blocksSeen =
              net.manager.blocksSeen.put (received.key crypto) ())))) := by
  have hseen : ∀ p h, (net.manager.markBlockSeen received.peerId
      (received.block.hashSlow crypto)).1.peerHasSeenBlock p h = true →
      (∃ r, arrival.received crypto = some r ∧ p = r.peerId ∧ h = r.block.hashSlow crypto) ∨
        net.manager.peerHasSeenBlock p h = true := by
    intro p h hnow
    refine (ScrollNetworkManager.seen_of_markBlockSeen hnow).imp_left ?_
    exact fun hnew => ⟨received, hreceived, hnew⟩
  simp only [step, ScrollNetworkManager.onArrival_eq, hreceived, ScrollNetworkManager.passOn,
    ScrollNetworkManager.markBlockSeen_seen]
  split
  · rename_i hdup
    exact ⟨hseen, .inl ⟨hdup, rfl, rfl, rfl⟩⟩
  · rename_i hfirst
    rw [Bool.not_eq_true] at hfirst
    split
    · rename_i hknown
      exact ⟨hseen, .inr ⟨hfirst, rfl, .inl ⟨hknown, rfl, rfl⟩⟩⟩
    · rename_i hnew
      exact ⟨hseen, .inr ⟨hfirst, rfl, .inr ⟨Bool.eq_false_of_not_eq_true hnew, rfl, rfl⟩⟩⟩

theorem step_arrival_none {arrival : Arrival Signature} (h : arrival.received crypto = none) :
    net.step crypto (.arrival arrival) = net.penalize arrival.sender := by
  simp only [step, ScrollNetworkManager.onArrival_eq, h]
  rfl

/-- One message keeps the record of what has arrived. -/
theorem Tracks.step (h : Tracks crypto messages net) (message : Message Address Signature) :
    Tracks crypto (messages ++ [message]) (net.step crypto message) := by
  rcases net.step_cases message with ⟨arrival, rfl⟩ | ⟨peerId, _, hstep⟩ | hstep
  · cases hreceived : arrival.received crypto with
    | none =>
      rw [step_arrival_none hreceived]
      exact h.quiet rfl rfl (fun _ _ hseen => .inr hseen)
    | some received =>
      obtain ⟨hseen, ⟨_, hevents, hblocks, _⟩ | ⟨_, _, ⟨_, hevents, hblocks⟩ |
        ⟨hnew, hevents, hblocks⟩⟩⟩ := step_arrival net hreceived
      · exact h.quiet hevents hblocks hseen
      · exact h.quiet hevents hblocks hseen
      · refine ⟨h.seen_append hseen, ?_, ?_, ?_⟩
        · rw [hevents, List.cons_subset]
          refine ⟨?_, h.received_append⟩
          rw [arrivals_append, Message.received, hreceived]
          exact List.mem_append_right _ (List.mem_singleton_self received)
        · rw [hevents, hblocks]
          exact LruCache.Cache.keys_put h.recent hnew ()
        · rw [hevents]
          exact h.handsOn hnew
  · rw [hstep]
    exact h.quiet rfl rfl (fun _ _ hseen => .inr hseen)
  · exact h.quiet hstep.events hstep.blocksSeen
      (fun p hash hseen => .inr (hstep.seen p hash hseen))

theorem Fresh.tracks_run (h : net.Fresh) (messages : List (Message Address Signature)) :
    Tracks crypto messages (run (step crypto) net messages) := by
  induction messages using List.reverseRecOn with
  | nil => exact h.tracks
  | append_singleton messages message ih =>
    rw [run_append]
    exact ih.step message

theorem length_plainSignature : plainSignature.length < 2 ^ 63 := by decide

def plainBlock : NewBlock :=
  ⟨plainSignature, plainHeader [] length_no_extraData, length_plainSignature⟩

def plainArrival (peerId : PeerId) : Message (Bytes × Bytes) Bytes :=
  .arrival (.scrollWire peerId plainBlock.block plainSignature)

def freshNetwork : ScrollNetwork Bytes (Bytes × Bytes) Bytes :=
  ⟨freshManager, [], 0, some plainConsensus.authorizedSigner, true, [], []⟩

theorem freshNetwork_fresh : freshNetwork.Fresh := ⟨rfl, rfl, rfl, rfl, rfl⟩

/-- Whatever comes in and goes out, among as many blocks handed on in a row as the cache holds, and one
more, none comes twice, and each came from a peer. A block that its sender has not sent before is
handed on exactly when it is not among the latest ones with this signature. -/
theorem handed_on (net : ScrollNetwork Digest Address Signature) (hfresh : net.Fresh)
    (messages : List (Message Address Signature)) :
    (run (step crypto) net messages).events ⊆ arrivals crypto messages ∧
    (∀ window, window <:+: (run (step crypto) net messages).events →
      window.length ≤ lruCacheSize + 1 → (window.map (·.key crypto)).Nodup) ∧
    ∀ arrival received, arrival.received crypto = some received →
      (∀ r ∈ arrivals crypto messages, r.peerId = received.peerId →
        r.block.hashSlow crypto ≠ received.block.hashSlow crypto) →
      ((run (step crypto) net (messages ++ [.arrival arrival])).events =
          received :: (run (step crypto) net messages).events ↔
        received.key crypto ∉
          ((run (step crypto) net messages).events.take lruCacheSize).map (·.key crypto)) := by
  have htracks : Tracks crypto messages (run (step crypto) net messages) := hfresh.tracks_run messages
  refine ⟨htracks.received, ?_, ?_⟩
  · intro window hwindow hlength
    exact htracks.apart _ (hwindow.map _) (by rwa [List.length_map])
  · intro arrival received hreceived hfirst
    rw [run_append]
    generalize run (step crypto) net messages = now at htracks ⊢
    change (now.step crypto (.arrival arrival)).events = _ ↔ _
    rw [List.map_take, ← htracks.recent]
    rcases (step_arrival now hreceived).2 with ⟨hseen, _⟩ |
      ⟨_, _, ⟨hknown, hevents, _⟩ | ⟨hnew, hevents, _⟩⟩
    · obtain ⟨r, hr, hpeer, hhash⟩ := htracks.seen _ _ hseen
      exact absurd hhash (hfirst r hr hpeer)
    · rw [hevents]
      refine iff_of_false ?_ (not_not_intro (LruCache.Cache.contains_iff.1 hknown))
      exact fun h => List.cons_ne_self received now.events h.symm
    · exact iff_of_true hevents (LruCache.Cache.not_contains_iff.1 hnew)

theorem handed_on_first : freshNetwork.Fresh ∧
    (run (step idealCrypto) freshNetwork [plainArrival 1]).events =
      [⟨1, plainBlock.block, plainSignature⟩] := by
  refine ⟨freshNetwork_fresh, ?_⟩
  refine (((handed_on freshNetwork freshNetwork_fresh []).2.2 _ _ rfl ?_).2 ?_)
  · intro r hr
    cases hr
  · exact List.not_mem_nil

/-- A peer sends each block once, with a signature, and no import of its blocks fails. -/
structure Honest (crypto : Crypto Digest Address Signature) (peerId : PeerId)
    (messages : List (Message Address Signature)) : Prop where
  decodes : ∀ arrival, .arrival arrival ∈ messages → arrival.sender = peerId →
    (arrival.received crypto).isSome
  once : (((arrivals crypto messages).filter (·.peerId = peerId)).map
    (·.block.hashSlow crypto)).Nodup
  valid : ∀ message ∈ messages, ¬ message.Reports peerId

omit [DecidableEq Digest] [DecidableEq Address] [DecidableEq Signature] in
theorem Honest.init {peerId : PeerId} (h : Honest crypto peerId (messages ++ [message])) :
    Honest crypto peerId messages where
  decodes arrival harrival := h.decodes arrival (List.mem_append_left _ harrival)
  once := by
    have honce := h.once
    rw [arrivals_append, List.filter_append, List.map_append] at honce
    exact honce.of_append_left
  valid earlier hmem := h.valid earlier (List.mem_append_left _ hmem)

/-- No other peer and no order of the messages can make an honest peer lose reputation. -/
theorem honest_not_penalized (net : ScrollNetwork Digest Address Signature) (hfresh : net.Fresh)
    (messages : List (Message Address Signature)) (peerId : PeerId)
    (hhonest : Honest crypto peerId messages) :
    peerId ∉ (run (step crypto) net messages).manager.penalized := by
  induction messages using List.reverseRecOn with
  | nil =>
    rw [run, List.foldl_nil, hfresh.penalized]
    exact List.not_mem_nil
  | append_singleton messages message ih =>
    have hbefore := ih hhonest.init
    have htracks : Tracks crypto messages (run (step crypto) net messages) := hfresh.tracks_run messages
    have hlast : message ∈ messages ++ [message] := List.mem_append_right _ (List.mem_singleton_self _)
    rw [run_append]
    generalize run (step crypto) net messages = now at hbefore htracks ⊢
    change peerId ∉ (now.step crypto message).manager.penalized
    rcases now.step_cases message with ⟨arrival, rfl⟩ | ⟨blamed, hreports, hstep⟩ | hstep
    · cases hreceived : arrival.received crypto with
      | none =>
        rw [step_arrival_none hreceived]
        refine List.not_mem_cons_of_ne_of_not_mem ?_ hbefore
        rintro rfl
        have hdecodes := hhonest.decodes arrival hlast rfl
        rw [hreceived] at hdecodes
        cases hdecodes
      | some received =>
        rcases (step_arrival now hreceived).2 with ⟨hseen, _, _, hpenalized⟩ | ⟨_, hpenalized, _⟩
        · rw [hpenalized]
          refine List.not_mem_cons_of_ne_of_not_mem ?_ hbefore
          rintro rfl
          -- the earlier arrival that the cache remembers is a second one with this hash
          obtain ⟨r, hr, hpeer, hhash⟩ := htracks.seen _ _ hseen
          have honce := hhonest.once
          rw [arrivals_append, List.filter_append, List.map_append, List.nodup_append] at honce
          refine honce.2.2 _ (List.mem_map_of_mem (List.mem_filter.2 ⟨hr, decide_eq_true hpeer⟩)) _
            ?_ hhash
          rw [Message.received, hreceived]
          simp
        · rw [hpenalized]
          exact hbefore
    · rw [hstep]
      refine List.not_mem_cons_of_ne_of_not_mem ?_ hbefore
      rintro rfl
      exact hhonest.valid message hlast hreports
    · rw [hstep.penalized]
      exact hbefore

theorem honest_not_penalized_second : Honest idealCrypto 2 [plainArrival 1, plainArrival 2] ∧
    2 ∉ (run (step idealCrypto) freshNetwork [plainArrival 1, plainArrival 2]).manager.penalized := by
  have hhonest : Honest idealCrypto 2 [plainArrival 1, plainArrival 2] := by
    refine ⟨?_, List.nodup_singleton _, ?_⟩
    · intro arrival hmem _
      simp only [plainArrival, List.mem_cons, List.not_mem_nil, or_false, Message.arrival.injEq] at hmem
      rcases hmem with rfl | rfl
      · rfl
      · rfl
    · intro message hmem
      simp only [plainArrival, List.mem_cons, List.not_mem_nil, or_false] at hmem
      rcases hmem with rfl | rfl
      · exact id
      · exact id
  exact ⟨hhonest, honest_not_penalized freshNetwork freshNetwork_fresh _ 2 hhonest⟩

/-- What went out over eth-wire was signed, whatever else the network did. -/
theorem relayed_run {signer : Address} (hsigner : net.authorizedSigner = some signer)
    (hannounced : net.announced = []) (messages : List (Message Address Signature)) :
    (run (step crypto) net messages).authorizedSigner = some signer ∧
    ∀ p block td, .ethWire p block td ∈ (run (step crypto) net messages).announced →
      ∃ new : NewBlock, block = new.ethWireBlock ∧ net.verifyBlockSignature crypto new = true := by
  induction messages using List.reverseRecOn with
  | nil =>
    refine ⟨hsigner, ?_⟩
    intro p block td hmem
    rw [run, List.foldl_nil, hannounced] at hmem
    cases hmem
  | append_singleton messages message ih =>
    rw [run_append]
    generalize run (step crypto) net messages = now at ih ⊢
    change (now.step crypto message).authorizedSigner = _ ∧
      ∀ p block td, _ ∈ (now.step crypto message).announced → _
    rcases now.step_cases message with ⟨arrival, rfl⟩ | ⟨peerId, _, hstep⟩ | hstep
    · exact ih
    · rw [hstep]
      exact ih
    · refine ⟨hstep.signer.trans ih.1, ?_⟩
      intro p block td hmem
      rcases hstep.relayed p block td hmem with hold | ⟨new, hblock, hsigned⟩
      · exact ih.2 p block td hold
      · refine ⟨new, hblock, ?_⟩
        rw [← hsigned]
        exact verifyBlockSignature_congr (hsigner.trans ih.1.symm) new

omit [DecidableEq Digest] [DecidableEq Signature] in
theorem recovered_of_verifyBlockSignature {signer : Address} {new : NewBlock}
    (hsigner : net.authorizedSigner = some signer)
    (h : net.verifyBlockSignature crypto new = true) :
    ∃ signature, crypto.fromRaw new.signature = some signature ∧
      crypto.recoverSigner signature (new.block.sigEncodeHash crypto) = .ok signer := by
  rw [verifyBlockSignature, hsigner] at h
  cases hraw : crypto.fromRaw new.signature with
  | none =>
    rw [hraw] at h
    cases h
  | some signature =>
    refine ⟨signature, rfl, ?_⟩
    simp only [hraw] at h
    cases hrecovered : crypto.recoverSigner signature (new.block.sigEncodeHash crypto) with
    | error message =>
      rw [hrecovered] at h
      cases h
    | ok recovered =>
      rw [hrecovered] at h
      rw [of_decide_eq_true h]

/-- Every block that a node relays over eth-wire is one that each node with the same signer takes
and accepts, for the header that the relaying node had without its extra data. -/
theorem relayed_accepted (net : ScrollNetwork Digest Address Signature) (signer : Address)
    (hsigner : net.authorizedSigner = some signer) (hannounced : net.announced = [])
    (messages : List (Message Address Signature)) :
    ∀ p block td, .ethWire p block td ∈ (run (step crypto) net messages).announced →
      block.extraData.length = ecdsaSignatureLen → ∀ sender, ∃ signature,
        (Arrival.ethWire sender block).received crypto = some ⟨sender, block.cleared, signature⟩ ∧
        acceptPeerBlock crypto ⟨signer⟩ ⟨sender, block.cleared, signature⟩ =
          .ok ⟨block.cleared.hashSlow crypto, block.number, block.cleared.hashSlow crypto⟩ := by
  intro p block td hmem hlength sender
  obtain ⟨new, rfl, hsigned⟩ := (relayed_run hsigner hannounced messages).2 p block td hmem
  obtain ⟨signature, hraw, hrecovered⟩ := recovered_of_verifyBlockSignature hsigner hsigned
  refine ⟨signature, ?_, ?_⟩
  · have hdrop : new.ethWireBlock.extraData.drop
        (new.ethWireBlock.extraData.length - ecdsaSignatureLen) = new.signature := by
      rw [hlength, Nat.sub_self, List.drop_zero]
      rfl
    rw [Arrival.received, if_pos hlength.ge, hdrop, hraw]
    rfl
  · have hitems : new.ethWireBlock.cleared.sigEncodeHash crypto = new.block.sigEncodeHash crypto := rfl
    simp only [acceptPeerBlock, SystemContractConsensus.validateNewBlock, hitems, hrecovered]
    rw [if_neg (not_not_intro rfl)]
    rfl

theorem relayed_accepted_plain :
    (∃ td, .ethWire 3 plainBlock.ethWireBlock td ∈ (run (step idealCrypto) freshNetwork
      [.announceBlock plainBlock ⟨.ok [3], fun _ => true⟩]).announced) ∧
    ∃ signature, (Arrival.ethWire 1 plainBlock.ethWireBlock).received idealCrypto =
      some ⟨1, plainBlock.ethWireBlock.cleared, signature⟩ := by
  have hverify : freshNetwork.verifyBlockSignature idealCrypto plainBlock = true := by
    unfold verifyBlockSignature
    exact decide_eq_true rfl
  have hmem : .ethWire 3 plainBlock.ethWireBlock 22 ∈ (run (step idealCrypto) freshNetwork
      [.announceBlock plainBlock ⟨.ok [3], fun _ => true⟩]).announced := by
    rw [run, List.foldl_cons, List.foldl_nil, step, announceBlock, hverify]
    exact List.mem_singleton_self _
  obtain ⟨signature, hreceived, _⟩ := relayed_accepted freshNetwork _ rfl rfl _ 3 _ _ hmem rfl 1
  exact ⟨⟨_, hmem⟩, signature, hreceived⟩

end ScrollNetwork
end
end RollupNode.SignedBlocks
