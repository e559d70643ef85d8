import RollupNode.Primitives
import RollupNode.ExceptTraversal
import RollupNode.GuardedRuns
import RollupNode.LruCache
import RollupNode.RoundRobin

set_option autoImplicit false

/-! The blob providers. What a provider receives is an input, and may be anything. -/
namespace RollupNode
open GuardedRuns LruCache RoundRobin

/-- The commitment scheme. A proof that is accepted is one of the blob's own commitment. -/
structure Kzg (Blob Commitment Proof : Type) where
  blobFromBytes : Bytes → Option Blob
  blobToKzgCommitment : Blob → Except String Commitment
  kzgToVersionedHash : Commitment → B256
  verifyBlobKzgProof : Blob → Commitment → Proof → Except String Bool
  sound : ∀ blob commitment proof, verifyBlobKzgProof blob commitment proof = .ok true →
    blobToKzgCommitment blob = .ok commitment

inductive BlobTransactionValidationError where
  | invalidProof
  | kzgError (message : String)
  | wrongVersionedHash (found expected : B256)
  deriving DecidableEq, Repr

inductive L1ProviderError where
  | beaconProvider (message : String)
  | s3Provider (message : String)
  | blobValidation (e : BlobTransactionValidationError)
  | invalidBlockTimestamp (genesis provided : ℕ)
  | other (message : String)
  deriving DecidableEq, Repr

inductive BlobFailure where
  | error (e : L1ProviderError)
  | pending
  | panic (message : String)
  deriving DecidableEq, Repr

inductive Fetched (α : Type) where
  | late
  | failed (message : String)
  | received (a : α)

structure BlobTransactionSidecarItem (Blob Commitment Proof : Type) where
  index : ℕ
  blob : Blob
  kzgCommitment : Commitment
  kzgProof : Proof

structure S3Response where
  status : ℕ
  bytes : Fetched Bytes

def providerBlobCacheSize : ℕ := 100

structure BeaconClientProvider (Blob : Type) where
  genesisTimestamp : ℕ
  slotInterval : ℕ
  cache : Cache B256 Blob providerBlobCacheSize

section
variable {Blob Commitment Proof : Type}

namespace BlobTransactionSidecarItem

def toKzgVersionedHash (kzg : Kzg Blob Commitment Proof)
    (item : BlobTransactionSidecarItem Blob Commitment Proof) : B256 :=
  kzg.kzgToVersionedHash item.kzgCommitment

def verifyBlobKzgProof (kzg : Kzg Blob Commitment Proof)
    (item : BlobTransactionSidecarItem Blob Commitment Proof) :
    Except BlobTransactionValidationError Unit :=
  match kzg.verifyBlobKzgProof item.blob item.kzgCommitment item.kzgProof with
  | .error message => .error (.kzgError message)
  | .ok true => .ok ()
  | .ok false => .error .invalidProof

end BlobTransactionSidecarItem

namespace BeaconClientProvider

/-- The slot of a block; the interval comes from the beacon node and is not checked. -/
def slot (provider : BeaconClientProvider Blob) (blockTimestamp : ℕ) : Except BlobFailure ℕ :=
  if blockTimestamp < provider.genesisTimestamp then
    .error (.error (.invalidBlockTimestamp provider.genesisTimestamp blockTimestamp))
  else if provider.slotInterval = 0 then .error (.panic "attempt to divide by zero")
  else .ok ((blockTimestamp - provider.genesisTimestamp) / provider.slotInterval)

/-- All sidecars are verified before one of them is returned or put in the cache. -/
def authenticate (kzg : Kzg Blob Commitment Proof)
    (items : List (BlobTransactionSidecarItem Blob Commitment Proof)) :
    Except BlobTransactionValidationError Unit :=
  items.forM (fun item => item.verifyBlobKzgProof kzg)

/-- A blob that is not in the cache is asked for by its slot. The others of the slot are put in the
cache when it is among them. -/
def blob (kzg : Kzg Blob Commitment Proof) (provider : BeaconClientProvider Blob)
    (blobs : ℕ → Fetched (List (BlobTransactionSidecarItem Blob Commitment Proof)))
    (blockTimestamp : ℕ) (hash : B256) :
    BeaconClientProvider Blob × Except BlobFailure (Option Blob) :=
  match provider.cache.get hash with
  | (some blob, cache) => ({ provider with cache := cache }, .ok (some blob))
  | (none, _) =>
    match provider.slot blockTimestamp with
    | .error e => (provider, .error e)
    | .ok slot =>
      match blobs slot with
      | .late => (provider, .error .pending)
      | .failed message => (provider, .error (.error (.beaconProvider message)))
      | .received items =>
        match items.findIdx? (fun item => item.toKzgVersionedHash kzg = hash) with
        | none => (provider, .ok none)
        | some position =>
          match authenticate kzg items with
          | .error e => (provider, .error (.error (.blobValidation e)))
          | .ok _ =>
            match items[position]? with
            | none => (provider, .error (.panic "removal index should be < len"))
            | some item =>
              let others := items.eraseIdx position
              ({ provider with
                cache := provider.cache.putAll
                  (others.map (fun b => (b.toKzgVersionedHash kzg, b.blob))) },
                .ok (some item.blob))

end BeaconClientProvider

/-- S3 has no proofs: the commitment is computed from the contents. -/
def S3BlobProvider.blob (kzg : Kzg Blob Commitment Proof) (response : Fetched S3Response)
    (hash : B256) : Except BlobFailure (Option Blob) :=
  match response with
  | .late => .error .pending
  | .failed message => .error (.error (.s3Provider message))
  | .received response =>
    if 200 ≤ response.status ∧ response.status < 300 then
      match response.bytes with
      | .late => .error .pending
      | .failed message => .error (.error (.s3Provider message))
      | .received data =>
        match kzg.blobFromBytes data with
        | none => .error (.error (.other "Invalid blob data"))
        | some blob =>
          match kzg.blobToKzgCommitment blob with
          | .error message => .error (.error (.blobValidation (.kzgError message)))
          | .ok commitment =>
            if kzg.kzgToVersionedHash commitment ≠ hash then
              .error (.error (.blobValidation
                (.wrongVersionedHash (kzg.kzgToVersionedHash commitment) hash)))
            else .ok (some blob)
    else if response.status = 404 then .ok none
    else .error (.error (.other "S3 client HTTP error"))

inductive BlobProvider (Blob : Type) where
  | beacon (provider : BeaconClientProvider Blob)
  | s3

structure Replies (Blob Commitment Proof : Type) where
  blobs : ℕ → Fetched (List (BlobTransactionSidecarItem Blob Commitment Proof))
  s3 : Fetched S3Response

namespace BlobProvider

def blob (kzg : Kzg Blob Commitment Proof) (replies : Replies Blob Commitment Proof)
    (blockTimestamp : ℕ) (hash : B256) :
    BlobProvider Blob → BlobProvider Blob × Except BlobFailure (Option Blob)
  | .beacon provider =>
    let (provider, result) := provider.blob kzg replies.blobs blockTimestamp hash
    (.beacon provider, result)
  | .s3 => (.s3, S3BlobProvider.blob kzg replies.s3 hash)

def withTimeout (result : Except BlobFailure (Option Blob)) :
    Except BlobFailure (Option Blob) :=
  match result with
  | .error .pending => .error (.error (.other "blob source did not answer in time"))
  | result => result

/-- A panic is not caught; all else but a blob leads to the next provider. -/
def answer (result : Except BlobFailure (Option Blob)) : Answer Blob String :=
  match result with
  | .ok (some blob) => .found blob
  | .ok none => .next
  | .error (.panic message) => .stop message
  | .error _ => .next

def ask (kzg : Kzg Blob Commitment Proof) (replies : Replies Blob Commitment Proof)
    (blockTimestamp : ℕ) (hash : B256) (provider : BlobProvider Blob) :
    BlobProvider Blob × Answer Blob String :=
  let (provider, result) := provider.blob kzg replies blockTimestamp hash
  (provider, answer (withTimeout result))

end BlobProvider

structure BlobProviders (Blob : Type) (m n : ℕ) where
  beacon : Group (BlobProvider Blob) m
  backup : Group (BlobProvider Blob) n

structure BlobRequest (Blob Commitment Proof : Type) (m n : ℕ) where
  blockTimestamp : ℕ
  hash : B256
  beaconReplies : Fin m → Replies Blob Commitment Proof
  backupReplies : Fin n → Replies Blob Commitment Proof

variable {m n : ℕ}

def tryProviders (kzg : Kzg Blob Commitment Proof) (providers : Group (BlobProvider Blob) n)
    (replies : Fin n → Replies Blob Commitment Proof) (blockTimestamp : ℕ) (hash : B256) :
    Group (BlobProvider Blob) n × Answer Blob String :=
  askAll (fun i => BlobProvider.ask kzg (replies i) blockTimestamp hash) providers

def BlobProviders.blob (kzg : Kzg Blob Commitment Proof) (providers : BlobProviders Blob m n)
    (request : BlobRequest Blob Commitment Proof m n) :
    BlobProviders Blob m n × Except BlobFailure (Option Blob) :=
  if m = 0 ∧ n = 0 then (providers, .error (.error (.other "No blob providers available")))
  else
    let (beacon, answer) := tryProviders kzg providers.beacon request.beaconReplies
      request.blockTimestamp request.hash
    match answer with
    | .found blob => ({ providers with beacon := beacon }, .ok (some blob))
    | .stop message => ({ providers with beacon := beacon }, .error (.panic message))
    | .next =>
      let (backup, answer) := tryProviders kzg providers.backup request.backupReplies
        request.blockTimestamp request.hash
      match answer with
      | .found blob => (⟨beacon, backup⟩, .ok (some blob))
      | .stop message => (⟨beacon, backup⟩, .error (.panic message))
      | .next => (⟨beacon, backup⟩, .ok none)

def Authentic (kzg : Kzg Blob Commitment Proof) (hash : B256) (blob : Blob) : Prop :=
  ∃ commitment, kzg.blobToKzgCommitment blob = .ok commitment ∧
    kzg.kzgToVersionedHash commitment = hash

variable {kzg : Kzg Blob Commitment Proof}

theorem BlobTransactionSidecarItem.authentic_of_verified
    {item : BlobTransactionSidecarItem Blob Commitment Proof}
    (h : item.verifyBlobKzgProof kzg = .ok ()) :
    Authentic kzg (item.toKzgVersionedHash kzg) item.blob := by
  rw [BlobTransactionSidecarItem.verifyBlobKzgProof] at h
  split at h
  · cases h
  · rename_i hverified
    exact ⟨item.kzgCommitment, kzg.sound _ _ _ hverified, rfl⟩
  · cases h

namespace BeaconClientProvider

theorem authentic_of_authenticate {items : List (BlobTransactionSidecarItem Blob Commitment Proof)}
    (h : authenticate kzg items = .ok ()) :
    ∀ item ∈ items, Authentic kzg (item.toKzgVersionedHash kzg) item.blob := by
  induction items with
  | nil =>
    intro item hitem
    cases hitem
  | cons first items ih =>
    change (first.verifyBlobKzgProof kzg >>= fun _ => authenticate kzg items) = .ok () at h
    obtain ⟨_, hfirst, hrest⟩ := ExceptTraversal.bind_eq_ok.1 h
    exact List.forall_mem_cons.2
      ⟨BlobTransactionSidecarItem.authentic_of_verified hfirst, ih hrest⟩

end BeaconClientProvider

namespace BlobProvider

def Trusted (kzg : Kzg Blob Commitment Proof) : BlobProvider Blob → Prop
  | .beacon provider => provider.cache.Holds (Authentic kzg)
  | .s3 => True

def SlotsDefined : BlobProvider Blob → Prop
  | .beacon provider => provider.slotInterval ≠ 0
  | .s3 => True

/-- What a request keeps of a provider, and what its result can be. -/
structure Answered (kzg : Kzg Blob Commitment Proof) (hash : B256)
    (provider provider' : BlobProvider Blob) (result : Except BlobFailure (Option Blob)) :
    Prop where
  trusted : provider.Trusted kzg →
    provider'.Trusted kzg ∧ ∀ b, result = .ok (some b) → Authentic kzg hash b
  slots : provider.SlotsDefined →
    provider'.SlotsDefined ∧ ∀ message, result ≠ .error (.panic message)

variable {provider : BlobProvider Blob} {hash : B256}

theorem Answered.failed {e : BlobFailure}
    (he : ∀ message, e = .panic message → ¬provider.SlotsDefined) :
    Answered kzg hash provider provider (.error e) where
  trusted h := ⟨h, fun b hb => by cases hb⟩
  slots h := ⟨h, fun message hc => he message (Except.error.inj hc) h⟩

theorem Answered.missing : Answered kzg hash provider provider (.ok none) where
  trusted h := ⟨h, fun b hb => by cases hb⟩
  slots h := ⟨h, fun message hc => by cases hc⟩

theorem Answered.found {provider' : BlobProvider Blob} {b : Blob}
    (hblob : provider.Trusted kzg → provider'.Trusted kzg ∧ Authentic kzg hash b)
    (hslots : provider.SlotsDefined → provider'.SlotsDefined) :
    Answered kzg hash provider provider' (.ok (some b)) where
  trusted h := by
    refine ⟨(hblob h).1, ?_⟩
    intro c hc
    cases hc
    exact (hblob h).2
  slots h := ⟨hslots h, fun message hc => by cases hc⟩

theorem answered_beacon (provider : BeaconClientProvider Blob)
    (blobs : ℕ → Fetched (List (BlobTransactionSidecarItem Blob Commitment Proof)))
    (blockTimestamp : ℕ) :
    Answered kzg hash (.beacon provider)
      (.beacon (provider.blob kzg blobs blockTimestamp hash).1)
      (provider.blob kzg blobs blockTimestamp hash).2 := by
  unfold BeaconClientProvider.blob
  cases hget : provider.cache.get hash with
  | mk found cache =>
    cases found with
    | some b =>
      refine .found ?_ id
      intro hcache
      obtain rfl : (provider.cache.get hash).2 = cache := congrArg Prod.snd hget
      exact ⟨hcache.get hash, hcache (hash, b) (Cache.mem_of_get hget)⟩
    | none =>
      simp only
      cases hslot : provider.slot blockTimestamp with
      | error e =>
        refine .failed ?_
        rintro message rfl hinterval
        have hinterval : provider.slotInterval ≠ 0 := hinterval
        simp only [BeaconClientProvider.slot, if_neg hinterval] at hslot
        split at hslot
        · cases hslot
        · cases hslot
      | ok slot =>
        simp only
        cases blobs slot with
        | late => exact .failed (fun message h => by cases h)
        | failed message => exact .failed (fun message h => by cases h)
        | received items =>
          simp only
          cases hposition : items.findIdx? (fun item => item.toKzgVersionedHash kzg = hash) with
          | none => exact .missing
          | some position =>
            obtain ⟨hlt, hhash, -⟩ := List.findIdx?_eq_some_iff_getElem.1 hposition
            simp only
            cases hverified : BeaconClientProvider.authenticate kzg items with
            | error e => exact .failed (fun message h => by cases h)
            | ok _ =>
              have hall := BeaconClientProvider.authentic_of_authenticate hverified
              simp only [List.getElem?_eq_getElem hlt]
              refine .found ?_ id
              intro hcache
              constructor
              · refine hcache.putAll ?_
                intro entry hentry
                obtain ⟨other, hother, rfl⟩ := List.mem_map.1 hentry
                exact hall other (List.mem_of_mem_eraseIdx hother)
              · rw [← of_decide_eq_true hhash]
                exact hall _ (List.getElem_mem hlt)

theorem answered_s3 (response : Fetched S3Response) :
    Answered kzg hash .s3 .s3 (S3BlobProvider.blob kzg response hash) := by
  unfold S3BlobProvider.blob
  cases response with
  | late => exact .failed (fun message h => by cases h)
  | failed message => exact .failed (fun message h => by cases h)
  | received response =>
    simp only
    split
    · cases response.bytes with
      | late => exact .failed (fun message h => by cases h)
      | failed message => exact .failed (fun message h => by cases h)
      | received data =>
        simp only
        cases kzg.blobFromBytes data with
        | none => exact .failed (fun message h => by cases h)
        | some b =>
          simp only
          cases hcommitment : kzg.blobToKzgCommitment b with
          | error message => exact .failed (fun message h => by cases h)
          | ok commitment =>
            simp only
            split
            · exact .failed (fun message h => by cases h)
            · rename_i hsame
              exact .found (fun _ => ⟨trivial, commitment, hcommitment, not_not.1 hsame⟩) id
    · split
      · exact .missing
      · exact .failed (fun message h => by cases h)

/-- A trusted provider stays so and only gives authentic blobs; an interval of zero alone makes a
request panic. -/
theorem answered (provider : BlobProvider Blob) (replies : Replies Blob Commitment Proof)
    (blockTimestamp : ℕ) :
    Answered kzg hash provider (provider.blob kzg replies blockTimestamp hash).1
      (provider.blob kzg replies blockTimestamp hash).2 := by
  cases provider with
  | beacon provider => exact answered_beacon provider replies.blobs blockTimestamp
  | s3 => exact answered_s3 replies.s3

theorem answer_eq_found {result : Except BlobFailure (Option Blob)} {b : Blob} :
    answer (withTimeout result) = .found b ↔ result = .ok (some b) := by
  cases result with
  | ok blob =>
    cases blob with
    | none => simp [withTimeout, answer]
    | some c => simp [withTimeout, answer]
  | error e => cases e <;> simp [withTimeout, answer]

theorem answer_eq_stop {result : Except BlobFailure (Option Blob)} {message : String} :
    answer (withTimeout result) = .stop message ↔ result = .error (.panic message) := by
  cases result with
  | ok blob =>
    cases blob with
    | none => simp [withTimeout, answer]
    | some c => simp [withTimeout, answer]
  | error e => cases e <;> simp [withTimeout, answer]

end BlobProvider

namespace BlobProviders

def Each (p : BlobProvider Blob → Prop) (providers : BlobProviders Blob m n) : Prop :=
  (∀ i : Fin m, p (getElem providers.beacon.members i i.isLt)) ∧
    ∀ i : Fin n, p (getElem providers.backup.members i i.isLt)

def Answers (kzg : Kzg Blob Commitment Proof) (providers : BlobProviders Blob m n)
    (request : BlobRequest Blob Commitment Proof m n) : Prop :=
  (∃ (i : Fin m) (b : Blob), ((getElem providers.beacon.members i i.isLt).blob kzg
    (request.beaconReplies i) request.blockTimestamp request.hash).2 = .ok (some b)) ∨
  ∃ (i : Fin n) (b : Blob), ((getElem providers.backup.members i i.isLt).blob kzg
    (request.backupReplies i) request.blockTimestamp request.hash).2 = .ok (some b)

variable {providers : BlobProviders Blob m n}
  {p : BlobProvider Blob → Prop} {request : BlobRequest Blob Commitment Proof m n}

theorem blob_invariant {q : Blob → Prop} (hblob : ∀ provider, p provider → ∀ replies,
      p (provider.blob kzg replies request.blockTimestamp request.hash).1 ∧
      ∀ b, (provider.blob kzg replies request.blockTimestamp request.hash).2 = .ok (some b) → q b)
    (h : providers.Each p) :
    (providers.blob kzg request).1.Each p ∧
      ∀ b, (providers.blob kzg request).2 = .ok (some b) → q b := by
  have hask : ∀ replies provider, p provider →
      p (provider.ask kzg replies request.blockTimestamp request.hash).1 ∧
      ∀ b, (provider.ask kzg replies request.blockTimestamp request.hash).2 = .found b → q b := by
    intro replies provider hp
    obtain ⟨hkept, hfound⟩ := hblob provider hp replies
    exact ⟨hkept, fun b hb => hfound b (BlobProvider.answer_eq_found.1 hb)⟩
  obtain ⟨hbeacon, hbackup⟩ := h
  have hbeacons := askAll_invariant (fun i => hask (request.beaconReplies i)) hbeacon
  have hbackups := askAll_invariant (fun i => hask (request.backupReplies i)) hbackup
  unfold BlobProviders.blob tryProviders
  split
  · exact ⟨⟨hbeacon, hbackup⟩, fun b hb => by cases hb⟩
  · cases hfirst : askAll (fun i => BlobProvider.ask kzg (request.beaconReplies i)
        request.blockTimestamp request.hash) providers.beacon with
    | mk beacon answer =>
      rw [hfirst] at hbeacons
      cases answer with
      | found b =>
        refine ⟨⟨hbeacons.1, hbackup⟩, ?_⟩
        intro c hc
        cases hc
        exact hbeacons.2 b rfl
      | stop message => exact ⟨⟨hbeacons.1, hbackup⟩, fun b hb => by cases hb⟩
      | next =>
        cases hsecond : askAll (fun i => BlobProvider.ask kzg (request.backupReplies i)
            request.blockTimestamp request.hash) providers.backup with
        | mk backup answer =>
          rw [hsecond] at hbackups
          cases answer with
          | found b =>
            refine ⟨⟨hbeacons.1, hbackups.1⟩, ?_⟩
            intro c hc
            cases hc
            exact hbackups.2 b rfl
          | stop message => exact ⟨⟨hbeacons.1, hbackups.1⟩, fun b hb => by cases hb⟩
          | next => exact ⟨⟨hbeacons.1, hbackups.1⟩, fun b hb => by cases hb⟩

/-- A blob that one provider would answer with is returned. -/
theorem blob_found (hslots : providers.Each BlobProvider.SlotsDefined)
    (hanswers : providers.Answers kzg request) :
    ∃ b, (providers.blob kzg request).2 = .ok (some b) := by
  have hstop : ∀ replies (provider : BlobProvider Blob), provider.SlotsDefined → ∀ message,
      (provider.ask kzg replies request.blockTimestamp request.hash).2 ≠ .stop message := by
    intro replies provider hdefined message hstopped
    exact ((provider.answered replies _).slots hdefined).2 message
      (BlobProvider.answer_eq_stop.1 hstopped)
  have hfirst := askAll_cases (fun i e => hstop (request.beaconReplies i) _ (hslots.1 i) e)
  have hsecond := askAll_cases (fun i e => hstop (request.backupReplies i) _ (hslots.2 i) e)
  have hsome : ¬(m = 0 ∧ n = 0) := by
    rintro ⟨rfl, rfl⟩
    rcases hanswers with ⟨i, -⟩ | ⟨i, -⟩
    · exact i.elim0
    · exact i.elim0
  rw [BlobProviders.blob, if_neg hsome]
  simp only [tryProviders]
  rcases hfirst with ⟨b, hfirst⟩ | ⟨hfirst, hnone⟩
  · exact ⟨b, by rw [hfirst]⟩
  · rw [hfirst]
    rcases hsecond with ⟨b, hsecond⟩ | ⟨-, hnone'⟩
    · refine ⟨b, ?_⟩
      simp only [hsecond]
    · -- no provider answers, against the assumption
      rcases hanswers with ⟨i, b, hb⟩ | ⟨i, b, hb⟩
      · cases (hnone i).symm.trans (BlobProvider.answer_eq_found.2 hb)
      · cases (hnone' i).symm.trans (BlobProvider.answer_eq_found.2 hb)

def Fresh (providers : BlobProviders Blob m n) : Prop :=
  providers.Each (fun p => match p with
    | .beacon provider => provider.cache = .empty
    | .s3 => True)

theorem Fresh.trusted (h : providers.Fresh) : providers.Each (BlobProvider.Trusted kzg) := by
  have hone : ∀ p : BlobProvider Blob, (match p with
      | .beacon provider => provider.cache = .empty
      | .s3 => True) → p.Trusted kzg := by
    intro p hp
    cases p with
    | beacon provider =>
      rw [BlobProvider.Trusted, show provider.cache = .empty from hp]
      exact Cache.holds_empty
    | s3 => trivial
  exact ⟨fun i => hone _ (h.1 i), fun i => hone _ (h.2 i)⟩

def after (kzg : Kzg Blob Commitment Proof) (providers : BlobProviders Blob m n)
    (requests : List (BlobRequest Blob Commitment Proof m n)) : BlobProviders Blob m n :=
  run (fun providers request => (providers.blob kzg request).1) providers requests

theorem after_each (hblob : ∀ provider, p provider → ∀ replies blockTimestamp hash,
      p (provider.blob kzg replies blockTimestamp hash).1) (h : providers.Each p)
    (requests : List (BlobRequest Blob Commitment Proof m n)) :
    (providers.after kzg requests).Each p := by
  refine (meets_true _ providers requests).invariant _ (Each p) ?_ h
  intro providers request hp _
  refine (blob_invariant (q := fun _ => True) ?_ hp).1
  intro provider hprovider replies
  exact ⟨hblob provider hprovider replies _ _, fun _ _ => trivial⟩

/-- Whatever was requested and received before, the caches hold authentic blobs alone and a blob
returned is authentic; and when the slots of all providers are defined, a blob is returned
whenever one of them would answer with it. -/
theorem blobs_authentic_and_found (kzg : Kzg Blob Commitment Proof)
    (providers : BlobProviders Blob m n) (hfresh : providers.Fresh)
    (requests : List (BlobRequest Blob Commitment Proof m n))
    (request : BlobRequest Blob Commitment Proof m n) :
    (providers.after kzg requests).Each (BlobProvider.Trusted kzg) ∧
    (∀ b, ((providers.after kzg requests).blob kzg request).2 = .ok (some b) →
      Authentic kzg request.hash b) ∧
    (providers.Each BlobProvider.SlotsDefined → (providers.after kzg requests).Answers kzg request →
      ∃ b, ((providers.after kzg requests).blob kzg request).2 = .ok (some b)) := by
  have htrusted : (providers.after kzg requests).Each (BlobProvider.Trusted kzg) := by
    refine after_each ?_ hfresh.trusted requests
    exact fun provider hp replies _ _ => ((provider.answered replies _).trusted hp).1
  refine ⟨htrusted, ?_, ?_⟩
  · intro b hb
    refine (blob_invariant ?_ htrusted).2 b hb
    intro provider hp replies
    exact (provider.answered replies request.blockTimestamp).trusted hp
  · intro hslots hanswers
    refine blob_found (after_each ?_ hslots requests) hanswers
    exact fun provider hp replies _ _ => ((provider.answered replies _).slots hp).1

end BlobProviders
end

def plainKzg : Kzg Bytes Bytes Unit where
  blobFromBytes data := some data
  blobToKzgCommitment blob := .ok blob
  kzgToVersionedHash commitment := BitVec.ofNat 256 commitment.length
  verifyBlobKzgProof blob commitment _ := .ok (blob = commitment)
  sound blob commitment _ h := by
    have hsame : decide (blob = commitment) = true := Except.ok.inj h
    rw [of_decide_eq_true hsame]

def beaconAndS3 (slotInterval : ℕ) : BlobProviders Bytes 1 1 :=
  ⟨⟨#v[.beacon ⟨0, slotInterval, .empty⟩], 0⟩, ⟨#v[.s3], 0⟩⟩

def requestWithTwoReplies : BlobRequest Bytes Bytes Unit 1 1 where
  blockTimestamp := 24
  hash := 2
  beaconReplies _ := ⟨fun _ => .received [⟨0, [3, 4, 5], [1, 2], ()⟩], .late⟩
  backupReplies _ := ⟨fun _ => .late, .received ⟨200, .received [1, 2]⟩⟩

theorem fresh_beaconAndS3 (slotInterval : ℕ) : (beaconAndS3 slotInterval).Fresh := by
  refine ⟨?_, ?_⟩
  · intro i
    match i with
    | 0 => rfl
  · intro i
    match i with
    | 0 => trivial

/-- The wrong blob is rejected both times, and the other one is returned. -/
theorem blobs_authentic_and_found_s3 :
    ∃ b, (((beaconAndS3 12).after plainKzg [requestWithTwoReplies]).blob plainKzg
      requestWithTwoReplies).2 = .ok (some b) ∧ Authentic plainKzg 2 b := by
  obtain ⟨-, hauthentic, hfound⟩ := BlobProviders.blobs_authentic_and_found plainKzg (beaconAndS3 12)
    (fresh_beaconAndS3 12) [requestWithTwoReplies] requestWithTwoReplies
  have hslots : (beaconAndS3 12).Each BlobProvider.SlotsDefined := by
    refine ⟨?_, ?_⟩
    · intro i
      match i with
      | 0 => exact Nat.succ_ne_zero 11
    · intro i
      match i with
      | 0 => trivial
  obtain ⟨b, hb⟩ := hfound hslots (.inr ⟨0, [1, 2], rfl⟩)
  exact ⟨b, hb, hauthentic b hb⟩

/-- A beacon node that gives an interval of zero ends the request although S3 has the blob. -/
theorem blobs_not_found_zero_interval :
    (beaconAndS3 0).Fresh ∧
    (beaconAndS3 0).Answers plainKzg requestWithTwoReplies ∧
    ((beaconAndS3 0).blob plainKzg requestWithTwoReplies).2 =
      .error (.panic "attempt to divide by zero") :=
  ⟨fresh_beaconAndS3 0, .inr ⟨0, [1, 2], rfl⟩, rfl⟩

end RollupNode
