import RollupNode.GuardedRuns
import RollupNode.OrderedWork
import RollupNode.SignedBlocks

set_option autoImplicit false

/-! The signer: blocks are signed at the same time and handed out in the order of the requests. -/
namespace RollupNode.SignedBlocks
open GuardedRuns OrderedWork

def firstRetryDelay : ℕ := 1
def maxRetryDelay : ℕ := 30

/-- `sign_block` with the delay behind its next failed attempt, until it has a signature. -/
structure SignerFuture (Signature : Type) where
  block : Header
  delay : ℕ
  signature : Option Signature

/-- The signer with both channels of its handle and all requests that were sent. -/
structure Signer (Signature : Type) where
  requested : List Header
  requests : List Header
  inProgress : List (SignerFuture Signature)
  events : List (Header × Signature)
  handleOpen : Bool
  listening : Bool
  running : Bool

/-- An attempt that fails or times out has no signature. -/
inductive SignerAction (Digest Signature : Type) where
  | signBlock (block : Header)
  | closeHandle
  | closeListener
  | receive
  | attempt (place : ℕ) (signHash : Digest → Option Signature)
  | next
  | closed
  | exit

variable {Digest Address Signature : Type}

def SignerFuture.attempt (crypto : Crypto Digest Address Signature)
    (signHash : Digest → Option Signature) (future : SignerFuture Signature) :
    SignerFuture Signature :=
  match future.signature, signHash (future.block.sigEncodeHash crypto) with
  | some _, _ => future
  | none, some signature => { future with signature := some signature }
  | none, none => { future with delay := min (future.delay * 2) maxRetryDelay }

namespace Signer

def new : Signer Signature := ⟨[], [], [], [], true, true, true⟩

/-- The branches of `run` are taken in any order. With nobody listening, what is pending is dropped
when an event is sent or when the channel is seen to be closed. -/
def step (crypto : Crypto Digest Address Signature) (s : Signer Signature) :
    SignerAction Digest Signature → Signer Signature
  | .signBlock block =>
    if s.running && s.handleOpen then
      { s with requested := s.requested ++ [block], requests := s.requests ++ [block] }
    else s
  | .closeHandle => { s with handleOpen := false }
  | .closeListener => { s with listening := false }
  | .receive =>
    match s.running, s.requests with
    | true, block :: rest => { s with
      requests := rest
      inProgress := s.inProgress ++ [⟨block, firstRetryDelay, none⟩] }
    | _, _ => s
  | .attempt place signHash =>
    if s.running then
      { s with inProgress := s.inProgress.modify place (·.attempt crypto signHash) }
    else s
  | .next =>
    match s.running, s.inProgress with
    | true, ⟨block, _, some signature⟩ :: rest =>
      if s.listening then
        { s with inProgress := rest, events := s.events ++ [(block, signature)] }
      else { s with running := false }
    | _, _ => s
  | .closed =>
    if !s.listening && !s.inProgress.isEmpty then { s with running := false } else s
  | .exit =>
    if !s.handleOpen && s.requests.isEmpty && s.inProgress.isEmpty then { s with running := false }
    else s

end Signer

def SignerFuture.job (future : SignerFuture Signature) : Job Header (Header × Signature) :=
  ⟨future.block, future.signature.map (future.block, ·)⟩

namespace Signer
variable {crypto : Crypto Digest Address Signature} {s : Signer Signature} {address : Address}

def jobs (s : Signer Signature) : List (Job Header (Header × Signature)) :=
  s.inProgress.map SignerFuture.job ++ submitted s.requests

def Signed (crypto : Crypto Digest Address Signature) (address : Address) (block : Header)
    (event : Header × Signature) : Prop :=
  event.1 = block ∧ crypto.recoverSigner event.2 (block.sigEncodeHash crypto) = .ok address

def Accepted [DecidableEq Address] (crypto : Crypto Digest Address Signature) (address : Address)
    (block : Header) (event : Header × Signature) : Prop :=
  event.1 = block ∧ SystemContractConsensus.validateNewBlock crypto ⟨address⟩ event.1 event.2 = .ok ()

def SignsFor (crypto : Crypto Digest Address Signature) (address : Address) :
    SignerAction Digest Signature → Prop
  | .attempt _ signHash => ∀ hash, ∀ signature ∈ signHash hash,
      crypto.recoverSigner signature hash = .ok address
  | _ => True

structure Sound (crypto : Crypto Digest Address Signature) (address : Address)
    (s : Signer Signature) : Prop where
  inOrder : InOrder (Signed crypto address) s.requested s.events s.jobs
  drained : s.running = false → s.listening = true → s.jobs = []

theorem sound_new : Sound crypto address (new : Signer Signature) :=
  ⟨.nil, fun h => (by cases h)⟩

theorem sound_attempt (h : s.Sound crypto address) (place : ℕ) {signHash : Digest → Option Signature}
    (hsigns : ∀ hash, ∀ signature ∈ signHash hash,
      crypto.recoverSigner signature hash = .ok address) :
    Sound crypto address
      { s with inProgress := s.inProgress.modify place (·.attempt crypto signHash) } := by
  have hblock : ∀ future : SignerFuture Signature,
      (future.attempt crypto signHash).job.request = future.job.request := by
    intro future
    unfold SignerFuture.attempt
    split <;> rfl
  refine ⟨h.inOrder.finish ?_ ?_, ?_⟩
  · simp only [jobs, requests_append]
    congr 1
    unfold OrderedWork.requests
    rw [List.map_map, List.map_map]
    exact map_modify _ _ hblock s.inProgress place
  · have hdone := h.inOrder.done
    intro job hjob
    rcases List.mem_append.1 hjob with hjob | hjob
    · obtain ⟨future, hfuture, rfl⟩ := List.mem_map.1 hjob
      rcases mem_modify hfuture with hkept | ⟨old, hold, rfl⟩
      · exact hdone _ (List.mem_append_left _ (List.mem_map_of_mem hkept))
      · have hold := hdone _ (List.mem_append_left _
          (List.mem_map_of_mem (List.mem_of_getElem? hold)))
        intro event hevent
        rw [hblock]
        unfold SignerFuture.attempt at hevent
        split at hevent
        · exact hold event hevent
        · rename_i signature _ hsignature
          cases hevent
          exact ⟨rfl, hsigns _ signature hsignature⟩
        · exact hold event hevent
    · exact hdone _ (List.mem_append_right _ hjob)
  · intro hstopped hlistening
    have hjobs := List.append_eq_nil_iff.1 (h.drained hstopped hlistening)
    have hnone : s.inProgress = [] := List.map_eq_nil_iff.1 hjobs.1
    simp only [jobs, hnone, List.modify_nil]
    exact hjobs.2

/-- Each branch keeps the events and the open jobs in the order of the requests. -/
theorem sound_step (h : s.Sound crypto address) {action : SignerAction Digest Signature}
    (haction : SignsFor crypto address action) : (s.step crypto action).Sound crypto address := by
  cases action with
  | signBlock block =>
    simp only [step]
    split
    · rename_i hopen
      rw [Bool.and_eq_true] at hopen
      refine ⟨?_, ?_⟩
      · have hmore := h.inOrder.submit [block]
        simpa only [jobs, submitted, List.map_append, List.append_assoc] using hmore
      · intro hstopped
        rw [hopen.1] at hstopped
        cases hstopped
    · exact h
  | closeHandle => exact ⟨h.inOrder, h.drained⟩
  | closeListener => exact ⟨h.inOrder, fun _ hlistening => (by cases hlistening)⟩
  | receive =>
    simp only [step]
    split
    · rename_i block rest hrunning hrequests
      have hjobs : Signer.jobs { s with
          requests := rest
          inProgress := s.inProgress ++ [⟨block, firstRetryDelay, none⟩] } = s.jobs := by
        simp only [jobs, hrequests, submitted, List.map_append, List.map_cons, List.append_assoc]
        rfl
      refine ⟨hjobs.symm ▸ h.inOrder, ?_⟩
      intro hstopped
      rw [hrunning] at hstopped
      cases hstopped
    · exact h
  | attempt place signHash =>
    simp only [step]
    split
    · exact sound_attempt h place haction
    · exact h
  | next =>
    simp only [step]
    split
    · rename_i block delay signature rest hrunning hfutures
      split
      · have hinOrder := h.inOrder
        rw [jobs, hfutures] at hinOrder
        refine ⟨hinOrder.take, ?_⟩
        intro hstopped
        rw [hrunning] at hstopped
        cases hstopped
      · rename_i hlistening
        exact ⟨h.inOrder, fun _ hlistens => absurd hlistens hlistening⟩
    · exact h
  | closed =>
    simp only [step]
    split
    · rename_i hclosed
      simp only [Bool.and_eq_true, Bool.not_eq_true'] at hclosed
      refine ⟨h.inOrder, ?_⟩
      intro _ hlistening
      rw [hclosed.1] at hlistening
      cases hlistening
    · exact h
  | exit =>
    simp only [step]
    split
    · rename_i hidle
      simp only [Bool.and_eq_true, List.isEmpty_iff] at hidle
      refine ⟨h.inOrder, ?_⟩
      intro _ _
      simp only [jobs, hidle.1.2, hidle.2]
      rfl
    · exact h

theorem sound_run {actions : List (SignerAction Digest Signature)}
    (hactions : ∀ action ∈ actions, SignsFor crypto address action) (h : s.Sound crypto address) :
    (run (step crypto) s actions).Sound crypto address :=
  (meets_of_forall (step crypto) hactions s).invariant (step crypto) (Sound crypto address)
    (fun _ _ h haction => sound_step h haction) h

theorem Sound.all_of_drained (h : s.Sound crypto address) (hjobs : s.jobs = []) :
    s.events.map Prod.fst = s.requested := by
  have hlength := h.inOrder.length
  rw [hjobs, List.length_nil, Nat.add_zero] at hlength
  have hanswered := h.inOrder.forall₂_take
  rw [← hlength, List.take_length] at hanswered
  have hsame : List.Forall₂ (· = ·) s.requested (s.events.map Prod.fst) :=
    List.forall₂_map_right_iff.2 (hanswered.imp (fun _ _ hsigned => hsigned.1.symm))
  exact (List.forall₂_eq_eq_eq ▸ hsame : s.requested = _).symm

def echoCrypto : Crypto Bytes Unit Bytes where
  keccak256 := id
  keccak256_injective := Function.injective_id
  recoverSigner signature digest := if signature = digest then .ok () else .error "other digest"
  one_message signature digest digest' signer h h' := by
    split at h
    · split at h'
      · simp_all
      · cases h'
    · cases h
  fromRaw bytes := some bytes

theorem length_no_bytes : ([] : Bytes).length < 2 ^ 63 := by decide

def plainFirst : Header := plainHeader [] length_no_bytes

def plainSecond : Header := { plainFirst with number := 23 }

def firstFails : List (SignerAction Bytes Bytes) :=
  [.signBlock plainFirst, .signBlock plainSecond, .receive, .receive, .attempt 1 some, .next,
    .attempt 0 (fun _ => none), .attempt 0 some, .next]

theorem firstFails_signs : ∀ action ∈ firstFails, SignsFor echoCrypto () action := by
  simp [firstFails, SignsFor, echoCrypto]

/-- Whatever the order in which blocks are requested and attempts end, the blocks are handed out in
the order of the requests with signatures that the network accepts. While somebody listens, the
signer ends only when every block has been handed out. -/
theorem signed_in_order [DecidableEq Address] (crypto : Crypto Digest Address Signature)
    (address : Address) (actions : List (SignerAction Digest Signature))
    (hactions : ∀ action ∈ actions, SignsFor crypto address action) :
    let s := run (step crypto) new actions
    List.Forall₂ (Accepted crypto address) (s.requested.take s.events.length) s.events ∧
    (s.running = false → s.listening = true → s.events.map Prod.fst = s.requested) := by
  intro s
  have hsound : s.Sound crypto address := sound_run hactions sound_new
  refine ⟨hsound.inOrder.forall₂_take.imp ?_, ?_⟩
  · rintro block event ⟨rfl, hrecovered⟩
    refine ⟨rfl, ?_⟩
    rw [SystemContractConsensus.validateNewBlock, hrecovered]
    exact if_neg (not_not_intro rfl)
  · intro hstopped hlistening
    exact hsound.all_of_drained (hsound.drained hstopped hlistening)

theorem signed_in_order_firstFails :
    List.Forall₂ (Accepted echoCrypto ()) [plainFirst]
      [(plainFirst, plainFirst.sigEncodeHash echoCrypto)] :=
  (signed_in_order echoCrypto () firstFails firstFails_signs).1

/-- An answer for the oldest block in progress hands it out. -/
theorem run_first (crypto : Crypto Digest Address Signature) (hrunning : s.running = true)
    (hlistening : s.listening = true)
    {future : SignerFuture Signature} {rest : List (SignerFuture Signature)}
    (hfutures : s.inProgress = future :: rest) (sign : Digest → Signature) :
    ∃ event, run (step crypto) s [.attempt 0 (some ∘ sign), .next] =
      { s with inProgress := rest, events := s.events ++ [event] } := by
  obtain ⟨block, delay, signature⟩ := future
  cases signature with
  | none =>
    refine ⟨(block, sign (block.sigEncodeHash crypto)), ?_⟩
    simp [run, step, hrunning, hlistening, hfutures, SignerFuture.attempt]
  | some signature =>
    refine ⟨(block, signature), ?_⟩
    simp [run, step, hrunning, hlistening, hfutures, SignerFuture.attempt]

theorem exists_drained {sign : Digest → Signature}
    (hsign : ∀ hash, crypto.recoverSigner (sign hash) hash = .ok address)
    (hrunning : s.running = true) (hlistening : s.listening = true) :
    ∃ more, (∀ action ∈ more, SignsFor crypto address action) ∧
      (run (step crypto) s more).jobs = [] ∧ (run (step crypto) s more).requested = s.requested := by
  have hanswers : ∀ action ∈ [SignerAction.attempt 0 (some ∘ sign), .next],
      SignsFor crypto address action := by
    simp only [List.mem_cons, List.not_mem_nil, or_false]
    rintro action (rfl | rfl)
    · rintro hash signature hsignature
      cases hsignature
      exact hsign hash
    · trivial
  -- on what is left: first what is in progress, then what is only requested
  obtain ⟨n, hn⟩ : ∃ n, s.requests.length + s.jobs.length = n := ⟨_, rfl⟩
  induction n using Nat.strong_induction_on generalizing s with
  | _ n ih =>
    cases hfutures : s.inProgress with
    | cons future rest =>
      obtain ⟨event, hstep⟩ := run_first crypto hrunning hlistening hfutures sign
      obtain ⟨more, hmore, hdrained⟩ := ih _ (by
        rw [← hn]
        simp only [jobs, hfutures, List.map_cons, List.cons_append, List.length_cons]
        omega) (s := { s with inProgress := rest, events := s.events ++ [event] }) hrunning hlistening rfl
      refine ⟨[.attempt 0 (some ∘ sign), .next] ++ more, ?_, ?_⟩
      · exact List.forall_mem_append.2 ⟨hanswers, hmore⟩
      · rw [run_append, hstep]
        exact hdrained
    | nil =>
      cases hrequests : s.requests with
      | nil =>
        refine ⟨[], fun _ h => (by cases h), ?_, rfl⟩
        simp only [run, List.foldl_nil, jobs, hfutures, hrequests]
        rfl
      | cons block rest =>
        have hstep : run (step crypto) s [.receive] = { s with
            requests := rest
            inProgress := s.inProgress ++ [⟨block, firstRetryDelay, none⟩] } := by
          simp only [run, List.foldl_cons, List.foldl_nil, step, hrunning, hrequests]
        obtain ⟨more, hmore, hdrained⟩ := ih _ (by
          rw [← hn]
          simp only [jobs, hfutures, hrequests, submitted, List.length_append, List.length_map,
            List.length_cons, List.length_nil]
          omega) (s := { s with
            requests := rest
            inProgress := s.inProgress ++ [⟨block, firstRetryDelay, none⟩] }) hrunning hlistening rfl
        refine ⟨[.receive] ++ more, ?_, ?_⟩
        · exact List.forall_mem_append.2 ⟨List.forall_mem_singleton.2 trivial, hmore⟩
        · rw [run_append, hstep]
          exact hdrained

/-- No block is ever stuck: in every state the signer can come to while somebody listens, answers of
the key of the address are enough to hand out all blocks requested so far in order. -/
theorem all_handed_out (crypto : Crypto Digest Address Signature) (address : Address)
    (sign : Digest → Signature)
    (hsign : ∀ hash, crypto.recoverSigner (sign hash) hash = .ok address)
    (actions : List (SignerAction Digest Signature))
    (hactions : ∀ action ∈ actions, SignsFor crypto address action) :
    let s := run (step crypto) new actions
    s.running = true → s.listening = true →
      ∃ more, (∀ action ∈ more, SignsFor crypto address action) ∧
        (run (step crypto) s more).events.map Prod.fst = s.requested := by
  intro s hrunning hlistening
  obtain ⟨more, hmore, hjobs, hrequested⟩ := exists_drained hsign hrunning hlistening
  have hsound : s.Sound crypto address := sound_run hactions sound_new
  refine ⟨more, hmore, ?_⟩
  rw [← hrequested]
  exact (sound_run hmore hsound).all_of_drained hjobs

theorem all_handed_out_firstFails :
    ∃ more, (∀ action ∈ more, SignsFor echoCrypto () action) ∧
      (run (step echoCrypto) (run (step echoCrypto) new firstFails) more).events.map Prod.fst =
        [plainFirst, plainSecond] :=
  all_handed_out echoCrypto () id (fun _ => if_pos rfl) firstFails firstFails_signs rfl rfl

end Signer
end RollupNode.SignedBlocks
