import RollupNode.GuardedRuns
import RollupNode.OrderedWork
import RollupNode.Orchestrator

set_option autoImplicit false

/-! The derivation pipeline: requests, a worker with up to three derivations, results in order. -/
namespace RollupNode
open OrderedWork GuardedRuns

def derivationPipelineWorkerConcurrency : ℕ := 3
def derivationRetryInitialDelay : ℕ := 1
def derivationRetryMaxDelay : ℕ := 30

inductive DerivationPipelineError where
  | database (e : DatabaseError)
  | unknownBatch (index : ℕ)
  | derive (message : String)
  deriving DecidableEq, Repr

structure DerivationPipelineFuture where
  request : BatchRequest
  output : Option (Except DerivationPipelineError BatchDerivationResult)
  deriving DecidableEq, Repr

/-- What a derivation meets when it runs: the outcome of the database call, the rows at that
time, and the decoding of the batch it finds. -/
structure DerivationWorld where
  fault : Option DatabaseError
  db : Db
  decode : BatchCommitData → Except String (List DerivedAttributes × List ℕ)

/-- The batch is looked up by its index; the result carries the identity of the row that was
found and the target of the request. -/
def derivationFuture (request : BatchRequest) (world : DerivationWorld) :
    Except DerivationPipelineError BatchDerivationResult :=
  match world.fault, world.db.getBatchByIndex request.batchInfo.index with
  | some e, _ => .error (.database e)
  | none, none => .error (.unknownBatch request.batchInfo.index)
  | none, some batch =>
    match world.decode batch with
    | .error message => .error (.derive message)
    | .ok (attributes, skipped) => .ok ⟨attributes, batch.batchInfo, skipped, request.targetStatus⟩

/-- The pipeline with its worker. `len` is the pipeline's own count and `retryDelay` the
worker's next delay in seconds. -/
structure DerivationPipeline where
  requests : List BatchRequest
  futures : List DerivationPipelineFuture
  results : List BatchDerivationResult
  len : ℕ
  retryDelay : ℕ

inductive PipelineAction where
  | pushBatch (batchInfo : BatchInfo) (targetStatus : BatchStatus)
  | receive
  | finishes (place : ℕ) (world : DerivationWorld)
  | next
  | pollNext

namespace DerivationPipeline

def new : DerivationPipeline := ⟨[], [], [], 0, derivationRetryInitialDelay⟩

def pushBatch (p : DerivationPipeline) (batchInfo : BatchInfo) (targetStatus : BatchStatus) :
    DerivationPipeline :=
  { p with requests := p.requests ++ [⟨batchInfo, targetStatus⟩], len := p.len + 1 }

def isEmpty (p : DerivationPipeline) : Bool := p.len = 0

def receive (p : DerivationPipeline) : DerivationPipeline :=
  match p.requests with
  | [] => p
  | request :: rest =>
    if p.futures.length < derivationPipelineWorkerConcurrency then
      { p with requests := rest, futures := p.futures ++ [⟨request, none⟩] }
    else p

def finishes (p : DerivationPipeline) (place : ℕ) (world : DerivationWorld) : DerivationPipeline :=
  { p with
    futures := p.futures.modify place (fun future => match future.output with
      | none => { future with output := some (derivationFuture future.request world) }
      | some _ => future) }

/-- The output of the first future: a result is sent on, a failure goes back to the front. -/
def next (p : DerivationPipeline) : DerivationPipeline :=
  match p.futures with
  | ⟨_, some (.ok result)⟩ :: rest =>
    { p with
      futures := rest
      results := p.results ++ [result]
      retryDelay := derivationRetryInitialDelay }
  | ⟨request, some (.error _)⟩ :: rest =>
    { p with
      futures := ⟨request, none⟩ :: rest
      retryDelay := min (2 * p.retryDelay) derivationRetryMaxDelay }
  | _ => p

def pollNext (p : DerivationPipeline) : DerivationPipeline × Option BatchDerivationResult :=
  match p.results with
  | [] => (p, none)
  | result :: rest => ({ p with results := rest, len := p.len - 1 }, some result)

end DerivationPipeline

structure PipelineRun where
  pipeline : DerivationPipeline
  pushed : List BatchRequest
  yielded : List BatchDerivationResult

namespace PipelineRun

def new : PipelineRun := ⟨.new, [], []⟩

def step (s : PipelineRun) : PipelineAction → PipelineRun
  | .pushBatch batchInfo targetStatus =>
    { s with
      pipeline := s.pipeline.pushBatch batchInfo targetStatus
      pushed := s.pushed ++ [⟨batchInfo, targetStatus⟩] }
  | .receive => { s with pipeline := s.pipeline.receive }
  | .finishes place world => { s with pipeline := s.pipeline.finishes place world }
  | .next => { s with pipeline := s.pipeline.next }
  | .pollNext =>
    { s with
      pipeline := s.pipeline.pollNext.1
      yielded := s.yielded ++ s.pipeline.pollNext.2.toList }

end PipelineRun

/-- The result answers the request: it has its index and its target. -/
def Answers (request : BatchRequest) (result : BatchDerivationResult) : Prop :=
  result.batchInfo.index = request.batchInfo.index ∧ result.targetStatus = request.targetStatus

theorem Db.getBatchByIndex_index {db : Db} {index : ℕ} {batch : BatchCommitData}
    (h : db.getBatchByIndex index = some batch) : batch.index = index := by
  obtain ⟨r, hr, rfl⟩ := Option.map_eq_some_iff.1 h
  have hfound := List.find?_some hr
  exact (of_decide_eq_true hfound).1

theorem derivationFuture_answers {request : BatchRequest} {world : DerivationWorld}
    {result : BatchDerivationResult} (h : derivationFuture request world = .ok result) :
    Answers request result := by
  unfold derivationFuture at h
  split at h
  · cases h
  · cases h
  · rename_i batch _ hbatch
    split at h
    · cases h
    · cases h
      exact ⟨Db.getBatchByIndex_index hbatch, rfl⟩

namespace DerivationPipelineFuture

def job (future : DerivationPipelineFuture) : Job BatchRequest BatchDerivationResult :=
  ⟨future.request, future.output.bind (·.toOption)⟩

end DerivationPipelineFuture

namespace DerivationPipeline

/-- Everything in flight, oldest first; `delivered` are the requests of the results that wait in
the channel. -/
def jobs (p : DerivationPipeline) (delivered : List BatchRequest) :
    List (Job BatchRequest BatchDerivationResult) :=
  List.zipWith (fun request result => ⟨request, some result⟩) delivered p.results ++
    p.futures.map DerivationPipelineFuture.job ++ submitted p.requests

def Counted (p : DerivationPipeline) : Prop :=
  p.len = p.results.length + p.futures.length + p.requests.length

theorem jobs_length {delivered : List BatchRequest} (p : DerivationPipeline)
    (h : delivered.length = p.results.length) :
    (p.jobs delivered).length = p.results.length + p.futures.length + p.requests.length := by
  simp [jobs, submitted, h, Nat.add_assoc]

/-- What is in flight, oldest first: requests whose results wait in the channel, requests that are
being derived, and requests that no worker has taken. -/
def InFlight (p : DerivationPipeline) (queue : List BatchRequest) : Prop :=
  ∃ delivered, List.Forall₂ Answers delivered p.results ∧
    queue = delivered ++ p.futures.map (·.request) ++ p.requests

theorem inFlight_jobs {delivered : List BatchRequest} (p : DerivationPipeline)
    (h : delivered.length = p.results.length) (hdone : Done Answers (p.jobs delivered)) :
    p.InFlight (OrderedWork.requests (p.jobs delivered)) := by
  unfold jobs at hdone ⊢
  rw [← List.map_uncurry_zip_eq_zipWith] at hdone ⊢
  refine ⟨delivered, List.forall₂_iff_zip.2 ⟨h, ?_⟩, ?_⟩
  · intro request result hpair
    refine hdone ⟨request, some result⟩ ?_ result rfl
    exact List.mem_append_left _ (List.mem_append_left _ (List.mem_map_of_mem hpair))
  · have hdelivered : (delivered.zip p.results).map Prod.fst = delivered :=
      List.map_fst_zip (Nat.le_of_eq h)
    rw [requests_append, requests_append, requests_submitted]
    simp only [OrderedWork.requests, List.map_map]
    exact congrArg (· ++ _ ++ _) hdelivered

theorem jobs_pushBatch (p : DerivationPipeline) (delivered : List BatchRequest)
    (batchInfo : BatchInfo) (targetStatus : BatchStatus) :
    (p.pushBatch batchInfo targetStatus).jobs delivered =
      p.jobs delivered ++ submitted [⟨batchInfo, targetStatus⟩] := by
  simp [jobs, pushBatch, submitted]

theorem jobs_receive (p : DerivationPipeline) (delivered : List BatchRequest) :
    p.receive.jobs delivered = p.jobs delivered := by
  unfold receive
  split
  · rfl
  · rename_i request rest hrequests
    split
    · simp [jobs, submitted, hrequests, DerivationPipelineFuture.job]
    · rfl

theorem jobs_next (p : DerivationPipeline) (delivered : List BatchRequest)
    (h : delivered.length = p.results.length) :
    ∃ delivered', delivered'.length = p.next.results.length ∧
      p.next.jobs delivered' = p.jobs delivered := by
  unfold next
  split
  · rename_i request result rest hfutures
    refine ⟨delivered ++ [request], by simp [h], ?_⟩
    simp only [jobs, hfutures, List.zipWith_append h, List.map_cons, List.zipWith_cons_cons,
      List.zipWith_nil_right, List.append_assoc]
    rfl
  · rename_i request e rest hfutures
    refine ⟨delivered, h, ?_⟩
    simp only [jobs, hfutures, List.map_cons]
    rfl
  · exact ⟨delivered, h, rfl⟩

theorem requests_jobs_finishes (p : DerivationPipeline) (delivered : List BatchRequest)
    (place : ℕ) (world : DerivationWorld) :
    OrderedWork.requests ((p.finishes place world).jobs delivered) =
      OrderedWork.requests (p.jobs delivered) := by
  have hfutures : OrderedWork.requests ((p.finishes place world).futures.map
      DerivationPipelineFuture.job) =
        OrderedWork.requests (p.futures.map DerivationPipelineFuture.job) := by
    unfold OrderedWork.requests
    rw [List.map_map, List.map_map]
    refine map_modify _ _ ?_ p.futures place
    intro future
    cases hout : future.output <;> simp [DerivationPipelineFuture.job, hout]
  unfold jobs
  rw [requests_append, requests_append, hfutures, requests_append, requests_append]
  rfl

theorem done_jobs_finishes {delivered : List BatchRequest}
    {R : BatchRequest → BatchDerivationResult → Prop} {p : DerivationPipeline} {place : ℕ}
    {world : DerivationWorld}
    (hfinishes : ∀ future, p.futures[place]? = some future → future.output = none →
      ∀ result, derivationFuture future.request world = .ok result → R future.request result)
    (h : Done R (p.jobs delivered)) : Done R ((p.finishes place world).jobs delivered) := by
  have hfutures : ∀ future ∈ p.futures, ∀ result ∈ future.job.result, R future.request result :=
    fun future hfuture =>
      h _ (List.mem_append_left _ (List.mem_append_right _ (List.mem_map_of_mem hfuture)))
  intro job hjob
  rcases List.mem_append.1 hjob with hjob | hjob
  · rcases List.mem_append.1 hjob with hjob | hjob
    · exact h job (List.mem_append_left _ (List.mem_append_left _ hjob))
    · obtain ⟨future, hfuture, rfl⟩ := List.mem_map.1 hjob
      rcases mem_modify hfuture with hkept | ⟨old, hold, rfl⟩
      · exact hfutures future hkept
      · cases hout : old.output with
        | some output =>
          simp only
          exact hfutures old (List.mem_of_getElem? hold)
        | none =>
          intro result hresult
          simp only [DerivationPipelineFuture.job, Option.bind_some] at hresult ⊢
          cases hderived : derivationFuture old.request world with
          | error e =>
            rw [hderived] at hresult
            cases hresult
          | ok derived =>
            rw [hderived] at hresult
            cases hresult
            exact hfinishes old hold hout _ hderived
  · exact h job (List.mem_append_right _ hjob)

end DerivationPipeline

namespace PipelineRun

/-- What has been yielded and what is in flight stands in the order of the pushes, every result
in the relation to its request. -/
def Ordered (R : BatchRequest → BatchDerivationResult → Prop) (s : PipelineRun) : Prop :=
  ∃ delivered, delivered.length = s.pipeline.results.length ∧
    InOrder R s.pushed s.yielded (s.pipeline.jobs delivered)

/-- The step completes a derivation only with a result in the relation to its request. -/
def FinishesIn (R : BatchRequest → BatchDerivationResult → Prop) (s : PipelineRun) :
    PipelineAction → Prop
  | .finishes place world => ∀ future, s.pipeline.futures[place]? = some future →
      future.output = none → ∀ result, derivationFuture future.request world = .ok result →
      R future.request result
  | _ => True

section
variable {R : BatchRequest → BatchDerivationResult → Prop} {s : PipelineRun}

theorem ordered_new : PipelineRun.new.Ordered R := ⟨[], rfl, .nil⟩

theorem ordered_pollNext (h : s.Ordered R) : (s.step .pollNext).Ordered R := by
  obtain ⟨delivered, hdelivered, hinOrder⟩ := h
  unfold step DerivationPipeline.pollNext
  cases hresults : s.pipeline.results with
  | nil =>
    refine ⟨delivered, by simpa [hresults] using hdelivered, ?_⟩
    simpa using hinOrder
  | cons result rest =>
    rw [hresults] at hdelivered
    cases delivered with
    | nil => cases hdelivered
    | cons request others =>
      refine ⟨others, Nat.succ.inj hdelivered, ?_⟩
      rw [DerivationPipeline.jobs, hresults] at hinOrder
      exact hinOrder.take

theorem ordered_step (h : s.Ordered R) {action : PipelineAction} (haction : FinishesIn R s action) :
    (s.step action).Ordered R := by
  cases action with
  | pollNext => exact ordered_pollNext h
  | next =>
    obtain ⟨delivered, hdelivered, hinOrder⟩ := h
    obtain ⟨delivered', hdelivered', hjobs⟩ := s.pipeline.jobs_next delivered hdelivered
    exact ⟨delivered', hdelivered', hjobs.symm ▸ hinOrder⟩
  | pushBatch batchInfo targetStatus =>
    obtain ⟨delivered, hdelivered, hinOrder⟩ := h
    refine ⟨delivered, hdelivered, ?_⟩
    change InOrder R _ _ ((s.pipeline.pushBatch batchInfo targetStatus).jobs delivered)
    rw [DerivationPipeline.jobs_pushBatch]
    exact hinOrder.submit [⟨batchInfo, targetStatus⟩]
  | receive =>
    obtain ⟨delivered, hdelivered, hinOrder⟩ := h
    have hresults : s.pipeline.receive.results = s.pipeline.results := by
      unfold DerivationPipeline.receive
      split
      · rfl
      · split <;> rfl
    refine ⟨delivered, hdelivered.trans (congrArg List.length hresults.symm), ?_⟩
    change InOrder R _ _ (s.pipeline.receive.jobs delivered)
    rw [DerivationPipeline.jobs_receive]
    exact hinOrder
  | finishes place world =>
    obtain ⟨delivered, hdelivered, hinOrder⟩ := h
    exact ⟨delivered, hdelivered,
      hinOrder.finish (s.pipeline.requests_jobs_finishes delivered place world)
        (DerivationPipeline.done_jobs_finishes haction hinOrder.done)⟩

end

structure Sound (s : PipelineRun) : Prop where
  inOrder : ∃ delivered, delivered.length = s.pipeline.results.length ∧
    InOrder Answers s.pushed s.yielded (s.pipeline.jobs delivered)
  counted : s.pipeline.Counted
  concurrency : s.pipeline.futures.length ≤ derivationPipelineWorkerConcurrency

theorem counted_step {s : PipelineRun} (h : s.pipeline.Counted) (action : PipelineAction) :
    (s.step action).pipeline.Counted := by
  unfold DerivationPipeline.Counted at h ⊢
  cases action with
  | pushBatch batchInfo targetStatus =>
    simp only [step, DerivationPipeline.pushBatch, List.length_append, List.length_singleton]
    omega
  | receive =>
    simp only [step, DerivationPipeline.receive]
    split
    · exact h
    · rename_i request rest hrequests
      split
      · simp only [hrequests, List.length_cons, List.length_append, List.length_nil] at h ⊢
        omega
      · exact h
  | finishes place world =>
    simp only [step, DerivationPipeline.finishes, List.length_modify]
    exact h
  | next =>
    simp only [step, DerivationPipeline.next]
    split
    · rename_i hfutures
      simp only [hfutures, List.length_cons, List.length_append, List.length_nil] at h ⊢
      omega
    · rename_i hfutures
      simp only [hfutures, List.length_cons] at h ⊢
      omega
    · exact h
  | pollNext =>
    simp only [step, DerivationPipeline.pollNext]
    split
    · exact h
    · rename_i hresults
      simp only [hresults, List.length_cons] at h ⊢
      omega

theorem concurrency_step {s : PipelineRun}
    (h : s.pipeline.futures.length ≤ derivationPipelineWorkerConcurrency) (action : PipelineAction) :
    (s.step action).pipeline.futures.length ≤ derivationPipelineWorkerConcurrency := by
  cases action with
  | pushBatch batchInfo targetStatus => exact h
  | receive =>
    simp only [step, DerivationPipeline.receive]
    split
    · exact h
    · split
      · rename_i hroom
        rw [List.length_append]
        exact hroom
      · exact h
  | finishes place world => exact (List.length_modify _ _ _).le.trans h
  | next =>
    simp only [step, DerivationPipeline.next]
    split
    · rename_i hfutures
      rw [hfutures, List.length_cons] at h
      exact (Nat.le_succ _).trans h
    · rename_i hfutures
      rw [hfutures] at h
      exact h
    · exact h
  | pollNext =>
    simp only [step, DerivationPipeline.pollNext]
    split <;> exact h

theorem finishesIn_answers (s : PipelineRun) (action : PipelineAction) :
    FinishesIn Answers s action := by
  cases action with
  | finishes place world => exact fun _ _ _ _ hderived => derivationFuture_answers hderived
  | _ => trivial

/-- Pushes, polls and the work of the pipeline keep the results in order. -/
theorem sound_step {s : PipelineRun} (h : s.Sound) (action : PipelineAction) :
    (s.step action).Sound :=
  ⟨ordered_step h.inOrder (finishesIn_answers s action), counted_step h.counted action,
    concurrency_step h.concurrency action⟩

theorem sound_new : PipelineRun.new.Sound :=
  ⟨⟨[], rfl, .nil⟩, rfl, Nat.zero_le _⟩

/-- The results answer the requests one by one, in the order of the pushes, the other requests are
in flight, and the count is that of the requests without a result. -/
structure ExactlyOnce (s : PipelineRun) : Prop where
  inOrder : List.Forall₂ Answers (s.pushed.take s.yielded.length) s.yielded
  inFlight : s.pipeline.InFlight (s.pushed.drop s.yielded.length)
  len : s.pipeline.len + s.yielded.length = s.pushed.length
  empty : s.pipeline.isEmpty → s.pipeline.requests = [] ∧ s.pipeline.futures = [] ∧
    s.pipeline.results = [] ∧ s.yielded.length = s.pushed.length
  concurrency : s.pipeline.futures.length ≤ derivationPipelineWorkerConcurrency

theorem Sound.exactlyOnce {s : PipelineRun} (h : s.Sound) : s.ExactlyOnce := by
  obtain ⟨⟨delivered, hdelivered, hinOrder⟩, hcounted, hconcurrency⟩ := h
  unfold DerivationPipeline.Counted at hcounted
  have hlength := hinOrder.length
  rw [DerivationPipeline.jobs_length _ hdelivered] at hlength
  have hinFlight := s.pipeline.inFlight_jobs hdelivered hinOrder.done
  rw [← hinOrder.drop_eq] at hinFlight
  refine ⟨hinOrder.forall₂_take, hinFlight, by omega, ?_, hconcurrency⟩
  intro hempty
  have hzero : s.pipeline.len = 0 := of_decide_eq_true hempty
  refine ⟨List.length_eq_zero_iff.1 ?_, List.length_eq_zero_iff.1 ?_,
    List.length_eq_zero_iff.1 ?_, ?_⟩
  · omega
  · omega
  · omega
  · omega

def pending (s : PipelineRun) : List BatchRequest := s.pushed.drop s.yielded.length

theorem holdBatch_pollNext {s : PipelineRun} (h : s.Sound) {node : Node}
    (hpipeline : node.pipeline = s.pending) (hheld : node.held = none)
    {result : BatchDerivationResult} (hresult : s.pipeline.pollNext.2 = some result) :
    node.holdBatch result = { node with
      pipeline := (s.step .pollNext).pending
      held := some result
      attemptScheduled := true } := by
  obtain ⟨delivered, hdelivered, hinOrder⟩ := h.inOrder
  unfold DerivationPipeline.pollNext at hresult
  split at hresult
  · cases hresult
  rename_i first rest hresults
  cases hresult
  rw [hresults] at hdelivered
  cases delivered with
  | nil => cases hdelivered
  | cons request others =>
    have hjobs : s.pipeline.jobs (request :: others) = ⟨request, some result⟩ ::
        (s.step .pollNext).pipeline.jobs others := by
      simp only [DerivationPipeline.jobs, step, DerivationPipeline.pollNext, hresults]
      rfl
    rw [hjobs] at hinOrder
    have hanswers : Answers request result := hinOrder.done _ List.mem_cons_self result rfl
    have hpending : s.pending = request :: (s.step .pollNext).pending := by
      have htaken := hinOrder.take.drop_eq
      have hyielded : (s.step .pollNext).yielded = s.yielded ++ [result] := by
        simp only [step, DerivationPipeline.pollNext, hresults, Option.toList_some]
      rw [pending, hinOrder.drop_eq, pending, hyielded]
      change request :: requests _ = request :: s.pushed.drop _
      rw [htaken]
    unfold Node.holdBatch
    rw [hheld, hpipeline, hpending]
    exact if_pos ⟨hanswers.1.symm, hanswers.2.symm⟩

theorem run_sound (actions : List PipelineAction) : (run step PipelineRun.new actions).Sound :=
  (meets_true step PipelineRun.new actions).invariant step Sound
    (fun _ action hs _ => sound_step hs action) sound_new

/-- Whatever the order in which derivations end, fail and are retried, and however pushes and
polls fall between them. -/
theorem exactlyOnce_run (actions : List PipelineAction) :
    (run step PipelineRun.new actions).ExactlyOnce := (run_sound actions).exactlyOnce

/-- Two batches are derived at once. The second is done first, the first fails and is retried. -/
def retried : List PipelineAction :=
  let db := ((migrated 7).insertBatch firstCommit).insertBatch ⟨12, 2, 30, 0, [], none, none, none⟩
  let decodes : DerivationWorld := ⟨none, db, fun _ => .ok ([], [])⟩
  [.pushBatch ⟨1, 11⟩ .consolidated, .pushBatch ⟨2, 12⟩ .finalized, .receive, .receive,
    .finishes 1 decodes, .finishes 0 { decodes with fault := some (.databaseError "locked") }, .next,
    .finishes 0 decodes, .next, .pollNext]

theorem exactlyOnce_run_retried :
    (run step PipelineRun.new (retried.take 7)).pipeline.futures.map (·.output.isSome) =
        [false, true] ∧
      (run step PipelineRun.new retried).yielded = [⟨[], ⟨1, 11⟩, [], .consolidated⟩] ∧
      (run step PipelineRun.new retried).pipeline.InFlight [⟨⟨2, 12⟩, .finalized⟩] :=
  ⟨by decide, by decide, (exactlyOnce_run retried).inFlight⟩

def Serves (s : PipelineRun) (queue : List BatchRequest) : Prop :=
  s.pending = queue ∧ s.pipeline.InFlight queue

/-- The pipeline with its workers does what the queue that the node keeps of it does: a push is a
push, the workers are not seen, and what is yielded is what the node may hold next. -/
theorem refines_node_queue (actions : List PipelineAction) :
    let s := run step PipelineRun.new actions
    (∀ (node : Node) batchInfo target, node.pipeline = s.pending →
      (s.step (.pushBatch batchInfo target)).Serves (node.push [batchInfo] target).pipeline) ∧
    (∀ action ∈ [.receive, .next], (s.step action).Serves s.pending) ∧
    (∀ place world, (s.step (.finishes place world)).Serves s.pending) ∧
    (s.pipeline.pollNext.2 = none → (s.step .pollNext).Serves s.pending) ∧
    ∀ (node : Node) result, node.pipeline = s.pending → node.held = none →
      s.pipeline.pollNext.2 = some result → node.holdBatch result = { node with
        pipeline := (s.step .pollNext).pending
        held := some result
        attemptScheduled := true } ∧ (s.step .pollNext).Serves (node.holdBatch result).pipeline := by
  intro s
  have hsound : s.Sound := run_sound actions
  have hserves (action : PipelineAction) {queue : List BatchRequest}
      (hqueue : (s.step action).pending = queue) : (s.step action).Serves queue := by
    rw [← hqueue]
    exact ⟨rfl, (sound_step hsound action).exactlyOnce.inFlight⟩
  refine ⟨?_, ?_, fun _ _ => hserves _ rfl, ?_, ?_⟩
  · intro node batchInfo target hpipeline
    have hlength := hsound.exactlyOnce.len
    refine hserves _ ?_
    simp only [Node.push, hpipeline, pending, step, List.map_cons, List.map_nil]
    rw [List.drop_append_of_le_length (by omega)]
  · intro action haction
    refine hserves action ?_
    simp only [List.mem_cons, List.not_mem_nil, or_false] at haction
    rcases haction with rfl | rfl
    · rfl
    · rfl
  · intro hnone
    refine hserves _ ?_
    simp [step, pending, hnone]
  · intro node result hpipeline hheld hresult
    have hholds := holdBatch_pollNext hsound hpipeline hheld hresult
    refine ⟨hholds, hserves _ ?_⟩
    rw [hholds]

end PipelineRun
end RollupNode
