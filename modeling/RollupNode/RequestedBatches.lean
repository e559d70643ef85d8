import RollupNode.QueueSlices

set_option autoImplicit false

/-! A request names index and hash, its derivation takes the live row of the index. -/
namespace RollupNode
open GuardedRuns

structure DerivedIn (world : DerivationWorld) (request : BatchRequest) (batch : BatchCommitData)
    (result : BatchDerivationResult) : Prop where
  fault : world.fault = none
  found : world.db.getBatchByIndex request.batchInfo.index = some batch
  decoded : world.decode batch = .ok (result.attributes, result.skippedL1Messages)
  batchInfo : result.batchInfo = batch.batchInfo
  targetStatus : result.targetStatus = request.targetStatus

theorem derivedIn_of_derivationFuture {request : BatchRequest} {world : DerivationWorld}
    {result : BatchDerivationResult} (h : derivationFuture request world = .ok result) :
    ∃ batch, DerivedIn world request batch result := by
  unfold derivationFuture at h
  split at h
  · cases h
  · cases h
  · rename_i batch hfault hfound
    split at h
    · cases h
    · rename_i attributes skipped hdecoded
      cases h
      exact ⟨batch, hfault, hfound, hdecoded, rfl, rfl⟩

namespace DerivedIn
variable {world : DerivationWorld} {request : BatchRequest} {batch : BatchCommitData}
theorem requested_iff {result : BatchDerivationResult} (h : DerivedIn world request batch result) :
    result.batchInfo = request.batchInfo ↔ batch.hash = request.batchInfo.hash := by
  rw [h.batchInfo, BatchCommitData.batchInfo, Db.getBatchByIndex_index h.found]
  constructor
  · intro heq
    exact congrArg BatchInfo.hash heq
  · intro heq
    rw [heq]

theorem derive_eq {result : BatchDerivationResult} (h : DerivedIn world request batch result)
    {inputs : DerivationInputs} (hdecode : world.decode = (inputs.world world.db).decode) :
    derive inputs batch request.targetStatus = .ok result := by
  have hdecoded := h.decoded
  rw [hdecode] at hdecoded
  change (deriveAttributes inputs batch).mapError reprStr = _ at hdecoded
  rw [derive]
  cases hderived : deriveAttributes inputs batch with
  | error e =>
    rw [hderived] at hdecoded
    cases hdecoded
  | ok derived =>
    rw [hderived] at hdecoded
    obtain rfl := Except.ok.inj hdecoded
    change Except.ok (⟨result.attributes, batch.batchInfo, result.skippedL1Messages,
      request.targetStatus⟩ : BatchDerivationResult) = .ok result
    rw [← h.batchInfo, ← h.targetStatus]

end DerivedIn

namespace PipelineRun

def ResultOf (actions : List PipelineAction) (request : BatchRequest)
    (result : BatchDerivationResult) : Prop :=
  ∃ place world batch, .finishes place world ∈ actions ∧ DerivedIn world request batch result

def IsRequested (request : BatchRequest) (result : BatchDerivationResult) : Prop :=
  result.batchInfo = request.batchInfo ∧
    ∃ world batch, DerivedIn world request batch result ∧ batch.batchInfo = request.batchInfo

/-- No derivation runs while another batch has the index of its request. -/
def Unmoved (s : PipelineRun) : PipelineAction → Prop
  | .finishes place world => ∀ future, s.pipeline.futures[place]? = some future →
      future.output = none → world.fault = none → ∀ batch,
      world.db.getBatchByIndex future.request.batchInfo.index = some batch →
      batch.hash = future.request.batchInfo.hash
  | _ => True

theorem finishesIn_resultOf {action : PipelineAction} {actions : List PipelineAction}
    (s : PipelineRun) (h : action ∈ actions) : FinishesIn (ResultOf actions) s action := by
  cases action with
  | finishes place world =>
    intro future _ _ result hderived
    obtain ⟨batch, hbatch⟩ := derivedIn_of_derivationFuture hderived
    exact ⟨place, world, batch, h, hbatch⟩
  | _ => trivial

theorem finishesIn_isRequested {action : PipelineAction} {s : PipelineRun} (h : Unmoved s action) :
    FinishesIn IsRequested s action := by
  cases action with
  | finishes place world =>
    intro future hfuture hpending result hderived
    obtain ⟨batch, hbatch⟩ := derivedIn_of_derivationFuture hderived
    have hinfo := hbatch.requested_iff.2 (h future hfuture hpending hbatch.fault batch hbatch.found)
    exact ⟨hinfo, world, batch, hbatch, hbatch.batchInfo.symm.trans hinfo⟩
  | _ => trivial

theorem Ordered.get {s : PipelineRun} {R : BatchRequest → BatchDerivationResult → Prop}
    (h : s.Ordered R) {i : ℕ} {request : BatchRequest} {result : BatchDerivationResult}
    (hpushed : s.pushed[i]? = some request) (hyielded : s.yielded[i]? = some result) :
    R request result := by
  obtain ⟨delivered, -, hinOrder⟩ := h
  have hall := hinOrder.forall₂_take
  obtain ⟨hi, rfl⟩ := List.getElem?_eq_some_iff.1 hyielded
  have htaken : (s.pushed.take s.yielded.length)[i]? = some request := by
    rw [List.getElem?_take_of_lt hi, hpushed]
  obtain ⟨hi', rfl⟩ := List.getElem?_eq_some_iff.1 htaken
  exact hall.get hi' hi

end PipelineRun

open PipelineRun in
/-- A result has the requested hash exactly when the row that its derivation found has it; so no
result is of another batch as long as no derivation runs after another batch got the index. -/
theorem yielded_batch_iff (actions : List PipelineAction) :
    (∀ (i : ℕ) (request : BatchRequest) (result : BatchDerivationResult),
      (run step PipelineRun.new actions).pushed[i]? = some request →
      (run step PipelineRun.new actions).yielded[i]? = some result →
      ∃ place world batch, .finishes place world ∈ actions ∧
        DerivedIn world request batch result ∧
        (∀ inputs : DerivationInputs, world.decode = (inputs.world world.db).decode →
          derive inputs batch request.targetStatus = .ok result) ∧
        (result.batchInfo = request.batchInfo ↔ batch.hash = request.batchInfo.hash)) ∧
    (Meets step Unmoved PipelineRun.new actions →
      ∀ (i : ℕ) (request : BatchRequest) (result : BatchDerivationResult),
        (run step PipelineRun.new actions).pushed[i]? = some request →
        (run step PipelineRun.new actions).yielded[i]? = some result →
        IsRequested request result) := by
  constructor
  · intro i request result hpushed hyielded
    have hordered : (run step PipelineRun.new actions).Ordered (ResultOf actions) :=
      (meets_of_forall step (fun a ha => ha) PipelineRun.new).invariant step
        (Ordered (ResultOf actions)) (fun s _ hs ha => ordered_step hs (finishesIn_resultOf s ha))
        ordered_new
    obtain ⟨place, world, batch, hmem, hbatch⟩ := hordered.get hpushed hyielded
    exact ⟨place, world, batch, hmem, hbatch, fun _ => hbatch.derive_eq, hbatch.requested_iff⟩
  · intro hunmoved i request result hpushed hyielded
    have hordered : (run step PipelineRun.new actions).Ordered IsRequested :=
      hunmoved.invariant step (Ordered IsRequested)
        (fun _ _ hs ha => ordered_step hs (finishesIn_isRequested ha)) ordered_new
    exact hordered.get hpushed hyielded

def firstBatch (hash : B256) (blockNumber : ℕ) : BatchCommitData :=
  ⟨hash, 1, blockNumber, 0, List.replicate 36 0, none, none, none⟩

def firstCommitted : Db := (migrated 7).insertBatch (firstBatch 11 10)

def recommittedOther : Db :=
  (firstCommitted.setBatchRevertBlockNumberForBatchRange 1 1 ⟨11, 111⟩).insertBatch
    (firstBatch 22 12)

def retriedRequest (db : Db) : List PipelineAction :=
  [.pushBatch ⟨1, 11⟩ .consolidated, .receive,
    .finishes 0 { (messagesInputs 1 []).world firstCommitted with
      fault := some (.databaseError "locked") },
    .next, .finishes 0 ((messagesInputs 1 []).world db), .next, .pollNext]

theorem yielded_batch_iff_unmoved :
    ∃ result, (run PipelineRun.step PipelineRun.new (retriedRequest firstCommitted)).yielded =
        [result] ∧
      result.batchInfo = ⟨1, 11⟩ := by
  have hrun : ∃ result, (run PipelineRun.step PipelineRun.new
      (retriedRequest firstCommitted)).yielded = [result] := ⟨_, rfl⟩
  obtain ⟨result, hyielded⟩ := hrun
  have hunmoved : Meets PipelineRun.step PipelineRun.Unmoved PipelineRun.new
      (retriedRequest firstCommitted) := by
    refine ⟨trivial, trivial, ?_, trivial, ?_, trivial, trivial, trivial⟩
    all_goals
      intro future hfuture _ _ batch hbatch
      cases hfuture
      cases hbatch
      rfl
  have hpushed : (run PipelineRun.step PipelineRun.new
      (retriedRequest firstCommitted)).pushed[0]? = some ⟨⟨1, 11⟩, .consolidated⟩ := rfl
  exact ⟨result, hyielded, ((yielded_batch_iff (retriedRequest firstCommitted)).2 hunmoved 0 _ _
    hpushed (by rw [hyielded]; rfl)).1⟩

/-- The result for batch 11 is one of batch 22. -/
theorem yielded_other_batch :
    ∃ result, (run PipelineRun.step PipelineRun.new (retriedRequest recommittedOther)).pushed =
        [⟨⟨1, 11⟩, .consolidated⟩] ∧
      (run PipelineRun.step PipelineRun.new (retriedRequest recommittedOther)).yielded = [result] ∧
      result.batchInfo = ⟨1, 22⟩ ∧
      derive (messagesInputs 1 []) (firstBatch 22 12) .consolidated = .ok result := by
  exact ⟨_, rfl, rfl, rfl, rfl⟩

end RollupNode
