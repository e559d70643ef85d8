import RollupNode.DerivationPipeline
import RollupNode.HeldSlot

set_option autoImplicit false

/-! Each derivation reads the batch rows somewhere between its request and its result. -/
namespace RollupNode
open OrderedWork GuardedRuns RelationalTable

structure Derivation where
  source : BatchCommitData
  result : BatchDerivationResult

def deriveFrom (world : DerivationWorld) (request : BatchRequest) : Option Derivation :=
  match world.db.getBatchByIndex request.batchInfo.index, derivationFuture request world with
  | some source, .ok result => some ⟨source, result⟩
  | _, _ => none

structure Deriving where
  loop : Processed
  jobs : List (Job BatchRequest Derivation)
  source : Option BatchCommitData

inductive DerivingAction where
  | turn (t : Turn)
  | derives (place : ℕ) (fault : Option DatabaseError)
      (decode : BatchCommitData → Except String (List DerivedAttributes × List ℕ))
  | yields

def Branch.isDerivedBatch : Branch → Bool
  | .derivedBatch _ => true
  | _ => false

def DerivingAction.isRevert : DerivingAction → Bool
  | .turn t => t.isRevert
  | _ => false

namespace Deriving

def takeTurn (config : ChainOrchestratorConfig) (s : Deriving) (t : Turn) : Deriving :=
  let after := s.loop.turn config t
  { s with
    loop := after
    jobs := s.jobs ++ submitted (after.node.pipeline.drop s.loop.node.pipeline.length) }

def derives (s : Deriving) (place : ℕ) (world : DerivationWorld) : Deriving :=
  { s with
    jobs := s.jobs.modify place (fun job => match job.result with
      | none => { job with result := deriveFrom world job.request }
      | some _ => job) }

def yields (config : ChainOrchestratorConfig) (s : Deriving) : Deriving :=
  match s.jobs with
  | ⟨_, some d⟩ :: rest =>
    let t : Turn := ⟨.derivedBatch d.result, noFaults⟩
    if s.loop.takes t.branch then ⟨s.loop.turn config t, rest, some d.source⟩ else s
  | _ => s

def step (config : ChainOrchestratorConfig) (s : Deriving) : DerivingAction → Deriving
  | .turn t => if t.branch.isDerivedBatch then s else s.takeTurn config t
  | .derives place fault decode => s.derives place ⟨fault, s.loop.node.db, decode⟩
  | .yields => s.yields config

end Deriving

theorem deriveFrom_spec {world : DerivationWorld} {request : BatchRequest} {d : Derivation}
    (h : deriveFrom world request = some d) :
    world.db.getBatchByIndex request.batchInfo.index = some d.source ∧
      d.result.batchInfo = d.source.batchInfo ∧ Answers request d.result := by
  unfold deriveFrom at h
  split at h
  · rename_i source result hsource hresult
    cases h
    refine ⟨hsource, ?_, derivationFuture_answers hresult⟩
    unfold derivationFuture at hresult
    rw [hsource] at hresult
    split at hresult
    · cases hresult
    · rename_i hnone
      cases hnone
    · rename_i batch _ hbatch
      cases hbatch
      split at hresult
      · cases hresult
      · cases hresult
        rfl
  · cases h

def RowOf (batches : Table BatchCommitRow.hash) (source : BatchCommitData) : Prop :=
  ∃ r ∈ batches, r.revertedBlockNumber = none ∧ r.toCommitData = source

theorem Db.rowOf_getBatchByIndex {db : Db} {index : ℕ} {source : BatchCommitData}
    (h : db.getBatchByIndex index = some source) : RowOf db.batchCommits source := by
  obtain ⟨r, hr, rfl⟩ := Option.map_eq_some_iff.1 h
  have hfound := List.find?_some hr
  exact ⟨r, List.mem_of_find?_eq_some hr, (of_decide_eq_true hfound).2, rfl⟩

def FromRow (batches : Table BatchCommitRow.hash) (d : Derivation) : Prop :=
  d.result.batchInfo = d.source.batchInfo ∧ RowOf batches d.source

def KeepsData (batches batches' : Table BatchCommitRow.hash) : Prop :=
  ∀ r ∈ batches, ∃ r' ∈ batches',
    r'.revertedBlockNumber = r.revertedBlockNumber ∧ r'.toCommitData = r.toCommitData

theorem KeepsData.refl (batches : Table BatchCommitRow.hash) : KeepsData batches batches :=
  fun r hr => ⟨r, hr, rfl, rfl⟩

theorem KeepsData.rowOf {batches batches' : Table BatchCommitRow.hash} {source : BatchCommitData}
    (h : KeepsData batches batches') (hrow : RowOf batches source) : RowOf batches' source := by
  obtain ⟨r, hr, hlive, rfl⟩ := hrow
  obtain ⟨r', hr', hreverted, hdata⟩ := h r hr
  exact ⟨r', hr', hreverted.trans hlive, hdata⟩

theorem keepsData_updateWhere (batches : Table BatchCommitRow.hash) (p : BatchCommitRow → Bool)
    (status : BatchStatus) :
    KeepsData batches
      (batches.updateWhere p (fun r => { r with status := status }) (fun _ => rfl)) := by
  intro r hr
  refine ⟨_, (batches.mem_updateWhere p _ _ _).2 ⟨r, hr, rfl⟩, ?_⟩
  split
  · exact ⟨rfl, rfl⟩
  · exact ⟨rfl, rfl⟩

section
variable {config : ChainOrchestratorConfig} {node : Node} {t : Turn} {s : DerivationState}

theorem SyncMoves.keepsData {s s' : DerivationState} {c : Option Consolidation}
    (h : SyncMoves s c s') : KeepsData s.batches s'.batches := by
  cases h with
  | keeps => exact .refl _
  | leaves => exact .refl _
  | marks flags => exact .refl _
  | consolidates flags => exact keepsData_updateWhere _ _ _

theorem Moves.keepsData (h : Moves config node t s) (hrevert : t.isRevert = false) :
    node.Idle ∨ KeepsData node.db.batchCommits s.batches := by
  cases h with
  | syncs _ hsync => exact Or.inr hsync.keepsData
  | completes => exact Or.inr (keepsData_updateWhere _ _ _)
  | holds => exact Or.inr (.refl _)
  | commits _ _ _ _ _ _ hidle => exact Or.inl hidle
  | reverts _ _ _ _ hidle => exact Or.inl hidle
  | finalizes _ _ hidle => exact Or.inl hidle
  | losesFinalized _ _ _ _ _ hidle => exact Or.inl hidle
  | recordsFinalization _ _ _ hidle => exact Or.inl hidle
  | finalizesBatch _ _ _ _ hidle => exact Or.inl hidle
  | cancels _ hidle => exact Or.inl hidle
  | unwinds _ _ _ _ _ hidle => exact Or.inl hidle
  | failsToRevert _ hreverts =>
    rw [hrevert] at hreverts
    cases hreverts
  | revertsTo n reply db unwound hbranch =>
    rw [Turn.isRevert, hbranch] at hrevert
    cases hrevert

theorem SyncMoves.pipeline {s s' : DerivationState} {c : Option Consolidation}
    (h : SyncMoves s c s') : ∃ more, s'.pipeline = s.pipeline ++ more := by
  cases h with
  | keeps => exact ⟨[], (List.append_nil _).symm⟩
  | leaves => exact ⟨[], (List.append_nil _).symm⟩
  | marks flags => exact ⟨[], (List.append_nil _).symm⟩
  | consolidates flags => exact ⟨_, rfl⟩

theorem Moves.pipeline (h : Moves config node t s) (hbranch : t.branch.isDerivedBatch = false) :
    ∃ more, s.pipeline = node.pipeline ++ more := by
  have hsame (hs : s.pipeline = node.pipeline) : ∃ more, s.pipeline = node.pipeline ++ more :=
    ⟨[], hs.trans (List.append_nil _).symm⟩
  cases h with
  | syncs _ hsync => exact hsync.pipeline
  | holds batch request rest hyields =>
    rw [hyields] at hbranch
    cases hbranch
  | commits blockInfo batch client reply retried _ hidle =>
    refine ⟨if node.syncState.isSynced then [⟨batch.batchInfo, .consolidated⟩] else [], ?_⟩
    rw [hidle.1, List.nil_append]
  | finalizes => exact ⟨_, rfl⟩
  | finalizesBatch => exact ⟨_, rfl⟩
  | revertsTo n reply db =>
    refine hsame ?_
    unfold Node.afterRevert
    simp only
    split <;> rfl
  | _ => exact hsame rfl

end

namespace Deriving

structure Tracks (s : Deriving) : Prop where
  requests : requests s.jobs = s.loop.node.pipeline
  answers : Done (fun request d => Answers request d.result) s.jobs

section
variable {config : ChainOrchestratorConfig} {s : Deriving}

theorem takeTurn_cases {t : Turn} (hrun : (s.takeTurn config t).loop.stopped = false) :
    s.loop.stopped = false ∧ (s.takeTurn config t = s ∨
      s.loop.node.selects t.branch = true ∧
        Moves config s.loop.node t (s.takeTurn config t).loop.node.derivation) := by
  obtain ⟨hrunning, hsame | hmoves⟩ := Processed.turn_cases hrun
  · refine ⟨hrunning, Or.inl ?_⟩
    unfold takeTurn
    rw [hsame]
    simp [submitted]
  · exact ⟨hrunning, Or.inr hmoves⟩

theorem Tracks.takeTurn (h : s.Tracks) {t : Turn} (hbranch : t.branch.isDerivedBatch = false)
    (hmoves : Moves config s.loop.node t (s.takeTurn config t).loop.node.derivation) :
    (s.takeTurn config t).Tracks := by
  obtain ⟨more, hmore⟩ := hmoves.pipeline hbranch
  have hmore : (s.loop.turn config t).node.pipeline = s.loop.node.pipeline ++ more := hmore
  refine ⟨?_, h.answers.append (done_submitted _ _)⟩
  change OrderedWork.requests (s.jobs ++ submitted _) = (s.loop.turn config t).node.pipeline
  rw [requests_append, requests_submitted, h.requests, hmore, List.drop_left]

theorem requests_derives (s : Deriving) (place : ℕ) (world : DerivationWorld) :
    OrderedWork.requests (s.derives place world).jobs = OrderedWork.requests s.jobs := by
  refine map_modify _ _ ?_ s.jobs place
  intro job
  cases job.result <;> simp

theorem done_derives {R : BatchRequest → Derivation → Prop} (h : Done R s.jobs) (place : ℕ)
    (world : DerivationWorld)
    (hnew : ∀ job ∈ s.jobs, ∀ d, deriveFrom world job.request = some d → R job.request d) :
    Done R (s.derives place world).jobs := by
  intro job hjob d hd
  rcases mem_modify hjob with hkept | ⟨old, hold, rfl⟩
  · exact h job hkept d hd
  · have hold := List.mem_of_getElem? hold
    cases hresult : old.result with
    | some b =>
      simp only [hresult] at hd ⊢
      exact h old hold d (hresult.trans hd)
    | none =>
      simp only [hresult] at hd ⊢
      exact hnew old hold d hd

theorem Tracks.derives (h : s.Tracks) (place : ℕ) (world : DerivationWorld) :
    (s.derives place world).Tracks := by
  refine ⟨(requests_derives s place world).trans h.requests, ?_⟩
  exact done_derives h.answers place world (fun _ _ _ hd => (deriveFrom_spec hd).2.2)

theorem yields_cases (h : s.Tracks) : s.yields config = s ∨
    ∃ request d rest, s.jobs = ⟨request, some d⟩ :: rest ∧ s.loop.stopped = false ∧
      s.loop.node.held = none ∧ s.yields config = ⟨⟨{ s.loop.node with
        pipeline := OrderedWork.requests rest
        held := some d.result
        attemptScheduled := true }, false⟩, rest, some d.source⟩ := by
  unfold yields
  split
  · rename_i request d rest hjobs
    simp only
    split
    · rename_i htakes
      have hloop := htakes
      rw [Processed.takes, Bool.and_eq_true, Bool.not_eq_true'] at htakes
      have hheld : s.loop.node.held = none := Option.isNone_iff_eq_none.1 htakes.2
      have hpipeline : s.loop.node.pipeline = request :: OrderedWork.requests rest := by
        rw [← h.requests, hjobs]
        rfl
      have hanswers : Answers request d.result := by
        have hdone := h.answers
        rw [hjobs] at hdone
        exact hdone _ List.mem_cons_self d rfl
      refine Or.inr ⟨request, d, rest, hjobs, htakes.1, hheld, ?_⟩
      have hturn : s.loop.turn config ⟨.derivedBatch d.result, noFaults⟩ =
          ⟨s.loop.node.holdBatch d.result, false⟩ := if_pos hloop
      rw [hturn]
      unfold Node.holdBatch
      rw [hheld, hpipeline]
      simp only [if_pos (And.intro hanswers.1.symm hanswers.2.symm)]
    · exact Or.inl rfl
  · exact Or.inl rfl

theorem Tracks.yields (h : s.Tracks) : (s.yields config).Tracks := by
  rcases yields_cases h with hsame | ⟨request, d, rest, hjobs, -, -, hyields⟩
  · rw [hsame]
    exact h
  · have hdone := h.answers
    rw [hjobs] at hdone
    rw [hyields]
    exact ⟨rfl, fun job hjob => hdone job (List.mem_cons_of_mem _ hjob)⟩

end

/-- An invariant of the machine while its loop runs, from what a turn, a derivation and a yield
do to it. -/
theorem invariant_step {config : ChainOrchestratorConfig} (I : Deriving → Prop)
    (cond : Deriving → DerivingAction → Prop)
    (hturn : ∀ s t, I s → cond s (.turn t) → t.branch.isDerivedBatch = false →
      Moves config s.loop.node t (s.takeTurn config t).loop.node.derivation →
      I (s.takeTurn config t))
    (hderives : ∀ s place fault decode, I s → cond s (.derives place fault decode) →
      I (s.derives place ⟨fault, s.loop.node.db, decode⟩))
    (hyields : ∀ s, I s → I (s.yields config)) (s : Deriving) (action : DerivingAction)
    (hs : s.loop.stopped = false → I s) (hcond : cond s action)
    (hrun : (s.step config action).loop.stopped = false) : I (s.step config action) := by
  cases action with
  | turn t =>
    simp only [step] at hrun ⊢
    split
    · rename_i hbranch
      rw [if_pos hbranch] at hrun
      exact hs hrun
    · rename_i hbranch
      rw [if_neg hbranch] at hrun
      obtain ⟨hrunning, hsame | ⟨-, hmoves⟩⟩ := takeTurn_cases hrun
      · rw [hsame]
        exact hs hrunning
      · exact hturn s t (hs hrunning) hcond (Bool.of_not_eq_true hbranch) hmoves
  | derives place fault decode => exact hderives s place fault decode (hs hrun) hcond
  | yields =>
    cases hstopped : s.loop.stopped with
    | false => exact hyields s (hs hstopped)
    | true =>
      have hsame : s.yields config = s := by
        unfold yields
        split
        · simp [Processed.takes, hstopped]
        · rfl
      have hrun : (s.yields config).loop.stopped = false := hrun
      rw [hsame, hstopped] at hrun
      cases hrun

/-- Everything derived so far, and the held batch, is of a live row with its data. -/
structure Live (s : Deriving) : Prop where
  tracks : s.Tracks
  rows : Done (fun _ d => FromRow s.loop.node.db.batchCommits d) s.jobs
  held : ∀ batch ∈ s.loop.node.held, ∃ source ∈ s.source,
    FromRow s.loop.node.db.batchCommits ⟨source, batch⟩
  scheduled : s.loop.node.derivation.Scheduled

section
variable {config : ChainOrchestratorConfig} {s : Deriving}

theorem Live.takeTurn (h : s.Live) {t : Turn} (hbranch : t.branch.isDerivedBatch = false)
    (hrevert : t.isRevert = false)
    (hmoves : Moves config s.loop.node t (s.takeTurn config t).loop.node.derivation) :
    (s.takeTurn config t).Live := by
  have hscheduled := hmoves.scheduled h.scheduled
  have htracks := h.tracks.takeTurn hbranch hmoves
  have hheld : ∀ batch ∈ (s.takeTurn config t).loop.node.held, batch ∈ s.loop.node.held := by
    intro batch hbatch
    cases hold : s.loop.node.held with
    | none =>
      obtain ⟨hyields, -⟩ := hmoves.yielded hold hbatch
      rw [hyields] at hbranch
      cases hbranch
    | some old =>
      rcases hmoves.kept hold with hkept | ⟨hnone, -⟩
      · exact hkept.symm.trans hbatch
      · have hnone : (s.takeTurn config t).loop.node.held = none := hnone
        rw [hnone] at hbatch
        cases hbatch
  rcases hmoves.keepsData hrevert with hidle | hkeeps
  · -- nothing was under way, so that every job is new
    have hjobs : s.jobs = [] := by
      have hrequests := h.tracks.requests
      rw [hidle.1] at hrequests
      exact List.map_eq_nil_iff.1 hrequests
    refine ⟨htracks, ?_, ?_, hscheduled⟩
    · change Done _ (s.jobs ++ submitted _)
      rw [hjobs]
      exact done_submitted _ _
    · intro batch hbatch
      have hbatch := hheld batch hbatch
      rw [hidle.2] at hbatch
      cases hbatch
  · have hfrom {d : Derivation} (hd : FromRow s.loop.node.db.batchCommits d) :
        FromRow (s.takeTurn config t).loop.node.db.batchCommits d := ⟨hd.1, hkeeps.rowOf hd.2⟩
    refine ⟨htracks, ?_, ?_, hscheduled⟩
    · refine Done.append ?_ (done_submitted _ _)
      intro job hjob d hd
      exact hfrom (h.rows job hjob d hd)
    · intro batch hbatch
      obtain ⟨source, hsource, hrow⟩ := h.held batch (hheld batch hbatch)
      exact ⟨source, hsource, hfrom hrow⟩

theorem Live.derives (h : s.Live) (place : ℕ) (fault : Option DatabaseError)
    (decode : BatchCommitData → Except String (List DerivedAttributes × List ℕ)) :
    (s.derives place ⟨fault, s.loop.node.db, decode⟩).Live := by
  refine ⟨h.tracks.derives _ _, ?_, h.held, h.scheduled⟩
  refine done_derives h.rows place _ ?_
  intro job _ d hd
  obtain ⟨hfound, hinfo, -⟩ := deriveFrom_spec hd
  exact ⟨hinfo, Db.rowOf_getBatchByIndex hfound⟩

theorem Live.yields (h : s.Live) : (s.yields config).Live := by
  have htracks : (s.yields config).Tracks := h.tracks.yields
  rcases yields_cases h.tracks with hsame | ⟨request, d, rest, hjobs, -, -, hyields⟩
  · rw [hsame]
    exact h
  · have hrows := h.rows
    rw [hjobs] at hrows
    rw [hyields] at htracks ⊢
    refine ⟨htracks, fun job hjob => hrows job (List.mem_cons_of_mem _ hjob), ?_, ?_⟩
    · rintro _ ⟨⟩
      exact ⟨d.source, rfl, hrows _ List.mem_cons_self d rfl⟩
    · simp [DerivationState.Scheduled, Node.derivation]

def Starts (s : Deriving) : Prop :=
  s.loop.node.Idle ∧ s.jobs = [] ∧ s.loop.node.attemptScheduled = false

theorem Starts.tracks (h : s.Starts) : s.Tracks := by
  obtain ⟨hidle, hjobs, -⟩ := h
  refine ⟨?_, ?_⟩
  · rw [hjobs, hidle.1]
    rfl
  · rw [hjobs]
    exact done_submitted _ []

theorem Starts.live (h : s.Starts) : s.Live := by
  have htracks := h.tracks
  obtain ⟨hidle, hjobs, hscheduled⟩ := h
  refine ⟨htracks, ?_, ?_, ?_⟩
  · rw [hjobs]
    exact done_submitted _ []
  · intro batch hbatch
    rw [hidle.2] at hbatch
    cases hbatch
  · simp [DerivationState.Scheduled, Node.derivation, hidle.2, hscheduled]

/-- The database has a live row of the batch that an attempt consolidates, with the data that
the batch was derived from; and an L1 notification is handled only when nothing is between the
push of a batch and the end of its consolidation. -/
structure LiveOnly (s : Deriving) (t : Turn) : Prop where
  attempt : ∀ client replies, t.branch = .attempt client replies →
    ∃ batch ∈ s.loop.node.held, ∃ source ∈ s.source, ∃ row ∈ s.loop.node.db.batchCommits,
      row.revertedBlockNumber = none ∧ row.index = batch.batchInfo.index ∧
        row.hash = batch.batchInfo.hash ∧ row.calldata = source.calldata ∧
        row.blobHash = source.blobVersionedHash
  notification : ∀ n client reply retried, t.branch = .notification n client reply retried →
    s.jobs = [] ∧ s.loop.node.held = none

theorem Live.liveOnly (h : s.Live) {t : Turn} (hselects : s.loop.node.selects t.branch = true) :
    s.LiveOnly t := by
  constructor
  · intro client replies hbranch
    rw [hbranch] at hselects
    have hheld : s.loop.node.held.isSome := h.scheduled.2 hselects
    obtain ⟨batch, hbatch⟩ := Option.isSome_iff_exists.1 hheld
    obtain ⟨source, hsource, hinfo, row, hrow, hlive, hdata⟩ := h.held batch hbatch
    have hdata : row.toCommitData = source := hdata
    have hinfo : batch.batchInfo = row.batchInfo := hinfo.trans (hdata ▸ rfl)
    refine ⟨batch, hbatch, source, hsource, row, hrow, hlive, ?_, ?_, ?_, ?_⟩
    · rw [hinfo]
      rfl
    · rw [hinfo]
      rfl
    · rw [← hdata]
      rfl
    · rw [← hdata]
      rfl
  · intro n client reply retried hbranch
    rw [hbranch] at hselects
    have hidle := Node.selects_notification hselects
    have hrequests := h.tracks.requests
    rw [hidle.1] at hrequests
    exact ⟨List.map_eq_nil_iff.1 hrequests, hidle.2⟩

/-- In every run without an administrative unwind, for every interleaving of the turns of the
loop with the work of the pipeline, only live batches are consolidated. -/
theorem only_live_consolidated (config : ChainOrchestratorConfig) (s : Deriving) (hs : s.Starts)
    (actions : List DerivingAction) (hrevert : ∀ action ∈ actions, action.isRevert = false) :
    Meets (step config) (fun s action => ∀ t, action = .turn t →
      s.loop.takes t.branch = true → s.LiveOnly t) s actions := by
  refine (meets_of_forall (step config) hrevert s).of_invariant (step config)
    (fun s => s.loop.stopped = false → s.Live) ?_ (fun _ => hs.live)
  intro s action hlive hcond
  refine ⟨invariant_step Live (fun _ action => action.isRevert = false) ?_ ?_ ?_ s action hlive
    hcond, ?_⟩
  · intro s t h hrevert hbranch hmoves
    exact h.takeTurn hbranch hrevert hmoves
  · intro s place fault decode h _
    exact h.derives place fault decode
  · intro s h
    exact h.yields
  · rintro t rfl htakes
    rw [Processed.takes, Bool.and_eq_true, Bool.not_eq_true'] at htakes
    exact (hlive htakes.1).liveOnly htakes.2

end
end Deriving

def secondBatchActions : List DerivingAction :=
  [.turn ⟨notified (.batchCommit ⟨60, 160⟩ secondCommit), noFaults⟩,
    .derives 0 (some (.databaseError "locked")) (fun _ => .error ""),
    .derives 0 none (fun _ => .ok ((secondDerived .consolidated).attributes, [])),
    .yields, .turn ⟨.attempt twoBlockClient validReplies, noFaults⟩]

def awaitingDerivation : Deriving := ⟨⟨awaitingNode true, false⟩, [], none⟩

theorem only_live_consolidated_second :
    ((run (Deriving.step sampleConfig) awaitingDerivation
        (secondBatchActions.take 4)).loop.node.attemptScheduled = true) ∧
      Meets (Deriving.step sampleConfig) (fun s action => ∀ t, action = .turn t →
        s.loop.takes t.branch = true → s.LiveOnly t) awaitingDerivation secondBatchActions :=
  ⟨by decide, Deriving.only_live_consolidated sampleConfig awaitingDerivation
    ⟨⟨rfl, rfl⟩, rfl, rfl⟩ secondBatchActions (by simp [secondBatchActions]; decide)⟩

end RollupNode
