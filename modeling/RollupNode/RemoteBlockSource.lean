import RollupNode.GuardedRuns
import RollupNode.Reconciliation

set_option autoImplicit false

/-! A node that follows a trusted remote imports its blocks one by one and builds on them. -/
namespace RollupNode
open GuardedRuns

inductive RemoteSourceError where
  | call (message : String)
  | remoteBlockNotFound
  | blockNotFound (number : ℕ)
  | importBlockFailed (message : String)
  | commandChannel (message : String)
  | eventStreamEnded

inductive WaitEvent where
  | blockSequenced
  | blockBuildingSkipped
  | other

structure ResumeAnswers where
  localHead : Except String ℕ
  remoteHead : Except String ℕ
  localHash : ℕ → Except String (Option B256)
  remoteBlock : ℕ → Except String (Option L2Block)

structure FollowAnswers where
  latest : Except String (Option ℕ)
  blockByNumber : ℕ → Except String (Option L2Block)
  importBlock : L2Block → Except String (Except String Bool)
  isSynced : Except String Bool
  events : List WaitEvent

structure RemotePoll where
  resume : ResumeAnswers
  passes : List FollowAnswers

structure RemoteBlockSource where
  build : Bool
  lastImportedBlock : Option ℕ
  imported : List (ℕ × L2Block)
  builds : List ℕ

namespace ResumeAnswers

def search (answers : ResumeAnswers) : ℕ → Except RemoteSourceError ℕ
  | 0 => .ok 0
  | number + 1 =>
    match answers.localHash (number + 1), answers.remoteBlock (number + 1) with
    | .error message, _ => .error (.call message)
    | .ok _, .error message => .error (.call message)
    | .ok (some localHash), .ok (some block) =>
      if localHash = block.hash then .ok (number + 1) else answers.search number
    | .ok _, .ok _ => answers.search number

def initLastImportedBlock (answers : ResumeAnswers) : Except RemoteSourceError ℕ :=
  match answers.localHead, answers.remoteHead with
  | .error message, _ => .error (.call message)
  | .ok _, .error message => .error (.call message)
  | .ok localHead, .ok remoteHead => answers.search (min localHead remoteHead)

def Common (answers : ResumeAnswers) (number : ℕ) : Prop :=
  ∃ block, answers.localHash number = .ok (some block.hash) ∧
    answers.remoteBlock number = .ok (some block)

/-- Both have the block, or it is genesis, and they share none above it up to either head. -/
def HighestCommon (answers : ResumeAnswers) (number : ℕ) : Prop :=
  (number = 0 ∨ answers.Common number) ∧
    ∃ localHead remoteHead, answers.localHead = .ok localHead ∧ answers.remoteHead = .ok remoteHead ∧
      number ≤ min localHead remoteHead ∧
      ∀ m, number < m → m ≤ min localHead remoteHead → ¬ answers.Common m

theorem search_spec {answers : ResumeAnswers} {start number : ℕ}
    (h : answers.search start = .ok number) :
    (number = 0 ∨ answers.Common number) ∧ number ≤ start ∧
      ∀ m, number < m → m ≤ start → ¬ answers.Common m := by
  induction start with
  | zero =>
    cases h
    exact ⟨.inl rfl, le_rfl, fun m hm hle => by omega⟩
  | succ start ih =>
    have hnext : answers.search start = .ok number → ¬ answers.Common (start + 1) →
        (number = 0 ∨ answers.Common number) ∧ number ≤ start + 1 ∧
          ∀ m, number < m → m ≤ start + 1 → ¬ answers.Common m := by
      intro hsearch hnot
      obtain ⟨hcommon, hle, hnone⟩ := ih hsearch
      refine ⟨hcommon, by omega, ?_⟩
      intro m hm hmle
      rcases Nat.le_succ_iff.1 hmle with hlt | rfl
      · exact hnone m hm hlt
      · exact hnot
    unfold search at h
    split at h
    · cases h
    · cases h
    · rename_i localHash block hlocal hremote
      split at h
      · rename_i hsame
        cases h
        exact ⟨.inr ⟨block, hsame ▸ hlocal, hremote⟩, le_rfl, fun m hm hle => by omega⟩
      · rename_i hdiffer
        refine hnext h ?_
        rintro ⟨block', hlocal', hremote'⟩
        rw [hlocal] at hlocal'
        rw [hremote] at hremote'
        cases hremote'
        cases hlocal'
        exact hdiffer rfl
    · rename_i hashes blocks hneither hlocal hremote
      refine hnext h ?_
      rintro ⟨block, hlocal', hremote'⟩
      rw [hlocal] at hlocal'
      rw [hremote] at hremote'
      cases hremote'
      cases hlocal'
      exact hneither _ _ rfl rfl

theorem initLastImportedBlock_spec {answers : ResumeAnswers} {number : ℕ}
    (h : answers.initLastImportedBlock = .ok number) :
    answers.HighestCommon number := by
  unfold initLastImportedBlock at h
  split at h
  · cases h
  · cases h
  · rename_i localHead remoteHead hlocal hremote
    obtain ⟨hcommon, hle, hnone⟩ := search_spec h
    exact ⟨hcommon, localHead, remoteHead, hlocal, hremote, hle, hnone⟩

end ResumeAnswers

namespace RemoteBlockSource

def new (build : Bool) : RemoteBlockSource := ⟨build, none, [], []⟩

def waitForBuild : List WaitEvent → Except RemoteSourceError Unit
  | [] => .error .eventStreamEnded
  | .other :: rest => waitForBuild rest
  | _ :: _ => .ok ()

def followOnce (s : RemoteBlockSource) (lastImported : ℕ) (answers : FollowAnswers) :
    RemoteBlockSource × Except RemoteSourceError Bool :=
  match answers.latest with
  | .error message => (s, .error (.call message))
  | .ok none => (s, .error .remoteBlockNotFound)
  | .ok (some remoteHead) =>
    if remoteHead ≤ lastImported then (s, .ok false)
    else
      let nextBlockNum := lastImported + 1
      match answers.blockByNumber nextBlockNum with
      | .error message => (s, .error (.call message))
      | .ok none => (s, .error (.blockNotFound nextBlockNum))
      | .ok (some block) =>
        match answers.importBlock block with
        | .error message => (s, .error (.commandChannel message))
        | .ok (.error message) => (s, .error (.importBlockFailed message))
        | .ok (.ok valid) =>
          let s := { s with
            lastImportedBlock := some nextBlockNum
            imported := s.imported ++ [(nextBlockNum, block)] }
          if !valid || !s.build then (s, .ok true)
          else
            match answers.isSynced with
            | .error message => (s, .error (.call message))
            | .ok false => (s, .ok true)
            | .ok true =>
              let s := { s with builds := s.builds ++ [nextBlockNum] }
              (s, (waitForBuild answers.events).map (fun _ => true))

def follow (s : RemoteBlockSource) (lastImported : ℕ) :
    List FollowAnswers → RemoteBlockSource × Except RemoteSourceError Unit
  | [] => (s, .ok ())
  | answers :: rest =>
    match s.followOnce lastImported answers with
    | (s, .ok true) => s.follow (lastImported + 1) rest
    | (s, .ok false) => (s, .ok ())
    | (s, .error e) => (s, .error e)

def followAndBuild (s : RemoteBlockSource) (poll : RemotePoll) :
    RemoteBlockSource × Except RemoteSourceError Unit :=
  match s.lastImportedBlock with
  | some lastImported => s.follow lastImported poll.passes
  | none =>
    match poll.resume.initLastImportedBlock with
    | .error e => (s, .error e)
    | .ok resume => ({ s with lastImportedBlock := some resume }).follow resume poll.passes

def step (s : RemoteBlockSource) (poll : RemotePoll) : RemoteBlockSource := (s.followAndBuild poll).1

end RemoteBlockSource

def FollowAnswers.Serves (answers : FollowAnswers) (number : ℕ) (block : L2Block) : Prop :=
  (∃ head, answers.latest = .ok (some head) ∧ number ≤ head) ∧
    answers.blockByNumber number = .ok (some block) ∧
    ∃ valid, answers.importBlock block = .ok (.ok valid)

namespace RemoteBlockSource
variable {s s' : RemoteBlockSource} {answers : FollowAnswers} {last resume : ℕ}
  {result : Except RemoteSourceError Bool}

theorem followOnce_cases (h : s.followOnce last answers = (s', result)) :
    (s' = s ∧ result ≠ .ok true) ∨ ∃ block, answers.Serves (last + 1) block ∧
      s'.build = s.build ∧ s'.lastImportedBlock = some (last + 1) ∧
      s'.imported = s.imported ++ [(last + 1, block)] ∧
      (s'.builds = s.builds ∨ s.build = true ∧ s'.builds = s.builds ++ [last + 1]) := by
  unfold followOnce at h
  split at h
  · cases h
    exact .inl ⟨rfl, by simp⟩
  · cases h
    exact .inl ⟨rfl, by simp⟩
  rename_i head hlatest
  split at h
  · cases h
    exact .inl ⟨rfl, by simp⟩
  rename_i habove
  simp only at h
  split at h
  · cases h
    exact .inl ⟨rfl, by simp⟩
  · cases h
    exact .inl ⟨rfl, by simp⟩
  rename_i block hblock
  split at h
  · cases h
    exact .inl ⟨rfl, by simp⟩
  · cases h
    exact .inl ⟨rfl, by simp⟩
  rename_i valid himport
  have hserves : answers.Serves (last + 1) block :=
    ⟨⟨head, hlatest, by omega⟩, hblock, valid, himport⟩
  right
  refine ⟨block, hserves, ?_⟩
  split at h
  · cases h
    exact ⟨rfl, rfl, rfl, .inl rfl⟩
  rename_i hbuilds
  simp only [Bool.or_eq_true, Bool.not_eq_true', not_or, Bool.not_eq_false] at hbuilds
  split at h
  · cases h
    exact ⟨rfl, rfl, rfl, .inl rfl⟩
  · cases h
    exact ⟨rfl, rfl, rfl, .inl rfl⟩
  · cases h
    exact ⟨rfl, rfl, rfl, .inr ⟨hbuilds.2, rfl⟩⟩

/-- The blocks behind the resume point were imported one after the other as they were served. -/
structure Follows (served : ℕ → L2Block → Prop) (resume : ℕ) (s : RemoteBlockSource) : Prop where
  last : s.lastImportedBlock = some (resume + s.imported.length)
  consecutive : s.imported.map Prod.fst = List.range' (resume + 1) s.imported.length
  served : ∀ e ∈ s.imported, served e.1 e.2
  builds : s.builds.Sublist (s.imported.map Prod.fst)
  enabled : s.build = false → s.builds = []

variable {served : ℕ → L2Block → Prop}

theorem Follows.followOnce (h : s.Follows served resume)
    (hanswers : ∀ number block, answers.Serves number block → served number block)
    (hstep : s.followOnce (resume + s.imported.length) answers = (s', result)) :
    s'.Follows served resume ∧ s'.build = s.build ∧
      (result = .ok true → s'.imported.length = s.imported.length + 1) := by
  rcases followOnce_cases hstep with ⟨rfl, hends⟩ | ⟨block, hserves, hbuild, hlast, himported, hbuilds⟩
  · exact ⟨h, rfl, fun htrue => absurd htrue hends⟩
  · have hlength : s'.imported.length = s.imported.length + 1 := by simp [himported]
    refine ⟨⟨?_, ?_, ?_, ?_, ?_⟩, hbuild, fun _ => hlength⟩
    · rw [hlast, hlength, Nat.add_assoc]
    · rw [hlength, List.range'_concat, himported, List.map_append, h.consecutive]
      simp
      omega
    · intro e he
      rw [himported] at he
      rcases List.mem_append.1 he with hold | hnew
      · exact h.served e hold
      · rw [List.mem_singleton.1 hnew]
        exact hanswers _ _ hserves
    · rw [himported, List.map_append]
      rcases hbuilds with hsame | ⟨_, hmore⟩
      · rw [hsame]
        exact h.builds.trans (List.sublist_append_left _ _)
      · rw [hmore]
        exact h.builds.append (List.Sublist.refl _)
    · intro hoff
      rw [hbuild] at hoff
      rcases hbuilds with hsame | ⟨hon, _⟩
      · rw [hsame]
        exact h.enabled hoff
      · rw [hon] at hoff
        cases hoff

theorem Follows.follow {passes : List FollowAnswers} (h : s.Follows served resume)
    (hpasses : ∀ answers ∈ passes, ∀ number block, answers.Serves number block → served number block) :
    (s.follow (resume + s.imported.length) passes).1.Follows served resume := by
  induction passes generalizing s with
  | nil => exact h
  | cons answers rest ih =>
    obtain ⟨hanswers, hrest⟩ := List.forall_mem_cons.1 hpasses
    unfold RemoteBlockSource.follow
    split
    · rename_i s' hstep
      obtain ⟨hnext, _, hlength⟩ := h.followOnce hanswers hstep
      rw [Nat.add_assoc, ← hlength rfl]
      exact ih hnext hrest
    · rename_i s' hstep
      exact (h.followOnce hanswers hstep).1
    · rename_i s' e hstep
      exact (h.followOnce hanswers hstep).1

def Unresumed (s : RemoteBlockSource) : Prop :=
  s.lastImportedBlock = none ∧ s.imported = [] ∧ s.builds = []

/-- A poll starts the source at a common block, or continues behind it. -/
theorem resumed_step {poll : RemotePoll} {common : ℕ → Prop}
    (hpasses : ∀ answers ∈ poll.passes, ∀ number block,
      answers.Serves number block → served number block)
    (hcommon : ∀ number, poll.resume.HighestCommon number → common number)
    (h : s.Unresumed ∨ ∃ resume, common resume ∧ s.Follows served resume) :
    (s.step poll).Unresumed ∨ ∃ resume, common resume ∧ (s.step poll).Follows served resume := by
  unfold step followAndBuild
  rcases h with hnone | ⟨resume, hresume, hfollows⟩
  · rw [hnone.1]
    cases hinit : poll.resume.initLastImportedBlock with
    | error e => exact .inl hnone
    | ok resume =>
      right
      have hstart : Follows served resume { s with lastImportedBlock := some resume } := by
        refine ⟨?_, ?_, ?_, ?_, fun _ => hnone.2.2⟩ <;> simp [hnone.2.1, hnone.2.2]
      refine ⟨resume, hcommon resume (ResumeAnswers.initLastImportedBlock_spec hinit), ?_⟩
      have hlength : resume + s.imported.length = resume := by simp [hnone.2.1]
      have hfollows : Follows served resume (({ s with lastImportedBlock := some resume }).follow
        (resume + s.imported.length) poll.passes).1 := hstart.follow hpasses
      rw [hlength] at hfollows
      exact hfollows
  · right
    rw [hfollows.last]
    exact ⟨resume, hresume, hfollows.follow hpasses⟩

/-- Over all polls, with any answers and errors in between, the blocks behind the highest common
block are imported one after the other and each once, as the remote served them; a block is built
at most once on each. -/
theorem imports_consecutive (build : Bool) (polls : List RemotePoll) :
    let s := run step (new build) polls
    s.Unresumed ∨ ∃ resume, (∃ poll ∈ polls, poll.resume.HighestCommon resume) ∧
      s.Follows (fun number block => ∃ poll ∈ polls, ∃ answers ∈ poll.passes,
        answers.Serves number block) resume := by
  refine (meets_of_forall step (fun _ h => h) _).invariant step (fun s : RemoteBlockSource =>
    s.Unresumed ∨ ∃ resume, (∃ poll ∈ polls, poll.resume.HighestCommon resume) ∧
      s.Follows (fun number block => ∃ poll ∈ polls, ∃ answers ∈ poll.passes,
        answers.Serves number block) resume) ?_ (.inl ⟨rfl, rfl, rfl⟩)
  intro s poll h hpoll
  exact resumed_step (fun answers hanswers number block hserves =>
    ⟨poll, hpoll, answers, hanswers, hserves⟩) (fun number hhighest => ⟨poll, hpoll, hhighest⟩) h

end RemoteBlockSource
end RollupNode
