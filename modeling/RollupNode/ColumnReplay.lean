import RollupNode.UnwindReplay

set_option autoImplicit false

/-! The batch columns under the events of one L1 block, delivered once or twice. -/
namespace RollupNode
open GuardedRuns RelationalTable

inductive ColumnEvent where
  | commit (hash : B256) (index : ℕ)
  | finalize (index : ℕ)
  | revert (first last : ℕ)
  deriving DecidableEq, Repr

namespace BatchColumns

def recommit (block : ℕ) (hash : B256) (index : ℕ) (c : BatchColumns) : BatchColumns :=
  if c.hash = hash then { c with index := index, blockNumber := block, finalizedBlockNumber := none }
  else c

def finalizeUpTo (block index : ℕ) (c : BatchColumns) : BatchColumns :=
  if c.index ≤ index ∧ c.finalizedBlockNumber = none ∧ c.revertedBlockNumber = none then
    { c with finalizedBlockNumber := some block }
  else c

def revertRange (block first last : ℕ) (c : BatchColumns) : BatchColumns :=
  if first ≤ c.index ∧ c.index ≤ last ∧ c.revertedBlockNumber = none then
    { c with revertedBlockNumber := some block }
  else c

def committed (block : ℕ) (hash : B256) (index : ℕ) : BatchColumns :=
  ⟨hash, index, block, none, none⟩

end BatchColumns

def FollowsLive (columns : List BatchColumns) (index : ℕ) : Prop :=
  index ≠ 0 ∧ ∃ c ∈ columns, c.index = index - 1 ∧ c.revertedBlockNumber = none

instance (columns : List BatchColumns) (index : ℕ) : Decidable (FollowsLive columns index) :=
  inferInstanceAs (Decidable (index ≠ 0 ∧ ∃ c ∈ columns,
    c.index = index - 1 ∧ c.revertedBlockNumber = none))

def columnStep (block : ℕ) (columns : List BatchColumns) : ColumnEvent → List BatchColumns
  | .commit hash index =>
    if FollowsLive columns index then
      if hash ∈ columns.map BatchColumns.hash then
        columns.map (BatchColumns.recommit block hash index)
      else columns ++ [.committed block hash index]
    else columns
  | .finalize index => columns.map (BatchColumns.finalizeUpTo block index)
  | .revert first last => columns.map (BatchColumns.revertRange block first last)

variable {e : ColumnEvent}

namespace ColumnEvent

def Covers (index : ℕ) : ColumnEvent → Prop
  | .revert first last => first ≤ index ∧ index ≤ last
  | _ => False

def Finalizes (index : ℕ) : ColumnEvent → Prop
  | .finalize upTo => index ≤ upTo
  | _ => False

def Accepted (columns : List BatchColumns) : ColumnEvent → Prop
  | .commit _ index => FollowsLive columns index
  | _ => True

/-- The last event that wrote the finalized column of a batch that is not reverted: whether it was
a finalization or the commit. -/
def lastWrite (hash : B256) (index : ℕ) (events : List ColumnEvent) : Option Bool :=
  events.foldl (fun last e => match e with
    | .commit other _ => if other = hash then some false else last
    | .finalize upTo => if index ≤ upTo then some true else last
    | .revert _ _ => last) none

variable {hash : B256} {index : ℕ} {events : List ColumnEvent}

theorem lastWrite_commit (other : B256) (i : ℕ) :
    lastWrite hash index (events ++ [.commit other i]) =
      if other = hash then some false else lastWrite hash index events :=
  List.foldl_append

theorem lastWrite_finalize (upTo : ℕ) :
    lastWrite hash index (events ++ [.finalize upTo]) =
      if index ≤ upTo then some true else lastWrite hash index events :=
  List.foldl_append

theorem lastWrite_revert (first last : ℕ) :
    lastWrite hash index (events ++ [.revert first last]) = lastWrite hash index events :=
  List.foldl_append

def Writes (hash : B256) (index : ℕ) : ColumnEvent → Prop
  | .commit other _ => other = hash
  | .finalize upTo => index ≤ upTo
  | .revert _ _ => False

theorem lastWrite_append (h : ¬e.Writes hash index) :
    lastWrite hash index (events ++ [e]) = lastWrite hash index events := by
  cases e with
  | commit other i => exact (lastWrite_commit other i).trans (if_neg h)
  | finalize upTo => exact (lastWrite_finalize upTo).trans (if_neg h)
  | revert first last => exact lastWrite_revert first last

theorem lastWrite_of_mem (hmem : e ∈ events) (h : e.Writes hash index) :
    lastWrite hash index events = some false ∨ lastWrite hash index events = some true := by
  induction events using List.reverseRecOn with
  | nil => cases hmem
  | append_singleton es last ih =>
    by_cases hlast : last.Writes hash index
    · cases last with
      | commit other i => exact Or.inl ((lastWrite_commit other i).trans (if_pos hlast))
      | finalize upTo => exact Or.inr ((lastWrite_finalize upTo).trans (if_pos hlast))
      | revert first last => exact absurd hlast not_false
    · rw [lastWrite_append hlast]
      rcases List.mem_append.1 hmem with hes | hsame
      · exact ih hes
      · rw [← List.mem_singleton.1 hsame] at hlast
        exact absurd h hlast

theorem commit_of_lastWrite (h : lastWrite hash index events = some false) :
    ∃ i, .commit hash i ∈ events := by
  induction events using List.reverseRecOn with
  | nil => cases h
  | append_singleton es e ih =>
    by_cases hwrites : e.Writes hash index
    · cases e with
      | commit other i =>
        cases hwrites
        exact ⟨i, List.mem_append_right _ List.mem_cons_self⟩
      | finalize upTo =>
        cases h.symm.trans ((lastWrite_finalize upTo).trans (if_pos hwrites))
      | revert first last => exact absurd hwrites not_false
    · rw [lastWrite_append hwrites] at h
      obtain ⟨i, hi⟩ := ih h
      exact ⟨i, List.mem_append_left _ hi⟩

theorem finalize_after_commit (h : lastWrite hash index events = some true) :
    ∃ upTo, index ≤ upTo ∧ .finalize upTo ∈ events ∧
      ∀ i, .commit hash i ∈ events → [.commit hash i, .finalize upTo].Sublist events := by
  induction events using List.reverseRecOn with
  | nil => cases h
  | append_singleton es e ih =>
    by_cases hwrites : e.Writes hash index
    · cases e with
      | commit other j => cases h.symm.trans ((lastWrite_commit other j).trans (if_pos hwrites))
      | finalize upTo =>
        refine ⟨upTo, hwrites, List.mem_append_right _ List.mem_cons_self, ?_⟩
        intro i hi
        rcases List.mem_append.1 hi with hi | hi
        · exact (List.singleton_sublist.2 hi).append
            (List.Sublist.refl [ColumnEvent.finalize upTo])
        · cases List.mem_singleton.1 hi
      | revert first last => exact absurd hwrites not_false
    · rw [lastWrite_append hwrites] at h
      obtain ⟨upTo, hle, hmem, hafter⟩ := ih h
      refine ⟨upTo, hle, List.mem_append_left _ hmem, ?_⟩
      intro i hi
      rcases List.mem_append.1 hi with hi | hi
      · exact (hafter i hi).trans (List.sublist_append_left _ _)
      · rw [← List.mem_singleton.1 hi] at hwrites
        exact absurd rfl hwrites

theorem commit_mem_of_append (hne : ∀ i, e ≠ .commit hash i) :
    ∀ i, .commit hash i ∈ events ++ [e] → .commit hash i ∈ events := by
  intro i h
  rcases List.mem_append.1 h with h | h
  · exact h
  · exact absurd (List.mem_singleton.1 h).symm (hne i)

theorem uncovered_append (hevents : ∀ r ∈ events, ¬r.Covers index) (he : ¬e.Covers index) :
    ∀ r ∈ events ++ [e], ¬r.Covers index := by
  intro r hr
  rcases List.mem_append.1 hr with hr | hr
  · exact hevents r hr
  · rw [List.mem_singleton.1 hr]
    exact he

end ColumnEvent

open ColumnEvent

/-- What the first delivery of the events has to be for the second one to leave the columns alone.
The index of a batch is part of what its hash is taken of. -/
structure Replayable (indexOf : B256 → ℕ) (block : ℕ) (columns : List BatchColumns)
    (events : List ColumnEvent) : Prop where
  stored : ∀ c ∈ columns, c.index = indexOf c.hash
  indexed : ∀ hash i, .commit hash i ∈ events → i = indexOf hash
  accepted : Meets (columnStep block) (fun columns e => e.Accepted columns) columns events
  no_recommit : ∀ r hash i, [r, .commit hash i].Sublist events → ¬r.Covers i
  no_late_revert : ∀ hash i f r, [.commit hash i, f, r].Sublist events → f.Finalizes i →
    ¬r.Covers i
  no_split : ∀ f hash i r, [f, .commit hash i, r].Sublist events → f.Finalizes i →
    r.Covers (i - 1) → r.Covers i

theorem Replayable.of_append {indexOf : B256 → ℕ} {block : ℕ} {columns : List BatchColumns}
    {events rest : List ColumnEvent} (h : Replayable indexOf block columns (events ++ rest)) :
    Replayable indexOf block columns events where
  stored := h.stored
  indexed hash i hi := h.indexed hash i (List.mem_append_left _ hi)
  accepted := ((meets_append _ _ _ _ _).1 h.accepted).1
  no_recommit r hash i hsub := h.no_recommit r hash i (hsub.trans (List.sublist_append_left _ _))
  no_late_revert hash i f r hsub :=
    h.no_late_revert hash i f r (hsub.trans (List.sublist_append_left _ _))
  no_split f hash i r hsub := h.no_split f hash i r (hsub.trans (List.sublist_append_left _ _))

structure History (block : ℕ) (events : List ColumnEvent) (c : BatchColumns) : Prop where
  live : c.revertedBlockNumber = none → ∀ r ∈ events, ¬r.Covers c.index
  finalized : c.revertedBlockNumber = none → lastWrite c.hash c.index events = some true →
    c.finalizedBlockNumber ≠ none
  written : c.revertedBlockNumber = none → lastWrite c.hash c.index events = some true →
    ∀ i, .commit c.hash i ∈ events → c.finalizedBlockNumber = some block
  cleared : c.revertedBlockNumber = none → lastWrite c.hash c.index events = some false →
    c.finalizedBlockNumber = none
  reverted : c.revertedBlockNumber ≠ none → ∀ i, .commit c.hash i ∈ events →
    c.finalizedBlockNumber = none
  block_eq : ∀ i, .commit c.hash i ∈ events → c.blockNumber = block

section
variable {indexOf : B256 → ℕ} {block : ℕ} {columns : List BatchColumns}
  {events : List ColumnEvent} {c : BatchColumns}

theorem History.nil (c : BatchColumns) : History block [] c where
  live _ r hr := by cases hr
  finalized _ hwrite := by cases hwrite
  written _ hwrite := by cases hwrite
  cleared _ hwrite := by cases hwrite
  reverted _ i hi := by cases hi
  block_eq i hi := by cases hi

variable {hash : B256} {index : ℕ}

theorem mem_columnStep_commit (hfollows : FollowsLive columns index)
    (h : c ∈ columnStep block columns (.commit hash index)) :
    (c ∈ columns ∧ c.hash ≠ hash) ∨
      (c.hash = hash ∧ c.index = index ∧ c.blockNumber = block ∧ c.finalizedBlockNumber = none ∧
        (c.revertedBlockNumber = none →
          c = .committed block hash index ∨ ∃ old ∈ columns, old.hash = hash ∧
            old.revertedBlockNumber = none)) := by
  rw [columnStep, if_pos hfollows] at h
  split at h
  · obtain ⟨old, hold, rfl⟩ := List.mem_map.1 h
    by_cases hhash : old.hash = hash
    · right
      simp only [BatchColumns.recommit, if_pos hhash]
      exact ⟨hhash, trivial, trivial, trivial, fun hrev => Or.inr ⟨old, hold, hhash, hrev⟩⟩
    · left
      simp only [BatchColumns.recommit, if_neg hhash]
      exact ⟨hold, hhash⟩
  · rename_i hnew
    rcases List.mem_append.1 h with h | h
    · refine Or.inl ⟨h, ?_⟩
      intro hhash
      exact hnew (List.mem_map.2 ⟨c, h, hhash⟩)
    · rw [List.mem_singleton.1 h]
      exact Or.inr ⟨rfl, rfl, rfl, rfl, fun _ => Or.inl rfl⟩

theorem History.unwritten (h : History block events c) (hwrites : ¬e.Writes c.hash c.index)
    (hcovers : c.revertedBlockNumber = none → ¬e.Covers c.index) :
    History block (events ++ [e]) c := by
  have hcommit : ∀ i, .commit c.hash i ∈ events ++ [e] → .commit c.hash i ∈ events := by
    refine commit_mem_of_append ?_
    rintro i rfl
    exact hwrites rfl
  refine ⟨fun hrev => uncovered_append (h.live hrev) (hcovers hrev), ?_, ?_, ?_,
    fun hrev i hi => h.reverted hrev i (hcommit i hi), fun i hi => h.block_eq i (hcommit i hi)⟩
  · rw [lastWrite_append hwrites]
    exact h.finalized
  · rw [lastWrite_append hwrites]
    exact fun hrev hwrite i hi => h.written hrev hwrite i (hcommit i hi)
  · rw [lastWrite_append hwrites]
    exact h.cleared

theorem history_committed (hhash : c.hash = hash) (hblock : c.blockNumber = block)
    (hfinalized : c.finalizedBlockNumber = none)
    (hlive : c.revertedBlockNumber = none → ∀ r ∈ events, ¬r.Covers c.index) :
    History block (events ++ [.commit hash index]) c := by
  have hlast : lastWrite c.hash c.index (events ++ [.commit hash index]) = some false := by
    rw [lastWrite_commit, if_pos hhash.symm]
  refine ⟨fun hrev => uncovered_append (hlive hrev) not_false, ?_, ?_, fun _ _ => hfinalized,
    fun _ _ _ => hfinalized, fun _ _ => hblock⟩
  · intro _ hwrite
    rw [hlast] at hwrite
    cases hwrite
  · intro _ hwrite
    rw [hlast] at hwrite
    cases hwrite

theorem History.finalize (h : History block events c) (upTo : ℕ) :
    History block (events ++ [.finalize upTo]) (c.finalizeUpTo block upTo) := by
  have hcommit : ∀ i, .commit c.hash i ∈ events ++ [.finalize upTo] →
      .commit c.hash i ∈ events := commit_mem_of_append (fun i heq => by cases heq)
  have hlive : c.revertedBlockNumber = none → ∀ r ∈ events ++ [.finalize upTo],
      ¬r.Covers c.index := fun hrev => uncovered_append (h.live hrev) not_false
  by_cases hle : c.index ≤ upTo
  · have hlast : lastWrite c.hash c.index (events ++ [.finalize upTo]) = some true := by
      rw [lastWrite_finalize, if_pos hle]
    by_cases hhit : c.finalizedBlockNumber = none ∧ c.revertedBlockNumber = none
    · rw [BatchColumns.finalizeUpTo, if_pos ⟨hle, hhit⟩]
      refine ⟨hlive, ?_, fun _ _ _ _ => rfl, ?_, fun hrev => absurd hhit.2 hrev,
        fun i hi => h.block_eq i (hcommit i hi)⟩
      · intro _ _ hnone
        cases hnone
      · intro _ hwrite
        cases hlast.symm.trans hwrite
    · rw [BatchColumns.finalizeUpTo, if_neg (fun hall => hhit hall.2)]
      have hsome : c.revertedBlockNumber = none → c.finalizedBlockNumber ≠ none :=
        fun hrev hnone => hhit ⟨hnone, hrev⟩
      refine ⟨hlive, fun hrev _ => hsome hrev, ?_, ?_, ?_,
        fun i hi => h.block_eq i (hcommit i hi)⟩
      · intro hrev _ i hi
        have hi := hcommit i hi
        rcases lastWrite_of_mem hi rfl with hwrite | hwrite
        · exact absurd (h.cleared hrev hwrite) (hsome hrev)
        · exact h.written hrev hwrite i hi
      · intro _ hwrite
        cases hlast.symm.trans hwrite
      · exact fun hrev i hi => h.reverted hrev i (hcommit i hi)
  · rw [BatchColumns.finalizeUpTo, if_neg (fun hall => hle hall.1)]
    exact h.unwritten hle (fun _ => not_false)

theorem History.revert (h : History block events c) (first last : ℕ)
    (hlate : ∀ i f, [.commit c.hash i, f].Sublist events → f.Finalizes c.index →
      ¬(ColumnEvent.revert first last).Covers c.index) :
    History block (events ++ [.revert first last]) (c.revertRange block first last) := by
  have hcommit : ∀ i, .commit c.hash i ∈ events ++ [.revert first last] →
      .commit c.hash i ∈ events := commit_mem_of_append (fun i heq => by cases heq)
  by_cases hhit : first ≤ c.index ∧ c.index ≤ last ∧ c.revertedBlockNumber = none
  · obtain ⟨hfirst, hle, hrev⟩ := hhit
    rw [BatchColumns.revertRange, if_pos ⟨hfirst, hle, hrev⟩]
    refine ⟨?_, ?_, ?_, ?_, ?_, fun i hi => h.block_eq i (hcommit i hi)⟩
    · intro hnone
      cases hnone
    · intro hnone
      cases hnone
    · intro hnone
      cases hnone
    · intro hnone
      cases hnone
    · intro _ i hi
      have hi := hcommit i hi
      rcases lastWrite_of_mem hi rfl with hwrite | hwrite
      · exact h.cleared hrev hwrite
      · obtain ⟨upTo, hupTo, -, hafter⟩ := finalize_after_commit hwrite
        exact absurd ⟨hfirst, hle⟩ (hlate i (.finalize upTo) (hafter i hi) hupTo)
  · rw [BatchColumns.revertRange, if_neg hhit]
    exact h.unwritten not_false (fun hrev hcovers => hhit ⟨hcovers.1, hcovers.2, hrev⟩)

theorem BatchColumns.finalizeUpTo_key (block : ℕ) (c : BatchColumns) (upTo : ℕ) :
    (c.finalizeUpTo block upTo).hash = c.hash ∧ (c.finalizeUpTo block upTo).index = c.index ∧
      (c.finalizeUpTo block upTo).revertedBlockNumber = c.revertedBlockNumber := by
  unfold BatchColumns.finalizeUpTo
  split <;> exact ⟨rfl, rfl, rfl⟩

theorem BatchColumns.revertRange_key (block : ℕ) (c : BatchColumns) (first last : ℕ) :
    (c.revertRange block first last).hash = c.hash ∧
      (c.revertRange block first last).index = c.index := by
  unfold BatchColumns.revertRange
  split <;> exact ⟨rfl, rfl⟩

theorem history_run (h : Replayable indexOf block columns events) :
    ∀ c ∈ run (columnStep block) columns events,
      c.index = indexOf c.hash ∧ History block events c := by
  induction events using List.reverseRecOn with
  | nil =>
    intro c hc
    exact ⟨h.stored c hc, History.nil c⟩
  | append_singleton es e ih =>
    have ih := ih h.of_append
    have haccepted : e.Accepted (run (columnStep block) columns es) :=
      ((meets_append _ _ _ _ _).1 h.accepted).2.1
    rw [run_append]
    intro c hc
    change c ∈ columnStep block _ e at hc
    cases e with
    | commit hash index =>
      have hindex : index = indexOf hash :=
        h.indexed hash index (List.mem_append_right _ List.mem_cons_self)
      rcases mem_columnStep_commit haccepted hc with ⟨hmem, hother⟩ | ⟨hhash, hi, hblock, hfin, hold⟩
      · exact ⟨(ih c hmem).1, (ih c hmem).2.unwritten (Ne.symm hother) (fun _ => not_false)⟩
      · refine ⟨by rw [hi, hhash, hindex], history_committed hhash hblock hfin ?_⟩
        intro hrev r hr
        rcases hold hrev with rfl | ⟨old, hmem, holdhash, holdrev⟩
        · exact h.no_recommit r hash index ((List.singleton_sublist.2 hr).append
            (List.Sublist.refl [ColumnEvent.commit hash index]))
        · have hsame : c.index = old.index := by rw [hi, (ih old hmem).1, holdhash, hindex]
          rw [hsame]
          exact (ih old hmem).2.live holdrev r hr
    | finalize upTo =>
      obtain ⟨old, hold, rfl⟩ := List.mem_map.1 hc
      obtain ⟨hhash, hindex, -⟩ := old.finalizeUpTo_key block upTo
      rw [hhash, hindex]
      exact ⟨(ih old hold).1, (ih old hold).2.finalize upTo⟩
    | revert first last =>
      obtain ⟨old, hold, rfl⟩ := List.mem_map.1 hc
      obtain ⟨hhash, hindex⟩ := old.revertRange_key block first last
      rw [hhash, hindex]
      refine ⟨(ih old hold).1, (ih old hold).2.revert first last ?_⟩
      intro i f hsub hfinalizes
      have hi : i = old.index := by
        rw [(ih old hold).1]
        exact h.indexed _ i (List.mem_append_left _ (hsub.subset List.mem_cons_self))
      rw [← hi] at hfinalizes ⊢
      exact h.no_late_revert _ i f _ (hsub.append (List.Sublist.refl [ColumnEvent.revert first last]))
        hfinalizes

theorem mem_hashes_columnStep (h : hash ∈ columns.map BatchColumns.hash) (e : ColumnEvent) :
    hash ∈ (columnStep block columns e).map BatchColumns.hash := by
  obtain ⟨c, hc, rfl⟩ := List.mem_map.1 h
  cases e with
  | commit other i =>
    rw [columnStep]
    split
    · split
      · refine List.mem_map.2 ⟨_, List.mem_map.2 ⟨c, hc, rfl⟩, ?_⟩
        unfold BatchColumns.recommit
        split <;> rfl
      · rw [List.map_append]
        exact List.mem_append_left _ h
    · exact h
  | finalize upTo =>
    exact List.mem_map.2 ⟨_, List.mem_map.2 ⟨c, hc, rfl⟩, (c.finalizeUpTo_key block upTo).1⟩
  | revert first last =>
    exact List.mem_map.2 ⟨_, List.mem_map.2 ⟨c, hc, rfl⟩, (c.revertRange_key block first last).1⟩

theorem mem_hashes_run {i : ℕ}
    (haccepted : Meets (columnStep block) (fun columns e => e.Accepted columns) columns events)
    (h : .commit hash i ∈ events) :
    hash ∈ (run (columnStep block) columns events).map BatchColumns.hash := by
  induction events using List.reverseRecOn with
  | nil => cases h
  | append_singleton es e ih =>
    obtain ⟨hes, he, -⟩ := (meets_append _ _ _ _ _).1 haccepted
    rw [run_append]
    rcases List.mem_append.1 h with hmem | hlast
    · exact mem_hashes_columnStep (ih hes hmem) e
    · rw [← List.mem_singleton.1 hlast] at he ⊢
      change hash ∈ (columnStep block _ (.commit hash i)).map BatchColumns.hash
      rw [columnStep, if_pos (show FollowsLive _ i from he)]
      split
      · rename_i hstored
        obtain ⟨c, hc, rfl⟩ := List.mem_map.1 hstored
        refine List.mem_map.2 ⟨_, List.mem_map.2 ⟨c, hc, rfl⟩, ?_⟩
        rw [BatchColumns.recommit, if_pos rfl]
      · exact List.mem_map.2 ⟨_, List.mem_append_right _ List.mem_cons_self, rfl⟩

theorem live_run (hc : c ∈ columns) (hlive : c.revertedBlockNumber = none)
    (hindexed : ∀ i, .commit c.hash i ∈ events → i = c.index)
    (hkept : ∀ r ∈ events, ¬r.Covers c.index) :
    ∃ d ∈ run (columnStep block) columns events,
      d.index = c.index ∧ d.revertedBlockNumber = none := by
  induction events generalizing columns c with
  | nil => exact ⟨c, hc, rfl, hlive⟩
  | cons e es ih =>
    have hnext : ∃ d ∈ columnStep block columns e,
        d.hash = c.hash ∧ d.index = c.index ∧ d.revertedBlockNumber = none := by
      cases e with
      | commit hash i =>
        rw [columnStep]
        split
        · split
          · refine ⟨_, List.mem_map.2 ⟨c, hc, rfl⟩, ?_⟩
            unfold BatchColumns.recommit
            split
            · rename_i hhash
              rw [← hhash] at hindexed
              exact ⟨rfl, hindexed i List.mem_cons_self, hlive⟩
            · exact ⟨rfl, rfl, hlive⟩
          · exact ⟨c, List.mem_append_left _ hc, rfl, rfl, hlive⟩
        · exact ⟨c, hc, rfl, rfl, hlive⟩
      | finalize upTo =>
        obtain ⟨hhash, hindex, hrev⟩ := c.finalizeUpTo_key block upTo
        exact ⟨_, List.mem_map.2 ⟨c, hc, rfl⟩, hhash, hindex, hrev.trans hlive⟩
      | revert first last =>
        refine ⟨_, List.mem_map.2 ⟨c, hc, rfl⟩, ?_⟩
        have hmiss := hkept _ List.mem_cons_self
        rw [BatchColumns.revertRange, if_neg (fun hall => hmiss ⟨hall.1, hall.2.1⟩)]
        exact ⟨rfl, rfl, hlive⟩
    obtain ⟨d, hd, hhash, hindex, hrev⟩ := hnext
    rw [← hhash, ← hindex] at hindexed
    rw [← hindex] at hkept ⊢
    exact ih hd hrev (fun i hi => hindexed i (List.mem_cons_of_mem _ hi))
      (fun r hr => hkept r (List.mem_cons_of_mem _ hr))

/-- The finalized column of a batch while the events are delivered again: as it was left, or as
the last of the events wrote it. -/
def Restored (block : ℕ) (events delivered : List ColumnEvent) (c : BatchColumns)
    (finalized : Option ℕ) : Prop :=
  finalized = c.finalizedBlockNumber ∨
    (c.revertedBlockNumber = none ∧ (∃ i, .commit c.hash i ∈ events) ∧
      ((lastWrite c.hash c.index delivered = some true ∧ finalized = some block) ∨
        (lastWrite c.hash c.index delivered = some false ∧ finalized = none)))

def BatchColumns.withFinalized (c : BatchColumns) (finalized : Option ℕ) : BatchColumns :=
  { c with finalizedBlockNumber := finalized }

variable {finalized : Option ℕ} {delivered : List ColumnEvent}

theorem Restored.eq (hhistory : History block events c)
    (h : Restored block events events c finalized) : finalized = c.finalizedBlockNumber := by
  rcases h with h | ⟨hrev, ⟨i, hi⟩, ⟨hwrite, h⟩ | ⟨hwrite, h⟩⟩
  · exact h
  · rw [h, hhistory.written hrev hwrite i hi]
  · rw [h, hhistory.cleared hrev hwrite]

theorem Restored.congr {delivered' : List ColumnEvent}
    (h : Restored block events delivered c finalized)
    (hwrite : lastWrite c.hash c.index delivered' = lastWrite c.hash c.index delivered) :
    Restored block events delivered' c finalized := by
  rw [Restored, hwrite]
  exact h

theorem History.finalized_or_committed (h : History block events c) {upTo : ℕ}
    (hmem : .finalize upTo ∈ events) (hle : c.index ≤ upTo) (hrev : c.revertedBlockNumber = none) :
    c.finalizedBlockNumber ≠ none ∨ ∃ i, .commit c.hash i ∈ events := by
  rcases lastWrite_of_mem hmem hle with hwrite | hwrite
  · exact Or.inr (commit_of_lastWrite hwrite)
  · exact Or.inl (h.finalized hrev hwrite)

theorem Restored.finalize {upTo : ℕ} (hhistory : History block events c)
    (hmem : .finalize upTo ∈ events) (h : Restored block events delivered c finalized) :
    ∃ finalized', (c.withFinalized finalized).finalizeUpTo block upTo =
        c.withFinalized finalized' ∧
      Restored block events (delivered ++ [.finalize upTo]) c finalized' := by
  by_cases hle : c.index ≤ upTo
  · have hlast : lastWrite c.hash c.index (delivered ++ [.finalize upTo]) = some true := by
      rw [lastWrite_finalize, if_pos hle]
    by_cases hhit : finalized = none ∧ c.revertedBlockNumber = none
    · obtain ⟨rfl, hrev⟩ := hhit
      refine ⟨some block, if_pos ⟨hle, rfl, hrev⟩, Or.inr ⟨hrev, ?_, Or.inl ⟨hlast, rfl⟩⟩⟩
      rcases h with h | ⟨-, hcommit, -⟩
      · exact (hhistory.finalized_or_committed hmem hle hrev).resolve_left (fun hne => hne h.symm)
      · exact hcommit
    · refine ⟨finalized, if_neg (fun hall => hhit hall.2), ?_⟩
      rcases h with h | ⟨hrev, hcommit, ⟨-, h⟩ | ⟨-, h⟩⟩
      · exact Or.inl h
      · exact Or.inr ⟨hrev, hcommit, Or.inl ⟨hlast, h⟩⟩
      · exact absurd ⟨h, hrev⟩ hhit
  · exact ⟨finalized, if_neg (fun hall => hle hall.1), h.congr (lastWrite_append hle)⟩

theorem Restored.revert {first last : ℕ} (hhistory : History block events c)
    (hmem : .revert first last ∈ events) (h : Restored block events delivered c finalized) :
    (c.withFinalized finalized).revertRange block first last = c.withFinalized finalized ∧
      Restored block events (delivered ++ [.revert first last]) c finalized := by
  refine ⟨if_neg ?_, h.congr (lastWrite_append not_false)⟩
  rintro ⟨hfirst, hlast, hrev⟩
  exact hhistory.live hrev _ hmem ⟨hfirst, hlast⟩

theorem Restored.commit (hhistory : History block events c) (hmem : .commit hash index ∈ events)
    (hindex : c.hash = hash → c.index = index) (h : Restored block events delivered c finalized) :
    ∃ finalized', (c.withFinalized finalized).recommit block hash index =
        c.withFinalized finalized' ∧
      Restored block events (delivered ++ [.commit hash index]) c finalized' := by
  by_cases hhash : c.hash = hash
  · have hlast : lastWrite c.hash c.index (delivered ++ [.commit hash index]) = some false := by
      rw [lastWrite_commit, if_pos hhash.symm]
    rw [← hhash] at hmem
    have hsame : (c.withFinalized finalized).recommit block hash index = c.withFinalized none := by
      rw [BatchColumns.recommit, if_pos (show (c.withFinalized finalized).hash = hash from hhash)]
      simp only [BatchColumns.withFinalized, hindex hhash, hhistory.block_eq index hmem]
    refine ⟨none, hsame, ?_⟩
    by_cases hrev : c.revertedBlockNumber = none
    · exact Or.inr ⟨hrev, ⟨index, hmem⟩, Or.inr ⟨hlast, rfl⟩⟩
    · exact Or.inl (hhistory.reverted hrev index hmem).symm
  · have hwrites : ¬(ColumnEvent.commit hash index).Writes c.hash c.index :=
      fun hsame => hhash hsame.symm
    exact ⟨finalized, if_neg hhash, h.congr (lastWrite_append hwrites)⟩

theorem Restored.rejected (h : Restored block events delivered c finalized)
    (hgap : c.hash = hash → c.revertedBlockNumber = none →
      lastWrite c.hash c.index delivered ≠ some true) :
    Restored block events (delivered ++ [.commit hash index]) c finalized := by
  by_cases hhash : c.hash = hash
  · have hlast : lastWrite c.hash c.index (delivered ++ [.commit hash index]) = some false := by
      rw [lastWrite_commit, if_pos hhash.symm]
    rcases h with h | ⟨hrev, hcommit, ⟨hwrite, -⟩ | ⟨-, h⟩⟩
    · exact Or.inl h
    · exact absurd hwrite (hgap hhash hrev)
    · exact Or.inr ⟨hrev, hcommit, Or.inr ⟨hlast, h⟩⟩
  · have hwrites : ¬(ColumnEvent.commit hash index).Writes c.hash c.index :=
      fun hsame => hhash hsame.symm
    exact h.congr (lastWrite_append hwrites)

theorem followsLive_again {rest : List ColumnEvent}
    (h : Replayable indexOf block columns (events ++ .commit hash index :: rest))
    (hc : c ∈ run (columnStep block) columns (events ++ .commit hash index :: rest))
    (hhash : c.hash = hash) (hrev : c.revertedBlockNumber = none)
    (hwrite : lastWrite c.hash c.index events = some true) :
    FollowsLive (run (columnStep block) columns (events ++ .commit hash index :: rest)) index := by
  obtain ⟨hcindex, hhistory⟩ := history_run h c hc
  have hcommit : ColumnEvent.commit hash index ∈ events ++ .commit hash index :: rest :=
    List.mem_append_right _ List.mem_cons_self
  have hsame : c.index = index := by rw [hcindex, hhash, ← h.indexed hash index hcommit]
  obtain ⟨hnonzero, q, hq, hqindex, hqlive⟩ :=
    (show FollowsLive _ index from ((meets_append _ _ _ _ _).1 h.accepted).2.1)
  obtain ⟨upTo, hle, hfinalize, -⟩ := finalize_after_commit hwrite
  have hkept : ∀ r ∈ .commit hash index :: rest, ¬r.Covers q.index := by
    intro r hr hcovers
    rcases List.mem_cons.1 hr with rfl | hr
    · exact hcovers
    · have hsub : [.finalize upTo, .commit hash index, r].Sublist
          (events ++ .commit hash index :: rest) :=
        (List.singleton_sublist.2 hfinalize).append
          ((List.singleton_sublist.2 hr).cons_cons (ColumnEvent.commit hash index))
      rw [hqindex] at hcovers
      have hboth := h.no_split _ hash index r hsub (show index ≤ upTo from hsame ▸ hle) hcovers
      refine hhistory.live hrev r (List.mem_append_right _ (List.mem_cons_of_mem _ hr)) ?_
      rwa [hsame]
  have hindexed : ∀ i, .commit q.hash i ∈ .commit hash index :: rest → i = q.index := by
    intro i hi
    rw [(history_run h.of_append q hq).1]
    exact h.indexed q.hash i (List.mem_append_right _ hi)
  obtain ⟨d, hd, hdindex, hdlive⟩ := live_run hq hqlive hindexed hkept
  rw [run_append]
  exact ⟨hnonzero, d, hd, hdindex.trans hqindex, hdlive⟩

theorem followsLive_withFinalized (finalized : BatchColumns → Option ℕ) (index : ℕ) :
    FollowsLive (columns.map (fun c => c.withFinalized (finalized c))) index ↔
      FollowsLive columns index := by
  simp only [FollowsLive, List.mem_map, exists_exists_and_eq_and]
  rfl

theorem map_withFinalized (op : BatchColumns → BatchColumns) (finalized : BatchColumns → Option ℕ)
    (P : BatchColumns → Option ℕ → Prop)
    (h : ∀ c ∈ columns, ∃ finalized', op (c.withFinalized (finalized c)) =
      c.withFinalized finalized' ∧ P c finalized') :
    ∃ finalized' : BatchColumns → Option ℕ,
      (columns.map (fun c => c.withFinalized (finalized c))).map op =
        columns.map (fun c => c.withFinalized (finalized' c)) ∧
      ∀ c ∈ columns, P c (finalized' c) := by
  refine ⟨fun c => (op (c.withFinalized (finalized c))).finalizedBlockNumber, ?_, ?_⟩
  · rw [List.map_map]
    refine List.map_congr_left ?_
    intro c hc
    obtain ⟨finalized', hop, -⟩ := h c hc
    simp only [Function.comp_apply, hop]
    rfl
  · intro c hc
    obtain ⟨finalized', hop, hP⟩ := h c hc
    simp only [hop]
    exact hP

/-- While the events come again, the columns differ in their finalizations only. -/
theorem restored_run (h : Replayable indexOf block columns events) (delivered : List ColumnEvent)
    (hdelivered : delivered <+: events) :
    ∃ finalized : BatchColumns → Option ℕ,
      run (columnStep block) (run (columnStep block) columns events) delivered =
        (run (columnStep block) columns events).map (fun c => c.withFinalized (finalized c)) ∧
      ∀ c ∈ run (columnStep block) columns events,
        Restored block events delivered c (finalized c) := by
  induction delivered using List.reverseRecOn with
  | nil =>
    refine ⟨BatchColumns.finalizedBlockNumber, ?_, fun c _ => Or.inl rfl⟩
    exact (List.map_id _).symm
  | append_singleton delivered e ih =>
    obtain ⟨rest, hrest⟩ := hdelivered
    rw [List.append_assoc] at hrest
    obtain ⟨finalized, hrun, hrestored⟩ := ih ⟨_, hrest⟩
    have hmem : e ∈ events := by
      rw [← hrest]
      exact List.mem_append_right _ List.mem_cons_self
    have hhistory := history_run h
    rw [run_append, hrun]
    change ∃ finalized' : BatchColumns → Option ℕ, columnStep block _ e = _ ∧ _
    cases e with
    | commit hash index =>
      have hindex : ∀ c ∈ run (columnStep block) columns events, c.hash = hash →
          c.index = index := by
        intro c hc hhash
        rw [(hhistory c hc).1, hhash, ← h.indexed hash index hmem]
      rw [columnStep]
      split
      · have hstored : hash ∈ ((run (columnStep block) columns events).map
            (fun c => c.withFinalized (finalized c))).map BatchColumns.hash := by
          rw [List.map_map]
          exact mem_hashes_run h.accepted hmem
        rw [if_pos hstored]
        refine map_withFinalized _ finalized _ ?_
        intro c hc
        exact (hrestored c hc).commit (hhistory c hc).2 hmem (hindex c hc)
      · rename_i hgap
        refine ⟨finalized, rfl, ?_⟩
        intro c hc
        refine (hrestored c hc).rejected ?_
        intro hhash hrev hwrite
        rw [followsLive_withFinalized, ← hrest] at hgap
        rw [← hrest] at h hc
        exact hgap (followsLive_again h hc hhash hrev hwrite)
    | finalize upTo =>
      refine map_withFinalized _ finalized _ ?_
      intro c hc
      exact (hrestored c hc).finalize (hhistory c hc).2 hmem
    | revert first last =>
      refine map_withFinalized _ finalized _ ?_
      intro c hc
      exact ⟨_, (hrestored c hc).revert (hhistory c hc).2 hmem⟩

theorem columns_again (h : Replayable indexOf block columns events) :
    run (columnStep block) (run (columnStep block) columns events) events =
      run (columnStep block) columns events := by
  obtain ⟨finalized, hrun, hrestored⟩ := restored_run h events (List.prefix_refl events)
  have hsame : ∀ c ∈ run (columnStep block) columns events, c.withFinalized (finalized c) = c := by
    intro c hc
    rw [(hrestored c hc).eq (history_run h c hc).2]
    rfl
  rw [hrun, List.map_congr_left hsame, List.map_id']

theorem revert_again (h : Replayable indexOf block columns events) {first last : ℕ}
    (hdelivered : delivered ++ [.revert first last] <+: events) :
    ∀ c ∈ run (columnStep block) (run (columnStep block) columns events) delivered,
      ¬(first ≤ c.index ∧ c.index ≤ last ∧ c.revertedBlockNumber = none) := by
  obtain ⟨finalized, hrun, -⟩ := restored_run h delivered
    ((List.prefix_append delivered [.revert first last]).trans hdelivered)
  rw [hrun]
  intro c hc
  obtain ⟨old, hold, rfl⟩ := List.mem_map.1 hc
  rintro ⟨hfirst, hlast, hrev⟩
  have hmem : ColumnEvent.revert first last ∈ events :=
    hdelivered.subset (List.mem_append_right _ List.mem_cons_self)
  exact (history_run h old hold).2.live hrev _ hmem ⟨hfirst, hlast⟩

end

@[ext]
structure IndexedBatches where
  columns : List BatchColumns
  blocks : Table L2BlockRow.key

namespace IndexedBatches

def inRange (first last : ℕ) (c : BatchColumns) : Bool :=
  first ≤ c.index ∧ c.index ≤ last ∧ c.revertedBlockNumber = none

def revertedBlocks (s : IndexedBatches) (first last : ℕ) : Table L2BlockRow.key :=
  s.blocks.updateWhere
    (fun r => r.batchHash ∈ (s.columns.filter (inRange first last)).map BatchColumns.hash)
    (fun r => { r with reverted := true }) (fun _ => rfl)

def step (block : ℕ) (s : IndexedBatches) (e : ColumnEvent) : IndexedBatches :=
  match e with
  | .revert first last =>
    if ∃ r ∈ s.revertedBlocks first last, r.reverted = false then
      ⟨columnStep block s.columns e, s.revertedBlocks first last⟩
    else s
  | _ => { s with columns := columnStep block s.columns e }

def LeavesBlock (s : IndexedBatches) : ColumnEvent → Prop
  | .revert first last => ∃ r ∈ s.revertedBlocks first last, r.reverted = false
  | _ => True

variable {indexOf : B256 → ℕ} {block : ℕ} {s : IndexedBatches} {events : List ColumnEvent}

theorem step_columns (h : s.LeavesBlock e) :
    (s.step block e).columns = columnStep block s.columns e := by
  cases e with
  | commit hash index => rfl
  | finalize upTo => rfl
  | revert first last => rw [step, if_pos (show ∃ r ∈ s.revertedBlocks first last, _ from h)]

theorem run_columns (h : Meets (step block) LeavesBlock s events) :
    (run (step block) s events).columns = run (columnStep block) s.columns events := by
  induction events generalizing s with
  | nil => rfl
  | cons e es ih =>
    have hes := ih h.2
    rw [step_columns h.1] at hes
    exact hes

theorem columnStep_revert_of_none {columns : List BatchColumns} {first last : ℕ}
    (h : ∀ c ∈ columns, inRange first last c = false) :
    columnStep block columns (.revert first last) = columns := by
  refine (List.map_congr_left ?_).trans (List.map_id' _)
  intro c hc
  exact if_neg (of_decide_eq_false (h c hc))

theorem step_revert_of_none {first last : ℕ} (h : ∀ c ∈ s.columns, inRange first last c = false) :
    s.step block (.revert first last) = s := by
  have hblocks : s.revertedBlocks first last = s.blocks := by
    have hnone : s.columns.filter (inRange first last) = [] := by
      rw [List.filter_eq_nil_iff]
      intro c hc
      rw [h c hc]
      exact Bool.false_ne_true
    refine Table.ext_rows ((List.map_congr_left ?_).trans (List.map_id' _))
    intro r _
    rw [hnone]
    exact if_neg (by simp)
  rw [step]
  split
  · rw [columnStep_revert_of_none h, hblocks]
  · rfl

theorem run_again (h : Replayable indexOf block s.columns events)
    (hblocks : Meets (step block) LeavesBlock s events) (delivered : List ColumnEvent)
    (hdelivered : delivered <+: events) :
    run (step block) (run (step block) s events) delivered =
      ⟨run (columnStep block) (run (columnStep block) s.columns events) delivered,
        (run (step block) s events).blocks⟩ := by
  induction delivered using List.reverseRecOn with
  | nil => exact IndexedBatches.ext (run_columns hblocks) rfl
  | append_singleton delivered e ih =>
    have ih := ih ((List.prefix_append delivered [e]).trans hdelivered)
    rw [run_append, ih, run_append]
    cases e with
    | commit hash index => rfl
    | finalize upTo => rfl
    | revert first last =>
      have hnone : ∀ c ∈ run (columnStep block) (run (columnStep block) s.columns events) delivered,
          inRange first last c = false :=
        fun c hc => decide_eq_false (revert_again h hdelivered c hc)
      change step block ⟨_, _⟩ (.revert first last) = ⟨columnStep block _ (.revert first last), _⟩
      rw [step_revert_of_none hnone, columnStep_revert_of_none hnone]

theorem batches_again (h : Replayable indexOf block s.columns events)
    (hblocks : Meets (step block) LeavesBlock s events) :
    run (step block) (run (step block) s events) events = run (step block) s events := by
  rw [run_again h hblocks events (List.prefix_refl events), columns_again h, ← run_columns hblocks]

end IndexedBatches
end RollupNode
