import RollupNode.GuardedRuns
import RollupNode.Reconciliation

set_option autoImplicit false

/-! The cache of block data hints. Entries may expire or be evicted between any two steps. -/
namespace RollupNode
open RelationalTable GuardedRuns

structure BlockDataRow where
  number : ℕ
  hint : BlockDataHint
  deriving DecidableEq, Repr

abbrev BlockData := Table BlockDataRow.number

namespace BlockData

def getNL2BlockDataHint (t : BlockData) (blockNumber n : ℕ) : List BlockDataHint :=
  ((orderBy BlockDataRow.number (t.select (fun r => blockNumber ≤ r.number))).take n).map (·.hint)

def getMaxBlockDataHintBlockNumber (t : BlockData) : ℕ :=
  ((highest BlockDataRow.number t.rows).map (·.number)).getD 0

def hintAt (t : BlockData) (blockNumber : ℕ) : Option BlockDataHint :=
  (t.rows.find? (fun r => r.number = blockNumber)).map (·.hint)

def Gapless (t : BlockData) : Prop := ∀ r ∈ t, ∀ k ≤ r.number, ∃ q ∈ t, q.number = k

variable {t : BlockData}

theorem hintAt_of_mem {r : BlockDataRow} (hr : r ∈ t) : t.hintAt r.number = some r.hint := by
  rw [hintAt]
  cases hfind : t.rows.find? (fun q => q.number = r.number) with
  | none =>
    have hnone := List.find?_eq_none.1 hfind r hr
    simp at hnone
  | some q =>
    have hq : q.number = r.number := by simpa using List.find?_some hfind
    rw [t.eq_of_key (List.mem_of_find?_eq_some hfind) hr hq]
    rfl

theorem mem_of_hintAt {k : ℕ} {hint : BlockDataHint} (h : t.hintAt k = some hint) :
    ∃ r ∈ t, r.number = k ∧ r.hint = hint := by
  obtain ⟨r, hfind, hhint⟩ := Option.map_eq_some_iff.1 h
  have hk : r.number = k := by simpa using List.find?_some hfind
  exact ⟨r, List.mem_of_find?_eq_some hfind, hk, hhint⟩

theorem hintAt_eq_none_iff {k : ℕ} : t.hintAt k = none ↔ ∀ r ∈ t, r.number ≠ k := by
  constructor
  · intro h r hr hk
    rw [← hk, hintAt_of_mem hr] at h
    cases h
  · intro h
    cases hhint : t.hintAt k with
    | none => rfl
    | some hint =>
      obtain ⟨r, hr, hk, -⟩ := mem_of_hintAt hhint
      exact absurd hk (h r hr)

theorem number_le_max {r : BlockDataRow} (hr : r ∈ t) :
    r.number ≤ t.getMaxBlockDataHintBlockNumber := by
  rw [getMaxBlockDataHintBlockNumber]
  cases hmax : highest BlockDataRow.number t.rows with
  | none =>
    have hnil := (highest_eq_none _ _).1 hmax
    rw [← t.mem_rows, hnil] at hr
    cases hr
  | some last => exact le_highest hmax hr

def rowsFrom (t : BlockData) (start : ℕ) : List BlockDataRow :=
  orderBy BlockDataRow.number (t.select (fun r => start ≤ r.number))

theorem mem_rowsFrom {r : BlockDataRow} {start : ℕ} :
    r ∈ t.rowsFrom start ↔ r ∈ t ∧ start ≤ r.number := by
  rw [rowsFrom, mem_orderBy, t.mem_select, decide_eq_true_eq]

theorem rowsFrom_ascending (start : ℕ) :
    (t.rowsFrom start).Pairwise (fun a b => a.number < b.number) :=
  pairwise_orderBy (t.unique.sublist (List.filter_sublist.map _))

theorem getElem?_hints {start n i : ℕ} (hi : i < n) :
    (t.getNL2BlockDataHint start n)[i]? = ((t.rowsFrom start)[i]?).map (·.hint) := by
  rw [getNL2BlockDataHint, List.getElem?_map, List.getElem?_take_of_lt hi]
  rfl

theorem length_hints_le (start n : ℕ) : (t.getNL2BlockDataHint start n).length ≤ n := by
  rw [getNL2BlockDataHint, List.length_map]
  exact List.length_take_le _ _

theorem Gapless.hints_get {start : ℕ} (h : t.Gapless) {n i : ℕ} (hi : i < n) :
    (t.getNL2BlockDataHint start n)[i]? = t.hintAt (start + i) := by
  have hstart : ∀ r ∈ t.rowsFrom start, start ≤ r.number := fun r hr => (mem_rowsFrom.1 hr).2
  have hall : ∀ r ∈ t, start + i ≤ r.number →
      ∃ q, (t.rowsFrom start)[i]? = some q ∧ q.number = start + i := by
    intro r hr hle
    refine get_of_ascending (rowsFrom_ascending start) hstart ?_
    intro k hk hki
    obtain ⟨q, hq, rfl⟩ := h r hr k (hki.trans hle)
    exact ⟨q, mem_rowsFrom.2 ⟨hq, hk⟩, rfl⟩
  rw [getElem?_hints hi]
  cases hget : (t.rowsFrom start)[i]? with
  | some q =>
    have hq := (mem_rowsFrom.1 (List.mem_of_getElem? hget)).1
    have hle := le_key_of_ascending (rowsFrom_ascending start) hstart hget
    obtain ⟨q', hq', hnumber⟩ := hall q hq hle
    rw [hget] at hq'
    cases hq'
    rw [← hnumber, hintAt_of_mem hq]
    rfl
  | none =>
    refine (hintAt_eq_none_iff.2 ?_).symm
    intro r hr hnumber
    obtain ⟨q, hq, -⟩ := hall r hr hnumber.ge
    rw [hget] at hq
    cases hq

end BlockData

structure PreFetchCache where
  hintCache : ℕ → Option BlockDataHint
  maxBlockDataHintBlockNumber : ℕ
  preFetchCount : ℕ
  rangesInCache : List ℕ

/-- Where a call of `get` stands. It holds the lock while it fetches and inserts; `inserts` has
the place of the next hint and the hints left. -/
inductive GetPhase where
  | called
  | waits
  | fetches
  | inserts (idx : ℕ) (hints : List BlockDataHint)
  | looks
  | returned (answer : Except DatabaseError (Option BlockDataHint))

def GetPhase.holdsLock : GetPhase → Bool
  | .fetches => true
  | .inserts _ _ => true
  | _ => false

structure GetCall where
  blockNumber : ℕ
  phase : GetPhase

namespace PreFetchCache

def new (t : BlockData) (preFetchCount : ℕ) : PreFetchCache where
  hintCache := fun _ => none
  maxBlockDataHintBlockNumber := t.getMaxBlockDataHintBlockNumber
  preFetchCount := preFetchCount
  rangesInCache := []

def preFetchRangeStart (c : PreFetchCache) (block : ℕ) : ℕ :=
  block / c.preFetchCount * c.preFetchCount

def insert (c : PreFetchCache) (blockNumber : ℕ) (hint : BlockDataHint) : PreFetchCache :=
  { c with hintCache := Function.update c.hintCache blockNumber (some hint) }

def remove (c : PreFetchCache) (blockNumber : ℕ) : PreFetchCache :=
  { c with hintCache := Function.update c.hintCache blockNumber none }

theorem insert_self (c : PreFetchCache) (k : ℕ) (hint : BlockDataHint) :
    (c.insert k hint).hintCache k = some hint := by
  simp only [insert, Function.update_self]

theorem insert_of_ne (c : PreFetchCache) {k k' : ℕ} (h : k' ≠ k) (hint : BlockDataHint) :
    (c.insert k hint).hintCache k' = c.hintCache k' := by
  simp only [insert, Function.update_of_ne h]

theorem remove_self (c : PreFetchCache) (k : ℕ) : (c.remove k).hintCache k = none := by
  simp only [remove, Function.update_self]

theorem remove_of_ne (c : PreFetchCache) {k k' : ℕ} (h : k' ≠ k) :
    (c.remove k).hintCache k' = c.hintCache k' := by
  simp only [remove, Function.update_of_ne h]

def pushRange (c : PreFetchCache) (rangeStart : ℕ) : PreFetchCache :=
  { c with
    rangesInCache :=
      (if c.rangesInCache.length = 2 then c.rangesInCache.tail else c.rangesInCache) ++
        [rangeStart] }

def advance (t : BlockData) (c : PreFetchCache) (locked : Bool) (fault : Option DatabaseError)
    (call : GetCall) : PreFetchCache × GetPhase :=
  let rangeStart := c.preFetchRangeStart call.blockNumber
  match call.phase with
  | .called =>
    if c.maxBlockDataHintBlockNumber < call.blockNumber then (c, .returned (.ok none))
    else
      match c.hintCache call.blockNumber with
      | some hint => (c, .returned (.ok (some hint)))
      | none => (c, .waits)
  | .waits =>
    if locked then (c, .waits)
    else if rangeStart ∈ c.rangesInCache then (c, .looks)
    else (c, .fetches)
  | .fetches =>
    match fault with
    | some e => (c, .returned (.error e))
    | none => (c, .inserts 0 (t.getNL2BlockDataHint rangeStart c.preFetchCount))
  | .inserts idx (hint :: hints) => (c.insert (rangeStart + idx) hint, .inserts (idx + 1) hints)
  | .inserts _ [] => (c.pushRange rangeStart, .looks)
  | .looks => (c, .returned (.ok (c.hintCache call.blockNumber)))
  | .returned answer => (c, .returned answer)

end PreFetchCache

structure CacheRun where
  cache : PreFetchCache
  calls : List GetCall

inductive CacheAction where
  | get (blockNumber : ℕ)
  | advance (place : ℕ) (fault : Option DatabaseError)
  | remove (blockNumber : ℕ)

namespace CacheRun

def new (t : BlockData) (preFetchCount : ℕ) : CacheRun := ⟨.new t preFetchCount, []⟩

def locked (s : CacheRun) : Bool := s.calls.any (fun call => call.phase.holdsLock)

def step (t : BlockData) (s : CacheRun) : CacheAction → CacheRun
  | .get blockNumber => { s with calls := s.calls ++ [⟨blockNumber, .called⟩] }
  | .remove blockNumber => { s with cache := s.cache.remove blockNumber }
  | .advance place fault =>
    match s.calls[place]? with
    | none => s
    | some call =>
      ⟨(s.cache.advance t s.locked fault call).1,
        s.calls.set place { call with phase := (s.cache.advance t s.locked fault call).2 }⟩

def Transparent (t : BlockData) (s : CacheRun) : Prop :=
  ∀ call ∈ s.calls, ∀ answer, call.phase = .returned (.ok answer) →
    answer = t.hintAt call.blockNumber

def Covers (t : BlockData) (c : PreFetchCache) (start length : ℕ) : Prop :=
  ∀ k, start ≤ k → k < start + length → c.hintCache k = none → t.hintAt k = none

def CallReady (t : BlockData) (c : PreFetchCache) (call : GetCall) : Prop :=
  match call.phase with
  | .inserts idx hints =>
    hints = (t.getNL2BlockDataHint (c.preFetchRangeStart call.blockNumber) c.preFetchCount).drop
      idx ∧ Covers t c (c.preFetchRangeStart call.blockNumber) idx
  | .looks => Covers t c call.blockNumber 1
  | .returned (.ok answer) => answer = t.hintAt call.blockNumber
  | _ => True

/-- The entries are the stored hints, and those of the remembered ranges are all there. -/
structure Faithful (t : BlockData) (c : PreFetchCache) : Prop where
  pos : 0 < c.preFetchCount
  max : c.maxBlockDataHintBlockNumber = t.getMaxBlockDataHintBlockNumber
  right : ∀ k hint, c.hintCache k = some hint → t.hintAt k = some hint
  recorded : ∀ start ∈ c.rangesInCache, Covers t c start c.preFetchCount

structure Ready (t : BlockData) (s : CacheRun) : Prop where
  faithful : Faithful t s.cache
  calls : ∀ call ∈ s.calls, CallReady t s.cache call

/-- An entry of a stored hint is given up only when no remembered range has it, no call has just
inserted it and none is about to look it up. -/
def Spared (s : CacheRun) (k : ℕ) : Prop :=
  (∀ start ∈ s.cache.rangesInCache, ¬(start ≤ k ∧ k < start + s.cache.preFetchCount)) ∧
  ∀ call ∈ s.calls, match call.phase with
    | .inserts idx _ => ¬(s.cache.preFetchRangeStart call.blockNumber ≤ k ∧
        k < s.cache.preFetchRangeStart call.blockNumber + idx)
    | .looks => call.blockNumber ≠ k
    | _ => True

def Kept (t : BlockData) (s : CacheRun) : CacheAction → Prop
  | .remove k => t.hintAt k ≠ none → Spared s k
  | _ => True

section
variable {t : BlockData} {c c' : PreFetchCache} {s : CacheRun} {start length k : ℕ}

theorem Covers.get (h : Covers t c start length) (hfaithful : Faithful t c) (hk : start ≤ k)
    (hlt : k < start + length) : c.hintCache k = t.hintAt k := by
  cases hcached : c.hintCache k with
  | none => exact (h k hk hlt hcached).symm
  | some hint => exact (hfaithful.right k hint hcached).symm

theorem Covers.mono (h : Covers t c start length)
    (hkeeps : ∀ k, c'.hintCache k = none → c.hintCache k = none) : Covers t c' start length :=
  fun k hk hlt hnone => h k hk hlt (hkeeps k hnone)

theorem Covers.remove (h : Covers t c start length)
    (hk : t.hintAt k ≠ none → ¬(start ≤ k ∧ k < start + length)) :
    Covers t (c.remove k) start length := by
  intro k' hstart hlt hnone
  by_cases heq : k' = k
  · by_contra hstored
    rw [heq] at hstored hstart hlt
    exact hk hstored ⟨hstart, hlt⟩
  · rw [c.remove_of_ne heq] at hnone
    exact h k' hstart hlt hnone

theorem mem_range (hpos : 0 < c.preFetchCount) (block : ℕ) :
    c.preFetchRangeStart block ≤ block ∧
      block < c.preFetchRangeStart block + c.preFetchCount := by
  unfold PreFetchCache.preFetchRangeStart
  have hdiv := Nat.div_add_mod' block c.preFetchCount
  have hmod := Nat.mod_lt block hpos
  omega

variable {call : GetCall}

theorem CallReady.mono (h : CallReady t c call) (hcount : c'.preFetchCount = c.preFetchCount)
    (hkeeps : ∀ k, c'.hintCache k = none → c.hintCache k = none) : CallReady t c' call := by
  have hstart : c'.preFetchRangeStart call.blockNumber = c.preFetchRangeStart call.blockNumber := by
    rw [PreFetchCache.preFetchRangeStart, hcount, PreFetchCache.preFetchRangeStart]
  unfold CallReady at h ⊢
  cases hphase : call.phase with
  | inserts idx hints =>
    simp only [hphase] at h
    rw [hstart, hcount]
    exact ⟨h.1, h.2.mono hkeeps⟩
  | looks =>
    simp only [hphase] at h
    exact h.mono hkeeps
  | returned answer =>
    simp only [hphase] at h
    cases answer with
    | error e => trivial
    | ok answer => exact h
  | _ => trivial

theorem insert_keeps (c : PreFetchCache) (k : ℕ) (hint : BlockDataHint) :
    ∀ k', (c.insert k hint).hintCache k' = none → c.hintCache k' = none := by
  intro k' hnone
  by_cases heq : k' = k
  · rw [heq, c.insert_self] at hnone
    cases hnone
  · rw [c.insert_of_ne heq] at hnone
    exact hnone

theorem Faithful.insert (h : Faithful t c) {hint : BlockDataHint}
    (hstored : t.hintAt k = some hint) : Faithful t (c.insert k hint) := by
  refine ⟨h.pos, h.max, ?_, ?_⟩
  · intro k' hint' hcached
    by_cases heq : k' = k
    · rw [heq, c.insert_self] at hcached
      cases hcached
      rw [heq]
      exact hstored
    · rw [c.insert_of_ne heq] at hcached
      exact h.right k' hint' hcached
  · intro start hstart
    exact (h.recorded start hstart).mono (insert_keeps c k hint)

theorem Faithful.pushRange (h : Faithful t c) (hcovers : Covers t c start c.preFetchCount) :
    Faithful t (c.pushRange start) := by
  refine ⟨h.pos, h.max, h.right, ?_⟩
  intro start' hstart'
  rcases List.mem_append.1 hstart' with hold | hnew
  · refine h.recorded start' ?_
    split at hold
    · exact List.mem_of_mem_tail hold
    · exact hold
  · rw [List.mem_singleton.1 hnew]
    exact hcovers

theorem covers_of_drop_eq_nil (hgapless : t.Gapless) {n idx : ℕ}
    (hnil : (t.getNL2BlockDataHint start n).drop idx = []) (h : Covers t c start idx) :
    Covers t c start n := by
  intro k hk hlt hnone
  by_cases hidx : k < start + idx
  · exact h k hk hidx hnone
  · have hget : (t.getNL2BlockDataHint start n)[k - start]? = t.hintAt (start + (k - start)) :=
      hgapless.hints_get (by omega)
    have hlength := List.drop_eq_nil_iff.1 hnil
    rw [List.getElem?_eq_none (by omega), Nat.add_sub_of_le hk] at hget
    exact hget.symm

structure StepReady (t : BlockData) (c : PreFetchCache) (call : GetCall)
    (next : PreFetchCache × GetPhase) : Prop where
  faithful : Faithful t next.1
  count : next.1.preFetchCount = c.preFetchCount
  keeps : ∀ k, next.1.hintCache k = none → c.hintCache k = none
  call : CallReady t next.1 { call with phase := next.2 }

theorem stepReady_same {phase : GetPhase} (hfaithful : Faithful t c)
    (hphase : CallReady t c { call with phase := phase }) : StepReady t c call (c, phase) :=
  ⟨hfaithful, rfl, fun _ hnone => hnone, hphase⟩

section
variable (hfaithful : Faithful t c) {call : GetCall} (locked : Bool)
  (fault : Option DatabaseError)
include hfaithful

theorem stepReady_called (hphase : call.phase = .called) :
    StepReady t c call (c.advance t locked fault call) := by
  simp only [PreFetchCache.advance, hphase]
  split
  · rename_i hmax
    refine stepReady_same hfaithful (BlockData.hintAt_eq_none_iff.2 ?_).symm
    intro r hr hnumber
    have hle := BlockData.number_le_max hr
    rw [hfaithful.max] at hmax
    change r.number = call.blockNumber at hnumber
    omega
  · split
    · rename_i hint hcached
      exact stepReady_same hfaithful (hfaithful.right _ _ hcached).symm
    · exact stepReady_same hfaithful trivial

theorem stepReady_waits (hphase : call.phase = .waits) :
    StepReady t c call (c.advance t locked fault call) := by
  simp only [PreFetchCache.advance, hphase]
  split
  · exact stepReady_same hfaithful trivial
  · split
    · rename_i hrecorded
      have hrange := mem_range hfaithful.pos call.blockNumber
      refine stepReady_same hfaithful ?_
      intro k hk hlt
      exact hfaithful.recorded _ hrecorded k (hrange.1.trans hk) (by
        change k < call.blockNumber + 1 at hlt
        omega)
    · exact stepReady_same hfaithful trivial

theorem stepReady_fetches (hphase : call.phase = .fetches) :
    StepReady t c call (c.advance t locked fault call) := by
  simp only [PreFetchCache.advance, hphase]
  cases fault with
  | some e => exact stepReady_same hfaithful trivial
  | none =>
    refine stepReady_same hfaithful ⟨rfl, ?_⟩
    intro k hk hlt
    exact absurd hk (Nat.not_le.2 hlt)

theorem stepReady_inserts (hgapless : t.Gapless) {idx : ℕ} {hints : List BlockDataHint}
    (hphase : call.phase = .inserts idx hints) (hcall : CallReady t c call) :
    StepReady t c call (c.advance t locked fault call) := by
  simp only [CallReady, hphase] at hcall
  obtain ⟨hhints, hcovers⟩ := hcall
  cases hints with
  | nil =>
    have hrange := mem_range hfaithful.pos call.blockNumber
    have hwhole := covers_of_drop_eq_nil hgapless hhints.symm hcovers
    simp only [PreFetchCache.advance, hphase]
    refine ⟨hfaithful.pushRange hwhole, rfl, fun _ hnone => hnone, ?_⟩
    intro k hk hlt
    exact hwhole k (hrange.1.trans hk) (by
      change k < call.blockNumber + 1 at hlt
      omega)
  | cons hint hints =>
    have hget : (t.getNL2BlockDataHint (c.preFetchRangeStart call.blockNumber)
        c.preFetchCount)[idx]? = some hint := by
      have hhead := congrArg List.head? hhints
      rw [List.head?_drop] at hhead
      exact hhead.symm
    have hidx : idx < c.preFetchCount :=
      (List.getElem?_eq_some_iff.1 hget).1.trans_le (BlockData.length_hints_le _ _)
    rw [hgapless.hints_get hidx] at hget
    simp only [PreFetchCache.advance, hphase]
    refine ⟨hfaithful.insert hget, rfl, insert_keeps c _ hint, ?_, ?_⟩
    · have htail := congrArg List.tail hhints
      rw [List.tail_drop] at htail
      exact htail
    · intro k hk hlt hnone
      change c.preFetchRangeStart call.blockNumber ≤ k at hk
      change k < c.preFetchRangeStart call.blockNumber + (idx + 1) at hlt
      by_cases heq : k = c.preFetchRangeStart call.blockNumber + idx
      · rw [heq, c.insert_self] at hnone
        cases hnone
      · exact hcovers k hk (by omega) (insert_keeps c _ hint k hnone)

theorem stepReady_advance (hgapless : t.Gapless) (hcall : CallReady t c call) :
    StepReady t c call (c.advance t locked fault call) := by
  cases hphase : call.phase with
  | called => exact stepReady_called hfaithful locked fault hphase
  | waits => exact stepReady_waits hfaithful locked fault hphase
  | fetches => exact stepReady_fetches hfaithful locked fault hphase
  | inserts idx hints => exact stepReady_inserts hfaithful locked fault hgapless hphase hcall
  | looks =>
    simp only [CallReady, hphase] at hcall
    simp only [PreFetchCache.advance, hphase]
    exact stepReady_same hfaithful (hcall.get hfaithful (Nat.le_refl _) (Nat.lt_succ_self _))
  | returned answer =>
    simp only [PreFetchCache.advance, hphase]
    refine stepReady_same hfaithful ?_
    simp only [CallReady, hphase] at hcall ⊢
    exact hcall

end

theorem Faithful.remove (h : Faithful t c) (hk : t.hintAt k ≠ none → ∀ start ∈ c.rangesInCache,
      ¬(start ≤ k ∧ k < start + c.preFetchCount)) : Faithful t (c.remove k) := by
  refine ⟨h.pos, h.max, ?_, ?_⟩
  · intro k' hint hcached
    by_cases heq : k' = k
    · rw [heq, c.remove_self] at hcached
      cases hcached
    · rw [c.remove_of_ne heq] at hcached
      exact h.right k' hint hcached
  · intro start hstart
    exact (h.recorded start hstart).remove (fun hstored => hk hstored start hstart)

theorem ready_remove (h : Ready t s) (hkept : t.hintAt k ≠ none → Spared s k) :
    Ready t (s.step t (.remove k)) := by
  refine ⟨h.faithful.remove (fun hstored => (hkept hstored).1), ?_⟩
  intro call hcall
  have hready := h.calls call hcall
  have hspared := fun hstored => (hkept hstored).2 call hcall
  unfold CallReady at hready ⊢
  cases hphase : call.phase with
  | inserts idx hints =>
    simp only [hphase] at hready hspared
    exact ⟨hready.1, hready.2.remove hspared⟩
  | looks =>
    simp only [hphase] at hready hspared
    refine hready.remove ?_
    rintro hstored ⟨hle, hlt⟩
    exact hspared hstored (by omega)
  | returned answer =>
    simp only [hphase] at hready
    cases answer with
    | error e => trivial
    | ok answer => exact hready
  | _ => trivial

/-- No action lets the cache or a waiting call disagree with a table without gaps. -/
theorem ready_step (hgapless : t.Gapless) (h : Ready t s) (action : CacheAction)
    (hkept : Kept t s action) : Ready t (s.step t action) := by
  cases action with
  | get blockNumber =>
    refine ⟨h.faithful, ?_⟩
    intro call hcall
    rcases List.mem_append.1 hcall with hold | hnew
    · exact h.calls call hold
    · rw [List.mem_singleton.1 hnew]
      trivial
  | remove k => exact ready_remove h hkept
  | advance place fault =>
    simp only [step]
    cases hget : s.calls[place]? with
    | none => exact h
    | some call =>
      have hstep := stepReady_advance h.faithful s.locked fault hgapless
        (h.calls call (List.mem_of_getElem? hget))
      refine ⟨hstep.faithful, ?_⟩
      intro other hother
      rcases List.mem_or_eq_of_mem_set hother with hold | rfl
      · exact (h.calls other hold).mono hstep.count hstep.keeps
      · exact hstep.call

theorem ready_new (t : BlockData) {preFetchCount : ℕ} (hpos : 0 < preFetchCount) :
    Ready t (new t preFetchCount) := by
  refine ⟨⟨hpos, rfl, ?_, ?_⟩, ?_⟩
  · intro k hint hcached
    cases hcached
  · intro start hstart
    cases hstart
  · intro call hcall
    cases hcall

theorem Ready.transparent (h : Ready t s) : Transparent t s := by
  intro call hcall answer hphase
  have hready := h.calls call hcall
  simp only [CallReady, hphase] at hready
  exact hready

def remaining (preFetchCount : ℕ) : GetPhase → ℕ
  | .called => preFetchCount + 5
  | .waits => preFetchCount + 4
  | .fetches => preFetchCount + 3
  | .inserts _ hints => hints.length + 2
  | .looks => 1
  | .returned _ => 0

def work (s : CacheRun) : ℕ :=
  (s.calls.map (fun call => remaining s.cache.preFetchCount call.phase)).sum

theorem count_advance (t : BlockData) (c : PreFetchCache) (locked : Bool)
    (fault : Option DatabaseError) (call : GetCall) :
    (c.advance t locked fault call).1.preFetchCount = c.preFetchCount ∧
      (c.advance t locked fault call).1.maxBlockDataHintBlockNumber =
        c.maxBlockDataHintBlockNumber := by
  unfold PreFetchCache.advance
  simp only
  split
  · split
    · exact ⟨rfl, rfl⟩
    · split <;> exact ⟨rfl, rfl⟩
  · split
    · exact ⟨rfl, rfl⟩
    · split <;> exact ⟨rfl, rfl⟩
  · split <;> exact ⟨rfl, rfl⟩
  all_goals exact ⟨rfl, rfl⟩

theorem remaining_advance (t : BlockData) (c : PreFetchCache) {locked : Bool}
    (fault : Option DatabaseError) (hopen : ∀ answer, call.phase ≠ .returned answer)
    (hfree : locked = true → call.phase ≠ .waits) :
    remaining c.preFetchCount (c.advance t locked fault call).2 <
      remaining c.preFetchCount call.phase := by
  cases hphase : call.phase with
  | called =>
    simp only [PreFetchCache.advance, hphase]
    split
    · exact Nat.succ_pos _
    · split
      · exact Nat.succ_pos _
      · exact Nat.lt_succ_self _
  | waits =>
    simp only [PreFetchCache.advance, hphase]
    split
    · rename_i hlocked
      exact absurd hphase (hfree hlocked)
    · split
      · simp only [remaining]
        omega
      · exact Nat.lt_succ_self _
  | fetches =>
    simp only [PreFetchCache.advance, hphase]
    cases fault with
    | some e => exact Nat.succ_pos _
    | none =>
      have hlength := t.length_hints_le (c.preFetchRangeStart call.blockNumber) c.preFetchCount
      simp only [remaining]
      omega
  | inserts idx hints =>
    cases hints with
    | nil =>
      simp only [PreFetchCache.advance, hphase, remaining, List.length_nil]
      omega
    | cons hint hints =>
      simp only [PreFetchCache.advance, hphase, remaining, List.length_cons]
      omega
  | looks =>
    simp only [PreFetchCache.advance, hphase]
    exact Nat.zero_lt_one
  | returned answer => exact absurd hphase (hopen answer)

theorem sum_map_set_lt {α : Type} (f : α → ℕ) {xs : List α} {i : ℕ} {x y : α}
    (hx : xs[i]? = some x) (hlt : f y < f x) : ((xs.set i y).map f).sum < (xs.map f).sum := by
  induction xs generalizing i with
  | nil => cases hx
  | cons first xs ih =>
    cases i with
    | zero =>
      cases hx
      simp only [List.set_cons_zero, List.map_cons, List.sum_cons]
      omega
    | succ i =>
      have hrest := ih hx
      simp only [List.set_cons_succ, List.map_cons, List.sum_cons]
      omega

theorem exists_advance (s : CacheRun) (h : ∃ call ∈ s.calls, ∀ answer,
    call.phase ≠ .returned answer) :
    ∃ place, ∀ fault, (s.step t (.advance place fault)).work < s.work := by
  obtain ⟨call, hcall, hopen, hfree⟩ : ∃ call ∈ s.calls,
      (∀ answer, call.phase ≠ .returned answer) ∧ (s.locked = true → call.phase ≠ .waits) := by
    by_cases hlocked : s.locked = true
    · obtain ⟨holder, hholder, hholds⟩ := List.any_eq_true.1 hlocked
      refine ⟨holder, hholder, ?_, ?_⟩
      · intro answer hphase
        rw [hphase] at hholds
        cases hholds
      · intro _ hphase
        rw [hphase] at hholds
        cases hholds
    · obtain ⟨call, hcall, hopen⟩ := h
      exact ⟨call, hcall, hopen, fun htrue => absurd htrue hlocked⟩
  obtain ⟨place, hplace⟩ := List.getElem?_of_mem hcall
  refine ⟨place, ?_⟩
  intro fault
  simp only [step, hplace, work, (count_advance t s.cache s.locked fault call).1]
  refine sum_map_set_lt (fun call => remaining s.cache.preFetchCount call.phase) hplace ?_
  exact remaining_advance t s.cache fault hopen hfree

def turns (places : List ℕ) : List CacheAction := places.map (fun place => .advance place none)

theorem calls_return (t : BlockData) (s : CacheRun) : ∃ places, ∀ call ∈
    (run (step t) s (turns places)).calls, ∃ answer, call.phase = .returned answer := by
  induction hwork : s.work using Nat.strong_induction_on generalizing s with
  | h work ih =>
    by_cases hopen : ∃ call ∈ s.calls, ∀ answer, call.phase ≠ .returned answer
    · obtain ⟨place, hless⟩ := exists_advance (t := t) s hopen
      obtain ⟨places, hplaces⟩ := ih _ (hwork ▸ hless none) (s.step t (.advance place none)) rfl
      exact ⟨place :: places, hplaces⟩
    · refine ⟨[], ?_⟩
      intro call hcall
      by_contra hnone
      exact hopen ⟨call, hcall, fun answer hphase => hnone ⟨answer, hphase⟩⟩

theorem meets_turns (s : CacheRun) (places : List ℕ) : Meets (step t) (Kept t) s (turns places) := by
  induction places generalizing s with
  | nil => trivial
  | cons place places ih => exact ⟨trivial, ih _⟩

structure FirstGap (t : BlockData) (g : ℕ) : Prop where
  below : ∀ k < g, ∃ r ∈ t, r.number = k
  missing : ∀ r ∈ t, r.number ≠ g
  above : ∃ r ∈ t, g < r.number

theorem exists_firstGap (h : ¬t.Gapless) : ∃ g, FirstGap t g := by
  obtain ⟨r, hr, k, hk, hmissing⟩ : ∃ r ∈ t, ∃ k ≤ r.number, ∀ q ∈ t, q.number ≠ k := by
    by_contra hnone
    refine h fun r hr k hk => ?_
    by_contra hmissing
    exact hnone ⟨r, hr, k, hk, fun q hq hqk => hmissing ⟨q, hq, hqk⟩⟩
  have hexists : ∃ g, ∀ q ∈ t, q.number ≠ g := ⟨k, hmissing⟩
  classical
  refine ⟨Nat.find hexists, ?_, Nat.find_spec hexists, r, hr, ?_⟩
  · intro j hj
    have hrow := Nat.find_min hexists hj
    by_contra hnone
    exact hrow fun q hq hqj => hnone ⟨q, hq, hqj⟩
  · have hle := (Nat.find_min' hexists hmissing).trans hk
    exact lt_of_le_of_ne hle (Nat.find_spec hexists r hr).symm

theorem FirstGap.hint {g : ℕ} (h : FirstGap t g) {n : ℕ} (hstart : start ≤ g)
    (hlt : g < start + n) : g < start + (t.getNL2BlockDataHint start n).length := by
  have hrows : ∃ r, (t.rowsFrom start)[g - start]? = some r ∧ start + (g - start) < r.number := by
    refine get_of_gap (t.rowsFrom_ascending start)
      (fun r hr => (BlockData.mem_rowsFrom.1 hr).2) ?_ ?_ ?_
    · intro k hk hkg
      obtain ⟨r, hr, hnumber⟩ := h.below k (by omega)
      exact ⟨r, BlockData.mem_rowsFrom.2 ⟨hr, hnumber ▸ hk⟩, hnumber⟩
    · intro r hr hnumber
      exact h.missing r (BlockData.mem_rowsFrom.1 hr).1 (by omega)
    · obtain ⟨r, hr, hnumber⟩ := h.above
      exact ⟨r, BlockData.mem_rowsFrom.2 ⟨hr, by omega⟩, by omega⟩
  obtain ⟨r, hr, -⟩ := hrows
  have hget : (t.getNL2BlockDataHint start n)[g - start]? =
      ((t.rowsFrom start)[g - start]?).map (·.hint) := t.getElem?_hints (by omega)
  rw [hr, Option.map_some] at hget
  have hlength := (List.getElem?_eq_some_iff.1 hget).1
  omega

def Misled (t : BlockData) (g : ℕ) (c : PreFetchCache) : GetPhase → Prop
  | .inserts idx hints =>
    hints = (t.getNL2BlockDataHint (c.preFetchRangeStart g) c.preFetchCount).drop idx ∧
      (g < c.preFetchRangeStart g + idx → c.hintCache g ≠ none)
  | .looks => c.hintCache g ≠ none
  | .returned (.ok answer) => answer ≠ none
  | .returned (.error _) => False
  | _ => c.hintCache g = none ∧ c.rangesInCache = []

theorem misled_advance {phase : GetPhase} {g : ℕ} (hgap : FirstGap t g) (hpos : 0 < c.preFetchCount)
    (hmax : c.maxBlockDataHintBlockNumber = t.getMaxBlockDataHintBlockNumber) (locked : Bool)
    (h : Misled t g c phase) :
    Misled t g (c.advance t locked none ⟨g, phase⟩).1 (c.advance t locked none ⟨g, phase⟩).2 := by
  have hrange := mem_range hpos g
  cases phase with
  | called =>
    obtain ⟨r, hr, hnumber⟩ := hgap.above
    have hle := BlockData.number_le_max hr
    simp only [PreFetchCache.advance, h.1]
    rw [if_neg (by omega)]
    exact h
  | waits =>
    simp only [PreFetchCache.advance, h.2, List.not_mem_nil, if_false]
    split <;> exact h
  | fetches => exact ⟨rfl, fun hlt => absurd hrange.1 (Nat.not_le.2 hlt)⟩
  | inserts idx hints =>
    obtain ⟨hhints, hcached⟩ := h
    cases hints with
    | nil =>
      refine hcached ?_
      have hlength := List.drop_eq_nil_iff.1 hhints.symm
      have hlong := hgap.hint hrange.1 hrange.2
      omega
    | cons hint hints =>
      refine ⟨?_, ?_⟩
      · have htail := congrArg List.tail hhints
        rw [List.tail_drop] at htail
        exact htail
      · intro hlt hnone
        change g < c.preFetchRangeStart g + (idx + 1) at hlt
        change (c.insert (c.preFetchRangeStart g + idx) hint).hintCache g = none at hnone
        by_cases heq : g = c.preFetchRangeStart g + idx
        · rw [← heq, c.insert_self] at hnone
          cases hnone
        · exact hcached (by omega) (insert_keeps c _ hint g hnone)
  | looks => exact h
  | returned answer => exact h

theorem misled_turns {phase : GetPhase} {g : ℕ} (hgap : FirstGap t g) (hpos : 0 < c.preFetchCount)
    (hmax : c.maxBlockDataHintBlockNumber = t.getMaxBlockDataHintBlockNumber)
    (h : Misled t g c phase) (places : List ℕ) :
    ∃ c' phase', run (step t) ⟨c, [⟨g, phase⟩]⟩ (turns places) = ⟨c', [⟨g, phase'⟩]⟩ ∧
      Misled t g c' phase' := by
  induction places generalizing c phase with
  | nil => exact ⟨c, phase, rfl, h⟩
  | cons place places ih =>
    cases place with
    | succ place => exact ih hpos hmax h
    | zero =>
      have hsame := count_advance t c (locked ⟨c, [⟨g, phase⟩]⟩) none ⟨g, phase⟩
      exact ih (hsame.1 ▸ hpos) (hsame.2.trans hmax) (misled_advance hgap hpos hmax _ h)

theorem not_transparent_of_gap (h : ¬t.Gapless) {preFetchCount : ℕ} (hpos : 0 < preFetchCount) :
    ∃ actions, Meets (step t) (Kept t) (new t preFetchCount) actions ∧
      ¬Transparent t (run (step t) (new t preFetchCount) actions) := by
  obtain ⟨g, hgap⟩ := exists_firstGap h
  have hmisled : Misled t g (.new t preFetchCount) .called := ⟨rfl, rfl⟩
  obtain ⟨places, hreturned⟩ := calls_return t ⟨.new t preFetchCount, [⟨g, .called⟩]⟩
  obtain ⟨c, phase, hrun, hmisled⟩ := misled_turns hgap hpos rfl hmisled places
  have hstart : run (step t) (new t preFetchCount) (.get g :: turns places) =
      run (step t) ⟨.new t preFetchCount, [⟨g, .called⟩]⟩ (turns places) := rfl
  refine ⟨.get g :: turns places, ⟨trivial, meets_turns _ _⟩, ?_⟩
  intro htransparent
  rw [hstart, hrun] at htransparent
  rw [hrun] at hreturned
  obtain ⟨answer, hphase⟩ := hreturned _ List.mem_cons_self
  change phase = .returned answer at hphase
  rw [hphase] at hmisled
  cases answer with
  | error e => exact hmisled
  | ok answer =>
    have hanswer := htransparent _ List.mem_cons_self answer hphase
    rw [BlockData.hintAt_eq_none_iff.2 hgap.missing] at hanswer
    exact hmisled hanswer

theorem constants_run (t : BlockData) (s : CacheRun) (actions : List CacheAction) :
    (run (step t) s actions).cache.maxBlockDataHintBlockNumber =
      s.cache.maxBlockDataHintBlockNumber := by
  induction actions generalizing s with
  | nil => rfl
  | cons action actions ih =>
    change (run (step t) (s.step t action) actions).cache.maxBlockDataHintBlockNumber = _
    rw [ih]
    cases action with
    | get blockNumber => rfl
    | remove k => rfl
    | advance place fault =>
      simp only [step]
      cases s.calls[place]? with
      | none => rfl
      | some call => exact (count_advance t s.cache s.locked fault call).2

theorem step_last (t : BlockData) (c : PreFetchCache) (calls : List GetCall) (call : GetCall) :
    step t ⟨c, calls ++ [call]⟩ (.advance calls.length none) =
      ⟨(c.advance t (locked ⟨c, calls ++ [call]⟩) none call).1, calls ++
        [{ call with phase := (c.advance t (locked ⟨c, calls ++ [call]⟩) none call).2 }]⟩ := by
  have hget : (calls ++ [call])[calls.length]? = some call := by
    rw [List.getElem?_append_right (Nat.le_refl _), Nat.sub_self]
    rfl
  simp only [step, hget]
  rw [List.set_append_right _ _ (Nat.le_refl _), Nat.sub_self]
  rfl

theorem not_transparent_of_removed (s : CacheRun)
    (hmax : s.cache.maxBlockDataHintBlockNumber = t.getMaxBlockDataHintBlockNumber)
    (hfree : s.locked = false) (hstored : t.hintAt k ≠ none)
    (hrecorded : s.cache.preFetchRangeStart k ∈ s.cache.rangesInCache) :
    ¬Transparent t (run (step t) s (.remove k :: .get k ::
      turns [s.calls.length, s.calls.length, s.calls.length])) := by
  have hknown : ¬(s.cache.remove k).maxBlockDataHintBlockNumber < k := by
    intro hlt
    change s.cache.maxBlockDataHintBlockNumber < k at hlt
    refine hstored (BlockData.hintAt_eq_none_iff.2 ?_)
    intro r hr hnumber
    have hle := BlockData.number_le_max hr
    omega
  have hrange : (s.cache.remove k).preFetchRangeStart k ∈ (s.cache.remove k).rangesInCache :=
    hrecorded
  have hlocked : locked ⟨s.cache.remove k, s.calls ++ [⟨k, .waits⟩]⟩ = false := by
    rw [locked, List.any_append, Bool.or_eq_false_iff]
    exact ⟨hfree, rfl⟩
  intro htransparent
  have hcalled : step t (step t s (.remove k)) (.get k) =
      ⟨s.cache.remove k, s.calls ++ [⟨k, .called⟩]⟩ := rfl
  simp only [run, turns, List.map_cons, List.map_nil, List.foldl_cons, List.foldl_nil, hcalled]
    at htransparent
  -- the three steps of the new call, which nothing disturbs
  rw [step_last] at htransparent
  simp only [PreFetchCache.advance, if_neg hknown, s.cache.remove_self] at htransparent
  rw [step_last, hlocked] at htransparent
  simp only [PreFetchCache.advance, if_pos hrange, Bool.false_eq_true, if_false] at htransparent
  rw [step_last] at htransparent
  simp only [PreFetchCache.advance, s.cache.remove_self] at htransparent
  exact hstored (htransparent ⟨k, .returned (.ok none)⟩
    (List.mem_append_right _ List.mem_cons_self) none rfl).symm

end
end CacheRun

open CacheRun in
/-- The cache answers as the table does in every run exactly when the table has no gap, as long as
no entry is removed while its range is remembered or a call relies on it; and every call comes to
its end. A removal from a remembered range shows in the next call for the block. -/
theorem preFetchCache_transparent_iff (t : BlockData) (preFetchCount : ℕ)
    (hpos : 1 ≤ preFetchCount) :
    (t.Gapless ↔ ∀ actions, Meets (step t) (Kept t) (CacheRun.new t preFetchCount) actions →
      Transparent t (run (step t) (CacheRun.new t preFetchCount) actions)) ∧
    (∀ s : CacheRun, ∃ places, ∀ call ∈ (run (step t) s (turns places)).calls,
      ∃ answer, call.phase = .returned answer) ∧
    ∀ (actions : List CacheAction) (k : ℕ), t.hintAt k ≠ none →
      let s := run (step t) (CacheRun.new t preFetchCount) actions
      s.locked = false → s.cache.preFetchRangeStart k ∈ s.cache.rangesInCache →
      ¬Transparent t (run (step t) s (.remove k :: .get k ::
        turns [s.calls.length, s.calls.length, s.calls.length])) := by
  refine ⟨⟨?_, ?_⟩, calls_return t, ?_⟩
  · intro hgapless actions hkept
    have hready : Ready t (run (step t) (CacheRun.new t preFetchCount) actions) :=
      hkept.invariant (step t) (Ready t) (fun s action hs => ready_step hgapless hs action)
        (ready_new t hpos)
    exact hready.transparent
  · intro hall
    by_contra hgap
    obtain ⟨actions, hkept, hwrong⟩ := not_transparent_of_gap hgap hpos
    exact hwrong (hall actions hkept)
  · intro actions k hstored s hfree hrecorded
    exact not_transparent_of_removed s (constants_run t _ actions) hfree hstored hrecorded

def nonceHint (nonce : BitVec 64) : BlockDataHint := ⟨none, none, none, some nonce, none⟩

def twoHints (second : ℕ) (h : 0 ≠ second) : BlockData :=
  ⟨[⟨0, nonceHint 10⟩, ⟨second, nonceHint 11⟩], by simpa using h⟩

def getAlone (place blockNumber : ℕ) : List CacheAction :=
  .get blockNumber :: CacheRun.turns (List.replicate 7 place)

theorem preFetchCache_transparent_iff_twoHints :
    (run (CacheRun.step (twoHints 1 (by decide))) (.new (twoHints 1 (by decide)) 2)
        (getAlone 0 1)).calls = [⟨1, .returned (.ok (some (nonceHint 11)))⟩] ∧
      CacheRun.Transparent (twoHints 1 (by decide)) (run (CacheRun.step (twoHints 1 (by decide)))
        (.new (twoHints 1 (by decide)) 2) (getAlone 0 1)) := by
  have hgapless : BlockData.Gapless (twoHints 1 (by decide)) := by
    intro r hr k hk
    have hnumber : r.number ≤ 1 := by
      rcases List.mem_cons.1 hr with rfl | hr
      · exact Nat.zero_le 1
      · rw [List.mem_singleton.1 hr]
    have hcases : k = 0 ∨ k = 1 := by omega
    rcases hcases with rfl | rfl
    · exact ⟨⟨0, nonceHint 10⟩, List.mem_cons_self, rfl⟩
    · exact ⟨⟨1, nonceHint 11⟩, List.mem_cons_of_mem _ List.mem_cons_self, rfl⟩
  refine ⟨rfl, (preFetchCache_transparent_iff _ 2 (by decide)).1.1 hgapless _ ?_⟩
  exact ⟨trivial, CacheRun.meets_turns _ _⟩

/-- With rows 0 and 2 the call for block 1 gets the hint of block 2. With rows 0 and 1 a call for
block 1 after its entry has expired gets none. -/
theorem hint_of_other_block :
    ((twoHints 2 (by decide)).hintAt 1 = none ∧
      (run (CacheRun.step (twoHints 2 (by decide))) (.new (twoHints 2 (by decide)) 2)
        (getAlone 0 1)).calls = [⟨1, .returned (.ok (some (nonceHint 11)))⟩]) ∧
    (twoHints 1 (by decide)).hintAt 1 = some (nonceHint 11) ∧
      (run (CacheRun.step (twoHints 1 (by decide))) (.new (twoHints 1 (by decide)) 2)
        (getAlone 0 1 ++ .remove 1 :: getAlone 1 1)).calls =
          [⟨1, .returned (.ok (some (nonceHint 11)))⟩, ⟨1, .returned (.ok none)⟩] :=
  ⟨⟨rfl, rfl⟩, rfl, rfl⟩

end RollupNode
