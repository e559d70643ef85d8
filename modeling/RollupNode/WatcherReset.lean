import RollupNode.CommitBlobs

set_option autoImplicit false

/-! Resets of the L1 watcher by `RevertToL1Block`. -/
namespace RollupNode
open LinkedChain GuardedRuns ExceptTraversal GroupedTraversal

def L1Notification.blockNumber (n : L1Notification) : ℕ := n.logBlock.elim 0 BlockInfo.number

def unwindTo (number : ℕ) (given : List L1Notification) : List L1Notification :=
  given.filter (fun n => n.blockNumber ≤ number)

def L1Notification.give (given : List L1Notification) : L1Notification → List L1Notification
  | .reorg number => unwindTo number given
  | n => if n.logBlock.isSome then given ++ [n] else given

def sentNotifications (trace : List Emission) : List L1Notification :=
  trace.filterMap fun e => match e with
    | .queried _ => none
    | .sent n => some n

theorem sentNotifications_append (trace es : List Emission) :
    sentNotifications (trace ++ es) = sentNotifications trace ++ sentNotifications es :=
  List.filterMap_append

theorem mem_sentNotifications {trace : List Emission} {n : L1Notification} :
    n ∈ sentNotifications trace ↔ .sent n ∈ trace := by
  unfold sentNotifications
  rw [List.mem_filterMap]
  constructor
  · rintro ⟨e, he, heq⟩
    cases e with
    | queried b => cases heq
    | sent q =>
      cases heq
      exact he
  · intro h
    exact ⟨.sent n, h, rfl⟩

theorem logNotifications_eq_filter (trace : List Emission) :
    logNotifications trace = (sentNotifications trace).filter (fun n => n.logBlock.isSome) := by
  induction trace with
  | nil => rfl
  | cons e trace ih =>
    unfold logNotifications sentNotifications at ih ⊢
    cases e with
    | queried b => exact ih
    | sent n =>
      cases hn : n.logBlock.isSome with
      | true => simp [Emission.log, hn, ih]
      | false => simp [Emission.log, hn, ih]

variable {ns : List L1Notification}

theorem foldl_give (h : ∀ number, .reorg number ∉ ns) (given : List L1Notification) :
    ns.foldl L1Notification.give given =
      given ++ ns.filter (fun n => n.logBlock.isSome) := by
  induction ns generalizing given with
  | nil => simp
  | cons n ns ih =>
    have hrest := ih (fun number hmem => h number (List.mem_cons_of_mem n hmem))
    have hgive : n.give given = if n.logBlock.isSome then given ++ [n] else given := by
      cases n with
      | reorg number => exact absurd List.mem_cons_self (h number)
      | _ => rfl
    rw [List.foldl_cons, hrest, hgive]
    cases hn : n.logBlock.isSome with
    | true => simp [hn]
    | false => simp [hn]

theorem foldl_give_sent {es : List Emission} (h : ∀ number, .sent (.reorg number) ∉ es)
    (given : List L1Notification) :
    (sentNotifications es).foldl L1Notification.give given = given ++ logNotifications es := by
  rw [logNotifications_eq_filter]
  apply foldl_give
  intro number hmem
  exact h number (mem_sentNotifications.1 hmem)

theorem mem_foldl_give {given : List L1Notification} {n : L1Notification}
    (h : n ∈ ns.foldl L1Notification.give given) : n ∈ given ∨ n ∈ ns := by
  induction ns generalizing given with
  | nil => exact Or.inl h
  | cons q ns ih =>
    rcases ih h with h | h
    · unfold L1Notification.give at h
      split at h
      · exact Or.inl (List.mem_filter.1 h).1
      · split at h
        · rcases List.mem_append.1 h with h | h
          · exact Or.inl h
          · rw [List.mem_singleton.1 h]
            exact Or.inr List.mem_cons_self
        · exact Or.inl h
    · exact Or.inr (List.mem_cons_of_mem q h)

namespace Ledger
variable {l : Ledger} {first middle last : ℕ} {ns : List L1Notification}

theorem between_eq_filter (l : Ledger) (first last : ℕ) : l.between first last =
    l.chain.blocks.filter (fun b => first ≤ b.number ∧ b.number ≤ last) :=
  (l.chain.filter_range first last).symm

theorem between_past (l : Ledger) (h : last < first) : l.between first last = [] := by
  unfold between
  apply List.drop_eq_nil_of_le
  rw [List.length_take]
  omega

theorem between_split (l : Ledger) (first : ℕ) (h : middle ≤ last) :
    l.between first middle ++ l.between (max first (middle + 1)) last = l.between first last := by
  by_cases hfirst : first ≤ middle + 1
  · rw [Nat.max_eq_right hfirst]
    exact l.between_append hfirst h
  · rw [Nat.max_eq_left (by omega), l.between_past (by omega), List.nil_append]

theorem handleLogs_blockNumber {b : Header} (hb : b ∈ l.chain)
    (h : l.handleLogs (l.logs b) = .ok ns) : ∀ n ∈ ns, n.blockNumber = b.number := by
  intro n hn
  have hblock : OfBlock b.blockInfo (l.logs b) := l.logs_block b hb
  obtain ⟨log, -, hentry⟩ :=
    Matches.exists_of_mem (L1View.handleLogs_announces hblock h) hn
  unfold L1Notification.blockNumber
  rw [hentry.logBlock]
  rfl

theorem notifications_filter (h : l.notifications first last = .ok ns) (p : ℕ → Bool) {low high : ℕ}
    (hp : ∀ i, p i = true ∧ first ≤ i ∧ i ≤ last ↔ low ≤ i ∧ i ≤ high) :
    l.notifications low high = .ok (ns.filter (fun n => p n.blockNumber)) := by
  have hblocks : (l.between first last).filter (fun b => p b.number) = l.between low high := by
    rw [between_eq_filter, between_eq_filter, List.filter_filter]
    apply List.filter_congr
    intro b _
    rw [Bool.eq_iff_iff, Bool.and_eq_true, decide_eq_true_eq, decide_eq_true_eq]
    exact hp b.number
  unfold notifications
  rw [← hblocks]
  apply collect_filter _ _ ?_ h
  intro b hb part hpart n hn
  rw [handleLogs_blockNumber (mem_between hb) hpart n hn]

theorem notifications_upTo (h : l.notifications first last = .ok ns) (k : ℕ) :
    l.notifications first (min last k) = .ok (unwindTo k ns) := by
  apply notifications_filter h (fun i => i ≤ k)
  intro i
  rw [decide_eq_true_eq]
  omega

theorem notifications_from (h : l.notifications first last = .ok ns) (k : ℕ) :
    l.notifications (max first k) last = .ok (ns.filter (fun n => k ≤ n.blockNumber)) := by
  apply notifications_filter h (fun i => k ≤ i)
  intro i
  rw [decide_eq_true_eq]
  omega

theorem notifications_past (l : Ledger) (h : last < first) : l.notifications first last = .ok [] := by
  unfold notifications
  rw [l.between_past h]
  rfl

theorem notifications_split (l : Ledger) (first : ℕ) (h : middle ≤ last) :
    Splits (l.notifications first last) (l.notifications first middle)
      (l.notifications (max first (middle + 1)) last) := by
  unfold notifications
  rw [← l.between_split first h]
  exact collect_append _ _ _

theorem notifications_le (h : l.notifications first last = .ok ns) :
    ∀ n ∈ ns, n.blockNumber ≤ last := by
  have hupTo := notifications_upTo h last
  rw [Nat.min_self, h] at hupTo
  intro n hn
  rw [Except.ok.inj hupTo] at hn
  exact of_decide_eq_true (List.mem_filter.1 hn).2

/-- The database has been given the logs of the blocks from the start block to the current one,
each block once and in order. -/
def Given (l : Ledger) (startBlock current : ℕ) (given : List L1Notification) : Prop :=
  l.notifications startBlock current = .ok (given.filter (fun n => startBlock ≤ n.blockNumber))

section
variable {startBlock current : ℕ} {given : List L1Notification}

theorem given_start (l : Ledger) (startBlock : ℕ) : l.Given startBlock (startBlock - 1) [] :=
  l.notifications_start startBlock

theorem Given.unwound (h : l.Given startBlock current given) (k : ℕ) :
    l.Given startBlock (min current k) (unwindTo k given) := by
  have hupTo := notifications_upTo h k
  unfold unwindTo at hupTo
  rw [List.filter_comm] at hupTo
  exact hupTo

theorem Given.extended (h : l.Given startBlock current given) (hle : current ≤ last)
    (hns : l.notifications (current + 1) last = .ok ns) : l.Given startBlock last (given ++ ns) := by
  have hnew := notifications_from hns startBlock
  rw [Nat.max_comm] at hnew
  unfold Given
  rw [List.filter_append]
  exact (l.notifications_split startBlock hle _).2 ⟨_, _, h, hnew, rfl⟩

theorem Given.lowered (h : l.Given startBlock current given) (hle : last ≤ current)
    (hgiven : ∀ n ∈ given, n.blockNumber ≤ last) : l.Given startBlock last given := by
  have hunwound := h.unwound last
  have hsame : unwindTo last given = given :=
    List.filter_eq_self.2 (fun n hn => decide_eq_true (hgiven n hn))
  rw [Nat.min_eq_right hle, hsame] at hunwound
  exact hunwound

theorem Given.reset_iff (h : l.Given startBlock current given) (n : ℕ) :
    l.Given startBlock n (unwindTo n given) ↔
      l.notifications (max startBlock (current + 1)) n = .ok [] := by
  by_cases hle : n ≤ current
  · have hunwound := h.unwound n
    rw [Nat.min_eq_right hle] at hunwound
    exact iff_of_true hunwound (l.notifications_past (by omega))
  · have hsame : (unwindTo n given).filter (fun q => startBlock ≤ q.blockNumber) =
        given.filter (fun q => startBlock ≤ q.blockNumber) := by
      unfold unwindTo
      rw [List.filter_comm]
      apply List.filter_eq_self.2
      intro q hq
      have hq' := notifications_le h q hq
      exact decide_eq_true (by omega)
    unfold Given
    rw [hsame, l.notifications_split startBlock (by omega : current ≤ n)]
    constructor
    · rintro ⟨old, new, hold, hnew, heq⟩
      unfold Given at h
      rw [hold] at h
      rw [← Except.ok.inj h] at heq
      rw [hnew, List.self_eq_append_right.1 heq]
    · intro hnew
      exact ⟨_, [], h, hnew, (List.append_nil _).symm⟩

end
end Ledger

/-- A watcher with its orchestrator: the channel between them, and the log notifications that the
database has been given and not unwound. The orchestrator consumes what is sent at once. -/
structure Session where
  watch : Watch
  isSynced : Bool
  channel : List L1Notification
  given : List L1Notification

inductive L1WatcherCommand where
  | resetToBlock (block : ℕ)
  deriving DecidableEq, Repr

/-- A turn of the watcher's loop, or a revert command that the orchestrator and the watcher handle
between two turns. -/
inductive SessionAction where
  | poll (v : L1View)
  | revertToL1Block (blockNumber : ℕ)

namespace Session

def start (l1State : L1State) (startBlock logQueryBlockRange : ℕ) : Session where
  watch := Watch.start l1State (startBlock - 1) logQueryBlockRange
  isSynced := false
  channel := []
  given := []

/-- What a turn of the loop sends: the notifications of the step, and `Synced` when the step, failed
or not, leaves a watcher that is not synced yet at its head. -/
def sent (s : Session) (v : L1View) : List L1Notification :=
  let next := (s.watch.poll v).watcher
  sentNotifications (s.watch.watcher.step v).emitted ++
    if s.isSynced = false ∧ next.currentBlockNumber = next.l1State.head then [.synced] else []

def poll (s : Session) (v : L1View) : Session :=
  let next := (s.watch.poll v).watcher
  { watch := s.watch.poll v
    isSynced := s.isSynced || next.currentBlockNumber == next.l1State.head
    channel := s.channel ++ s.sent v
    given := (s.sent v).foldl L1Notification.give s.given }

def handleCommand (s : Session) : L1WatcherCommand → Session
  | .resetToBlock block =>
    { s with
      watch := { s.watch with watcher := { s.watch.watcher with currentBlockNumber := block } }
      isSynced := false
      channel := [] }

def revertToL1Block (s : Session) (blockNumber : ℕ) : Session :=
  { s with given := unwindTo blockNumber s.given }.handleCommand (.resetToBlock blockNumber)

def step (s : Session) : SessionAction → Session
  | .poll v => s.poll v
  | .revertToL1Block blockNumber => s.revertToL1Block blockNumber

/-- `Synced` is sent only when the last indexed block is the head, which is the latest block of
the poll or, when the poll fails, still the one the watcher had. -/
def SyncsAtHead (s : Session) : SessionAction → Prop
  | .poll v =>
    let next := s.watch.watcher.step v
    .synced ∈ s.sent v → next.watcher.currentBlockNumber = next.watcher.l1State.head ∧
      (next.watcher.l1State.head = v.latest.number ∨
        next.watcher.l1State.head = s.watch.watcher.l1State.head ∧ ∃ e, next.result = .error e)
  | .revertToL1Block _ => True

end Session

namespace Watcher

/-- A step notifies of logs of served blocks; the rest is not about a log and not `Synced`. -/
def Notifies (v : L1View) (n : L1Notification) : Prop :=
  (∃ b ∈ v.chain, n.logBlock = some b.blockInfo) ∨ n.logBlock = none ∧ n ≠ .synced

variable {w : Watcher} {v : L1View} {n : L1Notification}

theorem handleLatestBlock_notifies (h : .sent n ∈ (w.handleLatestBlock v).emitted) :
    Notifies v n := by
  rcases w.handleLatestBlock_cases v with ⟨_, -, -, heq⟩ | ⟨_, -, -, -, heq⟩ | ⟨_, -, heq⟩ |
    ⟨chain, -, -, heq⟩
  · rw [heq] at h
    cases h
  · rw [heq] at h
    cases List.mem_singleton.1 h
    exact Or.inr ⟨rfl, nofun⟩
  · rw [heq] at h
    cases h
  · rw [heq] at h
    rcases List.mem_append.1 h with h | h
    · cases hdiv : divergence w.unfinalizedBlocks.data chain.data with
      | none =>
        rw [reorged_none hdiv] at h
        cases h
      | some found =>
        rw [reorged_some hdiv] at h
        cases List.mem_singleton.1 h
        exact Or.inr ⟨rfl, nofun⟩
    · cases List.mem_singleton.1 h
      exact Or.inr ⟨rfl, nofun⟩

theorem indexNext_notifies (h : .sent n ∈ (w.indexNext v).emitted) :
    Notifies v n ∧ ∀ number, n ≠ .reorg number := by
  have hqueried : .sent n ∉ (w.nextBlocks v).map Emission.queried := by
    intro hmem
    obtain ⟨b, -, heq⟩ := List.mem_map.1 hmem
    cases heq
  rcases w.indexNext_cases v with ⟨heq, -⟩ | ⟨es, e, heq, rfl | rfl⟩ | ⟨ns, heq, hns⟩
  · rw [heq] at h
    cases h
  · rw [heq] at h
    cases h
  · rw [heq] at h
    exact absurd h hqueried
  · rw [heq] at h
    rcases List.mem_append.1 h with h | h
    · rcases List.mem_append.1 h with h | h
      · exact absurd h hqueried
      · obtain ⟨q, hq, heq⟩ := List.mem_map.1 h
        cases heq
        rcases nextNotifications_spec hns n hq with ⟨b, hb, hblock⟩ | rfl
        · refine ⟨Or.inl ⟨b, (mem_nextBlocks.1 hb).1, hblock⟩, ?_⟩
          intro number hnumber
          rw [hnumber] at hblock
          cases hblock
        · exact ⟨Or.inr ⟨rfl, nofun⟩, fun _ => nofun⟩
    · cases List.mem_singleton.1 h
      exact ⟨Or.inr ⟨rfl, nofun⟩, fun _ => nofun⟩

theorem step_notifies (h : .sent n ∈ (w.step v).emitted) : Notifies v n := by
  have hfirst : .sent n ∈ (w.handleFinalizedBlock v.finalized).emitted → Notifies v n := by
    intro hmem
    cases (w.handleFinalizedBlock_frame v.finalized).2.2 _ hmem
    exact Or.inr ⟨rfl, nofun⟩
  rcases w.step_cases v with ⟨e, heq⟩ | ⟨e, heq⟩ | ⟨-, heq⟩
  · rw [heq] at h
    cases h
  · rw [heq] at h
    exact hfirst h
  · rw [heq] at h
    rcases List.mem_append.1 h with h | h
    · exact hfirst h
    · rcases List.mem_append.1 h with h | h
      · exact handleLatestBlock_notifies h
      · exact (indexNext_notifies h).1

theorem Notifies.blockNumber_le (h : Notifies v n) :
    n.blockNumber ≤ v.latest.number := by
  have hlatest := v.latest_number
  unfold L1Notification.blockNumber
  rcases h with ⟨b, hb, hblock⟩ | ⟨hnone, -⟩
  · have hlt : b.number < v.chain.blocks.length := v.chain.number_lt hb
    rw [hblock]
    change b.number ≤ v.latest.number
    omega
  · rw [hnone]
    exact Nat.zero_le _

end Watcher

namespace Ledger

/-- The provider serves the blocks of a growing chain at every poll. -/
def ShowsTo (l : Ledger) (s : Session) : SessionAction → Prop
  | .poll v => l.Shows s.watch v
  | .revertToL1Block _ => True

/-- A revert goes to an indexed block, or the blocks it jumps over have nothing to announce. -/
def SkipsSilently (l : Ledger) (startBlock : ℕ) (s : Session) : SessionAction → Prop
  | .poll _ => True
  | .revertToL1Block n =>
    l.notifications (max startBlock (s.watch.watcher.currentBlockNumber + 1)) n = .ok []

section
variable {l : Ledger} {startBlock : ℕ} {given : List L1Notification} {s : Watch} {v : L1View}
  {w : Watcher}

theorem Given.handleLatestBlock (h : l.Given startBlock w.currentBlockNumber given) (v : L1View) :
    l.Given startBlock (w.handleLatestBlock v).watcher.currentBlockNumber
      ((sentNotifications (w.handleLatestBlock v).emitted).foldl L1Notification.give given) := by
  rcases w.handleLatestBlock_cases v with ⟨_, -, -, heq⟩ | ⟨_, -, -, -, heq⟩ | ⟨_, -, heq⟩ |
    ⟨chain, -, -, heq⟩
  · rw [heq]
    exact h
  · rw [heq]
    exact h
  · rw [heq]
    exact h
  · rw [heq]
    cases hdiv : divergence w.unfinalizedBlocks.data chain.data with
    | none =>
      rw [Watcher.reorged_none hdiv]
      exact h
    | some found =>
      rw [Watcher.reorged_some hdiv]
      exact h.unwound (found.1.number - 1)

theorem Given.indexNext (h : l.Given startBlock w.currentBlockNumber given) (hshows : l.Shows s v)
    (hgiven : ∀ n ∈ given, n.blockNumber ≤ v.latest.number) :
    l.Given startBlock (w.indexNext v).watcher.currentBlockNumber
      ((sentNotifications (w.indexNext v).emitted).foldl L1Notification.give given) := by
  rw [foldl_give_sent (fun number hmem => (Watcher.indexNext_notifies hmem).2 number rfl)]
  rcases w.indexNext_cases v with ⟨heq, -⟩ | ⟨es, e, heq, hes⟩ | ⟨ns, heq, hns⟩
  · rw [heq]
    simpa [logNotifications] using h
  · rw [heq]
    simp only [logNotifications_silent (silent_of_queried hes), List.append_nil]
    exact h
  · have hlogs : logNotifications (w.indexed v ns).emitted = logNotifications (ns.map .sent) := by
      have hqueried : logNotifications ((w.nextBlocks v).map Emission.queried) = [] :=
        logNotifications_silent (silent_of_queried (Or.inr rfl))
      have hprocessed : logNotifications [.sent (.processed (w.toBlock v))] = [] := rfl
      unfold Watcher.indexed
      rw [logNotifications_append, logNotifications_append, hqueried, hprocessed, List.nil_append,
        List.append_nil]
    have hnew := hshows.handleLogs_ok w (Watcher.logNotifications_next hns)
    rw [heq, hlogs]
    change l.Given startBlock (w.toBlock v) _
    by_cases hle : w.currentBlockNumber ≤ w.toBlock v
    · exact h.extended hle hnew
    · have hto : w.toBlock v = min (w.currentBlockNumber + w.logQueryBlockRange) v.latest.number :=
        rfl
      rw [l.notifications_past (by omega)] at hnew
      rw [← Except.ok.inj hnew, List.append_nil]
      have hlatest : w.toBlock v = v.latest.number := by omega
      rw [hlatest]
      exact h.lowered (by omega) hgiven

theorem Given.step (h : l.Given startBlock s.watcher.currentBlockNumber given)
    (hshows : l.Shows s v) (hgiven : ∀ n ∈ given, n.blockNumber ≤ v.latest.number) :
    l.Given startBlock (s.watcher.step v).watcher.currentBlockNumber
      ((sentNotifications (s.watcher.step v).emitted).foldl L1Notification.give given) := by
  have hfinalized : l.Given startBlock
      (s.watcher.handleFinalizedBlock v.finalized).watcher.currentBlockNumber
      ((sentNotifications (s.watcher.handleFinalizedBlock v.finalized).emitted).foldl
        L1Notification.give given) := by
    have hemitted := (s.watcher.handleFinalizedBlock_frame v.finalized).2.2
    rw [(s.watcher.handleFinalizedBlock_frame v.finalized).2.1, foldl_give_sent,
      logNotifications_silent, List.append_nil]
    · exact h
    · exact fun e he => silent_of_finalized (hemitted e he)
    · intro number hmem
      cases hemitted _ hmem
  rcases s.watcher.step_cases v with ⟨e, heq⟩ | ⟨e, heq⟩ | ⟨-, heq⟩
  · rw [heq]
    exact h
  · rw [heq]
    exact hfinalized
  · rw [heq]
    simp only [sentNotifications_append, List.foldl_append]
    refine (hfinalized.handleLatestBlock v).indexNext hshows ?_
    intro n hn
    rcases mem_foldl_give hn with hn | hn
    · rcases mem_foldl_give hn with hn | hn
      · exact hgiven n hn
      · have hquiet := (s.watcher.handleFinalizedBlock_frame v.finalized).2.2 _
          (mem_sentNotifications.1 hn)
        cases hquiet
        exact Nat.zero_le _
    · exact (Watcher.handleLatestBlock_notifies (mem_sentNotifications.1 hn)).blockNumber_le

/-- The remembered headers are of the chain, and the head is the last of them. -/
structure Remembers (l : Ledger) (w : Watcher) : Prop where
  known : ∀ b ∈ w.unfinalizedBlocks.data, b ∈ l.chain
  head : ∀ tail ∈ w.unfinalizedBlocks.data.getLast?, w.l1State.head = tail.number

theorem Remembers.finalized (h : l.Remembers w) (finalized : Header) :
    l.Remembers (w.handleFinalizedBlock finalized).watcher where
  known b hb := h.known b ((w.handleFinalizedBlock_keeps finalized).1.subset hb)
  head := w.handleFinalizedBlock_head finalized h.head

theorem Shows.remembers (hshows : l.Shows s v) (old new : List Header)
    (hold : ∀ b ∈ old, b ∈ l.chain) (hnew : ∀ b ∈ new, b ∈ v.chain)
    (hlast : new.getLast? = some v.latest) (hdata : w.unfinalizedBlocks.data <:+ old ++ new)
    (hhead : w.l1State.head = v.latest.number) : l.Remembers w where
  known := by
    intro b hb
    rcases List.mem_append.1 (hdata.subset hb) with hb | hb
    · exact hold b hb
    · exact hshows.subset (hnew b hb)
  head := by
    intro tail htail
    have hne : w.unfinalizedBlocks.data ≠ [] := by
      intro hnil
      rw [hnil] at htail
      cases htail
    rw [getLast?_suffix hdata hne, List.getLast?_append, hlast] at htail
    cases htail
    exact hhead

theorem Remembers.handleLatestBlock (h : l.Remembers w) (hshows : l.Shows s v)
    (hok : (w.handleLatestBlock v).result = .ok ()) :
    l.Remembers (w.handleLatestBlock v).watcher ∧
      (w.handleLatestBlock v).watcher.l1State.head = v.latest.number := by
  have hlatest : v.latest ∈ v.chain := List.mem_of_getLast? v.latest_tip
  rcases w.handleLatestBlock_cases v with ⟨tail, htail, hhash, heq⟩ | ⟨tail, -, -, -, heq⟩ |
    ⟨e, -, heq⟩ | ⟨chain, hchain, -, heq⟩
  · have hknown : tail ∈ l.chain := h.known tail (List.mem_of_getLast? htail)
    have hsame := l.hash_unique tail hknown v.latest (hshows.subset hlatest) hhash
    rw [heq]
    refine ⟨h, ?_⟩
    rw [h.head tail htail, hsame]
  · rw [heq]
    refine ⟨hshows.remembers _ [v.latest] h.known ?_ rfl ?_ rfl, rfl⟩
    · intro b hb
      rw [List.mem_singleton.1 hb]
      exact hlatest
    · exact BoundedVec.extend_suffix w.unfinalizedBlocks [v.latest]
  · rw [heq] at hok
    cases hok
  · obtain ⟨j, b, hwalk, -, hdata⟩ := Watcher.fetchUnfinalizedChain_found hchain
    generalize (Watcher.rposition w.unfinalizedBlocks.data b).getD 0 = p at hdata
    have hjlen := (List.getElem?_eq_some_iff.1 hwalk.block).1
    have hdrop : (v.chain.blocks.drop j).getLast? = some v.latest := by
      rw [List.getLast?_drop, if_neg (by omega), v.latest_tip]
    have hkept := w.reorged_unfinalizedBlocks chain
    rw [heq]
    refine ⟨hshows.remembers (w.unfinalizedBlocks.data.take p) (v.chain.blocks.drop j) ?_
      (fun b hb => List.mem_of_mem_drop hb) hdrop ?_ rfl, rfl⟩
    · intro b hb
      exact h.known b (List.mem_of_mem_take hb)
    · change (w.reorged chain).1.unfinalizedBlocks.data <:+ _
      rw [hkept, hdata]
      exact List.drop_suffix _ _

theorem Remembers.step (h : l.Remembers s.watcher) (hshows : l.Shows s v) :
    l.Remembers (s.watcher.step v).watcher ∧
      ((s.watcher.step v).watcher.l1State.head = v.latest.number ∨
        (s.watcher.step v).watcher.l1State.head = s.watcher.l1State.head ∧
          ∃ e, (s.watcher.step v).result = .error e) := by
  have hfirst := h.finalized v.finalized
  rcases s.watcher.step_cases v with ⟨e, heq⟩ | ⟨e, heq⟩ | ⟨hok, heq⟩
  · rw [heq]
    exact ⟨h, Or.inr ⟨rfl, e, rfl⟩⟩
  · rw [heq]
    exact ⟨hfirst, Or.inr ⟨(s.watcher.handleFinalizedBlock_keeps v.finalized).2.1, e, rfl⟩⟩
  · obtain ⟨hsecond, hhead⟩ := hfirst.handleLatestBlock hshows hok
    rw [heq]
    generalize ((s.watcher.handleFinalizedBlock v.finalized).watcher.handleLatestBlock v).watcher =
      w' at hsecond hhead
    obtain ⟨hdata, hstate⟩ := w'.indexNext_frame v
    refine ⟨⟨?_, ?_⟩, Or.inl ?_⟩
    · rw [hdata]
      exact hsecond.known
    · rw [hdata, hstate]
      exact hsecond.head
    · rw [hstate]
      exact hhead

end
end Ledger

def Session.GivenServed (s : Session) : Prop := ∀ n ∈ s.given, n.blockNumber < s.watch.height

theorem Session.poll_given (s : Session) (v : L1View) :
    (s.poll v).given = (sentNotifications (s.watch.watcher.step v).emitted).foldl
      L1Notification.give s.given := by
  change (s.sent v).foldl L1Notification.give s.given = _
  unfold sent
  simp only
  split
  · rw [List.foldl_append]
    rfl
  · rw [List.append_nil]

/-- An action keeps the logs given exactly when it skips none. -/
theorem Ledger.given_step {l : Ledger} {startBlock : ℕ} {s : Session} (hserved : s.GivenServed)
    (h : l.Given startBlock s.watch.watcher.currentBlockNumber s.given) (a : SessionAction)
    (hshows : l.ShowsTo s a) :
    (s.step a).GivenServed ∧ (l.Given startBlock (s.step a).watch.watcher.currentBlockNumber
      (s.step a).given ↔ l.SkipsSilently startBlock s a) := by
  cases a with
  | poll v =>
    have hview : l.Shows s.watch v := hshows
    have hlatest := v.latest_number
    have hgiven : ∀ n ∈ s.given, n.blockNumber ≤ v.latest.number := by
      intro n hn
      have hlt := hserved n hn
      have hheight := hview.height_le
      omega
    have hnext := s.poll_given v
    constructor
    · intro n hn
      change n ∈ (s.poll v).given at hn
      change n.blockNumber < v.chain.blocks.length
      rw [hnext] at hn
      rcases mem_foldl_give hn with hn | hn
      · have hle := hgiven n hn
        omega
      · have hle := (Watcher.step_notifies (mem_sentNotifications.1 hn)).blockNumber_le
        omega
    · refine iff_of_true ?_ trivial
      change l.Given startBlock (s.watch.watcher.step v).watcher.currentBlockNumber (s.poll v).given
      rw [hnext]
      exact h.step hview hgiven
  | revertToL1Block n =>
    refine ⟨?_, h.reset_iff n⟩
    intro q hq
    exact hserved q (List.mem_filter.1 hq).1

theorem Session.syncsAtHead_step {l : Ledger} {s : Session} (h : l.Remembers s.watch.watcher)
    (a : SessionAction) (hshows : l.ShowsTo s a) :
    l.Remembers (s.step a).watch.watcher ∧ s.SyncsAtHead a := by
  cases a with
  | poll v =>
    obtain ⟨hremembers, hhead⟩ := h.step (v := v) hshows
    refine ⟨hremembers, ?_⟩
    intro hsynced
    rcases List.mem_append.1 hsynced with hstep | hlast
    · rcases Watcher.step_notifies (mem_sentNotifications.1 hstep) with ⟨b, -, hblock⟩ | ⟨-, hne⟩
      · cases hblock
      · exact absurd rfl hne
    · split at hlast
      · rename_i hcond
        exact ⟨hcond.2, hhead⟩
      · cases hlast
  | revertToL1Block n => exact ⟨⟨h.known, h.head⟩, trivial⟩

/-- The logs up to the last indexed block have been given exactly when no reset goes beyond blocks
with logs that were not indexed. -/
theorem indexed_blocks_given_iff (l : Ledger) (l1State : L1State) (startBlock range : ℕ)
    (actions : List SessionAction)
    (hshows : Meets Session.step l.ShowsTo (Session.start l1State startBlock range) actions) :
    Meets Session.step (l.SkipsSilently startBlock) (Session.start l1State startBlock range)
        actions ↔
      (∀ as bs, actions = as ++ bs →
        let s := run Session.step (Session.start l1State startBlock range) as
        l.Given startBlock s.watch.watcher.currentBlockNumber s.given) ∧
      Meets Session.step Session.SyncsAtHead (Session.start l1State startBlock range) actions := by
  have hremembers : l.Remembers (Session.start l1State startBlock range).watch.watcher :=
    ⟨fun b hb => (List.not_mem_nil hb).elim, fun tail htail => by cases htail⟩
  have hserved : (Session.start l1State startBlock range).GivenServed :=
    fun n hn => (List.not_mem_nil hn).elim
  have hsynced : Meets Session.step Session.SyncsAtHead (Session.start l1State startBlock range)
      actions :=
    hshows.of_invariant Session.step (fun s => l.Remembers s.watch.watcher)
      (fun _ a hremembers hview => Session.syncsAtHead_step hremembers a hview) hremembers
  have hgiven := meets_iff_forall_run Session.step
    (fun s => l.Given startBlock s.watch.watcher.currentBlockNumber s.given) Session.GivenServed
    (fun _ a hserved hgiven hview => Ledger.given_step hserved hgiven a hview) hserved
    (l.given_start startBlock) hshows
  rw [hgiven]
  exact (and_iff_left hsynced).symm

def threeMessages : Ledger := countedLedger 3 (by decide)

def threeMessagesView : L1View := countedView 3 0 (by decide) (fun _ => false)

theorem threeMessages_showsTo (range n : ℕ) :
    Meets Session.step threeMessages.ShowsTo (Session.start ⟨3, 0⟩ 1 range)
      [.poll threeMessagesView, .revertToL1Block n, .poll threeMessagesView] := by
  refine ⟨countedLedger_shows _ (by decide) _ _ ?_, trivial,
    countedLedger_shows _ (by decide) _ _ ?_, trivial⟩
  · rintro u ⟨⟩
  · rintro u ⟨⟩
    exact ⟨3, by decide, rfl⟩

/-- A reset from block 2 to block 1 repeats block 2. -/
theorem indexed_blocks_given_iff_repeated :
    let start := Session.start ⟨3, 0⟩ 1 2
    let actions := [.poll threeMessagesView, .revertToL1Block 1, .poll threeMessagesView]
    Meets Session.step (threeMessages.SkipsSilently 1) start actions ∧
      (∀ as bs, actions = as ++ bs → let s := run Session.step start as
        threeMessages.Given 1 s.watch.watcher.currentBlockNumber s.given) ∧
      Meets Session.step Session.SyncsAtHead start actions := by
  intro start actions
  have hskips : Meets Session.step (threeMessages.SkipsSilently 1) start actions :=
    ⟨trivial, threeMessages.notifications_past (by decide), trivial, trivial⟩
  exact ⟨hskips, (indexed_blocks_given_iff threeMessages ⟨3, 0⟩ 1 2 actions
    (threeMessages_showsTo 2 1)).1 hskips⟩

/-- After block 1 has been indexed, a reset to block 3 leaves the watcher synced at the head, and
the messages of blocks 2 and 3 are never announced. -/
theorem reset_skips_messages :
    let start := Session.start ⟨3, 0⟩ 1 1
    let before := run Session.step start [.poll threeMessagesView, .revertToL1Block 3]
    let s := before.poll threeMessagesView
    Meets Session.step threeMessages.ShowsTo start
        [.poll threeMessagesView, .revertToL1Block 3, .poll threeMessagesView] ∧
      s.watch.watcher.currentBlockNumber = 3 ∧ .synced ∈ before.sent threeMessagesView ∧
      s.given.map L1Notification.blockNumber = [1] ∧
      ¬threeMessages.Given 1 s.watch.watcher.currentBlockNumber s.given := by
  intro start before s
  have hcurrent : s.watch.watcher.currentBlockNumber = 3 := by decide
  have hgiven : s.given.map L1Notification.blockNumber = [1] := by decide
  refine ⟨threeMessages_showsTo 1 3, hcurrent, by decide, hgiven, ?_⟩
  intro h
  have hthree : ∃ ns, threeMessages.notifications 1 3 = .ok ns ∧ ns.length = 3 := ⟨_, rfl, rfl⟩
  obtain ⟨ns, hns, hlength⟩ := hthree
  rw [hcurrent] at h
  unfold Ledger.Given at h
  rw [hns] at h
  have hle : ns.length ≤ s.given.length := by
    rw [Except.ok.inj h]
    exact List.length_filter_le _ _
  have hone := congrArg List.length hgiven
  rw [List.length_map] at hone
  simp only [List.length_cons, List.length_nil] at hone
  omega

end RollupNode
