import RollupNode.WatcherGrowth
import RollupNode.WatcherReorg

set_option autoImplicit false

/-! Every log from the start block on is announced once and in order. -/
namespace RollupNode
open LinkedChain GuardedRuns ExceptTraversal GroupedTraversal

/-- An L1 that never replaces a block, with all the blocks of a run. A hash names one block, a
transaction is in one block, and the genesis block, which has no transactions, has no logs. -/
structure Ledger extends L1View where
  hash_unique : CollisionFree chain chain
  transaction_unique : chain.blocks.Pairwise (fun a b => SeparateTransactions (logs a) (logs b))
  genesis_silent : ∀ b ∈ chain, b.number = 0 → logs b = []
  answered : ∀ rpc, fails rpc = false

namespace Ledger

def between (l : Ledger) (first last : ℕ) : List Header := (l.chain.blocks.take (last + 1)).drop first

def logsBetween (l : Ledger) (first last : ℕ) : List (Header × Log) :=
  (l.between first last).flatMap (fun b => (l.logs b).map (fun log => (b, log)))

def notifications (l : Ledger) (first last : ℕ) : Except Interruption (List L1Notification) :=
  collect (fun b => l.handleLogs (l.logs b)) (l.between first last)

/-- The provider serves a beginning of the chain that is not shorter than the one before. -/
structure Shows (l : Ledger) (s : Watch) (v : L1View) : Prop where
  chain : v.chain.blocks <+: l.chain.blocks
  grown : ∀ u ∈ s.served, u.chain.blocks <+: v.chain.blocks
  logs : ∀ b ∈ v.chain, v.logs b = l.logs b
  transaction : ∀ b ∈ v.chain, ∀ log ∈ l.logs b, ∀ hash ∈ log.transactionHash,
    v.transaction hash = l.transaction hash

/-- No call fails and the logs of the served blocks can be decoded. -/
structure AnsweredBy (l : Ledger) (v : L1View) : Prop where
  calls : ∀ rpc, v.fails rpc = false
  decoded : ∀ b ∈ v.chain, ∃ ns, l.handleLogs (l.logs b) = .ok ns

end Ledger

def Emission.log : Emission → Option L1Notification
  | .queried _ => none
  | .sent n => if n.logBlock.isSome then some n else none

def logNotifications (trace : List Emission) : List L1Notification := trace.filterMap Emission.log

/-- The logs of the blocks from the start block to the current one have been announced, each once
and in order, and a block is reported as processed behind the logs of all blocks up to it. -/
structure Ledger.Delivered (l : Ledger) (startBlock current : ℕ) (trace : List Emission) : Prop where
  delivered : l.notifications startBlock current = .ok (logNotifications trace)
  announced : Matches (fun entry => Announces (Prod.fst entry).blockInfo entry.2.event)
    (l.logsBetween startBlock current) (logNotifications trace)
  noReorg : ∀ n, .sent (.reorg n) ∉ trace
  processed : ∀ early m, early ++ [.sent (.processed m)] <+: trace →
    l.notifications startBlock m = .ok (logNotifications early)

def Watch.HasRoom (s : Watch) (v : L1View) : Prop :=
  Watcher.Fits (s.watcher.unfinalizedBlocks.data.filter (fun b => v.finalized.number < b.number)) v

theorem Watch.hasRoom_of_near (s : Watch) {v : L1View}
    (h : v.latest.number ≤ v.finalized.number + headerCapacity) : s.HasRoom v := by
  intro first hfirst tail _
  have hkept := (List.mem_filter.1 (List.mem_of_head? hfirst)).2
  rw [decide_eq_true_eq] at hkept
  right
  omega

/-- An emission that announces no log, no reorg and no processed block. -/
def Emission.IsSilent (e : Emission) : Prop :=
  e.log = none ∧ (∀ n, e ≠ .sent (.reorg n)) ∧ ∀ m, e ≠ .sent (.processed m)

theorem logNotifications_append (trace es : List Emission) :
    logNotifications (trace ++ es) = logNotifications trace ++ logNotifications es :=
  List.filterMap_append

variable {es : List Emission} {ns : List L1Notification} {b : Header}

theorem logNotifications_silent (h : ∀ e ∈ es, e.IsSilent) : logNotifications es = [] := by
  unfold logNotifications
  rw [List.filterMap_eq_nil_iff]
  exact fun e he => (h e he).1

theorem logNotifications_sent (h : ∀ n ∈ ns, n.logBlock.isSome) :
    logNotifications (ns.map Emission.sent) = ns := by
  induction ns with
  | nil => rfl
  | cons n ns ih =>
    have hrest := ih (fun q hq => h q (List.mem_cons_of_mem n hq))
    have hfirst := h n List.mem_cons_self
    unfold logNotifications at hrest ⊢
    simp [Emission.log, hfirst, hrest]

theorem processed_before {m : ℕ} {trace early : List Emission}
    (hes : ∀ e ∈ es, e ≠ .sent (.processed m)) (h : early ++ [.sent (.processed m)] <+: trace ++ es) :
    early ++ [.sent (.processed m)] <+: trace := by
  induction es using List.reverseRecOn with
  | nil =>
    rw [List.append_nil] at h
    exact h
  | append_singleton es e ih =>
    rw [← List.append_assoc, List.prefix_concat_iff] at h
    rcases h with heq | h
    · have hlast := (List.append_inj' heq rfl).2
      exact absurd (List.cons.inj hlast).1.symm (hes e (by simp))
    · exact ih (fun q hq => hes q (List.mem_append_left _ hq)) h

namespace Ledger
variable {l : Ledger} {startBlock current : ℕ} {trace : List Emission} {first last : ℕ}

theorem mem_between (h : b ∈ l.between first last) : b ∈ l.chain :=
  List.mem_of_mem_take (List.mem_of_mem_drop h)

theorem between_append (l : Ledger) {middle : ℕ} (h : first ≤ middle + 1) (h' : middle ≤ last) :
    l.between first middle ++ l.between (middle + 1) last = l.between first last := by
  unfold between
  have hsplit : l.chain.blocks.take (last + 1) = l.chain.blocks.take (middle + 1) ++
      (l.chain.blocks.take (last + 1)).drop (middle + 1) := by
    have hwhole := List.take_append_drop (middle + 1) (l.chain.blocks.take (last + 1))
    rw [List.take_take, Nat.min_eq_left (by omega)] at hwhole
    exact hwhole.symm
  by_cases hlen : first ≤ (l.chain.blocks.take (middle + 1)).length
  · conv_rhs => rw [hsplit]
    rw [List.drop_append_of_le_length hlen]
  · rw [List.length_take] at hlen
    rw [List.drop_eq_nil_of_le (by rw [List.length_take]; omega),
      List.drop_eq_nil_of_le (by rw [List.length_take]; omega),
      List.drop_eq_nil_of_le (by rw [List.length_take]; omega), List.nil_append]

theorem notifications_append {middle : ℕ} (h : first ≤ middle + 1) (h' : middle ≤ last)
    {ns' : List L1Notification} (hns : l.notifications first middle = .ok ns)
    (hns' : l.notifications (middle + 1) last = .ok ns') :
    l.notifications first last = .ok (ns ++ ns') := by
  unfold notifications
  rw [← l.between_append h h', collect_append]
  exact ⟨ns, ns', hns, hns', rfl⟩

theorem notifications_announced (h : l.notifications first last = .ok ns) :
    Matches (fun entry => Announces (Prod.fst entry).blockInfo entry.2.event)
      (l.logsBetween first last) ns := by
  refine matches_of_collect _ (fun b hb a ha => ?_) h
  have hblock : OfBlock b.blockInfo (l.logs b) := l.logs_block b (mem_between hb)
  obtain ⟨results, hresults, rfl⟩ := L1View.handleLogs_announces hblock ha
  refine ⟨results, ?_, rfl⟩
  rw [List.forall₂_map_left_iff]
  exact hresults

theorem notifications_logBlock (h : l.notifications first last = .ok ns) :
    ∀ n ∈ ns, n.logBlock.isSome := by
  intro n hn
  obtain ⟨entry, -, hentry⟩ := (notifications_announced h).exists_of_mem hn
  rw [hentry.logBlock]
  rfl

theorem Delivered.append_silent (h : l.Delivered startBlock current trace)
    (hes : ∀ e ∈ es, e.IsSilent) : l.Delivered startBlock current (trace ++ es) := by
  have hlogs : logNotifications (trace ++ es) = logNotifications trace := by
    rw [logNotifications_append, logNotifications_silent hes, List.append_nil]
  constructor
  · rw [hlogs]
    exact h.delivered
  · rw [hlogs]
    exact h.announced
  · intro n hn
    rcases List.mem_append.1 hn with hn | hn
    · exact h.noReorg n hn
    · exact (hes _ hn).2.1 n rfl
  · intro early m hearly
    exact h.processed early m (processed_before (fun e he => (hes e he).2.2 m) hearly)

theorem Delivered.append_range (h : l.Delivered startBlock current trace)
    (hstart : startBlock ≤ current + 1) (hlast : current ≤ last) (queried : List Header)
    (hns : l.notifications (current + 1) last = .ok ns) :
    l.Delivered startBlock last (trace ++ (queried.map Emission.queried ++ ns.map Emission.sent ++
      [.sent (.processed last)])) := by
  have hwhole := notifications_append hstart hlast h.delivered hns
  have hkinds := notifications_logBlock hns
  have hqueried : logNotifications (queried.map Emission.queried) = [] := by
    unfold logNotifications
    simp [Emission.log]
  have hbefore : logNotifications (trace ++ (queried.map Emission.queried ++ ns.map Emission.sent)) =
      logNotifications trace ++ ns := by
    rw [logNotifications_append, logNotifications_append, hqueried, logNotifications_sent hkinds,
      List.nil_append]
  have hlogs : logNotifications (trace ++ (queried.map Emission.queried ++ ns.map Emission.sent ++
      [.sent (.processed last)])) = logNotifications trace ++ ns := by
    rw [← List.append_assoc, logNotifications_append, hbefore]
    exact List.append_nil _
  have hother : ∀ e ∈ queried.map Emission.queried ++ ns.map Emission.sent,
      (∀ n, e ≠ .sent (.reorg n)) ∧ ∀ m, e ≠ .sent (.processed m) := by
    intro e he
    rcases List.mem_append.1 he with he | he
    · obtain ⟨b, -, rfl⟩ := List.mem_map.1 he
      constructor
      · exact fun _ => nofun
      · exact fun _ => nofun
    · obtain ⟨n, hn, rfl⟩ := List.mem_map.1 he
      have hkind := hkinds n hn
      constructor
      · intro number heq
        cases heq
        cases hkind
      · intro m heq
        cases heq
        cases hkind
  constructor
  · rw [hlogs]
    exact hwhole
  · rw [hlogs]
    exact notifications_announced hwhole
  · intro n hn
    rcases List.mem_append.1 hn with hn | hn
    · exact h.noReorg n hn
    · rcases List.mem_append.1 hn with hn | hn
      · exact (hother _ hn).1 n rfl
      · cases List.mem_singleton.1 hn
  · intro early m hearly
    rw [← List.append_assoc, List.prefix_concat_iff] at hearly
    rcases hearly with heq | hearly
    · obtain ⟨hpast, hone⟩ := List.append_inj' heq rfl
      cases hone
      rw [hpast, hbefore]
      exact hwhole
    · exact h.processed early m (processed_before (fun e he => (hother e he).2 m) hearly)

/-! The blocks of a query, and what the provider says about their logs. -/

section
variable {s : Watch} {v : L1View}

theorem Shows.subset (h : l.Shows s v) (hb : b ∈ v.chain) : b ∈ l.chain :=
  h.chain.subset hb

theorem Shows.collisionFree (h : l.Shows s v) : CollisionFree v.chain v.chain :=
  fun a ha b hb => l.hash_unique a (h.subset ha) b (h.subset hb)

theorem Shows.nextBlocks (h : l.Shows s v) (w : Watcher) :
    w.nextBlocks v = l.between (w.currentBlockNumber + 1) (w.toBlock v) := by
  have hlatest := v.latest_number
  have hto : w.toBlock v ≤ v.latest.number := Nat.min_le_right _ _
  have hrange := v.chain.filter_range (w.currentBlockNumber + 1) (w.toBlock v)
  have htake : v.chain.blocks.take (w.toBlock v + 1) = l.chain.blocks.take (w.toBlock v + 1) := by
    rw [List.prefix_iff_eq_take.1 h.chain, List.take_take, Nat.min_eq_left (by omega)]
  rw [htake] at hrange
  exact hrange

theorem Shows.notifications_iff (h : l.Shows s v) (w : Watcher) (ns : List L1Notification) :
    l.notifications (w.currentBlockNumber + 1) (w.toBlock v) = .ok ns ↔
      l.handleLogs ((w.nextBlocks v).flatMap v.logs) = .ok ns := by
  have hlogs : (w.nextBlocks v).flatMap v.logs = (w.nextBlocks v).flatMap l.logs :=
    List.flatMap_congr (fun b hb => h.logs b (Watcher.mem_nextBlocks.1 hb).1)
  have hsublist : List.Sublist (w.nextBlocks v) l.chain.blocks := by
    rw [h.nextBlocks w]
    exact (List.drop_sublist _ _).trans (List.take_sublist _ _)
  rw [hlogs, l.handleLogs_flatMap l.logs (l.transaction_unique.sublist hsublist) ns, h.nextBlocks w]
  rfl

theorem Shows.handleLogs_ok (h : l.Shows s v) (w : Watcher)
    (hns : v.handleLogs ((w.nextBlocks v).flatMap v.logs) = .ok ns) :
    l.notifications (w.currentBlockNumber + 1) (w.toBlock v) = .ok ns := by
  have hserved : ∀ b ∈ w.nextBlocks v, b ∈ v.chain := fun b hb => (Watcher.mem_nextBlocks.1 hb).1
  refine (h.notifications_iff w ns).2 (L1View.handleLogs_answers ?_ hns)
  refine answersAs_of_served v.logs hserved (fun b hb => h.subset (hserved b hb))
    (fun b hb => v.logs_block b (hserved b hb)) l.answered ?_
  intro b hb log hlog hash hhash
  rw [h.logs b (hserved b hb)] at hlog
  exact (h.transaction b (hserved b hb) log hlog hash hhash).symm

theorem Shows.handleLogs_answered (h : l.Shows s v) (hanswered : l.AnsweredBy v) (w : Watcher) :
    ∃ ns, v.handleLogs ((w.nextBlocks v).flatMap v.logs) = .ok ns ∧
      ns.length ≤ ((w.nextBlocks v).flatMap v.logs).length := by
  have hserved : ∀ b ∈ w.nextBlocks v, b ∈ v.chain := fun b hb => (Watcher.mem_nextBlocks.1 hb).1
  obtain ⟨ns, hns⟩ : ∃ ns, l.notifications (w.currentBlockNumber + 1) (w.toBlock v) = .ok ns := by
    refine collect_ok_of_forall (fun b hb => hanswered.decoded b (hserved b ?_))
    rw [h.nextBlocks w]
    exact hb
  refine ⟨ns, L1View.handleLogs_answers ?_ ((h.notifications_iff w ns).1 hns), ?_⟩
  · refine answersAs_of_served v.logs (fun b hb => h.subset (hserved b hb)) hserved
      (fun b hb => v.logs_block b (hserved b hb)) hanswered.calls ?_
    intro b hb log hlog hash hhash
    rw [h.logs b (hserved b hb)] at hlog
    exact h.transaction b (hserved b hb) log hlog hash hhash
  · have hlength := (notifications_announced hns).length_le
    have hlogs : (w.nextBlocks v).flatMap v.logs = (w.nextBlocks v).flatMap l.logs :=
      List.flatMap_congr (fun b hb => h.logs b (hserved b hb))
    rw [hlogs, h.nextBlocks w]
    unfold logsBetween at hlength
    simpa only [List.length_flatMap, List.length_map] using hlength

end
end Ledger

def Watch.height (s : Watch) : ℕ := s.served.elim 0 (fun u => u.chain.blocks.length)

namespace Ledger

/-- Where the watcher stands between two polls: behind blocks it has been served, with the end of
a beginning of the chain in mind. -/
structure Standing (l : Ledger) (startBlock range height : ℕ) (w : Watcher) : Prop where
  started : startBlock ≤ w.currentBlockNumber + 1
  reached : w.currentBlockNumber ≤ startBlock - 1 ∨ w.currentBlockNumber < height
  remembered : ∃ n, n ≤ height ∧ w.unfinalizedBlocks.data <:+ (l.chain.take n).blocks
  head : ∀ tail ∈ w.unfinalizedBlocks.data.getLast?, w.l1State.head = tail.number
  queryRange : w.logQueryBlockRange = range

structure Follows (l : Ledger) (startBlock range : ℕ) (s : Watch) : Prop where
  standing : l.Standing startBlock range s.height s.watcher
  delivered : l.Delivered startBlock s.watcher.currentBlockNumber s.trace
  bounded : ∀ u ∈ s.served, s.watcher.currentBlockNumber ≤ u.latest.number

section
variable {l : Ledger} {startBlock range height : ℕ} {s : Watch} {v : L1View} {w : Watcher}

theorem Shows.height_le (h : l.Shows s v) : s.height ≤ v.chain.blocks.length := by
  unfold Watch.height
  cases hserved : s.served with
  | none => exact Nat.zero_le _
  | some u => exact (h.grown u hserved).length_le

theorem Standing.mono (h : l.Standing startBlock range height w) {height' : ℕ}
    (hle : height ≤ height') : l.Standing startBlock range height' w where
  started := h.started
  reached := h.reached.imp_right (fun hlt => Nat.lt_of_lt_of_le hlt hle)
  remembered := by
    obtain ⟨n, hn, hsuffix⟩ := h.remembered
    exact ⟨n, Nat.le_trans hn hle, hsuffix⟩
  head := h.head
  queryRange := h.queryRange

theorem Standing.finalized (h : l.Standing startBlock range height w) (finalized : Header) :
    l.Standing startBlock range height (w.handleFinalizedBlock finalized).watcher := by
  obtain ⟨hkept, -, hrange⟩ := w.handleFinalizedBlock_keeps finalized
  have hcurrent := (w.handleFinalizedBlock_frame finalized).2.1
  obtain ⟨n, hn, hsuffix⟩ := h.remembered
  constructor
  · rw [hcurrent]
    exact h.started
  · rw [hcurrent]
    exact h.reached
  · exact ⟨n, hn, hkept.trans hsuffix⟩
  · exact w.handleFinalizedBlock_head finalized h.head
  · rw [hrange]
    exact h.queryRange

theorem Standing.current_le (h : l.Standing startBlock range height w)
    (hheight : height ≤ v.chain.blocks.length) (hstart : startBlock ≤ v.latest.number + 1) :
    w.currentBlockNumber ≤ v.latest.number := by
  have hlatest := v.latest_number
  rcases h.reached with hle | hlt
  · omega
  · omega

theorem Standing.adopts (h : l.Standing startBlock range s.height s.watcher) (hshows : l.Shows s v)
    (hroom : s.HasRoom v)
    (hok : ((s.watcher.handleFinalizedBlock v.finalized).watcher.handleLatestBlock v).result = .ok ()) :
    ∃ w' es, (s.watcher.handleFinalizedBlock v.finalized).watcher.handleLatestBlock v =
        ⟨w', es, .ok ()⟩ ∧ l.Standing startBlock range v.chain.blocks.length w' ∧
      w'.l1State.head = v.latest.number ∧
      w'.currentBlockNumber = s.watcher.currentBlockNumber ∧
      ∀ e ∈ es, e = .sent (.newBlock v.latest.blockInfo) := by
  have hcf := hshows.collisionFree
  have hfirst := h.finalized v.finalized
  obtain ⟨n, hn, hsuffix⟩ := h.remembered
  have hheight := hshows.height_le
  have hgrown : (l.chain.take n).blocks <+: v.chain.blocks := by
    refine List.prefix_of_prefix_length_le (List.take_prefix _ _) hshows.chain ?_
    have hlen : (l.chain.take n).blocks.length ≤ n := List.length_take_le _ _
    omega
  have hdata := Watcher.handleFinalizedBlock_data hcf hgrown hsuffix
  have hkept := (s.watcher.handleFinalizedBlock_keeps v.finalized).1
  have habove : ∀ b ∈ (s.watcher.handleFinalizedBlock v.finalized).watcher.unfinalizedBlocks.data,
      v.finalized.number < b.number := by
    intro b hb
    rw [hdata] at hb
    exact of_decide_eq_true (List.mem_filter.1 hb).2
  have hfits : Watcher.Fits
      (s.watcher.handleFinalizedBlock v.finalized).watcher.unfinalizedBlocks.data v := by
    rw [hdata]
    exact hroom
  obtain ⟨w', es, heq, hsuffix', hne, hhead', hcurrent', hrange', hes⟩ :=
    Watcher.handleLatestBlock_grown hcf hgrown (hkept.trans hsuffix) habove hfirst.head hfits hok
  have hcurrent := hcurrent'.trans (s.watcher.handleFinalizedBlock_frame v.finalized).2.1
  refine ⟨w', es, heq, ⟨?_, ?_, ?_, ?_, ?_⟩, hhead', hcurrent, hes⟩
  · rw [hcurrent]
    exact h.started
  · rw [hcurrent]
    exact h.reached.imp_right (fun hlt => Nat.lt_of_lt_of_le hlt hheight)
  · refine ⟨v.chain.blocks.length, Nat.le_refl _, ?_⟩
    change w'.unfinalizedBlocks.data <:+ l.chain.blocks.take v.chain.blocks.length
    rw [← List.prefix_iff_eq_take.1 hshows.chain]
    exact hsuffix'
  · intro tail htail
    rw [getLast?_suffix hsuffix' hne, v.latest_tip] at htail
    cases htail
    exact hhead'
  · rw [hrange']
    exact hfirst.queryRange

theorem Standing.indexed (h : l.Standing startBlock range v.chain.blocks.length w)
    (hcurrent : w.currentBlockNumber ≤ v.latest.number) (ns : List L1Notification) :
    l.Standing startBlock range v.chain.blocks.length (w.indexed v ns).watcher := by
  have hlatest := v.latest_number
  have hstarted := h.started
  have hto : w.toBlock v = min (w.currentBlockNumber + w.logQueryBlockRange) v.latest.number := rfl
  constructor
  · change startBlock ≤ w.toBlock v + 1
    omega
  · right
    change w.toBlock v < v.chain.blocks.length
    omega
  · exact h.remembered
  · exact h.head
  · exact h.queryRange

theorem silent_of_finalized {e : Emission} {n : ℕ} (h : e = .sent (.finalized n)) : e.IsSilent := by
  rw [h]
  exact ⟨rfl, fun _ => nofun, fun _ => nofun⟩

theorem silent_of_newBlock {e : Emission} {info : BlockInfo} (h : e = .sent (.newBlock info)) :
    e.IsSilent := by
  rw [h]
  exact ⟨rfl, fun _ => nofun, fun _ => nofun⟩

theorem silent_of_queried {blocks : List Header} (h : es = [] ∨ es = blocks.map Emission.queried) :
    ∀ e ∈ es, e.IsSilent := by
  intro e he
  rcases h with rfl | rfl
  · cases he
  · obtain ⟨b, -, rfl⟩ := List.mem_map.1 he
    exact ⟨rfl, fun _ => nofun, fun _ => nofun⟩

theorem Standing.indexNext (h : l.Standing startBlock range v.chain.blocks.length w)
    (hshows : l.Shows s v) (hhead : w.l1State.head = v.latest.number)
    (hcurrent : w.currentBlockNumber ≤ v.latest.number) {trace : List Emission}
    (hdelivered : l.Delivered startBlock w.currentBlockNumber trace) :
    l.Standing startBlock range v.chain.blocks.length (w.indexNext v).watcher ∧
      l.Delivered startBlock (w.indexNext v).watcher.currentBlockNumber
        (trace ++ (w.indexNext v).emitted) := by
  rcases w.indexNext_cases v with ⟨hindex, -⟩ | ⟨es, e, hindex, hes⟩ | ⟨ns, hindex, hns⟩
  · rw [hindex]
    exact ⟨h, hdelivered.append_silent (fun e he => by cases he)⟩
  · rw [hindex]
    exact ⟨h, hdelivered.append_silent (silent_of_queried hes)⟩
  · rw [hindex]
    refine ⟨h.indexed hcurrent ns, ?_⟩
    have hlogs := ((Watcher.nextNotifications_synced hhead _ ns).1 hns).1
    have hto : w.currentBlockNumber ≤ w.toBlock v := by
      have hdef : w.toBlock v = min (w.currentBlockNumber + w.logQueryBlockRange) v.latest.number :=
        rfl
      omega
    exact hdelivered.append_range h.started hto _ (hshows.handleLogs_ok w hlogs)

theorem Follows.of_step (hstart : startBlock ≤ v.latest.number + 1)
    (hstanding : l.Standing startBlock range v.chain.blocks.length (s.watcher.step v).watcher)
    (hdelivered : l.Delivered startBlock (s.watcher.step v).watcher.currentBlockNumber
      (s.trace ++ (s.watcher.step v).emitted)) : l.Follows startBlock range (s.poll v) where
  standing := hstanding
  delivered := hdelivered
  bounded := by
    intro u hu
    cases hu
    exact hstanding.current_le (Nat.le_refl _) hstart

theorem Follows.poll (h : l.Follows startBlock range s) (hshows : l.Shows s v)
    (hstart : startBlock ≤ v.latest.number + 1) (hroom : s.HasRoom v) :
    l.Follows startBlock range (s.poll v) := by
  have hheight := hshows.height_le
  have hfinalized : ∀ e ∈ (s.watcher.handleFinalizedBlock v.finalized).emitted, e.IsSilent :=
    fun e he => silent_of_finalized ((s.watcher.handleFinalizedBlock_frame v.finalized).2.2 e he)
  have hcurrent := (s.watcher.handleFinalizedBlock_frame v.finalized).2.1
  rcases s.watcher.step_cases v with ⟨e, hstep⟩ | ⟨e, hstep⟩ | ⟨hok, hstep⟩
  · apply Follows.of_step hstart
    · rw [hstep]
      exact h.standing.mono hheight
    · rw [hstep]
      exact h.delivered.append_silent (fun e he => by cases he)
  · apply Follows.of_step hstart
    · rw [hstep]
      exact (h.standing.finalized v.finalized).mono hheight
    · rw [hstep, hcurrent]
      exact h.delivered.append_silent hfinalized
  · obtain ⟨w', es, heq, hstanding, hhead, hsame, hes⟩ := h.standing.adopts hshows hroom hok
    have hle := hstanding.current_le (Nat.le_refl _) hstart
    have hbefore : l.Delivered startBlock w'.currentBlockNumber
        (s.trace ++ ((s.watcher.handleFinalizedBlock v.finalized).emitted ++ es)) := by
      rw [hsame]
      refine h.delivered.append_silent (fun e he => ?_)
      rcases List.mem_append.1 he with he | he
      · exact hfinalized e he
      · exact silent_of_newBlock (hes e he)
    rw [heq] at hstep
    simp only at hstep
    have htrace : s.trace ++ ((s.watcher.handleFinalizedBlock v.finalized).emitted ++
        (es ++ (w'.indexNext v).emitted)) = s.trace ++
          ((s.watcher.handleFinalizedBlock v.finalized).emitted ++ es) ++
            (w'.indexNext v).emitted := by
      simp only [List.append_assoc]
    have hnext := hstanding.indexNext hshows hhead hle hbefore
    apply Follows.of_step hstart
    · rw [hstep]
      exact hnext.1
    · rw [hstep, htrace]
      exact hnext.2

theorem Follows.poll_advances (h : l.Follows startBlock range s) (hshows : l.Shows s v)
    (hroom : s.HasRoom v) (hanswered : l.AnsweredBy v) :
    (s.poll v).watcher.currentBlockNumber =
      min (s.watcher.currentBlockNumber + range) v.latest.number := by
  have hok := Watcher.handleLatestBlock_answered
    (w := (s.watcher.handleFinalizedBlock v.finalized).watcher) (hanswered.calls .blockByNumber)
  obtain ⟨w', es, heq, hstanding, hhead, hsame, -⟩ := h.standing.adopts hshows hroom hok
  have hstep := Watcher.step_answered (w := s.watcher) hanswered.calls
  simp only [heq] at hstep
  change (s.watcher.step v).watcher.currentBlockNumber = _
  rw [hstep]
  by_cases hcurrent : v.latest.number = w'.currentBlockNumber
  · have hindex : w'.indexNext v = ⟨w', [], .ok ()⟩ := by
      unfold Watcher.indexNext
      rw [if_pos hcurrent]
    rw [hindex]
    simp only
    omega
  · obtain ⟨ns, hns, hcount⟩ := hshows.handleLogs_answered hanswered w'
    have hindex := Watcher.indexNext_of_ok hcurrent (hanswered.calls .logs)
      ((Watcher.nextNotifications_synced hhead _ ns).2 ⟨hns, hcount⟩)
    rw [hindex]
    change min (w'.currentBlockNumber + w'.logQueryBlockRange) v.latest.number = _
    rw [hsame, hstanding.queryRange]

theorem notifications_start (l : Ledger) (startBlock : ℕ) :
    l.notifications startBlock (startBlock - 1) = .ok [] := by
  unfold notifications between
  cases startBlock with
  | succ n =>
    rw [List.drop_eq_nil_of_le (by rw [List.length_take]; omega)]
    rfl
  | zero =>
    cases hblocks : l.chain.blocks with
    | nil => rfl
    | cons b blocks =>
      have hget : l.chain.blocks[0]? = some b := by rw [hblocks]; rfl
      have hsilent := l.genesis_silent b (l.chain.mem_of_getElem? hget) (l.chain.numbered 0 b hget)
      refine (collect_cons _ b [] []).2 ⟨[], [], ?_, rfl, rfl⟩
      rw [hsilent]
      rfl

theorem follows_start (l : Ledger) (l1State : L1State) (startBlock range : ℕ) :
    l.Follows startBlock range (Watch.start l1State (startBlock - 1) range) := by
  have hnone := l.notifications_start startBlock
  refine ⟨⟨?_, Or.inl (Nat.le_refl _), ⟨0, Nat.le_refl 0, List.nil_suffix⟩, ?_, rfl⟩,
    ⟨hnone, notifications_announced hnone, fun n hn => (List.not_mem_nil hn).elim, ?_⟩,
    fun u hu => (Option.not_mem_none u hu).elim⟩
  · change startBlock ≤ startBlock - 1 + 1
    omega
  · intro tail htail
    cases htail
  · intro early m hearly
    have hnil := List.prefix_nil.1 hearly
    exact absurd hnil (List.append_ne_nil_of_right_ne_nil _ (List.cons_ne_nil _ _))

/-- Polls of a growing chain keep the logs delivered, as long as there is room. -/
theorem Follows.run {views : List L1View} (h : l.Follows startBlock range s)
    (hviews : Meets Watch.poll (fun s v => (l.Shows s v ∧ startBlock ≤ v.latest.number + 1) ∧
      s.HasRoom v) s views) : l.Follows startBlock range (run Watch.poll s views) := by
  refine hviews.invariant Watch.poll (fun s => l.Follows startBlock range s) ?_ h
  intro s v hfollows hview
  exact hfollows.poll hview.1.1 hview.1.2 hview.2

theorem Follows.catches_up {later : List L1View} (h : l.Follows startBlock range s)
    (hviews : Meets Watch.poll (fun s v => (l.Shows s v ∧ startBlock ≤ v.latest.number + 1) ∧
      s.HasRoom v) s later) (hanswered : ∀ v ∈ later, l.AnsweredBy v) {m : ℕ}
    (hm : ∀ v ∈ later, m ≤ v.latest.number)
    (hle : m ≤ s.watcher.currentBlockNumber + range * later.length) :
    m ≤ (GuardedRuns.run Watch.poll s later).watcher.currentBlockNumber := by
  induction later generalizing s with
  | nil => exact hle
  | cons v later ih =>
    obtain ⟨⟨⟨hshows, hstart⟩, hroom⟩, hrest⟩ := hviews
    have hadvances := h.poll_advances hshows hroom (hanswered v List.mem_cons_self)
    have hlatest := hm v List.mem_cons_self
    refine ih (h.poll hshows hstart hroom) hrest
      (fun u hu => hanswered u (List.mem_cons_of_mem v hu))
      (fun u hu => hm u (List.mem_cons_of_mem v hu)) ?_
    rw [List.length_cons, Nat.mul_succ] at hle
    omega

end
end Ledger

/-- Every log from the start block on is announced once and in order whatever calls fail, and polls
that are answered come to every block. -/
theorem logs_delivered_once (l : Ledger) (l1State : L1State) (startBlock range : ℕ)
    (views : List L1View)
    (hshows : Meets Watch.poll l.Shows (Watch.start l1State (startBlock - 1) range) views)
    (hstart : ∀ v ∈ views, startBlock ≤ v.latest.number + 1)
    (hroom : Meets Watch.poll Watch.HasRoom (Watch.start l1State (startBlock - 1) range) views) :
    let s := run Watch.poll (Watch.start l1State (startBlock - 1) range) views
    l.Delivered startBlock s.watcher.currentBlockNumber s.trace ∧
      (∀ v ∈ s.served, s.watcher.currentBlockNumber ≤ v.latest.number) ∧
      ∀ earlier later, views = earlier ++ later → (∀ v ∈ later, l.AnsweredBy v) →
        ∀ m, (∀ v ∈ later, m ≤ v.latest.number) →
          m ≤ (run Watch.poll (Watch.start l1State (startBlock - 1) range)
            earlier).watcher.currentBlockNumber + range * later.length →
          m ≤ s.watcher.currentBlockNumber := by
  have hviews := (hshows.and Watch.poll (meets_of_forall Watch.poll hstart _)).and Watch.poll hroom
  have hfollows := (l.follows_start l1State startBlock range).run hviews
  refine ⟨hfollows.delivered, hfollows.bounded, ?_⟩
  intro earlier later heq hanswered m hm hle
  rw [heq] at hviews ⊢
  obtain ⟨hearlier, hlater⟩ := (meets_append Watch.poll _ _ earlier later).1 hviews
  rw [run_append]
  exact ((l.follows_start l1State startBlock range).run hearlier).catches_up hlater hanswered hm hle

/-! An L1 of numbered blocks with one message in each of them. -/

def countedHeader (i : ℕ) : Header := header i (BitVec.ofNat 256 (i + 1)) (BitVec.ofNat 256 i)

theorem getElem?_countedHeaders {n i : ℕ} (h : ((List.range n).map countedHeader)[i]? = some b) :
    i < n ∧ b = countedHeader i := by
  rw [List.getElem?_map, Option.map_eq_some_iff] at h
  obtain ⟨k, hk, rfl⟩ := h
  obtain ⟨hlt, heq⟩ := List.getElem?_eq_some_iff.1 hk
  rw [List.length_range] at hlt
  rw [List.getElem_range] at heq
  rw [← heq]
  exact ⟨hlt, rfl⟩

def countedChain (n : ℕ) : Chain Header where
  blocks := (List.range (n + 1)).map countedHeader
  numbered := by
    intro i b h
    rw [(getElem?_countedHeaders h).2]
    rfl
  linked := by
    intro i a b ha hb
    rw [(getElem?_countedHeaders ha).2, (getElem?_countedHeaders hb).2]
    rfl

theorem mem_countedChain {n : ℕ} : b ∈ countedChain n ↔ ∃ i, i ≤ n ∧ b = countedHeader i := by
  change b ∈ (List.range (n + 1)).map countedHeader ↔ _
  rw [List.mem_map]
  constructor
  · rintro ⟨i, hi, rfl⟩
    rw [List.mem_range] at hi
    exact ⟨i, by omega, rfl⟩
  · rintro ⟨i, hi, rfl⟩
    exact ⟨i, List.mem_range.2 (by omega), rfl⟩

def countedLogs (b : Header) : List Log :=
  if b.number = 0 then []
  else [⟨.queueTransaction b.number 21000 b.hash, some b.number, some b.hash, some b.timestamp,
    some b.hash⟩]

def countedView (n finalized : ℕ) (hfinalized : finalized ≤ n) (fails : RpcCall → Bool) : L1View where
  chain := countedChain n
  finalized := countedHeader finalized
  finalized_mem := mem_countedChain.2 ⟨finalized, hfinalized, rfl⟩
  latest := countedHeader n
  latest_tip := by
    change ((List.range (n + 1)).map countedHeader).getLast? = _
    rw [List.range_succ, List.map_append, List.map_singleton, List.getLast?_append]
    rfl
  logs := countedLogs
  logs_block := by
    intro b _ log hlog
    unfold countedLogs at hlog
    split at hlog
    · cases hlog
    · rw [List.mem_singleton.1 hlog]
      exact ⟨fun n hn => (Option.some.inj hn).symm, fun h hh => (Option.some.inj hh).symm⟩
  transaction _ := none
  authorizedSigner := 0
  fails := fails

theorem countedHeader_hash_inj {i j : ℕ} (hi : i + 1 < 2 ^ 256) (hj : j + 1 < 2 ^ 256)
    (h : (countedHeader i).hash = (countedHeader j).hash) : i = j := by
  have hnat : (BitVec.ofNat 256 (i + 1)).toNat = (BitVec.ofNat 256 (j + 1)).toNat :=
    congrArg BitVec.toNat h
  rw [BitVec.toNat_ofNat, BitVec.toNat_ofNat, Nat.mod_eq_of_lt hi, Nat.mod_eq_of_lt hj] at hnat
  omega

theorem countedChain_collisionFree {n : ℕ} (hn : n + 1 < 2 ^ 256) :
    CollisionFree (countedChain n) (countedChain n) := by
  intro a ha b hb hhash
  obtain ⟨i, hi, rfl⟩ := mem_countedChain.1 ha
  obtain ⟨j, hj, rfl⟩ := mem_countedChain.1 hb
  rw [countedHeader_hash_inj (by omega) (by omega) hhash]

theorem countedLogs_separate {a : Header} (h : a.hash ≠ b.hash) :
    SeparateTransactions (countedLogs a) (countedLogs b) := by
  intro log hlog log' hlog' hash hhash hhash'
  unfold countedLogs at hlog hlog'
  split at hlog
  · cases hlog
  split at hlog'
  · cases hlog'
  rw [List.mem_singleton.1 hlog] at hhash
  rw [List.mem_singleton.1 hlog'] at hhash'
  exact h ((Option.some.inj hhash).trans (Option.some.inj hhash').symm)

def countedLedger (n : ℕ) (hn : n + 1 < 2 ^ 256) : Ledger where
  toL1View := countedView n 0 (Nat.zero_le n) (fun _ => false)
  hash_unique := countedChain_collisionFree hn
  transaction_unique := by
    change ((List.range (n + 1)).map countedHeader).Pairwise _
    rw [List.pairwise_map]
    refine List.pairwise_lt_range.imp_of_mem ?_
    intro i j hi hj hlt
    apply countedLogs_separate
    intro hhash
    rw [List.mem_range] at hi hj
    have heq := countedHeader_hash_inj (by omega) (by omega) hhash
    omega
  genesis_silent := by
    intro b _ hzero
    exact if_pos hzero
  answered _ := rfl

theorem countedChain_grows {m n : ℕ} (h : n ≤ m) :
    (countedChain n).blocks <+: (countedChain m).blocks := by
  change (List.range (n + 1)).map countedHeader <+: (List.range (m + 1)).map countedHeader
  have hrange : List.range (m + 1) = List.range (n + 1) ++ (List.range (m - n)).map (n + 1 + ·) := by
    rw [← List.range_add]
    congr 1
    omega
  rw [hrange, List.map_append]
  exact List.prefix_append _ _

theorem countedLedger_shows {m n : ℕ} (hn : n + 1 < 2 ^ 256) (hm : m ≤ n) {finalized : ℕ}
    (hfinalized : finalized ≤ m) (fails : RpcCall → Bool) {s : Watch}
    (hserved : ∀ u ∈ s.served, ∃ k, k ≤ m ∧ u.chain = countedChain k) :
    (countedLedger n hn).Shows s (countedView m finalized hfinalized fails) where
  chain := countedChain_grows hm
  grown := by
    intro u hu
    obtain ⟨k, hk, heq⟩ := hserved u hu
    rw [heq]
    exact countedChain_grows hk
  logs _ _ := rfl
  transaction _ _ _ _ _ _ := rfl

theorem countedLedger_answeredBy {m n : ℕ} (hn : n + 1 < 2 ^ 256) {finalized : ℕ}
    (hfinalized : finalized ≤ m) :
    (countedLedger n hn).AnsweredBy (countedView m finalized hfinalized (fun _ => false)) where
  calls _ := rfl
  decoded := by
    intro b _
    change ∃ ns, (countedLedger n hn).handleLogs (countedLogs b) = .ok ns
    unfold countedLogs
    split
    · exact ⟨[], rfl⟩
    · exact ⟨[_], rfl⟩

def firstView : L1View := countedView 1 0 (by decide) (fun _ => false)

def growingViews : List L1View :=
  [firstView,
    countedView 3 1 (by decide) (fun rpc => rpc = .logs),
    countedView 3 1 (by decide) (fun _ => false), countedView 3 1 (by decide) (fun _ => false)]

theorem logs_delivered_once_growingViews :
    let s := run Watch.poll (Watch.start ⟨1, 0⟩ (1 - 1) 1) growingViews
    (countedLedger 3 (by decide)).Delivered 1 s.watcher.currentBlockNumber s.trace ∧
      3 ≤ s.watcher.currentBlockNumber := by
  have hshows : Meets Watch.poll (countedLedger 3 (by decide)).Shows
      (Watch.start ⟨1, 0⟩ (1 - 1) 1) growingViews := by
    refine ⟨countedLedger_shows _ (by decide) _ _ ?_, countedLedger_shows _ (by decide) _ _ ?_,
      countedLedger_shows _ (by decide) _ _ ?_, countedLedger_shows _ (by decide) _ _ ?_, trivial⟩
    · rintro u ⟨⟩
    · rintro u ⟨⟩
      exact ⟨1, by decide, rfl⟩
    · rintro u ⟨⟩
      exact ⟨3, by decide, rfl⟩
    · rintro u ⟨⟩
      exact ⟨3, by decide, rfl⟩
  have hroom : Meets Watch.poll Watch.HasRoom (Watch.start ⟨1, 0⟩ (1 - 1) 1) growingViews :=
    ⟨Watch.hasRoom_of_near _ (by decide), Watch.hasRoom_of_near _ (by decide),
      Watch.hasRoom_of_near _ (by decide), Watch.hasRoom_of_near _ (by decide), trivial⟩
  have hresult := logs_delivered_once (countedLedger 3 (by decide)) ⟨1, 0⟩ 1 1 growingViews hshows
    (by decide) hroom
  refine ⟨hresult.1, hresult.2.2 (growingViews.take 2) (growingViews.drop 2) rfl ?_ 3 (by decide) ?_⟩
  · intro v hv
    rcases List.mem_cons.1 hv with rfl | hv
    · exact countedLedger_answeredBy _ _
    · rw [List.mem_singleton.1 hv]
      exact countedLedger_answeredBy _ _
  · decide

/-- The chain grows from block 1 to block 193 between two polls while genesis stays finalized:
block 1 is forgotten and reported as replaced. -/
theorem evicted_block_is_reported :
    let views := [countedView 1 0 (by decide) (fun _ => false),
      countedView 193 0 (by decide) (fun _ => false)]
    let s := run Watch.poll (Watch.start ⟨1, 0⟩ (1 - 1) 500) views
    Meets Watch.poll (countedLedger 193 (by decide)).Shows (Watch.start ⟨1, 0⟩ (1 - 1) 500) views ∧
      (∀ v ∈ views, 1 ≤ v.latest.number + 1) ∧ .sent (.reorg 0) ∈ s.trace ∧
      ¬(countedLedger 193 (by decide)).Delivered 1 s.watcher.currentBlockNumber s.trace := by
  intro views s
  let s₁ := Watch.poll (Watch.start ⟨1, 0⟩ (1 - 1) 500) (countedView 1 0 (by decide) (fun _ => false))
  let v := countedView 193 0 (by decide) (fun _ => false)
  have hdata : s₁.watcher.unfinalizedBlocks.data = [countedHeader 1] := by decide
  have hsuffix : s₁.watcher.unfinalizedBlocks.data <:+ (countedChain 1).blocks := by
    rw [hdata]
    exact ⟨[countedHeader 0], rfl⟩
  have hcf : CollisionFree v.chain v.chain := countedChain_collisionFree (by decide)
  have hgrown : (countedChain 1).blocks <+: v.chain.blocks := countedChain_grows (by decide)
  have hkept : (s₁.watcher.handleFinalizedBlock v.finalized).watcher.unfinalizedBlocks.data =
      [countedHeader 1] := by
    rw [Watcher.handleFinalizedBlock_data hcf hgrown hsuffix, hdata]
    decide
  have habove : ∀ b ∈ (s₁.watcher.handleFinalizedBlock v.finalized).watcher.unfinalizedBlocks.data,
      v.finalized.number < b.number := by
    rw [hkept]
    decide
  have hfull : ¬Watcher.Fits
      (s₁.watcher.handleFinalizedBlock v.finalized).watcher.unfinalizedBlocks.data v := by
    rw [hkept]
    intro hfits
    exact absurd (hfits _ rfl _ rfl) (by decide)
  have hreorg : .sent (.reorg 0) ∈ s.trace := by
    obtain ⟨first, hfirst, hemitted⟩ := Watcher.handleLatestBlock_evicts hcf hgrown
      ((s₁.watcher.handleFinalizedBlock_keeps v.finalized).1.trans hsuffix) habove hfull rfl
    rw [hkept] at hfirst
    rw [List.mem_singleton.1 hfirst] at hemitted
    have hstep := Watcher.step_answered (w := s₁.watcher) (v := v) (fun _ => rfl)
    change _ ∈ s₁.trace ++ (s₁.watcher.step v).emitted
    rw [hstep, hemitted]
    refine List.mem_append_right _ (List.mem_append_right _ (List.mem_append_left _ ?_))
    exact List.mem_cons_self
  refine ⟨⟨countedLedger_shows _ (by decide) _ _ ?_, countedLedger_shows _ (by decide) _ _ ?_, trivial⟩,
    by decide, hreorg, fun hdelivered => hdelivered.noReorg 0 hreorg⟩
  · rintro u ⟨⟩
  · rintro u ⟨⟩
    exact ⟨1, by decide, rfl⟩

end RollupNode
