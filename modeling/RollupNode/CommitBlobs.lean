import RollupNode.WatcherDelivery

set_option autoImplicit false

/-! The blob hash that a batch commit is announced with: its place in its run of logs chooses it. -/
namespace RollupNode
open ExceptTraversal GroupedTraversal

def Log.commitsBefore (log : Log) (before : List Log) : ℕ := (before.filter log.commitsWith).length

/-- Every log is announced in its order, a commit with the calldata of its transaction and the blob
hash at its place among all commits of the transaction. -/
def OwnBlobs (v : L1View) (logs : List Log) (ns : List L1Notification) : Prop :=
  Matches (fun entry o => Reports entry.2 o ∧
    CarriesBlob v (entry.2.commitsBefore entry.1) entry.2 o) (inContext [] logs) ns

/-- The blob hash at the place of a commit in its run is the one at its place in the
transaction. -/
def SameBlobs (v : L1View) (logs : List Log) : Prop :=
  ∀ (i : ℕ) (log : Log) (index : ℕ) (hash txHash : B256) (tx : L1Transaction),
    logs[i]? = some log → log.event = .commitBatch index hash → index ≠ 0 →
    log.transactionHash = some txHash → v.transaction txHash = some tx →
    tx.blobVersionedHashes.bind (·[log.placeInRun (logs.take i)]?) =
      tx.blobVersionedHashes.bind (·[log.commitsBefore (logs.take i)]?)

/-- Between two commits of a transaction there are only commits of it. -/
def OneRun (logs : List Log) : Prop :=
  ∀ before a between b after, logs = before ++ a :: (between ++ b :: after) →
    b.event.signature = .commitBatch → b.commitsWith a = true → ∀ x ∈ between, b.commitsWith x = true

theorem Reports.none_iff {log : Log} {o o' : Option L1Notification} (h : Reports log o)
    (h' : Reports log o') : o = none ↔ o' = none := by
  obtain ⟨info, h⟩ := h
  obtain ⟨info', h'⟩ := h'
  generalize log.event = event at h h'
  cases h <;> cases h' <;> simp_all

theorem ownBlobs_iff {v : L1View} {logs : List Log} {ns : List L1Notification}
    (h : v.handleLogs logs = .ok ns) :
    OwnBlobs v logs ns ↔ SameBlobs v logs := by
  have hruns := L1View.handleLogs_inRun h
  constructor
  · rintro ⟨results, howns, hns⟩ i log index hash txHash tx hget hevent hne hhash htx
    obtain ⟨results', hruns, hns'⟩ := hruns
    have heq : results' = results := forall₂_unique
      (R := fun entry o => Reports (Prod.snd (α := List Log) entry) o)
      (fun entry o o' ho ho' => ho.none_iff ho') (hruns.imp fun _ _ ho => ho.1.reports)
      (howns.imp fun _ _ ho => ho.1) (hns'.symm.trans hns)
    subst heq
    have hentry : (inContext [] logs)[i]? = some (logs.take i, log) := by
      rw [getElem?_inContext, hget]
      rfl
    obtain ⟨o, ho, -, hcarries⟩ := forall₂_getElem? howns hentry
    obtain ⟨o', ho', -, hcarries'⟩ := forall₂_getElem? hruns hentry
    obtain rfl : o = o' := Option.some.inj (ho.symm.trans ho')
    obtain ⟨_, tx₁, info, data, hhash₁, htx₁, rfl, -, -, hblob⟩ := hcarries index hash hevent hne
    obtain ⟨_, tx₂, _, _, hhash₂, htx₂, hsame, -, -, hblob'⟩ := hcarries' index hash hevent hne
    cases hsame
    cases hhash.symm.trans hhash₁
    cases hhash.symm.trans hhash₂
    cases htx.symm.trans htx₁
    cases htx.symm.trans htx₂
    exact hblob'.symm.trans hblob
  · intro hsame
    refine hruns.mono ?_
    rintro ⟨before, log⟩ hentry o ⟨hhandled, hcarries⟩
    refine ⟨hhandled.reports, ?_⟩
    intro index hash hevent hne
    obtain ⟨txHash, tx, info, data, hhash, htx, ho, hbatch, hcalldata, hblob⟩ :=
      hcarries index hash hevent hne
    obtain ⟨i, hget, hbefore⟩ := mem_inContext hentry
    have hplace := hsame i log index hash txHash tx hget hevent hne hhash htx
    refine ⟨txHash, tx, info, data, hhash, htx, ho, hbatch, hcalldata, ?_⟩
    rw [List.nil_append] at hbefore
    simp only at hbefore hblob
    rw [hblob, hbefore, hplace]

/-- No log splits a transaction's commits exactly when each place in a run is that in the
transaction. -/
theorem oneRun_iff (logs : List Log) :
    OneRun logs ↔ ∀ (i : ℕ) (log : Log), logs[i]? = some log → log.event.signature = .commitBatch →
      log.placeInRun (logs.take i) = log.commitsBefore (logs.take i) := by
  unfold Log.placeInRun Log.commitsBefore
  simp only [runLength_eq_iff]
  constructor
  · intro hone i log hget hcommit front a back htake ha
    have hlt := (List.getElem?_eq_some_iff.1 hget).1
    refine hone front a back log (logs.drop (i + 1)) ?_ hcommit ha
    calc logs = logs.take i ++ logs.drop i := (List.take_append_drop i logs).symm
      _ = (front ++ a :: back) ++ log :: logs.drop (i + 1) := by
        rw [htake, List.drop_eq_getElem_cons hlt, (List.getElem?_eq_some_iff.1 hget).2]
      _ = front ++ a :: (back ++ log :: logs.drop (i + 1)) := by simp
  · rintro hplaces before a between b after rfl hcommit ha
    have hlogs : before ++ a :: (between ++ b :: after) = (before ++ a :: between) ++ b :: after := by
      simp
    have hget : (before ++ a :: (between ++ b :: after))[(before ++ a :: between).length]? = some b := by
      rw [hlogs, List.getElem?_append_right (Nat.le_refl _), Nat.sub_self]
      rfl
    refine hplaces (before ++ a :: between).length b hget hcommit before a between ?_ ha
    rw [hlogs, List.take_left]

theorem sameBlobs_of_oneRun (v : L1View) {logs : List Log} (h : OneRun logs) : SameBlobs v logs := by
  intro i log index hash txHash tx hget hevent _ _ _
  rw [(oneRun_iff logs).1 h i log hget (by rw [hevent]; rfl)]

def queriedBlocks (trace : List Emission) : List Header :=
  trace.filterMap fun e => match e with
    | .queried block => some block
    | .sent _ => none

theorem queriedBlocks_append (trace es : List Emission) :
    queriedBlocks (trace ++ es) = queriedBlocks trace ++ queriedBlocks es := List.filterMap_append

theorem queriedBlocks_sent (ns : List L1Notification) : queriedBlocks (ns.map .sent) = [] := by
  unfold queriedBlocks
  rw [List.filterMap_map, List.filterMap_eq_nil_iff]
  exact fun _ _ => rfl

theorem queriedBlocks_queried (blocks : List Header) :
    queriedBlocks (blocks.map .queried) = blocks := by
  unfold queriedBlocks
  rw [List.filterMap_map]
  exact List.filterMap_some

namespace Watcher

def Quiet (es : List Emission) : Prop := queriedBlocks es = [] ∧ logNotifications es = []

theorem handleFinalizedBlock_quiet (w : Watcher) (finalized : Header) :
    Quiet (w.handleFinalizedBlock finalized).emitted := by
  have hall := (w.handleFinalizedBlock_frame finalized).2.2
  constructor
  · unfold queriedBlocks
    rw [List.filterMap_eq_nil_iff]
    intro e he
    rw [hall e he]
  · unfold logNotifications
    rw [List.filterMap_eq_nil_iff]
    intro e he
    rw [hall e he]
    rfl

theorem handleLatestBlock_quiet (w : Watcher) (v : L1View) :
    Quiet (w.handleLatestBlock v).emitted := by
  rcases w.handleLatestBlock_cases v with ⟨_, -, -, heq⟩ | ⟨_, -, -, -, heq⟩ | ⟨_, -, heq⟩ |
    ⟨chain, -, -, heq⟩
  · rw [heq]
    exact ⟨rfl, rfl⟩
  · rw [heq]
    exact ⟨rfl, rfl⟩
  · rw [heq]
    exact ⟨rfl, rfl⟩
  · rw [heq]
    cases hdiv : LinkedChain.divergence w.unfinalizedBlocks.data chain.data with
    | none =>
      rw [reorged_none hdiv]
      exact ⟨rfl, rfl⟩
    | some found =>
      rw [reorged_some hdiv]
      exact ⟨rfl, rfl⟩

theorem logNotifications_next {w : Watcher} {v : L1View} {logs : List Log}
    {ns : List L1Notification} (h : w.nextNotifications v logs = .ok ns) :
    v.handleLogs logs = .ok (logNotifications (ns.map .sent)) := by
  obtain ⟨found, update, hfound, rfl, hsigner⟩ := nextNotifications_ok h
  have hlogs : logNotifications (found.map Emission.sent) = found := by
    apply logNotifications_sent
    intro n hn
    obtain ⟨_, -, info, -, hblock⟩ := L1View.exists_log_of_handleLogs hfound hn
    rw [hblock]
    rfl
  have hrest : logNotifications (update.toList.map Emission.sent) = [] := by
    cases update with
    | none => rfl
    | some n =>
      rw [hsigner n rfl]
      rfl
  rw [List.map_append, logNotifications_append, hlogs, hrest, List.append_nil]
  exact hfound

theorem step_notifications {w : Watcher} {v : L1View} (hok : (w.step v).result = .ok ()) :
    v.handleLogs ((queriedBlocks (w.step v).emitted).flatMap v.logs) =
      .ok (logNotifications (w.step v).emitted) := by
  rcases w.step_cases v with ⟨e, heq⟩ | ⟨e, heq⟩ | ⟨-, heq⟩
  · rw [heq] at hok
    cases hok
  · rw [heq] at hok
    cases hok
  · obtain ⟨hfirst, hfirst'⟩ := w.handleFinalizedBlock_quiet v.finalized
    obtain ⟨hsecond, hsecond'⟩ := (w.handleFinalizedBlock v.finalized).watcher.handleLatestBlock_quiet v
    generalize ((w.handleFinalizedBlock v.finalized).watcher.handleLatestBlock v).watcher = u at heq
    rw [heq] at hok ⊢
    simp only [queriedBlocks_append, logNotifications_append, hfirst, hfirst', hsecond, hsecond',
      List.nil_append]
    rcases u.indexNext_cases v with ⟨hnext, -⟩ | ⟨es, e, hnext, -⟩ | ⟨ns, hnext, hns⟩
    · rw [hnext]
      rfl
    · rw [hnext] at hok
      cases hok
    · have hqueried : logNotifications ((u.nextBlocks v).map Emission.queried) = [] := by
        unfold logNotifications
        rw [List.filterMap_map, List.filterMap_eq_nil_iff]
        exact fun _ _ => rfl
      have hprocessed : queriedBlocks [.sent (.processed (u.toBlock v))] = [] ∧
          logNotifications [.sent (.processed (u.toBlock v))] = [] := ⟨rfl, rfl⟩
      rw [hnext]
      simp only [indexed, queriedBlocks_append, logNotifications_append, queriedBlocks_queried,
        queriedBlocks_sent, hqueried, hprocessed, List.append_nil, List.nil_append]
      exact logNotifications_next hns

end Watcher

/-- Complete logs are announced one by one in their order. The commits carry the blob hashes of
their places in their transactions exactly when those are the ones of their places in their runs;
these places agree exactly when no other log stands between two commits of a transaction. What a
poll sends about logs is what the logs of the queried blocks give. -/
theorem commits_ownBlobs_iff (v : L1View) (logs : List Log) (hlogs : ∀ log ∈ logs, log.Complete v)
    (hcall : v.fails .transaction = false) :
    (∃ ns, v.handleLogs logs = .ok ns ∧ Matches Reports logs ns ∧
      (OwnBlobs v logs ns ↔ SameBlobs v logs)) ∧
    (OneRun logs ↔ ∀ (i : ℕ) (log : Log), logs[i]? = some log →
      log.event.signature = .commitBatch →
        log.placeInRun (logs.take i) = log.commitsBefore (logs.take i)) ∧
    (OneRun logs → SameBlobs v logs) ∧
    ∀ w : Watcher, (w.step v).result = .ok () →
      v.handleLogs ((queriedBlocks (w.step v).emitted).flatMap v.logs) =
        .ok (logNotifications (w.step v).emitted) := by
  refine ⟨?_, oneRun_iff logs, sameBlobs_of_oneRun v, fun w hok => Watcher.step_notifications hok⟩
  obtain ⟨ns, hns⟩ := L1View.handleLogs_complete hcall hlogs
  refine ⟨ns, hns, (L1View.handleLogs_handled hns).mono ?_, ownBlobs_iff hns⟩
  exact fun _ _ _ ho => ho.reports

def blobView : L1View :=
  { firstView with
    transaction := fun _ => some ⟨[], some [61, 62]⟩ }

def logOf (event : LogEvent) : Log := ⟨event, some 1, some 2, some 0, some 9⟩

theorem logOf_complete {event : LogEvent} (h : event.Decoded) : (logOf event).Complete blobView :=
  ⟨h, ⟨⟨1, 2⟩, rfl, 0, rfl⟩, 9, ⟨[], some [61, 62]⟩, rfl, rfl⟩

/-- Two commits of one transaction, with a log of another one behind them. -/
theorem commits_ownBlobs_iff_oneRun :
    ∃ ns, blobView.handleLogs [logOf (.commitBatch 1 11), logOf (.commitBatch 2 12),
        logOf (.queueTransaction 0 21000 100)] = .ok ns ∧
      OwnBlobs blobView [logOf (.commitBatch 1 11), logOf (.commitBatch 2 12),
        logOf (.queueTransaction 0 21000 100)] ns := by
  have hlogs : ∀ log ∈ [logOf (.commitBatch 1 11), logOf (.commitBatch 2 12),
      logOf (.queueTransaction 0 21000 100)], log.Complete blobView := by
    simp only [List.mem_cons, List.not_mem_nil, or_false, forall_eq_or_imp, forall_eq]
    exact ⟨logOf_complete (show 1 < 2 ^ 64 by decide), logOf_complete (show 2 < 2 ^ 64 by decide),
      logOf_complete trivial⟩
  obtain ⟨⟨ns, hns, -, hiff⟩, hplaces, hsame, -⟩ := commits_ownBlobs_iff blobView _ hlogs rfl
  refine ⟨ns, hns, hiff.2 (hsame (hplaces.2 ?_))⟩
  intro i log hget _
  rcases i with _ | _ | _ | i
  · cases hget
    rfl
  · cases hget
    rfl
  · cases hget
    rfl
  · cases hget

/-- A message between the two commits of a transaction: the second batch is announced with the blob
of the first. -/
theorem split_run_repeats_blob :
    ∃ first message second, blobView.handleLogs [logOf (.commitBatch 1 11),
        logOf (.queueTransaction 0 21000 100), logOf (.commitBatch 2 12)] =
        .ok [.batchCommit ⟨1, 2⟩ first, message, .batchCommit ⟨1, 2⟩ second] ∧
      first.blobVersionedHash = some 61 ∧ second.blobVersionedHash = some 61 ∧
      ¬OwnBlobs blobView [logOf (.commitBatch 1 11), logOf (.queueTransaction 0 21000 100),
        logOf (.commitBatch 2 12)]
        [.batchCommit ⟨1, 2⟩ first, message, .batchCommit ⟨1, 2⟩ second] := by
  refine ⟨_, _, _, rfl, rfl, rfl, ?_⟩
  rw [ownBlobs_iff rfl]
  intro hsame
  have hblob := hsame 2 _ 2 12 9 ⟨[], some [61, 62]⟩ rfl rfl (by decide) rfl rfl
  revert hblob
  decide

end RollupNode
