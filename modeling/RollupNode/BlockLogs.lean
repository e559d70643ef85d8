import RollupNode.GroupedTraversal
import RollupNode.Watcher

set_option autoImplicit false

/-! The notifications that the logs of a query give, in the order of the logs. -/
namespace RollupNode
open ExceptTraversal GroupedTraversal

def SeparateTransactions (logs logs' : List Log) : Prop :=
  ∀ log ∈ logs, ∀ log' ∈ logs', ∀ hash, log.transactionHash = some hash →
    log'.transactionHash ≠ some hash

/-- What a log of a block is announced as. The genesis batch is not announced. -/
inductive Announces (info : BlockInfo) : LogEvent → Option L1Notification → Prop where
  | l1Message (queueIndex gasLimit : ℕ) (txHash : B256) (timestamp : ℕ) :
      Announces info (.queueTransaction queueIndex gasLimit txHash)
        (some (.l1Message ⟨queueIndex, min gasLimit (2 ^ 64 - 1), txHash⟩ info timestamp))
  | batchCommit (index : ℕ) (batchHash : B256) (data : BatchCommitData) (hindex : index ≠ 0)
      (hbatch : data.index = index ∧ data.hash = batchHash) (hblock : data.blockNumber = info.number) :
      Announces info (.commitBatch index batchHash) (some (.batchCommit info data))
  | genesisCommit (batchHash : B256) : Announces info (.commitBatch 0 batchHash) none
  | batchFinalization (index : ℕ) (batchHash : B256) (hindex : index ≠ 0) :
      Announces info (.finalizeBatch index batchHash) (some (.batchFinalization batchHash index info))
  | genesisFinalization (batchHash : B256) : Announces info (.finalizeBatch 0 batchHash) none
  | batchRevert (index : ℕ) (batchHash : B256) :
      Announces info (.revertBatch index batchHash) (some (.batchRevert ⟨index, batchHash⟩ info))
  | batchRevertRange (first last : ℕ) :
      Announces info (.revertBatchRange first last) (some (.batchRevertRange first last info))

theorem Announces.logBlock {info : BlockInfo} {event : LogEvent} {n : L1Notification}
    (h : Announces info event (some n)) : n.logBlock = some info := by
  cases h <;> rfl

def Reports (log : Log) (o : Option L1Notification) : Prop := ∃ info, Announces info log.event o

/-- The block of the announcement is that of one of the logs. -/
def HandledAs (logs : List Log) (log : Log) (o : Option L1Notification) : Prop :=
  ∃ info, Announces info log.event o ∧ (o.isSome → ∃ source ∈ logs, source.blockInfo = .ok info)

theorem HandledAs.reports {logs : List Log} {log : Log} {o : Option L1Notification}
    (h : HandledAs logs log o) : Reports log o := by
  obtain ⟨info, hannounces, -⟩ := h
  exact ⟨info, hannounces⟩

theorem HandledAs.mono {logs logs' : List Log} {log : Log} {o : Option L1Notification}
    (h : HandledAs logs log o) (hsub : ∀ log ∈ logs, log ∈ logs') : HandledAs logs' log o := by
  obtain ⟨info, hannounces, hsource⟩ := h
  refine ⟨info, hannounces, ?_⟩
  intro ho
  obtain ⟨source, hmem, hinfo⟩ := hsource ho
  exact ⟨source, hsub source hmem, hinfo⟩

theorem require_eq_ok {α : Type} {value : Option α} {e : FilterLogError} {a : α} :
    require value e = .ok a ↔ value = some a := by
  cases value with
  | none => simp [require]
  | some b => simp [require]

theorem Log.blockInfo_eq_ok {log : Log} {info : BlockInfo} : log.blockInfo = .ok info ↔
    log.blockNumber = some info.number ∧ log.blockHash = some info.hash := by
  constructor
  · intro h
    obtain ⟨number, hnumber, h⟩ := bind_eq_ok.1 h
    obtain ⟨hash, hhash, h⟩ := bind_eq_ok.1 h
    cases h
    exact ⟨require_eq_ok.1 hnumber, require_eq_ok.1 hhash⟩
  · rintro ⟨hnumber, hhash⟩
    exact bind_eq_ok.2 ⟨_, require_eq_ok.2 hnumber, bind_eq_ok.2 ⟨_, require_eq_ok.2 hhash, rfl⟩⟩

theorem toU64_eq_ok {n m : ℕ} (h : toU64 n = .ok m) : m = n := by
  unfold toU64 at h
  split at h
  · cases h
    rfl
  · cases h

def OfBlock (info : BlockInfo) (logs : List Log) : Prop :=
  ∀ log ∈ logs, (∀ n ∈ log.blockNumber, n = info.number) ∧ ∀ h ∈ log.blockHash, h = info.hash

theorem HandledAs.announces {info : BlockInfo} {logs : List Log} {log : Log}
    {o : Option L1Notification} (h : HandledAs logs log o) (hblock : OfBlock info logs) :
    Announces info log.event o := by
  obtain ⟨found, hannounces, hsource⟩ := h
  generalize log.event = event at hannounces
  cases o with
  | none =>
    cases hannounces
    · exact .genesisCommit _
    · exact .genesisFinalization _
  | some n =>
    obtain ⟨source, hmem, hfound⟩ := hsource rfl
    obtain ⟨hnumber, hhash⟩ := Log.blockInfo_eq_ok.1 hfound
    obtain rfl : found = info := congrArg₂ BlockInfo.mk ((hblock source hmem).1 _ hnumber)
      ((hblock source hmem).2 _ hhash)
    exact hannounces

structure AnswersAs (v u : L1View) (logs : List Log) : Prop where
  timestamp : ∀ log ∈ logs, ∀ n t, log.blockNumber = some n → v.blockTimestamp log n = .ok t →
    u.blockTimestamp log n = .ok t
  transaction : ∀ log ∈ logs, ∀ hash tx, log.transactionHash = some hash →
    v.fails .transaction = false → v.transaction hash = some tx →
      u.fails .transaction = false ∧ u.transaction hash = some tx

theorem AnswersAs.mono {v u : L1View} {logs group : List Log} (h : AnswersAs v u logs)
    (hsub : ∀ log ∈ group, log ∈ logs) : AnswersAs v u group where
  timestamp log hlog := h.timestamp log (hsub log hlog)
  transaction log hlog := h.transaction log (hsub log hlog)

def Log.commitsWith (log other : Log) : Bool :=
  other.event.signature = .commitBatch ∧ other.transactionHash = log.transactionHash

def Log.placeInRun (log : Log) (before : List Log) : ℕ := runLength log.commitsWith before

def CarriesBlob (v : L1View) (k : ℕ) (log : Log) (o : Option L1Notification) : Prop :=
  ∀ index hash, log.event = .commitBatch index hash → index ≠ 0 →
    ∃ txHash tx info data, log.transactionHash = some txHash ∧ v.transaction txHash = some tx ∧
      o = some (.batchCommit info data) ∧ (data.index = index ∧ data.hash = hash) ∧
      data.calldata = tx.input ∧ data.blobVersionedHash = tx.blobVersionedHashes.bind (·[k]?)

def AnnouncedInRun (v : L1View) (logs : List Log) (entry : List Log × Log)
    (o : Option L1Notification) : Prop :=
  HandledAs logs entry.2 o ∧ CarriesBlob v (entry.2.placeInRun entry.1) entry.2 o

def LogEvent.Decoded : LogEvent → Prop
  | .queueTransaction _ _ _ => True
  | .commitBatch index _ => index < 2 ^ 64
  | .finalizeBatch index _ => index < 2 ^ 64
  | .revertBatch index _ => index < 2 ^ 64
  | .revertBatchRange first last => first < 2 ^ 64 ∧ last < 2 ^ 64
  | .undecodable _ => False

/-- A complete log is handled without an error. -/
structure Log.Complete (v : L1View) (log : Log) : Prop where
  decoded : log.event.Decoded
  block : ∃ info, log.blockInfo = .ok info ∧ ∃ t, v.blockTimestamp log info.number = .ok t
  transaction : ∃ hash tx, log.transactionHash = some hash ∧ v.transaction hash = some tx

namespace L1View

/-! ### One log -/

/-- The handler of a log that is not a commit; the genesis batch gives nothing. -/
def handleAlone (v : L1View) (signature : LogSignature) (log : Log) :
    Except Interruption (Option L1Notification) :=
  match signature with
  | .queueTransaction => do return some (← v.handleL1Message log)
  | .finalizeBatch => handleFinalizeBatch log
  | .revertBatch => do return some (← handleBatchRevert log)
  | .revertBatchRange => do return some (← handleBatchRevertRange log)
  | .commitBatch => Log.undecodable "CommitBatch"

theorem handleAlone_handled {v : L1View} {signature : LogSignature} {log : Log}
    {o : Option L1Notification} (h : v.handleAlone signature log = .ok o) :
    HandledAs [log] log o := by
  have hsource {info : BlockInfo} {o : Option L1Notification} (hinfo : log.blockInfo = .ok info)
      (h : Announces info log.event o) : HandledAs [log] log o :=
    ⟨info, h, fun _ => ⟨log, List.mem_singleton_self log, hinfo⟩⟩
  cases signature with
  | queueTransaction =>
    obtain ⟨n, hn, h⟩ := bind_eq_ok.1 h
    cases h
    unfold handleL1Message at hn
    split at hn
    · rename_i hevent
      obtain ⟨info, hinfo, hn⟩ := bind_eq_ok.1 hn
      obtain ⟨timestamp, -, hn⟩ := bind_eq_ok.1 hn
      cases hn
      exact hsource hinfo (hevent ▸ .l1Message _ _ _ timestamp)
    · cases hn
  | commitBatch => cases h
  | finalizeBatch =>
    change handleFinalizeBatch log = .ok o at h
    unfold handleFinalizeBatch at h
    split at h
    · rename_i hevent
      split at h
      · rename_i hzero
        cases h
        refine ⟨⟨0, 0⟩, ?_, fun h => by cases h⟩
        rw [hevent, hzero]
        exact .genesisFinalization _
      · rename_i hne
        obtain ⟨info, hinfo, h⟩ := bind_eq_ok.1 h
        obtain ⟨index, hindex, h⟩ := bind_eq_ok.1 h
        cases h
        obtain rfl := toU64_eq_ok hindex
        exact hsource hinfo (hevent ▸ .batchFinalization _ _ hne)
    · cases h
  | revertBatch =>
    obtain ⟨n, hn, h⟩ := bind_eq_ok.1 h
    cases h
    unfold handleBatchRevert at hn
    split at hn
    · rename_i hevent
      obtain ⟨info, hinfo, hn⟩ := bind_eq_ok.1 hn
      obtain ⟨index, hindex, hn⟩ := bind_eq_ok.1 hn
      cases hn
      obtain rfl := toU64_eq_ok hindex
      exact hsource hinfo (hevent ▸ .batchRevert _ _)
    · cases hn
  | revertBatchRange =>
    obtain ⟨n, hn, h⟩ := bind_eq_ok.1 h
    cases h
    unfold handleBatchRevertRange at hn
    split at hn
    · rename_i hevent
      obtain ⟨info, hinfo, hn⟩ := bind_eq_ok.1 hn
      obtain ⟨first, hfirst, hn⟩ := bind_eq_ok.1 hn
      obtain ⟨last, hlast, hn⟩ := bind_eq_ok.1 hn
      cases hn
      obtain rfl := toU64_eq_ok hfirst
      obtain rfl := toU64_eq_ok hlast
      exact hsource hinfo (hevent ▸ .batchRevertRange _ _)
    · cases hn

theorem handleAlone_answers {v u : L1View} {signature : LogSignature} {log : Log}
    {o : Option L1Notification} (hlogs : AnswersAs v u [log])
    (h : v.handleAlone signature log = .ok o) : u.handleAlone signature log = .ok o := by
  cases signature with
  | queueTransaction =>
    obtain ⟨n, hn, h⟩ := bind_eq_ok.1 h
    refine bind_eq_ok.2 ⟨n, ?_, h⟩
    unfold handleL1Message at hn ⊢
    split at hn
    · obtain ⟨info, hinfo, hn⟩ := bind_eq_ok.1 hn
      obtain ⟨timestamp, htimestamp, hn⟩ := bind_eq_ok.1 hn
      have hother := hlogs.timestamp log (List.mem_singleton_self log) _ timestamp
        (Log.blockInfo_eq_ok.1 hinfo).1 htimestamp
      exact bind_eq_ok.2 ⟨info, hinfo, bind_eq_ok.2 ⟨timestamp, hother, hn⟩⟩
    · cases hn
  | _ => exact h

theorem handleAlone_complete {v : L1View} {log : Log} (h : log.Complete v)
    (hother : log.event.signature ≠ .commitBatch) :
    ∃ o, v.handleAlone log.event.signature log = .ok o := by
  obtain ⟨info, hinfo, t, ht⟩ := h.block
  have hdecoded := h.decoded
  unfold handleAlone
  cases hevent : log.event with
  | queueTransaction queueIndex gasLimit txHash =>
    simp [LogEvent.signature, handleL1Message, hevent, hinfo, ht, bind, Except.bind, pure,
      Except.pure]
  | commitBatch index hash =>
    rw [hevent] at hother
    exact absurd rfl hother
  | finalizeBatch index hash =>
    rw [hevent] at hdecoded
    have hindex : toU64 index = .ok index := if_pos hdecoded
    by_cases hzero : index = 0
    · simp [LogEvent.signature, handleFinalizeBatch, hevent, hzero]
    · simp [LogEvent.signature, handleFinalizeBatch, hevent, hzero, hinfo, hindex, bind,
        Except.bind, pure, Except.pure]
  | revertBatch index hash =>
    rw [hevent] at hdecoded
    have hindex : toU64 index = .ok index := if_pos hdecoded
    simp [LogEvent.signature, handleBatchRevert, hevent, hinfo, hindex, bind, Except.bind, pure,
      Except.pure]
  | revertBatchRange first last =>
    rw [hevent] at hdecoded
    have hfirst : toU64 first = .ok first := if_pos hdecoded.1
    have hlast : toU64 last = .ok last := if_pos hdecoded.2
    simp [LogEvent.signature, handleBatchRevertRange, hevent, hinfo, hfirst, hlast, bind,
      Except.bind, pure, Except.pure]
  | undecodable signature =>
    rw [hevent] at hdecoded
    exact hdecoded.elim

/-! ### The commits of one transaction -/

theorem commitNotification_announces {tx : L1Transaction} {info : BlockInfo}
    {timestamp position : ℕ} {log : Log} {o : Option L1Notification}
    (h : commitNotification tx info timestamp (log, position) = .ok o) :
    Announces info log.event o := by
  unfold commitNotification at h
  simp only at h
  split at h
  · rename_i batchIndex batchHash hevent
    rw [hevent]
    split at h
    · rename_i hzero
      cases h
      rw [hzero]
      exact .genesisCommit batchHash
    · rename_i hne
      obtain ⟨index, hindex, h⟩ := bind_eq_ok.1 h
      cases h
      obtain rfl := toU64_eq_ok hindex
      exact .batchCommit _ _ _ hne ⟨rfl, rfl⟩ rfl
  · cases h

theorem commitNotification_carries {v : L1View} {tx : L1Transaction} {info : BlockInfo}
    {timestamp i : ℕ} {log : Log} {o : Option L1Notification}
    (h : commitNotification tx info timestamp (log, i) = .ok o) {txHash : B256}
    (hhash : log.transactionHash = some txHash) (htx : v.transaction txHash = some tx) :
    CarriesBlob v i log o := by
  intro index hash hevent hne
  simp only [commitNotification, hevent, if_neg hne] at h
  obtain ⟨index', hindex, h⟩ := bind_eq_ok.1 h
  cases h
  obtain rfl := toU64_eq_ok hindex
  exact ⟨txHash, tx, info, _, hhash, htx, rfl, ⟨rfl, rfl⟩, rfl, rfl⟩

theorem commitNotification_complete {v : L1View} {log : Log} (h : log.Complete v)
    (hcommit : log.event.signature = .commitBatch) (tx : L1Transaction) (info : BlockInfo)
    (timestamp i : ℕ) : ∃ o, commitNotification tx info timestamp (log, i) = .ok o := by
  have hdecoded := h.decoded
  cases hevent : log.event with
  | commitBatch index hash =>
    rw [hevent] at hdecoded
    have hindex : toU64 index = .ok index := if_pos hdecoded
    by_cases hzero : index = 0
    · simp [commitNotification, hevent, hzero]
    · simp [commitNotification, hevent, hzero, hindex, bind, Except.bind, pure, Except.pure]
  | undecodable signature =>
    rw [hevent] at hdecoded
    exact hdecoded.elim
  | _ =>
    rw [hevent] at hcommit
    cases hcommit

theorem call_eq_ok {v : L1View} {rpc : RpcCall} : v.call rpc = .ok () ↔ v.fails rpc = false := by
  unfold call
  cases v.fails rpc with
  | false => simp
  | true => simp

theorem handleTransactionCommits_eq_ok {v : L1View} {logs : List Log} {ns : List L1Notification} :
    v.handleTransactionCommits logs = .ok ns ↔
      ∃ log info timestamp txHash tx found, logs.head? = some log ∧ log.blockInfo = .ok info ∧
        v.blockTimestamp log info.number = .ok timestamp ∧ log.transactionHash = some txHash ∧
        v.fails .transaction = false ∧ v.transaction txHash = some tx ∧
        logs.zipIdx.mapM (commitNotification tx info timestamp) = .ok found ∧
        ns = found.filterMap id := by
  constructor
  · intro h
    obtain ⟨number, hnumber, h⟩ := bind_eq_ok.1 h
    obtain ⟨hash, hhash, h⟩ := bind_eq_ok.1 h
    cases hhead : logs.head? with
    | none =>
      rw [hhead] at hnumber
      cases hnumber
    | some log =>
      simp only [hhead] at h hnumber hhash
      obtain ⟨timestamp, htimestamp, h⟩ := bind_eq_ok.1 h
      obtain ⟨txHash, htxHash, h⟩ := bind_eq_ok.1 h
      obtain ⟨_, hcall, h⟩ := bind_eq_ok.1 h
      split at h
      · cases h
      · rename_i tx htx
        obtain ⟨found, hfound, h⟩ := bind_eq_ok.1 h
        cases h
        exact ⟨log, ⟨number, hash⟩, timestamp, txHash, tx, found, rfl,
          Log.blockInfo_eq_ok.2 ⟨require_eq_ok.1 hnumber, require_eq_ok.1 hhash⟩, htimestamp,
          require_eq_ok.1 htxHash, call_eq_ok.1 hcall, htx, hfound, rfl⟩
  · rintro ⟨log, info, timestamp, txHash, tx, found, hhead, hinfo, htimestamp, htxHash, hcall, htx,
      hfound, rfl⟩
    obtain ⟨hnumber, hhash⟩ := Log.blockInfo_eq_ok.1 hinfo
    unfold handleTransactionCommits
    simp only [hhead]
    refine bind_eq_ok.2 ⟨_, require_eq_ok.2 hnumber, bind_eq_ok.2 ⟨_, require_eq_ok.2 hhash, ?_⟩⟩
    refine bind_eq_ok.2 ⟨_, htimestamp, bind_eq_ok.2 ⟨_, require_eq_ok.2 htxHash, ?_⟩⟩
    refine bind_eq_ok.2 ⟨(), call_eq_ok.2 hcall, ?_⟩
    simp only [htx]
    exact bind_eq_ok.2 ⟨found, hfound, rfl⟩

theorem handleTransactionCommits_inRun {v : L1View} {before group : List Log}
    {ns : List L1Notification} (hgroup : ∀ x ∈ group, ∀ y ∈ group, x.commitsWith y = true)
    (hbefore : ∀ x ∈ before.getLast?, ∀ y ∈ group, y.commitsWith x = false)
    (h : v.handleTransactionCommits group = .ok ns) :
    Matches (AnnouncedInRun v group) (inContext before group) ns := by
  obtain ⟨log, info, timestamp, txHash, tx, found, hhead, hinfo, -, hhash, -, htx, hfound, rfl⟩ :=
    handleTransactionCommits_eq_ok.1 h
  have hlog := List.mem_of_head? hhead
  refine ⟨found, ?_, rfl⟩
  rw [inContext_eq_zipIdx, List.forall₂_map_left_iff]
  refine forall₂_of_mapM ?_ hfound
  rintro ⟨x, i⟩ hentry o ho
  have hget := List.mem_zipIdx_iff_getElem?.1 hentry
  have hx := List.mem_of_getElem? hget
  have hlt := (List.getElem?_eq_some_iff.1 hget).1
  have hplace : x.placeInRun (before ++ group.take i) = i := by
    have hrun := runLength_append x.commitsWith before (group.take i)
      (fun y hy => hgroup x hx y (List.mem_of_mem_take hy)) (fun y hy => hbefore y hy x hx)
    rw [List.length_take, Nat.min_eq_left (Nat.le_of_lt hlt)] at hrun
    exact hrun
  have hsame : x.transactionHash = some txHash := by
    rw [← hhash]
    exact (of_decide_eq_true (hgroup log hlog x hx)).2
  refine ⟨⟨info, commitNotification_announces ho, fun _ => ⟨log, hlog, hinfo⟩⟩, ?_⟩
  change CarriesBlob v (x.placeInRun (before ++ group.take i)) x o
  rw [hplace]
  exact commitNotification_carries ho hsame htx

theorem handleTransactionCommits_answers {v u : L1View} {logs : List Log}
    {ns : List L1Notification} (hlogs : AnswersAs v u logs)
    (h : v.handleTransactionCommits logs = .ok ns) : u.handleTransactionCommits logs = .ok ns := by
  obtain ⟨log, info, timestamp, txHash, tx, found, hhead, hinfo, htimestamp, htxHash, hcall, htx,
    hfound, rfl⟩ := handleTransactionCommits_eq_ok.1 h
  have hlog := List.mem_of_head? hhead
  have hother := hlogs.timestamp log hlog _ timestamp (Log.blockInfo_eq_ok.1 hinfo).1 htimestamp
  obtain ⟨hcall', htx'⟩ := hlogs.transaction log hlog txHash tx htxHash hcall htx
  exact handleTransactionCommits_eq_ok.2 ⟨log, info, timestamp, txHash, tx, found, hhead, hinfo,
    hother, htxHash, hcall', htx', hfound, rfl⟩

theorem handleTransactionCommits_complete {v : L1View} {group : List Log} (hne : group ≠ [])
    (hcall : v.fails .transaction = false) (h : ∀ log ∈ group, log.Complete v)
    (hcommit : ∀ log ∈ group, log.event.signature = .commitBatch) :
    ∃ ns, v.handleTransactionCommits group = .ok ns := by
  obtain ⟨first, rest, rfl⟩ := List.exists_cons_of_ne_nil hne
  obtain ⟨info, hinfo, t, ht⟩ := (h first List.mem_cons_self).block
  obtain ⟨hash, tx, hhash, htx⟩ := (h first List.mem_cons_self).transaction
  obtain ⟨found, hfound⟩ : ∃ found, (first :: rest).zipIdx.mapM
      (commitNotification tx info t) = .ok found := by
    apply mapM_ok_of_forall
    rintro ⟨log, i⟩ hentry
    have hlog := List.mem_of_getElem? (List.mem_zipIdx_iff_getElem?.1 hentry)
    exact commitNotification_complete (h log hlog) (hcommit log hlog) tx info t i
  exact ⟨_, handleTransactionCommits_eq_ok.2 ⟨first, info, t, hash, tx, found, rfl, hinfo, ht,
    hhash, hcall, htx, hfound, rfl⟩⟩

theorem handleBatchCommits_inRun {v : L1View} {before group : List Log} {ns : List L1Notification}
    (hgroup : ∀ x ∈ group, x.event.signature = .commitBatch)
    (hbefore : ∀ x ∈ before.getLast?, x.event.signature ≠ .commitBatch)
    (h : v.handleBatchCommits group = .ok ns) :
    Matches (AnnouncedInRun v group) (inContext before group) ns := by
  refine matches_inContext_splitBy Log.transactionHash before ?_ h
  intro front g hmem hkey hfront a ha
  refine (handleTransactionCommits_inRun ?_ ?_ ha).mono ?_
  · intro x hx y hy
    exact decide_eq_true ⟨hgroup y (hmem y hy), hkey y hy x hx⟩
  · intro x hx y hy
    apply decide_eq_false
    rintro ⟨hcommit, hhash⟩
    rcases hfront x hx with hlast | hother
    · exact hbefore x hlast hcommit
    · exact hother y hy hhash
  · exact fun _ _ _ ho => ⟨ho.1.mono hmem, ho.2⟩

theorem handleBatchCommits_append (v : L1View) {logs logs' : List Log}
    (hsep : SeparateTransactions logs logs') :
    Splits (v.handleBatchCommits (logs ++ logs')) (v.handleBatchCommits logs)
      (v.handleBatchCommits logs') := by
  refine collect_splitBy_append v.handleTransactionCommits _ logs logs' ?_
  intro g h hg hh hgne hhne hchain
  obtain ⟨x, g, rfl⟩ := List.exists_cons_of_ne_nil hgne
  obtain ⟨y, h, rfl⟩ := List.exists_cons_of_ne_nil hhne
  have hkey := key_eq_of_isChain Log.transactionHash hchain (x := x) (y := y) (by simp) (by simp)
  have hnone : x.transactionHash = none := by
    cases hx : x.transactionHash with
    | none => rfl
    | some hash =>
      have hother := hsep x (hg.subset List.mem_cons_self) y (hh.subset List.mem_cons_self) hash hx
      exact absurd (hkey ▸ hx) hother
  -- the transaction of the first log is looked up
  have hrefused (group : List Log) (ns : List L1Notification) :
      v.handleTransactionCommits (x :: group) ≠ .ok ns := by
    intro hns
    obtain ⟨_, _, _, txHash, _, _, hhead, -, -, htxHash, -⟩ := handleTransactionCommits_eq_ok.1 hns
    cases hhead
    rw [hnone] at htxHash
    cases htxHash
  intro ns
  constructor
  · intro hns
    exact absurd hns (hrefused _ ns)
  · rintro ⟨a, b, ha, -, -⟩
    exact absurd ha (hrefused _ a)

/-! ### The logs of one signature -/

theorem handleGroup_commit (v : L1View) {log : Log} (group : List Log)
    (h : log.event.signature = .commitBatch) :
    v.handleGroup (log :: group) = v.handleBatchCommits (log :: group) := by
  simp only [handleGroup, List.head?_cons, Option.map_some, h]

theorem handleGroup_other (v : L1View) {log : Log} (group : List Log)
    (h : log.event.signature ≠ .commitBatch) : v.handleGroup (log :: group) =
      (log :: group).mapM (v.handleAlone log.event.signature) >>=
        fun found => pure (found.filterMap id) := by
  simp only [handleGroup, List.head?_cons, Option.map_some]
  cases hsignature : log.event.signature with
  | commitBatch => exact absurd hsignature h
  | finalizeBatch => rfl
  | queueTransaction => exact mapM_eq_filterMap v.handleL1Message _
  | revertBatch => exact mapM_eq_filterMap handleBatchRevert _
  | revertBatchRange => exact mapM_eq_filterMap handleBatchRevertRange _

theorem handleGroup_inRun {v : L1View} {before group : List Log} {ns : List L1Notification}
    (hgroup : ∀ x ∈ group, ∀ y ∈ group, x.event.signature = y.event.signature)
    (hbefore : ∀ x ∈ before.getLast?, ∀ y ∈ group, x.event.signature ≠ y.event.signature)
    (h : v.handleGroup group = .ok ns) :
    Matches (AnnouncedInRun v group) (inContext before group) ns := by
  cases group with
  | nil =>
    cases h
    exact Matches.nil _
  | cons log group =>
    have hsame : ∀ x ∈ log :: group, x.event.signature = log.event.signature :=
      fun x hx => hgroup x hx log List.mem_cons_self
    by_cases hcommit : log.event.signature = .commitBatch
    · rw [handleGroup_commit v group hcommit] at h
      refine handleBatchCommits_inRun (fun x hx => (hsame x hx).trans hcommit) ?_ h
      intro x hx
      rw [← hcommit]
      exact hbefore x hx log List.mem_cons_self
    · rw [handleGroup_other v group hcommit] at h
      obtain ⟨found, hfound, h⟩ := bind_eq_ok.1 h
      cases h
      have hhandled : Matches (HandledAs (log :: group)) (log :: group) (found.filterMap id) := by
        refine ⟨found, forall₂_of_mapM ?_ hfound, rfl⟩
        intro x hx o ho
        refine (handleAlone_handled ho).mono ?_
        intro y hy
        rw [List.mem_singleton.1 hy]
        exact hx
      refine ((matches_inContext_iff before).2 hhandled).mono ?_
      rintro ⟨context, x⟩ hentry o ho
      refine ⟨ho, ?_⟩
      intro index hash hevent
      obtain ⟨i, hget, -⟩ := mem_inContext hentry
      have hother := hsame x (List.mem_of_getElem? hget)
      rw [show x.event = .commitBatch index hash from hevent] at hother
      exact absurd hother.symm hcommit

theorem handleGroup_append (v : L1View) {logs logs' : List Log}
    (hsep : SeparateTransactions logs logs') {log log' : Log} (hlogs : logs.head? = some log)
    (hlogs' : logs'.head? = some log') (hsignature : log.event.signature = log'.event.signature) :
    Splits (v.handleGroup (logs ++ logs')) (v.handleGroup logs) (v.handleGroup logs') := by
  obtain ⟨group, rfl⟩ := List.head?_eq_some_iff.1 hlogs
  obtain ⟨group', rfl⟩ := List.head?_eq_some_iff.1 hlogs'
  rw [List.cons_append]
  by_cases hcommit : log.event.signature = .commitBatch
  · rw [handleGroup_commit v _ hcommit, handleGroup_commit v _ hcommit,
      handleGroup_commit v _ (hsignature.symm.trans hcommit)]
    exact v.handleBatchCommits_append hsep
  · rw [handleGroup_other v _ hcommit, handleGroup_other v _ hcommit,
      handleGroup_other v _ (hsignature ▸ hcommit), ← hsignature]
    exact filterMap_splits id (mapM_append_splits _ (log :: group) (log' :: group'))

theorem handleGroup_answers {v u : L1View} {logs : List Log} {ns : List L1Notification}
    (hlogs : AnswersAs v u logs) (h : v.handleGroup logs = .ok ns) :
    u.handleGroup logs = .ok ns := by
  cases logs with
  | nil => exact h
  | cons log group =>
    by_cases hcommit : log.event.signature = .commitBatch
    · rw [handleGroup_commit _ group hcommit] at h ⊢
      exact collect_ok_mono (fun g hg a ha => handleTransactionCommits_answers
        (hlogs.mono (mem_of_mem_splitBy hg)) ha) h
    · rw [handleGroup_other _ group hcommit] at h ⊢
      obtain ⟨found, hfound, h⟩ := bind_eq_ok.1 h
      refine bind_eq_ok.2 ⟨found, mapM_ok_mono ?_ hfound, h⟩
      intro x hx o ho
      refine handleAlone_answers (hlogs.mono ?_) ho
      intro y hy
      rw [List.mem_singleton.1 hy]
      exact hx

theorem handleGroup_complete {v : L1View} {group : List Log}
    (hcall : v.fails .transaction = false) (h : ∀ log ∈ group, log.Complete v)
    (hgroup : ∀ x ∈ group, ∀ y ∈ group, x.event.signature = y.event.signature) :
    ∃ ns, v.handleGroup group = .ok ns := by
  cases group with
  | nil => exact ⟨[], rfl⟩
  | cons log group =>
    have hsame : ∀ x ∈ log :: group, x.event.signature = log.event.signature :=
      fun x hx => hgroup x hx log List.mem_cons_self
    by_cases hcommit : log.event.signature = .commitBatch
    · rw [handleGroup_commit v group hcommit]
      refine collect_ok_of_forall ?_
      intro g hg
      have hmem := mem_of_mem_splitBy hg
      exact handleTransactionCommits_complete (List.ne_nil_of_mem_splitBy hg) hcall
        (fun x hx => h x (hmem x hx)) (fun x hx => (hsame x (hmem x hx)).trans hcommit)
    · obtain ⟨found, hfound⟩ : ∃ found, (log :: group).mapM
          (v.handleAlone log.event.signature) = .ok found := by
        apply mapM_ok_of_forall
        intro x hx
        rw [← hsame x hx]
        exact handleAlone_complete (h x hx) (hsame x hx ▸ hcommit)
      rw [handleGroup_other v group hcommit]
      exact ⟨_, bind_eq_ok.2 ⟨found, hfound, rfl⟩⟩

/-! ### All logs -/

theorem handleLogs_inRun {v : L1View} {logs : List Log} {ns : List L1Notification}
    (h : v.handleLogs logs = .ok ns) :
    Matches (AnnouncedInRun v logs) (inContext [] logs) ns := by
  refine matches_inContext_splitBy (fun log : Log => log.event.signature) [] ?_ h
  intro front g hmem hkey hfront a ha
  refine (handleGroup_inRun hkey ?_ ha).mono ?_
  · intro x hx y hy
    exact (hfront x hx).resolve_left (fun h => by cases h) y hy
  · exact fun _ _ _ ho => ⟨ho.1.mono hmem, ho.2⟩

theorem handleLogs_handled {v : L1View} {logs : List Log} {ns : List L1Notification}
    (h : v.handleLogs logs = .ok ns) : Matches (HandledAs logs) logs ns :=
  (matches_inContext_iff []).1 ((handleLogs_inRun h).mono (fun _ _ _ ho => ho.1))

theorem handleLogs_announces {v : L1View} {info : BlockInfo} {logs : List Log}
    {ns : List L1Notification} (hblock : OfBlock info logs) (h : v.handleLogs logs = .ok ns) :
    Matches (fun log => Announces info log.event) logs ns :=
  (handleLogs_handled h).mono (fun _ _ _ ho => ho.announces hblock)

theorem exists_log_of_handleLogs {v : L1View} {logs : List Log} {ns : List L1Notification}
    (h : v.handleLogs logs = .ok ns) {n : L1Notification} (hn : n ∈ ns) :
    ∃ log ∈ logs, ∃ info, log.blockInfo = .ok info ∧ n.logBlock = some info := by
  obtain ⟨_, -, info, hannounces, hsource⟩ := (handleLogs_handled h).exists_of_mem hn
  obtain ⟨source, hmem, hinfo⟩ := hsource rfl
  exact ⟨source, hmem, info, hinfo, hannounces.logBlock⟩

theorem handleLogs_append (v : L1View) {logs logs' : List Log}
    (hsep : SeparateTransactions logs logs') :
    Splits (v.handleLogs (logs ++ logs')) (v.handleLogs logs) (v.handleLogs logs') := by
  refine collect_splitBy_append v.handleGroup _ logs logs' ?_
  intro g h hg hh hgne hhne hchain
  obtain ⟨x, g, rfl⟩ := List.exists_cons_of_ne_nil hgne
  obtain ⟨y, h, rfl⟩ := List.exists_cons_of_ne_nil hhne
  have hkey := key_eq_of_isChain (fun log : Log => log.event.signature) hchain (x := x) (y := y)
    (by simp) (by simp)
  apply v.handleGroup_append _ rfl rfl hkey
  intro log hlog log' hlog'
  exact hsep log (hg.subset hlog) log' (hh.subset hlog')

theorem handleLogs_flatMap (v : L1View) (logs : Header → List Log) {blocks : List Header}
    (hsep : blocks.Pairwise (fun a b => SeparateTransactions (logs a) (logs b)))
    (ns : List L1Notification) : v.handleLogs (blocks.flatMap logs) = .ok ns ↔
      collect (fun b => v.handleLogs (logs b)) blocks = .ok ns := by
  induction blocks generalizing ns with
  | nil => exact Iff.rfl
  | cons b blocks ih =>
    obtain ⟨hfirst, hrest⟩ := List.pairwise_cons.1 hsep
    have hboundary : SeparateTransactions (logs b) (blocks.flatMap logs) := by
      intro log hlog log' hlog'
      obtain ⟨b', hb', hmem⟩ := List.mem_flatMap.1 hlog'
      exact hfirst b' hb' log hlog log' hmem
    rw [List.flatMap_cons, v.handleLogs_append hboundary ns,
      collect_cons (fun b => v.handleLogs (logs b)) b blocks ns]
    simp only [ih hrest]

theorem handleLogs_answers {v u : L1View} {logs : List Log} {ns : List L1Notification}
    (hlogs : AnswersAs v u logs) (h : v.handleLogs logs = .ok ns) : u.handleLogs logs = .ok ns :=
  collect_ok_mono (fun _ hgroup _ ha => handleGroup_answers
    (hlogs.mono (mem_of_mem_splitBy hgroup)) ha) h

theorem handleLogs_complete {v : L1View} {logs : List Log} (hcall : v.fails .transaction = false)
    (h : ∀ log ∈ logs, log.Complete v) : ∃ ns, v.handleLogs logs = .ok ns := by
  apply collect_ok_of_forall
  intro g hg
  refine handleGroup_complete hcall (fun x hx => h x (mem_of_mem_splitBy hg x hx)) ?_
  intro x hx y hy
  exact key_eq_of_isChain (fun log : Log => log.event.signature) (List.isChain_of_mem_splitBy hg) hx hy

end L1View

theorem answersAs_of_served {v u : L1View} {blocks : List Header} (logs : Header → List Log)
    (hv : ∀ b ∈ blocks, b ∈ v.chain) (hu : ∀ b ∈ blocks, b ∈ u.chain)
    (hlogs : ∀ b ∈ blocks, OfBlock b.blockInfo (logs b)) (hcalls : ∀ rpc, u.fails rpc = false)
    (htx : ∀ b ∈ blocks, ∀ log ∈ logs b, ∀ hash ∈ log.transactionHash,
      u.transaction hash = v.transaction hash) : AnswersAs v u (blocks.flatMap logs) := by
  constructor
  · intro log hlog n t hn h
    obtain ⟨b, hb, hmem⟩ := List.mem_flatMap.1 hlog
    have hnumber : n = b.number := (hlogs b hb log hmem).1 n hn
    have hvget : v.chain.blocks[b.number]? = some b := (v.chain.mem_iff b).1 (hv b hb)
    have huget : u.chain.blocks[b.number]? = some b := (u.chain.mem_iff b).1 (hu b hb)
    unfold L1View.blockTimestamp at h ⊢
    cases htimestamp : log.blockTimestamp with
    | some timestamp =>
      rw [htimestamp] at h
      exact h
    | none =>
      rw [htimestamp] at h
      simp only [hnumber, hvget, huget] at h ⊢
      obtain ⟨_, -, h⟩ := bind_eq_ok.1 h
      exact bind_eq_ok.2 ⟨(), L1View.call_eq_ok.2 (hcalls .blockOfLog), h⟩
  · intro log hlog hash tx hhash _ h
    obtain ⟨b, hb, hmem⟩ := List.mem_flatMap.1 hlog
    refine ⟨hcalls .transaction, ?_⟩
    rw [htx b hb log hmem hash hhash]
    exact h

end RollupNode
