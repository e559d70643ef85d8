import RollupNode.BlockLogs

set_option autoImplicit false

/-! The notifications of a poll: every one that names a block names the block of a log of the
query. -/
namespace RollupNode
open ExceptTraversal

namespace Watcher

theorem mem_nextBlocks {w : Watcher} {v : L1View} {b : Header} :
    b ∈ w.nextBlocks v ↔ b ∈ v.chain ∧ w.currentBlockNumber < b.number ∧ b.number ≤ w.toBlock v := by
  unfold nextBlocks
  rw [List.mem_filter, decide_eq_true_eq]
  exact Iff.rfl

theorem nextNotifications_ok {w : Watcher} {v : L1View} {logs : List Log}
    {ns : List L1Notification} (h : w.nextNotifications v logs = .ok ns) :
    ∃ (found : List L1Notification) (update : Option L1Notification),
      v.handleLogs logs = .ok found ∧ ns = found ++ update.toList ∧
        ∀ n ∈ update, n = .consensus v.authorizedSigner := by
  obtain ⟨found, hfound, h⟩ := bind_eq_ok.1 h
  obtain ⟨update, hupdate, h⟩ := bind_eq_ok.1 h
  simp only at h
  split at h
  · cases h
  cases h
  refine ⟨found, update, hfound, rfl, ?_⟩
  intro n hn
  unfold handleSystemContractUpdate at hupdate
  split at hupdate
  · obtain ⟨_, -, hupdate⟩ := bind_eq_ok.1 hupdate
    cases hupdate
    exact (Option.some.inj hn).symm
  · cases hupdate
    cases hn

theorem nextNotifications_spec {w : Watcher} {v : L1View} {ns : List L1Notification}
    (h : w.nextNotifications v ((w.nextBlocks v).flatMap v.logs) = .ok ns) : ∀ n ∈ ns,
      (∃ b ∈ w.nextBlocks v, n.logBlock = some b.blockInfo) ∨ n = .consensus v.authorizedSigner := by
  obtain ⟨found, update, hfound, rfl, hsigner⟩ := nextNotifications_ok h
  intro n hn
  rcases List.mem_append.1 hn with hn | hn
  · left
    obtain ⟨log, hlog, info, hinfo, hblock⟩ := L1View.exists_log_of_handleLogs hfound hn
    obtain ⟨hnumber, hhash⟩ := Log.blockInfo_eq_ok.1 hinfo
    obtain ⟨b, hb, hblog⟩ := List.mem_flatMap.1 hlog
    have hsame := v.logs_block b (mem_nextBlocks.1 hb).1 log hblog
    refine ⟨b, hb, ?_⟩
    rw [hblock, ← show info = b.blockInfo from
      congrArg₂ BlockInfo.mk (hsame.1 _ hnumber) (hsame.2 _ hhash)]
  · exact Or.inr (hsigner n (Option.mem_toList.1 hn))

theorem nextNotifications_synced {w : Watcher} {v : L1View}
    (hhead : w.l1State.head = v.latest.number) (logs : List Log) (ns : List L1Notification) :
    w.nextNotifications v logs = .ok ns ↔
      v.handleLogs logs = .ok ns ∧ ns.length ≤ logs.length := by
  have hupdate : w.handleSystemContractUpdate v = .ok none := by
    unfold handleSystemContractUpdate
    rw [if_neg (not_not_intro hhead.symm)]
  unfold nextNotifications
  simp only [hupdate]
  constructor
  · intro h
    obtain ⟨found, hfound, h⟩ := bind_eq_ok.1 h
    obtain ⟨update, heq, h⟩ := bind_eq_ok.1 h
    cases heq
    simp only [Option.toList_none, List.append_nil] at h
    split at h
    · cases h
    · rename_i hcount
      cases h
      exact ⟨hfound, Nat.le_of_not_lt hcount⟩
  · rintro ⟨hfound, hcount⟩
    refine bind_eq_ok.2 ⟨ns, hfound, bind_eq_ok.2 ⟨none, rfl, ?_⟩⟩
    simp only [Option.toList_none, List.append_nil]
    rw [if_neg (Nat.not_lt.2 hcount)]

def indexed (w : Watcher) (v : L1View) (notifications : List L1Notification) : Stepped :=
  ⟨{ w with currentBlockNumber := w.toBlock v },
    (w.nextBlocks v).map Emission.queried ++ notifications.map Emission.sent ++
      [.sent (.processed (w.toBlock v))], .ok ()⟩

theorem indexNext_cases (w : Watcher) (v : L1View) :
    w.indexNext v = ⟨w, [], .ok ()⟩ ∧ v.latest.number = w.currentBlockNumber ∨
      (∃ es e, w.indexNext v = ⟨w, es, .error e⟩ ∧
        (es = [] ∨ es = (w.nextBlocks v).map Emission.queried)) ∨
      ∃ ns, w.indexNext v = w.indexed v ns ∧
        w.nextNotifications v ((w.nextBlocks v).flatMap v.logs) = .ok ns := by
  unfold indexNext
  split
  · rename_i heq
    exact Or.inl ⟨rfl, heq⟩
  split
  · exact Or.inr (Or.inl ⟨_, _, rfl, Or.inl rfl⟩)
  simp only
  split
  · exact Or.inr (Or.inl ⟨_, _, rfl, Or.inr rfl⟩)
  · rename_i ns hns
    exact Or.inr (Or.inr ⟨ns, rfl, hns⟩)

theorem indexNext_of_ok {w : Watcher} {v : L1View} {ns : List L1Notification}
    (hne : v.latest.number ≠ w.currentBlockNumber) (hcall : v.fails .logs = false)
    (h : w.nextNotifications v ((w.nextBlocks v).flatMap v.logs) = .ok ns) :
    w.indexNext v = w.indexed v ns := by
  unfold indexNext
  simp only [if_neg hne, hcall, h]
  rfl

end Watcher
end RollupNode
