import RollupNode.GuardedRuns
import RollupNode.WatcherChain
import RollupNode.WatcherLogs

set_option autoImplicit false

/-! Reorgs that the watcher reports. -/
namespace RollupNode
open LinkedChain GuardedRuns

/-- The queried blocks after one more emission: a reorg takes back those above it. -/
def Emission.settle (blocks : List Header) : Emission → List Header
  | .queried b => blocks ++ [b]
  | .sent (.reorg n) => blocks.filter (fun b => b.number ≤ n)
  | .sent _ => blocks

def outstanding (trace : List Emission) : List Header := trace.foldl Emission.settle []

def Emission.IsQuiet : Emission → Prop
  | .queried _ => False
  | .sent (.reorg _) => False
  | .sent _ => True

variable {blocks : List Header}

theorem Emission.settle_quiet {e : Emission} (h : e.IsQuiet) :
    e.settle blocks = blocks := by
  cases e with
  | queried b => exact h.elim
  | sent n => cases n <;> first | rfl | exact h.elim

variable {es : List Emission} {b : Header} {chain : Chain Header}

theorem foldl_settle_quiet (h : ∀ e ∈ es, e.IsQuiet) (blocks : List Header) :
    es.foldl Emission.settle blocks = blocks := by
  induction es with
  | nil => rfl
  | cons e es ih =>
    rw [List.foldl_cons, Emission.settle_quiet (h e List.mem_cons_self)]
    exact ih (fun q hq => h q (List.mem_cons_of_mem e hq))

theorem foldl_settle_queried (queried blocks : List Header) :
    (queried.map Emission.queried).foldl Emission.settle blocks = blocks ++ queried := by
  induction queried generalizing blocks with
  | nil => simp
  | cons b queried ih =>
    rw [List.map_cons, List.foldl_cons, ih]
    simp [Emission.settle]

theorem mem_settle {e : Emission} (h : b ∈ e.settle blocks) :
    b ∈ blocks ∨ e = .queried b := by
  cases e with
  | queried q =>
    rcases List.mem_append.1 h with h | h
    · exact Or.inl h
    · rw [List.mem_singleton.1 h]
      exact Or.inr rfl
  | sent n =>
    cases n with
    | reorg number => exact Or.inl (List.mem_filter.1 h).1
    | _ => exact Or.inl h

theorem mem_foldl_settle (h : b ∈ es.foldl Emission.settle blocks) :
    b ∈ blocks ∨ .queried b ∈ es := by
  induction es generalizing blocks with
  | nil => exact Or.inl h
  | cons e es ih =>
    rcases ih h with h | h
    · rcases mem_settle h with h | rfl
      · exact Or.inl h
      · exact Or.inr List.mem_cons_self
    · exact Or.inr (List.mem_cons_of_mem e h)

theorem queried_after_reorg {early late : List Emission} {n : ℕ}
    (h : b ∈ outstanding (early ++ .sent (.reorg n) :: late)) (hn : n < b.number) :
    .queried b ∈ late := by
  unfold outstanding at h
  rw [List.foldl_append, List.foldl_cons] at h
  rcases mem_foldl_settle h with h | h
  · have hle := of_decide_eq_true (List.mem_filter.1 h).2
    omega
  · exact h

/-- While the emissions happen, a notification of a block comes only when every outstanding
block at or below it is on the chain. -/
def ReportedFirst (chain : Chain Header) : List Header → List Emission → Prop
  | _, [] => True
  | blocks, e :: es =>
    (∀ n info, e = .sent n → n.logBlock = some info → ∀ b ∈ blocks, b ∉ chain →
      info.number < b.number) ∧ ReportedFirst chain (e.settle blocks) es

theorem reportedFirst_append {es' : List Emission} (h : ReportedFirst chain blocks es)
    (h' : ReportedFirst chain (es.foldl Emission.settle blocks) es') :
    ReportedFirst chain blocks (es ++ es') := by
  induction es generalizing blocks with
  | nil => exact h'
  | cons e es ih => exact ⟨h.1, ih h.2 h'⟩

theorem reportedFirst_of_no_logs (h : ∀ n, .sent n ∈ es → n.logBlock = none) :
    ReportedFirst chain blocks es := by
  induction es generalizing blocks with
  | nil => trivial
  | cons e es ih =>
    refine ⟨?_, ih (fun n hn => h n (List.mem_cons_of_mem e hn))⟩
    intro n info he hinfo
    rw [h n (he ▸ List.mem_cons_self)] at hinfo
    cases hinfo

theorem reportedFirst_of_subset (hblocks : ∀ b ∈ blocks, b ∈ chain)
    (hes : ∀ b, .queried b ∈ es → b ∈ chain) : ReportedFirst chain blocks es := by
  induction es generalizing blocks with
  | nil => trivial
  | cons e es ih =>
    refine ⟨?_, ih ?_ (fun b hb => hes b (List.mem_cons_of_mem e hb))⟩
    · intro n info _ _ b hb hout
      exact absurd (hblocks b hb) hout
    · intro b hb
      rcases mem_settle hb with hb | rfl
      · exact hblocks b hb
      · exact hes b List.mem_cons_self

structure Watch where
  watcher : Watcher
  trace : List Emission
  served : Option L1View

namespace Watch

def poll (s : Watch) (v : L1View) : Watch where
  watcher := (s.watcher.step v).watcher
  trace := s.trace ++ (s.watcher.step v).emitted
  served := some v

/-- No event of a replaced block is left unreported and no replacement is skipped. -/
structure ReportsReorgs (s : Watch) (v : L1View) : Prop where
  returns : (s.watcher.handleFinalizedBlock v.finalized).watcher.fetchUnfinalizedChain v ≠
    .error .loops
  reported : ReportedFirst v.chain (outstanding s.trace) (s.watcher.step v).emitted
  replaced : (s.watcher.step v).result = .ok () → ∀ early n late,
    (s.poll v).trace = early ++ .sent (.reorg n) :: late → ∀ b ∈ v.chain, n < b.number →
      b.number ≤ (s.poll v).watcher.currentBlockNumber → .queried b ∈ late

/-- The provider serves known blocks, on a chain that keeps what it served as finalized. -/
def Serves (genuine : Header → Prop) (s : Watch) (v : L1View) : Prop :=
  (∀ b ∈ v.chain, genuine b) ∧
    ∀ u ∈ s.served, u.finalized ∈ v.chain ∧ u.finalized.number ≤ v.finalized.number

/-- The remembered headers show what was replaced: the finalized block does not jump over them
to another branch, the oldest of them is connected to the served chain, and the latest block is
not simply one of them below the last. -/
structure RemembersFork (s : Watch) (v : L1View) : Prop where
  jump : ∀ tail ∈ s.watcher.unfinalizedBlocks.data.getLast?,
    tail.number < v.finalized.number → tail ∈ v.chain
  window : ∀ oldest ∈ s.watcher.unfinalizedBlocks.data.head?, Rooted v.chain oldest
  rollback : v.latest ∈ s.watcher.unfinalizedBlocks.data.dropLast → v.latest = v.finalized

end Watch

/-- Headers of one block tree: a hash names one header, and a child is one block higher. -/
structure BlockTree (genuine : Header → Prop) : Prop where
  unique : ∀ a b, genuine a → genuine b → a.hash = b.hash → a = b
  numbered : ∀ a b, genuine a → genuine b → b.parentHash = a.hash → b.number = a.number + 1

structure Indexed (c : Chain Header) (base current : ℕ) (blocks : List Header) : Prop where
  subset : ∀ b ∈ blocks, b ∈ c
  covered : ∀ b ∈ c, base < b.number → b.number ≤ current → b ∈ blocks
  bounded : current ≤ base ∨ current < c.blocks.length

section
variable {c : Chain Header} {v : L1View} {w w' : Watcher} {base : ℕ} {blocks : List Header}

theorem Indexed.extended (h : Indexed c base w.currentBlockNumber blocks)
    (hsub : ∀ b ∈ c, b ∈ v.chain) : Indexed v.chain base w.currentBlockNumber blocks := by
  refine ⟨fun b hb => hsub b (h.subset b hb), ?_, ?_⟩
  · intro b hb hbase hcurrent
    have hlt : b.number < c.blocks.length := by
      rcases h.bounded with hle | hlt
      · omega
      · omega
    obtain ⟨a, ha, -, hnumber⟩ := c.exists_at hlt
    have heq := v.chain.eq_of_number (hsub a ha) hb hnumber
    rw [← heq] at hbase hcurrent ⊢
    exact h.covered a ha hbase hcurrent
  · rcases h.bounded with hle | hlt
    · exact Or.inl hle
    · obtain ⟨a, ha, -, hnumber⟩ := c.exists_at hlt
      have hserved := v.chain.number_lt (hsub a ha)
      rw [hnumber] at hserved
      exact Or.inr hserved

theorem Indexed.reorged {n : ℕ} (h : Indexed c base w.currentBlockNumber blocks)
    (hagree : AgreesTo c v.chain n) (hn : n < v.chain.blocks.length) :
    Indexed v.chain (min base n) (min w.currentBlockNumber n)
      (blocks.filter (fun b => b.number ≤ n)) := by
  refine ⟨?_, ?_, Or.inr (by omega)⟩
  · intro b hb
    obtain ⟨hmem, hle⟩ := List.mem_filter.1 hb
    exact hagree.mem (h.subset b hmem) (of_decide_eq_true hle)
  · intro b hb hbase hcurrent
    have hle : b.number ≤ n := by omega
    have hmem : b ∈ c := hagree.symm.mem hb hle
    refine List.mem_filter.2 ⟨?_, decide_eq_true hle⟩
    exact h.covered b hmem (by omega) (by omega)

theorem indexed_adopts (hadopts : Watcher.Adopts c v w w' es)
    (h : Indexed c base w.currentBlockNumber blocks) :
    ∃ base', base' ≤ base ∧ (∀ n, .sent (.reorg n) ∈ es → base' ≤ n) ∧
      Indexed v.chain base' w'.currentBlockNumber (es.foldl Emission.settle blocks) := by
  cases hadopts with
  | extended announced hsub hcurrent hquiet =>
    refine ⟨base, Nat.le_refl base, ?_, ?_⟩
    · intro n hn
      obtain ⟨q, hq, heq⟩ := List.mem_map.1 hn
      cases heq
      cases hquiet _ hq
    · rw [foldl_settle_quiet, hcurrent]
      · exact h.extended hsub
      · intro e he
        obtain ⟨q, hq, rfl⟩ := List.mem_map.1 he
        rw [hquiet q hq]
        trivial
  | reorged n hagree hn hcurrent =>
    refine ⟨min base n, by omega, ?_, ?_⟩
    · intro k hk
      rcases List.mem_cons.1 hk with hk | hk
      · cases hk
        omega
      · cases List.mem_singleton.1 hk
    · rw [hcurrent]
      exact h.reorged hagree hn

theorem adopts_silent (hadopts : Watcher.Adopts c v w w' es) :
    ∀ n, .sent n ∈ es → n.logBlock = none := by
  intro n hn
  cases hadopts with
  | extended announced hsub hcurrent hquiet =>
    obtain ⟨q, hq, heq⟩ := List.mem_map.1 hn
    cases heq
    rw [hquiet _ hq]
    rfl
  | reorged number hagree hlt hcurrent =>
    rcases List.mem_cons.1 hn with hn | hn
    · cases hn
      rfl
    · cases List.mem_singleton.1 hn
      rfl

theorem quiet_nextNotifications {ns : List L1Notification}
    (h : w.nextNotifications v ((w.nextBlocks v).flatMap v.logs) = .ok ns) :
    ∀ e ∈ ns.map Emission.sent ++ [.sent (.processed (w.toBlock v))], e.IsQuiet := by
  intro e he
  rcases List.mem_append.1 he with he | he
  · obtain ⟨n, hn, rfl⟩ := List.mem_map.1 he
    rcases Watcher.nextNotifications_spec h n hn with ⟨b, -, hlog⟩ | rfl
    · cases n with
      | reorg number => cases hlog
      | _ => trivial
    · trivial
  · rw [List.mem_singleton.1 he]
    trivial

theorem indexed_queried (h : Indexed v.chain base w.currentBlockNumber blocks) :
    Indexed v.chain base w.currentBlockNumber (blocks ++ w.nextBlocks v) ∧
      Indexed v.chain base (w.toBlock v) (blocks ++ w.nextBlocks v) := by
  have hsub : ∀ b ∈ blocks ++ w.nextBlocks v, b ∈ v.chain := by
    intro b hb
    rcases List.mem_append.1 hb with hb | hb
    · exact h.subset b hb
    · exact (Watcher.mem_nextBlocks.1 hb).1
  refine ⟨⟨hsub, ?_, h.bounded⟩, ⟨hsub, ?_, ?_⟩⟩
  · intro b hb hbase hcurrent
    exact List.mem_append_left _ (h.covered b hb hbase hcurrent)
  · intro b hb hbase hto
    by_cases hcurrent : b.number ≤ w.currentBlockNumber
    · exact List.mem_append_left _ (h.covered b hb hbase hcurrent)
    · exact List.mem_append_right _ (Watcher.mem_nextBlocks.2 ⟨hb, by omega, hto⟩)
  · right
    have hlen := v.latest_number
    have hle : w.toBlock v ≤ v.latest.number := Nat.min_le_right _ _
    omega

theorem indexed_indexNext (h : Indexed v.chain base w.currentBlockNumber blocks) :
    Indexed v.chain base (w.indexNext v).watcher.currentBlockNumber
        ((w.indexNext v).emitted.foldl Emission.settle blocks) ∧
      (∀ b, .queried b ∈ (w.indexNext v).emitted → b ∈ v.chain) ∧
      ∀ n, .sent (.reorg n) ∉ (w.indexNext v).emitted := by
  have hqueried : ∀ b, .queried b ∈ (w.nextBlocks v).map Emission.queried → b ∈ v.chain := by
    intro b hb
    obtain ⟨q, hq, heq⟩ := List.mem_map.1 hb
    cases heq
    exact (Watcher.mem_nextBlocks.1 hq).1
  have hnoreorg : ∀ n, .sent (.reorg n) ∉ (w.nextBlocks v).map Emission.queried := by
    intro n hn
    obtain ⟨q, -, heq⟩ := List.mem_map.1 hn
    cases heq
  rcases w.indexNext_cases v with ⟨heq, -⟩ | ⟨es, e, heq, rfl | rfl⟩ | ⟨ns, heq, hok⟩
  · rw [heq]
    exact ⟨h, fun b hb => (List.not_mem_nil hb).elim, fun n hn => (List.not_mem_nil hn).elim⟩
  · rw [heq]
    exact ⟨h, fun b hb => (List.not_mem_nil hb).elim, fun n hn => (List.not_mem_nil hn).elim⟩
  · rw [heq]
    refine ⟨?_, hqueried, hnoreorg⟩
    rw [foldl_settle_queried]
    exact (indexed_queried h).1
  · have hquiet := quiet_nextNotifications hok
    rw [heq]
    simp only [Watcher.indexed, List.append_assoc]
    refine ⟨?_, ?_, ?_⟩
    · rw [List.foldl_append, foldl_settle_queried, foldl_settle_quiet hquiet]
      exact (indexed_queried h).2
    · intro b hb
      rcases List.mem_append.1 hb with hb | hb
      · exact hqueried b hb
      · exact (hquiet _ hb).elim
    · intro n hn
      rcases List.mem_append.1 hn with hn | hn
      · exact hnoreorg n hn
      · exact hquiet _ hn

theorem Watcher.indexNext_frame (w : Watcher) (v : L1View) :
    (w.indexNext v).watcher.unfinalizedBlocks = w.unfinalizedBlocks ∧
      (w.indexNext v).watcher.l1State = w.l1State := by
  rcases w.indexNext_cases v with ⟨heq, -⟩ | ⟨es, e, heq, -⟩ | ⟨ns, heq, -⟩
  · rw [heq]
    exact ⟨rfl, rfl⟩
  · rw [heq]
    exact ⟨rfl, rfl⟩
  · rw [heq]
    exact ⟨rfl, rfl⟩

end

section
variable {genuine : Header → Prop} {c : Chain Header} {v : L1View} {w : Watcher}

theorem BlockTree.collisionFree {d : Chain Header} (tree : BlockTree genuine)
    (hc : ∀ b ∈ c, genuine b) (hd : ∀ b ∈ d, genuine b) : CollisionFree c d := by
  intro a ha b hb hhash
  exact tree.unique a b (hc a ha) (hd b hb) hhash

/-- Every chain with the finalized block has all blocks of `c`. -/
def SettledBy (genuine : Header → Prop) (c : Chain Header) (finalized : Header) : Prop :=
  ∀ d : Chain Header, (∀ b ∈ d, genuine b) → finalized ∈ d → ∀ b ∈ c, b ∈ d

theorem settledBy_of_le (tree : BlockTree genuine) {d : Chain Header} (hd : ∀ b ∈ d, genuine b)
    {finalized : Header} (hmem : finalized ∈ d)
    (hc : ∀ b ∈ c, b ∈ d ∧ b.number ≤ finalized.number) : SettledBy genuine c finalized := by
  intro e he hfinal b hb
  have hagree := agreesTo_of_mem (tree.collisionFree hd he) hmem hfinal
  exact hagree.mem (hc b hb).1 (hc b hb).2

structure Ready (genuine : Header → Prop) (c : Chain Header) (v : L1View) (w : Watcher) : Prop where
  suffix : w.unfinalizedBlocks.data <:+ c.blocks
  settled : w.unfinalizedBlocks.data = [] → SettledBy genuine c v.finalized
  root : ∀ oldest ∈ w.unfinalizedBlocks.data.head?, Rooted v.chain oldest
  rollback : v.latest ∉ w.unfinalizedBlocks.data.dropLast

theorem ready_drained (tree : BlockTree genuine) (hc : ∀ b ∈ c, genuine b)
    {unfinalized : List Header} (hsuffix : unfinalized <:+ c.blocks) {p : ℕ}
    (hp : unfinalized[p]? = some v.finalized)
    (hdata : w.unfinalizedBlocks.data = unfinalized.drop (p + 1))
    (hrollback : v.latest ∈ unfinalized.dropLast → v.latest = v.finalized) :
    Ready genuine c v w := by
  obtain ⟨first, hdrop, hlen, hnumber⟩ := getElem?_suffix hsuffix
  have hmem : v.finalized ∈ c := hsuffix.subset (List.mem_of_getElem? hp)
  have hfinal : v.finalized.number = first + p := hnumber p v.finalized hp
  have hplen := (List.getElem?_eq_some_iff.1 hp).1
  refine ⟨?_, ?_, ?_, ?_⟩
  · rw [hdata]
    exact (List.drop_suffix _ _).trans hsuffix
  · intro hnil
    rw [hdata, List.drop_eq_nil_iff] at hnil
    refine settledBy_of_le tree hc hmem ?_
    intro b hb
    have hlt : b.number < c.blocks.length := c.number_lt hb
    exact ⟨hb, by omega⟩
  · intro oldest holdest
    rw [hdata, List.head?_drop] at holdest
    have hchild : c.blocks[first + p + 1]? = some oldest := by
      rw [hdrop, List.getElem?_drop] at holdest
      exact holdest
    have hparent := c.linked (first + p) v.finalized oldest
      (hfinal ▸ (c.mem_iff v.finalized).1 hmem) hchild
    have holdnumber : oldest.number = first + (p + 1) := hnumber (p + 1) oldest holdest
    refine Or.inr ⟨v.finalized, v.finalized_mem, ?_, hparent.symm⟩
    change v.finalized.number + 1 = oldest.number
    omega
  · intro hin
    rw [hdata] at hin
    have hkept : v.latest ∈ unfinalized.dropLast := by
      rw [List.dropLast_eq_take, List.length_drop] at hin
      rw [List.dropLast_eq_take]
      rw [List.take_drop] at hin
      have hcut := List.mem_of_mem_drop hin
      have hle : p + 1 + (unfinalized.length - (p + 1) - 1) ≤ unfinalized.length - 1 := by
        by_cases hsmall : unfinalized.length ≤ p + 1
        · have hzero : unfinalized.length - (p + 1) - 1 = 0 := by omega
          rw [hzero, Nat.add_zero, List.drop_take, Nat.sub_self, List.take_zero] at hin
          cases hin
        · omega
      exact (List.take_prefix_take_left hle).subset hcut
    have heq := hrollback hkept
    rw [heq] at hin
    obtain ⟨i, hi⟩ := List.mem_iff_getElem?.1 (List.dropLast_subset _ hin)
    rw [List.getElem?_drop] at hi
    have hagain : v.finalized.number = first + (p + 1 + i) := hnumber _ _ hi
    omega

namespace Watch

/-- What holds between polls, with the chain `c` that was adopted last. -/
structure Tracks (genuine : Header → Prop) (s : Watch) (base : ℕ) (c : Chain Header) : Prop where
  known : ∀ b ∈ c, genuine b
  suffix : s.watcher.unfinalizedBlocks.data <:+ c.blocks
  settled : s.watcher.unfinalizedBlocks.data = [] → ∀ d : Chain Header, (∀ b ∈ d, genuine b) →
    (∀ u ∈ s.served, u.finalized ∈ d) → ∀ b ∈ c, b ∈ d
  indexed : Indexed c base s.watcher.currentBlockNumber (outstanding s.trace)
  reorgs : ∀ n, .sent (.reorg n) ∈ s.trace → base ≤ n

variable {s : Watch} {base : ℕ}

theorem Tracks.settledBy (tree : BlockTree genuine) (h : Tracks genuine s base c)
    (hserves : s.Serves genuine v) (hnil : s.watcher.unfinalizedBlocks.data = []) :
    SettledBy genuine c v.finalized := by
  intro d hd hfinal
  refine h.settled hnil d hd ?_
  intro u hu
  have hagree := agreesTo_of_mem (tree.collisionFree hserves.1 hd) v.finalized_mem hfinal
  obtain ⟨hmem, hle⟩ := hserves.2 u hu
  exact hagree.mem hmem hle

theorem ready_handleFinalizedBlock (tree : BlockTree genuine) (h : Tracks genuine s base c)
    (hserves : s.Serves genuine v) (hfork : s.RemembersFork v) :
    Ready genuine c v (s.watcher.handleFinalizedBlock v.finalized).watcher := by
  have hcf := tree.collisionFree h.known hserves.1
  rcases s.watcher.handleFinalizedBlock_cases v.finalized with ⟨hdata, hne, -⟩ |
    ⟨hdata, tail, htail, hlt⟩ | ⟨p, found, hp, hhash, hdata⟩
  · refine ⟨?_, ?_, ?_, ?_⟩
    · rw [hdata]
      exact h.suffix
    · rw [hdata]
      exact h.settledBy tree hserves
    · rw [hdata]
      exact hfork.window
    · rw [hdata]
      intro hin
      have heq := hfork.rollback hin
      exact hne v.latest (List.dropLast_subset _ hin) (congrArg Header.hash heq)
  · refine ⟨?_, ?_, ?_, ?_⟩
    · rw [hdata]
      exact List.nil_suffix
    · intro _
      have htip := (Watcher.tip_of_suffix h.suffix htail).1
      have hsub := (subset_of_tip hcf htip (hfork.jump tail htail hlt)).2
      have hlen : tail.number + 1 = c.blocks.length := c.number_getLast htip
      refine settledBy_of_le tree hserves.1 v.finalized_mem ?_
      intro b hb
      have hnumber : b.number < c.blocks.length := c.number_lt hb
      exact ⟨hsub b hb, by omega⟩
    · rw [hdata]
      exact fun oldest holdest => by cases holdest
    · rw [hdata]
      exact List.not_mem_nil
  · have hmem : found ∈ c := h.suffix.subset (List.mem_of_getElem? hp)
    have heq : found = v.finalized := hcf found hmem v.finalized v.finalized_mem hhash
    exact ready_drained tree h.known h.suffix (heq ▸ hp) hdata hfork.rollback

theorem Tracks.interrupted (h : Tracks genuine s base c) {w : Watcher}
    (hsuffix : w.unfinalizedBlocks.data <:+ c.blocks)
    (hsettled : w.unfinalizedBlocks.data = [] → SettledBy genuine c v.finalized)
    (hcurrent : w.currentBlockNumber = s.watcher.currentBlockNumber)
    (hes : ∀ e ∈ es, e = .sent (.finalized v.finalized.number)) :
    Tracks genuine ⟨w, s.trace ++ es, some v⟩ base c := by
  refine ⟨h.known, hsuffix, ?_, ?_, ?_⟩
  · intro hnil d hd hserved
    exact hsettled hnil d hd (hserved v rfl)
  · change Indexed c base w.currentBlockNumber (outstanding (s.trace ++ es))
    rw [hcurrent, outstanding, List.foldl_append, foldl_settle_quiet]
    · exact h.indexed
    · intro e he
      rw [hes e he]
      trivial
  · intro n hn
    rcases List.mem_append.1 hn with hn | hn
    · exact h.reorgs n hn
    · cases hes _ hn

theorem reportedFirst_finalized {blocks : List Header}
    (hes : ∀ e ∈ es, e = .sent (.finalized v.finalized.number)) : ReportedFirst v.chain blocks es := by
  refine reportedFirst_of_no_logs ?_
  intro n hn
  cases hes _ hn
  rfl

theorem tracks_adopted (tree : BlockTree genuine) (h : Tracks genuine s base c)
    (hserves : s.Serves genuine v) (hready : Ready genuine c v w)
    (hcurrent : w.currentBlockNumber = s.watcher.currentBlockNumber)
    (hes : ∀ e ∈ es, e = .sent (.finalized v.finalized.number))
    (hok : (w.handleLatestBlock v).result = .ok ()) : let second := w.handleLatestBlock v
    let third := second.watcher.indexNext v
    let emitted := es ++ (second.emitted ++ third.emitted)
    (∃ base', Tracks genuine ⟨third.watcher, s.trace ++ emitted, some v⟩ base' v.chain) ∧
      ReportedFirst v.chain (outstanding s.trace) emitted := by
  intro second third emitted
  have hcf := tree.collisionFree h.known hserves.1
  have hlatest : v.latest ∈ v.chain := List.mem_of_getLast? v.latest_tip
  obtain ⟨hadopts, hsuffix, hne⟩ := Watcher.handleLatestBlock_ok hcf
    (fun b hb hparent => tree.numbered b v.latest (h.known b hb) (hserves.1 _ hlatest) hparent)
    hready.suffix (fun hnil => hready.settled hnil v.chain hserves.1 v.finalized_mem)
    hready.root hready.rollback hok
  have hquiet : es.foldl Emission.settle (outstanding s.trace) = outstanding s.trace := by
    refine foldl_settle_quiet ?_ _
    intro e he
    rw [hes e he]
    trivial
  have hindexed := h.indexed
  rw [← hcurrent] at hindexed
  obtain ⟨base', hle, hreorg, hadopted⟩ := indexed_adopts hadopts hindexed
  obtain ⟨hnext, hqueried, hnoreorg⟩ := indexed_indexNext hadopted
  constructor
  · refine ⟨base', hserves.1, ?_, ?_, ?_, ?_⟩
    · change third.watcher.unfinalizedBlocks.data <:+ v.chain.blocks
      rw [(Watcher.indexNext_frame _ _).1]
      exact hsuffix
    · intro hnil
      change third.watcher.unfinalizedBlocks.data = [] at hnil
      rw [(Watcher.indexNext_frame _ _).1] at hnil
      exact absurd hnil hne
    · change Indexed v.chain base' third.watcher.currentBlockNumber (outstanding (s.trace ++ emitted))
      unfold outstanding
      rw [List.foldl_append, List.foldl_append, List.foldl_append]
      change Indexed v.chain base' _ (List.foldl _ (List.foldl _ (es.foldl Emission.settle
        (outstanding s.trace)) _) _)
      rw [hquiet]
      exact hnext
    · intro n hn
      rcases List.mem_append.1 hn with hn | hn
      · have hbase := h.reorgs n hn
        omega
      · rcases List.mem_append.1 hn with hn | hn
        · cases hes _ hn
        · rcases List.mem_append.1 hn with hn | hn
          · exact hreorg n hn
          · exact absurd hn (hnoreorg n)
  · refine reportedFirst_append (reportedFirst_finalized hes) ?_
    rw [hquiet]
    refine reportedFirst_append (reportedFirst_of_no_logs (adopts_silent hadopts)) ?_
    exact reportedFirst_of_subset hadopted.subset hqueried

/-- A poll keeps the remembered headers the end of a chain, and reports what it replaces. -/
theorem tracks_poll (tree : BlockTree genuine) (h : Tracks genuine s base c)
    (hserves : s.Serves genuine v) (hfork : s.RemembersFork v) :
    (∃ base' c', Tracks genuine (s.poll v) base' c') ∧ s.ReportsReorgs v := by
  have hready := ready_handleFinalizedBlock tree h hserves hfork
  obtain ⟨-, hcurrent, hsent⟩ := s.watcher.handleFinalizedBlock_frame v.finalized
  have hreturns := (s.watcher.handleFinalizedBlock v.finalized).watcher.fetchUnfinalizedChain_returns v
  rcases s.watcher.step_cases v with ⟨e, hstep⟩ | ⟨e, hstep⟩ | ⟨hok, hstep⟩
  · refine ⟨⟨base, c, ?_⟩, hreturns, ?_, ?_⟩
    · unfold poll
      rw [hstep]
      exact h.interrupted h.suffix (h.settledBy tree hserves) rfl (fun e he => by cases he)
    · rw [hstep]
      trivial
    · rw [hstep]
      exact fun hok => by cases hok
  · refine ⟨⟨base, c, ?_⟩, hreturns, ?_, ?_⟩
    · unfold poll
      rw [hstep]
      exact h.interrupted hready.suffix hready.settled hcurrent hsent
    · rw [hstep]
      exact reportedFirst_finalized hsent
    · rw [hstep]
      exact fun hok => by cases hok
  · obtain ⟨⟨base', htracks⟩, hreported⟩ := tracks_adopted tree h hserves hready hcurrent hsent hok
    have hpoll : s.poll v = ⟨_, _, some v⟩ := congrArg
      (fun stepped : Stepped => Watch.mk stepped.watcher (s.trace ++ stepped.emitted) (some v)) hstep
    rw [← hpoll] at htracks
    refine ⟨⟨base', v.chain, htracks⟩, hreturns, ?_, ?_⟩
    · rw [hstep]
      exact hreported
    · intro _ early n late htrace b hb hn hle
      have hbase := htracks.reorgs n (by rw [htrace]; exact List.mem_append_right _ List.mem_cons_self)
      have hmem := htracks.indexed.covered b hb (by omega) hle
      rw [htrace] at hmem
      exact queried_after_reorg hmem hn

end Watch

end

def Watch.start (l1State : L1State) (currentBlockNumber logQueryBlockRange : ℕ) : Watch where
  watcher := ⟨.new, l1State, currentBlockNumber, logQueryBlockRange⟩
  trace := []
  served := none

theorem Watch.tracks_start (genuine : Header → Prop) (l1State : L1State)
    (currentBlockNumber logQueryBlockRange : ℕ) :
    Watch.Tracks genuine (Watch.start l1State currentBlockNumber logQueryBlockRange)
      currentBlockNumber .empty := by
  have hnone : ∀ b : Header, b ∉ (Chain.empty : Chain Header) := fun b hb => List.not_mem_nil hb
  refine ⟨fun b hb => absurd hb (hnone b), List.nil_suffix, ?_, ⟨?_, ?_, Or.inl (Nat.le_refl _)⟩, ?_⟩
  · intro _ d _ _ b hb
    exact absurd hb (hnone b)
  · exact fun b hb => (List.not_mem_nil hb).elim
  · exact fun b hb => absurd hb (hnone b)
  · exact fun n hn => (List.not_mem_nil hn).elim

/-- Every reorg of queried blocks is reported while the remembered headers show where the chains
part. -/
theorem reportsReorgs_of_remembersFork (genuine : Header → Prop) (tree : BlockTree genuine)
    (l1State : L1State) (currentBlockNumber logQueryBlockRange : ℕ) (views : List L1View)
    (hserves : Meets Watch.poll (Watch.Serves genuine)
      (Watch.start l1State currentBlockNumber logQueryBlockRange) views)
    (hfork : Meets Watch.poll Watch.RemembersFork
      (Watch.start l1State currentBlockNumber logQueryBlockRange) views) :
    Meets Watch.poll Watch.ReportsReorgs
      (Watch.start l1State currentBlockNumber logQueryBlockRange) views := by
  refine (hserves.and Watch.poll hfork).of_invariant Watch.poll
    (fun s => ∃ base c, s.Tracks genuine base c) ?_
    ⟨currentBlockNumber, .empty, Watch.tracks_start genuine l1State _ _⟩
  intro s v htracks hcond
  obtain ⟨base, c, h⟩ := htracks
  exact Watch.tracks_poll tree h hcond.1 hcond.2

def header (number : ℕ) (hash parentHash : B256) : Header := ⟨number, hash, parentHash, 12 * number⟩

def forkedBlocks : List Header :=
  [header 0 1000 0, header 1 1001 1000, header 2 1002 1001, header 3 1003 1002, header 3 2003 1002]

theorem blockTree_forkedBlocks : BlockTree (· ∈ forkedBlocks) := by
  have hunique : ∀ a ∈ forkedBlocks, ∀ b ∈ forkedBlocks, a.hash = b.hash → a = b := by decide
  have hnumbered : ∀ a ∈ forkedBlocks, ∀ b ∈ forkedBlocks, b.parentHash = a.hash →
      b.number = a.number + 1 := by decide
  exact ⟨fun a b ha hb => hunique a ha b hb, fun a b ha hb => hnumbered a ha b hb⟩

def messageView (chain : Chain Header) (hgenesis : header 0 1000 0 ∈ chain) (latest : Header)
    (htip : chain.blocks.getLast? = some latest) : L1View where
  chain := chain
  finalized := header 0 1000 0
  finalized_mem := hgenesis
  latest := latest
  latest_tip := htip
  logs b := [⟨.queueTransaction b.number 21000 b.hash, some b.number, some b.hash,
    some b.timestamp, none⟩]
  logs_block := by
    intro b _ log hlog
    rw [List.mem_singleton.1 hlog]
    exact ⟨fun n hn => (Option.some.inj hn).symm, fun h hh => (Option.some.inj hh).symm⟩
  transaction _ := none
  authorizedSigner := 0
  fails _ := false

def viewOfThree : L1View :=
  messageView (.ofBlocks [header 0 1000 0, header 1 1001 1000, header 2 1002 1001,
    header 3 1003 1002] (by decide) (by decide)) (by decide) (header 3 1003 1002) rfl

def viewOfTwo : L1View :=
  messageView (.ofBlocks [header 0 1000 0, header 1 1001 1000, header 2 1002 1001] (by decide)
    (by decide)) (by decide) (header 2 1002 1001) rfl

def viewOfOther : L1View :=
  messageView (.ofBlocks [header 0 1000 0, header 1 1001 1000, header 2 1002 1001,
    header 3 2003 1002] (by decide) (by decide)) (by decide) (header 3 2003 1002) rfl

theorem known_views : (∀ b ∈ viewOfThree.chain, b ∈ forkedBlocks) ∧
    (∀ b ∈ viewOfTwo.chain, b ∈ forkedBlocks) ∧ ∀ b ∈ viewOfOther.chain, b ∈ forkedBlocks := by
  have hsub : (∀ b ∈ viewOfThree.chain.blocks, b ∈ forkedBlocks) ∧
    (∀ b ∈ viewOfTwo.chain.blocks, b ∈ forkedBlocks) ∧
      ∀ b ∈ viewOfOther.chain.blocks, b ∈ forkedBlocks := by decide
  exact hsub

theorem serves_first (v : L1View) (h : ∀ b ∈ v.chain, b ∈ forkedBlocks) :
    Watch.Serves (· ∈ forkedBlocks) (.start ⟨0, 0⟩ 0 500) v :=
  ⟨h, fun u hu => by cases hu⟩

/-- The third block is replaced between two polls. -/
theorem reportsReorgs_replacedThird :
    Meets Watch.poll Watch.ReportsReorgs (.start ⟨0, 0⟩ 0 500) [viewOfThree, viewOfOther] := by
  refine reportsReorgs_of_remembersFork (· ∈ forkedBlocks) blockTree_forkedBlocks ⟨0, 0⟩ 0 500 _ ?_ ?_
  · refine ⟨serves_first _ known_views.1, ⟨known_views.2.2, ?_⟩, trivial⟩
    rintro u ⟨⟩
    exact ⟨by decide, by decide⟩
  · refine ⟨⟨?_, ?_, ?_⟩, ⟨?_, ?_, ?_⟩, trivial⟩
    · rintro tail ⟨⟩
    · rintro oldest ⟨⟩
    · rintro ⟨⟩
    · rintro tail ⟨⟩ hlt
      exact absurd hlt (by decide)
    · rintro oldest ⟨⟩
      exact Or.inl (by decide)
    · intro hin
      exact absurd hin (by decide)

/-- The chain goes back to block 2 and grows another block 3: the events of the first block 3
are never taken back. -/
theorem rollback_then_fork_is_not_reported :
    Meets Watch.poll (Watch.Serves (· ∈ forkedBlocks)) (.start ⟨0, 0⟩ 0 500)
        [viewOfThree, viewOfTwo, viewOfOther] ∧
      ¬Meets Watch.poll Watch.ReportsReorgs (.start ⟨0, 0⟩ 0 500)
        [viewOfThree, viewOfTwo, viewOfOther] := by
  constructor
  · refine ⟨serves_first _ known_views.1, ⟨known_views.2.1, ?_⟩, ⟨known_views.2.2, ?_⟩, trivial⟩
    · rintro u ⟨⟩
      exact ⟨by decide, by decide⟩
    · rintro u ⟨⟩
      exact ⟨by decide, by decide⟩
  · rintro ⟨-, -, h, -⟩
    -- the third emission of the last poll announces the message of the other block 3
    have hsent := h.reported.2.2.1 (.l1Message ⟨3, 21000, 2003⟩ ⟨3, 2003⟩ 36) ⟨3, 2003⟩ rfl rfl
      (header 3 1003 1002) (by decide) (by decide)
    exact absurd hsent (by decide)

end RollupNode
