import RollupNode.IncludedMessages

set_option autoImplicit false

/-! Consolidation in chunks: every chunk continues where the one before it ended. -/
namespace RollupNode
open RelationalTable ExceptTraversal

theorem flatten_toChunks_go {α : Type} (size : ℕ) (xs : List α) (current : Array α)
    (done : Array (List α)) :
    (List.toChunks.go size xs current done).flatten =
      done.toList.flatten ++ (current.toList ++ xs) := by
  induction xs generalizing current done with
  | nil => simp [List.toChunks.go]
  | cons x xs ih =>
    rw [List.toChunks.go]
    split
    · rw [ih]
      simp
    · rw [ih]
      simp

theorem flatten_toChunks {α : Type} (size : ℕ) (xs : List α) : (xs.toChunks size).flatten = xs := by
  cases xs with
  | nil => simp [List.toChunks]
  | cons x xs =>
    cases size with
    | zero => simp [List.toChunks]
    | succ size =>
      rw [List.toChunks, flatten_toChunks_go]
      · simp
      · simp

theorem ne_nil_of_mem_toChunks_go {α : Type} (size : ℕ) (xs : List α) (current : Array α)
    (done : Array (List α)) (hcurrent : current.toList ≠ []) (hdone : ∀ c ∈ done.toList, c ≠ []) :
    ∀ c ∈ List.toChunks.go size xs current done, c ≠ [] := by
  induction xs generalizing current done with
  | nil =>
    intro c hc
    rw [List.toChunks.go, Array.toList_push] at hc
    rcases List.mem_append.1 hc with hc | hc
    · exact hdone c hc
    · rwa [List.mem_singleton.1 hc]
  | cons x xs ih =>
    rw [List.toChunks.go]
    split
    · refine ih _ _ (by simp) ?_
      intro c hc
      rw [Array.toList_push] at hc
      rcases List.mem_append.1 hc with hc | hc
      · exact hdone c hc
      · rwa [List.mem_singleton.1 hc]
    · exact ih _ _ (by simp) hdone

theorem ne_nil_of_mem_toChunks {α : Type} (size : ℕ) (xs : List α) :
    ∀ c ∈ xs.toChunks size, c ≠ [] := by
  cases xs with
  | nil => simp [List.toChunks]
  | cons x xs =>
    cases size with
    | zero => simp [List.toChunks]
    | succ size =>
      rw [List.toChunks]
      · exact ne_nil_of_mem_toChunks_go _ _ _ _ (by simp) (by simp)
      · simp

def compareHashes : List B256 → List B256 → Except Halt Unit
  | [], _ => .ok ()
  | hash :: _, [] => .error (.error (.l1MessageNotFound (.transactionHash hash)))
  | hash :: hashes, expected :: rest =>
    if hash = expected then compareHashes hashes rest
    else .error (.error (.l1MessageMismatch expected hash))

theorem compareL1Messages_eq (hashes : List B256) (messages : List L1MessageEnvelope) :
    Node.compareL1Messages hashes messages =
      compareHashes hashes (messages.map (·.transaction.txHash)) := by
  induction hashes generalizing messages with
  | nil => rfl
  | cons hash hashes ih =>
    cases messages with
    | nil => rfl
    | cons message messages =>
      rw [Node.compareL1Messages, List.map_cons, compareHashes, ih]

theorem compareHashes_take (hashes expected : List B256) :
    compareHashes hashes (expected.take hashes.length) = compareHashes hashes expected := by
  induction hashes generalizing expected with
  | nil => rfl
  | cons hash hashes ih =>
    cases expected with
    | nil => rfl
    | cons e expected =>
      rw [List.length_cons, List.take_succ_cons, compareHashes, compareHashes, ih]

theorem compareHashes_append (first second expected : List B256) :
    compareHashes (first ++ second) expected =
      (compareHashes first expected >>= fun _ =>
        compareHashes second (expected.drop first.length)) := by
  induction first generalizing expected with
  | nil => rfl
  | cons hash first ih =>
    cases expected with
    | nil => rfl
    | cons e expected =>
      rw [List.cons_append, compareHashes, compareHashes, List.length_cons, List.drop_succ_cons]
      split
      · exact ih expected
      · rfl

theorem compareHashes_eq_ok (hashes expected : List B256) :
    compareHashes hashes expected = .ok () ↔ hashes <+: expected := by
  induction hashes generalizing expected with
  | nil => exact iff_of_true rfl List.nil_prefix
  | cons hash hashes ih =>
    cases expected with
    | nil =>
      refine iff_of_false ?_ ?_
      · intro h
        cases h
      · intro h
        exact absurd h.length_le (by simp)
    | cons e expected =>
      rw [compareHashes, List.cons_prefix_cons]
      split
      · rename_i heq
        rw [ih]
        exact (and_iff_right heq).symm
      · rename_i hne
        refine iff_of_false ?_ (fun h => hne h.1)
        intro h
        cases h

def hashesOf (blocks : List L2Block) : List B256 := blocks.flatMap (·.l1Messages)

theorem hashesOf_append (first second : List L2Block) :
    hashesOf (first ++ second) = hashesOf first ++ hashesOf second := List.flatMap_append

theorem allHashes_withL1Messages (blocks : List L2Block) :
    Db.allHashes (blocks.map (·.withL1Messages)) = hashesOf blocks := by
  rw [Db.allHashes, List.flatMap_map]
  rfl

def blockOf (blocks : List L2Block) (hash : B256) : Option ℕ :=
  (blocks.find? (fun b => hash ∈ b.l1Messages)).map (·.number)

theorem caseNumber_withL1Messages (blocks : List L2Block) (hash : B256) :
    Db.caseNumber (blocks.map (·.withL1Messages)) hash = blockOf blocks hash := by
  rw [Db.caseNumber, blockOf, List.find?_map, Option.map_map]
  rfl

theorem blockOf_append (first second : List L2Block) (hash : B256) :
    blockOf (first ++ second) hash = (blockOf first hash).or (blockOf second hash) := by
  rw [blockOf, blockOf, blockOf, List.find?_append]
  cases first.find? (fun b => hash ∈ b.l1Messages) with
  | none => rfl
  | some b => rfl

variable {blocks recorded : List L2Block} {hash : B256} {r : L1MessageRow}

theorem blockOf_eq_none : blockOf blocks hash = none ↔ hash ∉ hashesOf blocks := by
  rw [blockOf, Option.map_eq_none_iff, List.find?_eq_none, hashesOf, List.mem_flatMap]
  simp

theorem blockOf_mem {n : ℕ} (h : blockOf blocks hash = some n) :
    ∃ b ∈ blocks, hash ∈ b.l1Messages ∧ b.number = n := by
  obtain ⟨b, hb, rfl⟩ := Option.map_eq_some_iff.1 h
  have hlisted := List.find?_some hb
  exact ⟨b, List.mem_of_find?_eq_some hb, of_decide_eq_true hlisted, rfl⟩

theorem blockOf_cons (b : L2Block) (bs : List L2Block) (hash : B256) :
    blockOf (b :: bs) hash = if hash ∈ b.l1Messages then some b.number else blockOf bs hash := by
  rw [blockOf, blockOf, List.find?_cons]
  by_cases hmem : hash ∈ b.l1Messages
  · simp [hmem]
  · simp [hmem]

theorem blockOf_le_last (hascending : blocks.Pairwise (fun a b => a.number < b.number))
    (hdistinct : (hashesOf blocks).Nodup) {last : B256} {m n : ℕ}
    (hlast : (hashesOf blocks).getLast? = some last) (hm : blockOf blocks last = some m)
    (hn : blockOf blocks hash = some n) : n ≤ m := by
  induction blocks with
  | nil => cases hlast
  | cons b bs ih =>
    obtain ⟨hbelow, hbs⟩ := List.pairwise_cons.1 hascending
    have happend : hashesOf (b :: bs) = b.l1Messages ++ hashesOf bs := rfl
    rw [happend] at hdistinct hlast
    obtain ⟨-, hdistinct, hdisjoint⟩ := List.nodup_append.1 hdistinct
    rw [blockOf_cons] at hm hn
    by_cases hempty : hashesOf bs = []
    · have hall : ∀ g, g ∉ hashesOf bs := by
        intro g
        rw [hempty]
        exact List.not_mem_nil
      have hnone : ∀ g, blockOf bs g = none := fun g => blockOf_eq_none.2 (hall g)
      rw [hnone] at hm hn
      split at hm
      · cases hm
        split at hn
        · cases hn
          exact Nat.le_refl _
        · cases hn
      · cases hm
    · obtain ⟨front, final, hfinal⟩ := List.eq_nil_or_concat' (hashesOf bs) |>.resolve_left hempty
      have hlastbs : (hashesOf bs).getLast? = some last := by
        rw [hfinal, ← List.append_assoc, List.getLast?_concat] at hlast
        rw [hfinal, List.getLast?_concat, hlast]
      have hmem : last ∈ hashesOf bs := List.mem_of_getLast? hlastbs
      have hother : last ∉ b.l1Messages := fun hb => hdisjoint last hb last hmem rfl
      rw [if_neg hother] at hm
      split at hn
      · cases hn
        obtain ⟨c, hc, -, rfl⟩ := blockOf_mem hm
        exact Nat.le_of_lt (hbelow c hc)
      · exact ih hbs hdistinct hlastbs hm hn

def numberedHashes (blocks : List L2Block) : List (Option ℕ × B256) :=
  blocks.flatMap (fun b => b.l1Messages.map (fun hash => (some b.number, hash)))

theorem map_blockOf (hdistinct : (hashesOf blocks).Nodup) :
    (hashesOf blocks).map (fun hash => (blockOf blocks hash, hash)) = numberedHashes blocks := by
  induction blocks with
  | nil => rfl
  | cons b bs ih =>
    have happend : hashesOf (b :: bs) = b.l1Messages ++ hashesOf bs := rfl
    have hnumbered : numberedHashes (b :: bs) =
        b.l1Messages.map (fun hash => (some b.number, hash)) ++ numberedHashes bs := rfl
    rw [happend] at hdistinct
    obtain ⟨-, hrest, hdisjoint⟩ := List.nodup_append.1 hdistinct
    rw [happend, List.map_append, hnumbered, ← ih hrest]
    congr 1
    · refine List.map_congr_left ?_
      intro hash hmem
      rw [blockOf_cons, if_pos hmem]
    · refine List.map_congr_left ?_
      intro hash hmem
      rw [blockOf_cons, if_neg (fun hb => hdisjoint hash hb hash hmem rfl)]

namespace Db

def expectedHashes (db : Db) (number : ℕ) : List B256 :=
  (db.expectedRows number).map L1MessageRow.hash

theorem validateL1Messages_eq {number : ℕ} (db : Db)
    (hfirst : (blocks.head?.map (·.number)).all (· = number)) :
    Node.validateL1Messages db blocks = compareHashes (hashesOf blocks) (db.expectedHashes number) := by
  cases blocks with
  | nil => rfl
  | cons first rest =>
    have hnumber : first.number = number := by simpa using hfirst
    rw [Node.validateL1Messages_cons (db.getNL1Messages_blockNumber _ _), compareL1Messages_eq,
      List.map_map, hnumber]
    have henvelope : (fun m : L1MessageEnvelope => m.transaction.txHash) ∘ L1MessageRow.toEnvelope =
        L1MessageRow.hash := rfl
    rw [henvelope, List.map_take]
    exact compareHashes_take _ _

theorem lastIndex_eq_some {number : ℕ} {db : Db} {m : ℕ} (hr : r ∈ db.l1Messages)
    (hm : r.l2BlockNumber = some m) (hlt : m < number)
    (hlast : ∀ q ∈ db.l1Messages, ∀ n, q.l2BlockNumber = some n → n < number →
      n < m ∨ n = m ∧ q.queueIndex ≤ r.queueIndex) : db.lastIndex number = some r.queueIndex := by
  rcases db.lastIndex_spec number with ⟨-, hnone⟩ | ⟨record, hmem, n, hindex, hn, hbelow, hbound⟩
  · have hle := hnone r hr m hm
    omega
  · have hone := hbound r hr m hm hlt
    have hother := hlast record hmem n hn hbelow
    rw [hindex]
    congr 1
    omega

theorem lastIndex_eq_none {number : ℕ} {db : Db}
    (hnone : ∀ q ∈ db.l1Messages, ∀ n, q.l2BlockNumber = some n → number ≤ n) :
    db.lastIndex number = none := by
  rcases db.lastIndex_spec number with ⟨hindex, -⟩ | ⟨record, hmem, n, -, hn, hbelow, -⟩
  · exact hindex
  · have hle := hnone record hmem n hn
    omega

end Db

def L1MessageRow.mappedTo (r : L1MessageRow) (number : Option ℕ) : L1MessageRow :=
  { r with l2BlockNumber := number }

namespace Db

def remap (db : Db) (g : L1MessageRow → Option ℕ) : Db :=
  { db with
    l1Messages := db.l1Messages.updateWhere (fun _ => true) (fun r => r.mappedTo (g r))
      (fun _ => rfl) }

theorem remap_rows (db : Db) (g : L1MessageRow → Option ℕ) :
    (db.remap g).l1Messages.rows = db.l1Messages.rows.map (fun r => r.mappedTo (g r)) := rfl

theorem mem_remap {g : L1MessageRow → Option ℕ} {db : Db} {q : L1MessageRow} :
    q ∈ (db.remap g).l1Messages ↔ ∃ r ∈ db.l1Messages, r.mappedTo (g r) = q := List.mem_map

theorem queueRows_remap (db : Db) (g : L1MessageRow → Option ℕ) :
    (db.remap g).queueRows = db.queueRows.map (fun r => r.mappedTo (g r)) :=
  orderBy_map _ _ (fun _ => rfl)

theorem remap_congr {g : L1MessageRow → Option ℕ} {db : Db} {f : L1MessageRow → Option ℕ}
    (h : ∀ r ∈ db.l1Messages, f r = g r) :
    db.remap f = db.remap g := by
  have hrows : (db.remap f).l1Messages = (db.remap g).l1Messages := by
    refine Table.ext_rows (List.map_congr_left ?_)
    intro r hr
    simp only [if_true, h r hr]
  exact congrArg (fun t => { db with l1Messages := t }) hrows

theorem remap_remap (db : Db) (f g : L1MessageRow → Option ℕ) :
    (db.remap f).remap g = db.remap (fun r => g (r.mappedTo (f r))) := by
  have hrows : ((db.remap f).remap g).l1Messages =
      (db.remap (fun r => g (r.mappedTo (f r)))).l1Messages := by
    refine Table.ext_rows ?_
    rw [remap_rows, remap_rows, remap_rows, List.map_map]
    rfl
  exact congrArg (fun t => { db with l1Messages := t }) hrows

theorem remap_eq_updateWhere (db : Db) (p : L1MessageRow → Bool) (g : L1MessageRow → Option ℕ) :
    { db with
      l1Messages := db.l1Messages.updateWhere p (fun r => r.mappedTo (g r)) (fun _ => rfl) } =
    db.remap (fun r => if p r then g r else r.l2BlockNumber) := by
  have hrows : db.l1Messages.updateWhere p (fun r => r.mappedTo (g r)) (fun _ => rfl) =
      (db.remap (fun r => if p r then g r else r.l2BlockNumber)).l1Messages := by
    refine Table.ext_rows (List.map_congr_left ?_)
    intro r _
    by_cases hr : p r
    · simp only [hr, if_true]
    · simp only [hr, if_true, if_false, Bool.false_eq_true]
      rfl
  exact congrArg (fun t => { db with l1Messages := t }) hrows

theorem unmapWhere_eq_remap (db : Db) (p : ℕ → Bool) :
    db.unmapWhere p = db.remap (fun r => r.l2BlockNumber.filter (fun n => !p n)) := by
  refine (db.remap_eq_updateWhere (fun r => r.l2BlockNumber.any p) (fun _ => none)).trans
    (remap_congr ?_)
  intro r _
  cases r.l2BlockNumber with
  | none => rfl
  | some n =>
    cases hn : p n with
    | false => simp [hn, Option.filter]
    | true => simp [hn, Option.filter]

theorem updateL1MessagesWithL2Blocks_eq_remap (db : Db) (blocks : List L2Block) :
    db.updateL1MessagesWithL2Blocks (blocks.map (·.withL1Messages)) =
      db.remap (fun r => (blockOf blocks r.hash).or r.l2BlockNumber) := by
  refine (db.remap_eq_updateWhere _ _).trans (remap_congr ?_)
  intro r _
  rw [allHashes_withL1Messages, caseNumber_withL1Messages]
  by_cases hr : r.hash ∈ hashesOf blocks
  · rw [if_pos (decide_eq_true hr)]
    cases hn : blockOf blocks r.hash with
    | none => exact absurd hr (blockOf_eq_none.1 hn)
    | some n => rfl
  · rw [if_neg (by simpa using hr), blockOf_eq_none.2 hr, Option.none_or]

/-- The mapping of a message once the blocks above the safe one are recorded. -/
def unsafeMapping (safe : ℕ) (blocks : List L2Block) (r : L1MessageRow) : Option ℕ :=
  (blockOf blocks r.hash).or (r.l2BlockNumber.filter (· ≤ safe))

/-- The first blocks above the safe one are recorded, all others are forgotten. Before the first
block nothing is. -/
def withUnsafe (db : Db) (safe : ℕ) (blocks : List L2Block) : Db :=
  if blocks = [] then db else db.remap (unsafeMapping safe blocks)

theorem withUnsafe_nil (db : Db) (safe : ℕ) : db.withUnsafe safe [] = db := rfl

theorem filter_not_above (safe : ℕ) (number : Option ℕ) :
    number.filter (fun n => !decide (safe < n)) = number.filter (· ≤ safe) := by
  congr 1
  funext n
  by_cases hn : n ≤ safe
  · simp [hn]
  · simp [hn, Nat.lt_of_not_le hn]

def Numbered (safe : ℕ) (blocks : List L2Block) : Prop :=
  blocks.map (·.number) = List.range' (safe + 1) blocks.length

theorem Numbered.bounds {safe : ℕ} (h : Numbered safe blocks) {b : L2Block} (hb : b ∈ blocks) :
    safe < b.number ∧ b.number ≤ safe + blocks.length := by
  have hmem : b.number ∈ blocks.map (·.number) := List.mem_map.2 ⟨b, hb, rfl⟩
  rw [h, List.mem_range'_1] at hmem
  omega

theorem Numbered.ascending {safe : ℕ} (h : Numbered safe blocks) :
    blocks.Pairwise (fun a b => a.number < b.number) := by
  have hrange : (blocks.map (·.number)).Pairwise (· < ·) := by
    rw [h]
    exact List.pairwise_lt_range'
  exact List.pairwise_map.1 hrange

theorem Numbered.append {safe : ℕ} {first second : List L2Block} :
    Numbered safe (first ++ second) ↔
      Numbered safe first ∧ Numbered (safe + first.length) second := by
  rw [Numbered, Numbered, Numbered, List.map_append, List.length_append,
    ← List.range'_append_1]
  have hcomm : safe + 1 + first.length = safe + first.length + 1 := by omega
  rw [hcomm]
  constructor
  · intro h
    exact List.append_inj h (by simp)
  · rintro ⟨hfirst, hsecond⟩
    rw [hfirst, hsecond]

variable {db : Db} {safe : ℕ}

theorem updateL1MessagesFromL2Blocks_withUnsafe {chunk : List L2Block}
    (hnumbered : Numbered safe (recorded ++ chunk)) (hchunk : chunk ≠ [])
    (hdistinct : (hashesOf (recorded ++ chunk)).Nodup) :
    (db.withUnsafe safe recorded).updateL1MessagesFromL2Blocks (chunk.map (·.withL1Messages)) =
      .ok (db.withUnsafe safe (recorded ++ chunk)) := by
  obtain ⟨hrecorded, hnext⟩ := Numbered.append.1 hnumbered
  have hnumber : ((chunk.map (·.withL1Messages)).head?.map (·.blockInfo.number)) =
      some (safe + recorded.length + 1) := by
    cases chunk with
    | nil => exact absurd rfl hchunk
    | cons first rest =>
      have hfirst : first.number = safe + recorded.length + 1 := by
        simpa [List.range'_succ] using congrArg List.head? hnext
      exact congrArg some hfirst
  have hupdate : (db.withUnsafe safe recorded).updateL1MessagesFromL2Blocks
      (chunk.map (·.withL1Messages)) =
      .ok (((db.withUnsafe safe recorded).unmapWhere
        (safe + recorded.length + 1 ≤ ·)).updateL1MessagesWithL2Blocks
        (chunk.map (·.withL1Messages))) := by
    rw [updateL1MessagesFromL2Blocks, hnumber]
    rfl
  have hboth : recorded ++ chunk ≠ [] := by simp [hchunk]
  rw [hupdate, updateL1MessagesWithL2Blocks_eq_remap, unmapWhere_eq_remap, withUnsafe, withUnsafe,
    if_neg hboth]
  congr 1
  by_cases hempty : recorded = []
  · subst hempty
    rw [if_pos rfl, remap_remap]
    refine remap_congr ?_
    intro r _
    exact congrArg _ (filter_not_above safe _)
  · rw [if_neg hempty, remap_remap, remap_remap]
    refine remap_congr ?_
    intro r _
    change (blockOf chunk r.hash).or ((unsafeMapping safe recorded r).filter
      (fun n => !decide (safe + recorded.length < n))) = _
    rw [hashesOf_append] at hdistinct
    obtain ⟨-, -, hdisjoint⟩ := List.nodup_append.1 hdistinct
    rw [filter_not_above, unsafeMapping, unsafeMapping, blockOf_append]
    cases hn : blockOf recorded r.hash with
    | some n =>
      obtain ⟨b, hb, hmem, rfl⟩ := blockOf_mem hn
      have hother : blockOf chunk r.hash = none := by
        refine blockOf_eq_none.2 ?_
        intro hr
        exact hdisjoint r.hash (List.mem_flatMap.2 ⟨b, hb, hmem⟩) r.hash hr rfl
      simp [hother, Option.filter, (hrecorded.bounds hb).2]
    | none =>
      rw [Option.none_or, Option.none_or]
      congr 1
      cases r.l2BlockNumber with
      | none => rfl
      | some n =>
        by_cases hle : n ≤ safe
        · simp [Option.filter, hle, Nat.le_add_right_of_le hle]
        · simp [Option.filter, hle]

/-- The hash of a stored message is that of no other, as the schema demands. -/
def HashesUnique (db : Db) : Prop :=
  ∀ r ∈ db.l1Messages, ∀ q ∈ db.l1Messages, r.hash = q.hash → r = q

theorem HashesUnique.nodup (hunique : db.HashesUnique) : (db.queueRows.map (·.hash)).Nodup := by
  refine List.Nodup.map_on ?_ ?_
  · intro r hr q hq hsame
    exact hunique r (mem_queueRows.1 hr) q (mem_queueRows.1 hq) hsame
  · refine db.queueRows_ascending.imp ?_
    rintro a b hlt rfl
    exact absurd hlt (Nat.lt_irrefl _)

theorem HashesUnique.nodup_expected (hunique : db.HashesUnique) (number : ℕ) :
    (db.expectedHashes number).Nodup :=
  hunique.nodup.sublist (List.filter_sublist.map _)

theorem expectedHashes_remap (db : Db) (g : L1MessageRow → Option ℕ) (number : ℕ) :
    (db.remap g).expectedHashes number = (db.queueRows.filter (fun r =>
      ((db.remap g).lastIndex number).all (· < r.queueIndex) ∧ r.skipped = false)).map
        L1MessageRow.hash := by
  rw [expectedHashes, expectedRows, queueRows_remap, List.filter_map, List.map_map]
  rfl

theorem exists_chosen {hashes : List B256} {number : ℕ} (h : hashes <+: db.expectedHashes number) :
    ∃ chosen rest, db.expectedRows number = chosen ++ rest ∧ chosen.map L1MessageRow.hash = hashes ∧
      rest.map L1MessageRow.hash = (db.expectedHashes number).drop hashes.length := by
  obtain ⟨tail, htail⟩ := h
  obtain ⟨chosen, rest, hrows, hchosen, hrest⟩ := List.map_eq_append_iff.1 htail.symm
  refine ⟨chosen, rest, hrows, hchosen, ?_⟩
  rw [← htail, List.drop_left, hrest]

theorem unsafeMapping_cases {n : ℕ} (h : unsafeMapping safe blocks r = some n) :
    blockOf blocks r.hash = some n ∨
      (r.hash ∉ hashesOf blocks ∧ r.l2BlockNumber = some n ∧ n ≤ safe) := by
  rw [unsafeMapping] at h
  cases hb : blockOf blocks r.hash with
  | some m =>
    rw [hb, Option.some_or] at h
    exact .inl h
  | none =>
    rw [hb, Option.none_or, Option.filter_eq_some_iff] at h
    exact .inr ⟨blockOf_eq_none.1 hb, h.1, of_decide_eq_true h.2⟩

theorem lastIndex_of_no_hashes (hnone : hashesOf blocks = []) :
    (db.remap (unsafeMapping safe blocks)).lastIndex (safe + blocks.length + 1) =
      db.lastIndex (safe + 1) := by
  have hkept : ∀ r n, unsafeMapping safe blocks r = some n ↔ r.l2BlockNumber = some n ∧ n ≤ safe := by
    intro r n
    have hb : blockOf blocks r.hash = none := by
      rw [blockOf_eq_none, hnone]
      exact List.not_mem_nil
    rw [unsafeMapping, hb, Option.none_or, Option.filter_eq_some_iff, decide_eq_true_eq]
  rcases db.lastIndex_spec (safe + 1) with ⟨hlast, habove⟩ | ⟨r, hr, m, hlast, hm, hlt, hbelow⟩
  · rw [hlast]
    refine lastIndex_eq_none ?_
    intro q hq n hn
    obtain ⟨r, hr, rfl⟩ := mem_remap.1 hq
    obtain ⟨hn, hle⟩ := (hkept r n).1 hn
    have hge := habove r hr n hn
    omega
  · rw [hlast]
    have hmem : r.mappedTo (unsafeMapping safe blocks r) ∈
        (db.remap (unsafeMapping safe blocks)).l1Messages := mem_remap.2 ⟨r, hr, rfl⟩
    refine lastIndex_eq_some (r := r.mappedTo (unsafeMapping safe blocks r)) hmem
      ((hkept r m).2 ⟨hm, by omega⟩) (by omega) ?_
    intro _ hremapped n hn _
    obtain ⟨q, hq, rfl⟩ := mem_remap.1 hremapped
    obtain ⟨hn, hle⟩ := (hkept q n).1 hn
    exact hbelow q hq n hn (by omega)

theorem lastIndex_of_hashes (hunique : db.HashesUnique) (hnumbered : Numbered safe blocks)
    {front : List L1MessageRow} {last : L1MessageRow}
    (hmem : ∀ r ∈ front ++ [last], r ∈ db.l1Messages)
    (hascending : (front ++ [last]).Pairwise (fun a b => a.queueIndex < b.queueIndex))
    (hhashes : (front ++ [last]).map L1MessageRow.hash = hashesOf blocks)
    (hdistinct : (hashesOf blocks).Nodup) :
    (db.remap (unsafeMapping safe blocks)).lastIndex (safe + blocks.length + 1) =
      some last.queueIndex := by
  have hlast : (hashesOf blocks).getLast? = some last.hash := by
    rw [← hhashes, List.map_append, List.map_singleton, List.getLast?_concat]
  have hlastmem : last ∈ db.l1Messages := hmem last (by simp)
  obtain ⟨m, hm⟩ : ∃ m, blockOf blocks last.hash = some m := by
    refine Option.ne_none_iff_exists'.1 ?_
    intro hnone
    exact blockOf_eq_none.1 hnone (List.mem_of_getLast? hlast)
  obtain ⟨b, hb, -, hbm⟩ := blockOf_mem hm
  have hbounds := hnumbered.bounds hb
  have hmapped : unsafeMapping safe blocks last = some m := by
    rw [unsafeMapping, hm, Option.some_or]
  have hrow : last.mappedTo (unsafeMapping safe blocks last) ∈
      (db.remap (unsafeMapping safe blocks)).l1Messages := mem_remap.2 ⟨last, hlastmem, rfl⟩
  refine lastIndex_eq_some (r := last.mappedTo (unsafeMapping safe blocks last)) hrow hmapped
    (by omega) ?_
  intro _ hremapped n hn _
  obtain ⟨q, hq, rfl⟩ := mem_remap.1 hremapped
  rcases unsafeMapping_cases hn with hn | ⟨-, -, hle⟩
  · have hle := blockOf_le_last hnumbered.ascending hdistinct hlast hm hn
    -- a message of the blocks is one of the rows, and no row is behind the last
    have hlisted : q.hash ∈ (front ++ [last]).map L1MessageRow.hash := by
      rw [hhashes]
      by_contra hother
      rw [blockOf_eq_none.2 hother] at hn
      cases hn
    obtain ⟨r, hr, hsame⟩ := List.mem_map.1 hlisted
    have hrq : r = q := hunique r (hmem r hr) q hq hsame
    have hindex : q.queueIndex ≤ last.queueIndex := by
      rw [← hrq]
      rcases List.mem_append.1 hr with hr | hr
      · exact Nat.le_of_lt ((List.pairwise_append.1 hascending).2.2 r hr last (by simp))
      · rw [List.mem_singleton.1 hr]
    have hkeep : (q.mappedTo (unsafeMapping safe blocks q)).queueIndex ≤
        (last.mappedTo (unsafeMapping safe blocks last)).queueIndex := hindex
    rcases Nat.lt_or_eq_of_le hle with hlt | heq
    · exact .inl hlt
    · exact .inr ⟨heq, hkeep⟩
  · exact .inl (by omega)

theorem filter_behind {α : Type} {f : α → ℕ} {front rest : List α} {last : α}
    (h : (front ++ [last] ++ rest).Pairwise (fun a b => f a < f b)) :
    (front ++ [last] ++ rest).filter (fun a => f last < f a) = rest := by
  obtain ⟨hfront, -, hbehind⟩ := List.pairwise_append.1 h
  have hnone : (front ++ [last]).filter (fun a => f last < f a) = [] := by
    refine List.filter_eq_nil_iff.2 ?_
    intro a ha
    rcases List.mem_append.1 ha with ha | ha
    · have hlt := (List.pairwise_append.1 hfront).2.2 a ha last (by simp)
      simpa using Nat.le_of_lt hlt
    · rw [List.mem_singleton.1 ha]
      simp
  have hall : rest.filter (fun a => f last < f a) = rest := by
    refine List.filter_eq_self.2 ?_
    intro a ha
    exact decide_eq_true (hbehind last (by simp) a ha)
  rw [List.filter_append, hnone, hall, List.nil_append]

theorem expectedHashes_withUnsafe (hunique : db.HashesUnique) (hnumbered : Numbered safe recorded)
    (hexpected : hashesOf recorded <+: db.expectedHashes (safe + 1)) :
    (db.withUnsafe safe recorded).expectedHashes (safe + recorded.length + 1) =
      (db.expectedHashes (safe + 1)).drop (hashesOf recorded).length := by
  by_cases hempty : recorded = []
  · subst hempty
    rfl
  have hdistinct : (hashesOf recorded).Nodup :=
    (hunique.nodup_expected _).sublist hexpected.sublist
  obtain ⟨chosen, rest, hrows, hchosen, hrest⟩ := exists_chosen hexpected
  rw [withUnsafe, if_neg hempty, expectedHashes_remap, ← hrest]
  rcases List.eq_nil_or_concat' chosen with rfl | ⟨front, last, rfl⟩
  · rw [lastIndex_of_no_hashes hchosen.symm, ← List.nil_append rest, ← hrows, expectedRows]
  · have hascending : (front ++ [last] ++ rest).Pairwise
        (fun a b => a.queueIndex < b.queueIndex) := by
      rw [← hrows]
      exact db.queueRows_ascending.filter _
    have hmem : ∀ r ∈ front ++ [last], r ∈ db.expectedRows (safe + 1) := by
      intro r hr
      rw [hrows]
      exact List.mem_append_left rest hr
    have hstored : ∀ r ∈ front ++ [last], r ∈ db.l1Messages := by
      intro r hr
      exact mem_queueRows.1 (List.mem_filter.1 (hmem r hr)).1
    rw [lastIndex_of_hashes hunique hnumbered hstored (List.pairwise_append.1 hascending).1 hchosen
      hdistinct]
    congr 1
    conv_rhs => rw [← filter_behind hascending, ← hrows, expectedRows, List.filter_filter]
    refine List.filter_congr ?_
    intro r _
    -- what is behind the last message of the blocks was behind the last message before them
    have hbehind := (of_decide_eq_true (List.mem_filter.1 (hmem last (by simp))).2).1
    rw [← Bool.decide_and, decide_eq_decide]
    cases hindex : db.lastIndex (safe + 1) with
    | none => simp
    | some i =>
      rw [hindex] at hbehind
      have hlt : i < last.queueIndex := of_decide_eq_true hbehind
      simp only [Option.all_some, decide_eq_true_eq]
      constructor
      · rintro ⟨hr, hskipped⟩
        exact ⟨hr, by omega, hskipped⟩
      · rintro ⟨hr, -, hskipped⟩
        exact ⟨hr, hskipped⟩

def mappedAbove (db : Db) (safe : ℕ) : List (Option ℕ × B256) :=
  (db.queueRows.filter (fun r => r.l2BlockNumber.any (safe < ·))).map
    (fun r => (r.l2BlockNumber, r.hash))

theorem filter_expected {hashes : List B256} (hunique : db.HashesUnique) {number : ℕ}
    (hexpected : hashes <+: db.expectedHashes number) :
    (db.queueRows.filter (fun r => r.hash ∈ hashes)).map L1MessageRow.hash = hashes := by
  obtain ⟨chosen, rest, hrows, hchosen, -⟩ := exists_chosen hexpected
  have hsub : chosen.Sublist db.queueRows := by
    have hall : (db.expectedRows number).Sublist db.queueRows := List.filter_sublist
    rw [hrows] at hall
    exact (List.sublist_append_left chosen rest).trans hall
  have hsame : db.queueRows.filter (fun r => r.hash ∈ hashes) = chosen := by
    refine eq_of_ascending (db.queueRows_ascending.filter _)
      (db.queueRows_ascending.sublist hsub) ?_
    intro r
    rw [List.mem_filter, decide_eq_true_eq, ← hchosen, List.mem_map]
    constructor
    · rintro ⟨hr, q, hq, hhash⟩
      have hqmem := mem_queueRows.1 (hsub.subset hq)
      rwa [← hunique q hqmem r (mem_queueRows.1 hr) hhash]
    · intro hr
      exact ⟨hsub.subset hr, r, hr, rfl⟩
  rw [hsame, hchosen]

theorem mappedAbove_withUnsafe (hunique : db.HashesUnique) (hblocks : blocks ≠ [])
    (hnumbered : Numbered safe blocks)
    (hexpected : hashesOf blocks <+: db.expectedHashes (safe + 1)) :
    (db.withUnsafe safe blocks).mappedAbove safe = numberedHashes blocks := by
  have hdistinct := (hunique.nodup_expected (safe + 1)).sublist hexpected.sublist
  have habove : ∀ r : L1MessageRow, (unsafeMapping safe blocks r).any (safe < ·) =
      decide (r.hash ∈ hashesOf blocks) := by
    intro r
    cases hn : blockOf blocks r.hash with
    | some n =>
      obtain ⟨b, hb, hmem, rfl⟩ := blockOf_mem hn
      have hr : r.hash ∈ hashesOf blocks := List.mem_flatMap.2 ⟨b, hb, hmem⟩
      simp [unsafeMapping, hn, hr, (hnumbered.bounds hb).1]
    | none =>
      have hr : r.hash ∉ hashesOf blocks := blockOf_eq_none.1 hn
      have hnone : (r.l2BlockNumber.filter (· ≤ safe)).any (safe < ·) = false := by
        cases r.l2BlockNumber with
        | none => rfl
        | some n =>
          by_cases hle : n ≤ safe
          · simp [Option.filter, hle]
          · simp [Option.filter, hle]
      rw [unsafeMapping, hn, Option.none_or, hnone, decide_eq_false hr]
  have hmapping : ∀ r ∈ db.queueRows.filter (fun r => r.hash ∈ hashesOf blocks),
      (unsafeMapping safe blocks r, r.hash) = (blockOf blocks r.hash, r.hash) := by
    intro r hr
    have hlisted := of_decide_eq_true (List.mem_filter.1 hr).2
    cases hn : blockOf blocks r.hash with
    | none => exact absurd hlisted (blockOf_eq_none.1 hn)
    | some n => rw [unsafeMapping, hn, Option.some_or]
  rw [mappedAbove, withUnsafe, if_neg hblocks, queueRows_remap, List.filter_map, List.map_map]
  calc (db.queueRows.filter (fun r => (unsafeMapping safe blocks r).any (safe < ·))).map
        (fun r => (unsafeMapping safe blocks r, r.hash))
      = (db.queueRows.filter (fun r => r.hash ∈ hashesOf blocks)).map
          (fun r => (unsafeMapping safe blocks r, r.hash)) := by
        rw [List.filter_congr (fun r _ => habove r)]
    _ = (db.queueRows.filter (fun r => r.hash ∈ hashesOf blocks)).map
          (fun r => (blockOf blocks r.hash, r.hash)) := List.map_congr_left hmapping
    _ = (hashesOf blocks).map (fun hash => (blockOf blocks hash, hash)) := by
        conv_rhs => rw [← filter_expected hunique hexpected, List.map_map]
        rfl
    _ = numberedHashes blocks := map_blockOf hdistinct

/-- Up to a block, the messages of later blocks are behind those of earlier ones in the queue. -/
def QueueOrdered (db : Db) (number : ℕ) : Prop :=
  ∀ r ∈ db.l1Messages, ∀ q ∈ db.l1Messages, ∀ m n, r.l2BlockNumber = some m →
    q.l2BlockNumber = some n → m < n → n ≤ number → r.queueIndex < q.queueIndex

theorem QueueOrdered.not_mapped (hordered : db.QueueOrdered safe)
    (hr : r ∈ db.expectedRows (safe + 1)) {n : ℕ} (hn : r.l2BlockNumber = some n) : safe < n := by
  obtain ⟨hqueue, hbehind⟩ := List.mem_filter.1 hr
  have hmem := mem_queueRows.1 hqueue
  have hbehind := (of_decide_eq_true hbehind).1
  by_contra hle
  rcases db.lastIndex_spec (safe + 1) with ⟨-, habove⟩ | ⟨last, hlastmem, m, hlast, hm, hlt, hbelow⟩
  · have hge := habove r hmem n hn
    omega
  · rw [hlast] at hbehind
    have hindex : last.queueIndex < r.queueIndex := of_decide_eq_true hbehind
    rcases hbelow r hmem n hn (by omega) with hearlier | ⟨-, hindex'⟩
    · have hbefore := hordered r hmem last hlastmem n m hn hm hearlier (by omega)
      omega
    · omega

theorem unmapWhere_withUnsafe (hunique : db.HashesUnique) (hnumbered : Numbered safe blocks)
    (hexpected : hashesOf blocks <+: db.expectedHashes (safe + 1)) {latest : ℕ}
    (hlatest : latest ≤ safe) (hordered : db.QueueOrdered safe) :
    (db.withUnsafe safe blocks).unmapWhere (latest < ·) = db.unmapWhere (latest < ·) := by
  rw [withUnsafe]
  split
  · rfl
  rw [unmapWhere_eq_remap, unmapWhere_eq_remap, remap_remap]
  refine remap_congr ?_
  intro r hr
  change (unsafeMapping safe blocks r).filter (fun n => !decide (latest < n)) = _
  rw [filter_not_above, filter_not_above]
  cases hn : blockOf blocks r.hash with
  | some n =>
    obtain ⟨b, hb, hmem, rfl⟩ := blockOf_mem hn
    have hbound := hnumbered.bounds hb
    obtain ⟨chosen, rest, hrows, hchosen, -⟩ := exists_chosen hexpected
    have hlisted : r.hash ∈ chosen.map L1MessageRow.hash := by
      rw [hchosen]
      exact List.mem_flatMap.2 ⟨b, hb, hmem⟩
    obtain ⟨q, hq, hsame⟩ := List.mem_map.1 hlisted
    have hqrow : q ∈ db.expectedRows (safe + 1) := by
      rw [hrows]
      exact List.mem_append_left rest hq
    have hqr : q = r := hunique q (mem_queueRows.1 (List.mem_filter.1 hqrow).1) r hr hsame
    have hnone : r.l2BlockNumber.filter (· ≤ latest) = none := by
      rw [Option.filter_eq_none_iff]
      intro k hk
      have hgt := hordered.not_mapped (hqr ▸ hqrow) hk
      simpa using Nat.lt_of_le_of_lt hlatest hgt
    rw [hnone, unsafeMapping, hn, Option.some_or, Option.filter_eq_none_iff]
    intro k hk
    cases hk
    simpa using Nat.lt_of_le_of_lt hlatest hbound.1
  | none =>
    rw [unsafeMapping, hn, Option.none_or]
    cases r.l2BlockNumber with
    | none => rfl
    | some n =>
      by_cases hle : n ≤ latest
      · simp [Option.filter, hle, Nat.le_trans hle hlatest]
      · by_cases hsafe : n ≤ safe
        · simp [Option.filter, hle, hsafe]
        · simp [Option.filter, hle, hsafe]

def failConsolidation (db : Db) (e : Halt) : Db × Except Halt Unit :=
  match db.purgeL1MessageToL2BlockMappings none with
  | .error abort => (db, .error abort.toHalt)
  | .ok db => (db, .error e)

theorem getLatestSafeL2Info_withUnsafe (db : Db) (safe : ℕ) (blocks : List L2Block) :
    (db.withUnsafe safe blocks).getLatestSafeL2Info = db.getLatestSafeL2Info := by
  rw [withUnsafe]
  split <;> rfl

theorem exists_failConsolidation (db : Db) (e : Halt) :
    ∃ db' e', db.failConsolidation e = (db', .error e') := by
  rw [failConsolidation]
  split
  · exact ⟨_, _, rfl⟩
  · exact ⟨_, _, rfl⟩

theorem failConsolidation_eq {latest : BlockInfo × BatchInfo}
    (hlatest : db.getLatestSafeL2Info = .ok latest) (e : Halt) :
    db.failConsolidation e = (db.unmapWhere (latest.1.number < ·), .error e) := by
  rw [failConsolidation, purgeL1MessageToL2BlockMappings, hlatest]
  rfl

theorem failConsolidation_withUnsafe_error (db : Db) (safe : ℕ) (blocks : List L2Block) (e : Halt) :
    ((db.withUnsafe safe blocks).failConsolidation e).2 = (db.failConsolidation e).2 := by
  cases hlatest : db.getLatestSafeL2Info with
  | ok latest =>
    rw [failConsolidation_eq hlatest,
      failConsolidation_eq ((db.getLatestSafeL2Info_withUnsafe safe blocks).trans hlatest)]
  | error abort =>
    rw [failConsolidation, failConsolidation, purgeL1MessageToL2BlockMappings,
      purgeL1MessageToL2BlockMappings, getLatestSafeL2Info_withUnsafe, hlatest]
    rfl

end Db

variable {client : L2Client}

theorem map_number_of_mapM {numbers : List ℕ}
    (h : numbers.mapM (Node.blockAt client) = .ok blocks) : blocks.map (·.number) = numbers := by
  induction numbers generalizing blocks with
  | nil =>
    cases h
    rfl
  | cons n numbers ih =>
    rw [List.mapM_cons] at h
    obtain ⟨block, hblock, h⟩ := ExceptTraversal.bind_eq_ok.1 h
    obtain ⟨rest, hrest, h⟩ := ExceptTraversal.bind_eq_ok.1 h
    cases h
    have hnumber : block.number = n := by
      rw [Node.blockAt] at hblock
      split at hblock
      · cases hblock
      · cases hblock
      · rename_i hb
        cases hblock
        exact client.number_eq n block hb
    rw [List.map_cons, hnumber, ih hrest]

theorem mapM_append_eq_ok {first second : List ℕ}
    (h : (first ++ second).mapM (Node.blockAt client) = .ok blocks) :
    ∃ bs cs, first.mapM (Node.blockAt client) = .ok bs ∧
      second.mapM (Node.blockAt client) = .ok cs ∧ blocks = bs ++ cs := by
  rw [List.mapM_append] at h
  obtain ⟨bs, hbs, h⟩ := ExceptTraversal.bind_eq_ok.1 h
  obtain ⟨cs, hcs, h⟩ := ExceptTraversal.bind_eq_ok.1 h
  cases h
  exact ⟨bs, cs, hbs, hcs, rfl⟩

namespace Node
open Db

variable {db : Db} {safe : ℕ} {client : L2Client}

theorem consolidateChunk_withUnsafe (hunique : db.HashesUnique) {numbers : List ℕ}
    {chunk : List L2Block} (hfetched : numbers.mapM (blockAt client) = .ok chunk)
    (hchunk : chunk ≠ []) (hnumbered : Numbered safe (recorded ++ chunk))
    (hexpected : hashesOf recorded <+: db.expectedHashes (safe + 1)) {faults : Faults}
    (hcalls : faults 0 = none ∧ faults 1 = none) :
    Faulty.consolidateChunk client faults (db.withUnsafe safe recorded) numbers =
      match compareHashes (hashesOf (recorded ++ chunk)) (db.expectedHashes (safe + 1)) with
      | .error e => (db.withUnsafe safe recorded).failConsolidation e
      | .ok _ => (db.withUnsafe safe (recorded ++ chunk), .ok ()) := by
  obtain ⟨hrecorded, hnext⟩ := Numbered.append.1 hnumbered
  have hfirst : (chunk.head?.map (·.number)).all (· = safe + recorded.length + 1) := by
    cases chunk with
    | nil => rfl
    | cons first rest =>
      have hnumber := congrArg List.head? hnext
      simpa [List.range'_succ] using hnumber
  have hvalid := validateL1Messages_eq (db.withUnsafe safe recorded) hfirst
  rw [expectedHashes_withUnsafe hunique hrecorded hexpected] at hvalid
  have hcompare := compareHashes_append (hashesOf recorded) (hashesOf chunk)
    (db.expectedHashes (safe + 1))
  rw [(compareHashes_eq_ok _ _).2 hexpected, ← hashesOf_append] at hcompare
  have hall : compareHashes (hashesOf (recorded ++ chunk)) (db.expectedHashes (safe + 1)) =
      validateL1Messages (db.withUnsafe safe recorded) chunk := hcompare.trans hvalid.symm
  rw [Faulty.consolidateChunk, hfetched]
  simp only [Faulty.validateL1Messages, Db.call, hcalls]
  cases hresult : validateL1Messages (db.withUnsafe safe recorded) chunk with
  | error e =>
    simp only [hall, hresult]
    rfl
  | ok _ =>
    have hlisted := (compareHashes_eq_ok _ _).1 (hall.trans hresult)
    have hdistinct := (hunique.nodup_expected (safe + 1)).sublist hlisted.sublist
    simp only [hall, hresult,
      updateL1MessagesFromL2Blocks_withUnsafe hnumbered hchunk hdistinct]

theorem consolidateChunks_withUnsafe (hunique : db.HashesUnique) {chunks : List (List ℕ)}
    (hchunks : ∀ numbers ∈ chunks, numbers ≠ []) {rest : List L2Block}
    (hfetched : chunks.flatten.mapM (blockAt client) = .ok rest)
    (hnumbered : Numbered safe (recorded ++ rest))
    (hexpected : hashesOf recorded <+: db.expectedHashes (safe + 1)) :
    match compareHashes (hashesOf (recorded ++ rest)) (db.expectedHashes (safe + 1)) with
    | .ok _ => Faulty.consolidateChunks client noFaults (db.withUnsafe safe recorded) chunks =
        (db.withUnsafe safe (recorded ++ rest), .ok ())
    | .error e => ∃ valid, valid <+: recorded ++ rest ∧
        hashesOf valid <+: db.expectedHashes (safe + 1) ∧
        Faulty.consolidateChunks client noFaults (db.withUnsafe safe recorded) chunks =
          (db.withUnsafe safe valid).failConsolidation e := by
  induction chunks generalizing recorded rest with
  | nil =>
    have hrest : rest = [] := (Except.ok.inj hfetched).symm
    rw [hrest, List.append_nil, (compareHashes_eq_ok _ _).2 hexpected]
    rfl
  | cons numbers chunks ih =>
    obtain ⟨hnumbers, hchunks⟩ := List.forall_mem_cons.1 hchunks
    rw [List.flatten_cons] at hfetched
    obtain ⟨chunk, rest, hchunk, hrest, rfl⟩ := mapM_append_eq_ok hfetched
    have hlength := (ExceptTraversal.mapM_ok_spec hchunk).1
    have hne : chunk ≠ [] := by
      rintro rfl
      exact hnumbers (List.length_eq_zero_iff.1 hlength.symm)
    rw [← List.append_assoc] at hnumbered ⊢
    have hstep := consolidateChunk_withUnsafe hunique hchunk hne (Numbered.append.1 hnumbered).1
      hexpected (⟨rfl, rfl⟩ : noFaults 0 = none ∧ noFaults 1 = none)
    have happend := compareHashes_append (hashesOf (recorded ++ chunk)) (hashesOf rest)
      (db.expectedHashes (safe + 1))
    rw [← hashesOf_append] at happend
    rw [Faulty.consolidateChunks, hstep]
    cases hcompare : compareHashes (hashesOf (recorded ++ chunk)) (db.expectedHashes (safe + 1)) with
    | error e =>
      rw [hcompare] at happend
      rw [happend]
      refine ⟨recorded, ?_, hexpected, ?_⟩
      · rw [List.append_assoc]
        exact List.prefix_append _ _
      · obtain ⟨purged, e', hfailed⟩ := exists_failConsolidation (db.withUnsafe safe recorded) e
        simp only [hfailed]
    | ok _ => exact ih hchunks hrest hnumbered ((compareHashes_eq_ok _ _).1 hcompare)

/-- `consolidate_chain` with the size of a chunk as a parameter. -/
def consolidateChainBy (size : ℕ) (node : Node) (client : L2Client) : Handled :=
  let first := node.fcs.safe.number + 1
  let chunks := (List.range' first (node.fcs.head.number + 1 - first)).toChunks size
  match Faulty.consolidateChunks client noFaults node.db chunks with
  | (db, .error e) => ({ node with db := db }, .error e)
  | (db, .ok _) =>
    let (db, batches) := db.fetchAndUpdateUnprocessedCommittedBatches
    (({ node with db := db }).push batches .consolidated, .ok ())

theorem consolidateChain_eq (node : Node) (client : L2Client) :
    Faulty.consolidateChain node client noFaults = node.consolidateChainBy batchSize client := rfl

def UnsafeChain (node : Node) (client : L2Client) (chain : List L2Block) : Prop :=
  (List.range' (node.fcs.safe.number + 1)
    (node.fcs.head.number + 1 - (node.fcs.safe.number + 1))).mapM (blockAt client) = .ok chain

def consolidated (node : Node) (db : Db) : Node :=
  let (db, batches) := db.fetchAndUpdateUnprocessedCommittedBatches
  ({ node with db := db }).push batches .consolidated

theorem UnsafeChain.numbered {node : Node} {chain : List L2Block}
    (hchain : node.UnsafeChain client chain) :
    Numbered node.fcs.safe.number chain := by
  have hnumbers := map_number_of_mapM hchain
  have hlength := congrArg List.length hnumbers
  rw [List.length_map, List.length_range'] at hlength
  rw [Numbered, hnumbers, hlength]

theorem consolidateChainBy_eq {node : Node} {chain : List L2Block} (hunique : node.db.HashesUnique)
    (hchain : node.UnsafeChain client chain) (size : ℕ) :
    match compareHashes (hashesOf chain) (node.db.expectedHashes (node.fcs.safe.number + 1)) with
    | .ok _ => node.consolidateChainBy size client =
        (node.consolidated (node.db.withUnsafe node.fcs.safe.number chain), .ok ())
    | .error e => ∃ valid, valid <+: chain ∧
        hashesOf valid <+: node.db.expectedHashes (node.fcs.safe.number + 1) ∧
        node.consolidateChainBy size client =
          ({ node with
            db := ((node.db.withUnsafe node.fcs.safe.number valid).failConsolidation e).1 },
            (node.db.failConsolidation e).2) := by
  have hfetched : ((List.range' (node.fcs.safe.number + 1) (node.fcs.head.number + 1 -
      (node.fcs.safe.number + 1))).toChunks size).flatten.mapM (blockAt client) = .ok chain := by
    rw [flatten_toChunks]
    exact hchain
  have hnone : hashesOf [] <+: node.db.expectedHashes (node.fcs.safe.number + 1) := List.nil_prefix
  have hrun := consolidateChunks_withUnsafe hunique (ne_nil_of_mem_toChunks size _) hfetched
    hchain.numbered hnone
  rw [List.nil_append, withUnsafe_nil] at hrun
  cases hcompare : compareHashes (hashesOf chain)
      (node.db.expectedHashes (node.fcs.safe.number + 1)) with
  | ok _ =>
    simp only [hcompare] at hrun
    simp only [consolidateChainBy, hrun]
    rfl
  | error e =>
    simp only [hcompare] at hrun
    obtain ⟨valid, hvalid, hexpected, hrun⟩ := hrun
    refine ⟨valid, hvalid, hexpected, ?_⟩
    have herror := node.db.failConsolidation_withUnsafe_error node.fcs.safe.number valid e
    obtain ⟨purged, e', hfailed⟩ :=
      exists_failConsolidation (node.db.withUnsafe node.fcs.safe.number valid) e
    rw [hfailed] at hrun herror ⊢
    simp only [consolidateChainBy, hrun]
    rw [← herror]

/-- The consolidation with chunks of any two sizes. It has the same result, and it leaves the same
node when it succeeds: with the messages of the unsafe blocks mapped above the safe block, when
there are such blocks. When it fails no message is left above the safe block of the database, and
the nodes are the same unless that block is above the safe one of the forkchoice state or messages
up to there are out of order. -/
theorem consolidateChainBy_any_size (node : Node) (client : L2Client) (chain : List L2Block)
    (hunique : node.db.HashesUnique) (hchain : node.UnsafeChain client chain) (size size' : ℕ) :
    (node.consolidateChainBy size client).2 = (node.consolidateChainBy size' client).2 ∧
    ((node.consolidateChainBy size client).2 = .ok () →
      (node.consolidateChainBy size client).1 = (node.consolidateChainBy size' client).1 ∧
      (chain ≠ [] → (node.consolidateChainBy size client).1.db.mappedAbove node.fcs.safe.number =
        numberedHashes chain)) ∧
    (∀ e latest, (node.consolidateChainBy size client).2 = .error e →
      node.db.getLatestSafeL2Info = .ok latest →
      (∀ r ∈ (node.consolidateChainBy size client).1.db.l1Messages, ∀ n,
        r.l2BlockNumber = some n → n ≤ latest.1.number) ∧
      (latest.1.number ≤ node.fcs.safe.number → node.db.QueueOrdered node.fcs.safe.number →
        (node.consolidateChainBy size client).1 = (node.consolidateChainBy size' client).1)) := by
  have hrun := consolidateChainBy_eq hunique hchain size
  have hrun' := consolidateChainBy_eq hunique hchain size'
  cases hcompare : compareHashes (hashesOf chain)
      (node.db.expectedHashes (node.fcs.safe.number + 1)) with
  | ok _ =>
    simp only [hcompare] at hrun hrun'
    rw [hrun, hrun']
    refine ⟨rfl, ?_, ?_⟩
    · intro _
      refine ⟨rfl, ?_⟩
      intro hne
      exact mappedAbove_withUnsafe hunique hne hchain.numbered
        ((compareHashes_eq_ok _ _).1 hcompare)
    · intro e latest herror
      cases herror
  | error e =>
    simp only [hcompare] at hrun hrun'
    obtain ⟨valid, hvalid, hexpected, hrun⟩ := hrun
    obtain ⟨valid', hvalid', hexpected', hrun'⟩ := hrun'
    rw [hrun, hrun']
    refine ⟨rfl, ?_, ?_⟩
    · intro hok
      obtain ⟨purged, e', hfailed⟩ := exists_failConsolidation node.db e
      rw [hfailed] at hok
      cases hok
    · intro _ latest _ hlatest
      have hpurged := failConsolidation_eq
        ((node.db.getLatestSafeL2Info_withUnsafe node.fcs.safe.number valid).trans hlatest) e
      have hpurged' := failConsolidation_eq
        ((node.db.getLatestSafeL2Info_withUnsafe node.fcs.safe.number valid').trans hlatest) e
      rw [hpurged, hpurged']
      constructor
      · intro r hr n hn
        exact Nat.le_of_not_lt (of_decide_eq_false (Db.kept_of_mem_unmapWhere hr hn))
      · intro hle hordered
        obtain ⟨later, hlater⟩ := hvalid
        obtain ⟨later', hlater'⟩ := hvalid'
        have hnumbered := hchain.numbered
        rw [← hlater] at hnumbered
        have hnumbered' := hchain.numbered
        rw [← hlater'] at hnumbered'
        rw [unmapWhere_withUnsafe hunique (Numbered.append.1 hnumbered).1 hexpected hle hordered,
          unmapWhere_withUnsafe hunique (Numbered.append.1 hnumbered').1 hexpected' hle hordered]

end Node

def safeAtTwo (messages : Table L1MessageRow.queueIndex) : Db :=
  { migrated 7 with
    l1Messages := messages
    l2Blocks := ⟨[.ofBlock ⟨0, 7⟩ ⟨0, 0⟩, .ofBlock ⟨1, 21⟩ ⟨1, 11⟩, .ofBlock ⟨2, 22⟩ ⟨1, 11⟩],
      by decide⟩ }

def twoMessages (first second : Option ℕ) : Table L1MessageRow.queueIndex :=
  ⟨[⟨⟨0, 21000, 100⟩, none, 5, first, false⟩, ⟨⟨1, 21000, 101⟩, none, 6, second, false⟩], by
    simp [L1MessageRow.queueIndex]⟩

def nodeBetween (safe head : BlockInfo) (first second : Option ℕ) : Node :=
  { Node.fresh 7 with db := safeAtTwo (twoMessages first second), fcs := ⟨head, safe, ⟨0, 7⟩⟩ }

def blockWith (number : ℕ) (hash parentHash message : B256) : L2Block :=
  { emptyBlock number hash parentHash with l1Messages := [message] }

/-- Both messages are mapped to the blocks above the safe one, whether these are read one by one or
in one chunk. -/
theorem consolidateChainBy_any_size_two :
    let node := nodeBetween ⟨2, 22⟩ ⟨4, 24⟩ none none
    let client := L2Client.ofChain [blockWith 3 23 22 100, blockWith 4 24 23 101]
    (node.consolidateChainBy 1 client).1 = (node.consolidateChainBy 100 client).1 ∧
      (node.consolidateChainBy 1 client).1.db.mappedAbove 2 = [(some 3, 100), (some 4, 101)] := by
  intro node client
  have hsizes := Node.consolidateChainBy_any_size node client
    [blockWith 3 23 22 100, blockWith 4 24 23 101] (by unfold Db.HashesUnique; decide) rfl 1 100
  obtain ⟨hsame, hmapped⟩ := hsizes.2.1 rfl
  exact ⟨hsame, hmapped (by simp)⟩

def Node.mapping (node : Node) : List (Option ℕ) :=
  node.db.l1Messages.rows.map (·.l2BlockNumber)

/-- A second block with an unknown message fails both sizes with one error. The first block stays
recorded when it is a chunk of its own and the database's safe block is not below it; and a message
that it takes from an earlier block is in no block afterwards, while it stays in that block when
there is one chunk. Without unsafe blocks nothing is purged. -/
theorem consolidateChainBy_sizes_differ :
    (let node := nodeBetween ⟨0, 7⟩ ⟨2, 22⟩ none none
     let client := L2Client.ofChain [blockWith 1 21 7 100, blockWith 2 22 21 999]
     (node.consolidateChainBy 1 client).2 = (node.consolidateChainBy 100 client).2 ∧
      (node.consolidateChainBy 1 client).1.mapping = [some 1, none] ∧
      (node.consolidateChainBy 100 client).1.mapping = [none, none]) ∧
    (let node := nodeBetween ⟨2, 22⟩ ⟨4, 24⟩ (some 2) (some 1)
     let client := L2Client.ofChain [blockWith 3 23 22 101, blockWith 4 24 23 999]
     (node.consolidateChainBy 1 client).2 = (node.consolidateChainBy 100 client).2 ∧
      (node.consolidateChainBy 1 client).1.mapping = [some 2, none] ∧
      (node.consolidateChainBy 100 client).1.mapping = [some 2, some 1]) ∧
    (let node := nodeBetween ⟨2, 22⟩ ⟨2, 22⟩ (some 2) (some 3)
     node.UnsafeChain (L2Client.ofChain []) [] ∧
      (node.consolidateChainBy 1 (L2Client.ofChain [])).2 = .ok () ∧
      (node.consolidateChainBy 1 (L2Client.ofChain [])).1.db.mappedAbove 2 = [(some 3, 101)]) := by
  refine ⟨⟨rfl, rfl, rfl⟩, ⟨rfl, rfl, rfl⟩, ⟨rfl, rfl, rfl⟩⟩

end RollupNode
