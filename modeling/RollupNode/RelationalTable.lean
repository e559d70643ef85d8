import Mathlib.Data.List.MinMax
import Mathlib.Data.List.Sort
import Mathlib.Data.List.Nodup

set_option autoImplicit false

/-! Tables with a primary key and the statements of an object-relational layer. Rows keep their
insertion order. -/
namespace RelationalTable

structure Table {Row κ : Type} (key : Row → κ) where
  rows : List Row
  unique : (rows.map key).Nodup

namespace Table

section
variable {Row κ : Type} {key : Row → κ}

instance : Membership Row (Table key) := ⟨fun t r => r ∈ t.rows⟩

instance [DecidableEq Row] (t : Table key) (r : Row) : Decidable (r ∈ t) :=
  inferInstanceAs (Decidable (r ∈ t.rows))

instance (t : Table key) (P : Row → Prop) [DecidablePred P] : Decidable (∀ r ∈ t, P r) :=
  inferInstanceAs (Decidable (∀ r ∈ t.rows, P r))

instance (t : Table key) (P : Row → Prop) [DecidablePred P] : Decidable (∃ r ∈ t, P r) :=
  inferInstanceAs (Decidable (∃ r ∈ t.rows, P r))

theorem ext_rows {a b : Table key} (h : a.rows = b.rows) : a = b := by
  cases a
  cases b
  cases h
  rfl

instance [DecidableEq Row] : DecidableEq (Table key) := fun a b =>
  decidable_of_iff (a.rows = b.rows) ⟨ext_rows, congrArg rows⟩

theorem mem_rows (t : Table key) (r : Row) : r ∈ t.rows ↔ r ∈ t := Iff.rfl

theorem eq_of_key (t : Table key) {a b : Row} (ha : a ∈ t) (hb : b ∈ t) (h : key a = key b) :
    a = b :=
  List.inj_on_of_nodup_map t.unique ha hb h

def keys (t : Table key) : List κ := t.rows.map key

theorem mem_keys (t : Table key) (k : κ) : k ∈ t.keys ↔ ∃ r ∈ t, key r = k := List.mem_map

def single (r : Row) : Table key := ⟨[r], List.nodup_singleton _⟩

def empty : Table key := ⟨[], List.nodup_nil⟩

theorem map_key_update (p : Row → Bool) (f : Row → Row) (hf : ∀ r, key (f r) = key r)
    (rows : List Row) : (rows.map (fun r => if p r then f r else r)).map key = rows.map key := by
  rw [List.map_map]
  refine List.map_congr_left ?_
  intro r _
  by_cases hp : p r = true <;> simp [hp, hf]

/-- `UPDATE .. WHERE`, for an update that leaves the key alone. -/
def updateWhere (t : Table key) (p : Row → Bool) (f : Row → Row)
    (hf : ∀ r, key (f r) = key r) : Table key where
  rows := t.rows.map (fun r => if p r then f r else r)
  unique := by
    rw [map_key_update p f hf]
    exact t.unique

def deleteWhere (t : Table key) (p : Row → Bool) : Table key where
  rows := t.rows.filter (fun r => !p r)
  unique := t.unique.sublist (List.filter_sublist.map key)

def insertNew (t : Table key) (new : Row) (h : key new ∉ t.keys) : Table key where
  rows := t.rows ++ [new]
  unique := by
    rw [List.map_append, List.nodup_append_comm]
    exact List.nodup_cons.2 ⟨h, t.unique⟩

/-- `INSERT .. ON CONFLICT (key) DO UPDATE`. -/
def upsert [DecidableEq κ] (t : Table key) (new : Row) (f : Row → Row)
    (hf : ∀ r, key (f r) = key r) : Table key :=
  if h : key new ∈ t.keys then t.updateWhere (fun r => key r = key new) f hf
  else t.insertNew new h

theorem upsert_of_fresh [DecidableEq κ] (t : Table key) (new : Row) (f : Row → Row)
    (hf : ∀ r, key (f r) = key r) (h : key new ∉ t.keys) :
    t.upsert new f hf = t.insertNew new h := dif_neg h

/-- `SELECT .. WHERE`. -/
def select (t : Table key) (p : Row → Bool) : List Row := t.rows.filter p

theorem mem_select (t : Table key) (p : Row → Bool) (r : Row) :
    r ∈ t.select p ↔ r ∈ t ∧ p r = true := List.mem_filter

theorem select_length_pos (t : Table key) (p : Row → Bool) :
    0 < (t.select p).length ↔ ∃ r ∈ t, p r = true := by
  rw [List.length_pos_iff_exists_mem]
  exact exists_congr (t.mem_select p)

theorem mem_updateWhere (t : Table key) (p : Row → Bool) (f : Row → Row)
    (hf : ∀ r, key (f r) = key r) (r : Row) :
    r ∈ t.updateWhere p f hf ↔ ∃ q ∈ t, (if p q then f q else q) = r := List.mem_map

theorem cases_of_mem_update {r : Row} {rows : List Row} {p : Row → Bool} {f : Row → Row}
    (h : r ∈ rows.map (fun r => if p r then f r else r)) :
    ∃ q ∈ rows, (p q = true ∧ r = f q) ∨ (p q = false ∧ r = q) := by
  obtain ⟨q, hq, rfl⟩ := List.mem_map.1 h
  refine ⟨q, hq, ?_⟩
  cases hp : p q with
  | true => exact Or.inl ⟨rfl, if_pos rfl⟩
  | false => exact Or.inr ⟨rfl, if_neg Bool.false_ne_true⟩

theorem updateWhere_selected [DecidableEq κ] (t : Table key) (p : Row → Bool) (f : Row → Row)
    (hf : ∀ r, key (f r) = key r) :
    t.updateWhere (fun r => key r ∈ (t.select p).map key) f hf = t.updateWhere p f hf := by
  refine ext_rows (List.map_congr_left ?_)
  intro r hr
  have hiff : key r ∈ (t.select p).map key ↔ p r = true := by
    constructor
    · intro h
      obtain ⟨q, hq, hk⟩ := List.mem_map.1 h
      obtain ⟨hqt, hpq⟩ := (t.mem_select p q).1 hq
      rwa [t.eq_of_key hqt hr hk] at hpq
    · intro h
      exact List.mem_map_of_mem ((t.mem_select p r).2 ⟨hr, h⟩)
  simp only [decide_eq_true_eq, hiff]

theorem view_update {β : Type} (rows : List Row) (u : Row → Row) (q : Row → Bool) (g : Row → β)
    (hq : ∀ r ∈ rows, q (u r) = q r) (hg : ∀ r ∈ rows, g (u r) = g r) :
    ((rows.map u).filter q).map g = (rows.filter q).map g := by
  rw [List.filter_map, List.map_map]
  have hfilter : rows.filter (q ∘ u) = rows.filter q := List.filter_congr hq
  rw [hfilter]
  refine List.map_congr_left ?_
  intro r hr
  exact hg r (List.mem_of_mem_filter hr)

theorem exists_mem_updateWhere (t : Table key) (p : Row → Bool) (f : Row → Row)
    (hf : ∀ r, key (f r) = key r) {Q : Row → Prop} (hQ : ∀ r, Q (f r) ↔ Q r) :
    (∃ r ∈ t.updateWhere p f hf, Q r) ↔ ∃ r ∈ t, Q r := by
  constructor
  · rintro ⟨r, hr, hq⟩
    obtain ⟨q, hmem, ⟨-, rfl⟩ | ⟨-, rfl⟩⟩ := cases_of_mem_update hr
    · exact ⟨q, hmem, (hQ q).1 hq⟩
    · exact ⟨r, hmem, hq⟩
  · rintro ⟨r, hr, hq⟩
    refine ⟨_, (t.mem_updateWhere p f hf _).2 ⟨r, hr, rfl⟩, ?_⟩
    split
    · exact (hQ r).2 hq
    · exact hq

theorem mem_deleteWhere (t : Table key) (p : Row → Bool) (r : Row) :
    r ∈ t.deleteWhere p ↔ r ∈ t ∧ p r = false := by
  change r ∈ t.rows.filter _ ↔ _
  rw [List.mem_filter, Bool.not_eq_true']
  rfl

theorem deleteWhere_eq_self (t : Table key) (p : Row → Bool) (h : ∀ r ∈ t, p r = false) :
    t.deleteWhere p = t := by
  refine ext_rows (List.filter_eq_self.2 ?_)
  intro r hr
  rw [h r hr]
  rfl

theorem mem_insertNew (t : Table key) (new : Row) (h : key new ∉ t.keys) (r : Row) :
    r ∈ t.insertNew new h ↔ r ∈ t ∨ r = new := by
  change r ∈ t.rows ++ [new] ↔ _
  rw [List.mem_append, List.mem_singleton]
  rfl

theorem keys_updateWhere (t : Table key) (p : Row → Bool) (f : Row → Row)
    (hf : ∀ r, key (f r) = key r) : (t.updateWhere p f hf).keys = t.keys :=
  map_key_update p f hf t.rows

theorem mem_keys_upsert [DecidableEq κ] (t : Table key) (new : Row) (f : Row → Row)
    (hf : ∀ r, key (f r) = key r) (k : κ) :
    k ∈ (t.upsert new f hf).keys ↔ k ∈ t.keys ∨ k = key new := by
  unfold upsert
  split
  · rename_i h
    rw [keys_updateWhere]
    constructor
    · exact Or.inl
    · rintro (hk | rfl)
      · exact hk
      · exact h
  · change k ∈ (t.rows ++ [new]).map key ↔ _
    rw [List.map_append, List.mem_append, List.map_singleton, List.mem_singleton]
    rfl

theorem cases_of_mem_upsert {r : Row} [DecidableEq κ] (t : Table key) (new : Row) (f : Row → Row)
    (hf : ∀ r, key (f r) = key r) (h : r ∈ t.upsert new f hf) :
    (r ∈ t ∧ key r ≠ key new) ∨ (key new ∉ t.keys ∧ r = new) ∨
      ∃ q ∈ t, key q = key new ∧ r = f q := by
  unfold upsert at h
  split at h
  · obtain ⟨q, hq, ⟨hk, rfl⟩ | ⟨hk, rfl⟩⟩ := cases_of_mem_update h
    · exact Or.inr (Or.inr ⟨q, hq, of_decide_eq_true hk, rfl⟩)
    · exact Or.inl ⟨hq, of_decide_eq_false hk⟩
  · rename_i hnew
    rcases (mem_insertNew t new _ r).1 h with h | h
    · refine Or.inl ⟨h, ?_⟩
      intro hk
      exact hnew ((t.mem_keys _).2 ⟨r, h, hk⟩)
    · exact Or.inr (Or.inl ⟨hnew, h⟩)

theorem upsert_eq_self [DecidableEq κ] (t : Table key) (new : Row) (f : Row → Row)
    (hf : ∀ r, key (f r) = key r) (hnew : key new ∈ t.keys)
    (hfix : ∀ r ∈ t, key r = key new → f r = r) : t.upsert new f hf = t := by
  unfold upsert
  rw [dif_pos hnew]
  refine ext_rows ((List.map_congr_left ?_).trans (List.map_id _))
  intro r hr
  by_cases hkey : key r = key new
  · rw [if_pos (decide_eq_true hkey), hfix r hr hkey]
    rfl
  · rw [if_neg (by simpa using hkey)]
    rfl

theorem mem_upsert_of_mem {r : Row} [DecidableEq κ] (t : Table key) (new : Row) (f : Row → Row)
    (hf : ∀ r, key (f r) = key r) (h : r ∈ t.upsert new f hf) :
    r = new ∨ ∃ q ∈ t, r = q ∨ r = f q := by
  rcases cases_of_mem_upsert t new f hf h with ⟨h, -⟩ | ⟨-, h⟩ | ⟨q, hq, -, h⟩
  · exact Or.inr ⟨r, h, Or.inl rfl⟩
  · exact Or.inl h
  · exact Or.inr ⟨q, hq, Or.inr h⟩

theorem mem_upsert_of_key_ne {r : Row} [DecidableEq κ] (t : Table key) (new : Row) (f : Row → Row)
    (hf : ∀ r, key (f r) = key r) (hr : r ∈ t) (hk : key r ≠ key new) :
    r ∈ t.upsert new f hf := by
  unfold upsert
  split
  · exact (mem_updateWhere t _ f hf r).2 ⟨r, hr, if_neg (by simpa using hk)⟩
  · exact (mem_insertNew t new _ r).2 (Or.inl hr)

theorem mem_upsert_of_key_eq {r : Row} [DecidableEq κ] (t : Table key) (new : Row) (f : Row → Row)
    (hf : ∀ r, key (f r) = key r) (hr : r ∈ t) (hk : key r = key new) :
    f r ∈ t.upsert new f hf := by
  unfold upsert
  rw [dif_pos ((t.mem_keys _).2 ⟨r, hr, hk⟩)]
  exact (mem_updateWhere t _ f hf _).2 ⟨r, hr, if_pos (decide_eq_true hk)⟩

theorem exists_mem_upsert [DecidableEq κ] (t : Table key) (new : Row) (f : Row → Row)
    (hf : ∀ r, key (f r) = key r) :
    ∃ r ∈ t.upsert new f hf, key r = key new ∧ (r = new ∨ ∃ q ∈ t, r = f q) := by
  unfold upsert
  split
  · rename_i h
    obtain ⟨q, hq, hk⟩ := (t.mem_keys _).1 h
    refine ⟨f q, (mem_updateWhere t _ f hf _).2 ⟨q, hq, if_pos (by simpa using hk)⟩, ?_,
      Or.inr ⟨q, hq, rfl⟩⟩
    rw [hf, hk]
  · exact ⟨new, (mem_insertNew t new _ new).2 (Or.inr rfl), rfl, Or.inl rfl⟩

end
end Table

section
variable {Row κ : Type} [LinearOrder κ]

/-- `ORDER BY key DESC LIMIT 1`. -/
def highest (key : Row → κ) (rows : List Row) : Option Row := rows.argmax key

variable {key : Row → κ} {rows : List Row} {r : Row}

theorem highest_mem (h : highest key rows = some r) : r ∈ rows := List.argmax_mem h

theorem le_highest {q : Row} (h : highest key rows = some r) (hq : q ∈ rows) : key q ≤ key r :=
  List.le_of_mem_argmax hq h

theorem highest_eq_none (key : Row → κ) (rows : List Row) :
    highest key rows = none ↔ rows = [] := List.argmax_eq_none

/-- `ORDER BY key ASC`. -/
def orderBy (key : Row → κ) (rows : List Row) : List Row :=
  rows.insertionSort (fun a b => key a ≤ key b)

theorem sorted_orderBy (key : Row → κ) (rows : List Row) :
    (orderBy key rows).Pairwise (fun a b => key a ≤ key b) := by
  have _ : Std.Total (fun a b : Row => key a ≤ key b) := ⟨fun a b => le_total (key a) (key b)⟩
  have _ : IsTrans Row (fun a b => key a ≤ key b) := ⟨fun _ _ _ hab hbc => le_trans hab hbc⟩
  exact List.pairwise_insertionSort (fun a b : Row => key a ≤ key b) rows

theorem mem_orderBy : r ∈ orderBy key rows ↔ r ∈ rows := List.mem_insertionSort _

theorem head_orderBy (h : (orderBy key rows).head? = some r) :
    r ∈ rows ∧ ∀ q ∈ rows, key r ≤ key q := by
  have hsorted := sorted_orderBy key rows
  obtain ⟨rest, hrest⟩ := List.head?_eq_some_iff.1 h
  rw [hrest, List.pairwise_cons] at hsorted
  constructor
  · exact mem_orderBy.1 (List.mem_of_mem_head? h)
  · intro q hq
    have hq : q ∈ orderBy key rows := mem_orderBy.2 hq
    rw [hrest] at hq
    rcases List.mem_cons.1 hq with rfl | hq
    · exact le_refl _
    · exact hsorted.1 q hq

theorem orderBy_eq_nil (key : Row → κ) (rows : List Row) : orderBy key rows = [] ↔ rows = [] := by
  rw [← List.length_eq_zero_iff, ← List.length_eq_zero_iff, orderBy, List.length_insertionSort]

theorem pairwise_orderBy (h : (rows.map key).Nodup) :
    (orderBy key rows).Pairwise (fun a b => key a < key b) := by
  have hperm := (List.perm_insertionSort (fun a b : Row => key a ≤ key b) rows).map key
  have hdistinct := List.pairwise_map.1 (hperm.nodup_iff.2 h)
  refine ((sorted_orderBy key rows).and hdistinct).imp ?_
  intro a b hab
  exact lt_of_le_of_ne hab.1 hab.2

theorem eq_of_ascending {rows' : List Row} (h : rows.Pairwise (fun a b => key a < key b))
    (h' : rows'.Pairwise (fun a b => key a < key b)) (hmem : ∀ r, r ∈ rows ↔ r ∈ rows') :
    rows = rows' := by
  have _ : Std.Irrefl (fun a b : Row => key a < key b) := ⟨fun a => lt_irrefl (key a)⟩
  have _ : Std.Antisymm (fun a b : Row => key a < key b) :=
    ⟨fun a b hab hba => absurd hab (lt_asymm hba)⟩
  exact List.Subset.antisymm_of_pairwise h h' (fun r hr => (hmem r).1 hr) (fun r hr => (hmem r).2 hr)

theorem orderBy_filter (h : (rows.map key).Nodup) (p : Row → Bool) :
    orderBy key (rows.filter p) = (orderBy key rows).filter p := by
  refine eq_of_ascending (pairwise_orderBy (h.sublist (List.filter_sublist.map key)))
    ((pairwise_orderBy h).filter p) ?_
  intro r
  rw [mem_orderBy, List.mem_filter, List.mem_filter, mem_orderBy]

theorem orderBy_map (rows : List Row) (f : Row → Row) (hf : ∀ r, key (f r) = key r) :
    orderBy key (rows.map f) = (orderBy key rows).map f := by
  refine (List.map_insertionSort _ _ f rows ?_).symm
  intro a _ b _
  rw [hf, hf]

end

theorem le_key_of_ascending {Row : Type} {key : Row → ℕ} {rows : List Row} {start : ℕ}
    (hrows : rows.Pairwise (fun a b => key a < key b)) (hstart : ∀ r ∈ rows, start ≤ key r) {i : ℕ}
    {r : Row} (h : rows[i]? = some r) :
    start + i ≤ key r := by
  induction rows generalizing start i with
  | nil => cases h
  | cons first rows ih =>
    obtain ⟨hfirst, hrows⟩ := List.pairwise_cons.1 hrows
    obtain ⟨hle, hstart⟩ := List.forall_mem_cons.1 hstart
    cases i with
    | zero =>
      cases h
      exact hle
    | succ i =>
      have hnext : start + 1 + i ≤ key r :=
        ih hrows (fun q hq => Nat.succ_le_of_lt (hle.trans_lt (hfirst q hq))) h
      omega

theorem get_of_ascending {Row : Type} {key : Row → ℕ} {rows : List Row} {start : ℕ}
    (hrows : rows.Pairwise (fun a b => key a < key b)) (hstart : ∀ r ∈ rows, start ≤ key r) {i : ℕ}
    (hall : ∀ k, start ≤ k → k ≤ start + i → ∃ r ∈ rows, key r = k) :
    ∃ r, rows[i]? = some r ∧ key r = start + i := by
  induction rows generalizing start i with
  | nil =>
    obtain ⟨r, hr, -⟩ := hall start (Nat.le_refl _) (Nat.le_add_right _ _)
    cases hr
  | cons first rows ih =>
    obtain ⟨hfirst, hrows⟩ := List.pairwise_cons.1 hrows
    obtain ⟨hle, hstart⟩ := List.forall_mem_cons.1 hstart
    have hkey : key first = start := by
      obtain ⟨r, hr, hrkey⟩ := hall start (Nat.le_refl _) (Nat.le_add_right _ _)
      rcases List.mem_cons.1 hr with rfl | hr
      · exact hrkey
      · have hlt := hfirst r hr
        omega
    cases i with
    | zero => exact ⟨first, rfl, hkey⟩
    | succ i =>
      have hnext : ∀ q ∈ rows, start + 1 ≤ key q := fun q hq => hkey ▸ hfirst q hq
      obtain ⟨r, hr, hrkey⟩ := ih hrows hnext (i := i) (by
        intro k hk hki
        obtain ⟨r, hr, hrkey⟩ := hall k (by omega) (by omega)
        rcases List.mem_cons.1 hr with rfl | hr
        · omega
        · exact ⟨r, hr, hrkey⟩)
      exact ⟨r, hr, by omega⟩

theorem get_of_gap {Row : Type} {key : Row → ℕ} {rows : List Row} {start : ℕ}
    (hrows : rows.Pairwise (fun a b => key a < key b)) {i : ℕ} (hstart : ∀ r ∈ rows, start ≤ key r)
    (hbelow : ∀ k, start ≤ k → k < start + i → ∃ r ∈ rows, key r = k)
    (hgap : ∀ r ∈ rows, key r ≠ start + i) (hlater : ∃ r ∈ rows, start + i < key r) :
    ∃ r, rows[i]? = some r ∧ start + i < key r := by
  cases hget : rows[i]? with
  | some r =>
    have hle := le_key_of_ascending hrows hstart hget
    exact ⟨r, rfl, lt_of_le_of_ne hle (hgap r (List.mem_of_getElem? hget)).symm⟩
  | none =>
    -- the rows are then those below the gap
    obtain ⟨r, hr, hlt⟩ := hlater
    obtain ⟨j, hj⟩ := List.getElem?_of_mem hr
    have hji : j < i := by
      have hlength := List.getElem?_eq_none_iff.1 hget
      have hbound := (List.getElem?_eq_some_iff.1 hj).1
      omega
    obtain ⟨q, hq, hqkey⟩ := get_of_ascending hrows hstart (i := j)
      (fun k hk hkj => hbelow k hk (by omega))
    rw [hj] at hq
    cases hq
    omega

end RelationalTable
