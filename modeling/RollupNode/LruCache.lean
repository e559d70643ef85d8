import Mathlib.Data.List.Basic
import Mathlib.Data.List.Nodup

set_option autoImplicit false

/-! A cache of bounded size that forgets what was used least recently. -/
namespace LruCache

section
variable {κ α : Type} [DecidableEq κ] {capacity : ℕ}

structure Cache (κ α : Type) (capacity : ℕ) where
  entries : List (κ × α)
  unique : (entries.map Prod.fst).Nodup
  bounded : entries.length ≤ capacity

namespace Cache

instance : Membership (κ × α) (Cache κ α capacity) := ⟨fun c e => e ∈ c.entries⟩

def empty : Cache κ α capacity := ⟨[], List.nodup_nil, Nat.zero_le capacity⟩

/-- An entry comes first, in place of an earlier one with its key; the last one goes when there are
too many. -/
def put (c : Cache κ α capacity) (k : κ) (a : α) : Cache κ α capacity where
  entries := ((k, a) :: c.entries.filter (fun e => e.1 ≠ k)).take capacity
  unique := by
    refine List.Nodup.sublist ((List.take_sublist _ _).map _) ?_
    rw [List.map_cons, List.nodup_cons]
    refine ⟨?_, c.unique.sublist (List.filter_sublist.map _)⟩
    intro hmem
    obtain ⟨e, he, hkey⟩ := List.mem_map.1 hmem
    exact of_decide_eq_true (List.mem_filter.1 he).2 hkey
  bounded := List.length_take_le _ _

def contains (c : Cache κ α capacity) (k : κ) : Bool := c.entries.any (fun e => e.1 = k)

def get (c : Cache κ α capacity) (k : κ) : Option α × Cache κ α capacity :=
  match c.entries.find? (fun e => e.1 = k) with
  | none => (none, c)
  | some e => (some e.2, c.put k e.2)

theorem mem_put {k : κ} {a : α} {c : Cache κ α capacity} {e : κ × α} (h : e ∈ c.put k a) :
    e = (k, a) ∨ e ∈ c := by
  rcases List.mem_cons.1 (List.mem_of_mem_take h) with he | he
  · exact .inl he
  · exact .inr (List.mem_filter.1 he).1

theorem contains_of_put {c : Cache κ α capacity} {k k' : κ} {a : α}
    (h : (c.put k a).contains k' = true) : k' = k ∨ c.contains k' = true := by
  obtain ⟨e, he, hkey⟩ := List.any_eq_true.1 h
  rcases mem_put he with rfl | he
  · exact .inl (of_decide_eq_true hkey).symm
  · exact .inr (List.any_eq_true.2 ⟨e, he, hkey⟩)

theorem contains_iff {c : Cache κ α capacity} {k : κ} :
    c.contains k = true ↔ k ∈ c.entries.map Prod.fst := by
  rw [contains, List.any_eq_true, List.mem_map]
  simp only [decide_eq_true_eq]

theorem not_contains_iff {c : Cache κ α capacity} {k : κ} :
    c.contains k = false ↔ k ∉ c.entries.map Prod.fst := by
  rw [← contains_iff, Bool.not_eq_true]

theorem keys_put {c : Cache κ α capacity} {k : κ} {history : List κ}
    (hkeys : c.entries.map Prod.fst = history.take capacity) (h : c.contains k = false) (a : α) :
    (c.put k a).entries.map Prod.fst = (k :: history).take capacity := by
  have hfilter : c.entries.filter (fun e => e.1 ≠ k) = c.entries := by
    rw [List.filter_eq_self]
    intro e he
    exact decide_eq_true (fun hkey => not_contains_iff.1 h (List.mem_map.2 ⟨e, he, hkey⟩))
  simp only [put, hfilter, List.map_take, List.map_cons, hkeys]
  cases capacity with
  | zero => rfl
  | succ n => rw [List.take_succ_cons, List.take_succ_cons, List.take_take, Nat.min_eq_left n.le_succ]

theorem mem_of_get {k : κ} {a : α} {c' c : Cache κ α capacity} (h : c.get k = (some a, c')) :
    (k, a) ∈ c := by
  rw [get] at h
  split at h
  · cases h
  · rename_i e he
    cases h
    have hkey : e.1 = k := by simpa using List.find?_some he
    rw [← hkey]
    exact List.mem_of_find?_eq_some he

theorem mem_get {k : κ} {c : Cache κ α capacity} {e : κ × α} (h : e ∈ (c.get k).2) : e ∈ c := by
  cases hget : c.get k with
  | mk found c' =>
    rw [hget] at h
    cases found with
    | none =>
      rw [get] at hget
      split at hget
      · cases hget
        exact h
      · cases hget
    | some a =>
      have hmem := mem_of_get hget
      rw [get] at hget
      split at hget
      · cases hget
      · cases hget
        rcases mem_put h with rfl | he
        · exact hmem
        · exact he

def Holds (p : κ → α → Prop) (c : Cache κ α capacity) : Prop := ∀ e ∈ c, p e.1 e.2

variable {p : κ → α → Prop} {c : Cache κ α capacity}

omit [DecidableEq κ] in
theorem holds_empty : (empty : Cache κ α capacity).Holds p := fun _ he => by cases he

theorem Holds.get (h : c.Holds p) (k : κ) : (c.get k).2.Holds p := fun e he => h e (mem_get he)

theorem Holds.put {k : κ} {a : α} (h : c.Holds p) (ha : p k a) : (c.put k a).Holds p := by
  intro e he
  rcases mem_put he with rfl | he
  · exact ha
  · exact h e he

def putAll (c : Cache κ α capacity) (entries : List (κ × α)) : Cache κ α capacity :=
  entries.foldl (fun c e => c.put e.1 e.2) c

theorem Holds.putAll (h : c.Holds p) {entries : List (κ × α)}
    (hentries : ∀ e ∈ entries, p e.1 e.2) : (c.putAll entries).Holds p := by
  induction entries generalizing c with
  | nil => exact h
  | cons e entries ih =>
    obtain ⟨he, hentries⟩ := List.forall_mem_cons.1 hentries
    exact ih (h.put he) hentries

end Cache
end
end LruCache
