import Mathlib.Data.List.Basic
import Mathlib.Data.List.Range

set_option autoImplicit false

/-! Queues whose entries carry their position and, from some position on, a folded link. -/
namespace IndexedChain

structure Format (ρ ι η : Type) where
  position : ρ → ℕ
  item : ρ → ι
  link : ρ → Option η
  fold : η → ι → η
  zero : η
  first : ℕ

namespace Format

section
variable {ρ ι η : Type} (c : Format ρ ι η)

def foldFrom (xs : List ρ) : η := ((xs.drop c.first).map c.item).foldl c.fold c.zero

def linkAt (xs : List ρ) (i : ℕ) : Option η :=
  if i < c.first then none else some (c.foldFrom (xs.take (i + 1)))

def nextLink (xs : List ρ) (item : ι) : Option η :=
  if xs.length < c.first then none else some (c.fold (c.foldFrom xs) item)

structure Chained (xs : List ρ) : Prop where
  positions : xs.map c.position = List.range xs.length
  links : ∀ i r, xs[i]? = some r → c.link r = c.linkAt xs i

variable {c}

theorem chained_nil : c.Chained [] := ⟨rfl, by simp⟩

variable {xs : List ρ} {r : ρ}

theorem Chained.position_eq (h : c.Chained xs) {i : ℕ} (hr : xs[i]? = some r) :
    c.position r = i := by
  have hmap : (xs.map c.position)[i]? = some (c.position r) := by
    rw [List.getElem?_map, hr]
    rfl
  rw [h.positions] at hmap
  obtain ⟨hi, hget⟩ := List.getElem?_eq_some_iff.1 hmap
  rw [← hget, List.getElem_range]

theorem Chained.mem_positions (h : c.Chained xs) (i : ℕ) :
    i ∈ xs.map c.position ↔ i < xs.length := by
  rw [h.positions, List.mem_range]

theorem Chained.get_position (h : c.Chained xs) (hr : r ∈ xs) :
    xs[c.position r]? = some r := by
  obtain ⟨i, hi⟩ := List.mem_iff_getElem?.1 hr
  rw [h.position_eq hi]
  exact hi

theorem linkAt_take {i n : ℕ} (h : i < n) : c.linkAt (xs.take n) i = c.linkAt xs i := by
  unfold linkAt
  rw [List.take_take, Nat.min_eq_left h]

theorem linkAt_append {ys : List ρ} {i : ℕ} (h : i < xs.length) :
    c.linkAt (xs ++ ys) i = c.linkAt xs i := by
  unfold linkAt
  rw [List.take_append_of_le_length h]

theorem linkAt_length (xs : List ρ) (r : ρ) :
    c.linkAt (xs ++ [r]) xs.length = c.nextLink xs (c.item r) := by
  unfold linkAt nextLink
  split
  · rfl
  · rename_i h
    have hfull : (xs ++ [r]).take (xs.length + 1) = xs ++ [r] := by
      rw [List.take_of_length_le]
      simp
    rw [hfull, foldFrom, List.drop_append_of_le_length (Nat.not_lt.1 h), List.map_append,
      List.foldl_append]
    rfl

theorem Chained.take (h : c.Chained xs) (n : ℕ) : c.Chained (xs.take n) := by
  constructor
  · rw [List.map_take, h.positions, List.take_range, List.length_take, Nat.min_comm]
  · intro i r hr
    have hi : i < n := by
      have hlen := (List.getElem?_eq_some_iff.1 hr).1
      rw [List.length_take] at hlen
      omega
    rw [List.getElem?_take_of_lt hi] at hr
    rw [linkAt_take hi]
    exact h.links i r hr

theorem Chained.append (h : c.Chained xs) (hposition : c.position r = xs.length)
    (hlink : c.link r = c.nextLink xs (c.item r)) : c.Chained (xs ++ [r]) := by
  constructor
  · rw [List.map_append, h.positions, List.length_append, List.map_singleton, hposition,
      List.length_singleton, List.range_succ]
  · intro i q hq
    by_cases hi : i < xs.length
    · rw [List.getElem?_append_left hi] at hq
      rw [linkAt_append hi]
      exact h.links i q hq
    · rw [List.getElem?_append_right (Nat.not_lt.1 hi)] at hq
      have hzero : i - xs.length = 0 := by
        by_contra hne
        rw [List.getElem?_eq_none (by simp; omega)] at hq
        cases hq
      rw [hzero] at hq
      cases hq
      have hlast : i = xs.length := by omega
      rw [hlast, linkAt_length]
      exact hlink

theorem Chained.nextLink_eq (h : c.Chained xs) (hfirst : c.first < xs.length)
    (hr : xs[xs.length - 1]? = some r) (item : ι) :
    c.nextLink xs item = some (c.fold ((c.link r).getD c.zero) item) := by
  have hlink := h.links _ r hr
  have hlen : xs.length - 1 + 1 = xs.length := by omega
  rw [linkAt, if_neg (by omega), hlen, List.take_length] at hlink
  rw [nextLink, if_neg (by omega), hlink]
  rfl

theorem nextLink_first (h : xs.length = c.first) (item : ι) :
    c.nextLink xs item = some (c.fold c.zero item) := by
  rw [nextLink, if_neg (by omega), foldFrom, ← h, List.drop_length]
  rfl

theorem nextLink_before (h : xs.length < c.first) (item : ι) :
    c.nextLink xs item = none := if_pos h

end
end Format

theorem filter_le_eq_take {ρ : Type} {key : ρ → ℕ} {xs : List ρ}
    (h : xs.Pairwise (fun a b => key a ≤ key b)) (n : ℕ) :
    ∃ m, xs.filter (fun r => key r ≤ n) = xs.take m := by
  induction xs with
  | nil => exact ⟨0, rfl⟩
  | cons x xs ih =>
    obtain ⟨hx, hxs⟩ := List.pairwise_cons.1 h
    by_cases hkey : key x ≤ n
    · obtain ⟨m, hm⟩ := ih hxs
      refine ⟨m + 1, ?_⟩
      rw [List.filter_cons_of_pos (by simpa using hkey), hm, List.take_succ_cons]
    · refine ⟨0, ?_⟩
      rw [List.take_zero, List.filter_eq_nil_iff]
      intro r hr
      rcases List.mem_cons.1 hr with rfl | hr
      · simpa using hkey
      · have hle := hx r hr
        simp only [decide_eq_true_eq]
        omega

end IndexedChain
