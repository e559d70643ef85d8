import Mathlib.Algebra.GroupWithZero.Nat
import Mathlib.Data.List.Infix
import Mathlib.Data.Nat.Basic

set_option autoImplicit false

/-! The longest initial segment of a list whose weights stay within a budget. -/
namespace BudgetedPrefix

section
variable {α : Type} (weight : α → ℕ)

def total (xs : List α) : ℕ := (xs.map weight).sum

@[simp] theorem total_nil : total weight [] = 0 := rfl

@[simp] theorem total_cons (x : α) (xs : List α) :
    total weight (x :: xs) = weight x + total weight xs := List.sum_cons

theorem total_take_le (n : ℕ) (xs : List α) : total weight (xs.take n) ≤ total weight xs := by
  induction xs generalizing n with
  | nil => simp
  | cons x xs ih =>
    cases n with
    | zero => simp
    | succ n =>
      have hrest := ih n
      rw [List.take_succ_cons, total_cons, total_cons]
      omega

structure Longest (budget : ℕ) (offered chosen : List α) : Prop where
  initial : chosen <+: offered
  fits : total weight chosen ≤ budget
  maximal : ∀ other, other <+: offered → total weight other ≤ budget → other <+: chosen

theorem longest_nil (budget : ℕ) : Longest weight budget [] [] where
  initial := List.prefix_refl []
  fits := Nat.zero_le budget
  maximal _ hother _ := hother

theorem longest_cons_of_lt {budget : ℕ} {x : α} {xs chosen : List α} (h : budget < weight x) :
    Longest weight budget (x :: xs) chosen ↔ chosen = [] := by
  constructor
  · intro hlongest
    cases chosen with
    | nil => rfl
    | cons y ys =>
      obtain ⟨rfl, -⟩ := List.cons_prefix_cons.1 hlongest.initial
      have hfits := hlongest.fits
      rw [total_cons] at hfits
      omega
  · rintro rfl
    refine ⟨List.nil_prefix, Nat.zero_le budget, ?_⟩
    intro other hother hfits
    cases other with
    | nil => exact List.prefix_refl []
    | cons y ys =>
      obtain ⟨rfl, -⟩ := List.cons_prefix_cons.1 hother
      rw [total_cons] at hfits
      omega

theorem longest_cons {budget : ℕ} {x : α} {xs chosen : List α} (h : weight x ≤ budget) :
    Longest weight budget (x :: xs) (x :: chosen) ↔
      Longest weight (budget - weight x) xs chosen := by
  constructor
  · intro hlongest
    have hfits := hlongest.fits
    rw [total_cons] at hfits
    refine ⟨(List.cons_prefix_cons.1 hlongest.initial).2, by omega, ?_⟩
    intro other hother hother_fits
    have hcons : x :: other <+: x :: chosen := by
      apply hlongest.maximal
      · exact List.cons_prefix_cons.2 ⟨rfl, hother⟩
      · rw [total_cons]
        omega
    exact (List.cons_prefix_cons.1 hcons).2
  · intro hlongest
    have hfits := hlongest.fits
    refine ⟨List.cons_prefix_cons.2 ⟨rfl, hlongest.initial⟩, ?_, ?_⟩
    · rw [total_cons]
      omega
    · intro other hother hother_fits
      cases other with
      | nil => exact List.nil_prefix
      | cons y ys =>
        obtain ⟨rfl, hys⟩ := List.cons_prefix_cons.1 hother
        rw [total_cons] at hother_fits
        exact List.cons_prefix_cons.2 ⟨rfl, hlongest.maximal ys hys (by omega)⟩

end
end BudgetedPrefix
