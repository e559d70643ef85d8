import Mathlib.Algebra.GroupWithZero.Nat
import Mathlib.Data.List.Induction

set_option autoImplicit false

/-! A ring buffer that forgets its oldest elements. -/
namespace RollupNode

structure BoundedVec (α : Type) (capacity : ℕ) where
  data : List α
  bounded : data.length ≤ capacity

namespace BoundedVec
variable {α : Type} {capacity : ℕ}

def new : BoundedVec α capacity := ⟨[], Nat.zero_le _⟩

def isFull (v : BoundedVec α capacity) : Bool := v.data.length = capacity

def drainTo (v : BoundedVec α capacity) (position : ℕ) : BoundedVec α capacity where
  data := v.data.drop (position + 1)
  bounded := by
    have hle := v.bounded
    rw [List.length_drop]
    omega

variable [NeZero capacity]

def pushBack (v : BoundedVec α capacity) (elem : α) : BoundedVec α capacity where
  data := (if v.isFull then v.data.tail else v.data) ++ [elem]
  bounded := by
    have hpos := Nat.pos_of_neZero capacity
    have hle := v.bounded
    rw [List.length_append, List.length_singleton]
    split
    · rename_i hfull
      have hlen : v.data.length = capacity := of_decide_eq_true hfull
      rw [List.length_tail]
      omega
    · rename_i hfull
      have hne : ¬v.data.length = capacity := fun h => hfull (decide_eq_true h)
      omega

def extend (v : BoundedVec α capacity) (elems : List α) : BoundedVec α capacity :=
  elems.foldl pushBack v

theorem extend_data (v : BoundedVec α capacity) (elems : List α) :
    (v.extend elems).data =
      (v.data ++ elems).drop ((v.data ++ elems).length - capacity) := by
  unfold extend
  induction elems using List.reverseRecOn with
  | nil =>
    have hle := v.bounded
    have hzero : v.data.length - capacity = 0 := by omega
    simp only [List.foldl_nil, List.append_nil, hzero, List.drop_zero]
  | append_singleton elems elem ih =>
    have hpos := Nat.pos_of_neZero capacity
    rw [List.foldl_append, List.foldl_cons, List.foldl_nil, ← List.append_assoc]
    generalize hall : v.data ++ elems = all at ih
    have hlen := congrArg List.length ih
    rw [List.length_drop] at hlen
    rw [List.length_append, List.length_singleton]
    change (if (List.foldl pushBack v elems).isFull then _ else _) ++ [elem] = _
    split
    · rename_i hfull
      have hcap : (List.foldl pushBack v elems).data.length = capacity := of_decide_eq_true hfull
      have hsucc : all.length + 1 - capacity = all.length - capacity + 1 := by omega
      rw [ih, List.tail_drop, hsucc, List.drop_append_of_le_length (by omega)]
    · rename_i hfull
      have hcap : ¬(List.foldl pushBack v elems).data.length = capacity :=
        fun h => hfull (decide_eq_true h)
      have hzero : all.length - capacity = 0 := by omega
      have hzero' : all.length + 1 - capacity = 0 := by omega
      rw [ih, hzero, hzero', List.drop_zero, List.drop_zero]

theorem extend_suffix (v : BoundedVec α capacity) (elems : List α) :
    (v.extend elems).data <:+ v.data ++ elems := by
  rw [extend_data]
  exact List.drop_suffix _ _

end BoundedVec
end RollupNode
