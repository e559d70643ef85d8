import Mathlib.Data.List.FinRange
import Mathlib.Data.Nat.ModEq

set_option autoImplicit false

/-! Asking the members of a group one after the other until one has an answer. -/
namespace RoundRobin

inductive Answer (β ε : Type) where
  | found (b : β)
  | next
  | stop (e : ε)

/-- The counter is the index of the first member to ask, and may be one behind the last. -/
structure Group (α : Type) (n : ℕ) where
  members : Vector α n
  counter : Fin (n + 1)

section
variable {α β ε : Type} {n : ℕ}

def order (n start : ℕ) : List (Fin n) :=
  (List.finRange n).map (fun i : Fin n => ⟨(start + i) % n, Nat.mod_lt _ i.pos⟩)

theorem mem_order (start : ℕ) (i : Fin n) : i ∈ order n start := by
  have hpos : 0 < n := i.pos
  have hstart : start % n < n := Nat.mod_lt _ hpos
  refine List.mem_map.2 ⟨⟨(i + (n - start % n)) % n, Nat.mod_lt _ hpos⟩, List.mem_finRange _, ?_⟩
  refine Fin.ext ?_
  have hsum : start % n + (i + (n - start % n)) = i + n := by omega
  calc (start + (i + (n - start % n)) % n) % n
      = (start % n + (i + (n - start % n))) % n := by rw [Nat.add_mod_mod, Nat.mod_add_mod]
    _ = (i + n) % n := by rw [hsum]
    _ = i := by rw [Nat.add_mod_right, Nat.mod_eq_of_lt i.isLt]

theorem nodup_order (n start : ℕ) : (order n start).Nodup := by
  refine List.Nodup.map ?_ (List.nodup_finRange n)
  intro i j hij
  have hmod : (start + i) % n = (start + j) % n := congrArg Fin.val hij
  have hcancel : (i : ℕ) ≡ j [MOD n] := Nat.ModEq.add_left_cancel' start hmod
  exact Fin.ext (hcancel.eq_of_lt_of_lt i.isLt j.isLt)

def askEach (ask : Fin n → α → α × Answer β ε) : List (Fin n) → Group α n → Group α n × Answer β ε
  | [], g => (g, .next)
  | i :: rest, g =>
    match ask i g.members[i] with
    | (a, .next) => askEach ask rest ⟨g.members.set i a, i.succ⟩
    | (a, .found b) => (⟨g.members.set i a, i.succ⟩, .found b)
    | (a, .stop e) => (⟨g.members.set i a, i.succ⟩, .stop e)

def askAll (ask : Fin n → α → α × Answer β ε) (g : Group α n) : Group α n × Answer β ε :=
  askEach ask (order n g.counter) g

variable {ask : Fin n → α → α × Answer β ε}

theorem askEach_cases {is : List (Fin n)} {g : Group α n} (hnodup : is.Nodup)
    (hstop : ∀ i ∈ is, ∀ e, (ask i g.members[i]).2 ≠ .stop e) :
    (∃ b, (askEach ask is g).2 = .found b) ∨
      (askEach ask is g).2 = .next ∧ ∀ i ∈ is, (ask i g.members[i]).2 = .next := by
  induction is generalizing g with
  | nil => exact .inr ⟨rfl, fun i hi => by cases hi⟩
  | cons j rest ih =>
    obtain ⟨hj, hrest⟩ := List.nodup_cons.1 hnodup
    rw [askEach]
    cases hask : ask j g.members[j] with
    | mk a answer =>
      cases answer with
      | found b => exact .inl ⟨b, rfl⟩
      | stop e => exact absurd (congrArg Prod.snd hask) (hstop j List.mem_cons_self e)
      | next =>
        -- the members still to be asked are as they were
        have hsame : ∀ i ∈ rest, (g.members.set j a)[i] = g.members[i] := by
          intro i hi
          refine Vector.getElem_set_ne _ _ ?_
          intro hij
          exact hj (Fin.ext hij ▸ hi)
        have hgo := ih (g := ⟨g.members.set j a, j.succ⟩) hrest
          (fun i hi e => by
            rw [hsame i hi]
            exact hstop i (List.mem_cons_of_mem j hi) e)
        rcases hgo with hfound | ⟨hnext, hall⟩
        · exact .inl hfound
        · refine .inr ⟨hnext, List.forall_mem_cons.2 ⟨congrArg Prod.snd hask, ?_⟩⟩
          intro i hi
          rw [← hsame i hi]
          exact hall i hi

theorem askAll_cases {g : Group α n} (hstop : ∀ i e, (ask i g.members[i]).2 ≠ .stop e) :
    (∃ b, (askAll ask g).2 = .found b) ∨
      (askAll ask g).2 = .next ∧ ∀ i, (ask i g.members[i]).2 = .next := by
  rcases askEach_cases (nodup_order n g.counter) (fun i _ e => hstop i e) with hfound | ⟨hnext, hall⟩
  · exact .inl hfound
  · exact .inr ⟨hnext, fun i => hall i (mem_order g.counter i)⟩

theorem askEach_invariant {is : List (Fin n)} {g : Group α n} {p : α → Prop} {q : β → Prop}
    (hask : ∀ i a, p a → p (ask i a).1 ∧ ∀ b, (ask i a).2 = .found b → q b)
    (hg : ∀ i : Fin n, p g.members[i]) :
    (∀ i : Fin n, p (askEach ask is g).1.members[i]) ∧
      ∀ b, (askEach ask is g).2 = .found b → q b := by
  induction is generalizing g with
  | nil => exact ⟨hg, fun b hb => by cases hb⟩
  | cons j rest ih =>
    obtain ⟨hkept, hanswer⟩ := hask j g.members[j] (hg j)
    have hset : ∀ i : Fin n, p (g.members.set j (ask j g.members[j]).1)[i] := by
      intro i
      by_cases hij : j = i
      · subst hij
        rw [Fin.getElem_fin, Vector.getElem_set_self]
        exact hkept
      · rw [Fin.getElem_fin, Vector.getElem_set_ne _ _ (fun h => hij (Fin.ext h))]
        exact hg i
    rw [askEach]
    cases hresult : ask j g.members[j] with
    | mk a answer =>
      rw [hresult] at hset hanswer
      cases answer with
      | next => exact ih hset
      | found b => exact ⟨hset, fun c hc => hanswer c hc⟩
      | stop e => exact ⟨hset, fun c hc => by cases hc⟩

theorem askAll_invariant {g : Group α n} {p : α → Prop} {q : β → Prop}
    (hask : ∀ i a, p a → p (ask i a).1 ∧ ∀ b, (ask i a).2 = .found b → q b)
    (hg : ∀ i : Fin n, p g.members[i]) :
    (∀ i : Fin n, p (askAll ask g).1.members[i]) ∧ ∀ b, (askAll ask g).2 = .found b → q b :=
  askEach_invariant hask hg

end
end RoundRobin
