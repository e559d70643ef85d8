import Mathlib.Data.List.Forall2

set_option autoImplicit false

/-! Sequencing and traversals of a list in an error monad. -/
namespace ExceptTraversal

section
variable {α β ε : Type} {f : α → Except ε β} {xs : List α}

theorem bind_eq_ok {x : Except ε α} {b : β} :
    (x >>= f) = .ok b ↔ ∃ a, x = .ok a ∧ f a = .ok b := by
  cases x with
  | error e => simp [bind, Except.bind]
  | ok a => simp [bind, Except.bind]

theorem bind_eq_error {x : Except ε α} {e : ε} :
    (x >>= f) = .error e ↔ x = .error e ∨ ∃ a, x = .ok a ∧ f a = .error e := by
  cases x with
  | error e => simp [bind, Except.bind]
  | ok a => simp [bind, Except.bind]

theorem elim_eq_ok {e : ε} {x : Option α} {a : α} :
    x.elim (.error e) .ok = (.ok a : Except ε α) ↔ x = some a := by
  cases x with
  | none => simp
  | some b => simp

theorem isOk_iff (x : Except ε Unit) : x.isOk = true ↔ x = .ok () := by
  cases x with
  | error e => exact iff_of_false (fun h => by cases h) (fun h => by cases h)
  | ok u => exact iff_of_true rfl rfl

theorem mapM_ok_spec {ys : List β} (h : xs.mapM f = .ok ys) :
    ys.length = xs.length ∧ ∀ y ∈ ys, ∃ x ∈ xs, f x = .ok y := by
  induction xs generalizing ys with
  | nil =>
    cases h
    exact ⟨rfl, fun y hy => by cases hy⟩
  | cons x xs ih =>
    rw [List.mapM_cons] at h
    cases hx : f x with
    | error e =>
      rw [hx] at h
      cases h
    | ok y =>
      cases hxs : xs.mapM f with
      | error e =>
        simp only [hx, hxs, bind, Except.bind] at h
        cases h
      | ok zs =>
        simp only [hx, hxs, bind, Except.bind] at h
        cases h
        obtain ⟨hlength, hmem⟩ := ih hxs
        refine ⟨congrArg Nat.succ hlength, ?_⟩
        intro z hz
        rcases List.mem_cons.1 hz with rfl | hz
        · exact ⟨x, List.mem_cons_self, hx⟩
        · obtain ⟨w, hw, hfw⟩ := hmem z hz
          exact ⟨w, List.mem_cons_of_mem x hw, hfw⟩

theorem forall_ok_of_mapM {ys : List β} (h : xs.mapM f = .ok ys) :
    ∀ x ∈ xs, ∃ y, f x = .ok y := by
  induction xs generalizing ys with
  | nil => intro x hx; cases hx
  | cons x xs ih =>
    rw [List.mapM_cons] at h
    obtain ⟨y, hy, h⟩ := bind_eq_ok.1 h
    obtain ⟨zs, hzs, -⟩ := bind_eq_ok.1 h
    exact List.forall_mem_cons.2 ⟨⟨y, hy⟩, ih hzs⟩

theorem mapM_ok_of_forall
    (h : ∀ x ∈ xs, ∃ y, f x = .ok y) : ∃ ys, xs.mapM f = .ok ys := by
  induction xs with
  | nil => exact ⟨[], rfl⟩
  | cons x xs ih =>
    obtain ⟨y, hy⟩ := h x List.mem_cons_self
    obtain ⟨ys, hys⟩ := ih (fun z hz => h z (List.mem_cons_of_mem x hz))
    refine ⟨y :: ys, ?_⟩
    rw [List.mapM_cons, hy, hys]
    rfl

theorem mapM_eq_error {e : ε} :
    xs.mapM f = .error e ↔ ∃ before x after, xs = before ++ x :: after ∧
      (∀ y ∈ before, ∃ z, f y = .ok z) ∧ f x = .error e := by
  constructor
  · induction xs with
    | nil =>
      intro h
      cases h
    | cons x xs ih =>
      intro h
      rw [List.mapM_cons] at h
      rcases bind_eq_error.1 h with hx | ⟨y, hy, h⟩
      · exact ⟨[], x, xs, rfl, List.forall_mem_nil _, hx⟩
      · rcases bind_eq_error.1 h with hxs | ⟨ys, -, h⟩
        · obtain ⟨before, z, after, rfl, hbefore, hz⟩ := ih hxs
          exact ⟨x :: before, z, after, rfl, List.forall_mem_cons.2 ⟨⟨y, hy⟩, hbefore⟩, hz⟩
        · cases h
  · rintro ⟨before, x, after, rfl, hbefore, hx⟩
    obtain ⟨ys, hys⟩ := mapM_ok_of_forall hbefore
    rw [List.mapM_append, hys, List.mapM_cons, hx]
    rfl

theorem mapM_ok_mono {ys : List β} {g : α → Except ε β}
    (hfg : ∀ x ∈ xs, ∀ y, f x = .ok y → g x = .ok y) (h : xs.mapM f = .ok ys) :
    xs.mapM g = .ok ys := by
  induction xs generalizing ys with
  | nil => exact h
  | cons x xs ih =>
    rw [List.mapM_cons] at h ⊢
    obtain ⟨y, hy, h⟩ := bind_eq_ok.1 h
    obtain ⟨zs, hzs, h⟩ := bind_eq_ok.1 h
    have hrest := ih (fun z hz => hfg z (List.mem_cons_of_mem x hz)) hzs
    exact bind_eq_ok.2 ⟨y, hfg x List.mem_cons_self y hy, bind_eq_ok.2 ⟨zs, hrest, h⟩⟩

theorem forall₂_of_mapM {ys : List β} {R : α → β → Prop} (hf : ∀ x ∈ xs, ∀ y, f x = .ok y → R x y)
    (h : xs.mapM f = .ok ys) : List.Forall₂ R xs ys := by
  induction xs generalizing ys with
  | nil =>
    cases h
    exact List.Forall₂.nil
  | cons x xs ih =>
    rw [List.mapM_cons] at h
    obtain ⟨y, hy, h⟩ := bind_eq_ok.1 h
    obtain ⟨zs, hzs, h⟩ := bind_eq_ok.1 h
    cases h
    apply List.Forall₂.cons
    · exact hf x List.mem_cons_self y hy
    · exact ih (fun z hz => hf z (List.mem_cons_of_mem x hz)) hzs

end
end ExceptTraversal
