import Mathlib.Data.List.Basic

set_option autoImplicit false

/-! Runs of a step function over a list of actions, with a condition on each action. -/
namespace GuardedRuns

section
variable {σ α : Type} (step : σ → α → σ)

def run (s : σ) (actions : List α) : σ := actions.foldl step s

def Meets (cond : σ → α → Prop) : σ → List α → Prop
  | _, [] => True
  | s, a :: as => cond s a ∧ Meets cond (step s a) as

instance decidableMeets (cond : σ → α → Prop) [∀ s a, Decidable (cond s a)] (s : σ) :
    (actions : List α) → Decidable (Meets step cond s actions)
  | [] => inferInstanceAs (Decidable True)
  | a :: as =>
    let _ := decidableMeets cond (step s a) as
    inferInstanceAs (Decidable (cond s a ∧ Meets step cond (step s a) as))

theorem run_append (s : σ) (as bs : List α) :
    run step s (as ++ bs) = run step (run step s as) bs := List.foldl_append

theorem meets_append (cond : σ → α → Prop) (s : σ) (as bs : List α) :
    Meets step cond s (as ++ bs) ↔ Meets step cond s as ∧ Meets step cond (run step s as) bs := by
  induction as generalizing s with
  | nil => simp [Meets, run]
  | cons a as ih =>
    change cond s a ∧ Meets step cond (step s a) (as ++ bs) ↔ _
    rw [ih, ← and_assoc]
    rfl

theorem meets_true (s : σ) (actions : List α) : Meets step (fun _ _ => True) s actions := by
  induction actions generalizing s with
  | nil => trivial
  | cons a as ih => exact ⟨trivial, ih (step s a)⟩

variable {actions : List α} {cond cond' : σ → α → Prop} {s : σ}

theorem meets_of_forall {p : α → Prop} (h : ∀ a ∈ actions, p a) (s : σ) :
    Meets step (fun _ a => p a) s actions := by
  induction actions generalizing s with
  | nil => trivial
  | cons a as ih =>
    exact ⟨h a List.mem_cons_self, ih (fun b hb => h b (List.mem_cons_of_mem a hb)) (step s a)⟩

theorem meets_and :
    Meets step (fun s a => cond s a ∧ cond' s a) s actions ↔
      Meets step cond s actions ∧ Meets step cond' s actions := by
  induction actions generalizing s with
  | nil => simp [Meets]
  | cons a as ih =>
    simp only [Meets]
    rw [ih]
    exact and_and_and_comm

theorem Meets.and (h : Meets step cond s actions) (h' : Meets step cond' s actions) :
    Meets step (fun s a => cond s a ∧ cond' s a) s actions :=
  (meets_and step).2 ⟨h, h'⟩

theorem meets_iff_forall_step :
    Meets step cond s actions ↔ ∀ as a bs, actions = as ++ a :: bs → cond (run step s as) a := by
  constructor
  · rintro h as a bs rfl
    exact ((meets_append step cond s as (a :: bs)).1 h).2.1
  · intro h
    induction actions generalizing s with
    | nil => trivial
    | cons a actions ih =>
      refine ⟨h [] a actions rfl, ih ?_⟩
      intro as b bs hactions
      exact h (a :: as) b bs (congrArg (a :: ·) hactions)

theorem meets_congr (h : ∀ s a, cond s a ↔ cond' s a) (s : σ) (actions : List α) :
    Meets step cond s actions ↔ Meets step cond' s actions := by
  induction actions generalizing s with
  | nil => exact Iff.rfl
  | cons a as ih => exact and_congr (h s a) (ih (step s a))

theorem Meets.invariant (I : σ → Prop) (hstep : ∀ s a, I s → cond s a → I (step s a)) (hs : I s)
    (h : Meets step cond s actions) : I (run step s actions) := by
  induction actions generalizing s with
  | nil => exact hs
  | cons a as ih => exact ih (hstep s a hs h.1) h.2

/-- What each action meets in states with the invariant is met along the run. -/
theorem Meets.of_invariant {post : σ → α → Prop} (I : σ → Prop)
    (hstep : ∀ s a, I s → cond s a → I (step s a) ∧ post s a) (hs : I s)
    (h : Meets step cond s actions) : Meets step post s actions := by
  induction actions generalizing s with
  | nil => trivial
  | cons a as ih =>
    have hnext := hstep s a hs h.1
    exact ⟨hnext.2, ih hnext.1 h.2⟩

/-- Where the condition says exactly when a guarded step keeps `I`, a guarded run that meets it is
one whose states all have `I`. -/
theorem meets_iff_forall_run {guard : σ → α → Prop} (I J : σ → Prop)
    (hstep : ∀ s a, J s → I s → guard s a → J (step s a) ∧ (I (step s a) ↔ cond s a)) (hJ : J s)
    (hI : I s) (hguard : Meets step guard s actions) :
    Meets step cond s actions ↔ ∀ as bs, actions = as ++ bs → I (run step s as) := by
  induction actions generalizing s with
  | nil =>
    refine iff_of_true trivial ?_
    intro as bs h
    obtain ⟨rfl, -⟩ := List.append_eq_nil_iff.1 h.symm
    exact hI
  | cons a actions ih =>
    obtain ⟨hJ', hiff⟩ := hstep s a hJ hI hguard.1
    constructor
    · rintro ⟨hcond, hmeets⟩ as bs h
      cases as with
      | nil => exact hI
      | cons first as =>
        obtain ⟨rfl, hrest⟩ := List.cons.inj h
        exact (ih hJ' (hiff.2 hcond) hguard.2).1 hmeets as bs hrest
    · intro hall
      have hnext : I (step s a) := hall [a] actions rfl
      refine ⟨hiff.1 hnext, (ih hJ' hnext hguard.2).2 ?_⟩
      intro as bs h
      exact hall (a :: as) bs (congrArg (a :: ·) h)

end
end GuardedRuns
