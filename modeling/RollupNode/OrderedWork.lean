import Mathlib.Data.List.Forall2

set_option autoImplicit false

/-! Work that is submitted and taken in order while it may finish in any order. -/
namespace OrderedWork

structure Job (ρ β : Type) where
  request : ρ
  result : Option β

section
variable {ρ β : Type}

def requests (jobs : List (Job ρ β)) : List ρ := jobs.map Job.request

def submitted (rs : List ρ) : List (Job ρ β) := rs.map (fun r => ⟨r, none⟩)

theorem requests_submitted (rs : List ρ) : requests (submitted rs : List (Job ρ β)) = rs := by
  unfold requests submitted
  rw [List.map_map]
  exact List.map_id rs

theorem requests_append (jobs more : List (Job ρ β)) :
    requests (jobs ++ more) = requests jobs ++ requests more := List.map_append

theorem map_modify {α γ : Type} (g : α → γ) (f : α → α) (h : ∀ a, g (f a) = g a) (xs : List α)
    (i : ℕ) : (xs.modify i f).map g = xs.map g := by
  induction xs generalizing i with
  | nil => cases i <;> rfl
  | cons x xs ih =>
    rw [List.modify_cons]
    split
    · rw [List.map_cons, h, List.map_cons]
    · rw [List.map_cons, ih, List.map_cons]

theorem mem_modify {α : Type} {f : α → α} {xs : List α} {i : ℕ} {a : α} (h : a ∈ xs.modify i f) :
    a ∈ xs ∨ ∃ x, xs[i]? = some x ∧ a = f x := by
  obtain ⟨k, hk⟩ := List.getElem?_of_mem h
  rw [List.getElem?_modify] at hk
  split at hk
  · rename_i heq
    obtain ⟨x, hx, hfx⟩ := Option.map_eq_some_iff.1 hk
    exact Or.inr ⟨x, heq ▸ hx, hfx.symm⟩
  · rw [Option.map_eq_map, Option.map_id'] at hk
    exact Or.inl (List.mem_of_getElem? hk)

theorem mem_modify_of_mem {α : Type} (f : α → α) {xs : List α} (i : ℕ) {a : α} (h : a ∈ xs) :
    a ∈ xs.modify i f ∨ f a ∈ xs.modify i f := by
  induction xs generalizing i with
  | nil => cases h
  | cons x xs ih =>
    rw [List.modify_cons]
    split
    · rcases List.mem_cons.1 h with rfl | h
      · exact Or.inr List.mem_cons_self
      · exact Or.inl (List.mem_cons_of_mem _ h)
    · rcases List.mem_cons.1 h with rfl | h
      · exact Or.inl List.mem_cons_self
      · exact (ih (i - 1) h).imp (List.mem_cons_of_mem x) (List.mem_cons_of_mem x)

def Done (R : ρ → β → Prop) (jobs : List (Job ρ β)) : Prop :=
  ∀ job ∈ jobs, ∀ b ∈ job.result, R job.request b

theorem Done.append {R : ρ → β → Prop} {jobs more : List (Job ρ β)} (h : Done R jobs)
    (h' : Done R more) : Done R (jobs ++ more) := by
  intro job hjob
  rcases List.mem_append.1 hjob with hjob | hjob
  · exact h job hjob
  · exact h' job hjob

theorem done_submitted (R : ρ → β → Prop) (rs : List ρ) : Done R (submitted rs) := by
  intro job hjob b hb
  obtain ⟨r, -, rfl⟩ := List.mem_map.1 hjob
  cases hb

/-- `past` has been submitted and `taken` handed out; `jobs` is what is left. -/
structure InOrder (R : ρ → β → Prop) (past : List ρ) (taken : List β) (jobs : List (Job ρ β)) :
    Prop where
  split : ∃ answered, past = answered ++ requests jobs ∧ List.Forall₂ R answered taken
  done : Done R jobs

namespace InOrder
variable {R : ρ → β → Prop} {past : List ρ} {taken : List β} {jobs : List (Job ρ β)}

theorem nil : InOrder R ([] : List ρ) ([] : List β) [] :=
  ⟨⟨[], rfl, .nil⟩, fun _ hjob => by cases hjob⟩

theorem submit (h : InOrder R past taken jobs) (rs : List ρ) :
    InOrder R (past ++ rs) taken (jobs ++ submitted rs) := by
  obtain ⟨⟨answered, rfl, hanswered⟩, hdone⟩ := h
  refine ⟨⟨answered, ?_, hanswered⟩, hdone.append (done_submitted R rs)⟩
  rw [requests_append, requests_submitted, List.append_assoc]

theorem finish (h : InOrder R past taken jobs) {jobs' : List (Job ρ β)}
    (hrequests : requests jobs' = requests jobs) (hdone : Done R jobs') :
    InOrder R past taken jobs' := by
  obtain ⟨⟨answered, hpast, hanswered⟩, -⟩ := h
  exact ⟨⟨answered, hrequests ▸ hpast, hanswered⟩, hdone⟩

theorem take {r : ρ} {b : β} (h : InOrder R past taken (⟨r, some b⟩ :: jobs)) :
    InOrder R past (taken ++ [b]) jobs := by
  obtain ⟨⟨answered, rfl, hanswered⟩, hdone⟩ := h
  have hfirst : R r b := hdone _ List.mem_cons_self b rfl
  refine ⟨⟨answered ++ [r], ?_, ?_⟩, fun job hjob => hdone job (List.mem_cons_of_mem _ hjob)⟩
  · rw [List.append_assoc]
    rfl
  · exact List.rel_append hanswered (.cons hfirst .nil)

theorem length (h : InOrder R past taken jobs) : past.length = taken.length + jobs.length := by
  obtain ⟨⟨answered, rfl, hanswered⟩, -⟩ := h
  rw [List.length_append, hanswered.length_eq, requests, List.length_map]

theorem forall₂_take (h : InOrder R past taken jobs) :
    List.Forall₂ R (past.take taken.length) taken := by
  obtain ⟨⟨answered, rfl, hanswered⟩, -⟩ := h
  rw [← hanswered.length_eq, List.take_left]
  exact hanswered

theorem drop_eq (h : InOrder R past taken jobs) : past.drop taken.length = requests jobs := by
  obtain ⟨⟨answered, rfl, hanswered⟩, -⟩ := h
  rw [← hanswered.length_eq, List.drop_left]

end InOrder
end
end OrderedWork
