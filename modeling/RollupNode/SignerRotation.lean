import RollupNode.GroupedTraversal
import RollupNode.GuardedRuns
import RollupNode.Watcher

set_option autoImplicit false

/-! The signer-rotation watchdog: equal reads in a row confirm a rotation. -/
namespace RollupNode
open GroupedTraversal GuardedRuns

structure Rotation where
  baseline : Address
  observed : Address
  deriving DecidableEq, Repr

/-- The number of confirmations is asserted to be positive; it and the streak are 32-bit numbers. -/
structure RotationDetector where
  confirmations : ℕ
  baseline : Option Address
  candidate : Option Address
  streak : ℕ
  confirmations_pos : 0 < confirmations
  confirmations_lt : confirmations < 2 ^ 32

namespace RotationDetector

def new (confirmations : ℕ) (hpos : 0 < confirmations) (hlt : confirmations < 2 ^ 32) :
    RotationDetector where
  confirmations := confirmations
  baseline := none
  candidate := none
  streak := 0
  confirmations_pos := hpos
  confirmations_lt := hlt

def count (d : RotationDetector) (value : Address) : RotationDetector :=
  if d.candidate = some value then { d with streak := min (d.streak + 1) (2 ^ 32 - 1) }
  else { d with candidate := some value, streak := 1 }

def observe (d : RotationDetector) : Option Address → RotationDetector × Option Rotation
  | none => (d, none)
  | some value =>
    match d.baseline with
    | none => ({ d with baseline := some value }, none)
    | some baseline =>
      if value = baseline then ({ d with candidate := none, streak := 0 }, none)
      else
        (d.count value,
          if d.confirmations ≤ (d.count value).streak then some ⟨baseline, value⟩ else none)

def step (d : RotationDetector) (value : Option Address) : RotationDetector := (d.observe value).1

/-- The detector after the signers that were read: the candidate is the last of them, unless that
is the baseline, and the streak is the run of it at the end. -/
structure Tracks (d : RotationDetector) (reads : List Address) : Prop where
  baseline : d.baseline = reads.head?
  candidate : d.candidate = reads.getLast?.filter (fun a => some a ≠ reads.head?)
  streak : ∀ a ∈ d.candidate, d.streak = min (runLength (· = a) reads) (2 ^ 32 - 1)

theorem tracks_new (confirmations : ℕ) (hpos : 0 < confirmations)
    (hlt : confirmations < 2 ^ 32) : (new confirmations hpos hlt).Tracks [] where
  baseline := rfl
  candidate := rfl
  streak a ha := by cases ha

section
variable {d : RotationDetector} {reads : List Address} {value baseline : Address}

theorem Tracks.count_streak (h : d.Tracks reads) (hbaseline : reads.head? = some baseline)
    (hvalue : value ≠ baseline) :
    (d.count value).streak = min (runLength (· = value) (reads ++ [value])) (2 ^ 32 - 1) := by
  rw [runLength_concat, if_pos (decide_eq_true rfl)]
  unfold count
  split
  · rename_i hcandidate
    have hstreak := h.streak value hcandidate
    change min (d.streak + 1) (2 ^ 32 - 1) = _
    omega
  · rename_i hcandidate
    -- the run of the new value starts here: the read before it was another one
    have hzero : runLength (· = value) reads = 0 := by
      rcases List.eq_nil_or_concat reads with rfl | ⟨before, last, rfl⟩
      · rfl
      · rw [List.concat_eq_append] at h hbaseline ⊢
        rw [runLength_concat, if_neg]
        intro hlast
        apply hcandidate
        rw [h.candidate, hbaseline, List.getLast?_concat, of_decide_eq_true hlast,
          Option.filter_some, if_pos]
        exact decide_eq_true (fun heq => hvalue (Option.some.inj heq))
    rw [hzero]
    rfl

theorem Tracks.count (h : d.Tracks reads) (hbaseline : reads.head? = some baseline)
    (hvalue : value ≠ baseline) : (d.count value).Tracks (reads ++ [value]) := by
  have hhead : (reads ++ [value]).head? = some baseline := by
    rw [List.head?_append, hbaseline]
    rfl
  have hcandidate : (d.count value).candidate = some value := by
    unfold RotationDetector.count
    split
    · assumption
    · rfl
  constructor
  · rw [hhead, ← hbaseline, ← h.baseline]
    unfold RotationDetector.count
    split
    · rfl
    · rfl
  · rw [hcandidate, hhead, List.getLast?_concat]
    have hother : decide (some value ≠ some baseline) = true :=
      decide_eq_true (fun heq => hvalue (Option.some.inj heq))
    rw [Option.filter_some, if_pos hother]
  · intro a ha
    rw [hcandidate] at ha
    cases ha
    exact h.count_streak hbaseline hvalue

theorem Tracks.observe (h : d.Tracks reads) (value : Option Address) :
    (d.step value).Tracks (reads ++ value.toList) := by
  cases value with
  | none =>
    rw [Option.toList_none, List.append_nil]
    exact h
  | some value =>
    have hbaseline := h.baseline
    unfold step RotationDetector.observe
    cases hreads : reads.head? with
    | none =>
      rw [hreads] at hbaseline
      rw [List.head?_eq_none_iff.1 hreads] at h ⊢
      simp only [hbaseline]
      refine ⟨rfl, ?_, ?_⟩
      · change d.candidate = (if decide (some value ≠ some value) = true then _ else none)
        rw [h.candidate, if_neg (by simp)]
        rfl
      · intro a ha
        change a ∈ d.candidate at ha
        rw [h.candidate] at ha
        cases ha
    | some baseline =>
      rw [hreads] at hbaseline
      simp only [hbaseline]
      by_cases hvalue : value = baseline
      · rw [if_pos hvalue]
        have hhead : (reads ++ [value]).head? = some baseline := by
          rw [List.head?_append, hreads]
          rfl
        refine ⟨hhead.symm, ?_, ?_⟩
        · rw [Option.toList_some, hhead, List.getLast?_concat, hvalue, Option.filter_some,
            if_neg (by simp)]
        · intro a ha
          cases ha
      · rw [if_neg hvalue]
        exact h.count hreads hvalue

theorem Tracks.observe_eq_some_iff (h : d.Tracks reads) (value : Option Address)
    (rotation : Rotation) :
    (d.observe value).2 = some rotation ↔
      value = some rotation.observed ∧ reads.head? = some rotation.baseline ∧
        rotation.observed ≠ rotation.baseline ∧
        d.confirmations ≤ runLength (· = rotation.observed) (reads ++ [rotation.observed]) := by
  have hbaseline := h.baseline
  have hlt := d.confirmations_lt
  cases value with
  | none => simp [RotationDetector.observe]
  | some value =>
    unfold RotationDetector.observe
    cases hreads : reads.head? with
    | none =>
      rw [hreads] at hbaseline
      simp [hbaseline]
    | some baseline =>
      rw [hreads] at hbaseline
      simp only [hbaseline, Option.some.injEq]
      by_cases hvalue : value = baseline
      · rw [if_pos hvalue]
        refine iff_of_false (by simp) ?_
        rintro ⟨hobserved, hfirst, hother, -⟩
        exact hother (hobserved.symm.trans (hvalue.trans hfirst))
      · rw [if_neg hvalue, h.count_streak hreads hvalue]
        simp only [ite_eq_iff, Option.some.injEq, reduceCtorEq, and_false, or_false]
        constructor
        · rintro ⟨hstreak, rfl⟩
          exact ⟨rfl, rfl, hvalue, le_trans hstreak (min_le_left _ _)⟩
        · rintro ⟨rfl, rfl, -, hrun⟩
          exact ⟨le_min hrun (by omega), rfl⟩

end

theorem step_confirmations (d : RotationDetector) (value : Option Address) :
    (d.step value).confirmations = d.confirmations := by
  cases value with
  | none => rfl
  | some value =>
    unfold step observe
    cases d.baseline with
    | none => rfl
    | some baseline =>
      dsimp only
      split
      · rfl
      · change (d.count value).confirmations = _
        unfold count
        split
        · rfl
        · rfl

theorem run_confirmations (observations : List (Option Address)) (d : RotationDetector) :
    (run step d observations).confirmations = d.confirmations := by
  induction observations generalizing d with
  | nil => rfl
  | cons value observations ih =>
    exact (ih (d.step value)).trans (step_confirmations d value)

/-- Failed reads leave no trace. -/
theorem Tracks.run (observations : List (Option Address)) {d : RotationDetector}
    {reads : List Address} (h : d.Tracks reads) :
    (run step d observations).Tracks (reads ++ observations.filterMap id) := by
  induction observations generalizing d reads with
  | nil =>
    rw [List.filterMap_nil, List.append_nil]
    exact h
  | cons value observations ih =>
    have htail := ih (h.observe value)
    rw [List.append_assoc] at htail
    cases value with
    | none => exact htail
    | some value => exact htail

/-- A rotation is returned exactly on a successful observation at which at least as many
observations succeeded after the baseline as are needed to confirm, the last of them all saw one
address, and that is not the baseline: the first successful observation. -/
theorem observe_rotation_iff (confirmations : ℕ) (hpos : 0 < confirmations)
    (hlt : confirmations < 2 ^ 32) (observations : List (Option Address))
    (value : Option Address) (rotation : Rotation) :
    ((run step (new confirmations hpos hlt) observations).observe value).2 = some rotation ↔
      value.isSome ∧ ∃ later : List Address,
        (observations ++ [value]).filterMap id = rotation.baseline :: later ∧
        confirmations ≤ later.length ∧
        (∀ a ∈ later.drop (later.length - confirmations), a = rotation.observed) ∧
        rotation.observed ≠ rotation.baseline := by
  have htracks := (tracks_new confirmations hpos hlt).run observations
  rw [List.nil_append] at htracks
  rw [htracks.observe_eq_some_iff, run_confirmations]
  cases value with
  | none => simp
  | some value =>
    rw [List.filterMap_append]
    generalize observations.filterMap id = reads
    change (_ ∧ _ ∧ _ ∧ confirmations ≤ _) ↔ _ ∧ ∃ later, reads ++ [value] = _ ∧ _
    have hrun : ∀ later : List Address, rotation.observed ≠ rotation.baseline →
        (confirmations ≤ runLength (· = rotation.observed) (rotation.baseline :: later) ↔
          confirmations ≤ later.length ∧
            ∀ a ∈ later.drop (later.length - confirmations), a = rotation.observed) := by
      intro later hother
      have hbaseline : decide (rotation.baseline = rotation.observed) = false :=
        decide_eq_false hother.symm
      rw [runLength_cons (· = rotation.observed) rotation.baseline hbaseline, le_runLength_iff]
      simp only [decide_eq_true_eq]
    constructor
    · rintro ⟨hvalue, hbaseline, hother, hconfirmed⟩
      cases hvalue
      obtain ⟨later, rfl⟩ := List.head?_eq_some_iff.1 hbaseline
      have hlater := (hrun _ hother).1 hconfirmed
      exact ⟨rfl, later ++ [rotation.observed], rfl, hlater.1, hlater.2, hother⟩
    · rintro ⟨-, later, hreads, hlength, hlast, hother⟩
      cases reads with
      | nil =>
        obtain ⟨-, rfl⟩ := List.cons.inj hreads
        exact absurd hlength (by simp; omega)
      | cons baseline before =>
        rw [List.cons_append] at hreads
        obtain ⟨rfl, rfl⟩ := List.cons.inj hreads
        -- the value just read is the last of those that agree
        have hvalue : value = rotation.observed := by
          apply hlast
          rw [List.length_append, List.length_singleton,
            List.drop_append_of_le_length (by omega)]
          exact List.mem_append_right _ (List.mem_singleton_self value)
        cases hvalue
        exact ⟨rfl, rfl, hother, (hrun _ hother).2 ⟨hlength, hlast⟩⟩

theorem observe_rotation_two_reads :
    ((run step (new 2 (by decide) (by decide)) [some 1, some 2, none]).observe (some 2)).2 =
      some ⟨1, 2⟩ := by
  apply (observe_rotation_iff 2 (by decide) (by decide) [some 1, some 2, none] (some 2) ⟨1, 2⟩).2
  refine ⟨rfl, [2, 2], rfl, le_refl 2, ?_, by decide⟩
  intro a ha
  simpa using ha

end RotationDetector
end RollupNode
