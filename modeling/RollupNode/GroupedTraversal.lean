import Mathlib.Data.List.SplitBy
import RollupNode.ExceptTraversal

set_option autoImplicit false

/-! Traversals that handle neighbouring related elements as one group. -/
namespace GroupedTraversal
open ExceptTraversal

section
variable {α β ε : Type}

def collect (f : α → Except ε (List β)) (xs : List α) : Except ε (List β) := do
  let parts ← xs.mapM f
  return parts.flatten

/-- The whole succeeds exactly when both parts do, with the results of the first in front. -/
def Splits (whole first second : Except ε (List β)) : Prop :=
  ∀ ys, whole = .ok ys ↔ ∃ a b, first = .ok a ∧ second = .ok b ∧ ys = a ++ b

theorem collect_cons (f : α → Except ε (List β)) (x : α) (xs : List α) :
    Splits (collect f (x :: xs)) (f x) (collect f xs) := by
  intro ys
  constructor
  · intro h
    obtain ⟨parts, hparts, h⟩ := bind_eq_ok.1 h
    rw [List.mapM_cons] at hparts
    obtain ⟨a, ha, hparts⟩ := bind_eq_ok.1 hparts
    obtain ⟨rest, hrest, hparts⟩ := bind_eq_ok.1 hparts
    cases hparts
    cases h
    exact ⟨a, rest.flatten, ha, bind_eq_ok.2 ⟨rest, hrest, rfl⟩, rfl⟩
  · rintro ⟨a, b, ha, hb, rfl⟩
    obtain ⟨rest, hrest, hb⟩ := bind_eq_ok.1 hb
    cases hb
    refine bind_eq_ok.2 ⟨a :: rest, ?_, rfl⟩
    rw [List.mapM_cons]
    exact bind_eq_ok.2 ⟨a, ha, bind_eq_ok.2 ⟨rest, hrest, rfl⟩⟩

theorem collect_append (f : α → Except ε (List β)) (xs ys : List α) :
    Splits (collect f (xs ++ ys)) (collect f xs) (collect f ys) := by
  induction xs with
  | nil =>
    intro zs
    constructor
    · intro h
      exact ⟨[], zs, rfl, h, rfl⟩
    · rintro ⟨a, b, ha, hb, rfl⟩
      cases ha
      exact hb
  | cons x xs ih =>
    intro zs
    rw [List.cons_append, collect_cons f x (xs ++ ys) zs]
    constructor
    · rintro ⟨a, b, ha, hb, rfl⟩
      obtain ⟨c, d, hc, hd, rfl⟩ := (ih b).1 hb
      exact ⟨a ++ c, d, (collect_cons f x xs _).2 ⟨a, c, ha, hc, rfl⟩, hd, by simp⟩
    · rintro ⟨a, b, ha, hb, rfl⟩
      obtain ⟨c, d, hc, hd, rfl⟩ := (collect_cons f x xs a).1 ha
      exact ⟨c, d ++ b, hc, (ih _).2 ⟨d, b, hd, hb, rfl⟩, by simp⟩

variable {f : α → Except ε (List β)} {g xs : List α} {ys : List β} {R : α → Option β → Prop}

theorem collect_filter (p : α → Bool) (q : β → Bool)
    (hq : ∀ x ∈ xs, ∀ part, f x = .ok part → ∀ y ∈ part, q y = p x) (h : collect f xs = .ok ys) :
    collect f (xs.filter p) = .ok (ys.filter q) := by
  induction xs generalizing ys with
  | nil =>
    cases h
    rfl
  | cons x xs ih =>
    obtain ⟨part, rest, hpart, hrest, rfl⟩ := (collect_cons f x xs ys).1 h
    have htail := ih (fun x' hx' => hq x' (List.mem_cons_of_mem x hx')) hrest
    have hown := hq x List.mem_cons_self part hpart
    rw [List.filter_append]
    cases hp : p x with
    | true =>
      rw [List.filter_cons_of_pos hp, List.filter_eq_self.2 (fun y hy => (hown y hy).trans hp)]
      exact (collect_cons f x _ _).2 ⟨part, _, hpart, htail, rfl⟩
    | false =>
      have hnone : part.filter q = [] := by
        rw [List.filter_eq_nil_iff]
        intro y hy
        rw [hown y hy, hp]
        exact Bool.false_ne_true
      rw [List.filter_cons_of_neg (by rw [hp]; exact Bool.false_ne_true), hnone, List.nil_append]
      exact htail

theorem mapM_append_splits (f : α → Except ε β) (xs ys : List α) :
    Splits ((xs ++ ys).mapM f) (xs.mapM f) (ys.mapM f) := by
  intro zs
  rw [List.mapM_append]
  constructor
  · intro h
    obtain ⟨a, ha, h⟩ := bind_eq_ok.1 h
    obtain ⟨b, hb, h⟩ := bind_eq_ok.1 h
    cases h
    exact ⟨a, b, ha, hb, rfl⟩
  · rintro ⟨a, b, ha, hb, rfl⟩
    exact bind_eq_ok.2 ⟨a, ha, bind_eq_ok.2 ⟨b, hb, rfl⟩⟩

theorem filterMap_splits {γ : Type} {whole first second : Except ε (List β)} (g : β → Option γ)
    (h : Splits whole first second) :
    Splits (whole >>= fun ys => pure (ys.filterMap g)) (first >>= fun ys => pure (ys.filterMap g))
      (second >>= fun ys => pure (ys.filterMap g)) := by
  intro zs
  constructor
  · intro hz
    obtain ⟨ys, hys, hz⟩ := bind_eq_ok.1 hz
    cases hz
    obtain ⟨a, b, ha, hb, rfl⟩ := (h ys).1 hys
    exact ⟨_, _, bind_eq_ok.2 ⟨a, ha, rfl⟩, bind_eq_ok.2 ⟨b, hb, rfl⟩, List.filterMap_append⟩
  · rintro ⟨a, b, ha, hb, rfl⟩
    obtain ⟨as, has, ha⟩ := bind_eq_ok.1 ha
    obtain ⟨bs, hbs, hb⟩ := bind_eq_ok.1 hb
    cases ha
    cases hb
    refine bind_eq_ok.2 ⟨as ++ bs, (h _).2 ⟨as, bs, has, hbs, rfl⟩, ?_⟩
    exact congrArg Except.ok List.filterMap_append

theorem collect_ok_mono {g : α → Except ε (List β)} (hfg : ∀ x ∈ xs, ∀ a, f x = .ok a → g x = .ok a)
    (h : collect f xs = .ok ys) : collect g xs = .ok ys := by
  obtain ⟨parts, hparts, h⟩ := bind_eq_ok.1 h
  exact bind_eq_ok.2 ⟨parts, mapM_ok_mono hfg hparts, h⟩

theorem collect_ok_of_forall (h : ∀ x ∈ xs, ∃ a, f x = .ok a) : ∃ ys, collect f xs = .ok ys := by
  obtain ⟨parts, hparts⟩ := mapM_ok_of_forall h
  exact ⟨parts.flatten, bind_eq_ok.2 ⟨parts, hparts, rfl⟩⟩

/-- Every element has one result or none, and the results stand in the order of the elements. -/
def Matches (R : α → Option β → Prop) (xs : List α) (ys : List β) : Prop :=
  ∃ results : List (Option β), List.Forall₂ R xs results ∧ ys = results.filterMap id

theorem Matches.nil (R : α → Option β → Prop) : Matches R [] [] := ⟨[], List.Forall₂.nil, rfl⟩

theorem Matches.append {xs' : List α} {ys' : List β} (h : Matches R xs ys) (h' : Matches R xs' ys') :
    Matches R (xs ++ xs') (ys ++ ys') := by
  obtain ⟨results, hr, rfl⟩ := h
  obtain ⟨results', hr', rfl⟩ := h'
  exact ⟨results ++ results', List.rel_append hr hr', List.filterMap_append.symm⟩

theorem Matches.length_le (h : Matches R xs ys) : ys.length ≤ xs.length := by
  obtain ⟨results, hr, rfl⟩ := h
  rw [hr.length_eq]
  exact List.length_filterMap_le id results

theorem Matches.exists_of_mem (h : Matches R xs ys) {y : β} (hy : y ∈ ys) : ∃ x ∈ xs, R x (some y) := by
  obtain ⟨results, hr, rfl⟩ := h
  induction hr with
  | nil => cases hy
  | @cons x result xs results hfirst hrest ih =>
    rw [List.mem_filterMap] at hy
    obtain ⟨o, ho, rfl⟩ := hy
    rcases List.mem_cons.1 ho with rfl | ho
    · exact ⟨x, List.mem_cons_self, hfirst⟩
    · obtain ⟨x', hx', hr'⟩ := ih (List.mem_filterMap.2 ⟨some y, ho, rfl⟩)
      exact ⟨x', List.mem_cons_of_mem x hx', hr'⟩

theorem mapM_eq_filterMap (f : α → Except ε β) (xs : List α) :
    xs.mapM f = xs.mapM (fun x => do return some (← f x)) >>= fun found =>
      pure (found.filterMap id) := by
  induction xs with
  | nil => rfl
  | cons x xs ih =>
    rw [List.mapM_cons, List.mapM_cons, ih]
    cases f x with
    | error e => rfl
    | ok y =>
      cases xs.mapM (fun x => do return some (← f x)) with
      | error e => rfl
      | ok found => rfl

theorem matches_of_collect {γ : Type} {f : γ → Except ε (List β)} (elements : γ → List α)
    {xs : List γ} (hf : ∀ x ∈ xs, ∀ a, f x = .ok a → Matches R (elements x) a)
    (h : collect f xs = .ok ys) :
    Matches R (xs.flatMap elements) ys := by
  induction xs generalizing ys with
  | nil =>
    cases h
    exact Matches.nil R
  | cons x xs ih =>
    obtain ⟨a, b, ha, hb, rfl⟩ := (collect_cons f x xs ys).1 h
    rw [List.flatMap_cons]
    apply Matches.append
    · exact hf x List.mem_cons_self a ha
    · exact ih (fun z hz => hf z (List.mem_cons_of_mem x hz)) hb

theorem key_eq_of_isChain {κ : Type} [DecidableEq κ] (key : α → κ)
    (h : xs.IsChain (fun x y => decide (key x = key y) = true)) {x y : α} (hx : x ∈ xs)
    (hy : y ∈ xs) : key x = key y := by
  have hkey : xs.IsChain (fun x y => key x = key y) := h.imp (fun _ _ h => of_decide_eq_true h)
  have htrans : IsTrans α (fun x y => key x = key y) := ⟨fun _ _ _ h h' => h.trans h'⟩
  have hsymm : Std.Symm (fun x y => key x = key y) := ⟨fun _ _ h => h.symm⟩
  have hpair := List.isChain_iff_pairwise.1 hkey
  exact List.Pairwise.forall_of_forall (R := fun x y => key x = key y) (fun _ _ => rfl) hpair hx hy

variable {r : α → α → Bool} {gs hs : List (List α)}

theorem splitBy_append_merged {ys : List α} {h : List α} (hxs : xs.splitBy r = gs ++ [g])
    (hys : ys.splitBy r = h :: hs) (hr : ∀ x ∈ g.getLast?, ∀ y ∈ h.head?, r x y = true) :
    (xs ++ ys).splitBy r = gs ++ (g ++ h) :: hs := by
  obtain ⟨rfl, hxne, hxchain, hxapart⟩ := List.splitBy_eq_iff.1 hxs
  obtain ⟨rfl, hyne, hychain, hyapart⟩ := List.splitBy_eq_iff.1 hys
  have hg : g ≠ [] := by
    intro hnil
    exact hxne (by simp [hnil])
  rw [List.isChain_append] at hxapart
  rw [List.isChain_cons] at hyapart
  refine List.splitBy_eq_iff.2 ⟨by simp, ?_, ?_, ?_⟩
  · intro hmem
    rcases List.mem_append.1 hmem with hmem | hmem
    · exact hxne (List.mem_append_left _ hmem)
    · rcases List.mem_cons.1 hmem with hmem | hmem
      · exact hg (List.append_eq_nil_iff.1 hmem.symm).1
      · exact hyne (List.mem_cons_of_mem h hmem)
  · intro m hm
    rcases List.mem_append.1 hm with hm | hm
    · exact hxchain m (List.mem_append_left _ hm)
    · rcases List.mem_cons.1 hm with rfl | hm
      · exact List.isChain_append.2 ⟨hxchain g (by simp), hychain h (by simp), hr⟩
      · exact hychain m (List.mem_cons_of_mem h hm)
  · rw [List.isChain_append, List.isChain_cons]
    refine ⟨hxapart.1, ⟨?_, hyapart.2⟩, ?_⟩
    · intro m hm
      obtain ⟨hlast, hfirst, hapart⟩ := hyapart.1 m hm
      refine ⟨List.append_ne_nil_of_left_ne_nil hg h, hfirst, ?_⟩
      rw [List.getLast_append_of_ne_nil _ hlast]
      exact hapart
    · intro m hm k hk
      obtain ⟨hlast, hfirst, hapart⟩ := hxapart.2.2 m hm g rfl
      cases hk
      refine ⟨hlast, List.append_ne_nil_of_left_ne_nil hg h, ?_⟩
      rw [List.head_append_of_ne_nil hg]
      exact hapart

theorem collect_merged (f : List α → Except ε (List β)) (gs hs : List (List α)) {h : List α}
    (hsplit : Splits (f (g ++ h)) (f g) (f h)) :
    Splits (collect f (gs ++ (g ++ h) :: hs)) (collect f (gs ++ [g])) (collect f (h :: hs)) := by
  intro zs
  rw [collect_append f gs _ zs]
  constructor
  · rintro ⟨a, b, ha, hb, rfl⟩
    obtain ⟨c, d, hc, hd, rfl⟩ := (collect_cons f _ hs b).1 hb
    obtain ⟨p, q, hp, hq, rfl⟩ := (hsplit c).1 hc
    refine ⟨a ++ p, q ++ d, ?_, (collect_cons f h hs _).2 ⟨q, d, hq, hd, rfl⟩, by simp⟩
    rw [collect_append f gs [g]]
    exact ⟨a, p, ha, (collect_cons f g [] p).2 ⟨p, [], hp, rfl, by simp⟩, rfl⟩
  · rintro ⟨a, b, ha, hb, rfl⟩
    rw [collect_append f gs [g]] at ha
    obtain ⟨a, single, ha, hsingle, rfl⟩ := ha
    obtain ⟨p, _, hp, hnil, rfl⟩ := (collect_cons f g [] single).1 hsingle
    cases hnil
    obtain ⟨q, d, hq, hd, rfl⟩ := (collect_cons f h hs b).1 hb
    refine ⟨a, (p ++ q) ++ d, ha, ?_, by simp⟩
    exact (collect_cons f _ hs _).2 ⟨p ++ q, d, (hsplit _).2 ⟨p, q, hp, hq, rfl⟩, hd, rfl⟩

theorem collect_splitBy_append (f : List α → Except ε (List β)) (r : α → α → Bool) (xs ys : List α)
    (hf : ∀ g h, g <:+ xs → h <+: ys → g ≠ [] → h ≠ [] →
      (g ++ h).IsChain (fun x y => r x y = true) → Splits (f (g ++ h)) (f g) (f h)) :
    Splits (collect f ((xs ++ ys).splitBy r)) (collect f (xs.splitBy r))
      (collect f (ys.splitBy r)) := by
  rcases List.eq_nil_or_concat (xs.splitBy r) with hxs | ⟨gs, g, hxs⟩
  · rw [List.splitBy_eq_nil.1 hxs, List.nil_append]
    exact collect_append f [] (ys.splitBy r)
  cases hys : ys.splitBy r with
  | nil =>
    rw [List.splitBy_eq_nil.1 hys, List.append_nil, ← List.append_nil (xs.splitBy r)]
    intro zs
    rw [collect_append f (xs.splitBy r) [] zs, List.append_nil]
  | cons h hs =>
    obtain ⟨hxflat, hxne, hxchain, -⟩ := List.splitBy_eq_iff.1 hxs
    obtain ⟨hyflat, hyne, hychain, -⟩ := List.splitBy_eq_iff.1 hys
    have hgne : g ≠ [] := fun hnil => hxne (by simp [hnil])
    have hhne : h ≠ [] := fun hnil => hyne (by simp [hnil])
    have hlast : xs.getLast? = g.getLast? := by
      rw [hxflat]
      simp [List.getLast?_append_of_ne_nil _ hgne]
    have hhead : ys.head? = h.head? := by
      rw [hyflat]
      simp [List.head?_append_of_ne_nil _ hhne]
    by_cases hr : ∀ x ∈ g.getLast?, ∀ y ∈ h.head?, r x y = true
    · have hchain : (g ++ h).IsChain (fun x y => r x y = true) :=
        List.isChain_append.2 ⟨hxchain g (by simp), hychain h (by simp), hr⟩
      have hsplit := hf g h ⟨gs.flatten, by simp [hxflat]⟩ ⟨hs.flatten, by simp [hyflat]⟩ hgne hhne
        hchain
      rw [splitBy_append_merged (by simpa using hxs) hys hr, hxs]
      rw [List.concat_eq_append]
      exact collect_merged f gs hs hsplit
    · rw [List.splitBy_append, ← hys]
      · exact collect_append f _ _
      · intro x hx y hy
        rw [hlast] at hx
        rw [hhead] at hy
        cases hxy : r x y with
        | false => rfl
        | true =>
          refine absurd ?_ hr
          intro x' hx' y' hy'
          rw [Option.mem_unique hx' hx, Option.mem_unique hy' hy]
          exact hxy

/-! Elements together with those before them. -/

def inContext (before : List α) : List α → List (List α × α)
  | [] => []
  | x :: xs => (before, x) :: inContext (before ++ [x]) xs

theorem inContext_append (before xs ys : List α) :
    inContext before (xs ++ ys) = inContext before xs ++ inContext (before ++ xs) ys := by
  induction xs generalizing before with
  | nil => simp [inContext]
  | cons x xs ih => simp [inContext, ih]

theorem map_snd_inContext (before xs : List α) : (inContext before xs).map Prod.snd = xs := by
  induction xs generalizing before with
  | nil => rfl
  | cons x xs ih => simp [inContext, ih]

theorem getElem?_inContext (before xs : List α) (i : ℕ) :
    (inContext before xs)[i]? = xs[i]?.map (fun x => (before ++ xs.take i, x)) := by
  induction xs generalizing before i with
  | nil => simp [inContext]
  | cons x xs ih =>
    cases i with
    | zero => simp [inContext]
    | succ i => simp [inContext, ih]

theorem mem_inContext {before : List α} {p : List α × α} (h : p ∈ inContext before xs) :
    ∃ i, xs[i]? = some p.2 ∧ p.1 = before ++ xs.take i := by
  obtain ⟨i, hi⟩ := List.mem_iff_getElem?.1 h
  rw [getElem?_inContext, Option.map_eq_some_iff] at hi
  obtain ⟨x, hx, rfl⟩ := hi
  exact ⟨i, hx, rfl⟩

theorem inContext_eq_zipIdx (before xs : List α) :
    inContext before xs = xs.zipIdx.map (fun p => (before ++ xs.take p.2, p.1)) := by
  apply List.ext_getElem?
  intro i
  rw [getElem?_inContext, List.getElem?_map, List.getElem?_zipIdx, Option.map_map, Nat.zero_add]
  rfl

theorem Matches.mono {S : α → Option β → Prop} (h : Matches R xs ys)
    (hRS : ∀ x ∈ xs, ∀ o, R x o → S x o) : Matches S xs ys := by
  obtain ⟨results, hr, rfl⟩ := h
  refine ⟨results, ?_, rfl⟩
  induction hr with
  | nil => exact .nil
  | @cons x o xs results hfirst hrest ih =>
    refine .cons (hRS x List.mem_cons_self o hfirst) ?_
    exact ih (fun z hz => hRS z (List.mem_cons_of_mem x hz))

theorem matches_inContext_iff (before : List α) :
    Matches (fun p => R (Prod.snd p)) (inContext before xs) ys ↔ Matches R xs ys := by
  unfold Matches
  simp only [← List.forall₂_map_left_iff (f := Prod.snd) (R := R), map_snd_inContext]

theorem forall₂_unique {rs ss : List (Option β)}
    (hnone : ∀ x o o', R x o → R x o' → (o = none ↔ o' = none)) (hr : List.Forall₂ R xs rs)
    (hs : List.Forall₂ R xs ss) (h : rs.filterMap id = ss.filterMap id) : rs = ss := by
  induction hr generalizing ss with
  | nil =>
    cases hs
    rfl
  | @cons x o xs rs hfirst hrest ih =>
    cases hs with
    | @cons _ o' _ ss hfirst' hrest' =>
      have hiff := hnone x o o' hfirst hfirst'
      cases o with
      | none =>
        obtain rfl := hiff.1 rfl
        rw [ih hrest' (by simpa using h)]
      | some y =>
        cases o' with
        | none => cases hiff.2 rfl
        | some y' =>
          simp only [List.filterMap_cons, id_eq, List.cons.injEq] at h
          rw [h.1, ih hrest' h.2]

theorem forall₂_getElem? {γ δ : Type} {R : γ → δ → Prop} {xs : List γ} {ys : List δ}
    (h : List.Forall₂ R xs ys) {i : ℕ} {x : γ} (hx : xs[i]? = some x) :
    ∃ y, ys[i]? = some y ∧ R x y := by
  induction h generalizing i with
  | nil => cases hx
  | cons hfirst hrest ih =>
    cases i with
    | zero =>
      cases hx
      exact ⟨_, rfl, hfirst⟩
    | succ i => exact ih hx

theorem boundary_of_splitBy (h : xs.splitBy r = gs ++ g :: hs) :
    ∀ x ∈ gs.flatten.getLast?, ∀ y ∈ g.head?, r x y = false := by
  obtain ⟨-, hne, -, hapart⟩ := List.splitBy_eq_iff.1 h
  intro x hx y hy
  rcases List.eq_nil_or_concat gs with rfl | ⟨front, last, rfl⟩
  · cases hx
  · have hlast : last ≠ [] := fun hnil => hne (by simp [hnil])
    rw [List.concat_eq_append] at hx hapart
    rw [List.flatten_append, List.flatten_singleton, List.getLast?_append_of_ne_nil _ hlast] at hx
    rw [List.append_assoc, List.isChain_append] at hapart
    have hpair := (List.isChain_cons.1 hapart.2.1).1 g (by simp)
    obtain ⟨hl, hg, hr⟩ := hpair
    rw [List.getLast?_eq_some_getLast hl] at hx
    rw [List.head?_eq_some_head hg] at hy
    cases hx
    cases hy
    exact hr

theorem matches_inContext_groups {R : List α × α → Option β → Prop} {f : List α → Except ε (List β)}
    {groups : List (List α)} (before : List α)
    (hf : ∀ gs g hs, groups = gs ++ g :: hs → ∀ a, f g = .ok a →
      Matches R (inContext (before ++ gs.flatten) g) a) (h : collect f groups = .ok ys) :
    Matches R (inContext before groups.flatten) ys := by
  induction groups generalizing before ys with
  | nil =>
    cases h
    exact Matches.nil R
  | cons g groups ih =>
    obtain ⟨a, b, ha, hb, rfl⟩ := (collect_cons f g groups ys).1 h
    rw [List.flatten_cons, inContext_append]
    apply Matches.append
    · simpa using hf [] g groups rfl a ha
    · apply ih (before ++ g) _ hb
      intro gs g' hs heq a ha
      have hgroup := hf (g :: gs) g' hs (by rw [heq]; rfl) a ha
      rw [List.flatten_cons, ← List.append_assoc] at hgroup
      exact hgroup

theorem mem_of_mem_splitBy (h : g ∈ xs.splitBy r) : ∀ x ∈ g, x ∈ xs := by
  intro x hx
  have hflat : x ∈ (xs.splitBy r).flatten := List.mem_flatten.2 ⟨g, h, hx⟩
  rw [List.flatten_splitBy] at hflat
  exact hflat

/-- The groups have one key each, and the element in front of a group, if it is not one of those
before all of them, has another. -/
theorem matches_inContext_splitBy {κ : Type} [DecidableEq κ] (key : α → κ)
    {R : List α × α → Option β → Prop} {f : List α → Except ε (List β)} (before : List α)
    (hf : ∀ front g, (∀ x ∈ g, x ∈ xs) → (∀ x ∈ g, ∀ y ∈ g, key x = key y) →
      (∀ x ∈ front.getLast?, x ∈ before.getLast? ∨ ∀ y ∈ g, key x ≠ key y) →
      ∀ a, f g = .ok a → Matches R (inContext front g) a)
    (h : collect f (xs.splitBy (fun x y => key x = key y)) = .ok ys) :
    Matches R (inContext before xs) ys := by
  rw [← List.flatten_splitBy (fun x y => decide (key x = key y)) xs]
  refine matches_inContext_groups before ?_ h
  intro gs g hs heq
  have hmem : g ∈ xs.splitBy (fun x y => key x = key y) := by
    rw [heq]
    exact List.mem_append_right _ List.mem_cons_self
  have hkey : ∀ x ∈ g, ∀ y ∈ g, key x = key y :=
    fun x hx y hy => key_eq_of_isChain key (List.isChain_of_mem_splitBy hmem) hx hy
  refine hf _ g (mem_of_mem_splitBy hmem) hkey ?_
  intro x hx
  rcases List.eq_nil_or_concat gs.flatten with hnil | ⟨front, last, hlast⟩
  · rw [hnil, List.append_nil] at hx
    exact .inl hx
  · rw [List.getLast?_append_of_ne_nil _ (by simp [hlast])] at hx
    refine .inr ?_
    intro y hy hxy
    obtain ⟨first, rest, rfl⟩ := List.exists_cons_of_ne_nil (List.ne_nil_of_mem hy)
    have hboundary := boundary_of_splitBy heq x hx first rfl
    exact of_decide_eq_false hboundary (hxy.trans (hkey y hy first List.mem_cons_self))

def runLength (p : α → Bool) (before : List α) : ℕ := (before.reverse.takeWhile p).length

theorem runLength_append (p : α → Bool) (before xs : List α) (hxs : ∀ x ∈ xs, p x = true)
    (hbefore : ∀ x ∈ before.getLast?, p x = false) : runLength p (before ++ xs) = xs.length := by
  have hstop : before.reverse.takeWhile p = [] := by
    cases hrev : before.reverse with
    | nil => rfl
    | cons x rest =>
      have hlast : before.getLast? = some x := by
        rw [← List.head?_reverse, hrev]
        rfl
      simp [hbefore x hlast]
  unfold runLength
  rw [List.reverse_append, List.takeWhile_append_of_pos (by simpa using hxs), hstop, List.append_nil,
    List.length_reverse]

theorem runLength_concat (p : α → Bool) (before : List α) (x : α) :
    runLength p (before ++ [x]) = if p x then runLength p before + 1 else 0 := by
  unfold runLength
  rw [List.reverse_append, List.reverse_singleton, List.singleton_append, List.takeWhile_cons]
  cases p x <;> rfl

theorem runLength_cons (p : α → Bool) (x : α) (hx : p x = false) (xs : List α) :
    runLength p (x :: xs) = runLength p xs := by
  induction xs using List.reverseRecOn with
  | nil =>
    change runLength p ([] ++ [x]) = 0
    rw [runLength_concat, hx]
    rfl
  | append_singleton xs z ih =>
    rw [← List.cons_append, runLength_concat, runLength_concat, ih]

theorem le_runLength_iff (p : α → Bool) (xs : List α) (n : ℕ) :
    n ≤ runLength p xs ↔ n ≤ xs.length ∧ ∀ x ∈ xs.drop (xs.length - n), p x = true := by
  induction xs using List.reverseRecOn generalizing n with
  | nil =>
    change n ≤ 0 ↔ _
    simp
  | append_singleton xs z ih =>
    rw [runLength_concat, List.length_append, List.length_singleton]
    cases n with
    | zero => simp
    | succ n =>
      have hlast : xs.length + 1 - (n + 1) = xs.length - n := by omega
      rw [hlast, List.drop_append_of_le_length (Nat.sub_le _ _)]
      cases hz : p z with
      | true =>
        simp only [if_true, Nat.add_le_add_iff_right, ih, List.mem_append, List.mem_singleton]
        constructor
        · rintro ⟨hle, hall⟩
          refine ⟨hle, ?_⟩
          rintro x (hx | rfl)
          · exact hall x hx
          · exact hz
        · rintro ⟨hle, hall⟩
          exact ⟨hle, fun x hx => hall x (Or.inl hx)⟩
      | false =>
        refine iff_of_false (by simp) ?_
        rintro ⟨-, hall⟩
        have hlastTrue := hall z (List.mem_append_right _ (List.mem_singleton_self z))
        rw [hz] at hlastTrue
        cases hlastTrue

theorem runLength_eq_iff (p : α → Bool) (before : List α) :
    runLength p before = (before.filter p).length ↔
      ∀ front a back, before = front ++ a :: back → p a = true → ∀ x ∈ back, p x = true := by
  induction before using List.reverseRecOn with
  | nil => simp [runLength]
  | append_singleton before z ih =>
    rw [runLength_concat, List.filter_append, List.length_append]
    cases hz : p z with
    | true =>
      simp only [List.filter_cons, List.filter_nil, hz, if_true, List.length_singleton,
        Nat.add_right_cancel_iff, ih]
      constructor
      · intro h front a back heq ha x hx
        rcases List.eq_nil_or_concat back with rfl | ⟨back, last, rfl⟩
        · cases hx
        · rw [List.concat_eq_append, ← List.cons_append, ← List.append_assoc] at heq
          obtain ⟨hbefore, hlast⟩ := List.append_inj' heq rfl
          rw [List.concat_eq_append] at hx
          rcases List.mem_append.1 hx with hx | hx
          · exact h front a back hbefore ha x hx
          · rw [← hlast, List.mem_singleton] at hx
            rw [hx, hz]
      · rintro h front a back rfl ha x hx
        exact h front a (back ++ [z]) (by simp) ha x (List.mem_append_left _ hx)
    | false =>
      simp only [List.filter_cons, List.filter_nil, hz, Bool.false_eq_true, if_false,
        List.length_nil, Nat.add_zero]
      constructor
      · intro h front a back heq ha
        have hmem : a ∈ before ++ [z] := by simp [heq]
        rcases List.mem_append.1 hmem with hmem | hmem
        · have hnil := List.filter_eq_nil_iff.1 (List.length_eq_zero_iff.1 h.symm) a hmem
          exact absurd ha hnil
        · rw [List.mem_singleton.1 hmem, hz] at ha
          cases ha
      · intro h
        symm
        rw [List.length_eq_zero_iff, List.filter_eq_nil_iff]
        intro a hmem ha
        obtain ⟨front, back, rfl⟩ := List.append_of_mem hmem
        have hlast := h front a (back ++ [z]) (by simp) ha z (by simp)
        rw [hz] at hlast
        cases hlast

end
end GroupedTraversal
