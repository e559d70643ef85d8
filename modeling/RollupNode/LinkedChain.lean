import Mathlib.Data.List.Basic

set_option autoImplicit false

/-! Chains of blocks that are linked by the hash of their parent. A block is at its number. -/
namespace LinkedChain

class ChainBlock (β : Type) (κ : outParam Type) where
  number : β → ℕ
  hash : β → κ
  parentHash : β → κ

open ChainBlock

structure Chain (β : Type) {κ : Type} [ChainBlock β κ] where
  blocks : List β
  numbered : ∀ (i : ℕ) (b : β), blocks[i]? = some b → number b = i
  linked : ∀ (i : ℕ) (a b : β), blocks[i]? = some a → blocks[i + 1]? = some b →
    parentHash b = hash a

section
variable {β κ : Type} [ChainBlock β κ]

instance : Membership β (Chain β) := ⟨fun c b => b ∈ c.blocks⟩

instance [DecidableEq β] (c : Chain β) (b : β) : Decidable (b ∈ c) :=
  inferInstanceAs (Decidable (b ∈ c.blocks))

def Chain.empty : Chain β where
  blocks := []
  numbered := by simp
  linked := by simp

def Chain.ofBlocks (blocks : List β) (hnumber : ∀ p ∈ blocks.zipIdx, number p.1 = p.2)
    (hlink : ∀ p ∈ blocks.zip blocks.tail, parentHash p.2 = hash p.1) : Chain β where
  blocks := blocks
  numbered := by
    intro i b h
    exact hnumber (b, i) (List.mem_zipIdx_iff_getElem?.2 h)
  linked := by
    intro i a b ha hb
    refine hlink (a, b) (List.mem_of_getElem? (List.getElem?_zip_eq_some.2 ⟨ha, ?_⟩))
    rw [List.getElem?_tail]
    exact hb

variable {b : β} {new old s : List β}

theorem getElem?_of_take {n : ℕ} {l : List β} {i : ℕ} (h : (l.take n)[i]? = some b) :
    i < n ∧ l[i]? = some b := by
  rw [List.getElem?_take] at h
  split at h
  · rename_i hi
    exact ⟨hi, h⟩
  · cases h

def Chain.take (c : Chain β) (n : ℕ) : Chain β where
  blocks := c.blocks.take n
  numbered := by
    intro i b h
    exact c.numbered i b (getElem?_of_take h).2
  linked := by
    intro i a b ha hb
    exact c.linked i a b (getElem?_of_take ha).2 (getElem?_of_take hb).2

def Chain.push (c : Chain β) (b : β) (hnumber : number b = c.blocks.length)
    (hparent : ∀ tip, c.blocks.getLast? = some tip → parentHash b = hash tip) : Chain β where
  blocks := c.blocks ++ [b]
  numbered := by
    intro i x h
    rcases Nat.lt_trichotomy i c.blocks.length with hi | rfl | hi
    · rw [List.getElem?_append_left hi] at h
      exact c.numbered i x h
    · rw [List.getElem?_concat_length] at h
      cases h
      exact hnumber
    · rw [List.getElem?_append_right (Nat.le_of_lt hi)] at h
      have hlt := (List.getElem?_eq_some_iff.1 h).1
      rw [List.length_singleton] at hlt
      omega
  linked := by
    intro i x y hx hy
    have hlen := (List.getElem?_eq_some_iff.1 hy).1
    rw [List.length_append, List.length_singleton] at hlen
    rw [List.getElem?_append_left (by omega)] at hx
    by_cases hi : i + 1 = c.blocks.length
    · rw [hi, List.getElem?_concat_length] at hy
      cases hy
      refine hparent x ?_
      rw [List.getLast?_eq_getElem?, ← hi]
      exact hx
    · rw [List.getElem?_append_left (by omega)] at hy
      exact c.linked i x y hx hy

def CollisionFree (c d : Chain β) : Prop := ∀ a ∈ c, ∀ b ∈ d, hash a = hash b → a = b

def AgreesTo (c d : Chain β) (n : ℕ) : Prop := ∀ i, i ≤ n → c.blocks[i]? = d.blocks[i]?

namespace Chain

theorem mem_iff (c : Chain β) (b : β) : b ∈ c ↔ c.blocks[number b]? = some b := by
  constructor
  · intro h
    obtain ⟨i, hi⟩ := List.mem_iff_getElem?.1 h
    rw [c.numbered i b hi]
    exact hi
  · intro h
    exact List.mem_of_getElem? h

theorem mem_of_getElem? (c : Chain β) {i : ℕ} (h : c.blocks[i]? = some b) : b ∈ c :=
  List.mem_of_getElem? h

theorem number_lt (c : Chain β) (h : b ∈ c) : number b < c.blocks.length := by
  have hget := (c.mem_iff b).1 h
  exact (List.getElem?_eq_some_iff.1 hget).1

theorem eq_of_number (c : Chain β) {a : β} (ha : a ∈ c) (hb : b ∈ c) (h : number a = number b) :
    a = b := by
  have hget := (c.mem_iff a).1 ha
  rw [h, (c.mem_iff b).1 hb] at hget
  exact (Option.some.inj hget).symm

theorem exists_at (c : Chain β) {i : ℕ} (h : i < c.blocks.length) :
    ∃ b ∈ c, c.blocks[i]? = some b ∧ number b = i := by
  have hget : c.blocks[i]? = some c.blocks[i] := List.getElem?_eq_getElem h
  exact ⟨_, c.mem_of_getElem? hget, hget, c.numbered i _ hget⟩

theorem number_getLast (c : Chain β) (h : c.blocks.getLast? = some b) :
    number b + 1 = c.blocks.length := by
  rw [List.getLast?_eq_getElem?] at h
  have hnumber := c.numbered _ b h
  have hpos : 0 < c.blocks.length := by
    have hlt := (List.getElem?_eq_some_iff.1 h).1
    omega
  omega

theorem filter_range (c : Chain β) (first last : ℕ) :
    c.blocks.filter (fun b => first ≤ number b ∧ number b ≤ last) =
      (c.blocks.take (last + 1)).drop first := by
  have hnumber : ∀ (k i : ℕ) (b : β), (c.blocks.drop k)[i]? = some b → number b = k + i := by
    intro k i b hb
    rw [List.getElem?_drop] at hb
    exact c.numbered (k + i) b hb
  have hlow : (c.blocks.take first).filter (fun b => first ≤ number b ∧ number b ≤ last) = [] := by
    rw [List.filter_eq_nil_iff]
    intro b hb
    obtain ⟨i, hi⟩ := List.mem_iff_getElem?.1 hb
    obtain ⟨hlt, hi⟩ := getElem?_of_take hi
    have hb' := c.numbered i b hi
    simp only [decide_eq_true_eq]
    omega
  have hmid : ((c.blocks.drop first).take (last + 1 - first)).filter
      (fun b => first ≤ number b ∧ number b ≤ last) =
        (c.blocks.drop first).take (last + 1 - first) := by
    rw [List.filter_eq_self]
    intro b hb
    obtain ⟨i, hi⟩ := List.mem_iff_getElem?.1 hb
    obtain ⟨hlt, hi⟩ := getElem?_of_take hi
    have hb' := hnumber first i b hi
    simp only [decide_eq_true_eq]
    omega
  have hhigh : ((c.blocks.drop first).drop (last + 1 - first)).filter
      (fun b => first ≤ number b ∧ number b ≤ last) = [] := by
    rw [List.filter_eq_nil_iff]
    intro b hb
    obtain ⟨i, hi⟩ := List.mem_iff_getElem?.1 hb
    rw [List.drop_drop] at hi
    have hb' := hnumber _ i b hi
    simp only [decide_eq_true_eq]
    omega
  calc c.blocks.filter (fun b => first ≤ number b ∧ number b ≤ last)
      = (c.blocks.take first ++ ((c.blocks.drop first).take (last + 1 - first) ++
          (c.blocks.drop first).drop (last + 1 - first))).filter
            (fun b => first ≤ number b ∧ number b ≤ last) := by
        rw [List.take_append_drop, List.take_append_drop]
    _ = (c.blocks.drop first).take (last + 1 - first) := by
        rw [List.filter_append, List.filter_append, hlow, hmid, hhigh, List.nil_append,
          List.append_nil]
    _ = (c.blocks.take (last + 1)).drop first := (List.drop_take ..).symm

end Chain

variable {c d : Chain β}

theorem AgreesTo.mem {n : ℕ} (h : AgreesTo c d n) (hb : b ∈ c) (hn : number b ≤ n) :
    b ∈ d := by
  rw [d.mem_iff, ← h _ hn]
  exact (c.mem_iff b).1 hb

theorem AgreesTo.mono {n m : ℕ} (h : AgreesTo c d n) (hm : m ≤ n) :
    AgreesTo c d m := by
  intro i hi
  exact h i (by omega)

theorem AgreesTo.symm {n : ℕ} (h : AgreesTo c d n) : AgreesTo d c n := by
  intro i hi
  exact (h i hi).symm

theorem agreesTo_of_mem (hcf : CollisionFree c d) (hc : b ∈ c) (hd : b ∈ d) :
    AgreesTo c d (number b) := by
  have hdown : ∀ k i, i + k = number b → c.blocks[i]? = d.blocks[i]? := by
    intro k
    induction k with
    | zero =>
      intro i hi
      have hi' : i = number b := by omega
      rw [hi', (c.mem_iff b).1 hc, (d.mem_iff b).1 hd]
    | succ k ih =>
      intro i hi
      have habove := ih (i + 1) (by omega)
      have hclen := c.number_lt hc
      have hdlen := d.number_lt hd
      obtain ⟨x, -, hx, -⟩ := c.exists_at (i := i + 1) (by omega)
      obtain ⟨a, ha, hca, -⟩ := c.exists_at (i := i) (by omega)
      obtain ⟨a', ha', hda, -⟩ := d.exists_at (i := i) (by omega)
      have hparent := c.linked i a x hca hx
      have hparent' := d.linked i a' x hda (habove ▸ hx)
      have heq := hcf a ha a' ha' (hparent.symm.trans hparent')
      rw [hca, hda, heq]
  intro i hi
  exact hdown (number b - i) i (by omega)

theorem AgreesTo.take_eq {n : ℕ} (h : AgreesTo c d n) :
    c.blocks.take (n + 1) = d.blocks.take (n + 1) := by
  refine List.ext_getElem? ?_
  intro i
  rw [List.getElem?_take, List.getElem?_take]
  by_cases hi : i < n + 1
  · rw [if_pos hi, if_pos hi, h i (by omega)]
  · rw [if_neg hi, if_neg hi]

theorem subset_of_tip (hcf : CollisionFree c d) {t : β} (ht : c.blocks.getLast? = some t)
    (hd : t ∈ d) : AgreesTo c d (number t) ∧ ∀ b ∈ c, b ∈ d := by
  have hagree := agreesTo_of_mem hcf (List.mem_of_getLast? ht) hd
  refine ⟨hagree, ?_⟩
  intro b hb
  have hlen := c.number_getLast ht
  have hlt := c.number_lt hb
  exact hagree.mem hb (by omega)

theorem AgreesTo.blocks_eq_take {n : ℕ} (h : AgreesTo c d n) (hlen : n + 1 = c.blocks.length) :
    c.blocks = d.blocks.take (n + 1) := by
  rw [← h.take_eq, hlen, List.take_length]

theorem getElem?_suffix (h : s <:+ c.blocks) :
    ∃ first, s = c.blocks.drop first ∧ first + s.length = c.blocks.length ∧
      ∀ i b, s[i]? = some b → number b = first + i := by
  obtain ⟨t, ht⟩ := h
  refine ⟨t.length, ?_, ?_, ?_⟩
  · rw [← ht, List.drop_left]
  · rw [← ht, List.length_append]
  · intro i b hb
    refine c.numbered _ b ?_
    rw [← ht, List.getElem?_append_right (by omega), Nat.add_sub_cancel_left]
    exact hb

theorem filter_above_suffix (h : s <:+ c.blocks) {p : ℕ} (hp : s[p]? = some b) :
    s.filter (fun x => number b < number x) = s.drop (p + 1) := by
  obtain ⟨first, -, -, hnumber⟩ := getElem?_suffix h
  have hb := hnumber p b hp
  have hlow : (s.take (p + 1)).filter (fun x => number b < number x) = [] := by
    rw [List.filter_eq_nil_iff]
    intro x hx
    obtain ⟨i, hi⟩ := List.mem_iff_getElem?.1 hx
    obtain ⟨hlt, hi⟩ := getElem?_of_take hi
    have hnumberx := hnumber i x hi
    simp only [decide_eq_true_eq]
    omega
  have hhigh : (s.drop (p + 1)).filter (fun x => number b < number x) = s.drop (p + 1) := by
    rw [List.filter_eq_self]
    intro x hx
    obtain ⟨i, hi⟩ := List.mem_iff_getElem?.1 hx
    rw [List.getElem?_drop] at hi
    have hnumberx := hnumber _ x hi
    simp only [decide_eq_true_eq]
    omega
  calc s.filter (fun x => number b < number x)
      = (s.take (p + 1) ++ s.drop (p + 1)).filter (fun x => number b < number x) := by
        rw [List.take_append_drop]
    _ = s.drop (p + 1) := by rw [List.filter_append, hlow, hhigh, List.nil_append]

theorem getLast?_suffix {l : List β} (h : s <:+ l) (hne : s ≠ []) : s.getLast? = l.getLast? := by
  obtain ⟨t, rfl⟩ := h
  rw [List.getLast?_append_of_ne_nil t hne]

def Linked (blocks : List β) : Prop :=
  ∀ (i : ℕ) (a b : β), blocks[i]? = some a → blocks[i + 1]? = some b →
    parentHash b = hash a ∧ number b = number a + 1

def Named (blocks : List β) (d : Chain β) : Prop := ∀ a ∈ blocks, ∀ b ∈ d, hash a = hash b → a = b

instance [DecidableEq β] [DecidableEq κ] (blocks : List β) (d : Chain β) :
    Decidable (Named blocks d) :=
  inferInstanceAs (Decidable (∀ a ∈ blocks, ∀ b ∈ d.blocks, hash a = hash b → a = b))

namespace Linked
variable {blocks : List β} {d : Chain β}

theorem number_eq {first : β} (h : Linked blocks) (hfirst : blocks.head? = some first) :
    ∀ (i : ℕ) (b : β), blocks[i]? = some b → number b = number first + i := by
  intro i
  induction i with
  | zero =>
    intro b hb
    rw [← List.head?_eq_getElem?, hfirst] at hb
    cases hb
    rfl
  | succ i ih =>
    intro b hb
    have hlt := (List.getElem?_eq_some_iff.1 hb).1
    have ha : blocks[i]? = some blocks[i] := List.getElem?_eq_getElem (by omega)
    have hnumber := (h i _ b ha hb).2
    have hbelow := ih _ ha
    omega

theorem mem_of_le (h : Linked blocks) (hnamed : Named blocks d) {p : ℕ} (hp : blocks[p]? = some b)
    (hb : b ∈ d) : ∀ (i : ℕ) (a : β), i ≤ p → blocks[i]? = some a → a ∈ d := by
  have hdown : ∀ (k i : ℕ) (a : β), i + k = p → blocks[i]? = some a → a ∈ d := by
    intro k
    induction k with
    | zero =>
      intro i a hi ha
      rw [show i = p by omega, hp] at ha
      cases ha
      exact hb
    | succ k ih =>
      intro i a hi ha
      have hlt := (List.getElem?_eq_some_iff.1 hp).1
      have hx : blocks[i + 1]? = some blocks[i + 1] := List.getElem?_eq_getElem (by omega)
      have hmem := ih (i + 1) _ (by omega) hx
      obtain ⟨hparent, hnumber⟩ := h i a _ ha hx
      have hxlt := d.number_lt hmem
      obtain ⟨y, hy, hget, -⟩ := d.exists_at (i := number a) (by omega)
      have hlink := d.linked (number a) y _ hget (by
        rw [← hnumber]
        exact (d.mem_iff _).1 hmem)
      rw [hnamed a (List.mem_of_getElem? ha) y hy (hparent.symm.trans hlink)]
      exact hy
  intro i a hi ha
  exact hdown (p - i) i a (by omega) ha

theorem take_append_drop {first : β} (h : Linked blocks) (hnamed : Named blocks d)
    (hfirst : blocks.head? = some first) {p j : ℕ} (hp : blocks[p]? = some b)
    (hj : d.blocks[j]? = some b) :
    blocks.take p ++ d.blocks.drop j = d.blocks.drop (number first) := by
  have hbnumber := h.number_eq hfirst p b hp
  have hbj := d.numbered j b hj
  have hplt := (List.getElem?_eq_some_iff.1 hp).1
  have hlen : (blocks.take p).length = p := by
    rw [List.length_take]
    omega
  apply List.ext_getElem?
  intro i
  rw [List.getElem?_drop]
  by_cases hi : i < p
  · have ha : blocks[i]? = some blocks[i] := List.getElem?_eq_getElem (by omega)
    have hmem := h.mem_of_le hnamed hp (d.mem_of_getElem? hj) i _ (by omega) ha
    rw [List.getElem?_append_left (by omega), List.getElem?_take, if_pos hi, ha,
      ← h.number_eq hfirst i _ ha]
    exact ((d.mem_iff _).1 hmem).symm
  · rw [List.getElem?_append_right (by omega), List.getElem?_drop, hlen]
    congr 1
    omega

theorem append_drop {first : β} (h : Linked blocks) (hnamed : Named blocks d)
    (hfirst : blocks.head? = some first) {j : ℕ} (hlast : blocks.getLast? = some b)
    (hj : d.blocks[j]? = some b) :
    blocks ++ d.blocks.drop (j + 1) = d.blocks.drop (number first) := by
  rw [List.getLast?_eq_getElem?] at hlast
  have hlt := (List.getElem?_eq_some_iff.1 hlast).1
  have hjlt := (List.getElem?_eq_some_iff.1 hj).1
  have hwhole : blocks = blocks.take (blocks.length - 1) ++ [b] := by
    rw [← (List.getElem?_eq_some_iff.1 hlast).2, List.take_append_getElem hlt,
      Nat.sub_add_cancel (by omega), List.take_length]
  have hcons : d.blocks.drop j = b :: d.blocks.drop (j + 1) := by
    rw [List.drop_eq_getElem_cons hjlt, (List.getElem?_eq_some_iff.1 hj).2]
  rw [← h.take_append_drop hnamed hfirst hlast hj, hcons]
  nth_rewrite 1 [hwhole]
  rw [List.append_assoc]
  rfl

end Linked

theorem linked_of_suffix (h : s <:+ c.blocks) : Linked s := by
  obtain ⟨first, rfl, -, -⟩ := getElem?_suffix h
  intro i a b ha hb
  rw [List.getElem?_drop] at ha hb
  have hna := c.numbered _ a ha
  have hnb := c.numbered _ b hb
  exact ⟨c.linked _ a b ha hb, by omega⟩

theorem take_append_drop_suffix (hcf : CollisionFree c d) (hs : s <:+ c.blocks) {p j : ℕ}
    (hp : s[p]? = some b) (hj : d.blocks[j]? = some b) :
    s.take p ++ d.blocks.drop j <:+ d.blocks := by
  obtain ⟨first, hfirst⟩ : ∃ first, s.head? = some first :=
    ⟨_, List.head?_eq_some_head (List.ne_nil_of_mem (List.mem_of_getElem? hp))⟩
  have hnamed : Named s d := fun a ha b hb => hcf a (hs.subset ha) b hb
  rw [(linked_of_suffix hs).take_append_drop hnamed hfirst hp hj]
  exact List.drop_suffix _ _

def Chain.below (c : Chain β) (k count : ℕ) : List β := ((c.blocks.take k).reverse).take count

section below
variable (c : Chain β) {k count : ℕ}

theorem below_succ (hb : c.blocks[k]? = some b) :
    c.below (k + 1) (count + 1) = b :: c.below k count := by
  have hlt := (List.getElem?_eq_some_iff.1 hb).1
  have helem := (List.getElem?_eq_some_iff.1 hb).2
  unfold Chain.below
  rw [List.take_succ_eq_append_getElem hlt, helem, List.reverse_append]
  rfl

theorem take_below (i : ℕ) (hi : i ≤ count) : (c.below k count).take i = c.below k i := by
  unfold Chain.below
  rw [List.take_take, Nat.min_eq_left hi]

theorem reverse_below_append (hcount : count ≤ k) (hk : k ≤ c.blocks.length) :
    (c.below k count).reverse ++ c.blocks.drop k = c.blocks.drop (k - count) := by
  have hlen : (c.blocks.take k).length = k := by
    rw [List.length_take]
    omega
  have hwhole := congrArg (List.drop (k - count)) (List.take_append_drop k c.blocks)
  rw [List.drop_append_of_le_length (by omega)] at hwhole
  unfold Chain.below
  rw [List.take_reverse, List.reverse_reverse, hlen]
  exact hwhole

theorem mem_below (hk : k ≤ c.blocks.length) :
    b ∈ c.below k count ↔ b ∈ c ∧ number b < k ∧ k ≤ number b + count := by
  induction count generalizing k with
  | zero =>
    refine iff_of_false (by simp [Chain.below]) ?_
    omega
  | succ count ih =>
    cases k with
    | zero =>
      refine iff_of_false (by simp [Chain.below]) ?_
      omega
    | succ k =>
      obtain ⟨a, ha, hget, hnumber⟩ := c.exists_at hk
      rw [below_succ c hget, List.mem_cons, ih (by omega)]
      constructor
      · rintro (rfl | ⟨hb, hlt, hle⟩)
        · exact ⟨ha, by omega, by omega⟩
        · exact ⟨hb, by omega, by omega⟩
      · rintro ⟨hb, hlt, hle⟩
        by_cases hat : number b = k
        · exact Or.inl (c.eq_of_number hb ha (hat.trans hnumber.symm))
        · exact Or.inr ⟨hb, by omega, by omega⟩

end below

structure LinkedFrom (base last : β) (blocks : List β) : Prop where
  first : ∀ b ∈ blocks.head?, parentHash b = hash base ∧ number b = number base + 1
  step : ∀ (i : ℕ) (a b : β), blocks[i]? = some a → blocks[i + 1]? = some b →
    parentHash b = hash a ∧ number b = number a + 1
  last : blocks.getLast? = some last

theorem linkedFrom_drop (c : Chain β) {base last : β} (hbase : base ∈ c)
    (hlast : c.blocks.getLast? = some last) (hlt : number base < number last) :
    LinkedFrom base last (c.blocks.drop (number base + 1)) := by
  have hget := (c.mem_iff base).1 hbase
  have hlen := c.number_getLast hlast
  refine ⟨?_, ?_, ?_⟩
  · intro b hb
    rw [List.head?_drop] at hb
    exact ⟨c.linked _ base b hget hb, c.numbered _ b hb⟩
  · exact linked_of_suffix (List.drop_suffix _ _)
  · rw [getLast?_suffix (List.drop_suffix _ _)]
    · exact hlast
    · intro hnil
      have hle := List.drop_eq_nil_iff.1 hnil
      omega

def divergence [DecidableEq κ] (old new : List β) : Option (β × β) :=
  (old.zip new).find? (fun p => hash p.1 ≠ hash p.2)

theorem divergence_eq_some [DecidableEq κ] {o x : β} (h : divergence old new = some (o, x)) :
    ∃ i, old[i]? = some o ∧ new[i]? = some x ∧
      hash o ≠ hash x ∧ ∀ (j : ℕ) (a b : β), j < i → old[j]? = some a → new[j]? = some b →
        hash a = hash b := by
  obtain ⟨hne, i, hi, hget, hbefore⟩ := List.find?_eq_some_iff_getElem.1 h
  have hzip : (old.zip new)[i]? = some (o, x) := by rw [List.getElem?_eq_getElem hi, hget]
  obtain ⟨ho, hx⟩ := List.getElem?_zip_eq_some.1 hzip
  refine ⟨i, ho, hx, of_decide_eq_true hne, ?_⟩
  intro j a b hj ha hb
  have hjzip : (old.zip new)[j]? = some (a, b) := List.getElem?_zip_eq_some.2 ⟨ha, hb⟩
  have hsame := hbefore j hj
  rw [(List.getElem?_eq_some_iff.1 hjzip).2] at hsame
  simpa using hsame

theorem divergence_eq_none [DecidableEq κ] (h : divergence old new = none) :
    ∀ (i : ℕ) (a b : β), old[i]? = some a → new[i]? = some b → hash a = hash b := by
  intro i a b ha hb
  have hmem : (a, b) ∈ old.zip new :=
    List.mem_of_getElem? (List.getElem?_zip_eq_some.2 ⟨ha, hb⟩)
  have hsame := List.find?_eq_none.1 h (a, b) hmem
  simpa using hsame

theorem divergence_of_same_beginning [DecidableEq κ] (h : old <+: new) :
    divergence old new = none := by
  obtain ⟨rest, rfl⟩ := h
  unfold divergence
  induction old with
  | nil => rfl
  | cons b old ih => simpa [List.find?_cons] using ih

theorem divergence_cons [DecidableEq κ] {a : β} (old new : List β) (h : hash a ≠ hash b) :
    divergence (a :: old) (b :: new) = some (a, b) := by
  simp [divergence, h]

def Rooted (d : Chain β) (b : β) : Prop :=
  b ∈ d ∨ ∃ p ∈ d, number p + 1 = number b ∧ hash p = parentHash b

theorem agreesTo_of_rooted (hcf : CollisionFree c d) (hb : b ∈ c) (h : Rooted d b) :
    AgreesTo c d (number b - 1) := by
  rcases h with hd | ⟨p, hp, hnumber, hhash⟩
  · exact (agreesTo_of_mem hcf hb hd).mono (by omega)
  · have hlt := c.number_lt hb
    obtain ⟨a, ha, hget, hanumber⟩ := c.exists_at (i := number p) (by omega)
    have hlink := c.linked (number p) a b hget (by rw [hnumber]; exact (c.mem_iff b).1 hb)
    have heq := hcf a ha p hp (hlink.symm.trans hhash.symm)
    subst heq
    exact (agreesTo_of_mem hcf ha hp).mono (by omega)

theorem agreesTo_of_divergence [DecidableEq κ] (hcf : CollisionFree c d) (hold : old <:+ c.blocks)
    (hnew : new <:+ d.blocks) (hroot : ∀ b ∈ old.head?, Rooted d b) {o x : β}
    (h : divergence old new = some (o, x)) : AgreesTo c d (number o - 1) := by
  obtain ⟨i, ho, hx, -, hbefore⟩ := divergence_eq_some h
  obtain ⟨first, -, -, hnumber⟩ := getElem?_suffix hold
  have hmem : o ∈ c := hold.subset (List.mem_of_getElem? ho)
  cases i with
  | zero =>
    have hhead : o ∈ old.head? := by
      rw [List.head?_eq_getElem?]
      exact ho
    exact agreesTo_of_rooted hcf hmem (hroot o hhead)
  | succ i =>
    -- the blocks one below are the same block
    have hilt := (List.getElem?_eq_some_iff.1 ho).1
    have hilt' := (List.getElem?_eq_some_iff.1 hx).1
    have ha : old[i]? = some old[i] := List.getElem?_eq_getElem (by omega)
    have hb : new[i]? = some new[i] := List.getElem?_eq_getElem (by omega)
    have hac : old[i] ∈ c := hold.subset (List.mem_of_getElem? ha)
    have hbd : new[i] ∈ d := hnew.subset (List.mem_of_getElem? hb)
    have heq := hcf _ hac _ hbd (hbefore i _ _ (by omega) ha hb)
    have hagree := agreesTo_of_mem hcf hac (heq ▸ hbd)
    have h1 := hnumber (i + 1) o ho
    have h2 := hnumber i _ ha
    exact hagree.mono (by omega)

theorem tip_of_no_divergence [DecidableEq κ] (hcf : CollisionFree c d) (hold : old <:+ c.blocks)
    (hnew : new <:+ d.blocks) (h : divergence old new = none) {t z : β} (ht : old.getLast? = some t)
    (hz : new.getLast? = some z) : t ∈ d ∨ z ∈ old.dropLast := by
  rw [List.getLast?_eq_getElem?] at ht hz
  have htlen := (List.getElem?_eq_some_iff.1 ht).1
  have hzlen := (List.getElem?_eq_some_iff.1 hz).1
  by_cases hle : old.length ≤ new.length
  · left
    have hget : new[old.length - 1]? = some new[old.length - 1] :=
      List.getElem?_eq_getElem (by omega)
    have hmem : new[old.length - 1] ∈ d := hnew.subset (List.mem_of_getElem? hget)
    have heq := hcf t (hold.subset (List.mem_of_getElem? ht)) _ hmem
      (divergence_eq_none h _ _ _ ht hget)
    rw [heq]
    exact hmem
  · right
    have hget : old[new.length - 1]? = some old[new.length - 1] :=
      List.getElem?_eq_getElem (by omega)
    have heq := hcf _ (hold.subset (List.mem_of_getElem? hget)) z
      (hnew.subset (List.mem_of_getElem? hz)) (divergence_eq_none h _ _ _ hget hz)
    refine List.mem_iff_getElem?.2 ⟨new.length - 1, ?_⟩
    rw [List.getElem?_dropLast, if_pos (by omega), hget, heq]

end
end LinkedChain
