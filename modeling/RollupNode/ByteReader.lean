import RollupNode.ExceptTraversal
import Mathlib.Data.Nat.Notation
import Mathlib.Data.List.Basic
import Mathlib.Tactic.Ring

set_option autoImplicit false

/-! Reading from a buffer of bytes: each reader takes a beginning of what is left, or stops. -/
namespace ByteReader

def beValue (bytes : List UInt8) : ℕ :=
  bytes.foldl (fun value byte => 256 * value + byte.toNat) 0

def beBytes (count value : ℕ) : List UInt8 :=
  (List.range count).reverse.map (fun place => UInt8.ofNat (value / 256 ^ place))

theorem foldl_beValue (bytes : List UInt8) (value : ℕ) :
    bytes.foldl (fun value byte => 256 * value + byte.toNat) value =
      value * 256 ^ bytes.length + beValue bytes := by
  induction bytes generalizing value with
  | nil => simp [beValue]
  | cons byte bytes ih =>
    rw [beValue, List.foldl_cons, List.foldl_cons, ih, ih, List.length_cons, Nat.pow_succ]
    ring

theorem beValue_cons (byte : UInt8) (bytes : List UInt8) :
    beValue (byte :: bytes) = byte.toNat * 256 ^ bytes.length + beValue bytes := by
  rw [beValue, List.foldl_cons, foldl_beValue]
  simp

theorem beBytes_succ (count value : ℕ) :
    beBytes (count + 1) value = UInt8.ofNat (value / 256 ^ count) :: beBytes count value := by
  simp [beBytes, List.range_succ]

theorem length_beBytes (count value : ℕ) : (beBytes count value).length = count := by
  simp [beBytes]

theorem beValue_beBytes (count value : ℕ) : beValue (beBytes count value) = value % 256 ^ count := by
  induction count with
  | zero => simp [beBytes, beValue, Nat.mod_one]
  | succ count ih =>
    have hsplit : value % 256 ^ (count + 1) =
        value % 256 ^ count + 256 ^ count * (value / 256 ^ count % 256) := by
      rw [Nat.pow_succ, Nat.mod_mul]
    have hbyte : (UInt8.ofNat (value / 256 ^ count)).toNat = value / 256 ^ count % 256 :=
      UInt8.toNat_ofNat'
    rw [beBytes_succ, beValue_cons, ih, length_beBytes, hbyte, hsplit]
    ring

theorem beValue_beBytes_of_lt {count value : ℕ} (h : value < 256 ^ count) :
    beValue (beBytes count value) = value := by
  rw [beValue_beBytes, Nat.mod_eq_of_lt h]

theorem beValue_lt (bytes : List UInt8) : beValue bytes < 256 ^ bytes.length := by
  induction bytes with
  | nil => simp [beValue]
  | cons byte bytes ih =>
    have hbyte : byte.toNat < 256 := byte.toNat_lt
    rw [beValue_cons, List.length_cons, Nat.pow_succ]
    calc byte.toNat * 256 ^ bytes.length + beValue bytes
        < byte.toNat * 256 ^ bytes.length + 256 ^ bytes.length := Nat.add_lt_add_left ih _
      _ = 256 ^ bytes.length * (byte.toNat + 1) := by ring
      _ ≤ 256 ^ bytes.length * 256 := Nat.mul_le_mul_left _ hbyte

theorem beValue_inj {bytes bytes' : List UInt8} (hlength : bytes.length = bytes'.length)
    (hvalue : beValue bytes = beValue bytes') : bytes = bytes' := by
  induction bytes generalizing bytes' with
  | nil => exact (List.length_eq_zero_iff.1 hlength.symm).symm
  | cons byte bytes ih =>
    cases bytes' with
    | nil => cases hlength
    | cons byte' bytes' =>
      have hlength : bytes.length = bytes'.length := Nat.succ.inj hlength
      have hlow := beValue_lt bytes
      have hlow' := beValue_lt bytes'
      rw [beValue_cons, beValue_cons, hlength] at hvalue
      rw [hlength] at hlow
      have hpos : 0 < 256 ^ bytes'.length := Nat.pow_pos (by decide)
      have hhigh : byte.toNat = byte'.toNat := by
        have hdiv := congrArg (· / 256 ^ bytes'.length) hvalue
        simp only [Nat.mul_comm _ (256 ^ bytes'.length), Nat.mul_add_div hpos,
          Nat.div_eq_of_lt hlow, Nat.div_eq_of_lt hlow', Nat.add_zero] at hdiv
        exact hdiv
      rw [hhigh] at hvalue
      rw [UInt8.toNat_inj.1 hhigh, ih hlength (by omega)]

theorem beBytes_beValue (bytes : List UInt8) : beBytes bytes.length (beValue bytes) = bytes :=
  beValue_inj (length_beBytes _ _) (beValue_beBytes_of_lt (beValue_lt bytes))

abbrev Reader (ε : Type) := StateT (List UInt8) (Except ε)

section
variable {ε α β : Type}

def takeBytes (short : ε) (count : ℕ) : Reader ε (List UInt8) := fun buf =>
  if buf.length < count then .error short else .ok (buf.take count, buf.drop count)

def takeNat (short : ε) (count : ℕ) : Reader ε ℕ := do
  return beValue (← takeBytes short count)

def times (reader : Reader ε α) : ℕ → Reader ε (List α)
  | 0 => return []
  | n + 1 => do
    let first ← reader
    let rest ← times reader n
    return first :: rest

variable {buf rest : List UInt8} {e : ε} {xs : List α}

theorem bind_eq_ok {reader : Reader ε α} {next : α → Reader ε β} {b : β} :
    (reader >>= next) buf = .ok (b, rest) ↔
      ∃ a mid, reader buf = .ok (a, mid) ∧ next a mid = .ok (b, rest) := by
  change (reader buf >>= fun p => next p.1 p.2) = .ok (b, rest) ↔ _
  cases hread : reader buf with
  | error e => simp [bind, Except.bind]
  | ok p =>
    obtain ⟨a, mid⟩ := p
    simp [bind, Except.bind]

theorem bind_eq_error {reader : Reader ε α} {next : α → Reader ε β} :
    (reader >>= next) buf = .error e ↔
      reader buf = .error e ∨ ∃ a mid, reader buf = .ok (a, mid) ∧ next a mid = .error e := by
  change (reader buf >>= fun p => next p.1 p.2) = .error e ↔ _
  cases hread : reader buf with
  | error e => simp [bind, Except.bind]
  | ok p =>
    obtain ⟨a, mid⟩ := p
    simp [bind, Except.bind]

theorem lift_eq_error {x : Except ε α} : (liftM x : Reader ε α) buf = .error e ↔ x = .error e := by
  change (x >>= fun a => .ok (a, buf)) = .error e ↔ _
  cases x with
  | error e => simp [bind, Except.bind]
  | ok b => simp [bind, Except.bind]

theorem lift_eq_ok {x : Except ε α} {a : α} :
    (liftM x : Reader ε α) buf = .ok (a, rest) ↔ x = .ok a ∧ rest = buf := by
  change (x >>= fun a => .ok (a, buf)) = .ok (a, rest) ↔ _
  cases x with
  | error e => simp [bind, Except.bind]
  | ok b => simp [bind, Except.bind, eq_comm]

theorem times_spec {reader : Reader ε α} {P : α → Prop}
    (hreader : ∀ buf a rest, reader buf = .ok (a, rest) → P a) {count : ℕ}
    (h : times reader count buf = .ok (xs, rest)) : xs.length = count ∧ ∀ x ∈ xs, P x := by
  induction count generalizing buf xs with
  | zero =>
    cases h
    exact ⟨rfl, List.forall_mem_nil _⟩
  | succ count ih =>
    obtain ⟨first, mid, hfirst, h⟩ := bind_eq_ok.1 h
    obtain ⟨others, last, hothers, h⟩ := bind_eq_ok.1 h
    cases h
    obtain ⟨hlength, hall⟩ := ih hothers
    exact ⟨congrArg Nat.succ hlength, List.forall_mem_cons.2 ⟨hreader _ _ _ hfirst, hall⟩⟩

theorem times_eq_error {reader : Reader ε α} {count : ℕ} :
    times reader count buf = .error e ↔ ∃ done < count, ∃ xs rest,
      times reader done buf = .ok (xs, rest) ∧ reader rest = .error e := by
  induction count generalizing buf with
  | zero =>
    constructor
    · intro h
      cases h
    · rintro ⟨done, hdone, -⟩
      exact absurd hdone (Nat.not_lt_zero done)
  | succ count ih =>
    constructor
    · intro h
      rcases bind_eq_error.1 h with hfirst | ⟨first, mid, hfirst, h⟩
      · exact ⟨0, Nat.succ_pos count, [], buf, rfl, hfirst⟩
      · rcases bind_eq_error.1 h with hothers | ⟨others, last, -, h⟩
        · obtain ⟨done, hdone, xs, rest, hread, hstop⟩ := ih.1 hothers
          have hread : times reader (done + 1) buf = .ok (first :: xs, rest) :=
            bind_eq_ok.2 ⟨first, mid, hfirst, bind_eq_ok.2 ⟨xs, rest, hread, rfl⟩⟩
          exact ⟨done + 1, Nat.succ_lt_succ hdone, first :: xs, rest, hread, hstop⟩
        · cases h
    · rintro ⟨done, hdone, xs, rest, hread, hstop⟩
      cases done with
      | zero =>
        cases hread
        exact bind_eq_error.2 (.inl hstop)
      | succ done =>
        obtain ⟨first, mid, hfirst, hread⟩ := bind_eq_ok.1 hread
        obtain ⟨others, last, hothers, hread⟩ := bind_eq_ok.1 hread
        cases hread
        have hlater := ih.2 ⟨done, Nat.lt_of_succ_lt_succ hdone, others, rest, hothers, hstop⟩
        exact bind_eq_error.2 (.inr ⟨first, mid, hfirst, bind_eq_error.2 (.inl hlater)⟩)

theorem times_add (reader : Reader ε α) (count more : ℕ) :
    times reader (count + more) = (do
      let first ← times reader count
      let later ← times reader more
      return first ++ later) := by
  induction count with
  | zero => simp [times]
  | succ count ih =>
    rw [Nat.succ_add]
    simp [times, ih]

theorem times_written {R : α → List UInt8 → Prop} {reader : Reader ε α}
    (hreader : ∀ buf a rest, reader buf = .ok (a, rest) → ∃ part, R a part ∧ buf = part ++ rest)
    {count : ℕ} (h : times reader count buf = .ok (xs, rest)) :
    ∃ parts, List.Forall₂ R xs parts ∧ buf = parts.flatten ++ rest := by
  induction count generalizing buf xs with
  | zero =>
    cases h
    exact ⟨[], .nil, rfl⟩
  | succ count ih =>
    obtain ⟨first, mid, hfirst, h⟩ := bind_eq_ok.1 h
    obtain ⟨others, last, hothers, h⟩ := bind_eq_ok.1 h
    cases h
    obtain ⟨part, hpart, rfl⟩ := hreader _ _ _ hfirst
    obtain ⟨parts, hparts, rfl⟩ := ih hothers
    exact ⟨part :: parts, .cons hpart hparts, by simp⟩

theorem times_of_written {R : α → List UInt8 → Prop} {reader : Reader ε α}
    (hreader : ∀ a part rest, R a part → reader (part ++ rest) = .ok (a, rest))
    {parts : List (List UInt8)} (h : List.Forall₂ R xs parts) (rest : List UInt8) :
    times reader xs.length (parts.flatten ++ rest) = .ok (xs, rest) := by
  induction h with
  | nil => rfl
  | cons hfirst _ ih =>
    rw [List.flatten_cons, List.append_assoc]
    exact bind_eq_ok.2 ⟨_, _, hreader _ _ _ hfirst, bind_eq_ok.2 ⟨_, _, ih, rfl⟩⟩

/-- A reader that takes back what is written for a value, and nothing else. -/
def Exact (reader : Reader ε α) (valid : α → Prop) (write : α → List UInt8) : Prop :=
  ∀ buf a rest, reader buf = .ok (a, rest) ↔ valid a ∧ buf = write a ++ rest

theorem Exact.bind_ok {reader : Reader ε α} {valid : α → Prop} {write : α → List UInt8}
    (hreader : Exact reader valid write) {next : α → Reader ε β} {b : β}
    (h : (reader >>= next) buf = .ok (b, rest)) :
    ∃ a mid, valid a ∧ buf = write a ++ mid ∧ next a mid = .ok (b, rest) := by
  obtain ⟨a, mid, hread, hnext⟩ := bind_eq_ok.1 h
  obtain ⟨hvalid, hbuf⟩ := (hreader buf a mid).1 hread
  exact ⟨a, mid, hvalid, hbuf, hnext⟩

theorem exact_takeBytes (short : ε) (count : ℕ) :
    Exact (takeBytes short count) (fun bytes => bytes.length = count) id := by
  intro buf bytes rest
  unfold takeBytes
  constructor
  · intro h
    split at h
    · cases h
    · rename_i hlong
      cases h
      exact ⟨List.length_take_of_le (Nat.le_of_not_lt hlong), (List.take_append_drop count buf).symm⟩
  · rintro ⟨rfl, rfl⟩
    rw [if_neg (by simp), id, List.take_left, List.drop_left]

theorem exact_takeNat (short : ε) (count : ℕ) :
    Exact (takeNat short count) (· < 256 ^ count) (beBytes count) := by
  intro buf n rest
  have htake := exact_takeBytes short count
  constructor
  · intro h
    obtain ⟨bytes, mid, hbytes, hvalue⟩ := bind_eq_ok.1 h
    obtain ⟨rfl, rfl⟩ := (htake _ _ _).1 hbytes
    cases hvalue
    exact ⟨beValue_lt bytes, by rw [beBytes_beValue, id]⟩
  · rintro ⟨hlt, rfl⟩
    refine bind_eq_ok.2 ⟨_, _, (htake _ _ _).2 ⟨length_beBytes count n, rfl⟩, ?_⟩
    rw [beValue_beBytes_of_lt hlt]
    rfl

/-- Values that are read back one by one are read back in a row. -/
theorem exact_times {reader : Reader ε α} {valid : α → Prop} {write : α → List UInt8}
    (hreader : Exact reader valid write) (count : ℕ) :
    Exact (times reader count) (fun xs => xs.length = count ∧ ∀ x ∈ xs, valid x)
      (fun xs => xs.flatMap write) := by
  induction count with
  | zero =>
    intro buf xs rest
    constructor
    · intro h
      cases h
      exact ⟨⟨rfl, by simp⟩, rfl⟩
    · rintro ⟨⟨hlength, -⟩, rfl⟩
      rw [List.length_eq_zero_iff.1 hlength]
      rfl
  | succ count ih =>
    intro buf xs rest
    constructor
    · intro h
      obtain ⟨first, mid, hfirst, h⟩ := bind_eq_ok.1 h
      obtain ⟨others, last, hothers, hread⟩ := bind_eq_ok.1 h
      obtain ⟨hvalid, rfl⟩ := (hreader _ _ _).1 hfirst
      obtain ⟨⟨hlength, hall⟩, rfl⟩ := (ih _ _ _).1 hothers
      cases hread
      refine ⟨⟨by rw [List.length_cons, hlength], List.forall_mem_cons.2 ⟨hvalid, hall⟩⟩, ?_⟩
      simp only [List.flatMap_cons, List.append_assoc]
    · rintro ⟨⟨hlength, hall⟩, rfl⟩
      cases xs with
      | nil => cases hlength
      | cons first others =>
        obtain ⟨hvalid, hall⟩ := List.forall_mem_cons.1 hall
        simp only [List.flatMap_cons, List.append_assoc]
        refine bind_eq_ok.2 ⟨first, _, (hreader _ _ _).2 ⟨hvalid, rfl⟩, ?_⟩
        refine bind_eq_ok.2 ⟨others, _, (ih _ _ _).2 ⟨⟨Nat.succ.inj hlength, hall⟩, rfl⟩, rfl⟩

theorem takeBytes_eq_error {short : ε} {count : ℕ} :
    takeBytes short count buf = .error e ↔ buf.length < count ∧ e = short := by
  rw [takeBytes]
  split
  · rename_i hshort
    simp [hshort, eq_comm]
  · rename_i hlong
    simp [hlong]

theorem times_takeBytes_eq_error {short : ε} {count n : ℕ} :
    times (takeBytes short count) n buf = .error e ↔ buf.length < count * n ∧ e = short := by
  induction n generalizing buf with
  | zero =>
    constructor
    · intro h
      cases h
    · rintro ⟨hshort, -⟩
      exact absurd hshort (Nat.not_lt_zero _)
  | succ n ih =>
    rw [Nat.mul_succ]
    constructor
    · intro h
      rcases bind_eq_error.1 h with hfirst | ⟨first, mid, hfirst, hrest⟩
      · obtain ⟨hshort, rfl⟩ := takeBytes_eq_error.1 hfirst
        exact ⟨by omega, rfl⟩
      · obtain ⟨rfl, rfl⟩ := (exact_takeBytes short count _ _ _).1 hfirst
        rcases bind_eq_error.1 hrest with hothers | ⟨others, last, -, hread⟩
        · obtain ⟨hshort, rfl⟩ := ih.1 hothers
          rw [List.length_append, id]
          exact ⟨by omega, rfl⟩
        · cases hread
    · rintro ⟨hshort, rfl⟩
      by_cases hlong : buf.length < count
      · exact bind_eq_error.2 (.inl (takeBytes_eq_error.2 ⟨hlong, rfl⟩))
      · refine bind_eq_error.2 (.inr ⟨buf.take count, buf.drop count, if_neg hlong, ?_⟩)
        refine bind_eq_error.2 (.inl (ih.2 ⟨?_, rfl⟩))
        rw [List.length_drop]
        omega

def optionally (present : Bool) (reader : Reader ε α) : Reader ε (Option α) :=
  if present then do return some (← reader) else return none

theorem exact_optionally {reader : Reader ε α} {valid : α → Prop} {write : α → List UInt8}
    (hreader : Exact reader valid write) (present : Bool) :
    Exact (optionally present reader) (fun o => o.isSome = present ∧ ∀ a ∈ o, valid a)
      (fun o => (o.map write).getD []) := by
  intro buf o rest
  cases present with
  | false =>
    constructor
    · intro h
      cases h
      exact ⟨⟨rfl, by simp⟩, rfl⟩
    · rintro ⟨⟨hnone, -⟩, rfl⟩
      rw [Option.isSome_eq_false_iff, Option.isNone_iff_eq_none] at hnone
      rw [hnone]
      rfl
  | true =>
    constructor
    · intro h
      obtain ⟨a, mid, ha, hread⟩ := bind_eq_ok.1 h
      obtain ⟨hvalid, rfl⟩ := (hreader _ _ _).1 ha
      cases hread
      exact ⟨⟨rfl, by simpa using hvalid⟩, rfl⟩
    · rintro ⟨⟨hsome, hvalid⟩, rfl⟩
      obtain ⟨a, rfl⟩ := Option.isSome_iff_exists.1 hsome
      exact bind_eq_ok.2 ⟨a, rest, (hreader _ _ _).2 ⟨hvalid a rfl, rfl⟩, rfl⟩

/-! ### Errors that a check rules out -/

def Takes (reader : Reader ε α) (count : ℕ) : Prop :=
  ∀ buf, count ≤ buf.length → ∃ a, reader buf = .ok (a, buf.drop count)

def Avoids (bad : ε → Prop) (need : ℕ) (reader : Reader ε α) : Prop :=
  ∀ buf e, need ≤ buf.length → reader buf = .error e → ¬ bad e

variable {bad : ε → Prop} {need count : ℕ} {reader : Reader ε α} {next : α → Reader ε β}

theorem takes_takeBytes (short : ε) (count : ℕ) : Takes (takeBytes short count) count := by
  intro buf hlong
  exact ⟨buf.take count, if_neg (Nat.not_lt.2 hlong)⟩

theorem Takes.map (h : Takes reader count) (f : α → β) :
    Takes (do return f (← reader)) count := by
  intro buf hlong
  obtain ⟨a, ha⟩ := h buf hlong
  exact ⟨f a, bind_eq_ok.2 ⟨a, buf.drop count, ha, rfl⟩⟩

theorem takes_takeNat (short : ε) (count : ℕ) : Takes (takeNat short count) count :=
  (takes_takeBytes short count).map beValue

theorem Takes.optionally (h : Takes reader count) (present : Bool) :
    Takes (optionally present reader) (count * present.toNat) := by
  cases present with
  | false =>
    intro buf _
    exact ⟨none, by rw [Bool.toNat_false, Nat.mul_zero, List.drop_zero]; rfl⟩
  | true =>
    rw [Bool.toNat_true, Nat.mul_one]
    exact h.map some

theorem avoids_pure (bad : ε → Prop) (need : ℕ) (a : α) : Avoids bad need (pure a : Reader ε α) := by
  intro buf e _ h
  cases h

theorem avoids_takeBytes {short : ε} (h : ¬ bad short) (count : ℕ) :
    Avoids bad need (takeBytes short count) := by
  intro buf e _ hread
  obtain ⟨-, rfl⟩ := takeBytes_eq_error.1 hread
  exact h

theorem Avoids.takes_bind (h : Takes reader count) (hneed : count ≤ need)
    (hnext : ∀ a, Avoids bad (need - count) (next a)) : Avoids bad need (reader >>= next) := by
  intro buf e hlong hread
  obtain ⟨a, ha⟩ := h buf (Nat.le_trans hneed hlong)
  rcases bind_eq_error.1 hread with hstop | ⟨a', mid, ha', hstop⟩
  · rw [ha] at hstop
    cases hstop
  · rw [ha] at ha'
    cases ha'
    refine hnext a _ e ?_ hstop
    rw [List.length_drop]
    omega

theorem Avoids.bind (h : Avoids bad need reader) (hnext : ∀ a, Avoids bad 0 (next a)) :
    Avoids bad need (reader >>= next) := by
  intro buf e hlong hread
  rcases bind_eq_error.1 hread with hstop | ⟨a, mid, -, hstop⟩
  · exact h buf e hlong hstop
  · exact hnext a mid e (Nat.zero_le _) hstop

theorem Avoids.times (h : Avoids bad 0 reader) (count : ℕ) : Avoids bad 0 (times reader count) := by
  intro buf e _ hread
  obtain ⟨done, -, xs, rest, -, hstop⟩ := times_eq_error.1 hread
  exact h rest e (Nat.zero_le _) hstop

/-! ### Records that are read field by field -/

/-- The reader takes the valid values, and every buffer of so many bytes begins with one. -/
structure Fixed (reader : Reader ε α) (count : ℕ) (valid : α → Prop) (write : α → List UInt8) :
    Prop where
  exact : Exact reader valid write
  takes : Takes reader count

/-- The reader takes back what is written for a value, and can ask for something of what is left.
On a buffer of the needed length it stops with no bad error. -/
structure Guarded (bad : ε → Prop) (need : ℕ) (reader : Reader ε α)
    (valid : α → List UInt8 → Prop) (write : α → List UInt8) : Prop where
  eq_ok : ∀ buf a rest, reader buf = .ok (a, rest) ↔ valid a rest ∧ buf = write a ++ rest
  avoids : Avoids bad need reader

theorem Guarded.congr {valid valid' : α → List UInt8 → Prop} {write write' : α → List UInt8}
    (h : Guarded bad need reader valid write) (hvalid : ∀ a rest, valid a rest ↔ valid' a rest)
    (hwrite : ∀ a, write a = write' a) : Guarded bad need reader valid' write' := by
  obtain rfl : write = write' := funext hwrite
  refine ⟨?_, h.avoids⟩
  intro buf a rest
  rw [h.eq_ok, hvalid]

theorem guarded_pure {known : α → Prop} {a : α} (h : ∀ b, known b ↔ b = a) :
    Guarded bad 0 (pure a : Reader ε α) (fun b _ => True ∧ known b) (fun _ => []) := by
  refine ⟨?_, avoids_pure bad 0 a⟩
  intro buf b rest
  rw [true_and, h]
  constructor
  · intro hread
    cases hread
    exact ⟨rfl, rfl⟩
  · rintro ⟨rfl, rfl⟩
    rfl

/-- The first field and a reader of the others, which knows the fields in front of it. -/
theorem Guarded.field {valid : α → Prop} {write : α → List UInt8} {known : β → Prop}
    {valid' : β → List UInt8 → Prop} {write' : β → List UInt8} (field : β → α)
    (hreader : Fixed reader count valid write)
    (hnext : ∀ a, Guarded bad need (next a)
      (fun b rest => valid' b rest ∧ known b ∧ field b = a) write') :
    Guarded bad (count + need) (reader >>= next)
      (fun b rest => (valid (field b) ∧ valid' b rest) ∧ known b)
      (fun b => write (field b) ++ write' b) := by
  refine ⟨?_, .takes_bind hreader.takes (Nat.le_add_right _ _) fun a => ?_⟩
  · intro buf b rest
    rw [bind_eq_ok]
    constructor
    · rintro ⟨a, mid, hread, hrest⟩
      obtain ⟨hvalid, rfl⟩ := (hreader.exact _ _ _).1 hread
      obtain ⟨⟨hvalid', hknown, rfl⟩, rfl⟩ := ((hnext a).eq_ok _ _ _).1 hrest
      exact ⟨⟨⟨hvalid, hvalid'⟩, hknown⟩, (List.append_assoc _ _ _).symm⟩
    · rintro ⟨⟨⟨hvalid, hvalid'⟩, hknown⟩, rfl⟩
      exact ⟨field b, write' b ++ rest,
        (hreader.exact _ _ _).2 ⟨hvalid, List.append_assoc _ _ _⟩,
        ((hnext _).eq_ok _ _ _).2 ⟨⟨hvalid', hknown, rfl⟩, rfl⟩⟩
  · rw [Nat.add_sub_cancel_left]
    exact (hnext a).avoids

/-- The last field, whose reader can know the fields in front of it. -/
theorem Guarded.last {valid : α → List UInt8 → Prop} {write : α → List UInt8} {known : β → Prop}
    {valid' : β → List UInt8 → Prop} {finish : α → β} (field : β → α)
    (hreader : Guarded bad need reader valid write)
    (hvalid : ∀ b rest, known b → (valid (field b) rest ↔ valid' b rest))
    (hfinish : ∀ a rest, valid a rest → ∀ b, known b ∧ field b = a ↔ b = finish a) :
    Guarded bad need (reader >>= fun a => pure (finish a))
      (fun b rest => valid' b rest ∧ known b) (fun b => write (field b)) := by
  refine ⟨?_, hreader.avoids.bind fun _ => avoids_pure _ _ _⟩
  intro buf b rest
  rw [bind_eq_ok]
  constructor
  · rintro ⟨a, mid, hread, hdone⟩
    cases hdone
    obtain ⟨ha, rfl⟩ := (hreader.eq_ok _ _ _).1 hread
    obtain ⟨hknown, hfield⟩ := (hfinish a _ ha _).2 rfl
    rw [hfield]
    exact ⟨⟨(hvalid _ _ hknown).1 (hfield.symm ▸ ha), hknown⟩, rfl⟩
  · rintro ⟨⟨hb, hknown⟩, rfl⟩
    have ha := (hvalid b rest hknown).2 hb
    refine ⟨field b, rest, (hreader.eq_ok _ _ _).2 ⟨ha, rfl⟩, ?_⟩
    rw [← (hfinish _ _ ha b).1 ⟨hknown, rfl⟩]
    rfl

/-! ### Reading all there is -/

def Shortens (reader : Reader ε α) : Prop :=
  ∀ buf a rest, reader buf = .ok (a, rest) → rest.length < buf.length

def untilEmpty (reader : Reader ε α) (hshortens : Shortens reader) :
    List UInt8 → Except ε (List α)
  | [] => .ok []
  | byte :: buf =>
    match h : reader (byte :: buf) with
    | .error e => .error e
    | .ok (a, rest) => do return a :: (← untilEmpty reader hshortens rest)
termination_by buf => buf.length
decreasing_by exact hshortens _ _ _ h

theorem untilEmpty_ok (hshortens : Shortens reader) {a : α}
    (h : reader buf = .ok (a, rest)) :
    untilEmpty reader hshortens buf = (do return a :: (← untilEmpty reader hshortens rest)) := by
  have hlength := hshortens _ _ _ h
  cases buf with
  | nil => exact absurd hlength (Nat.not_lt_zero _)
  | cons byte buf =>
    rw [untilEmpty]
    split
    · rename_i e he
      rw [h] at he
      cases he
    · rename_i a' rest' hok
      rw [h] at hok
      cases hok
      rfl

theorem untilEmpty_eq_ok {γ : Type} {valid : γ → Prop} {value : γ → α} {write : γ → List UInt8}
    (hshortens : Shortens reader)
    (hreader : ∀ buf a rest,
      reader buf = .ok (a, rest) ↔ ∃ c, valid c ∧ value c = a ∧ buf = write c ++ rest) :
    untilEmpty reader hshortens buf = .ok xs ↔
      ∃ cs : List γ, (∀ c ∈ cs, valid c) ∧ cs.map value = xs ∧ buf = cs.flatMap write := by
  constructor
  · intro h
    fun_induction untilEmpty reader hshortens buf generalizing xs with
    | case1 =>
      cases h
      exact ⟨[], List.forall_mem_nil _, rfl, rfl⟩
    | case2 byte buf e hread => cases h
    | case3 byte buf a rest hread ih =>
      obtain ⟨others, hothers, hxs⟩ := ExceptTraversal.bind_eq_ok.1 h
      cases hxs
      obtain ⟨c, hvalid, rfl, hbuf⟩ := (hreader _ _ _).1 hread
      obtain ⟨cs, hall, rfl, rfl⟩ := ih hothers
      exact ⟨c :: cs, List.forall_mem_cons.2 ⟨hvalid, hall⟩, rfl, hbuf⟩
  · rintro ⟨cs, hall, rfl, rfl⟩
    induction cs with
    | nil =>
      rw [List.flatMap_nil, untilEmpty]
      rfl
    | cons c cs ih =>
      obtain ⟨hvalid, hall⟩ := List.forall_mem_cons.1 hall
      have hread := (hreader _ _ (cs.flatMap write)).2 ⟨c, hvalid, rfl, rfl⟩
      rw [List.flatMap_cons, untilEmpty_ok hshortens hread, ih hall]
      rfl

theorem untilEmpty_avoids (hshortens : Shortens reader) (hreader : Avoids bad 0 reader)
    (h : untilEmpty reader hshortens buf = .error e) :
    ¬ bad e := by
  fun_induction untilEmpty reader hshortens buf with
  | case1 => cases h
  | case2 byte buf e' hread =>
    cases h
    exact hreader _ _ (Nat.zero_le _) hread
  | case3 byte buf a rest hread ih =>
    rcases ExceptTraversal.bind_eq_error.1 h with hlater | ⟨others, -, hread⟩
    · exact ih hlater
    · cases hread

end
end ByteReader
