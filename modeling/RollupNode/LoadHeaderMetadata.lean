import RollupNode.ByteReader
import RollupNode.Primitives
import Mathlib.Data.Nat.Bitwise
import Mathlib.Logic.Function.Basic

set_option autoImplicit false

/-! The metadata that headers are missing, as a migration loads it from a file. -/
namespace RollupNode.LoadHeaderMetadata
open ByteReader

inductive Stop where
  | error (message : String)
  | panic (message : String)
  deriving DecidableEq, Repr

def Stop.custom : Stop → Stop
  | .error message => .error ("Custom Error: " ++ message)
  | .panic message => .panic message

def Stop.IsPanic (stop : Stop) : Prop := ∃ message, stop = .panic message

def Panics {α : Type} (x : Except Stop α) : Prop := ∃ message, x = .error (.panic message)

structure HeaderMetadata where
  extraData : Bytes
  stateRoot : Bytes
  coinbase : Option Bytes
  nonce : Option ℕ
  difficulty : ℕ
  deriving DecidableEq, Repr

structure MetadataDecoder where
  vanity : UInt8 → Option Bytes

/-- The slice of the next bytes, which panics when there are fewer, and the advance past it. -/
def slice (count : ℕ) : Reader Stop Bytes := takeBytes (.panic "range end index out of range") count

def insertVanity (vanities : UInt8 → Option Bytes) (i : ℕ) : Reader Stop (UInt8 → Option Bytes) := do
  return Function.update vanities (UInt8.ofNat i) (some (← slice 32))

def loadVanities (vanityLen : ℕ) : Reader Stop (UInt8 → Option Bytes) :=
  (List.range vanityLen).foldlM insertVanity (fun _ => none)

def loadVanity : Reader Stop MetadataDecoder := fun buf =>
  match buf with
  | [] => .error (.error "empty buf")
  | vanityLen :: rest =>
    if buf.length < 32 * vanityLen.toNat then .error (.error "missing vanity data")
    else (do return ⟨← loadVanities vanityLen.toNat⟩ : Reader Stop MetadataDecoder) rest

def totalExpectedSize (hasCoinbase hasNonce : Bool) (sealLength : ℕ) : ℕ :=
  2 + 32 + 20 * hasCoinbase.toNat + 8 * hasNonce.toNat + sealLength

def readHeader (vanity : Bytes) (hasCoinbase hasNonce : Bool) (difficulty sealLength : ℕ) :
    Reader Stop HeaderMetadata := do
  let _ ← slice 2
  let stateRoot ← slice 32
  let coinbase ← optionally hasCoinbase (slice 20)
  let nonce ← optionally hasNonce (takeNat (.panic "range end index out of range") 8)
  let sealBytes ← slice sealLength
  return ⟨vanity ++ sealBytes, stateRoot, coinbase, nonce, difficulty⟩

/-- The size is checked as a whole before anything is taken from the buffer. -/
def MetadataDecoder.next (d : MetadataDecoder) : Reader Stop HeaderMetadata := fun buf =>
  match buf with
  | flag :: vanityIndex :: _ =>
    let hasCoinbase := (flag &&& 0b00010000) != 0
    let hasNonce := (flag &&& 0b00100000) != 0
    let difficulty := if (flag &&& 0b01000000) == 0 then 2 else 1
    let sealLength := if (flag &&& 0b10000000) == 0 then 65 else 85
    match d.vanity vanityIndex with
    | none => .error (.error "vanity not found")
    | some vanity =>
      let size := totalExpectedSize hasCoinbase hasNonce sealLength
      if buf.length < size then
        .error (.error ("header buffer too small: got " ++ toString buf.length ++ ", expected " ++
          toString size))
      else readHeader vanity hasCoinbase hasNonce difficulty sealLength buf
  | _ => .error (.error "header buffer too small to read seal flag and vanity index")

/-! ### What a file holds -/

structure Vanities where
  list : List Bytes
  count_lt : list.length < 256
  length_vanity : ∀ vanity ∈ list, vanity.length = 32

/-- The record of one header. The flag says which of the fields are there. -/
structure HeaderRecord where
  flag : UInt8
  vanityIndex : UInt8
  stateRoot : Bytes
  coinbase : Option Bytes
  nonce : Option ℕ
  sealBytes : Bytes
  length_stateRoot : stateRoot.length = 32
  coinbase_flag : coinbase.isSome = flag.toNat.testBit 4
  length_coinbase : ∀ address ∈ coinbase, address.length = 20
  nonce_flag : nonce.isSome = flag.toNat.testBit 5
  nonce_lt : ∀ value ∈ nonce, value < 2 ^ 64
  length_seal : sealBytes.length = if flag.toNat.testBit 7 then 85 else 65

structure MetadataFile extends Vanities where
  records : List HeaderRecord
  vanityIndex_lt : ∀ record ∈ records, record.vanityIndex.toNat < list.length

namespace Vanities

def bytes (vanities : Vanities) : Bytes :=
  UInt8.ofNat vanities.list.length :: vanities.list.flatten

def get (vanities : Vanities) (i : UInt8) : Bytes := vanities.list[i.toNat]?.getD []

end Vanities

namespace HeaderRecord

def bytes (record : HeaderRecord) : Bytes :=
  record.flag :: record.vanityIndex :: (record.stateRoot ++ (record.coinbase.getD [] ++
    ((record.nonce.map (beBytes 8)).getD [] ++ record.sealBytes)))

def header (record : HeaderRecord) (vanity : Bytes) : HeaderMetadata where
  extraData := vanity ++ record.sealBytes
  stateRoot := record.stateRoot
  coinbase := record.coinbase
  nonce := record.nonce
  difficulty := if record.flag.toNat.testBit 6 then 1 else 2

end HeaderRecord

namespace MetadataFile

def bytes (file : MetadataFile) : Bytes :=
  file.toVanities.bytes ++ file.records.flatMap HeaderRecord.bytes

def headers (file : MetadataFile) : List HeaderMetadata :=
  file.records.map (fun record => record.header (file.get record.vanityIndex))

end MetadataFile

def LacksVanityByte : Bytes → Prop
  | [] => False
  | vanityLen :: rest => rest.length + 1 = 32 * vanityLen.toNat

/-! ### The vanities -/

def vanityMap (vanities : List Bytes) (i : UInt8) : Option Bytes := vanities[i.toNat]?

theorem update_vanityMap {vanities : List Bytes} (hlt : vanities.length < 256) (vanity : Bytes) :
    Function.update (vanityMap vanities) (UInt8.ofNat vanities.length) (some vanity) =
      vanityMap (vanities ++ [vanity]) := by
  have hself : (UInt8.ofNat vanities.length).toNat = vanities.length := by
    rw [UInt8.toNat_ofNat']
    omega
  funext i
  by_cases hi : i = UInt8.ofNat vanities.length
  · subst hi
    rw [Function.update_self, vanityMap, hself, List.getElem?_concat_length]
  · have hne : i.toNat ≠ vanities.length := fun h => hi (UInt8.toNat_inj.1 (h.trans hself.symm))
    rw [Function.update_of_ne hi, vanityMap, vanityMap]
    by_cases hlow : i.toNat < vanities.length
    · rw [List.getElem?_append_left hlow]
    · have hlong : (vanities ++ [vanity]).length ≤ i.toNat := by
        simp only [List.length_append, List.length_singleton]
        omega
      rw [List.getElem?_eq_none (Nat.le_of_not_lt hlow), List.getElem?_eq_none hlong]

theorem insertVanities_eq (count : ℕ) (vanities : List Bytes)
    (hle : vanities.length + count ≤ 256) :
    (List.range' vanities.length count).foldlM insertVanity (vanityMap vanities) = (do
      let later ← times (slice 32) count
      return vanityMap (vanities ++ later)) := by
  induction count generalizing vanities with
  | zero => simp [times]
  | succ count ih =>
    have hstep : insertVanity (vanityMap vanities) vanities.length = (do
        let vanity ← slice 32
        return vanityMap (vanities ++ [vanity])) := by
      simp only [insertVanity, update_vanityMap (by omega : vanities.length < 256)]
    have hnext : ∀ vanity : Bytes,
        (List.range' (vanities.length + 1) count).foldlM insertVanity
          (vanityMap (vanities ++ [vanity])) = (do
            let later ← times (slice 32) count
            return vanityMap (vanities ++ vanity :: later)) := by
      intro vanity
      have h := ih (vanities ++ [vanity]) (by simp; omega)
      simpa using h
    rw [List.range'_succ, List.foldlM_cons, hstep]
    simp only [bind_assoc, pure_bind, hnext, times]

theorem loadVanities_eq {count : ℕ} (hle : count ≤ 256) :
    loadVanities count = (do return vanityMap (← times (slice 32) count)) := by
  have h := insertVanities_eq count [] (by simpa using hle)
  rw [loadVanities, List.range_eq_range']
  exact h

theorem loadVanity_cons (vanityLen : UInt8) (rest : Bytes) :
    loadVanity (vanityLen :: rest) =
      if rest.length + 1 < 32 * vanityLen.toNat then .error (.error "missing vanity data")
      else (do return ⟨vanityMap (← times (slice 32) vanityLen.toNat)⟩ :
        Reader Stop MetadataDecoder) rest := by
  have hle : vanityLen.toNat ≤ 256 := Nat.le_of_lt vanityLen.toNat_lt
  simp only [loadVanity, List.length_cons, loadVanities_eq hle, bind_assoc, pure_bind]

theorem exact_vanities (count : ℕ) :
    Exact (times (slice 32) count)
      (fun vanities => vanities.length = count ∧ ∀ vanity ∈ vanities, vanity.length = 32)
      List.flatten := by
  have h := exact_times (exact_takeBytes (Stop.panic "range end index out of range") 32) count
  simp only [List.flatMap_id] at h
  exact h

theorem loadVanity_eq_ok {data rest : Bytes} {d : MetadataDecoder} :
    loadVanity data = .ok (d, rest) ↔
      ∃ vanities : Vanities, d = ⟨vanityMap vanities.list⟩ ∧ data = vanities.bytes ++ rest := by
  constructor
  · intro h
    cases data with
    | nil => cases h
    | cons vanityLen buf =>
      rw [loadVanity_cons] at h
      split at h
      · cases h
      · obtain ⟨vanities, mid, hread, hd⟩ := bind_eq_ok.1 h
        obtain ⟨⟨hcount, hlength⟩, rfl⟩ := (exact_vanities _ _ _ _).1 hread
        cases hd
        have hlt : vanities.length < 256 := hcount ▸ vanityLen.toNat_lt
        refine ⟨⟨vanities, hlt, hlength⟩, rfl, ?_⟩
        rw [Vanities.bytes, hcount, UInt8.ofNat_toNat, List.cons_append]
  · rintro ⟨vanities, rfl, rfl⟩
    have hself : (UInt8.ofNat vanities.list.length).toNat = vanities.list.length := by
      rw [UInt8.toNat_ofNat', Nat.mod_eq_of_lt vanities.count_lt]
    have hread := (exact_vanities _ (vanities.list.flatten ++ rest) vanities.list rest).2
      ⟨⟨rfl, vanities.length_vanity⟩, rfl⟩
    have hlong : ¬ (vanities.list.flatten ++ rest).length < 32 * vanities.list.length := by
      intro hshort
      have herror := times_takeBytes_eq_error.2
        ⟨hshort, (rfl : _ = Stop.panic "range end index out of range")⟩
      rw [slice, herror] at hread
      cases hread
    rw [Vanities.bytes, List.cons_append, loadVanity_cons, hself, if_neg (by omega)]
    exact bind_eq_ok.2 ⟨vanities.list, rest, hread, rfl⟩

theorem loadVanity_panics_iff (data : Bytes) :
    Panics (loadVanity data) ↔ LacksVanityByte data := by
  cases data with
  | nil =>
    constructor
    · rintro ⟨message, h⟩
      cases h
    · intro h
      cases h
  | cons vanityLen rest =>
    rw [Panics, LacksVanityByte, loadVanity_cons]
    constructor
    · rintro ⟨message, h⟩
      split at h
      · cases h
      · rcases bind_eq_error.1 h with hread | ⟨vanities, mid, -, hread⟩
        · obtain ⟨hshort, -⟩ := times_takeBytes_eq_error.1 hread
          omega
        · cases hread
    · intro hlength
      refine ⟨"range end index out of range", ?_⟩
      rw [if_neg (by omega)]
      refine bind_eq_error.2 (.inl (times_takeBytes_eq_error.2 ⟨?_, rfl⟩))
      omega

/-! ### The records -/

theorem testFlag_eq (flag : UInt8) {mask : UInt8} {k : ℕ} (hmask : mask.toNat = 2 ^ k) :
    ((flag &&& mask) != 0) = flag.toNat.testBit k := by
  have hand : (flag &&& mask).toNat = (flag.toNat.testBit k).toNat * 2 ^ k := by
    rw [UInt8.toNat_and, hmask, Nat.and_two_pow]
  cases hbit : flag.toNat.testBit k with
  | false =>
    rw [hbit, Bool.toNat_false, Nat.zero_mul] at hand
    have hzero : flag &&& mask = 0 := UInt8.toNat_inj.1 hand
    rw [hzero]
    rfl
  | true =>
    rw [hbit, Bool.toNat_true, Nat.one_mul] at hand
    rw [bne_iff_ne]
    intro hzero
    rw [hzero] at hand
    exact absurd hand.symm (Nat.two_pow_pos k).ne'

theorem ite_testFlag (flag : UInt8) {mask : UInt8} {k : ℕ} (hmask : mask.toNat = 2 ^ k)
    (cleared set : ℕ) : (if (flag &&& mask) == 0 then cleared else set) =
      if flag.toNat.testBit k then set else cleared := by
  rw [← testFlag_eq flag hmask, bne]
  cases (flag &&& mask) == 0 with
  | false => rfl
  | true => rfl

theorem readHeader_eq_ok {vanity buf rest : Bytes} {hasCoinbase hasNonce : Bool}
    {difficulty sealLength : ℕ} {header : HeaderMetadata} :
    readHeader vanity hasCoinbase hasNonce difficulty sealLength buf = .ok (header, rest) ↔
      ∃ (flags stateRoot : Bytes) (coinbase : Option Bytes) (nonce : Option ℕ) (sealBytes : Bytes),
        flags.length = 2 ∧ stateRoot.length = 32 ∧
        (coinbase.isSome = hasCoinbase ∧ ∀ address ∈ coinbase, address.length = 20) ∧
        (nonce.isSome = hasNonce ∧ ∀ value ∈ nonce, value < 256 ^ 8) ∧
        sealBytes.length = sealLength ∧
        header = ⟨vanity ++ sealBytes, stateRoot, coinbase, nonce, difficulty⟩ ∧
        buf = flags ++ (stateRoot ++ (coinbase.getD [] ++
          ((nonce.map (beBytes 8)).getD [] ++ (sealBytes ++ rest)))) := by
  have hslice := exact_takeBytes (Stop.panic "range end index out of range")
  have hcoinbase := exact_optionally (hslice 20) hasCoinbase
  have hnonce := exact_optionally (exact_takeNat (Stop.panic "range end index out of range") 8)
    hasNonce
  simp only [Option.map_id] at hcoinbase
  constructor
  · intro h
    obtain ⟨flags, buf₁, hflags, rfl, h₁⟩ := (hslice 2).bind_ok h
    obtain ⟨stateRoot, buf₂, hroot, rfl, h₂⟩ := (hslice 32).bind_ok h₁
    obtain ⟨coinbase, buf₃, haddress, rfl, h₃⟩ := hcoinbase.bind_ok h₂
    obtain ⟨nonce, buf₄, hvalue, rfl, h₄⟩ := hnonce.bind_ok h₃
    obtain ⟨sealBytes, buf₅, hseal, rfl, h₅⟩ := (hslice sealLength).bind_ok h₄
    cases h₅
    exact ⟨flags, stateRoot, coinbase, nonce, sealBytes, hflags, hroot, haddress, hvalue, hseal,
      rfl, rfl⟩
  · rintro ⟨flags, stateRoot, coinbase, nonce, sealBytes, hflags, hroot, haddress, hvalue, hseal,
      rfl, rfl⟩
    refine bind_eq_ok.2 ⟨flags, _, (hslice 2 _ _ _).2 ⟨hflags, rfl⟩, ?_⟩
    refine bind_eq_ok.2 ⟨stateRoot, _, (hslice 32 _ _ _).2 ⟨hroot, rfl⟩, ?_⟩
    refine bind_eq_ok.2 ⟨coinbase, _, (hcoinbase _ _ _).2 ⟨haddress, rfl⟩, ?_⟩
    refine bind_eq_ok.2 ⟨nonce, _, (hnonce _ _ _).2 ⟨hvalue, rfl⟩, ?_⟩
    exact bind_eq_ok.2 ⟨sealBytes, rest, (hslice sealLength _ _ _).2 ⟨hseal, rfl⟩, rfl⟩

theorem readHeader_avoids (vanity : Bytes) (hasCoinbase hasNonce : Bool)
    (difficulty sealLength : ℕ) :
    Avoids Stop.IsPanic (totalExpectedSize hasCoinbase hasNonce sealLength)
      (readHeader vanity hasCoinbase hasNonce difficulty sealLength) := by
  have hslice := takes_takeBytes (Stop.panic "range end index out of range")
  have hnonce := takes_takeNat (Stop.panic "range end index out of range") 8
  unfold totalExpectedSize
  refine Avoids.takes_bind (hslice 2) (by omega) (fun _ => ?_)
  refine Avoids.takes_bind (hslice 32) (by omega) (fun _ => ?_)
  refine Avoids.takes_bind ((hslice 20).optionally hasCoinbase) (by omega) (fun _ => ?_)
  refine Avoids.takes_bind (hnonce.optionally hasNonce) (by omega) (fun _ => ?_)
  refine Avoids.takes_bind (hslice sealLength) (by omega) (fun _ => ?_)
  exact avoids_pure _ _ _

def recordSize (flag : UInt8) : ℕ :=
  totalExpectedSize (flag.toNat.testBit 4) (flag.toNat.testBit 5)
    (if flag.toNat.testBit 7 then 85 else 65)

def readRecord (vanity : Bytes) (flag : UInt8) : Reader Stop HeaderMetadata :=
  readHeader vanity (flag.toNat.testBit 4) (flag.toNat.testBit 5)
    (if flag.toNat.testBit 6 then 1 else 2) (if flag.toNat.testBit 7 then 85 else 65)

theorem HeaderRecord.length_bytes (record : HeaderRecord) :
    record.bytes.length = recordSize record.flag := by
  have hcoinbase : (record.coinbase.getD []).length = 20 * record.coinbase.isSome.toNat := by
    cases h : record.coinbase with
    | none => rfl
    | some address => exact record.length_coinbase address h
  have hnonce : ((record.nonce.map (beBytes 8)).getD []).length =
      8 * record.nonce.isSome.toNat := by
    cases record.nonce with
    | none => rfl
    | some value => exact length_beBytes 8 value
  rw [recordSize, ← record.coinbase_flag, ← record.nonce_flag, ← record.length_seal]
  simp only [bytes, totalExpectedSize, List.length_cons, List.length_append, hcoinbase, hnonce,
    record.length_stateRoot]
  omega

namespace MetadataDecoder

theorem next_cons (d : MetadataDecoder) (flag vanityIndex : UInt8) (tail : Bytes) :
    d.next (flag :: vanityIndex :: tail) =
      match d.vanity vanityIndex with
      | none => .error (.error "vanity not found")
      | some vanity =>
        if (flag :: vanityIndex :: tail).length < recordSize flag then
          .error (.error ("header buffer too small: got " ++
            toString (flag :: vanityIndex :: tail).length ++ ", expected " ++
            toString (recordSize flag)))
        else readRecord vanity flag (flag :: vanityIndex :: tail) := by
  have hcoinbase : ((flag &&& 0b00010000) != 0) = flag.toNat.testBit 4 := testFlag_eq flag rfl
  have hnonce : ((flag &&& 0b00100000) != 0) = flag.toNat.testBit 5 := testFlag_eq flag rfl
  have hdifficulty : (if (flag &&& 0b01000000) == 0 then 2 else 1) =
      if flag.toNat.testBit 6 then 1 else 2 := ite_testFlag flag rfl 2 1
  have hseal : (if (flag &&& 0b10000000) == 0 then 65 else 85) =
      if flag.toNat.testBit 7 then 85 else 65 := ite_testFlag flag rfl 65 85
  simp only [next, hcoinbase, hnonce, hdifficulty, hseal]
  rfl

theorem next_cases (d : MetadataDecoder) (buf : Bytes) :
    (∃ message, d.next buf = .error (.error message)) ∨
      ∃ (flag vanityIndex : UInt8) (tail vanity : Bytes), buf = flag :: vanityIndex :: tail ∧
        d.vanity vanityIndex = some vanity ∧ recordSize flag ≤ buf.length ∧
        d.next buf = readRecord vanity flag buf := by
  match buf with
  | [] => exact .inl ⟨_, rfl⟩
  | [_] => exact .inl ⟨_, rfl⟩
  | flag :: vanityIndex :: tail =>
    rw [next_cons]
    cases hvanity : d.vanity vanityIndex with
    | none => exact .inl ⟨_, rfl⟩
    | some vanity =>
      by_cases hshort : (flag :: vanityIndex :: tail).length < recordSize flag
      · exact .inl ⟨_, if_pos hshort⟩
      · exact .inr ⟨flag, vanityIndex, tail, vanity, rfl, hvanity, Nat.le_of_not_lt hshort,
          if_neg hshort⟩

theorem next_eq_ok {buf rest : Bytes} {d : MetadataDecoder} {header : HeaderMetadata} :
    d.next buf = .ok (header, rest) ↔ ∃ (record : HeaderRecord) (vanity : Bytes),
      d.vanity record.vanityIndex = some vanity ∧ record.header vanity = header ∧
        buf = record.bytes ++ rest := by
  constructor
  · intro h
    rcases d.next_cases buf with ⟨message, herror⟩ |
      ⟨flag, vanityIndex, tail, vanity, rfl, hvanity, -, hread⟩
    · rw [herror] at h
      cases h
    · rw [hread] at h
      obtain ⟨flags, stateRoot, coinbase, nonce, sealBytes, hflags, hroot, hcoinbase, hnonce,
        hseal, rfl, hbuf⟩ := readHeader_eq_ok.1 h
      obtain ⟨flag', vanityIndex', rfl⟩ := List.length_eq_two.1 hflags
      simp only [List.cons_append, List.nil_append, List.cons.injEq] at hbuf
      obtain ⟨rfl, rfl, rfl⟩ := hbuf
      refine ⟨⟨flag, vanityIndex, stateRoot, coinbase, nonce, sealBytes, hroot, hcoinbase.1,
        hcoinbase.2, hnonce.1, hnonce.2, hseal⟩, vanity, hvanity, rfl, ?_⟩
      simp only [HeaderRecord.bytes, List.cons_append, List.append_assoc]
  · rintro ⟨record, vanity, hvanity, rfl, rfl⟩
    have hlong : recordSize record.flag ≤ (record.bytes ++ rest).length := by
      rw [List.length_append, record.length_bytes]
      omega
    simp only [HeaderRecord.bytes, List.cons_append, List.append_assoc] at hlong ⊢
    rw [next_cons, hvanity]
    simp only
    rw [if_neg (Nat.not_lt.2 hlong)]
    exact readHeader_eq_ok.2 ⟨[record.flag, record.vanityIndex], record.stateRoot, record.coinbase,
      record.nonce, record.sealBytes, rfl, record.length_stateRoot,
      ⟨record.coinbase_flag, record.length_coinbase⟩, ⟨record.nonce_flag, record.nonce_lt⟩,
      record.length_seal, rfl, rfl⟩

theorem shortens_next (d : MetadataDecoder) : Shortens d.next := by
  intro buf header rest h
  obtain ⟨record, vanity, -, -, rfl⟩ := next_eq_ok.1 h
  simp only [HeaderRecord.bytes, List.cons_append, List.length_cons, List.length_append]
  omega

theorem next_avoids (d : MetadataDecoder) : Avoids Stop.IsPanic 0 d.next := by
  intro buf e _ h
  rcases d.next_cases buf with ⟨message, herror⟩ | ⟨flag, _, _, vanity, -, -, hsize, hread⟩
  · rw [herror] at h
    cases h
    rintro ⟨panicked, hpanic⟩
    cases hpanic
  · rw [hread] at h
    exact readHeader_avoids _ _ _ _ _ buf e hsize h

end MetadataDecoder

/-! ### The file -/

def decodeToHeaders (data : Bytes) : Except Stop (List HeaderMetadata) := do
  let (decoder, buf) ← (loadVanity data).mapError Stop.custom
  (untilEmpty decoder.next decoder.shortens_next buf).mapError Stop.custom

theorem mapError_eq_ok {α : Type} {x : Except Stop α} {a : α} :
    x.mapError Stop.custom = .ok a ↔ x = .ok a := by
  cases x with
  | error e => simp [Except.mapError]
  | ok b => simp [Except.mapError]

theorem mapError_panics {α : Type} {x : Except Stop α} :
    Panics (x.mapError Stop.custom) ↔ Panics x := by
  cases x with
  | error e => cases e <;> simp [Panics, Except.mapError, Stop.custom]
  | ok b => simp [Panics, Except.mapError]

theorem next_vanityMap {buf rest : Bytes} (vanities : Vanities) {header : HeaderMetadata} :
    (MetadataDecoder.mk (vanityMap vanities.list)).next buf = .ok (header, rest) ↔
      ∃ record : HeaderRecord, record.vanityIndex.toNat < vanities.list.length ∧
        record.header (vanities.get record.vanityIndex) = header ∧ buf = record.bytes ++ rest := by
  rw [MetadataDecoder.next_eq_ok]
  constructor
  · rintro ⟨record, vanity, hvanity, hheader, hbuf⟩
    change vanities.list[record.vanityIndex.toNat]? = some vanity at hvanity
    have hget : vanities.get record.vanityIndex = vanity := by
      rw [Vanities.get, hvanity, Option.getD_some]
    obtain ⟨hlt, -⟩ := List.getElem?_eq_some_iff.1 hvanity
    exact ⟨record, hlt, hget ▸ hheader, hbuf⟩
  · rintro ⟨record, hlt, hheader, hbuf⟩
    refine ⟨record, vanities.get record.vanityIndex, ?_, hheader, hbuf⟩
    change vanities.list[record.vanityIndex.toNat]? = _
    rw [Vanities.get, List.getElem?_eq_getElem hlt, Option.getD_some]

theorem decodeToHeaders_eq_ok {data : Bytes} {headers : List HeaderMetadata} :
    decodeToHeaders data = .ok headers ↔
      ∃ file : MetadataFile, file.bytes = data ∧ file.headers = headers := by
  rw [decodeToHeaders, ExceptTraversal.bind_eq_ok]
  constructor
  · rintro ⟨⟨d, buf⟩, hload, hread⟩
    obtain ⟨vanities, rfl, rfl⟩ := loadVanity_eq_ok.1 (mapError_eq_ok.1 hload)
    obtain ⟨records, hindex, rfl, rfl⟩ :=
      (untilEmpty_eq_ok _ (fun _ _ _ => next_vanityMap vanities)).1 (mapError_eq_ok.1 hread)
    exact ⟨⟨vanities, records, hindex⟩, rfl, rfl⟩
  · rintro ⟨file, rfl, rfl⟩
    refine ⟨⟨⟨vanityMap file.list⟩, file.records.flatMap HeaderRecord.bytes⟩, ?_, ?_⟩
    · exact mapError_eq_ok.2 (loadVanity_eq_ok.2 ⟨file.toVanities, rfl, rfl⟩)
    · refine mapError_eq_ok.2 ((untilEmpty_eq_ok _ (fun _ _ _ => next_vanityMap file.toVanities)).2 ?_)
      exact ⟨file.records, file.vanityIndex_lt, rfl, rfl⟩

/-- The missing byte is the one place where the decoder panics. -/
theorem decodeToHeaders_panics_iff (data : Bytes) :
    Panics (decodeToHeaders data) ↔ LacksVanityByte data := by
  rw [← loadVanity_panics_iff]
  constructor
  · rintro ⟨message, h⟩
    rcases ExceptTraversal.bind_eq_error.1 h with hload | ⟨⟨d, buf⟩, -, hread⟩
    · exact mapError_panics.1 ⟨message, hload⟩
    · obtain ⟨message, hread⟩ := mapError_panics.1 ⟨message, hread⟩
      exact absurd ⟨message, rfl⟩ (untilEmpty_avoids _ d.next_avoids hread)
  · intro hload
    obtain ⟨message, hload⟩ := mapError_panics.2 hload
    exact ⟨message, ExceptTraversal.bind_eq_error.2 (.inl hload)⟩

structure DecodesExactly (data : Bytes) : Prop where
  returns : ¬ Panics (decodeToHeaders data)
  accepts : ∀ headers, decodeToHeaders data = .ok headers ↔
    ∃ file : MetadataFile, file.bytes = data ∧ file.headers = headers

/-- Exactly the files that can be written are read, unless the data ends one byte short of its
vanities. -/
theorem decodesExactly_iff (data : Bytes) : DecodesExactly data ↔ ¬ LacksVanityByte data := by
  constructor
  · intro h hlacks
    exact h.returns ((decodeToHeaders_panics_iff data).2 hlacks)
  · intro hlacks
    exact ⟨fun h => hlacks ((decodeToHeaders_panics_iff data).1 h), fun _ => decodeToHeaders_eq_ok⟩

/-- One vanity is announced and 31 of its bytes follow. -/
theorem decodeToHeaders_cut_vanity :
    decodeToHeaders (1 :: List.replicate 31 0) = .error (.panic "range end index out of range") ∧
      ¬ DecodesExactly (1 :: List.replicate 31 0) := by
  have hpanic : decodeToHeaders (1 :: List.replicate 31 0) =
      .error (.panic "range end index out of range") := by
    decide
  exact ⟨hpanic, fun h => h.returns ⟨_, hpanic⟩⟩

end RollupNode.LoadHeaderMetadata
