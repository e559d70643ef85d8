import RollupNode.ByteReader

set_option autoImplicit false

/-! The headers of RLP items, and lists of strings. -/
namespace Rlp
open ByteReader

structure Header where
  list : Bool
  payloadLength : ℕ
  deriving DecidableEq, Repr

def byteLength (n : ℕ) : ℕ := if n = 0 then 0 else n.log2 / 8 + 1

def Header.lengthWithPayload (h : Header) : ℕ :=
  (if h.payloadLength < 56 then 1 else 1 + byteLength h.payloadLength) + h.payloadLength

/-- A length that is written out is not shorter than 56 and has no leading zero. -/
def longHeader (list : Bool) (width : ℕ) (buf : List UInt8) : Option (Header × List UInt8) :=
  let digits := buf.take width
  if buf.length < width ∨ digits.head? = some 0 ∨ beValue digits < 56 then none
  else some (⟨list, beValue digits⟩, buf.drop width)

/-- The header in front of the buffer without a look at the payload. A byte below `0x80` is its
own payload and stays in the buffer. -/
def splitHeader : List UInt8 → Option (Header × List UInt8)
  | [] => none
  | byte :: rest =>
    let code := byte.toNat
    if code < 0x80 then some (⟨false, 1⟩, byte :: rest)
    else if code < 0xb8 then
      if code = 0x81 ∧ rest.head?.any (fun next => next.toNat < 0x80) then none
      else some (⟨false, code - 0x80⟩, rest)
    else if code < 0xc0 then longHeader false (code - 0xb7) rest
    else if code < 0xf8 then some (⟨true, code - 0xc0⟩, rest)
    else longHeader true (code - 0xf7) rest

def decodeHeader (buf : List UInt8) : Option (Header × List UInt8) :=
  (splitHeader buf).filter (fun (header, rest) => header.payloadLength ≤ rest.length)

def trimmedBytes (n : ℕ) : List UInt8 := beBytes (byteLength n) n

def encodeHeader (h : Header) : List UInt8 :=
  let offset := if h.list then 0xc0 else 0x80
  if h.payloadLength < 56 then [UInt8.ofNat (offset + h.payloadLength)]
  else UInt8.ofNat (offset + 55 + byteLength h.payloadLength) :: trimmedBytes h.payloadLength

def encodeString : List UInt8 → List UInt8
  | [byte] => if byte.toNat < 0x80 then [byte] else encodeHeader ⟨false, 1⟩ ++ [byte]
  | bytes => encodeHeader ⟨false, bytes.length⟩ ++ bytes

def encodeStrings (items : List (List UInt8)) : List UInt8 := items.flatMap encodeString

def encodeList (items : List (List UInt8)) : List UInt8 :=
  encodeHeader ⟨true, (encodeStrings items).length⟩ ++ encodeStrings items

theorem lt_pow_byteLength (n : ℕ) : n < 256 ^ byteLength n := by
  by_cases hn : n = 0
  · simp [byteLength, hn]
  · rw [byteLength, if_neg hn]
    calc n < 2 ^ (n.log2 + 1) := Nat.lt_log2_self
      _ ≤ 2 ^ (8 * (n.log2 / 8 + 1)) := Nat.pow_le_pow_right (by decide) (by omega)
      _ = 256 ^ (n.log2 / 8 + 1) := by rw [Nat.pow_mul]

theorem pow_byteLength_le {n : ℕ} (hn : n ≠ 0) : 256 ^ (byteLength n - 1) ≤ n := by
  rw [byteLength, if_neg hn, Nat.add_sub_cancel]
  calc 256 ^ (n.log2 / 8) = 2 ^ (8 * (n.log2 / 8)) := by rw [Nat.pow_mul]
    _ ≤ 2 ^ n.log2 := Nat.pow_le_pow_right (by decide) (by omega)
    _ ≤ n := Nat.log2_self_le hn

theorem byteLength_le {n k : ℕ} (hn : n < 256 ^ k) : byteLength n ≤ k := by
  by_cases hzero : n = 0
  · simp [byteLength, hzero]
  · have hpow : 256 ^ (byteLength n - 1) < 256 ^ k :=
      Nat.lt_of_le_of_lt (pow_byteLength_le hzero) hn
    have hlt : byteLength n - 1 < k := (Nat.pow_lt_pow_iff_right (by decide)).1 hpow
    omega

theorem byteLength_pos {n : ℕ} (hn : n ≠ 0) : 0 < byteLength n := by
  rw [byteLength, if_neg hn]
  omega

theorem length_trimmedBytes (n : ℕ) : (trimmedBytes n).length = byteLength n := length_beBytes _ _

theorem beValue_trimmedBytes (n : ℕ) : beValue (trimmedBytes n) = n :=
  beValue_beBytes_of_lt (lt_pow_byteLength n)

theorem toNat_byte {code : ℕ} (h : code < 256) : (UInt8.ofNat code).toNat = code :=
  UInt8.toNat_ofNat_of_lt' h

theorem head_trimmedBytes {n : ℕ} (hn : n ≠ 0) : (trimmedBytes n).head? ≠ some 0 := by
  obtain ⟨k, hk⟩ := Nat.exists_eq_succ_of_ne_zero (Nat.ne_of_gt (byteLength_pos hn))
  have hlow : 256 ^ k ≤ n := by
    have hle := pow_byteLength_le hn
    rwa [hk, Nat.succ_sub_one] at hle
  have hhigh : n < 256 ^ k * 256 := by
    have hlt := lt_pow_byteLength n
    rwa [hk, Nat.pow_succ] at hlt
  rw [trimmedBytes, hk, beBytes_succ, List.head?_cons]
  intro hzero
  have hbyte : (UInt8.ofNat (n / 256 ^ k)).toNat = 0 := congrArg UInt8.toNat (Option.some.inj hzero)
  have hdigit : n / 256 ^ k < 256 := Nat.div_lt_of_lt_mul hhigh
  rw [toNat_byte hdigit] at hbyte
  have hpos : 0 < n / 256 ^ k := Nat.div_pos hlow (Nat.pow_pos (by decide))
  omega

theorem longHeader_trimmedBytes {n : ℕ} (list : Bool) (hn : 56 ≤ n) (rest : List UInt8) :
    longHeader list (byteLength n) (trimmedBytes n ++ rest) = some (⟨list, n⟩, rest) := by
  have htake : (trimmedBytes n ++ rest).take (byteLength n) = trimmedBytes n :=
    List.take_left' (length_trimmedBytes n)
  have hdrop : (trimmedBytes n ++ rest).drop (byteLength n) = rest :=
    List.drop_left' (length_trimmedBytes n)
  have hlength : ¬(trimmedBytes n ++ rest).length < byteLength n := by
    rw [List.length_append, length_trimmedBytes]
    omega
  have hvalue : ¬beValue (trimmedBytes n) < 56 := by
    rw [beValue_trimmedBytes]
    omega
  rw [longHeader, htake, hdrop, beValue_trimmedBytes]
  have hhead := head_trimmedBytes (show n ≠ 0 by omega)
  rw [beValue_trimmedBytes] at hvalue
  simp only [hlength, hhead, hvalue, or_self, if_false]

variable {h : Header} {buf bytes rest : List UInt8} {items : List (List UInt8)}

theorem splitHeader_encodeHeader (hlt : h.payloadLength < 2 ^ 64)
    (hsmall : h.list = false → h.payloadLength = 1 →
      rest.head?.any (fun next => next.toNat < 0x80) = false) :
    splitHeader (encodeHeader h ++ rest) = some (h, rest) := by
  obtain ⟨list, n⟩ := h
  have hlt : n < 2 ^ 64 := hlt
  have hsmall : list = false → n = 1 →
      rest.head?.any (fun next => next.toNat < 0x80) = false := hsmall
  have hwidth : byteLength n ≤ 8 := byteLength_le hlt
  by_cases hn : n < 56
  · cases list with
    | false =>
      have hcode : (UInt8.ofNat (0x80 + n)).toNat = 0x80 + n := toNat_byte (by omega)
      have hone : ¬(0x80 + n = 0x81 ∧
          rest.head?.any (fun next => next.toNat < 0x80) = true) := by
        rintro ⟨hone, hany⟩
        rw [hsmall rfl (by omega)] at hany
        cases hany
      simp only [encodeHeader, Bool.false_eq_true, if_false, hn, if_true, List.singleton_append,
        splitHeader, hcode, hone]
      rw [if_neg (by omega), if_pos (by omega), Nat.add_sub_cancel_left]
    | true =>
      have hcode : (UInt8.ofNat (0xc0 + n)).toNat = 0xc0 + n := toNat_byte (by omega)
      simp only [encodeHeader, if_true, hn, List.singleton_append, splitHeader, hcode]
      rw [if_neg (by omega), if_neg (by omega), if_neg (by omega), if_pos (by omega),
        Nat.add_sub_cancel_left]
  · have hpos : 0 < byteLength n := byteLength_pos (by omega)
    have hlong := fun list => longHeader_trimmedBytes list (Nat.le_of_not_lt hn) rest
    cases list with
    | false =>
      have hcode : (UInt8.ofNat (0x80 + 55 + byteLength n)).toNat = 0x80 + 55 + byteLength n :=
        toNat_byte (by omega)
      simp only [encodeHeader, Bool.false_eq_true, if_false, hn, List.cons_append, splitHeader,
        hcode]
      rw [if_neg (by omega), if_neg (by omega), if_pos (by omega),
        show 0x80 + 55 + byteLength n - 0xb7 = byteLength n by omega, hlong]
    | true =>
      have hcode : (UInt8.ofNat (0xc0 + 55 + byteLength n)).toNat = 0xc0 + 55 + byteLength n :=
        toNat_byte (by omega)
      simp only [encodeHeader, if_true, hn, if_false, List.cons_append, splitHeader, hcode]
      rw [if_neg (by omega), if_neg (by omega), if_neg (by omega), if_neg (by omega),
        show 0xc0 + 55 + byteLength n - 0xf7 = byteLength n by omega, hlong]

theorem byteLength_beValue {digits : List UInt8} (hne : digits ≠ []) (hhead : digits.head? ≠ some 0) :
    byteLength (beValue digits) = digits.length := by
  cases digits with
  | nil => exact absurd rfl hne
  | cons digit digits =>
    have hdigit : 1 ≤ digit.toNat := by
      rw [Nat.one_le_iff_ne_zero]
      intro hzero
      exact hhead (congrArg some (UInt8.toNat_inj.1 hzero))
    have hlow : 256 ^ digits.length ≤ beValue (digit :: digits) := by
      rw [beValue_cons]
      calc 256 ^ digits.length = 1 * 256 ^ digits.length := (Nat.one_mul _).symm
        _ ≤ digit.toNat * 256 ^ digits.length := Nat.mul_le_mul_right _ hdigit
        _ ≤ _ := Nat.le_add_right _ _
    have hpow : 256 ^ digits.length < 256 ^ byteLength (beValue (digit :: digits)) :=
      Nat.lt_of_le_of_lt hlow (lt_pow_byteLength _)
    have hlt := (Nat.pow_lt_pow_iff_right (by decide)).1 hpow
    have hle := byteLength_le (beValue_lt (digit :: digits))
    rw [List.length_cons] at hle ⊢
    omega

theorem trimmedBytes_beValue {digits : List UInt8} (hne : digits ≠ [])
    (hhead : digits.head? ≠ some 0) :
    trimmedBytes (beValue digits) = digits := by
  rw [trimmedBytes, byteLength_beValue hne hhead, beBytes_beValue]

theorem longHeader_eq_some {list : Bool} {width : ℕ} (hwidth : 0 < width)
    (hread : longHeader list width buf = some (h, rest)) :
    h.list = list ∧ 56 ≤ h.payloadLength ∧ byteLength h.payloadLength = width ∧
      buf = trimmedBytes h.payloadLength ++ rest := by
  simp only [longHeader] at hread
  split at hread
  · cases hread
  · rename_i hgood
    rw [not_or, not_or] at hgood
    obtain ⟨hlong, hhead, hvalue⟩ := hgood
    cases hread
    have hlength : (buf.take width).length = width := List.length_take_of_le (by omega)
    have hne : buf.take width ≠ [] := by
      intro hnil
      rw [hnil] at hlength
      exact absurd hlength (Nat.ne_of_lt hwidth)
    refine ⟨rfl, Nat.le_of_not_lt hvalue, ?_, ?_⟩
    · exact (byteLength_beValue hne hhead).trans hlength
    · rw [trimmedBytes_beValue hne hhead, List.take_append_drop]

theorem splitHeader_list {n : ℕ} (hread : splitHeader buf = some (⟨true, n⟩, rest)) :
    n < 2 ^ 64 ∧ buf = encodeHeader ⟨true, n⟩ ++ rest := by
  cases buf with
  | nil => cases hread
  | cons byte buf =>
    have hbyte : byte.toNat < 256 := byte.toNat_lt
    have hself : UInt8.ofNat byte.toNat = byte := UInt8.ofNat_toNat
    simp only [splitHeader] at hread
    split at hread
    · cases hread
    split at hread
    · split at hread
      · cases hread
      · cases hread
    split at hread
    · have hlong := longHeader_eq_some (by omega) hread
      cases hlong.1
    split at hread
    · simp only [Option.some.injEq, Prod.mk.injEq, Header.mk.injEq, true_and] at hread
      obtain ⟨hn, hrest⟩ := hread
      refine ⟨by omega, ?_⟩
      simp only [encodeHeader, if_true]
      rw [if_pos (by omega), show 0xc0 + n = byte.toNat by omega, hself, hrest]
      rfl
    · obtain ⟨-, hlow, hwidth, hbuf⟩ := longHeader_eq_some (by omega) hread
      have hwidth : byteLength n = byte.toNat - 0xf7 := hwidth
      have hlow : 56 ≤ n := hlow
      refine ⟨?_, ?_⟩
      · calc n < 256 ^ byteLength n := lt_pow_byteLength n
          _ ≤ 256 ^ 8 := Nat.pow_le_pow_right (by decide) (by omega)
          _ = 2 ^ 64 := by norm_num
      · simp only [encodeHeader, if_true]
        rw [if_neg (by omega), hwidth, show 0xc0 + 55 + (byte.toNat - 0xf7) = byte.toNat by omega,
          hself, List.cons_append, ← hbuf]

def IsList (bytes : List UInt8) : Prop :=
  ∃ payload : List UInt8, payload.length < 2 ^ 64 ∧
    bytes = encodeHeader ⟨true, payload.length⟩ ++ payload

theorem length_encodeHeader (h : Header) :
    (encodeHeader h).length + h.payloadLength = h.lengthWithPayload := by
  rw [encodeHeader, Header.lengthWithPayload]
  split
  · rfl
  · rw [List.length_cons, length_trimmedBytes, Nat.add_comm 1]

theorem decodeHeader_list (hlist : h.list = true) (hread : decodeHeader buf = some (h, rest)) :
    h.lengthWithPayload ≤ buf.length ∧ IsList (buf.take h.lengthWithPayload) := by
  obtain ⟨list, n⟩ := h
  cases hlist
  obtain ⟨hsplit, hpayload⟩ := Option.filter_eq_some_iff.1 hread
  obtain ⟨hlt, rfl⟩ := splitHeader_list hsplit
  have hpayload : n ≤ rest.length := of_decide_eq_true hpayload
  have hlength := length_encodeHeader ⟨true, n⟩
  have htake : (rest.take n).length = n := List.length_take_of_le hpayload
  constructor
  · rw [List.length_append]
    simp only at hlength
    omega
  · refine ⟨rest.take n, by rw [htake]; exact hlt, ?_⟩
    rw [← hlength, List.take_length_add_append, htake]

theorem decodeHeader_of_isList (h : IsList bytes) (rest : List UInt8) :
    ∃ header payload, decodeHeader (bytes ++ rest) = some (header, payload) ∧
      header.list = true ∧ header.lengthWithPayload = bytes.length := by
  obtain ⟨payload, hlt, rfl⟩ := h
  refine ⟨⟨true, payload.length⟩, payload ++ rest, ?_, rfl, ?_⟩
  · rw [decodeHeader, List.append_assoc,
      splitHeader_encodeHeader hlt (fun hstring => by cases hstring)]
    simp
  · rw [List.length_append, ← length_encodeHeader]

theorem decodeHeader_small {byte : UInt8} (h : byte.toNat < 0x80) (rest : List UInt8) :
    decodeHeader (byte :: rest) = some (⟨false, 1⟩, byte :: rest) := by
  simp [decodeHeader, splitHeader, h]

theorem IsList.head (h : IsList bytes) : ∃ byte rest, bytes = byte :: rest ∧ 0xc0 ≤ byte.toNat := by
  obtain ⟨payload, hlt, rfl⟩ := h
  have hwidth : byteLength payload.length ≤ 8 := byteLength_le hlt
  simp only [encodeHeader, if_true]
  split
  · exact ⟨_, _, rfl, by rw [toNat_byte (by omega)]; omega⟩
  · exact ⟨_, _, rfl, by rw [toNat_byte (by omega)]; omega⟩

def decodeString (buf : List UInt8) : Option (List UInt8 × List UInt8) :=
  match splitHeader buf with
  | some (⟨false, n⟩, rest) => some (rest.take n, rest.drop n)
  | _ => none

theorem decodeString_of_split (h : splitHeader buf = some (⟨false, bytes.length⟩, bytes ++ rest)) :
    decodeString buf = some (bytes, rest) := by
  rw [decodeString, h]
  simp only [List.take_left, List.drop_left]

theorem decodeString_encodeString (hlt : bytes.length < 2 ^ 64) (rest : List UInt8) :
    decodeString (encodeString bytes ++ rest) = some (bytes, rest) := by
  match bytes, hlt with
  | [], hlt =>
    rw [encodeString, List.append_assoc]
    · refine decodeString_of_split (splitHeader_encodeHeader hlt ?_)
      intro _ hone
      cases hone
    · intro byte hsingle
      cases hsingle
  | [byte], hlt =>
    rw [encodeString]
    by_cases hbyte : byte.toNat < 0x80
    · rw [if_pos hbyte]
      refine decodeString_of_split ?_
      simp only [List.singleton_append, splitHeader, hbyte, if_true]
      rfl
    · rw [if_neg hbyte, List.append_assoc]
      refine decodeString_of_split (splitHeader_encodeHeader hlt ?_)
      intro _ _
      simpa using hbyte
  | first :: second :: bytes, hlt =>
    rw [encodeString, List.append_assoc]
    · refine decodeString_of_split (splitHeader_encodeHeader hlt ?_)
      intro _ hone
      have hone : bytes.length + 2 = 1 := hone
      omega
    · intro byte hsingle
      cases hsingle

theorem encodeString_ne_nil (bytes : List UInt8) : encodeString bytes ≠ [] := by
  have hheader : ∀ h, encodeHeader h ≠ [] := by
    intro h
    rw [encodeHeader]
    split
    · exact List.cons_ne_nil _ _
    · exact List.cons_ne_nil _ _
  rw [encodeString.eq_def]
  split
  · split
    · exact List.cons_ne_nil _ _
    · simp [hheader]
  · simp [hheader]

theorem length_le_encodeString (bytes : List UInt8) : bytes.length ≤ (encodeString bytes).length := by
  rw [encodeString.eq_def]
  split
  · split
    · exact Nat.le_refl _
    · simp
  · simp

theorem length_encodeHeader_le (hlt : h.payloadLength < 2 ^ 64) : (encodeHeader h).length ≤ 9 := by
  have hwidth : byteLength h.payloadLength ≤ 8 := byteLength_le hlt
  rw [encodeHeader]
  split
  · simp
  · rw [List.length_cons, length_trimmedBytes]
    omega

theorem length_encodeString_le (hlt : bytes.length < 2 ^ 64) :
    (encodeString bytes).length ≤ bytes.length + 9 := by
  have hheader : (encodeHeader ⟨false, bytes.length⟩).length ≤ 9 := length_encodeHeader_le hlt
  rw [encodeString.eq_def]
  split
  · split
    · simp
    · rename_i byte _ _
      have hheader : (encodeHeader ⟨false, 1⟩).length ≤ 9 := hheader
      rw [List.length_append]
      omega
  · rw [List.length_append]
    omega

theorem length_encodeStrings_le {bound : ℕ} (hbound : bound < 2 ^ 64)
    (hitems : ∀ item ∈ items, item.length ≤ bound) :
    (encodeStrings items).length ≤ items.length * (bound + 9) := by
  induction items with
  | nil => simp [encodeStrings]
  | cons item items ih =>
    obtain ⟨hitem, hitems⟩ := List.forall_mem_cons.1 hitems
    have hfirst := length_encodeString_le (Nat.lt_of_le_of_lt hitem hbound)
    have hrest := ih hitems
    rw [encodeStrings, List.flatMap_cons, List.length_append, List.length_cons, Nat.succ_mul]
    rw [encodeStrings] at hrest
    omega

theorem encodeStrings_inj {items' : List (List UInt8)} (hlt : (encodeStrings items).length < 2 ^ 64)
    (h : encodeStrings items = encodeStrings items') : items = items' := by
  induction items generalizing items' with
  | nil =>
    cases items' with
    | nil => rfl
    | cons item' items' =>
      have hnil := (List.append_eq_nil_iff.1 h.symm).1
      exact absurd hnil (encodeString_ne_nil item')
  | cons item items ih =>
    cases items' with
    | nil =>
      have hnil := (List.append_eq_nil_iff.1 h).1
      exact absurd hnil (encodeString_ne_nil item)
    | cons item' items' =>
      have hcons : ∀ item items, encodeStrings (item :: items) =
          encodeString item ++ encodeStrings items := fun _ _ => List.flatMap_cons
      have hlength : (encodeStrings (item :: items)).length =
          (encodeStrings (item' :: items')).length := congrArg List.length h
      rw [hcons, hcons, List.length_append, List.length_append] at hlength
      rw [hcons, List.length_append] at hlt
      have hitem := length_le_encodeString item
      have hitem' := length_le_encodeString item'
      have hread := decodeString_encodeString (show item.length < 2 ^ 64 by omega)
        (encodeStrings items)
      have hread' := decodeString_encodeString (show item'.length < 2 ^ 64 by omega)
        (encodeStrings items')
      rw [← hcons, h, hcons, hread'] at hread
      obtain ⟨hsame, hrest⟩ := Prod.mk.inj (Option.some.inj hread)
      rw [hsame, ih (by omega) hrest.symm]

theorem encodeList_inj {items' : List (List UInt8)} (hlt : (encodeStrings items).length < 2 ^ 64)
    (hlt' : (encodeStrings items').length < 2 ^ 64) (h : encodeList items = encodeList items') :
    items = items' := by
  have hread : splitHeader (encodeList items) =
      some (⟨true, (encodeStrings items).length⟩, encodeStrings items) :=
    splitHeader_encodeHeader hlt (fun hlist => by cases hlist)
  have hread' : splitHeader (encodeList items') =
      some (⟨true, (encodeStrings items').length⟩, encodeStrings items') :=
    splitHeader_encodeHeader hlt' (fun hlist => by cases hlist)
  rw [h, hread'] at hread
  have hpayload : encodeStrings items' = encodeStrings items :=
    congrArg Prod.snd (Option.some.inj hread)
  exact encodeStrings_inj hlt hpayload.symm

end Rlp
