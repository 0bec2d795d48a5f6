import Cadvisor.Lib.Str

/-!
# Lossy UTF-8 decoding

Reading bytes as UTF-8 with replacement characters undoes the encoding of every
text, and an ASCII byte always stands for itself: what is in front of it and
what is behind it are read apart.
-/

set_option autoImplicit false

namespace Str

theorem isContinuation_iff (b : UInt8) :
    isContinuation b = true ↔ 128 ≤ b.toNat ∧ b.toNat ≤ 191 := by
  simp [isContinuation, UInt8.le_iff_toNat_le]

theorem secondOfThree_iff (lead b : UInt8) :
    secondOfThree lead b = true ↔
      (if lead.toNat = 224 then 160 else 128) ≤ b.toNat ∧
        b.toNat ≤ (if lead.toNat = 237 then 159 else 191) := by
  have first : lead = 0xE0 ↔ lead.toNat = 224 := UInt8.toNat_inj.symm
  have second : lead = 0xED ↔ lead.toNat = 237 := UInt8.toNat_inj.symm
  unfold secondOfThree
  simp only [first, second]
  split_ifs
  · omega
  · simp [UInt8.le_iff_toNat_le]
  · simp [UInt8.le_iff_toNat_le]
  · exact isContinuation_iff b

theorem secondOfFour_iff (lead b : UInt8) :
    secondOfFour lead b = true ↔
      (if lead.toNat = 240 then 144 else 128) ≤ b.toNat ∧
        b.toNat ≤ (if lead.toNat = 244 then 143 else 191) := by
  have first : lead = 0xF0 ↔ lead.toNat = 240 := UInt8.toNat_inj.symm
  have second : lead = 0xF4 ↔ lead.toNat = 244 := UInt8.toNat_inj.symm
  unfold secondOfFour
  simp only [first, second]
  split_ifs
  · omega
  · simp [UInt8.le_iff_toNat_le]
  · simp [UInt8.le_iff_toNat_le]
  · exact isContinuation_iff b

/-! ## One well-formed character -/

theorem notAscii_of_le {b : UInt8} (le : 128 ≤ b.toNat) : ¬ b < 0x80 := by
  rw [UInt8.lt_iff_toNat_lt]
  simp
  omega

theorem leadOfTwo_iff (b : UInt8) :
    0xC2 ≤ b ∧ b ≤ 0xDF ↔ 194 ≤ b.toNat ∧ b.toNat ≤ 223 := by
  rw [UInt8.le_iff_toNat_le, UInt8.le_iff_toNat_le]
  rfl

theorem leadOfThree_iff (b : UInt8) :
    0xE0 ≤ b ∧ b ≤ 0xEF ↔ 224 ≤ b.toNat ∧ b.toNat ≤ 239 := by
  rw [UInt8.le_iff_toNat_le, UInt8.le_iff_toNat_le]
  rfl

theorem leadOfFour_iff (b : UInt8) :
    0xF0 ≤ b ∧ b ≤ 0xF4 ↔ 240 ≤ b.toNat ∧ b.toNat ≤ 244 := by
  rw [UInt8.le_iff_toNat_le, UInt8.le_iff_toNat_le]
  rfl

theorem decodeLead_one {b : UInt8} (ascii : b < 0x80) (tail : List UInt8) :
    decodeLead b tail = (Char.ofNat b.toNat, 0) := by
  unfold decodeLead
  rw [if_pos ascii]

theorem decodeLead_two {b c : UInt8} (low : 194 ≤ b.toNat) (high : b.toNat ≤ 223)
    (second : isContinuation c = true) (tail : List UInt8) :
    decodeLead b (c :: tail) = (Char.ofNat (b.toNat % 32 * 64 + c.toNat % 64), 1) := by
  have isTwo : 0xC2 ≤ b ∧ b ≤ 0xDF := (leadOfTwo_iff b).mpr ⟨low, high⟩
  rw [decodeLead, if_neg (notAscii_of_le (by omega)), if_pos isTwo]
  simp only [second, if_true]

theorem decodeLead_three {b c d : UInt8} (low : 224 ≤ b.toNat) (high : b.toNat ≤ 239)
    (second : secondOfThree b c = true) (third : isContinuation d = true) (tail : List UInt8) :
    decodeLead b (c :: d :: tail) =
      (Char.ofNat (b.toNat % 16 * 4096 + c.toNat % 64 * 64 + d.toNat % 64), 2) := by
  have notTwo : ¬ (0xC2 ≤ b ∧ b ≤ 0xDF) := by
    rw [leadOfTwo_iff]
    omega
  have isThree : 0xE0 ≤ b ∧ b ≤ 0xEF := (leadOfThree_iff b).mpr ⟨low, high⟩
  rw [decodeLead, if_neg (notAscii_of_le (by omega)), if_neg notTwo, if_pos isThree]
  simp only [second, third, not_true_eq_false, if_false]

theorem decodeLead_four {b c d e : UInt8} (low : 240 ≤ b.toNat) (high : b.toNat ≤ 244)
    (second : secondOfFour b c = true) (third : isContinuation d = true)
    (fourth : isContinuation e = true) (tail : List UInt8) :
    decodeLead b (c :: d :: e :: tail) =
      (Char.ofNat (b.toNat % 8 * 262144 + c.toNat % 64 * 4096 + d.toNat % 64 * 64 +
        e.toNat % 64), 3) := by
  have notTwo : ¬ (0xC2 ≤ b ∧ b ≤ 0xDF) := by
    rw [leadOfTwo_iff]
    omega
  have notThree : ¬ (0xE0 ≤ b ∧ b ≤ 0xEF) := by
    rw [leadOfThree_iff]
    omega
  have isFour : 0xF0 ≤ b ∧ b ≤ 0xF4 := (leadOfFour_iff b).mpr ⟨low, high⟩
  rw [decodeLead, if_neg (notAscii_of_le (by omega)), if_neg notTwo, if_neg notThree,
    if_pos isFour]
  simp only [second, third, fourth, not_true_eq_false, if_false]

theorem toNat_byte {n : Nat} (small : n < 256) : (UInt8.ofNat n).toNat = n := by
  rw [UInt8.toNat_ofNat']
  omega

theorem decodeLead_utf8EncodeChar (c : Char) :
    ∃ lead rest, String.utf8EncodeChar c = lead :: rest ∧
      ∀ tail, decodeLead lead (rest ++ tail) = (c, rest.length) := by
  have valid : c.val.toNat < 0xD800 ∨ 0xDFFF < c.val.toNat ∧ c.val.toNat < 0x110000 := c.valid
  have back : ∀ n, n = c.val.toNat → Char.ofNat n = c := by
    rintro n rfl
    exact Char.ofNat_toNat c
  generalize codeIs : c.val.toNat = v at valid back
  rw [String.utf8EncodeChar]
  simp only [codeIs]
  by_cases one : v ≤ 0x7F
  · rw [if_pos one]
    have byte : (UInt8.ofNat v).toNat = v := toNat_byte (by omega)
    refine ⟨_, _, rfl, fun tail => ?_⟩
    rw [decodeLead_one, byte, back v rfl]
    · rfl
    · rw [UInt8.lt_iff_toNat_lt, byte]
      exact Nat.lt_succ_of_le one
  rw [if_neg one]
  by_cases two : v ≤ 0x7FF
  · rw [if_pos two]
    have first : (UInt8.ofNat (v / 64 % 32 + 192)).toNat = v / 64 % 32 + 192 :=
      toNat_byte (by omega)
    have second : (UInt8.ofNat (v % 64 + 128)).toNat = v % 64 + 128 := toNat_byte (by omega)
    refine ⟨_, _, rfl, fun tail => ?_⟩
    rw [List.singleton_append, decodeLead_two, first, second, back _ (by omega)]
    · rfl
    · omega
    · omega
    · rw [isContinuation_iff, second]
      omega
  rw [if_neg two]
  by_cases three : v ≤ 0xFFFF
  · rw [if_pos three]
    have first : (UInt8.ofNat (v / 4096 % 16 + 224)).toNat = v / 4096 % 16 + 224 :=
      toNat_byte (by omega)
    have second : (UInt8.ofNat (v / 64 % 64 + 128)).toNat = v / 64 % 64 + 128 :=
      toNat_byte (by omega)
    have third : (UInt8.ofNat (v % 64 + 128)).toNat = v % 64 + 128 := toNat_byte (by omega)
    refine ⟨_, _, rfl, fun tail => ?_⟩
    rw [List.cons_append, List.singleton_append, decodeLead_three, first, second, third,
      back _ (by omega)]
    · rfl
    · omega
    · omega
    · rw [secondOfThree_iff, first, second]
      split_ifs <;> omega
    · rw [isContinuation_iff, third]
      omega
  · rw [if_neg three]
    have first : (UInt8.ofNat (v / 262144 % 8 + 240)).toNat = v / 262144 % 8 + 240 :=
      toNat_byte (by omega)
    have second : (UInt8.ofNat (v / 4096 % 64 + 128)).toNat = v / 4096 % 64 + 128 :=
      toNat_byte (by omega)
    have third : (UInt8.ofNat (v / 64 % 64 + 128)).toNat = v / 64 % 64 + 128 :=
      toNat_byte (by omega)
    have fourth : (UInt8.ofNat (v % 64 + 128)).toNat = v % 64 + 128 := toNat_byte (by omega)
    refine ⟨_, _, rfl, fun tail => ?_⟩
    rw [List.cons_append, List.cons_append, List.singleton_append, decodeLead_four, first, second,
      third, fourth, back _ (by omega)]
    · rfl
    · omega
    · omega
    · rw [secondOfFour_iff, first, second]
      split_ifs <;> omega
    · rw [isContinuation_iff, third]
      omega
    · rw [isContinuation_iff, fourth]
      omega

/-! ## Whole texts -/

def decoded (bytes : List UInt8) : List Char := decodeLossy bytes.length bytes

theorem decodeLead_length (lead : UInt8) (rest : List UInt8) :
    (decodeLead lead rest).2 ≤ rest.length := by
  unfold decodeLead
  split_ifs
  · exact Nat.zero_le _
  · split
    · split_ifs <;> simp
    · simp
  · split
    · split_ifs <;> simp
    · split_ifs <;> simp
    · simp
  · split
    · split_ifs <;> simp
    · split_ifs <;> simp
    · split_ifs <;> simp
    · simp
  · exact Nat.zero_le _

theorem decodeLossy_of_le {fuel : Nat} {bytes : List UInt8} (enough : bytes.length ≤ fuel) :
    decodeLossy fuel bytes = decoded bytes := by
  unfold decoded
  induction fuel using Nat.strong_induction_on generalizing bytes with
  | _ fuel ih =>
      cases bytes with
      | nil => cases fuel <;> rfl
      | cons lead rest =>
          cases fuel with
          | zero => simp at enough
          | succ fuel =>
              simp only [List.length_cons, Nat.add_le_add_iff_right] at enough
              have short : (rest.drop (decodeLead lead rest).2).length ≤ rest.length := by
                rw [List.length_drop]
                exact Nat.sub_le _ _
              rw [List.length_cons, decodeLossy, decodeLossy,
                ih fuel (Nat.lt_succ_self fuel) (short.trans enough),
                ih rest.length (Nat.lt_succ_of_le enough) short]

theorem decoded_cons (lead : UInt8) (rest : List UInt8) :
    decoded (lead :: rest) =
      (decodeLead lead rest).1 :: decoded (rest.drop (decodeLead lead rest).2) := by
  rw [decoded, List.length_cons, decodeLossy, decodeLossy_of_le]
  rw [List.length_drop]
  exact Nat.sub_le _ _

theorem fromUtf8Lossy_eq (bytes : List UInt8) :
    fromUtf8Lossy bytes = String.ofList (decoded bytes) := rfl

theorem decoded_encode (cs : List Char) : decoded (cs.flatMap String.utf8EncodeChar) = cs := by
  induction cs with
  | nil => rfl
  | cons c rest ih =>
      obtain ⟨lead, more, bytes, lead_decodes⟩ := decodeLead_utf8EncodeChar c
      rw [List.flatMap_cons, bytes, List.cons_append, decoded_cons, lead_decodes,
        List.drop_left, ih]

theorem fromUtf8Lossy_utf8Bytes (s : String) : fromUtf8Lossy (utf8Bytes s) = s := by
  rw [fromUtf8Lossy_eq, utf8Bytes, decoded_encode, String.ofList_toList]

/-! ## Around an ASCII byte -/

theorem ascii_toNat {a : UInt8} (ascii : a < 0x80) : a.toNat < 128 := UInt8.lt_iff_toNat_lt.mp ascii

theorem not_isContinuation_of_ascii {a : UInt8} (ascii : a < 0x80) :
    ¬ isContinuation a = true := by
  have small := ascii_toNat ascii
  rw [isContinuation_iff]
  omega

theorem not_secondOfThree_of_ascii {a : UInt8} (ascii : a < 0x80) (lead : UInt8) :
    ¬ secondOfThree lead a = true := by
  have small := ascii_toNat ascii
  rw [secondOfThree_iff]
  split_ifs <;> omega

theorem not_secondOfFour_of_ascii {a : UInt8} (ascii : a < 0x80) (lead : UInt8) :
    ¬ secondOfFour lead a = true := by
  have small := ascii_toNat ascii
  rw [secondOfFour_iff]
  split_ifs <;> omega

theorem toNat_ofNat_ascii {a : UInt8} (ascii : a < 0x80) :
    (Char.ofNat a.toNat).toNat = a.toNat := by
  have small := ascii_toNat ascii
  have valid : a.toNat.isValidChar := Or.inl (by omega)
  rw [Char.ofNat, dif_pos valid]
  rfl

theorem decodeLead_append_ascii {a : UInt8} (ascii : a < 0x80) (lead : UInt8)
    (rest tail : List UInt8) : decodeLead lead (rest ++ a :: tail) = decodeLead lead rest := by
  have noContinuation := not_isContinuation_of_ascii ascii
  have noThree := not_secondOfThree_of_ascii ascii lead
  have noFour := not_secondOfFour_of_ascii ascii lead
  unfold decodeLead
  split_ifs
  · rfl
  · cases rest with
    | nil => simp [noContinuation]
    | cons b rest => rfl
  · match rest with
    | [] => cases tail <;> simp [noThree]
    | [b] => cases allowed : secondOfThree lead b <;> simp [noContinuation, allowed]
    | b :: c :: rest => rfl
  · match rest with
    | [] =>
        match tail with
        | [] => simp [noFour]
        | [x] => simp [noFour]
        | x :: y :: tail => simp [noFour]
    | [b] =>
        cases allowed : secondOfFour lead b <;> cases tail <;> simp [noContinuation, allowed]
    | [b, c] =>
        cases allowed : secondOfFour lead b
        · simp [allowed]
        · cases goesOn : isContinuation c <;> simp [noContinuation, allowed, goesOn]
    | b :: c :: d :: rest => rfl
  · rfl

/-- What is in front of an ASCII byte and what is behind it are decoded apart. -/
theorem decoded_append_ascii {a : UInt8} (ascii : a < 0x80) (front back : List UInt8) :
    decoded (front ++ a :: back) = decoded front ++ Char.ofNat a.toNat :: decoded back := by
  induction lengthIs : front.length using Nat.strong_induction_on generalizing front with
  | _ n ih =>
      cases front with
      | nil =>
          rw [List.nil_append, decoded_cons, decodeLead_one ascii]
          rfl
      | cons lead rest =>
          have within := decodeLead_length lead rest
          have shorter : (rest.drop (decodeLead lead rest).2).length < n := by
            rw [List.length_drop, ← lengthIs, List.length_cons]
            omega
          rw [List.cons_append, decoded_cons, decoded_cons, decodeLead_append_ascii ascii,
            List.drop_append_of_le_length within, ih _ shorter _ rfl, List.cons_append]

/-! ## Valid UTF-8 only -/

/-- `String::from_utf8`: what is not the encoding of a text is refused. -/
def fromUtf8 (bytes : List UInt8) : Option String :=
  if utf8Bytes (fromUtf8Lossy bytes) = bytes then some (fromUtf8Lossy bytes) else none

theorem fromUtf8_eq_some_iff (bytes : List UInt8) (s : String) :
    fromUtf8 bytes = some s ↔ utf8Bytes s = bytes := by
  unfold fromUtf8
  constructor
  · intro read
    split_ifs at read with valid
    rw [← Option.some.inj read]
    exact valid
  · intro encodes
    rw [← encodes, fromUtf8Lossy_utf8Bytes, if_pos rfl]

/-- Between valid text that meets it with ASCII characters, a stretch of bytes decides. -/
theorem fromUtf8_between {a b : Char} (aAscii : a.toNat < 128) (bAscii : b.toNat < 128)
    (front back : List Char) (bytes : List UInt8) :
    fromUtf8 (utf8Bytes (String.ofList (front ++ [a])) ++ bytes ++
        utf8Bytes (String.ofList (b :: back))) =
      (fromUtf8 bytes).map fun s => String.ofList (front ++ a :: (s.toList ++ b :: back)) := by
  have encodes (c : Char) (ascii : c.toNat < 128) :
      String.utf8EncodeChar c = [UInt8.ofNat c.toNat] ∧ UInt8.ofNat c.toNat < 0x80 ∧
        Char.ofNat (UInt8.ofNat c.toNat).toNat = c := by
    have small : (UInt8.ofNat c.toNat).toNat = c.toNat := toNat_byte (by omega)
    refine ⟨utf8EncodeChar_ascii ascii, UInt8.lt_iff_toNat_lt.mpr ?_, ?_⟩
    · rw [small]
      exact ascii
    · rw [small, Char.ofNat_toNat]
  obtain ⟨aCode, aByte, aBack⟩ := encodes a aAscii
  obtain ⟨bCode, bByte, bBack⟩ := encodes b bAscii
  have whole : utf8Bytes (String.ofList (front ++ [a])) ++ bytes ++
      utf8Bytes (String.ofList (b :: back)) =
      front.flatMap String.utf8EncodeChar ++ UInt8.ofNat a.toNat ::
        (bytes ++ UInt8.ofNat b.toNat :: back.flatMap String.utf8EncodeChar) := by
    simp [utf8Bytes, aCode, bCode]
  have decodedWhole : decoded (front.flatMap String.utf8EncodeChar ++ UInt8.ofNat a.toNat ::
      (bytes ++ UInt8.ofNat b.toNat :: back.flatMap String.utf8EncodeChar)) =
      front ++ a :: (decoded bytes ++ b :: back) := by
    rw [decoded_append_ascii aByte, decoded_append_ascii bByte, decoded_encode, decoded_encode,
      aBack, bBack]
  have same : utf8Bytes (String.ofList (front ++ a :: (decoded bytes ++ b :: back))) =
      front.flatMap String.utf8EncodeChar ++ UInt8.ofNat a.toNat ::
        (bytes ++ UInt8.ofNat b.toNat :: back.flatMap String.utf8EncodeChar) ↔
      utf8Bytes (String.ofList (decoded bytes)) = bytes := by
    simp only [utf8Bytes, String.toList_ofList, List.flatMap_append, List.flatMap_cons, aCode,
      bCode]
    simp
  rw [whole, fromUtf8, fromUtf8, fromUtf8Lossy_eq, fromUtf8Lossy_eq, decodedWhole]
  simp only [same]
  split
  · rw [Option.map_some, String.toList_ofList]
  · rfl

end Str
