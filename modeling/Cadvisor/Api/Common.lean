import Cadvisor.Lib.Utf8
import Cadvisor.Model.GoTime

/-!
# Query parameters

Lenient access: a parameter that is absent or does not parse has its default.
-/

set_option autoImplicit false

namespace Cadvisor

def hexDigit (b : UInt8) : Option UInt8 :=
  if 0x30 ≤ b ∧ b ≤ 0x39 then some (b - 0x30)
  else if 0x41 ≤ b ∧ b ≤ 0x46 then some (b - 0x37)
  else if 0x61 ≤ b ∧ b ≤ 0x66 then some (b - 0x57)
  else none

/-- `u8::from_str_radix` on the two bytes behind a percent sign, which takes a
plus sign in front of one digit. -/
def hexByte (high low : UInt8) : Option UInt8 :=
  match hexDigit high, hexDigit low with
  | some h, some l => some (h * 16 + l)
  | none, some l => if high = 0x2B then some l else none
  | _, none => none

def hexAhead : List UInt8 → Option UInt8
  | high :: low :: _ => hexByte high low
  | _ => none

/-- The loop of `url_decode`; `skip` counts the digits already read. -/
def urlDecodeFrom : Nat → List UInt8 → List UInt8
  | _, [] => []
  | skip + 1, _ :: rest => urlDecodeFrom skip rest
  | 0, b :: rest =>
      if b = 0x25 then
        match hexAhead rest with
        | some v => v :: urlDecodeFrom 2 rest
        | none => b :: urlDecodeFrom 0 rest
      else if b = 0x2B then 0x20 :: urlDecodeFrom 0 rest
      else b :: urlDecodeFrom 0 rest

def urlDecode (s : String) : String :=
  Str.fromUtf8Lossy (urlDecodeFrom 0 (Str.utf8Bytes s))

structure Params where
  pairs : List (String × String)

namespace Params

def parse (raw : Option String) : Params :=
  match raw with
  | none => ⟨[]⟩
  | some raw => ⟨(Str.split raw '&').map fun pair =>
      let (k, v) := (Str.splitOnce pair '=').getD (pair, "")
      (urlDecode k, urlDecode v)⟩

def get (params : Params) (key : String) : Option String :=
  (params.pairs.find? fun pair => pair.1 == key).map Prod.snd

def getBool (params : Params) (key : String) : Bool :=
  ((params.get key).map (· == "true")).getD false

/-- `serde_json::from_value` hands over the string it owns. -/
def getTime (parseFromRfc3339 : String → Option GoTime) (params : Params) (key : String) :
    GoTime :=
  ((params.get key).bind fun v => GoTime.deserialize parseFromRfc3339 (.owned v)).getD GoTime.zero

theorem getTime_eq_zero (parseFromRfc3339 : String → Option GoTime) (params : Params)
    (key : String) : params.getTime parseFromRfc3339 key = GoTime.zero := by
  unfold getTime
  cases params.get key with
  | none => rfl
  | some text => rfl

end Params

/-! ## Encoded text -/

/-- `encoded` is a URL encoding of `plain`: a byte stands for itself unless it is
a percent or plus sign, a plus sign for a space, two digits for any byte. -/
inductive UrlEncodes : List UInt8 → List UInt8 → Prop where
  | done : UrlEncodes [] []
  | literal (b : UInt8) (plain encoded : List UInt8) (notPercent : b ≠ 0x25)
      (notPlus : b ≠ 0x2B) (tail : UrlEncodes plain encoded) :
      UrlEncodes (b :: plain) (b :: encoded)
  | space (plain encoded : List UInt8) (tail : UrlEncodes plain encoded) :
      UrlEncodes (0x20 :: plain) (0x2B :: encoded)
  | percent (b high low h l : UInt8) (plain encoded : List UInt8)
      (highDigit : hexDigit high = some h) (lowDigit : hexDigit low = some l)
      (value : b = h * 16 + l) (tail : UrlEncodes plain encoded) :
      UrlEncodes (b :: plain) (0x25 :: high :: low :: encoded)

theorem urlDecodeFrom_of_encodes {plain encoded : List UInt8}
    (encodes : UrlEncodes plain encoded) : urlDecodeFrom 0 encoded = plain := by
  induction encodes with
  | done => rfl
  | literal b plain encoded notPercent notPlus _ ih =>
      rw [urlDecodeFrom, if_neg notPercent, if_neg notPlus, ih]
  | space plain encoded _ ih =>
      rw [urlDecodeFrom, if_neg (by decide), if_pos rfl, ih]
  | percent b high low h l plain encoded highDigit lowDigit value _ ih =>
      have ahead : hexAhead (high :: low :: encoded) = some b := by
        simp only [hexAhead, hexByte, highDigit, lowDigit, value]
      rw [urlDecodeFrom, if_pos rfl, ahead]
      simp only [urlDecodeFrom, ih]

theorem urlDecode_of_encodes (plain encoded : String)
    (encodes : UrlEncodes (Str.utf8Bytes plain) (Str.utf8Bytes encoded)) :
    urlDecode encoded = plain := by
  rw [urlDecode, urlDecodeFrom_of_encodes encodes, Str.fromUtf8Lossy_utf8Bytes]

/-! ## The reference decoder -/

def digitPair (high low : UInt8) : Option UInt8 := do
  let h ← hexDigit high
  let l ← hexDigit low
  some (h * 16 + l)

def literalByte (b : UInt8) : UInt8 := if b = 0x2B then 0x20 else b

/-- What a form-urlencoded text denotes: a percent sign and two digits are one
byte, and nothing else is special but the plus sign. -/
def formBytes : List UInt8 → List UInt8
  | b :: high :: low :: tail =>
      match if b = 0x25 then digitPair high low else none with
      | some v => v :: formBytes tail
      | none => literalByte b :: formBytes (high :: low :: tail)
  | short => short.map literalByte

def formDecode (s : String) : String := Str.fromUtf8Lossy (formBytes (Str.utf8Bytes s))

def SignedEscape (bytes : List UInt8) : Prop :=
  ∃ front digit back, bytes = front ++ 0x25 :: 0x2B :: digit :: back ∧
    (hexDigit digit).isSome = true

theorem signedEscape_cons (b : UInt8) (rest : List UInt8) :
    SignedEscape (b :: rest) ↔
      (b = 0x25 ∧ ∃ digit back, rest = 0x2B :: digit :: back ∧ (hexDigit digit).isSome = true) ∨
        SignedEscape rest := by
  constructor
  · rintro ⟨front, digit, back, split, isDigit⟩
    cases front with
    | nil =>
        obtain ⟨isPercent, restIs⟩ := List.cons.inj split
        exact Or.inl ⟨isPercent, digit, back, restIs, isDigit⟩
    | cons c front => exact Or.inr ⟨front, digit, back, (List.cons.inj split).2, isDigit⟩
  · rintro (⟨rfl, digit, back, rfl, isDigit⟩ | ⟨front, digit, back, rfl, isDigit⟩)
    · exact ⟨[], digit, back, rfl, isDigit⟩
    · exact ⟨b :: front, digit, back, rfl, isDigit⟩

theorem ne_of_hexDigit {b v : UInt8} (digit : hexDigit b = some v) : b ≠ 0x25 ∧ b ≠ 0x2B := by
  constructor
  · rintro rfl
    cases digit
  · rintro rfl
    cases digit

theorem formBytes_cons (b : UInt8) (rest : List UInt8) :
    formBytes (b :: rest) =
      match rest with
      | high :: low :: tail =>
          match if b = 0x25 then digitPair high low else none with
          | some v => v :: formBytes tail
          | none => literalByte b :: formBytes rest
      | _ => literalByte b :: formBytes rest := by
  match rest with
  | [] => rfl
  | [_] => rfl
  | high :: low :: tail => rw [formBytes]

/-- Two readings of one text agree, or part at a signed escape: the first has the
value of the digit where the second has the percent sign. -/
def AgreeUpToSign (bytes code reference : List UInt8) : Prop :=
  ¬ SignedEscape bytes ∧ code = reference ∨
    SignedEscape bytes ∧ ∃ (read : List UInt8) (v : UInt8) (more other : List UInt8),
      v < 16 ∧ code = read ++ v :: more ∧ reference = read ++ 0x25 :: other

theorem AgreeUpToSign.cons {rest code reference bytes : List UInt8}
    (agree : AgreeUpToSign rest code reference) (same : SignedEscape bytes ↔ SignedEscape rest)
    (b : UInt8) : AgreeUpToSign bytes (b :: code) (b :: reference) := by
  rcases agree with ⟨plain, equal⟩ | ⟨signed, read, v, more, other, small, codeIs, referenceIs⟩
  · exact Or.inl ⟨same.not.mpr plain, congrArg (b :: ·) equal⟩
  · refine Or.inr ⟨same.mpr signed, b :: read, v, more, other, small, ?_, ?_⟩
    · rw [codeIs, List.cons_append]
    · rw [referenceIs, List.cons_append]

theorem hexDigit_lt {b v : UInt8} (digit : hexDigit b = some v) : v < 16 := by
  have offset : ∀ base first last : UInt8, base ≤ first → last - base < 16 → first ≤ b ∧ b ≤ last →
      b - base < 16 := by
    intro base first last low high range
    have bounds : base ≤ b := UInt8.le_trans low range.1
    rw [UInt8.lt_iff_toNat_lt] at high ⊢
    rw [UInt8.toNat_sub_of_le _ _ (UInt8.le_trans bounds range.2)] at high
    rw [UInt8.toNat_sub_of_le _ _ bounds]
    have atMost := UInt8.le_iff_toNat_le.mp range.2
    omega
  unfold hexDigit at digit
  split_ifs at digit with decimal upper lower
  · rw [← Option.some.inj digit]
    exact offset 0x30 0x30 0x39 (by decide) (by decide) decimal
  · rw [← Option.some.inj digit]
    exact offset 0x37 0x41 0x46 (by decide) (by decide) upper
  · rw [← Option.some.inj digit]
    exact offset 0x57 0x61 0x66 (by decide) (by decide) lower

theorem urlDecodeFrom_percent (rest : List UInt8) :
    urlDecodeFrom 0 (0x25 :: rest) =
      match hexAhead rest with
      | some v => v :: urlDecodeFrom 2 rest
      | none => 0x25 :: urlDecodeFrom 0 rest := by
  rw [urlDecodeFrom, if_pos rfl]

/-- Behind a percent sign: both read two digits, both keep the sign, or there is
a plus sign and a digit. -/
theorem hexByte_cases (high low : UInt8) :
    hexByte high low = digitPair high low ∧ ¬ (high = 0x2B ∧ (hexDigit low).isSome = true) ∨
      high = 0x2B ∧ ∃ l, hexDigit low = some l ∧ hexByte high low = some l ∧
        digitPair high low = none := by
  by_cases plus : high = 0x2B
  · subst plus
    have noDigit : hexDigit 0x2B = none := by decide
    cases lowIs : hexDigit low with
    | none => exact Or.inl ⟨by simp [hexByte, digitPair, noDigit, lowIs], by simp⟩
    | some l => exact Or.inr ⟨rfl, l, rfl, by simp [hexByte, noDigit, lowIs],
        by simp [digitPair, noDigit]⟩
  · refine Or.inl ⟨?_, fun both => plus both.1⟩
    unfold hexByte digitPair
    cases hexDigit high with
    | none => cases hexDigit low <;> simp [plus]
    | some h => cases hexDigit low <;> rfl

def DecodesAlike (bytes : List UInt8) : Prop :=
  AgreeUpToSign bytes (urlDecodeFrom 0 bytes) (formBytes bytes)

theorem DecodesAlike.nil : DecodesAlike [] := by
  refine Or.inl ⟨?_, rfl⟩
  rintro ⟨front, digit, back, split, _⟩
  cases front <;> cases split

theorem DecodesAlike.literal {b : UInt8} (notPercent : b ≠ 0x25) {rest : List UInt8}
    (alike : DecodesAlike rest) : DecodesAlike (b :: rest) := by
  have same : SignedEscape (b :: rest) ↔ SignedEscape rest := by
    rw [signedEscape_cons]
    simp [notPercent]
  have codeIs : urlDecodeFrom 0 (b :: rest) = literalByte b :: urlDecodeFrom 0 rest := by
    rw [urlDecodeFrom, if_neg notPercent, literalByte]
    split_ifs <;> rfl
  have referenceIs : formBytes (b :: rest) = literalByte b :: formBytes rest := by
    rw [formBytes_cons]
    simp only [if_neg notPercent]
    split <;> rfl
  rw [DecodesAlike, codeIs, referenceIs]
  exact AgreeUpToSign.cons alike same (literalByte b)

theorem DecodesAlike.percent (high low : UInt8) {tail : List UInt8}
    (next : DecodesAlike (high :: low :: tail)) (behind : DecodesAlike tail) :
    DecodesAlike (0x25 :: high :: low :: tail) := by
  unfold DecodesAlike
  rw [urlDecodeFrom_percent, hexAhead, formBytes, if_pos rfl]
  rcases hexByte_cases high low with ⟨sameByte, noSign⟩ | ⟨rfl, l, lowIs, codeIs, noPair⟩
  · rw [sameByte]
    cases pair : digitPair high low with
    | none =>
        have same : SignedEscape (0x25 :: high :: low :: tail) ↔
            SignedEscape (high :: low :: tail) := by
          rw [signedEscape_cons, or_iff_right]
          rintro ⟨_, digit, back, split, isDigit⟩
          cases split
          exact noSign ⟨rfl, isDigit⟩
        exact AgreeUpToSign.cons next same 0x25
    | some v =>
        obtain ⟨h, highDigit, afterHigh⟩ := Option.bind_eq_some_iff.mp pair
        obtain ⟨l, lowDigit, _⟩ := Option.bind_eq_some_iff.mp afterHigh
        have same : SignedEscape (0x25 :: high :: low :: tail) ↔ SignedEscape tail := by
          simp [signedEscape_cons, ne_of_hexDigit highDigit, ne_of_hexDigit lowDigit]
        exact AgreeUpToSign.cons behind same v
  · rw [codeIs, noPair]
    have signed : SignedEscape (0x25 :: 0x2B :: low :: tail) :=
      ⟨[], low, tail, rfl, by rw [lowIs]; rfl⟩
    exact Or.inr ⟨signed, [], l, urlDecodeFrom 2 (0x2B :: low :: tail),
      formBytes (0x2B :: low :: tail), hexDigit_lt lowIs, rfl, rfl⟩

theorem urlDecodeFrom_formBytes (bytes : List UInt8) : DecodesAlike bytes := by
  induction lengthIs : bytes.length using Nat.strong_induction_on generalizing bytes with
  | _ n ih =>
      cases bytes with
      | nil => exact DecodesAlike.nil
      | cons b rest =>
          have next := ih rest.length (by rw [← lengthIs]; simp) rest rfl
          by_cases percent : b = 0x25
          · subst percent
            match rest with
            | [] => exact AgreeUpToSign.cons next (by rw [signedEscape_cons]; simp) 0x25
            | [high] => exact AgreeUpToSign.cons next (by rw [signedEscape_cons]; simp) 0x25
            | high :: low :: tail =>
                have behind := ih tail.length (by rw [← lengthIs]; simp; omega) tail rfl
                exact next.percent high low behind
          · exact next.literal percent

/-- A text decodes as the reference has it, and to whatever it is an encoding
of, exactly when no percent sign is followed by a plus sign and a digit. -/
theorem urlDecode_eq_formDecode_iff (s : String) :
    (urlDecode s = formDecode s ∧
        ∀ plain : String, UrlEncodes (Str.utf8Bytes plain) (Str.utf8Bytes s) →
          urlDecode s = plain) ↔
      ¬ SignedEscape (Str.utf8Bytes s) := by
  rcases urlDecodeFrom_formBytes (Str.utf8Bytes s) with
    ⟨plain, same⟩ | ⟨signed, read, v, more, other, small, codeIs, referenceIs⟩
  · refine iff_of_true ⟨?_, fun text encodes => urlDecode_of_encodes text s encodes⟩ plain
    rw [urlDecode, formDecode, same]
  · refine iff_of_false (fun both => ?_) (not_not_intro signed)
    have equal := congrArg String.toList both.1
    have vAscii : v < 0x80 := UInt8.lt_trans small (by decide)
    rw [urlDecode, formDecode, codeIs, referenceIs, Str.fromUtf8Lossy_eq, Str.fromUtf8Lossy_eq,
      String.toList_ofList, String.toList_ofList, Str.decoded_append_ascii vAscii,
      Str.decoded_append_ascii (by decide)] at equal
    obtain ⟨heads, _⟩ := List.cons.inj (List.append_cancel_left equal)
    have codes := congrArg Char.toNat heads
    have bound := UInt8.lt_iff_toNat_lt.mp small
    rw [Str.toNat_ofNat_ascii vAscii, Str.toNat_ofNat_ascii (by decide)] at codes
    rw [codes] at bound
    exact absurd bound (by decide)

/-- A signed escape is read as the control character its digit spells. -/
theorem urlDecode_signed_escape :
    ¬ ∀ s : String, urlDecode s = formDecode s ∧
      ∀ plain : String, UrlEncodes (Str.utf8Bytes plain) (Str.utf8Bytes s) →
        urlDecode s = plain := by
  intro claimed
  have equal := (claimed "%+f").1
  exact absurd equal (by decide +kernel)

end Cadvisor
