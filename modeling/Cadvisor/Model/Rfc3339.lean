import Cadvisor.Lib.Calendar
import Cadvisor.Lib.Decimal
import Cadvisor.Lib.Slice
import Cadvisor.Model.GoTime
import Mathlib.Data.Set.Function

/-!
# An instant as text and back

`GoTime` writes Go's RFC 3339 timestamps with the help of chrono's `format`, and the
reader of the test suite computes the count of nanoseconds from such a text.
-/

set_option autoImplicit false

namespace Cadvisor

open Calendar Decimal Slice

namespace GoTime

/-- `DateTime::nanosecond`. -/
def nanosecond (t : GoTime) : Nat := t.timestampSubsecNanos.toNat

variable (format : String → GoTime → String)

def toRfc3339Nano (t : GoTime) : String :=
  let s := format "%Y-%m-%dT%H:%M:%S" t
  let nanos := t.nanosecond
  let s :=
    if 0 < nanos then
      let frac := String.ofList (padded 9 nanos)
      s ++ "." ++ Str.trimEndMatches frac '0'
    else s
  s ++ "Z"

/-- Date and time of day in fields of fixed width. -/
def stamp (c : DateTime) : List Char :=
  padded 4 c.date.year.toNat ++ '-' :: (padded 2 c.date.month ++ '-' :: (padded 2 c.date.day ++
    'T' :: (padded 2 c.hour ++ ':' :: (padded 2 c.minute ++ ':' :: padded 2 c.second))))

/-- chrono prints the proleptic Gregorian date and the time of day. -/
def PrintsCivil : Prop :=
  ∀ (t : GoTime) (c : DateTime), c.nanos = t.nanos → c.date.year ∈ Set.Icc 0 9999 →
    format "%Y-%m-%dT%H:%M:%S" t = String.ofList (stamp c)

def fourDigitYears : Set GoTime := {t | (DateTime.ofNanos t.nanos).date.year ∈ Set.Icc 0 9999}

end GoTime

/-! ## The reader -/

namespace Gotime

/-- Howard Hinnant's algorithm. -/
def daysFromCivil (y m d : Int) : Int :=
  let y := if m ≤ 2 then y - 1 else y
  let era := (if 0 ≤ y then y else y - 399).tdiv 400
  let yoe := y - era * 400
  let doy := (153 * (m + if m > 2 then -3 else 9) + 2).tdiv 5 + d - 1
  let doe := yoe * 365 + yoe.tdiv 4 - yoe.tdiv 100 + doy
  era * 146097 + doe - 719468

def byteIs (s : List Char) (i : Nat) (c : Char) : Prop := byteAt s i = some (UInt8.ofNat c.toNat)

instance (s : List Char) (i : Nat) (c : Char) : Decidable (byteIs s i c) :=
  inferInstanceAs (Decidable (byteAt s i = _))

def Shaped (s : List Char) : Prop :=
  20 ≤ byteLen s ∧ byteIs s 4 '-' ∧ byteIs s 7 '-' ∧
    (byteIs s 10 'T' ∨ byteIs s 10 't' ∨ byteIs s 10 ' ') ∧ byteIs s 13 ':' ∧ byteIs s 16 ':'

instance (s : List Char) : Decidable (Shaped s) :=
  inferInstanceAs (Decidable (_ ∧ _ ∧ _ ∧ (_ ∨ _ ∨ _) ∧ _ ∧ _))

def num (s : List Char) (a z : Nat) : Option Int :=
  (slice s a z).bind fun field => Str.parseSigned (2 ^ 63) (String.ofList field)

/-- The fraction in nanoseconds, and what follows it. -/
def fraction : List Char → Option (Int × List Char)
  | '.' :: rest =>
      let digits := rest.takeWhile Char.isDigit
      if digits = [] ∨ 9 < digits.length then none
      else
        (Str.parseSigned (2 ^ 127) (String.ofList digits)).map fun n =>
          (n * 10 ^ (9 - digits.length), rest.dropWhile Char.isDigit)
  | tz => some (0, tz)

/-- The offset in seconds.  The outer `none` is the panic of `&tz[3..4]` inside a character. -/
def offset (tz : List Char) : Option (Option Int) :=
  if tz = ['Z'] ∨ tz = ['z'] then some (some 0)
  else if byteLen tz = 6 ∧ (tz.head? = some '+' ∨ tz.head? = some '-') then
    (slice tz 3 4).map fun colon =>
      if colon = [':'] then
        (num tz 1 3).bind fun h => (num tz 4 6).map fun mi =>
          let m := h * 3600 + mi * 60
          if tz.head? = some '-' then -m else m
      else none
  else some none

/-- The outer `none` is a panic.  Six fields of at most four characters keep the `i64`
sums far from their bounds. -/
def nanos (text : String) : Option (Option Int) :=
  let s := text.toList
  if Shaped s then
    -- A number that ends at byte 19 shows that a character starts there.
    match num s 0 4, num s 5 7, num s 8 10, num s 11 13, num s 14 16, num s 17 19,
      dropBytes 19 s with
    | some y, some mo, some d, some h, some mi, some se, some rest =>
        match fraction rest with
        | none => some none
        | some (frac, tz) =>
            (offset tz).map fun off => off.map fun off =>
              (daysFromCivil y mo d * 86400 + h * 3600 + mi * 60 + se - off) * 1000000000 + frac
    | _, _, _, _, _, _, _ => some none
  else some none

/-! ## The civil calendar -/

theorem era_eq (y : Int) : (if 0 ≤ y then y else y - 399).tdiv 400 = y / 400 := by
  split
  · rename_i positive
    exact Int.tdiv_eq_ediv_of_nonneg positive
  · rename_i negative
    have sign : Int.sign 400 = 1 := rfl
    rw [Int.tdiv_eq_ediv, sign]
    split <;> omega

theorem doy_eq (year : Int) {m : Nat} (valid : m ∈ Set.Icc 1 12) :
    (153 * ((m : Int) + if (m : Int) > 2 then -3 else 9) + 2).tdiv 5 =
      monthStart year m + if m ≤ 2 then 306 else if IsLeap year then -60 else -59 := by
  obtain ⟨low, high⟩ := valid
  by_cases leap : IsLeap year
  · simp only [if_pos leap]
    interval_cases m <;> simp [monthStart, monthLength, leap]
  · simp only [if_neg leap]
    interval_cases m <;> simp [monthStart, monthLength, leap]

theorem daysFromCivil_eq (date : Date) :
    daysFromCivil date.year date.month date.day = date.dayNumber := by
  have quarters (y : Int) : (y - y / 400 * 400).tdiv 4 = (y - y / 400 * 400) / 4 :=
    Int.tdiv_eq_ediv_of_nonneg (by omega)
  have centuries (y : Int) : (y - y / 400 * 400).tdiv 100 = (y - y / 400 * 400) / 100 :=
    Int.tdiv_eq_ediv_of_nonneg (by omega)
  have months : ((date.month : Int) ≤ 2) = (date.month ≤ 2) := by
    rw [eq_iff_iff]
    omega
  rw [daysFromCivil, Date.dayNumber, doy_eq date.year date.monthValid, yearStart_eq,
    yearStart_eq]
  simp only [era_eq, quarters, centuries, months]
  by_cases early : date.month ≤ 2
  · -- The year that starts in March is still the one before.
    simp only [if_pos early]
    omega
  · simp only [if_neg early]
    by_cases leap : IsLeap date.year
    · rw [if_pos leap]
      obtain ⟨fourth, century⟩ := leap
      omega
    · rw [if_neg leap]
      rw [IsLeap] at leap
      omega

/-! ## Columns -/

section
variable {width n : Nat}

theorem byteLen_padded (wide : 0 < width) (small : n < 10 ^ width) :
    byteLen (padded width n) = width := by
  rw [byteLen_of_ascii, length_padded wide small]
  intro c member
  have range : 48 ≤ c.val ∧ c.val ≤ 57 := by
    simpa [Char.isDigit] using padded_isDigit width n c member
  have high : c.val.toNat ≤ 57 := range.2
  exact Nat.lt_of_le_of_lt high (by decide)

theorem num_padded {s rest : List Char} {i : Nat} (cut : From s i (padded width n ++ rest))
    (wide : 0 < width) (small : n < 10 ^ width) (fits : n < 2 ^ 63) :
    num s i (i + width) = some (n : Int) ∧ From s (i + width) rest := by
  obtain ⟨read, behind⟩ := cut.append (byteLen_padded wide small)
  refine ⟨?_, behind⟩
  rw [num, read, Option.bind_some, parseSigned_digits (padded_ne_nil width n)
    (padded_isDigit width n) (by rwa [digits_padded]), digits_padded]

theorem num_two {s rest : List Char} {i : Nat} (cut : From s i (padded 2 n ++ rest))
    (small : n < 100) : num s i (i + 2) = some (n : Int) ∧ From s (i + 2) rest :=
  num_padded cut (by omega) small (by omega)

end

theorem stamp_columns (c : DateTime) (years : c.date.year ∈ Set.Icc 0 9999) {tail : List Char}
    (more : tail ≠ []) :
    let s := GoTime.stamp c ++ tail
    Shaped s ∧ num s 0 4 = some c.date.year ∧ num s 5 7 = some (c.date.month : Int) ∧
      num s 8 10 = some (c.date.day : Int) ∧ num s 11 13 = some (c.hour : Int) ∧
      num s 14 16 = some (c.minute : Int) ∧ num s 17 19 = some (c.second : Int) ∧
      dropBytes 19 s = some tail := by
  intro s
  obtain ⟨fromZero, toNines⟩ := years
  have december := c.date.monthValid.2
  have last := c.date.dayValid.2
  have longest := monthLength_le c.date.year c.date.month
  have hours := c.hourValid
  have minutes := c.minuteValid
  have seconds := c.secondValid
  have start : From s 0 (GoTime.stamp c ++ tail) := From.zero s
  clear_value s
  simp only [GoTime.stamp, List.append_assoc, List.cons_append] at start
  obtain ⟨year, at4⟩ := num_padded start (by omega) (by omega) (by omega)
  obtain ⟨dash4, at5⟩ := at4.cons (by decide)
  obtain ⟨month, at7⟩ := num_two at5 (by omega)
  obtain ⟨dash7, at8⟩ := at7.cons (by decide)
  obtain ⟨day, at10⟩ := num_two at8 (by omega)
  obtain ⟨tee, at11⟩ := at10.cons (by decide)
  obtain ⟨hour, at13⟩ := num_two at11 (by omega)
  obtain ⟨colon13, at14⟩ := at13.cons (by decide)
  obtain ⟨minute, at16⟩ := num_two at14 (by omega)
  obtain ⟨colon16, at17⟩ := at16.cons (by decide)
  obtain ⟨second, at19⟩ := num_two at17 (by omega)
  rw [Int.toNat_of_nonneg fromZero] at year
  have long : 20 ≤ byteLen s := by
    obtain ⟨first, others, rfl⟩ := List.exists_cons_of_ne_nil more
    have positive := first.utf8Size_pos
    rw [at19.byteLen_eq, byteLen_cons]
    omega
  exact ⟨⟨long, dash4, dash7, Or.inl tee, colon13, colon16⟩, year, month, day, hour, minute,
    second, at19.dropBytes⟩

theorem nanos_stamp (c : DateTime) (years : c.date.year ∈ Set.Icc 0 9999) {tail : List Char}
    {n : Int} (read : fraction tail = some (n, ['Z'])) :
    nanos (String.ofList (GoTime.stamp c ++ tail)) = some (some (c.seconds * 1000000000 + n)) := by
  have more : tail ≠ [] := by
    intro empty
    rw [empty] at read
    cases read
  obtain ⟨shaped, year, month, day, hour, minute, second, behind⟩ := stamp_columns c years more
  have utc : offset ['Z'] = some (some 0) := rfl
  simp only [nanos, String.toList_ofList, if_pos shaped, year, month, day, hour, minute, second,
    behind, read, utc, Option.map_some, daysFromCivil_eq, DateTime.seconds, Int.sub_zero]

/-! ## The fraction -/

theorem fraction_trimmed {n : Nat} (positive : 0 < n) (small : n < 10 ^ 9) :
    fraction ('.' :: ((Str.trimEndMatches (String.ofList (padded 9 n)) '0').toList ++ ['Z'])) =
      some ((n : Int), ['Z']) := by
  obtain ⟨k, whole⟩ := exists_trimmed (padded 9 n)
  generalize (Str.trimEndMatches (String.ofList (padded 9 n)) '0').toList = trimmed at whole ⊢
  have nine : trimmed.length + k = 9 := by
    rw [← length_padded (by omega) small, whole, List.length_append, List.length_replicate]
  have spelled : digits trimmed * 10 ^ k = n := by
    rw [← digits_append_zeros, ← whole, digits_padded]
  have nonempty : trimmed ≠ [] := by
    rintro rfl
    have zero : digits [] = 0 := by rw [digits, Nat.ofDigitChars_nil]
    rw [zero, Nat.zero_mul] at spelled
    omega
  have all : ∀ c ∈ trimmed, c.isDigit = true := by
    intro c member
    apply padded_isDigit 9 n
    rw [whole]
    exact List.mem_append_left _ member
  have fits : digits trimmed < 2 ^ 127 := by
    have power : 0 < 10 ^ k := Nat.pow_pos (by omega)
    have grown := Nat.le_mul_of_pos_right (digits trimmed) power
    omega
  have left : 9 - trimmed.length = k := by omega
  obtain ⟨front, back⟩ := takeWhile_stop all (show Char.isDigit 'Z' = false from rfl) []
  have short : ¬ (trimmed = [] ∨ 9 < trimmed.length) := by
    simp only [nonempty, false_or]
    omega
  rw [fraction, front, back, if_neg short, parseSigned_digits nonempty all fits, Option.map_some,
    left]
  norm_cast
  rw [spelled]

end Gotime

open Gotime in
theorem nanos_written {format : String → GoTime → String} (prints : GoTime.PrintsCivil format)
    (t : GoTime) (years : t ∈ GoTime.fourDigitYears) :
    nanos (t.toRfc3339Nano format) = some (some t.nanos) := by
  have civil := DateTime.nanos_ofNanos t.nanos
  have stamped := prints t _ civil years
  have subsec : t.nanosecond = (DateTime.ofNanos t.nanos).nanosecond := by
    have remainder := DateTime.nanosecond_eq (DateTime.ofNanos t.nanos)
    rw [civil] at remainder
    rw [GoTime.nanosecond, GoTime.timestampSubsecNanos, nanosPerSecond,
      Int.fmod_eq_emod_of_nonneg _ (by omega), ← remainder]
    rfl
  rw [DateTime.nanos] at civil
  have whole (tail : List Char) : String.ofList (GoTime.stamp (DateTime.ofNanos t.nanos)) ++
      String.ofList tail = String.ofList (GoTime.stamp (DateTime.ofNanos t.nanos) ++ tail) :=
    String.ofList_append.symm
  by_cases positive : 0 < t.nanosecond
  · have read := fraction_trimmed positive
      (subsec ▸ (DateTime.ofNanos t.nanos).nanosecondValid)
    have text : t.toRfc3339Nano format = String.ofList (GoTime.stamp (DateTime.ofNanos t.nanos) ++
        '.' :: ((Str.trimEndMatches (String.ofList (padded 9 t.nanosecond)) '0').toList ++
          ['Z'])) := by
      rw [GoTime.toRfc3339Nano, stamped]
      dsimp only
      rw [if_pos positive]
      apply String.toList_inj.mp
      simp
    rw [text, nanos_stamp _ years read, subsec, civil]
  · have zero : (DateTime.ofNanos t.nanos).nanosecond = 0 := by omega
    have text : t.toRfc3339Nano format =
        String.ofList (GoTime.stamp (DateTime.ofNanos t.nanos) ++ ['Z']) := by
      rw [GoTime.toRfc3339Nano, stamped]
      dsimp only
      rw [if_neg positive]
      apply String.toList_inj.mp
      simp
    rw [zero] at civil
    rw [text, nanos_stamp _ years rfl]
    exact congrArg (fun n => some (some n)) civil

/-- Every instant of the years 0 to 9999 is read back from its text, so no two of them
share a text. -/
theorem nanos_toRfc3339Nano {format : String → GoTime → String}
    (prints : GoTime.PrintsCivil format) :
    (∀ t ∈ GoTime.fourDigitYears,
        Gotime.nanos (t.toRfc3339Nano format) = some (some t.nanos)) ∧
      Set.InjOn (GoTime.toRfc3339Nano format) GoTime.fourDigitYears := by
  refine ⟨nanos_written prints, ?_⟩
  intro t tYears u uYears same
  have recovered : some (some t.nanos) = some (some u.nanos) := by
    rw [← nanos_written prints t tYears, same, nanos_written prints u uYears]
  exact GoTime.nanos_injective (Option.some.inj (Option.some.inj recovered))

/-- A printer for the one format, as chrono prints it. -/
def GoTime.civilFormat (_ : String) (t : GoTime) : String :=
  String.ofList (GoTime.stamp (DateTime.ofNanos t.nanos))

theorem GoTime.printsCivil_civilFormat : GoTime.PrintsCivil GoTime.civilFormat := by
  intro t c same _
  rw [DateTime.nanos_eq_iff.mp same]
  rfl

def GoTime.anInstant : GoTime := ⟨1784214134826268630, by decide, by decide⟩

theorem nanos_toRfc3339Nano_anInstant :
    GoTime.anInstant.toRfc3339Nano GoTime.civilFormat = "2026-07-16T15:02:14.82626863Z" ∧
      Gotime.nanos (GoTime.anInstant.toRfc3339Nano GoTime.civilFormat) =
        some (some 1784214134826268630) := by
  have year : (DateTime.ofNanos GoTime.anInstant.nanos).date.year = 2026 := by
    decide +kernel
  have within : GoTime.anInstant ∈ GoTime.fourDigitYears := by
    change (DateTime.ofNanos GoTime.anInstant.nanos).date.year ∈ Set.Icc 0 9999
    rw [year]
    exact ⟨by omega, by omega⟩
  exact ⟨by decide +kernel, (nanos_toRfc3339Nano GoTime.printsCivil_civilFormat).1 _ within⟩

end Cadvisor
