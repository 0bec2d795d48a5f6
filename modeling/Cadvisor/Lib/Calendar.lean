import Mathlib.Data.Int.Order.Units
import Mathlib.Data.Nat.Find
import Mathlib.Order.Interval.Set.Defs

/-!
# The proleptic Gregorian calendar

Days are numbered from 1970-01-01.  Year and month starts are sums of the lengths
before them; every day number is that of exactly one date, and every count of
nanoseconds that of exactly one date and time of day.
-/

set_option autoImplicit false

namespace Calendar

def IsLeap (year : Int) : Prop := year % 4 = 0 ∧ (year % 100 = 0 → year % 400 = 0)

instance (year : Int) : Decidable (IsLeap year) :=
  inferInstanceAs (Decidable (year % 4 = 0 ∧ (year % 100 = 0 → year % 400 = 0)))

def yearLength (year : Int) : Int := if IsLeap year then 366 else 365

/-- Months are counted from 1. -/
def monthLength (year : Int) : Nat → Int
  | 1 => 31
  | 2 => if IsLeap year then 29 else 28
  | 3 => 31
  | 4 => 30
  | 5 => 31
  | 6 => 30
  | 7 => 31
  | 8 => 31
  | 9 => 30
  | 10 => 31
  | 11 => 30
  | 12 => 31
  | _ => 0

/-- The days of the `n` years from year 0 on. -/
def daysAhead : Nat → Int
  | 0 => 0
  | n + 1 => daysAhead n + yearLength n

/-- The days of the `n` years in front of year 0. -/
def daysBehind : Nat → Int
  | 0 => 0
  | n + 1 => daysBehind n + yearLength (-(n + 1))

def yearStart : Int → Int
  | .ofNat n => daysAhead n
  | .negSucc n => -daysBehind (n + 1)

def monthStart (year : Int) : Nat → Int
  | 0 => 0
  | m + 1 => monthStart year m + monthLength year m

structure Date where
  year : Int
  month : Nat
  day : Nat
  monthValid : month ∈ Set.Icc 1 12
  dayValid : 1 ≤ day ∧ day ≤ monthLength year month
  deriving DecidableEq

/-- Days since 1970-01-01. -/
def Date.dayNumber (date : Date) : Int :=
  yearStart date.year + monthStart date.year date.month + (date.day - 1) - yearStart 1970

/-! ## Years -/

theorem yearStart_succ (year : Int) : yearStart (year + 1) = yearStart year + yearLength year := by
  match year with
  | .ofNat n => rfl
  | .negSucc 0 =>
      change (0 : Int) = -(0 + yearLength (-1)) + yearLength (-1)
      omega
  | .negSucc (n + 1) =>
      change -daysBehind (n + 1) = -(daysBehind (n + 1) + yearLength (Int.negSucc (n + 1))) +
        yearLength (Int.negSucc (n + 1))
      omega

/-- The start of a year in closed form: every fourth year is leap, but of the
hundredth ones only every fourth. -/
theorem yearStart_eq (year : Int) :
    yearStart year = 365 * year + (year + 3) / 4 - (year + 99) / 100 + (year + 399) / 400 := by
  have step (y : Int) : yearLength y =
      (365 * (y + 1) + (y + 1 + 3) / 4 - (y + 1 + 99) / 100 + (y + 1 + 399) / 400) -
        (365 * y + (y + 3) / 4 - (y + 99) / 100 + (y + 399) / 400) := by
    rw [yearLength]
    split
    · rename_i leap
      obtain ⟨fourth, century⟩ := leap
      omega
    · rename_i common
      rw [IsLeap] at common
      omega
  induction year with
  | zero => rfl
  | succ n ih => rw [yearStart_succ, ih, step]; omega
  | pred n ih =>
      have last := yearStart_succ (-(n : Int) - 1)
      have length := step (-(n : Int) - 1)
      rw [Int.sub_add_cancel] at last length
      omega

theorem yearStart_lt {a b : Int} (less : a < b) : yearStart a + yearLength a ≤ yearStart b := by
  rw [← yearStart_succ, yearStart_eq, yearStart_eq]
  omega

/-- The year that holds the day, counted from the start of year 0. -/
def yearOf (day : Int) : Int :=
  let guess := day * 400 / 146097
  if yearStart (guess + 1) ≤ day then guess + 1
  else if yearStart guess ≤ day then guess
  else guess - 1

theorem yearOf_spec (day : Int) :
    yearStart (yearOf day) ≤ day ∧ day < yearStart (yearOf day + 1) := by
  have low : yearStart (day * 400 / 146097 - 1) ≤ day := by
    rw [yearStart_eq]
    omega
  have high : day < yearStart (day * 400 / 146097 + 1 + 1) := by
    rw [yearStart_eq]
    omega
  rw [yearOf]
  split
  · rename_i later
    exact ⟨later, high⟩
  · rename_i notLater
    split
    · rename_i reached
      exact ⟨reached, Int.not_le.mp notLater⟩
    · rename_i notReached
      rw [Int.sub_add_cancel]
      exact ⟨low, Int.not_le.mp notReached⟩

/-! ## Months -/

theorem monthLength_nonneg (year : Int) (m : Nat) : 0 ≤ monthLength year m := by
  unfold monthLength
  split <;> omega

theorem monthLength_le (year : Int) (m : Nat) : monthLength year m ≤ 31 := by
  unfold monthLength
  split <;> omega

theorem monthStart_year (year : Int) : monthStart year 13 = yearLength year := by
  simp only [monthStart, monthLength, yearLength]
  split <;> rfl

theorem monthStart_lt (year : Int) {a b : Nat} (less : a < b) :
    monthStart year a + monthLength year a ≤ monthStart year b := by
  induction b, less using Nat.le_induction with
  | base => exact Int.le_refl _
  | succ b _ ih =>
      have grows := monthLength_nonneg year b
      change _ ≤ monthStart year b + monthLength year b
      omega

/-- The month that holds the day of the year, counted from 0. -/
def monthOf (year day : Int) : Nat := Nat.findGreatest (fun m => monthStart year m ≤ day) 12

theorem monthOf_spec (year : Int) {day : Int} (low : 0 ≤ day) (high : day < yearLength year) :
    monthOf year day ∈ Set.Icc 1 12 ∧ monthStart year (monthOf year day) ≤ day ∧
      day < monthStart year (monthOf year day) + monthLength year (monthOf year day) := by
  have first : monthStart year 1 ≤ day := low
  have atLeast : 1 ≤ monthOf year day := Nat.le_findGreatest (by omega) first
  have atMost : monthOf year day ≤ 12 := Nat.findGreatest_le 12
  have begun : monthStart year (monthOf year day) ≤ day :=
    Nat.findGreatest_spec (P := fun m => monthStart year m ≤ day) (m := 1) (by omega) first
  refine ⟨⟨atLeast, atMost⟩, begun, ?_⟩
  change day < monthStart year (monthOf year day + 1)
  by_cases december : monthOf year day = 12
  · rw [december, monthStart_year]
    exact high
  · have later : monthOf year day < monthOf year day + 1 := Nat.lt_succ_self _
    exact Int.not_le.mp (Nat.findGreatest_is_greatest later (by omega))

/-! ## Dates -/

def Date.ofDayNumber (n : Int) : Date :=
  let day := n + yearStart 1970
  let year := yearOf day
  let ofYear := day - yearStart year
  let month := monthOf year ofYear
  have inYear : 0 ≤ ofYear ∧ ofYear < yearLength year := by
    have spec := yearOf_spec day
    rw [yearStart_succ] at spec
    change 0 ≤ day - yearStart (yearOf day) ∧ day - yearStart (yearOf day) < yearLength (yearOf day)
    omega
  have inMonth := monthOf_spec year inYear.1 inYear.2
  { year := year
    month := month
    day := (ofYear - monthStart year month + 1).toNat
    monthValid := inMonth.1
    dayValid := by
      obtain ⟨begun, running⟩ := inMonth.2
      change monthStart year month ≤ ofYear at begun
      change ofYear < monthStart year month + monthLength year month at running
      omega }

theorem Date.dayNumber_ofDayNumber (n : Int) : (Date.ofDayNumber n).dayNumber = n := by
  have spec := yearOf_spec (n + yearStart 1970)
  rw [yearStart_succ] at spec
  have low : 0 ≤ n + yearStart 1970 - yearStart (yearOf (n + yearStart 1970)) := by omega
  obtain ⟨-, begun, -⟩ := monthOf_spec (yearOf (n + yearStart 1970)) low (by omega)
  rw [Date.dayNumber]
  dsimp only [Date.ofDayNumber]
  omega

/-- The day of the year, counted from 0. -/
def Date.ofYear (date : Date) : Int := monthStart date.year date.month + (date.day - 1)

theorem Date.ofYear_lt (date : Date) : 0 ≤ date.ofYear ∧ date.ofYear < yearLength date.year := by
  obtain ⟨low, high⟩ := date.dayValid
  obtain ⟨fromJanuary, toDecember⟩ := date.monthValid
  have startMonth := monthStart_lt date.year (show 0 < date.month from fromJanuary)
  have endMonth := monthStart_lt date.year (show date.month < 13 by omega)
  rw [monthStart_year] at endMonth
  change 0 + 0 ≤ _ at startMonth
  rw [Date.ofYear]
  omega

theorem Date.dayNumber_injective : Function.Injective Date.dayNumber := by
  intro a b same
  have inA := a.ofYear_lt
  have inB := b.ofYear_lt
  have number (date : Date) :
      date.dayNumber = yearStart date.year + date.ofYear - yearStart 1970 := by
    rw [Date.dayNumber, Date.ofYear]
    omega
  rw [number, number] at same
  have years : a.year = b.year := by
    rcases Int.lt_trichotomy a.year b.year with less | equal | more
    · have apart := yearStart_lt less
      omega
    · exact equal
    · have apart := yearStart_lt more
      omega
  obtain ⟨year, month, day, monthValid, dayValid⟩ := a
  obtain ⟨year', month', day', monthValid', dayValid'⟩ := b
  dsimp only at years
  subst years
  rw [Date.ofYear, Date.ofYear] at same
  dsimp only at same dayValid dayValid'
  have months : month = month' := by
    rcases Nat.lt_trichotomy month month' with less | equal | more
    · have apart := monthStart_lt year less
      omega
    · exact equal
    · have apart := monthStart_lt year more
      omega
  subst months
  have days : day = day' := by omega
  subst days
  rfl

/-! ## Dates with the time of day -/

structure DateTime where
  date : Date
  hour : Nat
  minute : Nat
  second : Nat
  nanosecond : Nat
  hourValid : hour < 24
  minuteValid : minute < 60
  secondValid : second < 60
  nanosecondValid : nanosecond < 1000000000
  deriving DecidableEq

namespace DateTime

/-- Seconds since 1970-01-01T00:00:00. -/
def seconds (c : DateTime) : Int :=
  c.date.dayNumber * 86400 + c.hour * 3600 + c.minute * 60 + c.second

/-- Nanoseconds since 1970-01-01T00:00:00. -/
def nanos (c : DateTime) : Int := c.seconds * 1000000000 + c.nanosecond

def ofNanos (n : Int) : DateTime :=
  let seconds := n / 1000000000
  { date := Date.ofDayNumber (seconds / 86400)
    hour := (seconds % 86400 / 3600).toNat
    minute := (seconds % 3600 / 60).toNat
    second := (seconds % 60).toNat
    nanosecond := (n % 1000000000).toNat
    hourValid := by omega
    minuteValid := by omega
    secondValid := by omega
    nanosecondValid := by omega }

theorem nanos_ofNanos (n : Int) : (ofNanos n).nanos = n := by
  rw [nanos, seconds]
  dsimp only [ofNanos]
  rw [Date.dayNumber_ofDayNumber]
  omega

theorem nanos_injective : Function.Injective nanos := by
  intro a b same
  obtain ⟨date, hour, minute, second, nanosecond, h, m, s, n⟩ := a
  obtain ⟨date', hour', minute', second', nanosecond', h', m', s', n'⟩ := b
  rw [nanos, nanos, seconds, seconds] at same
  dsimp only at same
  have dates : date = date' := Date.dayNumber_injective (by omega)
  subst dates
  obtain ⟨rfl, rfl, rfl, rfl⟩ :
      hour = hour' ∧ minute = minute' ∧ second = second' ∧ nanosecond = nanosecond' := by
    omega
  rfl

theorem nanos_eq_iff {c : DateTime} {n : Int} : c.nanos = n ↔ c = ofNanos n := by
  constructor
  · intro same
    exact nanos_injective (same.trans (nanos_ofNanos n).symm)
  · intro same
    rw [same, nanos_ofNanos]

theorem nanosecond_eq (c : DateTime) : (c.nanosecond : Int) = c.nanos % 1000000000 := by
  have valid := c.nanosecondValid
  rw [nanos]
  omega

end DateTime

end Calendar
