import Mathlib.Algebra.GroupWithZero.Nat
import Mathlib.Data.Int.ConditionallyCompleteOrder
import Mathlib.Order.ConditionallyCompleteLattice.Basic
import Mathlib.Order.Interval.Set.Defs

/-!
# `GoTime` and the durations subtracted from it

An instant is its count of nanoseconds since the epoch, inside the range of
`chrono::DateTime<Utc>`.  The clock and file modification times are the only
sources of sample and event timestamps, so chrono's leap second representation
(a nanosecond field of 10^9 or more) never enters them.
-/

set_option autoImplicit false

namespace Cadvisor

def nanosPerSecond : Int := 1000000000

/-- `-262143-01-01T00:00:00Z`, the least `DateTime<Utc>`. -/
def chronoMin : Int := -8334601228800 * 1000000000

/-- `+262142-12-31T23:59:59.999999999Z`, the greatest `DateTime<Utc>`. -/
def chronoMax : Int := 8210266876799 * 1000000000 + 999999999

structure GoTime where
  nanos : Int
  notBefore : chronoMin ≤ nanos
  notAfter : nanos ≤ chronoMax
  deriving DecidableEq

namespace GoTime

theorem nanos_injective : Function.Injective GoTime.nanos := by
  intro a b same
  cases a
  cases b
  cases same
  rfl

instance : LinearOrder GoTime := LinearOrder.lift' GoTime.nanos nanos_injective

theorem le_iff (a b : GoTime) : a ≤ b ↔ a.nanos ≤ b.nanos := Iff.rfl

/-- Go's zero time, `0001-01-01T00:00:00Z`. -/
def zero : GoTime := ⟨-62135596800 * 1000000000, by decide, by decide⟩

instance : Inhabited GoTime := ⟨zero⟩

instance instNeZeroNanos : NeZero (2 ^ 62) := ⟨by decide⟩

/-- An instant after the epoch, 1970 to 2116. -/
def sinceEpoch (nanos : Fin (2 ^ 62)) : GoTime :=
  ⟨nanos.val, by unfold chronoMin; omega, by unfold chronoMax; omega⟩

def isZero (t : GoTime) : Bool := t = zero

/-- Whole seconds since the epoch, rounded down. -/
def timestamp (t : GoTime) : Int := t.nanos.fdiv nanosPerSecond

def timestampSubsecNanos (t : GoTime) : Int := t.nanos.fmod nanosPerSecond

def timestampMillis (t : GoTime) : Int := t.nanos.fdiv 1000000

def Representable (t : GoTime) (delta : Int) : Prop := t.nanos - delta ∈ Set.Icc chronoMin chronoMax

instance (t : GoTime) (delta : Int) : Decidable (Representable t delta) :=
  inferInstanceAs (Decidable (chronoMin ≤ t.nanos - delta ∧ t.nanos - delta ≤ chronoMax))

/-- `DateTime - TimeDelta`; the panic on overflow is `none`. -/
def sub (t : GoTime) (delta : Int) : Option GoTime :=
  if fits : Representable t delta then some ⟨t.nanos - delta, fits.1, fits.2⟩ else none

theorem sub_eq_some_iff (t : GoTime) (delta : Int) (c : GoTime) :
    t.sub delta = some c ↔ c.nanos = t.nanos - delta := by
  unfold sub
  split
  · rename_i fits
    rw [Option.some.injEq]
    constructor
    · intro same
      rw [← same]
    · intro same
      exact nanos_injective same.symm
  · rename_i overflow
    constructor
    · intro impossible
      cases impossible
    · intro same
      exact absurd ⟨same ▸ c.notBefore, same ▸ c.notAfter⟩ overflow

theorem representable_iff (t : GoTime) (delta : Int) :
    t.Representable delta ↔ ∃ c, t.sub delta = some c := by
  simp only [sub_eq_some_iff]
  constructor
  · intro fits
    exact ⟨⟨t.nanos - delta, fits.1, fits.2⟩, rfl⟩
  · rintro ⟨c, same⟩
    exact ⟨same ▸ c.notBefore, same ▸ c.notAfter⟩

theorem sub_le {t c : GoTime} {delta : Int} (bound : t.sub delta = some c)
    (forward : 0 ≤ delta) : c ≤ t := by
  rw [sub_eq_some_iff] at bound
  rw [le_iff]
  omega

theorem sub_mono {s t c d : GoTime} {delta : Int} (first : s.sub delta = some c)
    (second : t.sub delta = some d) (later : s ≤ t) : c ≤ d := by
  rw [sub_eq_some_iff] at first second
  rw [le_iff] at later ⊢
  omega

theorem Representable.of_le {s t : GoTime} {delta : Int} (fits : Representable s delta)
    (later : s ≤ t) (forward : 0 ≤ delta) : Representable t delta := by
  have low : chronoMin ≤ s.nanos - delta := fits.1
  have order : s.nanos ≤ t.nanos := later
  have high : t.nanos ≤ chronoMax := t.notAfter
  exact ⟨by omega, by omega⟩

end GoTime

/-! ## Deserialising -/

/-- The two ways a deserializer can hand a string to a visitor. -/
inductive SerdeStr where
  | borrowed (text : String)
  | owned (text : String)

/-- serde's `&str`: an owned string cannot be lent for long enough. -/
def SerdeStr.asStr : SerdeStr → Option String
  | .borrowed text => some text
  | .owned _ => none

/-- `parseFromRfc3339` is chrono's parser followed by the conversion to UTC. -/
def GoTime.deserialize (parseFromRfc3339 : String → Option GoTime) (input : SerdeStr) :
    Option GoTime :=
  input.asStr.bind parseFromRfc3339

/-- `std::time::Duration`: `u64` seconds and a fraction, as one count of nanoseconds. -/
structure StdDuration where
  nanos : Nat
  bounded : nanos < 2 ^ 64 * 1000000000
  deriving DecidableEq

/-- `Duration::ZERO`. -/
def StdDuration.zero : StdDuration := ⟨0, by decide⟩

/-- `chrono::Duration::from_std`, which fails above `i64::MAX` milliseconds. -/
def StdDuration.toChrono (d : StdDuration) : Option Int :=
  if d.nanos ≤ (2 ^ 63 - 1) * 1000000 then some d.nanos else none

theorem StdDuration.toChrono_of_representable (d : StdDuration) (t : GoTime)
    (fits : t.Representable d.nanos) : d.toChrono = some (d.nanos : Int) := by
  have low : chronoMin ≤ t.nanos - d.nanos := fits.1
  have high : t.nanos ≤ chronoMax := t.notAfter
  unfold chronoMin at low
  unfold chronoMax at high
  rw [StdDuration.toChrono, if_pos]
  omega

end Cadvisor
