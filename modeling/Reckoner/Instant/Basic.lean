import Reckoner.Instant.Calendar
import Std.Data.TreeMap

/-!
# Instants

Moments of universal time, to the nanosecond, in the years -262143 to 262142. A second may be
followed by a leap second, whose nanoseconds are counted from a billion on.
-/

namespace Reckoner

structure Instant where
  /-- Seconds since the start of 1970, leap seconds not counted. -/
  second : Int
  nano : Nat
deriving DecidableEq, Repr

namespace Instant

def billion : Nat := 1000000000

def secondsPerDay : Nat := 86400

/-! ## Order -/

def order : Instant → Instant → Ordering := compareLex (compareOn second) (compareOn nano)

instance : Ord Instant := ⟨order⟩

instance : Std.TransOrd Instant :=
  inferInstanceAs (Std.TransCmp (compareLex (compareOn second) (compareOn nano)))

theorem eq_of_order {a b : Instant} (h : order a b = .eq) : a = b := by
  simp only [order, compareLex, compareOn, Ordering.then_eq_eq, Std.compare_eq_iff_eq] at h
  cases a; cases b; simp_all

instance : Std.LawfulEqOrd Instant where
  eq_of_compare h := eq_of_order h

def notAfter (a b : Instant) : Bool := (compare a b).isLE

/-! ## The range of instants -/

def firstSecond : Int := (Date.mk (-262143) 1 1).toDays * secondsPerDay

def lastSecond : Int := (Date.mk 262143 1 1).toDays * secondsPerDay - 1

def isRepresentable (i : Instant) : Bool := firstSecond ≤ i.second && i.second ≤ lastSecond

/-! ## Milliseconds -/

def ofMillis (ms : Int) : Instant := ⟨ms / 1000, (ms % 1000).toNat * 1000000⟩

end Instant

/-! ## Durations -/

structure Duration where
  second : UInt64
  nano : Nat
  nano_lt : nano < Instant.billion
deriving DecidableEq, Repr

namespace Duration

def nanos (d : Duration) : Nat := d.second.toNat * Instant.billion + d.nano

def ofMillis (ms : UInt64) : Duration where
  second := ms / 1000
  nano := (ms.toNat % 1000) * 1000000
  nano_lt := by unfold Instant.billion; omega

/-- The whole milliseconds of the duration, as many of them as fit. -/
def millis (d : Duration) : UInt64 := (Nat.min (d.nanos / 1000000) 0xffffffffffffffff).toUInt64

end Duration

namespace Instant

/-- A leap second lasts until its own nanoseconds are over. -/
def later (i : Instant) (d : Duration) : Instant :=
  if billion ≤ i.nano ∧ i.nano + d.nanos < 2 * billion then ⟨i.second, i.nano + d.nanos⟩
  else
    let nanos := i.nano % billion + d.nanos
    ⟨i.second + nanos / billion, nanos % billion⟩

/-- The instant that is so much later, none if no clock can show it. -/
def later? (i : Instant) (d : Duration) : Option Instant :=
  if (i.later d).isRepresentable then some (i.later d) else none

end Instant

end Reckoner
