import Daryl.Py.Datetime
import Mathlib.Tactic.Ring

/-!
# Instants

The moment of an aware `datetime`, in microseconds from the first of January of year
one: what comparisons and differences of such values go by.

## Main definitions

* `Fields.toordinal`, `Fields.weekday` — `toordinal()` and `weekday()`.
* `Fields.instant` — the moment.
-/

namespace Py

/-- The days of the years before. -/
def daysBeforeYear (y : ℕ) : ℕ := (y - 1) * 365 + (y - 1) / 4 - (y - 1) / 100 + (y - 1) / 400

/-- The days of the months before, in a year. -/
def daysBeforeMonth (y m : ℕ) : ℕ := ((List.range (m - 1)).map fun k => daysInMonth y (k + 1)).sum

namespace Fields

/-- `toordinal()`: the first of January of year one is day one. -/
def toordinal (f : Fields) : ℕ := daysBeforeYear f.year + daysBeforeMonth f.year f.month + f.day

/-- `weekday()`: Monday is `0`. -/
def weekday (f : Fields) : ℕ := (f.toordinal + 6) % 7

/-- The microseconds since midnight. -/
def dayTime (f : Fields) : ℤ :=
  ((f.hour * 60 + f.minute) * 60 + f.second) * 1000000 + f.microsecond

/-- **The moment**, in UTC; a value without an offset counts as UTC. -/
def instant (f : Fields) : ℤ := f.toordinal * dayMicros + f.dayTime - f.offset.getD 0

/-- `replace(hour=0, minute=0, second=0, microsecond=0)`. -/
def midnight (f : Fields) : Fields := { f with hour := 0, minute := 0, second := 0, microsecond := 0 }

/-- `replace(minute=0, second=0, microsecond=0)`. -/
def hourStart (f : Fields) : Fields := { f with minute := 0, second := 0, microsecond := 0 }

/-- `replace(day=1, hour=0, minute=0, second=0, microsecond=0)`. -/
def monthStart (f : Fields) : Fields := { f.midnight with day := 1 }

end Fields

end Py
