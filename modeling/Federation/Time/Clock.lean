/-!
# The monotonic clock

Readings and durations are natural numbers of nanoseconds.  The clock holds whole seconds up to 2^63
- 1, so a deadline beyond that cannot be named: `deadline?` is the only way to add to a reading.
-/

namespace Federation

namespace Clock

/-- a reading of the clock, in nanoseconds since its origin -/
abbrev Reading := Nat

abbrev Duration := Nat

def second : Duration := 1000000000

def millisecond : Duration := 1000000

/-- the greatest number of whole seconds that the clock can show, 2^63 - 1 -/
def lastSecond : Nat := 9223372036854775807

def representable (t : Reading) : Bool := t / second ≤ lastSecond

/-- the reading `d` after `now`, if the clock can show it -/
def deadline? (now : Reading) (d : Duration) : Option Reading :=
  if representable (now + d) then some (now + d) else none

theorem deadline?_eq_some {now : Reading} {d : Duration} {t : Reading} :
    deadline? now d = some t ↔ representable (now + d) = true ∧ now + d = t := by
  unfold deadline?
  split <;> simp_all

end Clock

end Federation
