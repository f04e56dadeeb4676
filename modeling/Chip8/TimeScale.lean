/-!
# Time scales

Seconds as an interpreter counts them.  The cycle driver needs sums, differences and a
comparison of times, the length of one cycle, and the length of many cycles where that can
be represented.  Doubles are the scale of real runs; exact rationals are a scale without
rounding.
-/

namespace Chip8

/-- Times in seconds. -/
class TimeScale (τ : Type) where
  zero : τ
  add : τ → τ → τ
  sub : τ → τ → τ
  below : τ → τ → Bool
  /-- The length of one cycle, a sixtieth of a second. -/
  period : τ
  /-- By how much a time may fall short of one cycle and still count as one. -/
  slack : τ
  /-- The length of a number of cycles, unless the number is too large for the scale. -/
  periods : Nat → Option τ

namespace TimeScale

variable {τ : Type} [TimeScale τ]

def atLeast (time bound : τ) : τ :=
  if below time bound then bound else time

def atMost (time bound : τ) : τ :=
  if below bound time then bound else time

end TimeScale

/-- The smallest natural number that rounds to no finite double. -/
abbrev leastUnboundedCount : Nat := Nat.pow 2 1024 - Nat.pow 2 970

/-- Doubles; a time that is not a number is never below another. -/
instance : TimeScale Float where
  zero := 0.0
  add a b := a + b
  sub a b := a - b
  below a b := a < b
  period := 1.0 / 60.0
  slack := 1e-9
  periods n :=
    if leastUnboundedCount ≤ n then none
    else some (1.0 / 60.0 * Float.ofScientific n false 0)

/-- Exact rationals. -/
instance : TimeScale Rat where
  zero := 0
  add a b := a + b
  sub a b := a - b
  below a b := a < b
  period := 1 / 60
  slack := 1 / 1000000000
  periods n := some (n / 60)

end Chip8
