/-!
# Whole part of a double

A finite double is a whole number of units of a power of two, so its whole part is found
exactly, without rounding.
-/

namespace Chip8

/-- A double that is no number or has no bound. -/
inductive NotFinite where
  | notANumber
  | infinite
deriving DecidableEq

/-- Rounds a double toward zero. -/
def wholePart (x : Float) : Except NotFinite Int :=
  let bits := x.toBits.toNat
  let fraction := bits % Nat.pow 2 52
  let scale := bits / Nat.pow 2 52 % Nat.pow 2 11
  if scale = 2047 then
    .error (if fraction = 0 then .infinite else .notANumber)
  else
    let units := if scale = 0 then fraction else fraction + Nat.pow 2 52
    let power := max scale 1
    let n : Nat :=
      if 1075 ≤ power then units * Nat.pow 2 (power - 1075)
      else units / Nat.pow 2 (1075 - power)
    .ok (if Nat.pow 2 63 ≤ bits then -(n : Int) else (n : Int))

end Chip8
