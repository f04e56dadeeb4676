import Chip8.Number.IntegerLiteral

/-!
# Floating-point literals

A literal is a sign, a decimal significand with or without a point, and an optional power
of ten, or one of the words `inf`, `infinity` and `nan` in any case.  Digits may be of any
script, and single underscores may stand between digits.  The literal denotes the nearest
double.
-/

namespace Chip8.FloatLiteral

/-- Drops an underscore that stands before a digit. -/
def skipJoint : List Char → List Char
  | '_' :: next :: rest =>
      if (Digit.decimal? next).isSome then next :: rest else '_' :: next :: rest
  | cs => cs

theorem length_skipJoint_le (cs : List Char) : (skipJoint cs).length ≤ cs.length := by
  unfold skipJoint
  split
  · split <;> simp
  · simp

/-- Splits the longest run of digits off, with single underscores between digits. -/
def digitRun : List Char → List Nat × List Char
  | [] => ([], [])
  | c :: rest =>
      match Digit.decimal? c with
      | none => ([], c :: rest)
      | some d =>
          let run := digitRun (skipJoint rest)
          (d :: run.1, run.2)
termination_by cs => cs.length
decreasing_by
  have := length_skipJoint_le rest
  simp only [List.length_cons]
  omega

/-- Reads the digits after the point, if there is a point. -/
def fraction : List Char → List Nat × List Char
  | '.' :: rest => digitRun rest
  | cs => ([], cs)

/-- Reads the power of ten; the text must end after it. -/
def exponent? : List Char → Option Int
  | [] => some 0
  | mark :: rest =>
      if mark = 'e' ∨ mark = 'E' then
        let (negative, digits) := IntegerLiteral.splitSign rest
        match digitRun digits with
        | ([], _) => none
        | (_, _ :: _) => none
        | (ds, []) =>
            let n := IntegerLiteral.value 10 ds
            some (if negative then -(n : Int) else (n : Int))
      else none

/-- The double nearest to `digits` times a power of ten.  Beyond the range of doubles
only the size of the number matters, which spares the power itself. -/
def nearest (digits : List Nat) (power : Int) : Float :=
  let significant := digits.dropWhile (· == 0)
  let n := IntegerLiteral.value 10 significant
  let size := (significant.length : Int) + power
  if n = 0 then 0.0
  else if 400 < size then 1.0 / 0.0
  else if size < -400 then 0.0
  else if power < 0 then Float.ofScientific n true power.natAbs
  else Float.ofScientific n false power.natAbs

/-- Reads a literal without its sign. -/
def magnitude? (cs : List Char) : Option Float :=
  let word := String.ofList (cs.map Char.toLower)
  if word = "inf" ∨ word = "infinity" then some (1.0 / 0.0)
  else if word = "nan" then some (0.0 / 0.0)
  else
    let (whole, rest) := digitRun cs
    let (part, tail) := fraction rest
    if whole.isEmpty && part.isEmpty then none
    else do
      let power ← exponent? tail
      return nearest (whole ++ part) (power - part.length)

def read? (text : String) : Option Float := do
  let (negative, rest) :=
    IntegerLiteral.splitSign (Blank.strip Blank.isMargin text.toList)
  let x ← magnitude? rest
  return if negative then -x else x

end Chip8.FloatLiteral
