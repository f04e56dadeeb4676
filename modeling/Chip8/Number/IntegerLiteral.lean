import Chip8.Text.Blank
import Chip8.Text.Digit

/-!
# Integer literals

A literal is a sign, digits of any script and single underscores between digits, with
white space around it.  A hexadecimal literal may start with `0x` after the sign, and one
underscore may follow this mark.  Decimal literals are limited to 4300 digits.
-/

namespace Chip8

/-- The bases in which integers are read. -/
inductive Base where
  | decimal
  | hexadecimal
deriving DecidableEq

namespace Base

def radix : Base → Nat
  | decimal => 10
  | hexadecimal => 16

def digit? : Base → Char → Option Nat
  | decimal => Digit.decimal?
  | hexadecimal => Digit.hexadecimal?

/-- The greatest number of digits of a literal, where there is one. -/
def longest : Base → Option Nat
  | decimal => some 4300
  | hexadecimal => none

end Base

namespace IntegerLiteral

/-- Reads a nonempty run of digits with single underscores between them. -/
def digits? (value? : Char → Option Nat) : List Char → Option (List Nat)
  | [] => none
  | [c] => do
      let d ← value? c
      return [d]
  | c :: '_' :: rest => do
      let d ← value? c
      let ds ← digits? value? rest
      return d :: ds
  | c :: rest => do
      let d ← value? c
      let ds ← digits? value? rest
      return d :: ds

/-- The number that digits denote, most significant first. -/
def value (radix : Nat) (ds : List Nat) : Nat :=
  ds.foldl (fun n d => n * radix + d) 0

/-- Splits a leading sign off; the flag is set for a minus sign. -/
def splitSign : List Char → Bool × List Char
  | '-' :: rest => (true, rest)
  | '+' :: rest => (false, rest)
  | cs => (false, cs)

/-- Drops the mark `0x` of a hexadecimal literal and one underscore after it. -/
def dropMark : Base → List Char → List Char
  | .hexadecimal, zero :: mark :: rest =>
      if Digit.decimal? zero = some 0 ∧ (mark = 'x' ∨ mark = 'X') then
        match rest with
        | '_' :: digits => digits
        | digits => digits
      else zero :: mark :: rest
  | _, cs => cs

/-- Reads the magnitude of a literal, its sign already removed. -/
def magnitude? (base : Base) (cs : List Char) : Option Nat := do
  let ds ← digits? base.digit? (dropMark base cs)
  match base.longest with
  | some most => if ds.length ≤ most then return value base.radix ds else none
  | none => return value base.radix ds

/-- Reads a literal from its characters. -/
def readChars? (base : Base) (cs : List Char) : Option Int := do
  let (negative, rest) := splitSign (Blank.strip Blank.isMargin cs)
  let n ← magnitude? base rest
  return if negative then -(n : Int) else (n : Int)

def read? (base : Base) (text : String) : Option Int :=
  readChars? base text.toList

end IntegerLiteral

end Chip8
