import Chip8.Dimensions
import Chip8.Text.Hexadecimal

/-!
# Machine faults

The ways in which a program can go out of bounds.  A fault stops the machine that runs
the program; every other error leaves it as it is.
-/

namespace Chip8

/-- What a program did out of bounds, with the values that its message names. -/
inductive Fault where
  | memoryRead (address : Int)
  | memoryWrite (address : Int)
  /-- A block of bytes does not fit at its address. -/
  | blockOutside (length : Nat) (address : Int)
  | programTooLarge (length : Nat)
  | pixelOutside (x y : Int)
  | stackOverflow (depth pc : Int)
  | stackUnderflow (pc : Int)
  | keyOutside (key pc : Int)
deriving DecidableEq

namespace Fault

def message : Fault → String
  | memoryRead address => "Memory read out of range: " ++ Hexadecimal.address address
  | memoryWrite address => "Memory write out of range: " ++ Hexadecimal.address address
  | blockOutside length address =>
      "Block of " ++ toString length ++ " bytes at " ++ Hexadecimal.address address ++
        " runs past end of memory"
  | programTooLarge length =>
      "Program of " ++ toString length ++ " bytes exceeds " ++ toString programCapacity ++
        " byte limit"
  | pixelOutside x y => "Pixel out of range: (" ++ toString x ++ ", " ++ toString y ++ ")"
  | stackOverflow depth _ => "Stack overflow at depth " ++ toString depth
  | stackUnderflow _ => "Return with empty stack"
  | keyOutside key _ => "Invalid key index: " ++ toString key

/-- The address that a fault is reported at: the address out of bounds, or the program
counter for faults of the stack and the keypad. -/
def address : Fault → Option Int
  | memoryRead address => some address
  | memoryWrite address => some address
  | blockOutside _ address => some address
  | programTooLarge _ => some programStart
  | pixelOutside _ _ => none
  | stackOverflow _ pc => some pc
  | stackUnderflow pc => some pc
  | keyOutside _ pc => some pc

end Fault

end Chip8
