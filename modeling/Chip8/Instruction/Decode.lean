import Chip8.Instruction.Operands
import Chip8.Instruction.Operation
import Chip8.Text.Hexadecimal

/-!
# Decoding

An instruction word is decoded by its leading digit, its family.  Families 0 and 8 go on to
the last digit and families E and F to the last two; the other families have one operation
each.  Only the low sixteen bits of a word matter.
-/

namespace Chip8

namespace Operation

/-- Operations of family 0, by the last digit. -/
def ofSystem : Nat → Operation
  | 0x0 => clear
  | 0xE => ret
  | _ => unrecognized

/-- Operations of family 8, by the last digit. -/
def ofArithmetic : Nat → Operation
  | 0x0 => copy
  | 0x1 => bitOr
  | 0x2 => bitAnd
  | 0x3 => bitXor
  | 0x4 => add
  | 0x5 => subtract
  | 0x6 => shiftRight
  | 0x7 => subtractFrom
  | 0xE => shiftLeft
  | _ => unrecognized

/-- Operations of family E, by the last two digits. -/
def ofKeySkip : Nat → Operation
  | 0x9E => skipIfPressed
  | 0xA1 => skipUnlessPressed
  | _ => unrecognized

/-- Operations of family F, by the last two digits. -/
def ofMiscellany : Nat → Operation
  | 0x07 => readDelay
  | 0x0A => awaitKey
  | 0x15 => setDelay
  | 0x18 => setSound
  | 0x1E => addIndex
  | 0x29 => loadGlyph
  | 0x33 => storeDecimal
  | 0x55 => storeRegisters
  | 0x65 => loadRegisters
  | _ => unrecognized

/-- The operation of a word, by its family, its last digit and its last two digits. -/
def ofDigits (family last lastTwo : Nat) : Operation :=
  match family with
  | 0x0 => ofSystem last
  | 0x1 => jump
  | 0x2 => call
  | 0x3 => skipIfByte
  | 0x4 => skipUnlessByte
  | 0x5 => skipIfEqual
  | 0x6 => loadByte
  | 0x7 => addByte
  | 0x8 => ofArithmetic last
  | 0x9 => skipUnlessEqual
  | 0xA => loadIndex
  | 0xB => jumpBeyond
  | 0xC => random
  | 0xD => draw
  | 0xE => ofKeySkip lastTwo
  | 0xF => ofMiscellany lastTwo
  | _ => unrecognized

/-- The operation that an instruction word asks for. -/
def ofWord (word : Int) : Operation :=
  ofDigits (word / 4096 % 16).toNat (word % 16).toNat (word % 256).toNat

end Operation

/-- A decoded instruction: its operation and the sixteen bits it was decoded from. -/
structure Decoded where
  operation : Operation
  word : Int
deriving DecidableEq

def decode (word : Int) : Decoded where
  operation := Operation.ofWord word
  word := word % 65536

namespace Decoded

/-- A word is valid when some operation recognises it. -/
def valid (decoded : Decoded) : Bool :=
  decoded.operation ≠ .unrecognized

def key (decoded : Decoded) : String :=
  decoded.operation.key

/-- The operands of the operation; an unrecognised word has none. -/
def operands (decoded : Decoded) : Operands :=
  if decoded.valid then Operands.ofWord decoded.word else {}

/-- The named values of a decoded word: its operands, or the whole word if it is not
recognised. -/
def entries (decoded : Decoded) : List (String × Int) :=
  if decoded.valid then decoded.operands.entries else [("raw", decoded.word)]

/-- What is wrong with a word that is not recognised. -/
def problem? (decoded : Decoded) : Option String :=
  if decoded.valid then none
  else some ("Unknown instruction: " ++ Hexadecimal.word decoded.word)

end Decoded

end Chip8
