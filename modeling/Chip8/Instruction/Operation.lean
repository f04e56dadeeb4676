/-!
# Operations

The operations of the instruction set with the keys they are known by, and the recognition
of the operation that an instruction word asks for.
-/

namespace Chip8

/-- The operations of the machine. -/
inductive Operation where
  /-- `0NN0`: clear the screen. -/
  | clear
  /-- `0NNE`: return from a subroutine. -/
  | ret
  /-- `1NNN`: jump. -/
  | jump
  /-- `2NNN`: call a subroutine. -/
  | call
  /-- `3XNN`: skip if `VX` is `NN`. -/
  | skipIfByte
  /-- `4XNN`: skip unless `VX` is `NN`. -/
  | skipUnlessByte
  /-- `5XYN`: skip if `VX` is `VY`. -/
  | skipIfEqual
  /-- `6XNN`: set `VX` to `NN`. -/
  | loadByte
  /-- `7XNN`: add `NN` to `VX` without a carry. -/
  | addByte
  /-- `8XY0`: copy `VY` to `VX`. -/
  | copy
  /-- `8XY1`: bitwise or. -/
  | bitOr
  /-- `8XY2`: bitwise and. -/
  | bitAnd
  /-- `8XY3`: bitwise exclusive or. -/
  | bitXor
  /-- `8XY4`: add `VY` to `VX` with a carry. -/
  | add
  /-- `8XY5`: subtract `VY` from `VX` unless that borrows. -/
  | subtract
  /-- `8XY6`: shift `VX` right. -/
  | shiftRight
  /-- `8XY7`: subtract `VX` from `VY` into `VX`. -/
  | subtractFrom
  /-- `8XYE`: shift `VX` left. -/
  | shiftLeft
  /-- `9XYN`: skip unless `VX` is `VY`. -/
  | skipUnlessEqual
  /-- `ANNN`: set `I`. -/
  | loadIndex
  /-- `BNNN`: jump by `V0` beyond an address. -/
  | jumpBeyond
  /-- `CXNN`: set `VX` to a random byte under a mask. -/
  | random
  /-- `DXYN`: draw a sprite. -/
  | draw
  /-- `EX9E`: skip if the key `VX` is pressed. -/
  | skipIfPressed
  /-- `EXA1`: skip unless the key `VX` is pressed. -/
  | skipUnlessPressed
  /-- `FX07`: read the delay timer. -/
  | readDelay
  /-- `FX0A`: wait for a key. -/
  | awaitKey
  /-- `FX15`: set the delay timer. -/
  | setDelay
  /-- `FX18`: set the sound timer. -/
  | setSound
  /-- `FX1E`: add `VX` to `I`. -/
  | addIndex
  /-- `FX29`: point `I` to the glyph of `VX`. -/
  | loadGlyph
  /-- `FX33`: store the decimal digits of `VX`. -/
  | storeDecimal
  /-- `FX55`: store the registers up to `VX`. -/
  | storeRegisters
  /-- `FX65`: load the registers up to `VX`. -/
  | loadRegisters
  /-- Every other word: no effect. -/
  | unrecognized
deriving DecidableEq

namespace Operation

def all : List Operation :=
  [clear, ret, jump, call, skipIfByte, skipUnlessByte, skipIfEqual, loadByte, addByte, copy,
    bitOr, bitAnd, bitXor, add, subtract, shiftRight, subtractFrom, shiftLeft,
    skipUnlessEqual, loadIndex, jumpBeyond, random, draw, skipIfPressed, skipUnlessPressed,
    readDelay, awaitKey, setDelay, setSound, addIndex, loadGlyph, storeDecimal,
    storeRegisters, loadRegisters, unrecognized]

/-- The key that an operation is registered under. -/
def key : Operation → String
  | clear => "OP_CLS"
  | ret => "OP_RET"
  | jump => "OP_JP"
  | call => "OP_CALL"
  | skipIfByte => "OP_SE_VX_NN"
  | skipUnlessByte => "OP_SNE_VX_NN"
  | skipIfEqual => "OP_SE_VX_VY"
  | loadByte => "OP_LD_VX_NN"
  | addByte => "OP_ADD_VX_NN"
  | copy => "OP_LD_VX_VY"
  | bitOr => "OP_OR"
  | bitAnd => "OP_AND"
  | bitXor => "OP_XOR"
  | add => "OP_ADD_VX_VY"
  | subtract => "OP_SUB"
  | shiftRight => "OP_SHR"
  | subtractFrom => "OP_SUBN"
  | shiftLeft => "OP_SHL"
  | skipUnlessEqual => "OP_SNE_VX_VY"
  | loadIndex => "OP_LD_I"
  | jumpBeyond => "OP_JP_V0"
  | random => "OP_RND"
  | draw => "OP_DRW"
  | skipIfPressed => "OP_SKP"
  | skipUnlessPressed => "OP_SKNP"
  | readDelay => "OP_LD_VX_DT"
  | awaitKey => "OP_LD_VX_K"
  | setDelay => "OP_LD_DT_VX"
  | setSound => "OP_LD_ST_VX"
  | addIndex => "OP_ADD_I_VX"
  | loadGlyph => "OP_LD_F_VX"
  | storeDecimal => "OP_LD_B_VX"
  | storeRegisters => "OP_LD_I_VX"
  | loadRegisters => "OP_LD_VX_I"
  | unrecognized => "OP_INVALID"

theorem mem_all (operation : Operation) : operation ∈ all := by
  cases operation <;> decide

end Operation

end Chip8
