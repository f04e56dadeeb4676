import Chip8.Execute.Arithmetic
import Chip8.Execute.Draw
import Chip8.Execute.Flow
import Chip8.Execute.Peripheral
import Chip8.Execute.Transfer
import Chip8.Instruction.Operation

/-!
# Execution

What each operation does with its operands.  Every operation moves the program counter
itself; an unrecognized one leaves the machine as it is.
-/

namespace Chip8.Operation

def perform : Operation → Operands → Machine.Action Unit
  | clear, _ => Execute.clear
  | ret, _ => Execute.ret
  | jump, operands => Execute.jump operands
  | call, operands => Execute.call operands
  | skipIfByte, operands => Execute.skipByte true operands
  | skipUnlessByte, operands => Execute.skipByte false operands
  | skipIfEqual, operands => Execute.skipRegister true operands
  | loadByte, operands => Execute.loadByte operands
  | addByte, operands => Execute.addByte operands
  | copy, operands => Execute.copy operands
  | bitOr, operands => Execute.bitwise (· ||| ·) operands
  | bitAnd, operands => Execute.bitwise (· &&& ·) operands
  | bitXor, operands => Execute.bitwise (· ^^^ ·) operands
  | add, operands => Execute.add operands
  | subtract, operands => Execute.subtract operands
  | shiftRight, operands => Execute.shiftRight operands
  | subtractFrom, operands => Execute.subtractFrom operands
  | shiftLeft, operands => Execute.shiftLeft operands
  | skipUnlessEqual, operands => Execute.skipRegister false operands
  | loadIndex, operands => Execute.loadIndex operands
  | jumpBeyond, operands => Execute.jumpBeyond operands
  | random, operands => Execute.random operands
  | draw, operands => Execute.draw operands
  | skipIfPressed, operands => Execute.skipKey true operands
  | skipUnlessPressed, operands => Execute.skipKey false operands
  | readDelay, operands => Execute.readDelay operands
  | awaitKey, operands => Execute.awaitKey operands
  | setDelay, operands => Execute.setDelay operands
  | setSound, operands => Execute.setSound operands
  | addIndex, operands => Execute.addIndex operands
  | loadGlyph, operands => Execute.loadGlyph operands
  | storeDecimal, operands => Execute.storeDecimal operands
  | storeRegisters, operands => Execute.transfer Execute.storeRegister operands
  | loadRegisters, operands => Execute.transfer Execute.loadRegister operands
  | unrecognized, _ => pure ()

end Chip8.Operation
