import Chip8.Machine.Stack

/-!
# Reports

What a machine shows of itself: its registers by name, a snapshot, a state line, and
whether its values are in range.
-/

namespace Chip8

/-- The values of a machine that a snapshot keeps. -/
structure Snapshot where
  registers : List (String × Int)
  stack : List Int
  opcode : Int
  runState : RunState
  cycles : Int

namespace Machine

/-- The `V` registers by name. -/
def namedRegisters (m : Machine) : List (String × Int) :=
  (m.v.toList.zipIdx).map fun (value, n) => ("V" ++ Hexadecimal.index n, value)

def registers (m : Machine) : List (String × Int) :=
  m.namedRegisters ++
    [("I", m.i), ("PC", m.pc), ("SP", m.sp), ("DT", m.delay), ("ST", m.sound)]

/-- A snapshot of registers and control state. -/
def snapshot (m : Machine) : Snapshot where
  registers := m.registers
  stack := m.usedStack
  opcode := m.opcode
  runState := m.runState
  cycles := m.cycles

/-- Whether all tables have their sizes and all values are in range. -/
def valid (m : Machine) : Bool :=
  m.memory.size == memorySize && m.v.size == registerCount && m.stack.size == stackDepth &&
    m.keys.size == keyCount && m.screen.size == screenHeight &&
    m.screen.all (fun row => row.size == screenWidth) &&
    (m.v.toList ++ [m.delay, m.sound]).all (fun value => 0 ≤ value && value ≤ 0xFF) &&
    (0 ≤ m.i && m.i ≤ 0xFFFF) && (0 ≤ m.pc && m.pc < memorySize) &&
    (0 ≤ m.sp && m.sp ≤ stackDepth)

def line (m : Machine) : String :=
  let bank := m.namedRegisters.map fun (name, value) => name ++ "=" ++ Hexadecimal.byte value
  "[Cycle " ++ toString m.cycles ++ "] PC=" ++ Hexadecimal.location m.pc ++
    " I=" ++ Hexadecimal.location m.i ++ " SP=" ++ toString m.sp ++
    " DT=" ++ toString m.delay ++ " ST=" ++ toString m.sound ++ " " ++
    " ".intercalate bank ++ " " ++ m.runState.label

end Machine

end Chip8
