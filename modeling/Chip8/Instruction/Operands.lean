/-!
# Operand fields

The fields that an instruction word carries beside its operation.  Any of them may be
missing when an operation is carried out with operands of its own rather than with those of
a word, and their values are then not limited either.
-/

namespace Chip8

/-- The operand fields of an instruction word. -/
inductive Field where
  /-- The number of the first register, bits 8 to 11. -/
  | x
  /-- The number of the second register, bits 4 to 7. -/
  | y
  /-- The height of a sprite, bits 0 to 3. -/
  | n
  /-- A byte, bits 0 to 7. -/
  | nn
  /-- An address, bits 0 to 11. -/
  | nnn
deriving DecidableEq

namespace Field

def all : List Field := [x, y, n, nn, nnn]

def name : Field → String
  | x => "x"
  | y => "y"
  | n => "n"
  | nn => "nn"
  | nnn => "nnn"

/-- The value of a field in an instruction word.  A negative word has infinitely many
leading ones, so that it has the fields of its low sixteen bits. -/
def ofWord (word : Int) : Field → Int
  | x => word / 256 % 16
  | y => word / 16 % 16
  | n => word % 16
  | nn => word % 256
  | nnn => word % 4096

end Field

/-- Values for some of the operand fields. -/
structure Operands where
  x : Option Int := none
  y : Option Int := none
  n : Option Int := none
  nn : Option Int := none
  nnn : Option Int := none
deriving DecidableEq

namespace Operands

/-- The value given for a field. -/
def get? (operands : Operands) : Field → Option Int
  | .x => operands.x
  | .y => operands.y
  | .n => operands.n
  | .nn => operands.nn
  | .nnn => operands.nnn

/-- The operands of an instruction word. -/
def ofWord (word : Int) : Operands where
  x := some (Field.ofWord word .x)
  y := some (Field.ofWord word .y)
  n := some (Field.ofWord word .n)
  nn := some (Field.ofWord word .nn)
  nnn := some (Field.ofWord word .nnn)

/-- The given values with the names of their fields. -/
def entries (operands : Operands) : List (String × Int) :=
  Field.all.filterMap fun field => (operands.get? field).map (field.name, ·)

/-- A word gives every field its value. -/
theorem get?_ofWord (word : Int) (field : Field) :
    (ofWord word).get? field = some (Field.ofWord word field) := by
  cases field <;> rfl

end Operands

end Chip8
