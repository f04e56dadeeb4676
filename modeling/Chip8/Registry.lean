import Chip8.Execute.Perform
import Chip8.Instruction.Decode

/-!
# Registry

The table of what is done under each operation key.  It only grows, and while it is frozen
it does not change at all.  The standard registry holds the operations of the machine.
-/

namespace Chip8

/-- What is done with given operands. -/
abbrev Handler := Operands → Machine.Action Unit

/-- The handlers by their keys, in the order in which they were registered. -/
structure Registry where
  entries : List (String × Handler)
  frozen : Bool

namespace Registry

def keys (registry : Registry) : List String :=
  registry.entries.map Prod.fst

def handler? (registry : Registry) (key : String) : Option Handler :=
  registry.entries.lookup key

/-- Registers a handler under a new key. -/
def register (key : String) (handler : Handler) (registry : Registry) :
    Except Error Registry :=
  if registry.frozen then .error .registryFrozen
  else if registry.keys.contains key then .error (.alreadyRegistered key)
  else .ok { registry with entries := registry.entries ++ [(key, handler)] }

def freeze (registry : Registry) : Registry :=
  { registry with frozen := true }

def unfreeze (registry : Registry) : Registry :=
  { registry with frozen := false }

/-- Does what is registered under a key. -/
def execute (registry : Registry) (key : String) (operands : Operands) :
    Machine.Action Unit := fun m =>
  match registry.handler? key with
  | some handler => handler operands m
  | none => .error (.unknownOperation key) m

/-- The frozen registry of all operations. -/
def standard : Registry where
  entries := Operation.all.map fun operation => (operation.key, operation.perform)
  frozen := true

/-- Carries a decoded instruction out by the standard registry. -/
def run (decoded : Decoded) : Machine.Action Unit :=
  standard.execute decoded.key decoded.operands

end Registry

end Chip8
