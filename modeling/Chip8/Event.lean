import Chip8.Fault

/-!
# Events

What an interpreter reports while it works, with the severity and the text of each event.
-/

namespace Chip8

/-- How grave an event is. -/
inductive Severity where
  | debug
  | info
  | warning
deriving DecidableEq

namespace Severity

def name : Severity → String
  | debug => "DEBUG"
  | info => "INFO"
  | warning => "WARNING"

/-- The rank of a severity; graver events rank higher. -/
def rank : Severity → Nat
  | debug => 0
  | info => 1
  | warning => 2

end Severity

/-- Something that an interpreter reports. -/
inductive Event where
  | initialized (pc : Int)
  /-- A program was not loaded, because the interpreter is not initialized. -/
  | programIgnored
  /-- A program file was not read, because the interpreter is not initialized. -/
  | romIgnored
  | programLoaded (length : Int)
  | restarted
  | faulted (pc : Int) (fault : Fault)
  /-- The sound timer ran out, and nobody listens. -/
  | beep
  /-- A word was decoded that is no instruction. -/
  | unrecognized (word : Int)
deriving DecidableEq

namespace Event

def severity : Event → Severity
  | .initialized _ | .programLoaded _ | .restarted | .beep => .info
  | .programIgnored | .romIgnored | .faulted _ _ => .warning
  | .unrecognized _ => .debug

def reporter : Event → String
  | .unrecognized _ => "chip8_vm.decode"
  | _ => "chip8_vm.cpu"

def text : Event → String
  | .initialized pc => "Interpreter initialized, PC=" ++ Hexadecimal.location pc
  | .programIgnored => "Program load ignored: interpreter not initialized"
  | .romIgnored => "ROM load ignored: interpreter not initialized"
  | .programLoaded length =>
      "Loaded " ++ toString length ++ " program bytes at " ++
        Hexadecimal.location programStart
  | .restarted => "Interpreter restarted"
  | .faulted pc cause =>
      "Machine fault at PC=" ++ Hexadecimal.location pc ++ ": " ++ cause.message
  | .beep => "BEEP"
  | .unrecognized word => "Unrecognized instruction " ++ Hexadecimal.word word

/-- The line that reports an event. -/
def line (event : Event) : String :=
  event.severity.name ++ " " ++ event.reporter ++ ": " ++ event.text

end Event

end Chip8
