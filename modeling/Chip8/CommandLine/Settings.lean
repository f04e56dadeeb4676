import Chip8.CommandLine.UsageError
import Chip8.Error
import Chip8.Number.FloatLiteral

/-!
# Settings

What a command line asks for, and the values that hold where it says nothing.  A value that
is `--` leaves the setting vacant: no keys are held down then, and any other setting is an
error as soon as the run comes to use it.  This is how argparse treats the value up to release
3.11.8; later releases take an attached `--` as a text like any other.
-/

namespace Chip8.CommandLine

/-- What a command line asks for. -/
structure Settings where
  rom : String
  seconds : Float := 1.0
  fps : Float := 60.0
  stepsPerCall : Int := 1
  seed : Option Int := none
  keys : String := ""
  quiet : Bool := false
  verbose : Bool := false
  vacant : List Setting := []

/-- Settings that are being collected, and the arguments that belong to no switch. -/
structure Draft where
  rom : Option String := none
  settings : Settings := { rom := "" }
  strays : List String := []

/-- Why reading a command line ends early. -/
inductive Stop where
  | help
  | usage (error : UsageError)

namespace Draft

/-- Puts an argument that belongs to no switch behind the others. -/
def leave (text : String) (draft : Draft) : Draft :=
  { draft with strays := draft.strays ++ [text] }

def readFloat (switch : Switch) (text : String) : Except Stop Float :=
  match FloatLiteral.read? text with
  | some value => .ok value
  | none => .error (.usage (.notAFloat switch text))

def readInteger (switch : Switch) (text : String) : Except Stop Int :=
  match IntegerLiteral.read? .decimal text with
  | some value => .ok value
  | none => .error (.usage (.notAnInteger switch text))

/-- The text in place of a value that leaves the setting vacant. -/
abbrev vacantMark : String := "--"

def markVacant (setting : Setting) (draft : Draft) : Draft :=
  { draft with settings.vacant := setting :: draft.settings.vacant }

def unmarkVacant (setting : Setting) (draft : Draft) : Draft :=
  { draft with settings.vacant := draft.settings.vacant.filter (· ≠ setting) }

/-- Carries a switch out; `value` is empty for a switch that takes none. -/
def assign (switch : Switch) (value : String) (draft : Draft) : Except Stop Draft :=
  match switch with
  | .help => .error .help
  | .rom => .ok { draft.unmarkVacant .program with rom := some value }
  | .seconds => do
      let seconds ← readFloat switch value
      return { draft.unmarkVacant .seconds with settings.seconds := seconds }
  | .fps => do
      let fps ← readFloat switch value
      return { draft.unmarkVacant .frameRate with settings.fps := fps }
  | .stepsPerCall => do
      let steps ← readInteger switch value
      return { draft.unmarkVacant .stepsPerCall with settings.stepsPerCall := steps }
  | .seed => do
      let seed ← readInteger switch value
      return { draft.unmarkVacant .seed with settings.seed := some seed }
  | .keys => .ok { draft with settings.keys := value }
  | .quiet => .ok { draft with settings.quiet := true }
  | .verbose => .ok { draft with settings.verbose := true }

/-- Leaves the setting of a switch vacant; switches without a value have none to leave. -/
def leaveVacant (switch : Switch) (draft : Draft) : Draft :=
  match switch with
  | .rom => { draft.markVacant .program with rom := some "" }
  | .seconds => draft.markVacant .seconds
  | .fps => draft.markVacant .frameRate
  | .stepsPerCall => draft.markVacant .stepsPerCall
  | .seed => draft.markVacant .seed
  | .keys => { draft with settings.keys := "" }
  | .help | .quiet | .verbose => draft

/-- Carries a switch out, or leaves its setting vacant. -/
def set (switch : Switch) (value : String) (draft : Draft) : Except Stop Draft :=
  if value = vacantMark then .ok (draft.leaveVacant switch) else draft.assign switch value

def setAll (assignments : List (Switch × String)) (draft : Draft) : Except Stop Draft :=
  assignments.foldlM (fun draft (switch, value) => draft.set switch value) draft

/-- The collected settings, if a program is named and every argument belongs to a switch. -/
def finish (draft : Draft) : Except Stop Settings :=
  match draft.rom with
  | none => .error (.usage .noRom)
  | some rom =>
      if draft.strays.isEmpty then .ok { draft.settings with rom := rom }
      else .error (.usage (.unrecognized draft.strays))

end Draft

end Chip8.CommandLine
