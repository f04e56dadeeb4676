import Chip8.CommandLine.Switch
import Chip8.Text.Quoted

/-!
# Usage errors

What can be wrong with a command line.
-/

namespace Chip8.CommandLine

/-- What is wrong with a command line. -/
inductive UsageError where
  /-- A text abbreviates several spellings. -/
  | ambiguous (text : String) (candidates : List String)
  | noValue (switch : Switch)
  | unwantedValue (switch : Switch) (text : String)
  | notAFloat (switch : Switch) (text : String)
  | notAnInteger (switch : Switch) (text : String)
  | noRom
  | unrecognized (texts : List String)
  | negativeSeconds
  | fpsNotPositive
  /-- A frame would have no cycle at all. -/
  | noSteps
  | badKeyList (text : String)
  | badKey (reason : String)
deriving DecidableEq

namespace UsageError

/-- The text of a fault of one switch. -/
def about (switch : Switch) (problem : String) : String :=
  "argument " ++ switch.name ++ ": " ++ problem

def message : UsageError → String
  | .ambiguous text candidates =>
      "ambiguous option: " ++ text ++ " could match " ++ ", ".intercalate candidates
  | .noValue switch => about switch "expected one argument"
  | .unwantedValue switch text =>
      about switch ("ignored explicit argument " ++ Quoted.quote text)
  | .notAFloat switch text => about switch ("invalid float value: " ++ Quoted.quote text)
  | .notAnInteger switch text => about switch ("invalid int value: " ++ Quoted.quote text)
  | .noRom => "the following arguments are required: " ++ Switch.rom.name
  | .unrecognized texts => "unrecognized arguments: " ++ " ".intercalate texts
  | .negativeSeconds => "--seconds must be >= 0"
  | .fpsNotPositive => "--fps must be > 0"
  | .noSteps => "--steps-per-call must be >= 1"
  | .badKeyList text => "Invalid --keys value: " ++ text
  | .badKey reason => reason

end UsageError

end Chip8.CommandLine
