/-!
# Switches

The switches of the command line.  Each has a long spelling, most have a short one, and some
take a value.
-/

namespace Chip8.CommandLine

inductive Switch where
  | help
  | rom
  | seconds
  | fps
  | stepsPerCall
  | seed
  | keys
  | quiet
  | verbose
deriving DecidableEq

namespace Switch

def all : List Switch :=
  [help, rom, seconds, fps, stepsPerCall, seed, keys, quiet, verbose]

/-- The spellings of a switch in the order of the table. -/
def spellings : Switch → List String
  | help => ["-h", "--help"]
  | rom => ["--rom", "-r"]
  | seconds => ["--seconds", "-t"]
  | fps => ["--fps"]
  | stepsPerCall => ["--steps-per-call", "-s"]
  | seed => ["--seed"]
  | keys => ["--keys", "-k"]
  | quiet => ["--quiet", "-q"]
  | verbose => ["--verbose", "-v"]

def name (switch : Switch) : String :=
  "/".intercalate switch.spellings

def takesValue : Switch → Bool
  | rom | seconds | fps | stepsPerCall | seed | keys => true
  | help | quiet | verbose => false

/-- Every spelling with its switch, in the order of the table. -/
def table : List (String × Switch) :=
  all.flatMap fun switch => switch.spellings.map (·, switch)

/-- The switch that a text spells. -/
def ofSpelling? (text : String) : Option Switch :=
  table.lookup text

def ofLetter? (c : Char) : Option Switch :=
  ofSpelling? (String.ofList ['-', c])

end Switch

end Chip8.CommandLine
