import Chip8.Interpreter.Frames
import Chip8.Interpreter.Lifecycle
import Chip8.Interpreter.Summary
import Chip8.KeyList
import Chip8.Screen.Picture
import Chip8.Showcase.Programs

/-!
# Showcase runs

A run of a sample program or of a program file, shown as a picture of the final screen, a
summary and the registers.  Errors of the program, of its file and of the values that are
asked for are shown in place of the summary.
-/

namespace Chip8.Showcase

/-- What a run is asked for. -/
structure Request where
  /-- The name of a sample program, used when no file is named. -/
  sample : String
  file : Option String
  seconds : Float
  stepsPerCall : Int
  /-- The seed of the random source; there is none if this is missing or negative. -/
  seed : Option Int
  /-- The keys that are held down, as hexadecimal literals. -/
  keys : List String

/-- What a run shows. -/
structure Exhibit where
  picture : Option Picture
  summary : String
  registers : String

/-- An error in place of a run. -/
def Exhibit.ofError (text : String) : Exhibit where
  picture := none
  summary := "Error: " ++ text
  registers := ""

/-- Whether an error is shown rather than passed on. -/
def isShown (e : Error) : Bool :=
  match e.kind with
  | .fault | .storage | .value => true
  | _ => false

/-- A line of `width` equals signs. -/
def rule (width : Nat) : String := String.ofList (List.replicate width '=')

/-- The summary of a run. -/
def summaryText (source : String) (summary : Summary) : String :=
  "\n".intercalate
    ["EXECUTION SUMMARY", rule 40,
      "ROM: " ++ source ++ " (" ++ toString summary.programLength ++ " bytes)",
      "Cycles: " ++ toString summary.cycles,
      "State: " ++ summary.runState.name,
      "Beeps: " ++ toString summary.beeps,
      "Lit pixels: " ++ toString summary.litPixels]

/-- The line of a register; a star marks one that is not zero. -/
def registerLine (name : String) (value : Int) : String :=
  let margin := String.ofList (List.replicate (2 - name.length) ' ')
  "  " ++ margin ++ name ++ ": " ++ Hexadecimal.address value ++
    (if value = 0 then "" else " *")

/-- The registers of a run. -/
def registerText (registers : List (String × Int)) : String :=
  "\n".intercalate
    (["FINAL REGISTERS", rule 30] ++
      registers.map fun (name, value) => registerLine name value)

/-- What is shown of an interpreter at the end of its run.  A picture at the usual scale is small, so
the library for its tables is one that never lacks room. -/
def exhibit (source : String) (s : Interpreter Float) : Except Error Exhibit := do
  let picture ← Picture.ofScreen .ample Picture.usualScale s.machine.screen
  let summary := s.summary
  return {
    picture := some picture
    summary := summaryText source summary
    registers := registerText summary.registers }

/-- The seed of a run; `chance` is used where none is asked for. -/
def Request.seedOr (request : Request) (chance : Int) : Int :=
  match request.seed with
  | some seed => if 0 ≤ seed then seed else chance
  | none => chance

/-- Loads the program of a request and gives the name of its source; there may be none. -/
def load (reader : Interpreter.Reader) (request : Request) :
    Interpreter.Action Float (Option String) := do
  match request.file.filter (· != "") with
  | some file =>
      let _ ← Interpreter.loadRom reader file
      return some (Path.ofText file).lastName
  | none =>
      match programs.lookup request.sample with
      | some program =>
          let _ ← Interpreter.loadProgram (program.map fun byte => (byte.toNat : Int))
          return some request.sample
      | none => return none

/-- The whole run, and the name of its source if there was a program. -/
def perform (reader : Interpreter.Reader) (request : Request) :
    Interpreter.Action Float (Option String) := do
  Interpreter.start 0.0
  match (request.keys.map String.toList).mapM KeyList.readKey with
  | .ok keys => Interpreter.setKeys keys
  | .error e => throw e
  let source ← load reader request
  if source.isSome then
    Interpreter.runFor request.seconds Interpreter.cyclesPerSecond
  return source

/-- The run as far as no error ends it. -/
def attempt (reader : Interpreter.Reader) (chance : Int) (request : Request) :
    Except Error Exhibit := do
  let s ← Interpreter.create request.stepsPerCall (request.seedOr chance) none
  match perform reader request s with
  | .error e _ => .error e
  | .ok none _ => .ok (.ofError "No ROM provided")
  | .ok (some source) s => exhibit source s

/-- The run that a request asks for.  Errors that are not shown are passed on. -/
def run (reader : Interpreter.Reader) (chance : Int) (request : Request) :
    Except Error Exhibit :=
  match attempt reader chance request with
  | .error e => if isShown e then .ok (.ofError e.message) else .error e
  | .ok exhibit => .ok exhibit

end Chip8.Showcase
