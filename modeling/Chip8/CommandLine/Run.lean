import Chip8.CommandLine.Help
import Chip8.CommandLine.Parse
import Chip8.Interpreter.Frames
import Chip8.Interpreter.Lifecycle
import Chip8.Interpreter.Summary
import Chip8.KeyList
import Chip8.Screen.Text

/-!
# Command line runs

A run of a program from the command line: the settings are checked, the program is loaded and
run for its time, and the final screen is shown with the figures of the run.  The exit status
is 0, 1 if the program cannot be loaded or faulted, and 2 if the command line is wrong.
-/

namespace Chip8.CommandLine

/-- What a run leaves behind. -/
structure Transcript where
  /-- The exit status, or the error that ended the run. -/
  ending : Except Error Nat
  /-- What the run shows. -/
  output : String
  /-- What the run reports about itself. -/
  log : String

/-- The name that the program reports errors under. -/
abbrev programName : String := "main.py"

/-- A run that a usage error ends. -/
def refuse (error : UsageError) : Transcript where
  ending := .ok 2
  output := ""
  log := programName ++ ": error: " ++ error.message ++ "\n"

/-- A line across the screen. -/
def rule : String := String.ofList (List.replicate screenWidth '-')

/-- Lines with their line breaks. -/
def paragraph (lines : List String) : String :=
  String.join (lines.map (· ++ "\n"))

def registerText (registers : List (String × Int)) : String :=
  "\x7b" ++
    ", ".intercalate
      (registers.map fun (name, value) => Quoted.quote name ++ ": " ++ toString value) ++
    "\x7d"

def opening (settings : Settings) (length : Int) : List String :=
  if settings.quiet then []
  else ["Loaded ROM: " ++ settings.rom ++ " (" ++ toString length ++ " bytes)", rule]

def closing (settings : Settings) (s : Interpreter Float) : List String :=
  let screen := Screen.text Screen.litMark Screen.darkMark s.machine.screen
  if settings.quiet then [screen]
  else
    let summary := s.summary
    [screen, rule,
      "Cycles: " ++ toString summary.cycles,
      "State: " ++ summary.runState.name,
      "Beeps: " ++ toString summary.beeps,
      "Registers: " ++ registerText summary.registers]

/-- The events that are reported, in their order. -/
def report (settings : Settings) (s : Interpreter Float) : String :=
  let least := if settings.verbose then Severity.debug else Severity.warning
  paragraph ((s.journal.reverse.filter fun event => least.rank ≤ event.severity.rank).map
    Event.line)

/-- A run that an error ends before anything is shown. -/
def abandon (error : Error) (log : String) : Transcript where
  ending := .error error
  output := ""
  log := log

/-- The end of a run that uses a vacant setting. -/
def checkVacant (settings : Settings) (setting : Setting) : Except Transcript Unit :=
  if setting ∈ settings.vacant then .error (abandon (.vacantSetting setting) "") else .ok ()

/-- The end of a run whose settings are out of range. -/
def checkRange (wrong : Bool) (error : UsageError) : Except Transcript Unit :=
  if wrong then .error (refuse error) else .ok ()

/-- The keys of settings that are fit for a run, or how the run ends because they are not. -/
def check (settings : Settings) : Except Transcript (List Int) := do
  checkVacant settings .seconds
  checkRange (settings.seconds < 0.0) .negativeSeconds
  checkVacant settings .frameRate
  checkRange (settings.fps ≤ 0.0) .fpsNotPositive
  checkVacant settings .stepsPerCall
  checkRange (settings.stepsPerCall < 1) .noSteps
  match KeyList.read settings.keys with
  | .ok keys =>
      checkVacant settings .seed
      return keys
  | .error _ => throw (refuse (.badKeyList settings.keys))

/-- The interpreter that a run starts with, its keys pressed. -/
def prepare (settings : Settings) (keys : List Int) (seed : Int) :
    Except Error (Interpreter Float) := do
  let s ← Interpreter.create settings.stepsPerCall seed none
  match (do Interpreter.start 0.0; Interpreter.setKeys keys : Interpreter.Action Float Unit) s with
  | .ok _ s => .ok s
  | .error e _ => .error e

def perform (settings : Settings) (s : Interpreter Float) : Transcript :=
  let before := paragraph (opening settings s.machine.programLength)
  match Interpreter.runFor settings.seconds settings.fps s with
  | .error e s => { ending := .error e, output := before, log := report settings s }
  | .ok _ s =>
      { ending := .ok (if s.isHalted then 1 else 0)
        output := before ++ paragraph (closing settings s)
        log := report settings s }

def loadAndPerform (reader : Interpreter.Reader) (settings : Settings)
    (s : Interpreter Float) : Transcript :=
  match Interpreter.loadRom reader settings.rom s with
  | .ok _ s => perform settings s
  | .error e s =>
      match e.kind with
      | .fault | .storage =>
          { ending := .ok 1
            output := paragraph ["Error: " ++ e.message]
            log := report settings s }
      | _ => abandon e (report settings s)

/-- A run with given settings; the seed is used unless the settings have one. -/
def runSettings (reader : Interpreter.Reader) (seed : Int) (settings : Settings) :
    Transcript :=
  match check settings with
  | .error transcript => transcript
  | .ok keys =>
      match prepare settings keys (settings.seed.getD seed) with
      | .error e => refuse (.badKey e.message)
      | .ok s =>
          if .program ∈ settings.vacant then
            abandon (.vacantSetting .program) (report settings s)
          else loadAndPerform reader settings s

/-- The run that a command line asks for. -/
def run (reader : Interpreter.Reader) (seed : Int) (arguments : List String) : Transcript :=
  match parse arguments with
  | .error .help => { ending := .ok 0, output := paragraph helpLines, log := "" }
  | .error (.usage e) => refuse e
  | .ok settings => runSettings reader seed settings

end Chip8.CommandLine
