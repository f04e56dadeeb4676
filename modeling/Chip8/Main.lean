import Chip8.CommandLine.Run

/-!
# Main program

Reads the command line and the program file, and shows what the run leaves behind.
-/

namespace Chip8.CommandLine

/-- A random number to seed a run with. -/
def drawSeed : IO Int := do
  let bytes ← IO.getRandomBytes 8
  return bytes.toList.foldl (fun n byte => n * 256 + (byte.toNat : Int)) 0

/-- The number that the system reports when a directory is read as a file. -/
abbrev isADirectoryCode : UInt32 := 21

/-- The number that the system reports when a name or a path is too long.  Some of its calls
report it with the opposite sign. -/
abbrev nameTooLongCode : UInt32 := 36

/-- Reads a file, with the cause if that fails. -/
def readFile (path : String) : IO (Except FileFault (List UInt8)) := do
  try
    return .ok (← IO.FS.readBinFile path).toList
  catch
    | .inappropriateType _ code _ =>
        return .error (if code = isADirectoryCode then .isADirectory else .notADirectory)
    | .noFileOrDirectory _ _ _ => return .error .notFound
    | .invalidArgument _ code details =>
        if code = nameTooLongCode ∨ code = -nameTooLongCode then return .error .nameTooLong
        else throw (.invalidArgument none code details)
    | e => throw e

/-- The files that a command line needs. -/
def readerFor (arguments : List String) : IO Interpreter.Reader := do
  match parse arguments with
  | .ok settings =>
      let contents ← readFile (Path.ofText settings.rom).text
      return fun _ => contents
  | .error _ => return fun _ => .error .notFound

end Chip8.CommandLine

open Chip8.CommandLine

def main (arguments : List String) : IO UInt32 := do
  let transcript := run (← readerFor arguments) (← drawSeed) arguments
  (← IO.getStderr).putStr transcript.log
  (← IO.getStdout).putStr transcript.output
  match transcript.ending with
  | .ok status => return UInt32.ofNat status
  | .error e =>
      (← IO.getStderr).putStrLn e.message
      return 1
