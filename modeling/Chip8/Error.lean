import Chip8.Fault
import Chip8.Instruction.Operands
import Chip8.Slot
import Chip8.Storage.Tree
import Chip8.Text.Quoted

/-!
# Errors

Every cause for which a call can fail, with its text.  Faults of the running program are one
of them; the others concern what a caller asks for.
-/

namespace Chip8

/-- A setting of a run that can be left vacant. -/
inductive Setting where
  | program
  | seconds
  | frameRate
  | stepsPerCall
  | seed
deriving DecidableEq

/-- Why a call failed. -/
inductive Error where
  | fault (fault : Fault)
  | romUnreadable (path : Path) (cause : FileFault)
  | nullInPath
  | missingOperand (field : Field)
  | noSuchRegister (number : Int)
  | unknownOperation (key : String)
  | readOutside (position : Int)
  | writeOutside (position : Int)
  /-- A key wait ends although no register waits for the key. -/
  | noKeyRegister
  | vacantSetting (setting : Setting)
  | registryFrozen
  | alreadyRegistered (key : String)
  | notInitialized
  | halted
  | listenerFailed (reason : String)
  | invalidKey (key : Int)
  | notAByte
  /-- A call would run no cycle at all. -/
  | noStepsPerCall (steps : Int)
  | notHexadecimal (text : String)
  /-- A number of cycles is not a number. -/
  | notANumber
  /-- A number of cycles has no bound. -/
  | unbounded
  /-- A number of cycles is beyond the range of doubles. -/
  | countTooLarge
  | negativeScale
  | scaleTooLarge
  /-- A table of bytes would have more of them than can be counted. -/
  | tableTooLarge
  /-- There is no room for a table. -/
  | outOfMemory (reason : String)
deriving DecidableEq

/-- The text for a setting that is used although it was left vacant. -/
def Setting.vacantText : Setting → String
  | program => "expected str, bytes or os.PathLike object, not list"
  | seconds => "'<' not supported between instances of 'list' and 'int'"
  | frameRate => "'<=' not supported between instances of 'list' and 'int'"
  | stepsPerCall => "'<' not supported between instances of 'list' and 'int'"
  | seed =>
      "The only supported seed types are: None,\nint, float, str, bytes, and bytearray."

namespace Error

/-- The kinds of errors, by what is at fault. -/
inductive Kind where
  /-- The running program. -/
  | fault
  /-- The storage that programs are read from. -/
  | storage
  /-- A value that a caller gives. -/
  | value
  /-- The moment at which a call is made. -/
  | state
  /-- A name that is looked up. -/
  | entry
  /-- A position in a table. -/
  | position
  /-- The size of a number. -/
  | magnitude
  /-- A value that is not there. -/
  | absence
  /-- The size of a table. -/
  | room
deriving DecidableEq

def kind : Error → Kind
  | .fault _ => .fault
  | .romUnreadable _ _ => .storage
  | .missingOperand _ | .noSuchRegister _ | .unknownOperation _ => .entry
  | .readOutside _ | .writeOutside _ => .position
  | .noKeyRegister | .vacantSetting _ => .absence
  | .registryFrozen | .notInitialized | .halted | .listenerFailed _ => .state
  | .unbounded | .countTooLarge => .magnitude
  | .outOfMemory _ => .room
  | .nullInPath | .alreadyRegistered _ | .invalidKey _ | .notAByte | .noStepsPerCall _
  | .notHexadecimal _ | .notANumber | .negativeScale | .scaleTooLarge | .tableTooLarge => .value

/-- A quoted text in an error is cut after this many characters. -/
abbrev longestQuotation : Nat := 200

/-- The text for an integer that is no position in any table. -/
abbrev noPosition : String := "cannot fit 'int' into an index-sized integer"

/-- Numbers of more digits are not written. -/
abbrev longestNumber : Nat := 4300

/-- A text that ends in a number, unless the number is too long to be written. -/
def withNumber (text : String) (n : Int) : String :=
  if n.natAbs < Nat.pow 10 longestNumber then text ++ toString n
  else
    "Exceeds the limit (" ++ toString longestNumber ++ " digits) for integer string conversion; " ++
      "use sys.set_int_max_str_digits() to increase the limit"

def message : Error → String
  | .fault cause => cause.message
  | .romUnreadable path cause =>
      "Cannot read ROM " ++ path.text ++ ": [Errno " ++ toString cause.code ++ "] " ++
        cause.text ++ ": " ++ Quoted.quote path.text
  | .nullInPath => "embedded null byte"
  | .missingOperand field => field.name
  | .noSuchRegister number => "Invalid register: V" ++ Hexadecimal.index number
  | .unknownOperation key => "Unknown operation key: " ++ key
  | .readOutside position =>
      if Slot.IsPosition position then "list index out of range" else noPosition
  | .writeOutside position =>
      if Slot.IsPosition position then "list assignment index out of range" else noPosition
  | .noKeyRegister => "'<=' not supported between instances of 'int' and 'NoneType'"
  | .vacantSetting setting => setting.vacantText
  | .registryFrozen => "Cannot register primitives: registry is frozen"
  | .alreadyRegistered key => "Primitive already registered: " ++ key
  | .notInitialized => "Interpreter not initialized"
  | .halted => "Interpreter is halted"
  | .listenerFailed reason => reason
  | .invalidKey key => withNumber "Invalid key: " key
  | .notAByte => "bytes must be in range(0, 256)"
  | .noStepsPerCall steps => withNumber "steps_per_call must be >= 1, got " steps
  | .notHexadecimal text =>
      "invalid literal for int() with base 16: " ++
        String.ofList ((Quoted.quote text).toList.take longestQuotation)
  | .notANumber => "cannot convert float NaN to integer"
  | .unbounded => "cannot convert float infinity to integer"
  | .countTooLarge => "int too large to convert to float"
  | .negativeScale => "negative dimensions are not allowed"
  | .scaleTooLarge => "Maximum allowed dimension exceeded"
  | .tableTooLarge =>
      "array is too big; `arr.size * arr.dtype.itemsize` is larger than the maximum possible size."
  | .outOfMemory reason => reason

/-- The address that an error is reported at, for the kinds that have one. -/
def address : Error → Option Int
  | .fault cause => cause.address
  | _ => none

end Error

end Chip8
