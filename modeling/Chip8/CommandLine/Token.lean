import Chip8.CommandLine.UsageError
import Chip8.Text.Digit

/-!
# Tokens

The arguments of a command line, each sorted on its own.  A long switch may be abbreviated
as long as only one spelling begins that way, and may have a value attached after `=`.  A
short switch may have a text attached directly.  Negative numbers and texts with a space are
plain even if they begin with a dash, and so is everything after `--`.  The rules are those of
argparse up to release 3.11.8.
-/

namespace Chip8.CommandLine

/-- A text that is attached to a switch, and whether it stands behind a short spelling. -/
structure Attached where
  short : Bool
  text : List Char
deriving DecidableEq

inductive Token where
  /-- A text that can be a value. -/
  | plain (text : String)
  /-- A text that can be neither a value nor a switch. -/
  | stray (text : String)
  /-- A switch, perhaps with a text attached. -/
  | named (switch : Switch) (attached : Option Attached)
deriving DecidableEq

namespace Token

/-- Splits a text at its first equals sign. -/
def splitMark (text : List Char) : List Char × Option (List Char) :=
  match text.dropWhile (· != '=') with
  | [] => (text, none)
  | _ :: rest => (text.takeWhile (· != '='), some rest)

def isLong (spelling : List Char) : Bool :=
  ['-', '-'].isPrefixOf spelling

/-- One line break may follow a number. -/
def dropLineBreak (cs : List Char) : List Char :=
  if cs.getLast? = some '\n' then cs.dropLast else cs

/-- Whether a text is a run of digits, of any script. -/
def isDigits (cs : List Char) : Bool :=
  !cs.isEmpty && cs.all fun c => (Digit.decimal? c).isSome

/-- Whether a text is a decimal number: digits, or digits after a point with or without
digits before it. -/
def isDecimal (cs : List Char) : Bool :=
  isDigits cs ||
    match cs.dropWhile fun c => (Digit.decimal? c).isSome with
    | '.' :: rest => isDigits rest
    | _ => false

/-- Whether a text is a negative number. -/
def isNegativeNumber : List Char → Bool
  | '-' :: rest => isDecimal (dropLineBreak rest)
  | _ => false

/-- The spellings that a text may stand for, with their switches and what is attached. -/
def candidates : List Char → List (String × Switch × Option Attached)
  | '-' :: '-' :: rest =>
      let (stem, attached) := splitMark ('-' :: '-' :: rest)
      (Switch.table.filter fun (spelling, _) => stem.isPrefixOf spelling.toList).map
        fun (spelling, switch) => (spelling, switch, attached.map (⟨false, ·⟩))
  | '-' :: c :: rest =>
      match Switch.ofLetter? c with
      | some switch => [(String.ofList ['-', c], switch, some ⟨true, rest⟩)]
      | none => []
  | _ => []

/-- The switch that a text spells in full, with what is attached. -/
def spelled? (text : String) : Option (Switch × Option Attached) :=
  match Switch.ofSpelling? text with
  | some switch => some (switch, none)
  | none =>
      match splitMark text.toList with
      | (_, none) => none
      | (spelling, some value) =>
          (Switch.ofSpelling? (String.ofList spelling)).map
            (·, some ⟨!isLong spelling, value⟩)

/-- Sorts a text that begins with a dash and goes on after it. -/
def ofDashed (text : String) : Except UsageError Token :=
  match spelled? text with
  | some (switch, attached) => .ok (.named switch attached)
  | none =>
      match candidates text.toList with
      | [(_, switch, attached)] => .ok (.named switch attached)
      | [] =>
          if isNegativeNumber text.toList || text.toList.contains ' ' then .ok (.plain text)
          else .ok (.stray text)
      | several => .error (.ambiguous text (several.map Prod.fst))

def ofText (text : String) : Except UsageError Token :=
  match text.toList with
  | '-' :: _ :: _ => ofDashed text
  | _ => .ok (.plain text)

def ofTexts : List String → Except UsageError (List Token)
  | [] => .ok []
  | text :: rest =>
      if text = "--" then .ok (.stray text :: rest.map .plain)
      else do
        let token ← ofText text
        let tokens ← ofTexts rest
        return token :: tokens

end Token

end Chip8.CommandLine
