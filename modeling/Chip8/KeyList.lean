import Chip8.Error
import Chip8.Number.IntegerLiteral

/-!
# Key lists

Key numbers as a text: hexadecimal literals between commas.  Parts that are blank count for
nothing.
-/

namespace Chip8.KeyList

/-- The parts of a text between its commas. -/
def parts : List Char → List (List Char)
  | [] => [[]]
  | c :: rest =>
      if c = ',' then [] :: parts rest
      else
        match parts rest with
        | [] => [[c]]
        | part :: others => (c :: part) :: others

def readKey (text : List Char) : Except Error Int :=
  match IntegerLiteral.readChars? .hexadecimal text with
  | some key => .ok key
  | none => .error (.notHexadecimal (String.ofList text))

/-- Reads key numbers; the first that is no literal is the error. -/
def readAll (texts : List (List Char)) : Except Error (List Int) :=
  texts.mapM readKey

def read (text : String) : Except Error (List Int) :=
  readAll ((parts text.toList).filter fun part => !part.all Blank.isBlank)

end Chip8.KeyList
