import Chip8.CommandLine.Settings
import Chip8.CommandLine.Token

/-!
# Reading a command line

The tokens are taken from left to right.  A switch that takes a value has it attached, or
takes the next token.  Behind a short switch that takes none, the attached text goes on with
further short switches.

The rules are those of argparse up to release 3.11.8.  Later releases differ in three corners.  They
keep a value `--` that is attached to its switch, they drop an equals sign behind a run of short
switches, so that `-qs=3` asks for 3 steps, and they refuse a text behind the equals sign of a short
switch that takes no value, such as `-v=q`.
-/

namespace Chip8.CommandLine

/-- What a switch token amounts to: switches with their values, and how the token ends. -/
inductive Expansion where
  /-- The token is complete. -/
  | complete (assignments : List (Switch × String))
  /-- The last switch takes the next token as its value. -/
  | unfinished (assignments : List (Switch × String)) (last : Switch)

namespace Expansion

def cons (switch : Switch) : Expansion → Expansion
  | complete assignments => complete ((switch, "") :: assignments)
  | .unfinished assignments last => .unfinished ((switch, "") :: assignments) last

def ofBare (switch : Switch) : Expansion :=
  if switch.takesValue then .unfinished [] switch else complete [(switch, "")]

def ofLong (switch : Switch) (text : List Char) : Except UsageError Expansion :=
  if switch.takesValue then .ok (complete [(switch, String.ofList text)])
  else .error (.unwantedValue switch (String.ofList text))

def ofShort (switch : Switch) : (text : List Char) → Except UsageError Expansion
  | [] => ofLong switch []
  | c :: rest =>
      if switch.takesValue then ofLong switch (c :: rest)
      else
        match Switch.ofLetter? c with
        | none => ofLong switch (c :: rest)
        | some next =>
            if rest.isEmpty then .ok (cons switch (ofBare next))
            else (ofShort next rest).map (cons switch)

/-- What a switch with or without an attached text amounts to. -/
def ofSwitch (switch : Switch) : Option Attached → Except UsageError Expansion
  | none => .ok (ofBare switch)
  | some attached =>
      if attached.short then ofShort switch attached.text else ofLong switch attached.text

end Expansion

def take : List Token → Draft → Except Stop Draft
  | [], draft => .ok draft
  | .plain text :: rest, draft => take rest (draft.leave text)
  | .stray text :: rest, draft => take rest (draft.leave text)
  | .named switch attached :: rest, draft =>
      match Expansion.ofSwitch switch attached, rest with
      | .error e, _ => .error (.usage e)
      | .ok (.complete assignments), rest => do
          take rest (← draft.setAll assignments)
      | .ok (.unfinished assignments last), .plain value :: rest => do
          take rest (← draft.setAll (assignments ++ [(last, value)]))
      | .ok (.unfinished _ last), _ => .error (.usage (.noValue last))

def parse (arguments : List String) : Except Stop Settings :=
  match Token.ofTexts arguments with
  | .error e => .error (.usage e)
  | .ok tokens => do (← take tokens {}).finish

end Chip8.CommandLine
