import Chip8.Proofs.WellFormed

/-!
# Operations keep machines well-formed

Every operation of the instruction set, carried out with any operands at all, ends in a
well-formed machine with the same keys, fetched word and counters, also where it fails
half-way.
-/

namespace Chip8

open Machine Machine.Keeps

variable {start : Machine} (operands : Operands)

namespace Execute

/-! ## Flow of control -/

theorem keeps_ret : Keeps start (fun _ => True) ret :=
  Keeps.pop.andThen fun address => (Keeps.setPc address).andThen fun _ => Keeps.advance 2

theorem keeps_jump : Keeps start (fun _ => True) (jump operands) :=
  (Keeps.need operands .nnn).andThen Keeps.setPc

theorem keeps_call : Keeps start (fun _ => True) (call operands) := by
  refine Keeps.get.bind fun m _ => (Keeps.push m.pc).andThen fun _ => ?_
  exact (Keeps.need operands .nnn).andThen Keeps.setPc

theorem keeps_jumpBeyond : Keeps start (fun _ => True) (jumpBeyond operands) := by
  refine (Keeps.need operands .nnn).andThen fun address => ?_
  exact (Keeps.register 0).bind fun offset _ => Keeps.setPc (address + offset)

theorem keeps_skipIf (condition : Bool) : Keeps start (fun _ => True) (skipIf condition) :=
  Keeps.advance _

theorem keeps_skipByte (wanted : Bool) :
    Keeps start (fun _ => True) (skipByte wanted operands) := by
  refine (Keeps.needRegister operands .x).bind fun left _ => ?_
  exact (Keeps.need operands .nn).andThen fun right => keeps_skipIf _

theorem keeps_skipRegister (wanted : Bool) :
    Keeps start (fun _ => True) (skipRegister wanted operands) := by
  refine (Keeps.needRegister operands .x).bind fun left _ => ?_
  exact (Keeps.needRegister operands .y).bind fun right _ => keeps_skipIf _

theorem keeps_skipKey (wanted : Bool) :
    Keeps start (fun _ => True) (skipKey wanted operands) := by
  refine (Keeps.needRegister operands .x).bind fun key _ => ?_
  exact (Keeps.isKeyPressed key).andThen fun pressed => keeps_skipIf _

/-! ## Arithmetic and logic -/

/-- The common end of the operations that set a register. -/
theorem keeps_setRegister_advance (number value : Int) :
    Keeps start (fun _ => True) (do Machine.setRegister number value; Machine.advance 2) :=
  (Keeps.setRegister number value).andThen fun _ => Keeps.advance 2

theorem keeps_loadByte : Keeps start (fun _ => True) (loadByte operands) := by
  refine (Keeps.need operands .x).andThen fun x => ?_
  exact (Keeps.need operands .nn).andThen fun byte => keeps_setRegister_advance x byte

theorem keeps_addByte : Keeps start (fun _ => True) (addByte operands) := by
  refine (Keeps.need operands .x).andThen fun x => ?_
  refine (Keeps.register x).bind fun value _ => ?_
  exact (Keeps.need operands .nn).andThen fun byte => keeps_setRegister_advance x _

theorem keeps_copy : Keeps start (fun _ => True) (copy operands) := by
  refine (Keeps.need operands .x).andThen fun x => ?_
  exact (Keeps.needRegister operands .y).bind fun value _ => keeps_setRegister_advance x value

theorem keeps_bitwise (combine : UInt8 → UInt8 → UInt8) :
    Keeps start (fun _ => True) (bitwise combine operands) := by
  refine (Keeps.need operands .x).andThen fun x => ?_
  refine (Keeps.register x).bind fun left _ => ?_
  exact (Keeps.needRegister operands .y).bind fun right _ => keeps_setRegister_advance x _

theorem keeps_add : Keeps start (fun _ => True) (add operands) := by
  refine (Keeps.need operands .x).andThen fun x => ?_
  refine (Keeps.need operands .y).andThen fun y => ?_
  refine (Keeps.register y).bind fun _ _ => (Keeps.register x).bind fun _ _ => ?_
  refine (Keeps.setFlag _).andThen fun _ => ?_
  refine (Keeps.register x).bind fun _ _ => (Keeps.register y).bind fun _ _ => ?_
  exact keeps_setRegister_advance x _

theorem keeps_subtract : Keeps start (fun _ => True) (subtract operands) := by
  refine (Keeps.need operands .x).andThen fun x => ?_
  refine (Keeps.need operands .y).andThen fun y => ?_
  refine (Keeps.register y).bind fun _ _ => (Keeps.register x).bind fun _ _ => ?_
  refine Keeps.ite ?_ ?_
  · exact (Keeps.setFlag 0).andThen fun _ => Keeps.advance 2
  · refine (Keeps.setFlag 1).andThen fun _ => ?_
    refine (Keeps.register x).bind fun _ _ => (Keeps.register y).bind fun _ _ => ?_
    exact keeps_setRegister_advance x _

theorem keeps_subtractFrom : Keeps start (fun _ => True) (subtractFrom operands) := by
  refine (Keeps.need operands .x).andThen fun x => ?_
  refine (Keeps.need operands .y).andThen fun y => ?_
  refine (Keeps.register x).bind fun _ _ => (Keeps.register y).bind fun _ _ => ?_
  refine (Keeps.setFlag _).andThen fun _ => ?_
  refine (Keeps.register y).bind fun _ _ => (Keeps.register x).bind fun _ _ => ?_
  exact keeps_setRegister_advance x _

theorem keeps_shiftRight : Keeps start (fun _ => True) (shiftRight operands) := by
  refine (Keeps.need operands .x).andThen fun x => ?_
  refine (Keeps.register x).bind fun _ _ => (Keeps.setFlag _).andThen fun _ => ?_
  exact (Keeps.register x).bind fun _ _ => keeps_setRegister_advance x _

theorem keeps_shiftLeft : Keeps start (fun _ => True) (shiftLeft operands) := by
  refine (Keeps.need operands .x).andThen fun x => ?_
  refine (Keeps.register x).bind fun _ _ => (Keeps.setFlag _).andThen fun _ => ?_
  exact (Keeps.register x).bind fun _ _ => keeps_setRegister_advance x _

theorem keeps_random : Keeps start (fun _ => True) (random operands) := by
  refine (Keeps.need operands .x).andThen fun x => ?_
  refine Keeps.drawByte.andThen fun byte => ?_
  exact (Keeps.need operands .nn).andThen fun mask => keeps_setRegister_advance x _

/-! ## Index register and memory -/

theorem keeps_loadIndex : Keeps start (fun _ => True) (loadIndex operands) := by
  refine (Keeps.need operands .nnn).andThen fun address => ?_
  exact (Keeps.setIndex address).andThen fun _ => Keeps.advance 2

theorem keeps_addIndex : Keeps start (fun _ => True) (addIndex operands) := by
  refine (Keeps.need operands .x).andThen fun x => ?_
  refine (Keeps.register x).bind fun _ _ => Keeps.get.bind fun _ _ => ?_
  refine (Keeps.setFlag _).andThen fun _ => (Keeps.register x).bind fun _ _ => ?_
  refine Keeps.get.bind fun _ _ => (Keeps.setIndex _).andThen fun _ => ?_
  exact Keeps.advance 2

theorem keeps_loadGlyph : Keeps start (fun _ => True) (loadGlyph operands) := by
  refine (Keeps.needRegister operands .x).bind fun _ _ => ?_
  exact (Keeps.setIndex _).andThen fun _ => Keeps.advance 2

theorem keeps_storeDecimal : Keeps start (fun _ => True) (storeDecimal operands) := by
  refine (Keeps.needRegister operands .x).bind fun value _ => ?_
  refine Keeps.get.bind fun _ _ => (Keeps.writeByte _ _).andThen fun _ => ?_
  refine Keeps.get.bind fun _ _ => (Keeps.writeByte _ _).andThen fun _ => ?_
  refine Keeps.get.bind fun _ _ => (Keeps.writeByte _ _).andThen fun _ => ?_
  exact Keeps.advance 2

theorem keeps_storeRegister (place : Nat) :
    Keeps start (fun _ => True) (storeRegister place) := by
  refine (Keeps.register place).bind fun value _ => Keeps.get.bind fun _ _ => ?_
  exact Keeps.writeByte _ _

theorem keeps_loadRegister (place : Nat) :
    Keeps start (fun _ => True) (loadRegister place) := by
  refine Keeps.get.bind fun _ _ => (Keeps.readByte _).andThen fun byte => ?_
  exact Keeps.assign place byte

theorem keeps_transfer
    {move : Nat → Action Unit} (hmove : ∀ place, Keeps start (fun _ => True) (move place)) :
    Keeps start (fun _ => True) (transfer move operands) := by
  refine (Keeps.need operands .x).andThen fun x => ?_
  refine (Keeps.sweep hmove _ 0).andThen fun _ => Keeps.get.bind fun _ _ => ?_
  exact (Keeps.setIndex _).andThen fun _ => Keeps.advance 2

/-! ## Display, timers and keys -/

theorem keeps_clear : Keeps start (fun _ => True) clear :=
  Keeps.clearScreen.andThen fun _ => Keeps.advance 2

theorem keeps_drawPixel (x y : Int) (row : UInt8) (column : Nat) :
    Keeps start (fun _ => True) (drawPixel x y row column) := by
  refine Keeps.ite ?_ (Keeps.pure trivial)
  refine (Keeps.flipPixel _ y).andThen fun lit => ?_
  exact Keeps.ite (Keeps.setFlag 1) (Keeps.pure trivial)

theorem keeps_drawRow (x y : Int) (row : Nat) :
    Keeps start (fun _ => True) (drawRow x y row) := by
  refine Keeps.get.bind fun _ _ => (Keeps.readByte _).andThen fun bits => ?_
  exact Keeps.sweep (keeps_drawPixel x (y + row) bits) spriteWidth 0

theorem keeps_draw : Keeps start (fun _ => True) (draw operands) := by
  refine (Keeps.needRegister operands .x).bind fun x _ => ?_
  refine (Keeps.needRegister operands .y).bind fun y _ => ?_
  refine (Keeps.need operands .n).andThen fun height => Keeps.ite ?_ (Keeps.advance 2)
  refine (Keeps.setFlag 0).andThen fun _ => ?_
  exact (Keeps.sweep (keeps_drawRow x y) _ 0).andThen fun _ => Keeps.advance 2

theorem keeps_readDelay : Keeps start (fun _ => True) (readDelay operands) := by
  refine (Keeps.need operands .x).andThen fun x => Keeps.get.bind fun _ _ => ?_
  exact keeps_setRegister_advance x _

theorem keeps_setDelay : Keeps start (fun _ => True) (setDelay operands) := by
  refine (Keeps.needRegister operands .x).bind fun value hvalue => ?_
  exact (Keeps.setDelay hvalue).andThen fun _ => Keeps.advance 2

theorem keeps_setSound : Keeps start (fun _ => True) (setSound operands) := by
  refine (Keeps.needRegister operands .x).bind fun value hvalue => ?_
  exact (Keeps.setSound hvalue).andThen fun _ => Keeps.advance 2

theorem keeps_awaitKey : Keeps start (fun _ => True) (awaitKey operands) := by
  refine Keeps.get.bind fun m _ => ?_
  cases m.pressedKey with
  | some key =>
      refine (Keeps.need operands .x).andThen fun x => ?_
      exact keeps_setRegister_advance x key
  | none =>
      refine Keeps.beginWait.andThen fun _ => ?_
      exact (Keeps.need operands .x).andThen Keeps.waitIn

end Execute

/-! ## The instruction set -/

open Execute

/-- No operation ends well-formedness, whatever its operands are and however it ends. -/
theorem Operation.keeps_perform (operation : Operation) :
    Keeps start (fun _ => True) (operation.perform operands) := by
  cases operation with
  | clear => exact keeps_clear
  | ret => exact keeps_ret
  | jump => exact keeps_jump operands
  | call => exact keeps_call operands
  | skipIfByte => exact keeps_skipByte operands true
  | skipUnlessByte => exact keeps_skipByte operands false
  | skipIfEqual => exact keeps_skipRegister operands true
  | loadByte => exact keeps_loadByte operands
  | addByte => exact keeps_addByte operands
  | copy => exact keeps_copy operands
  | bitOr => exact keeps_bitwise operands _
  | bitAnd => exact keeps_bitwise operands _
  | bitXor => exact keeps_bitwise operands _
  | add => exact keeps_add operands
  | subtract => exact keeps_subtract operands
  | shiftRight => exact keeps_shiftRight operands
  | subtractFrom => exact keeps_subtractFrom operands
  | shiftLeft => exact keeps_shiftLeft operands
  | skipUnlessEqual => exact keeps_skipRegister operands false
  | loadIndex => exact keeps_loadIndex operands
  | jumpBeyond => exact keeps_jumpBeyond operands
  | random => exact keeps_random operands
  | draw => exact keeps_draw operands
  | skipIfPressed => exact keeps_skipKey operands true
  | skipUnlessPressed => exact keeps_skipKey operands false
  | readDelay => exact keeps_readDelay operands
  | awaitKey => exact keeps_awaitKey operands
  | setDelay => exact keeps_setDelay operands
  | setSound => exact keeps_setSound operands
  | addIndex => exact keeps_addIndex operands
  | loadGlyph => exact keeps_loadGlyph operands
  | storeDecimal => exact keeps_storeDecimal operands
  | storeRegisters => exact keeps_transfer operands keeps_storeRegister
  | loadRegisters => exact keeps_transfer operands keeps_loadRegister
  | unrecognized => exact Keeps.pure trivial

end Chip8
