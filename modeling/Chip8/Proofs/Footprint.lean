import Chip8.Proofs.Effect
import Chip8.Proofs.Pattern

/-!
# Footprints

What an instruction may change is fixed by its operation and its operands: at most one row of
consecutive addresses, at most one row of registers beside the flag, and few other fields.  This
module gives that footprint for every operation and proves that an instruction that completes
changes nothing outside it.  It also says where the program goes on.

The main result is `completes_within_footprint`.  Only a return can lead beyond the sixteen bits
of the program counter, namely when one of the last two addresses that these can name is on the
stack.
-/

namespace Chip8

namespace Operation

/-! ## Places that an operation writes to -/

def Stores (operation : Operation) (word : Int) (m : Machine) (address : Nat) : Prop :=
  match operation with
  | storeDecimal => m.i ≤ address ∧ address ≤ m.i + 2
  | storeRegisters => m.i ≤ address ∧ address ≤ m.i + Field.ofWord word .x
  | _ => False

def Sets (operation : Operation) (word : Int) (m : Machine) (number : Nat) : Prop :=
  let x := Field.ofWord word .x
  match operation with
  | loadByte | addByte | copy | bitOr | bitAnd | bitXor | random | readDelay => number = x
  | awaitKey => m.pressedKey.isSome ∧ number = x
  | add | subtract | shiftRight | subtractFrom | shiftLeft => number = x ∨ number = flagRegister
  | addIndex | draw => number = flagRegister
  | loadRegisters => number ≤ x
  | _ => False

/-- What an instruction that completes leaves of the machine it starts on. -/
structure Footprint (operation : Operation) (word : Int) (m m' : Machine) : Prop where
  memory : ∀ address : Nat, ¬ operation.Stores word m address →
    m'.memory[address]? = m.memory[address]?
  v : ∀ number : Nat, ¬ operation.Sets word m number → m'.v[number]? = m.v[number]?
  screen : operation ≠ clear → operation ≠ draw → m'.screen = m.screen
  i : operation.movesIndex = false → m'.i = m.i
  i_transfer : operation = storeRegisters ∨ operation = loadRegisters →
    m'.i = m.i + Field.ofWord word .x + 1
  sp : m'.sp = if operation = call then m.sp + 1 else if operation = ret then m.sp - 1 else m.sp
  stack : m'.stack =
    if operation = call then m.stack.setIfInBounds m.sp.toNat m.pc else m.stack
  delay : operation ≠ setDelay → m'.delay = m.delay
  sound : operation ≠ setSound → m'.sound = m.sound
  random : m'.random = if operation = .random then m.random.nextByte.2 else m.random
  runState : ¬ (operation = awaitKey ∧ m.pressedKey = none) → m'.runState = m.runState
  keyRegister : ¬ (operation = awaitKey ∧ m.pressedKey = none) → m'.keyRegister = m.keyRegister
  keys : m'.keys = m.keys
  programLength : m'.programLength = m.programLength
  cycles : m'.cycles = m.cycles
  opcode : m'.opcode = m.opcode
  /-- The target of a return is the only one that may have to be cut to sixteen bits. -/
  pc : m'.pc = if operation = ret then operation.target word m % 65536 else operation.target word m

/-! ## Effects outside the footprint -/

section

open Machine

variable {m : Machine} {word : Int}

theorem memory_effect
    (h : m.WellFormed) (operation : Operation) {address : Nat}
    (hout : ¬ operation.Stores word m address) :
    (operation.effect word m).memory[address]? = m.memory[address]? := by
  have hi := h.i_range.1
  by_cases hstores : operation = storeDecimal ∨ operation = storeRegisters
  · rcases hstores with rfl | rfl
    · have hout' : ¬ (m.i ≤ address ∧ address ≤ m.i + 2) := hout
      refine getElem?_overlay_of_outside ?_ m.memory
      show ¬ (m.i.toNat ≤ address ∧ address < m.i.toNat + 3)
      omega
    · have hout' : ¬ (m.i ≤ address ∧ address ≤ m.i + Field.ofWord word .x) := hout
      have hcount := (toNat_x_add_one word).1
      refine getElem?_overlay_of_outside ?_ m.memory
      rw [List.length_map, length_heldFrom]
      omega
  · have hmemory : (operation.effect word m).memory = m.memory :=
      (congrArg Machine.memory (effect_eq operation word m)).trans (if_neg hstores)
    rw [hmemory]

theorem getElem?_v_holding_of_ne
    {number : Int} (hnumber : 0 ≤ number) {other : Nat} (hne : (other : Int) ≠ number)
    (m : Machine) (value : Int) : (m.holding number value).v[other]? = m.v[other]? := by
  have hplace : number.toNat ≠ other := by omega
  exact Array.getElem?_setIfInBounds_ne hplace

theorem getElem?_v_drawing_of_ne
    {number : Nat} (hne : number ≠ flagRegister) (m : Machine) (x y : Int) (height : Nat) :
    (m.drawing x y height).v[number]? = m.v[number]? := by
  have hplace : flagRegister ≠ number := Ne.symm hne
  have hcleared : (m.v.setIfInBounds flagRegister 0)[number]? = m.v[number]? :=
    Array.getElem?_setIfInBounds_ne hplace
  have hcases : (m.drawing x y height).v =
        (m.v.setIfInBounds flagRegister 0).setIfInBounds flagRegister 1 ∨
      (m.drawing x y height).v = m.v.setIfInBounds flagRegister 0 := ite_eq_or_eq _ _ _
  rcases hcases with hhit | hmiss
  · rw [hhit, Array.getElem?_setIfInBounds_ne hplace, hcleared]
  · rw [hmiss, hcleared]

theorem v_effect (operation : Operation) {number : Nat} (hout : ¬ operation.Sets word m number) :
    (operation.effect word m).v[number]? = m.v[number]? := by
  have hx := (isRegister_x word).1
  have hflag (hne : number ≠ flagRegister) (value : Int) :
      (m.holding flagRegister value).v[number]? = m.v[number]? :=
    getElem?_v_holding_of_ne (by decide) (by exact_mod_cast hne) m value
  cases operation with
  | loadByte | addByte | copy | bitOr | bitAnd | bitXor | readDelay =>
      exact getElem?_v_holding_of_ne hx hout m _
  | random => exact getElem?_v_holding_of_ne hx hout _ _
  | add | subtractFrom | shiftRight | shiftLeft =>
      have hboth : ¬ ((number : Int) = Field.ofWord word .x ∨ number = flagRegister) := hout
      rw [not_or] at hboth
      simp only [effect]
      rw [getElem?_v_holding_of_ne hx hboth.1, hflag hboth.2]
  | subtract =>
      have hboth : ¬ ((number : Int) = Field.ofWord word .x ∨ number = flagRegister) := hout
      rw [not_or] at hboth
      simp only [effect]
      split
      · rw [hflag hboth.2]
      · rw [getElem?_v_holding_of_ne hx hboth.1, hflag hboth.2]
  | addIndex => exact hflag hout _
  | draw =>
      simp only [effect]
      split
      · exact getElem?_v_drawing_of_ne hout m _ _ _
      · rfl
  | awaitKey =>
      cases hkey : m.pressedKey with
      | some key =>
          have hne : (number : Int) ≠ Field.ofWord word .x :=
            fun heq => hout ⟨by rw [hkey]; rfl, heq⟩
          simp only [effect, hkey]
          exact getElem?_v_holding_of_ne hx hne m _
      | none => simp only [effect, hkey]
  | loadRegisters =>
      have hbeyond : ¬ (number : Int) ≤ Field.ofWord word .x := hout
      have hcount := (toNat_x_add_one word).1
      show (m.v.mapIdx _)[number]? = _
      rw [Array.getElem?_mapIdx]
      cases hvalue : m.v[number]? with
      | none => rfl
      | some value =>
          rw [Option.map_some, if_neg (by omega)]
  | _ => rfl

/-- A transfer of registers moves the index register past the last one. -/
theorem i_effect_of_transfer
    (h : m.WellFormed) {operation : Operation}
    (htransfer : operation = storeRegisters ∨ operation = loadRegisters)
    (hfine : ¬ operation.Faults word m) :
    (operation.effect word m).i = m.i + Field.ofWord word .x + 1 := by
  have hi := h.i_range.1
  have hx := (isRegister_x word).1
  have hfits : ¬ 0xFFF < m.i + Field.ofWord word .x := by
    rcases htransfer with rfl | rfl <;> exact hfine
  have hmoved : (operation.effect word m).i = (m.i + Field.ofWord word .x + 1) % 65536 := by
    rcases htransfer with rfl | rfl <;> rfl
  omega

/-- An instruction that does not fault keeps to its footprint. -/
theorem footprint_completed
    (h : m.WellFormed) (hpc : m.pc ≤ 0xFFE) (operation : Operation)
    (hfine : ¬ operation.Faults word m) :
    operation.Footprint word m (operation.completed word m) := by
  have hcontinues := continues_completed h operation hfine
  have hstack := stack_effect operation word m
  rw [h.pc_mod] at hstack
  have hpc' : operation.target word m % 65536 =
      if operation = ret then operation.target word m % 65536 else operation.target word m := by
    split
    next => rfl
    next hother =>
      have hrange := target_range h hpc hother word
      omega
  exact
    { memory := fun _ hout => memory_effect h operation hout
      v := fun _ hout => v_effect operation hout
      screen := fun hclear hdraw =>
        (congrArg Machine.screen (effect_eq operation word m)).trans
          (if_neg (not_or.mpr ⟨hclear, hdraw⟩))
      i := fun hkept =>
        (congrArg Machine.i (effect_eq operation word m)).trans (if_neg (by simp [hkept]))
      i_transfer := fun htransfer => i_effect_of_transfer h htransfer hfine
      sp := sp_effect operation word m
      stack := hstack
      delay := fun hother => (delay_effect operation word m).trans (if_neg hother)
      sound := fun hother => (sound_effect operation word m).trans (if_neg hother)
      random := random_effect operation word m
      runState := fun hother => (runState_effect operation word m).trans (if_neg hother)
      keyRegister := fun hother => (keyRegister_effect operation word m).trans (if_neg hother)
      keys := hcontinues.keys_eq
      programLength := hcontinues.programLength_eq
      cycles := hcontinues.cycles_eq
      opcode := hcontinues.opcode_eq
      pc := hpc' }

end

end Operation

/-! ## Main result -/

namespace Machine

/-- Whatever word is decoded and carried out, the instruction keeps to the footprint of the
operation that the word asks for if it completes. -/
theorem completes_within_footprint
    {m m' : Machine} (h : m.WellFormed) (hpc : m.pc ≤ 0xFFE) (word : Int)
    (hrun : Registry.run (decode word) m = .ok () m') :
    ∃ operation : Operation, operation.IsAskedBy word ∧ operation.Footprint word m m' := by
  refine ⟨.ofWord word, (Operation.isAskedBy_iff _ word).mpr rfl, ?_⟩
  by_cases hfault : (Operation.ofWord word).Faults word m
  · obtain ⟨fault, -, hfails⟩ := Registry.run_decode_faults h word hfault
    rw [hfails] at hrun
    cases hrun
  · rw [Registry.run_decode_completes h word hfault] at hrun
    injection hrun with _ hend
    rw [← hend]
    exact Operation.footprint_completed h hpc _ hfault

/-- A machine in a subroutine that was called from the last word that a program counter can
name. -/
def returning : Machine where
  i := 0x300
  sp := 1
  stack := (Array.replicate stackDepth 0).setIfInBounds 0 0xFFFE
  random := { words := #[], position := 0 }

theorem wellFormed_returning : returning.WellFormed :=
  { wellFormed_zeroed returning.random with
    i_range := by decide
    sp_range := by decide
    size_stack := by simp [returning]
    stack_range := by
      have haddresses : ∀ address ∈ returning.stack.toList, 0 ≤ address ∧ address ≤ 0xFFFF := by
        decide
      exact fun address hmem => haddresses address hmem.val }

/-- Three registers are stored, and the index register moves past them. -/
theorem completes_within_footprint_returning :
    ∃ m' : Machine, Registry.run (decode 0xF255) returning = .ok () m' ∧
      ∃ operation : Operation, operation.IsAskedBy 0xF255 ∧
        operation.Footprint 0xF255 returning m' := by
  have hfine : ¬ (Operation.ofWord 0xF255).Faults 0xF255 returning := by decide
  have hrun := Registry.run_decode_completes wellFormed_returning 0xF255 hfine
  exact ⟨_, hrun, completes_within_footprint wellFormed_returning (by decide) 0xF255 hrun⟩

/-- A return does not always go on two bytes after the address on the stack. -/
theorem return_wraps :
    ¬ ∀ (m m' : Machine) (word : Int), m.WellFormed → m.pc ≤ 0xFFE →
      Operation.ret.IsAskedBy word → Registry.run (decode word) m = .ok () m' →
        m'.pc = m.stack.getD (m.sp - 1).toNat 0 + 2 := by
  intro hall
  have hfine : ¬ (Operation.ofWord 0x00EE).Faults 0x00EE returning := by decide
  have hrun := Registry.run_decode_completes wellFormed_returning 0x00EE hfine
  have hasked : Operation.ret.IsAskedBy 0x00EE := (Operation.isAskedBy_iff _ _).mpr rfl
  have hpc := hall returning _ 0x00EE wellFormed_returning (by decide) hasked hrun
  have hwrapped : ((Operation.ofWord 0x00EE).completed 0x00EE returning).pc = 0 := by decide
  rw [hwrapped] at hpc
  exact absurd hpc (by decide)

end Machine

end Chip8
