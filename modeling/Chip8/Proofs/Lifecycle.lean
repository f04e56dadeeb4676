import Chip8.Interpreter.Lifecycle
import Chip8.Proofs.Evaluation

/-!
# Equations of the lifecycle calls

What starting, restarting, loading and the key calls do, each as one equation.
-/

namespace Chip8.Interpreter

variable {τ : Type}

theorem start_apply [TimeScale τ] (now : τ) (s : Interpreter τ) :
    start now s =
      if s.initialized then .ok () s
      else
        .ok ()
          { s with
            machine := { endState (Machine.resetControl s.machine) with programLength := 0 }
            lastTick := some now
            pending := TimeScale.zero
            journal := .initialized programStart :: s.journal } := by
  simp [start, onMachine_eq, Machine.resetControl, record, endState]

theorem restart_apply (s : Interpreter τ) :
    restart s =
      .ok ()
        { s with
          machine := endState (Machine.resetControl s.machine)
          journal := .restarted :: s.journal } := by
  simp [restart, onMachine_eq, Machine.resetControl, record, endState]

/-- The bytes of a file are bytes of a program. -/
theorem isByte_of_mem_map (bytes : List UInt8) :
    ∀ value ∈ bytes.map fun byte => (byte.toNat : Int), IsByte value := by
  intro value hvalue
  obtain ⟨byte, -, rfl⟩ := List.mem_map.mp hvalue
  have hlt := byte.toNat_lt
  constructor <;> omega

/-- A program is loaded whole or not at all. -/
theorem loadProgram_apply (program : List Int) (s : Interpreter τ) :
    loadProgram program s =
      if s.initialized then
        if ∀ value ∈ program, IsByte value then
          if program.length ≤ programCapacity then
            .ok true
              { s with
                machine := { s.machine with
                  memory := Machine.overlay s.machine.memory programStart (program.map UInt8.ofInt)
                  programLength := program.length }
                journal := .programLoaded program.length :: s.journal }
          else .error (.fault (.programTooLarge program.length)) s
        else .error .notAByte s
      else .ok false { s with journal := .programIgnored :: s.journal } := by
  by_cases hinit : s.initialized = true
  · by_cases hlength : program.length ≤ programCapacity
    · have hroom : ¬ (4096 : Int) < 512 + program.length := by
        have hlength' : program.length ≤ 3584 := hlength
        omega
      simp [loadProgram, hinit, hlength, hroom, onMachine_eq, Machine.loadBytes, record,
        -bind_pure_comp]
    · simp [loadProgram, hinit, hlength, -bind_pure_comp]
  · simp [loadProgram, hinit, record, -bind_pure_comp]

/-- A program file is read first, and a file that cannot be read changes nothing. -/
theorem loadRom_apply (reader : Reader) (path : String) (s : Interpreter τ) :
    loadRom reader path s =
      if s.initialized then
        match readRom reader path with
        | .error e => .error e s
        | .ok bytes => loadProgram (bytes.map fun byte => (byte.toNat : Int)) s
      else .ok false { s with journal := .romIgnored :: s.journal } := by
  by_cases hinit : s.initialized = true
  · simp only [loadRom, bind_apply, get_apply, hinit, if_true]
    cases readRom reader path <;> rfl
  · simp [loadRom, hinit, record, -bind_pure_comp]

theorem machine_loadProgram (program : List Int) (s : Interpreter τ) :
    ∃ memory length, (endState (loadProgram program s)).machine =
      { s.machine with memory := memory, programLength := length } := by
  rw [loadProgram_apply]
  split
  · split
    · split
      · exact ⟨_, _, rfl⟩
      · exact ⟨_, _, rfl⟩
    · exact ⟨_, _, rfl⟩
  · exact ⟨_, _, rfl⟩

theorem machine_loadRom (reader : Reader) (path : String) (s : Interpreter τ) :
    ∃ memory length, (endState (loadRom reader path s)).machine =
      { s.machine with memory := memory, programLength := length } := by
  rw [loadRom_apply]
  split
  · cases readRom reader path with
    | error e => exact ⟨_, _, rfl⟩
    | ok bytes => exact machine_loadProgram _ s
  · exact ⟨_, _, rfl⟩

end Chip8.Interpreter
