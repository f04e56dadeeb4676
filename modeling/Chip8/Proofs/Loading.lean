import Chip8.Machine.Font
import Chip8.Proofs.Calls
import Chip8.Proofs.Lifecycle
import Chip8.Proofs.Transfer

/-!
# Loading is all or nothing

Programs come into memory in three layers.  A file is read, its values are checked to be bytes
that fit behind the start of the program, and the block is written byte by byte.  Each layer can
refuse, and then nothing has changed.  Otherwise memory holds the program, and all the rest is
as it was.

A new interpreter that is started and given a program has the same machine as one that is
created with the program in it.  The main result is `loads_whole_or_not`.
-/

namespace Chip8

namespace Machine

/-! ## Blocks in memory -/

/-- The value of the byte at an address, if there is one. -/
def byteAt? (memory : Array UInt8) (address : Nat) : Option Int :=
  (memory[address]?).map fun byte => (byte.toNat : Int)

/-- A memory has the low bytes of values from an address on, and agrees with an older one
everywhere else. -/
structure HasBlock (old : Array UInt8) (place : Nat) (values : List Int) (memory : Array UInt8) :
    Prop where
  inside : ∀ (k : Nat) (hk : k < values.length), byteAt? memory (place + k) = some (values[k] % 256)
  outside : ∀ address : Nat, ¬ (place ≤ address ∧ address < place + values.length) →
    memory[address]? = old[address]?

theorem hasBlock_overlay
    {table : Array UInt8} {place : Nat} {values : List Int}
    (hfits : place + values.length ≤ table.size) :
    HasBlock table place values (overlay table place (values.map UInt8.ofInt)) where
  inside k hk := by
    have hoffset : place + k - place = k := by omega
    rw [byteAt?, getElem?_overlay, List.length_map, if_pos ⟨by omega, by omega, by omega⟩, hoffset,
      List.getElem?_map, List.getElem?_eq_getElem hk]
    exact congrArg some (toNat_ofInt values[k])
  outside address hout := getElem?_overlay_of_outside (by rwa [List.length_map]) table

/-! ## Writing a block -/

def writeEach : (address : Int) → List Int → Action Unit
  | _, [] => pure ()
  | address, value :: values => do
      writeByte address value
      writeEach (address + 1) values

theorem writeEach_apply
    {m : Machine} (hsize : m.memory.size = memorySize) {address : Int} (hnonneg : 0 ≤ address)
    (values : List Int) (hfits : address + values.length ≤ memorySize) :
    writeEach address values m = .ok () (m.storing address.toNat values) := by
  induction values generalizing address m with
  | nil => rfl
  | cons value values ih =>
      rw [List.length_cons] at hfits
      have hplace : (address + 1).toNat = address.toNat + 1 := by omega
      have hsize' : (m.storing address.toNat [value]).memory.size = memorySize := by
        rw [← hsize]
        exact size_overlay _ _ _
      rw [writeEach, bind_apply, writeByte_eq hsize hnonneg, if_pos (by omega)]
      dsimp only
      rw [ih hsize' (by omega) (by omega), hplace, ← storing_cons]

/-- What loading a block of values at an address does. -/
structure LoadsBlock (address : Int) (values : List Int) (m : Machine) : Prop where
  refused : address < 0 ∨ memorySize < address + values.length →
    loadBytes address values m = .error (.fault (.blockOutside values.length address)) m
  loaded : 0 ≤ address → address + values.length ≤ memorySize →
    ∃ memory, loadBytes address values m = .ok values.length { m with memory := memory } ∧
      HasBlock m.memory address.toNat values memory
  /-- No single write of a block that is not refused fails. -/
  written : 0 ≤ address → address + values.length ≤ memorySize →
    loadBytes address values m =
      (do
        writeEach address values
        return values.length : Action Nat) m

theorem loadsBlock
    {m : Machine} (hsize : m.memory.size = memorySize) (address : Int) (values : List Int) :
    LoadsBlock address values m := by
  have happly (hnonneg : 0 ≤ address) (hfits : address + values.length ≤ memorySize) :
      loadBytes address values m = .ok values.length (m.storing address.toNat values) :=
    if_neg (by omega)
  constructor
  · intro hrefused
    exact if_pos hrefused
  · intro hnonneg hfits
    exact ⟨_, happly hnonneg hfits, hasBlock_overlay (by omega)⟩
  · intro hnonneg hfits
    rw [happly hnonneg hfits, bind_apply, writeEach_apply hsize hnonneg values hfits]
    rfl

end Machine

namespace Interpreter

open Machine

variable {τ : Type}

/-! ## Programs and files -/

structure LoadsProgram (program : List Int) (s : Interpreter τ) : Prop where
  ignored : s.initialized = false →
    loadProgram program s = .ok false { s with journal := .programIgnored :: s.journal }
  notBytes : s.initialized = true → ¬ (∀ value ∈ program, IsByte value) →
    loadProgram program s = .error .notAByte s
  tooLarge : s.initialized = true → (∀ value ∈ program, IsByte value) →
    programCapacity < program.length →
      loadProgram program s = .error (.fault (.programTooLarge program.length)) s
  loaded : s.initialized = true → (∀ value ∈ program, IsByte value) →
    program.length ≤ programCapacity →
      ∃ memory,
        loadProgram program s =
          .ok true
            { s with
              machine := { s.machine with memory := memory, programLength := program.length }
              journal := .programLoaded program.length :: s.journal } ∧
        (∀ (k : Nat) (hk : k < program.length),
          byteAt? memory (programStart + k) = some program[k]) ∧
        ∀ address : Nat, ¬ (programStart ≤ address ∧ address < programStart + program.length) →
          memory[address]? = s.machine.memory[address]?

theorem loadsProgram
    {s : Interpreter τ} (hsize : s.machine.memory.size = memorySize) (program : List Int) :
    LoadsProgram program s := by
  have happly := loadProgram_apply program s
  constructor
  · intro hinit
    rw [happly, if_neg (by simp [hinit])]
  · intro hinit hvalues
    rw [happly, if_pos hinit, if_neg hvalues]
  · intro hinit hvalues hlength
    rw [happly, if_pos hinit, if_pos hvalues, if_neg (by omega)]
  · intro hinit hvalues hlength
    have hroom : programStart + program.length ≤ s.machine.memory.size := by
      rw [hsize, ← programStart_add_programCapacity]
      omega
    obtain ⟨hinside, houtside⟩ := hasBlock_overlay hroom
    rw [if_pos hinit, if_pos hvalues, if_pos hlength] at happly
    refine ⟨_, happly, fun k hk => ?_, houtside⟩
    obtain ⟨hnonneg, hle⟩ := hvalues program[k] (List.getElem_mem hk)
    have hcut : program[k] % 256 = program[k] := by omega
    rw [hinside k hk, hcut]

structure LoadsRom (reader : Reader) (path : String) (s : Interpreter τ) : Prop where
  ignored : s.initialized = false →
    loadRom reader path s = .ok false { s with journal := .romIgnored :: s.journal }
  unreadable : ∀ e, s.initialized = true → readRom reader path = .error e →
    loadRom reader path s = .error e s
  read : ∀ bytes, s.initialized = true → readRom reader path = .ok bytes →
    loadRom reader path s = loadProgram (bytes.map fun byte => (byte.toNat : Int)) s
  /-- Nothing changes, whatever the error is. -/
  unchanged : ∀ e t, loadRom reader path s = .error e t → t = s

theorem eq_of_loadProgram_error
    {program : List Int} {s t : Interpreter τ} {e : Error}
    (herror : loadProgram program s = .error e t) : t = s := by
  rw [loadProgram_apply] at herror
  split at herror
  · split at herror
    · split at herror
      · cases herror
      · injection herror with _ hend
        exact hend.symm
    · injection herror with _ hend
      exact hend.symm
  · cases herror

theorem loadsRom (reader : Reader) (path : String) (s : Interpreter τ) :
    LoadsRom reader path s := by
  have happly := loadRom_apply reader path s
  constructor
  · intro hinit
    rw [happly, if_neg (by simp [hinit])]
  · intro e hinit hread
    rw [happly, if_pos hinit, hread]
  · intro bytes hinit hread
    rw [happly, if_pos hinit, hread]
  · intro e t herror
    rw [happly] at herror
    split at herror
    · split at herror
      · injection herror with _ hend
        exact hend.symm
      · exact eq_of_loadProgram_error herror
    · cases herror

/-! ## The two ways to a program -/

section

variable [TimeScale τ] {perCall seed : Int} {listener : Option Listener} {created : Interpreter τ}

theorem start_of_create (hcreate : create perCall seed listener = .ok created) (now : τ) :
    (endState (start now created)).initialized = true ∧
      (endState (start now created)).machine = Machine.ofSeed seed := by
  have hnew : ¬ created.initialized = true := by
    rw [initialized_of_create hcreate]
    exact Bool.false_ne_true
  rw [start_apply, if_neg hnew, eq_of_create hcreate]
  exact ⟨rfl, by simp [endState, Machine.resetControl, Machine.ofSeed]⟩

/-- A new interpreter that is started and given a program has the machine that is created with
the program in it. -/
theorem loadProgram_of_create
    (hcreate : create perCall seed listener = .ok created) (now : τ) {program : List Int}
    (hbytes : ∀ value ∈ program, IsByte value) (hlength : program.length ≤ programCapacity) :
    ∃ t, loadProgram program (endState (start now created)) = .ok true t ∧
      Machine.create program seed = .ok t.machine := by
  obtain ⟨hinit, hmachine⟩ := start_of_create hcreate now
  rw [loadProgram_apply, if_pos hinit, if_pos hbytes, if_pos hlength]
  refine ⟨_, rfl, ?_⟩
  dsimp only
  rw [hmachine]
  cases program with
  | nil => simp [Machine.create, overlay, Machine.ofSeed]
  | cons value program =>
      have hfits : ¬ ((programStart : Int) < 0 ∨
          (memorySize : Int) < programStart + (value :: program).length) := by
        rw [← programStart_add_programCapacity]
        omega
      rw [Machine.create, List.isEmpty_cons, if_neg Bool.false_ne_true, Machine.loadBytes,
        if_neg hfits, Int.toNat_natCast]

/-- Neither way takes a program that is too large. -/
theorem refused_of_create
    (hcreate : create perCall seed listener = .ok created) (now : τ) {program : List Int}
    (hbytes : ∀ value ∈ program, IsByte value) (hlength : programCapacity < program.length) :
    loadProgram program (endState (start now created)) =
        .error (.fault (.programTooLarge program.length)) (endState (start now created)) ∧
      Machine.create program seed =
        .error (.fault (.blockOutside program.length programStart)) := by
  constructor
  · rw [loadProgram_apply, if_pos (start_of_create hcreate now).1, if_pos hbytes,
      if_neg (by omega)]
  · have hsome : program.isEmpty = false := by
      cases program with
      | nil => cases hlength
      | cons value program => rfl
    have hout : (programStart : Int) < 0 ∨ (memorySize : Int) < programStart + program.length := by
      rw [← programStart_add_programCapacity]
      omega
    rw [Machine.create, hsome, if_neg Bool.false_ne_true, Machine.loadBytes, if_pos hout]

end

/-! ## Main result -/

/-- Blocks, programs and files are loaded whole or not at all, and the two ways to a machine
with a program lead to the same one. -/
theorem loads_whole_or_not
    [TimeScale τ] {s : Interpreter τ} (hsize : s.machine.memory.size = memorySize) :
    (∀ program, LoadsProgram program s) ∧
      (∀ reader path, LoadsRom reader path s) ∧
      (∀ address values, LoadsBlock address values s.machine) ∧
      ∀ (perCall seed : Int) (listener : Option Listener) (created : Interpreter τ) (now : τ)
        (program : List Int), create perCall seed listener = .ok created →
          (∀ value ∈ program, IsByte value) →
          (program.length ≤ programCapacity →
            ∃ t, loadProgram program (endState (start now created)) = .ok true t ∧
              Machine.create program seed = .ok t.machine) ∧
          (programCapacity < program.length →
            loadProgram program (endState (start now created)) =
                .error (.fault (.programTooLarge program.length)) (endState (start now created)) ∧
              Machine.create program seed =
                .error (.fault (.blockOutside program.length programStart))) := by
  refine ⟨loadsProgram hsize, fun reader path => loadsRom reader path s, loadsBlock hsize, ?_⟩
  intro perCall seed listener created now program hcreate hbytes
  exact ⟨loadProgram_of_create hcreate now hbytes, refused_of_create hcreate now hbytes⟩

/-- A started interpreter takes a program of two bytes, and its machine refuses a block that
passes the end of memory. -/
theorem loads_whole_or_not_blank :
    let started := endState (start 0 blank)
    (∃ t, loadProgram [0x12, 0x34] started = .ok true t ∧
      byteAt? t.machine.memory 0x200 = some 0x12 ∧ byteAt? t.machine.memory 0x201 = some 0x34) ∧
      Machine.loadBytes 0xFFF [1, 2] started.machine =
        .error (.fault (.blockOutside 2 0xFFF)) started.machine := by
  intro started
  have hinit : started.initialized = true := rfl
  have hsize : started.machine.memory.size = memorySize := by
    simp [started, start_apply, endState, Machine.resetControl, blank, Machine.ofSeed, initialized]
  obtain ⟨hprogram, -, hblock, -⟩ := loads_whole_or_not hsize
  obtain ⟨memory, hload, hbytes, -⟩ :=
    (hprogram [0x12, 0x34]).loaded hinit (by decide) (by decide)
  exact ⟨⟨_, hload, hbytes 0 (by decide), hbytes 1 (by decide)⟩,
    (hblock 0xFFF [1, 2]).refused (by decide)⟩

end Interpreter

end Chip8
