import Chip8.Proofs.Pace

/-!
# The beginning of a run

Before an interpreter is initialized it has nothing but the font in memory and stands at the
start of the program area; so the first word that it could meet clears the screen.  Once it is
initialized, loading a program puts its bytes there.
-/

namespace Chip8

namespace Machine

theorem memory_ofSeed (seed : Int) :
    (ofSeed seed).memory = overlay (Array.replicate memorySize 0) 0 font := by
  simp only [ofSeed]

theorem pc_ofSeed (seed : Int) : (ofSeed seed).pc = programStart := by
  simp only [ofSeed]

end Machine

namespace Interpreter

section

variable {τ : Type} [TimeScale τ] {s : Interpreter τ}

/-- An interpreter that is not initialized has nothing but the font in memory, and stands at
the start of the program area. -/
theorem Reachable.not_started (h : Reachable s) (hinit : s.initialized = false) :
    s.machine.memory = Machine.overlay (Array.replicate memorySize 0) 0 font ∧
      s.machine.pc = programStart := by
  refine h.holds (P := fun t => t.initialized = false →
    t.machine.memory = Machine.overlay (Array.replicate memorySize 0) 0 font ∧
      t.machine.pc = programStart) ?_ ?_ hinit
  · rintro t ⟨stepsPerCall, seed, listener, created, random, hcreate, rfl⟩ -
    rw [eq_of_create hcreate]
    dsimp only
    exact ⟨Machine.memory_ofSeed seed, Machine.pc_ofSeed seed⟩
  · intro t call ht hafter
    have hnot : t.initialized = false := by
      rw [Bool.eq_false_iff]
      intro hinit
      rw [initialized_after hinit call] at hafter
      cases hafter
    have hnot' : ¬ t.initialized = true := by simp [hnot]
    have hsame := ht hnot
    have hkeys (hcall : call.IsKeyCall) :
        (call.after t).machine.memory = t.machine.memory ∧
          (call.after t).machine.pc = t.machine.pc := by
      obtain ⟨keys, hkeys⟩ := after_of_isKeyCall hcall t
      rw [hkeys]
      exact ⟨rfl, rfl⟩
    cases call with
    | start now =>
        rw [Call.after, start_apply, if_neg hnot'] at hafter
        cases hafter
    | loadProgram program =>
        rw [Call.after, loadProgram_apply, if_neg hnot']
        exact hsame
    | loadRom reader path =>
        rw [Call.after, loadRom_apply, if_neg hnot']
        exact hsame
    | restart =>
        rw [Call.after, restart_apply]
        exact ⟨hsame.1, rfl⟩
    | step =>
        rw [Call.after, step_of_not_initialized hnot]
        exact hsame
    | runCycles now elapsed =>
        have hlast : t.lastTick = none := by simpa [initialized] using hnot
        simp only [Call.after, runCycles, hlast]
        exact hsame
    | fetch =>
        obtain ⟨word, hfetch⟩ := Machine.endState_fetch t.machine
        rw [Call.after, machine_onMachine, hfetch]
        exact hsame
    | updateTimers =>
        rcases machine_updateTimers t with hmachine | hmachine
        · rw [Call.after, hmachine]
          exact hsame
        · rw [Call.after, hmachine]
          exact hsame
    | pressKey key | releaseKey key | setKeys keys =>
        rw [(hkeys trivial).1, (hkeys trivial).2]
        exact hsame

/-- The word that an interpreter meets before it is initialized clears the screen. -/
theorem Reachable.operation_of_not_initialized
    (h : Reachable s) (hinit : s.initialized = false) : s.machine.operation = .clear := by
  obtain ⟨hmemory, hpc⟩ := h.not_started hinit
  have hcell {a : Nat} (hfont : 80 ≤ a) (hin : a < 4096) : s.machine.memory[a]? = some 0 := by
    have hpast : ¬ (0 ≤ a ∧ a < 0 + font.length ∧
        a < (Array.replicate memorySize (0 : UInt8)).size) := by
      have hlength : font.length = 80 := rfl
      omega
    rw [hmemory, Machine.getElem?_overlay, if_neg hpast]
    simp [hin]
  have hword : s.machine.wordAtPc = 0 := by
    have hhigh := hcell (a := 512) (by decide) (by decide)
    have hlow := hcell (a := 513) (by decide) (by decide)
    simp [Machine.wordAtPc, hpc, hhigh, hlow]
  rw [Machine.operation, hword]
  rfl

theorem Reachable.initialized_of_operation
    (h : Reachable s) (hword : s.machine.operation ≠ .clear) : s.initialized = true := by
  by_contra hnot
  exact hword (h.operation_of_not_initialized (Bool.eq_false_iff.mpr hnot))

end

/-! ## A loaded program -/

/-- A new interpreter that was initialized and has loaded a program. -/
def loaded (program : List Int) : Interpreter Rat :=
  afterAll [.start 0, .loadProgram program] blank

theorem reachable_loaded (program : List Int) : Reachable (loaded program) :=
  ⟨blank, _, fresh_blank, rfl⟩

section

variable {program : List Int} (hbytes : ∀ value ∈ program, IsByte value)
  (hlength : program.length ≤ programCapacity)

include hbytes hlength

theorem loaded_eq :
    loaded program =
      { blank with
        machine := { blank.machine with
          memory := Machine.overlay blank.machine.memory programStart (program.map UInt8.ofInt)
          programLength := program.length }
        lastTick := some 0
        journal := [.programLoaded program.length, .initialized programStart] } := by
  have hstart : endState (start 0 blank) =
      { blank with lastTick := some 0, journal := [.initialized programStart] } := by
    simp [start_apply, endState, blank, initialized, Machine.resetControl, Machine.ofSeed]
  change endState (loadProgram program (endState (start 0 blank))) = _
  rw [hstart, loadProgram_apply, if_pos (by rfl), if_pos hbytes, if_pos hlength]
  rfl

theorem initialized_loaded : (loaded program).initialized = true := by
  rw [loaded_eq hbytes hlength]
  rfl

theorem runState_loaded : (loaded program).machine.runState = .running := by
  rw [loaded_eq hbytes hlength]
  rfl

theorem pc_loaded : (loaded program).machine.pc = 0x200 := by
  rw [loaded_eq hbytes hlength]
  rfl

theorem sp_loaded : (loaded program).machine.sp = 0 := by
  rw [loaded_eq hbytes hlength]
  rfl

end

theorem toNat_ofInt_of_isByte {value : Int} (h : IsByte value) :
    ((UInt8.ofInt value).toNat : Int) = value := by
  obtain ⟨hnonneg, hle⟩ := h
  rw [Machine.toNat_ofInt]
  omega

/-- The first two bytes of a program are the word that it begins with. -/
theorem wordAtPc_loaded
    {high low : Int} {rest : List Int} (hbytes : ∀ value ∈ high :: low :: rest, IsByte value)
    (hlength : (high :: low :: rest).length ≤ programCapacity) :
    (loaded (high :: low :: rest)).machine.wordAtPc = high * 256 + low := by
  have hsize : blank.machine.memory.size = 4096 := by simp [blank, Machine.ofSeed]
  have hcell {a : Nat} (hlow : 512 ≤ a) (hin : a < 514) :
      (loaded (high :: low :: rest)).machine.memory[a]? =
        ((high :: low :: rest).map UInt8.ofInt)[a - 512]? := by
    rw [loaded_eq hbytes hlength]
    dsimp only
    rw [Machine.getElem?_overlay, if_pos]
    have hplace : programStart = 512 := rfl
    refine ⟨hlow, ?_, by omega⟩
    simp only [List.length_map, List.length_cons]
    omega
  have hpc := pc_loaded hbytes hlength
  have hfirst := toNat_ofInt_of_isByte (hbytes high (by simp))
  have hsecond := toNat_ofInt_of_isByte (hbytes low (by simp))
  have hhigh : (loaded (high :: low :: rest)).machine.memory[512]? = some (UInt8.ofInt high) :=
    hcell (by decide) (by decide)
  have hlow : (loaded (high :: low :: rest)).machine.memory[513]? = some (UInt8.ofInt low) :=
    hcell (by decide) (by decide)
  simp [Machine.wordAtPc, hpc, hhigh, hlow, hfirst, hsecond]

end Interpreter

end Chip8
