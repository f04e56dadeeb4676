import Chip8.Machine.Report
import Chip8.Proofs.Calls
import Chip8.Proofs.Lifecycle
import Chip8.Proofs.Preservation
import Chip8.Proofs.Stepping

/-!
# The invariant of all runs

In every state that a run reaches, the machine is well-formed, a register waits for a key
exactly while the machine waits for one, and the program counter stays below `0x10FF`.

The bound on the program counter needs more than itself: an instruction can only be carried
out if its word has two addresses, so what a call puts on the stack is at most `0xFFE`, and
then no return, skip or jump leads further than `0xFFF + 0xFF`.
-/

namespace Chip8

namespace Machine

/-- What holds of the machine between any two calls. -/
structure Intact (m : Machine) : Prop extends WellFormed m where
  opcode_range : 0 ≤ m.opcode ∧ m.opcode ≤ 0xFFFF
  stack_le : ∀ address ∈ m.stack, address ≤ 0xFFE
  pc_le : m.pc ≤ 0x10FE
  waits : m.runState = .awaitingKey → ∃ number, m.keyRegister = some number ∧ IsRegister number
  idle : m.runState ≠ .awaitingKey → m.keyRegister = none
  pc_waiting : m.runState = .awaitingKey → m.pc < 0xFFF

theorem intact_ofSeed (seed : Int) (random : RandomSource) :
    Intact { Machine.ofSeed seed with random := random } :=
  { wellFormed_zeroed random with
    size_memory := by simp [ofSeed]
    opcode_range := by simp [ofSeed]
    stack_le := by simp [ofSeed]
    pc_le := by simp [ofSeed]
    waits := by simp [ofSeed]
    idle := by simp [ofSeed]
    pc_waiting := by simp [ofSeed] }

namespace Intact

variable {m : Machine}

/-! ## The small changes -/

theorem fetched (h : m.Intact) : m.fetched.Intact :=
  { h with opcode_range := m.wordAtPc_range }

theorem withTimers
    (h : m.Intact) {delay sound : Int} (hdelay : 0 ≤ delay ∧ delay ≤ 0xFF)
    (hsound : 0 ≤ sound ∧ sound ≤ 0xFF) : Intact { m with delay := delay, sound := sound } :=
  { h with delay_range := hdelay, sound_range := hsound }

theorem delayTicked (h : m.Intact) : m.delayTicked.Intact :=
  h.withTimers (countedDown_range h.delay_range) h.sound_range

theorem soundTicked (h : m.Intact) : m.soundTicked.Intact :=
  h.withTimers h.delay_range (countedDown_range h.sound_range)

theorem counted (h : m.Intact) : Intact { m with cycles := m.cycles + 1 } :=
  { h with }

theorem withMemory
    (h : m.Intact) {memory : Array UInt8} (hsize : memory.size = memorySize) (length : Int) :
    Intact { m with memory := memory, programLength := length } :=
  { h with size_memory := hsize }

theorem withKeys (h : m.Intact) {keys : Array Bool} (hsize : keys.size = keyCount) :
    Intact { m with keys := keys } :=
  { h with size_keys := hsize }

theorem reset (h : m.Intact) : (endState (resetControl m)).Intact :=
  { h with
    pc_range := by simp [endState, resetControl]
    i_range := by simp [endState, resetControl]
    sp_range := by simp [endState, resetControl]
    delay_range := by simp [endState, resetControl]
    sound_range := by simp [endState, resetControl]
    opcode_range := by simp [endState, resetControl]
    pc_le := by simp [endState, resetControl]
    waits := by simp [endState, resetControl]
    idle := by simp [endState, resetControl]
    pc_waiting := by simp [endState, resetControl] }

theorem resumed (h : m.Intact) (hstate : m.runState = .awaitingKey) (number : Int) (key : Nat) :
    (m.resumed number key).Intact := by
  have hpc := h.pc_waiting hstate
  have hnonneg := h.pc_range.1
  have hlow : 0 ≤ (key : Int) % 256 ∧ (key : Int) % 256 ≤ 0xFF := by omega
  have hnext : (m.resumed number key).pc = m.pc + 2 := h.pc_add_two_mod (by omega)
  exact
    { h with
      size_v := by simpa [Machine.resumed] using h.size_v
      v_range := h.v_range_setIfInBounds _ hlow
      pc_range := by omega
      pc_le := by omega
      waits := by simp [Machine.resumed]
      idle := by simp [Machine.resumed]
      pc_waiting := by simp [Machine.resumed] }

/-- A fault leaves the machine intact, and it can be stopped there. -/
theorem stopped
    (h : m.Intact) (hstate : m.runState = .running) {m' : Machine} (hwf : m'.WellFormed)
    (hopcode : m'.opcode = m.opcode) (hstack : m'.stack = m.stack) (hpc : m'.pc = m.pc)
    (hregister : m'.keyRegister = m.keyRegister) :
    Intact { m' with runState := .halted } :=
  { hwf with
    opcode_range := by
      rw [hopcode]
      exact h.opcode_range
    stack_le := by
      rw [hstack]
      exact h.stack_le
    pc_le := by
      rw [hpc]
      exact h.pc_le
    waits := by simp
    idle := by
      rw [hregister, h.idle (by rw [hstate]; simp)]
      simp
    pc_waiting := by simp }

/-! ## Instructions -/

theorem getD_stack_range (h : m.Intact) (n : Nat) :
    0 ≤ m.stack.getD n 0 ∧ m.stack.getD n 0 ≤ 0xFFE := by
  by_cases hn : n < m.stack.size
  · have hmem : m.stack[n] ∈ m.stack := Array.getElem_mem hn
    have hrange := h.stack_range _ hmem
    have hle := h.stack_le _ hmem
    simp only [Array.getD, hn, dif_pos]
    exact ⟨hrange.1, hle⟩
  · simp [Array.getD, hn]

/-- No instruction that has a whole word leads further than `0x10FE`. -/
theorem target_range
    (h : m.Intact) (hpc : m.pc ≤ 0xFFE) (operation : Operation) (word : Int) :
    0 ≤ operation.target word m ∧ operation.target word m ≤ 0x10FE := by
  by_cases hret : operation = .ret
  · subst hret
    have hsaved := h.getD_stack_range (m.sp - 1).toNat
    show 0 ≤ m.stack.getD (m.sp - 1).toNat 0 + 2 ∧ m.stack.getD (m.sp - 1).toNat 0 + 2 ≤ 0x10FE
    omega
  · exact Operation.target_range h.toWellFormed hpc hret word

/-- What a call puts on the stack is the address of a whole word. -/
theorem stack_completed_le
    (h : m.Intact) (hpc : m.pc ≤ 0xFFE) (operation : Operation) (word : Int) :
    ∀ address ∈ (operation.completed word m).stack, address ≤ 0xFFE := by
  have hnonneg := h.pc_range.1
  have hstack : (operation.completed word m).stack =
      if operation = .call then m.stack.setIfInBounds m.sp.toNat (m.pc % 65536) else m.stack :=
    Operation.stack_effect operation word m
  intro address hmem
  rw [hstack] at hmem
  split at hmem
  · rcases Array.mem_or_eq_of_mem_setIfInBounds hmem with hold | rfl
    · exact h.stack_le _ hold
    · omega
  · exact h.stack_le _ hmem

/-- A completed instruction leaves the machine intact. -/
theorem completed
    (h : m.Intact) (hstate : m.runState = .running) (hpc : m.pc ≤ 0xFFE) (word : Int)
    (hfine : ¬ (Operation.ofWord word).Faults word m) :
    ((Operation.ofWord word).completed word m).Intact := by
  have hcontinues := Operation.continues_completed h.toWellFormed _ hfine
  have hnonneg := h.pc_range.1
  have htarget := h.target_range hpc (Operation.ofWord word) word
  have hnext : ((Operation.ofWord word).completed word m).pc =
      (Operation.ofWord word).target word m % 65536 := rfl
  have hrunState : ((Operation.ofWord word).completed word m).runState =
      if Operation.ofWord word = .awaitKey ∧ m.pressedKey = none then .awaitingKey
      else m.runState := Operation.runState_effect _ _ _
  have hregister : ((Operation.ofWord word).completed word m).keyRegister =
      if Operation.ofWord word = .awaitKey ∧ m.pressedKey = none then
        some (Field.ofWord word .x)
      else m.keyRegister := Operation.keyRegister_effect _ _ _
  have hopcode : 0 ≤ ((Operation.ofWord word).completed word m).opcode ∧
      ((Operation.ofWord word).completed word m).opcode ≤ 0xFFFF := by
    rw [hcontinues.opcode_eq]
    exact h.opcode_range
  have hstack := h.stack_completed_le hpc (Operation.ofWord word) word
  by_cases hbegins : Operation.ofWord word = .awaitKey ∧ m.pressedKey = none
  · rw [if_pos hbegins] at hrunState hregister
    have hstays : (Operation.ofWord word).target word m = m.pc := by
      simp only [hbegins.1, Operation.target, hbegins.2, Option.isSome_none, Bool.false_eq_true,
        if_false]
    exact
      { hcontinues.toWellFormed with
        opcode_range := hopcode
        stack_le := hstack
        pc_le := by omega
        waits := fun _ => ⟨_, hregister, isRegister_x word⟩
        idle := fun hruns => absurd hrunState hruns
        pc_waiting := fun _ => by omega }
  · rw [if_neg hbegins, hstate] at hrunState
    rw [if_neg hbegins, h.idle (by simp [hstate])] at hregister
    exact
      { hcontinues.toWellFormed with
        opcode_range := hopcode
        stack_le := hstack
        pc_le := by omega
        waits := fun hwaits => by simp [hrunState] at hwaits
        idle := fun _ => hregister
        pc_waiting := fun hwaits => by simp [hrunState] at hwaits }

/-- An instruction that faults leaves the machine intact when that is stopped. -/
theorem remnant
    (h : m.Intact) (hstate : m.runState = .running) (word : Int)
    (hfault : (Operation.ofWord word).Faults word m) :
    Intact { (Operation.ofWord word).remnant word m with runState := .halted } := by
  have hkeeps := Operation.keeps_perform (.ofWord word) (Operation.ofWord word) m
    h.continues_self
  obtain ⟨cause, -, hperform⟩ := Operation.perform_faults h.toWellFormed _ hfault
  rw [hperform] at hkeeps
  have hframe := Operation.remnant_eq (Operation.ofWord word) word m
  exact h.stopped hstate hkeeps.1.toWellFormed (by rw [hframe]) (by rw [hframe]) (by rw [hframe])
    (by rw [hframe])

/-- An intact machine passes its own check unless its program counter has left memory. -/
theorem valid (h : m.Intact) (hpc : m.pc < memorySize) : m.valid = true := by
  have hv : ∀ value ∈ m.v.toList ++ [m.delay, m.sound], 0 ≤ value ∧ value ≤ 0xFF := by
    intro value hmem
    rcases List.mem_append.mp hmem with hmem | hmem
    · exact h.v_range value (Array.mem_toList_iff.mp hmem)
    · rcases List.mem_pair.mp hmem with rfl | rfl
      · exact h.delay_range
      · exact h.sound_range
  have hvalues : ((m.v.toList ++ [m.delay, m.sound]).all
      fun value => 0 ≤ value && value ≤ 0xFF) = true := by
    rw [List.all_eq_true]
    intro value hmem
    simpa using hv value hmem
  have hrows : m.screen.all (fun row => row.size == screenWidth) = true := by
    rw [Array.all_eq_true_iff_forall_mem]
    intro row hmem
    simpa using h.size_row row hmem
  simp only [Machine.valid, Bool.and_eq_true, beq_iff_eq, decide_eq_true_iff]
  exact ⟨⟨⟨⟨⟨⟨⟨⟨⟨h.size_memory, h.size_v⟩, h.size_stack⟩, h.size_keys⟩, h.size_screen⟩, hrows⟩,
    hvalues⟩, h.i_range⟩, h.pc_range.1, hpc⟩, h.sp_range⟩

end Intact

end Machine

namespace Interpreter

variable {τ : Type} {s : Interpreter τ}

open Machine

/-! ## Steps -/

/-- The ways a step can go, with what decides between them. -/
inductive Way (s : Interpreter τ) : Prop where
  | uninitialized (hinit : s.initialized = false)
  | stopped (hinit : s.initialized = true) (hstate : s.machine.runState = .halted)
  | waits (hinit : s.initialized = true) (hstate : s.machine.runState = .awaitingKey)
      (hkey : s.machine.pressedKey = none)
  | resumes (hinit : s.initialized = true) (hstate : s.machine.runState = .awaitingKey)
      (key : Nat) (hkey : s.machine.pressedKey = some key)
      (number : Int) (hwaits : s.machine.keyRegister = some number)
      (hnumber : IsRegister number)
  | unfetched (hinit : s.initialized = true) (hstate : s.machine.runState = .running)
      (hpc : 0xFFE < s.machine.pc)
  | faults (hinit : s.initialized = true) (hstate : s.machine.runState = .running)
      (hpc : s.machine.pc ≤ 0xFFE)
      (hfault : s.machine.operation.Faults s.machine.wordAtPc s.machine)
  | completes (hinit : s.initialized = true) (hstate : s.machine.runState = .running)
      (hpc : s.machine.pc ≤ 0xFFE)
      (hfine : ¬ s.machine.operation.Faults s.machine.wordAtPc s.machine)

/-- Every step of an intact machine goes one of these ways. -/
theorem way (h : s.machine.Intact) : Way s := by
  cases hinit : s.initialized with
  | false => exact .uninitialized hinit
  | true =>
      cases hstate : s.machine.runState with
      | halted => exact .stopped hinit hstate
      | awaitingKey =>
          obtain ⟨number, hwaits, hnumber⟩ := h.waits hstate
          cases hkey : s.machine.pressedKey with
          | none => exact .waits hinit hstate hkey
          | some key => exact .resumes hinit hstate key hkey number hwaits hnumber
      | running =>
          by_cases hpc : s.machine.pc ≤ 0xFFE
          · by_cases hfault : s.machine.operation.Faults s.machine.wordAtPc s.machine
            · exact .faults hinit hstate hpc hfault
            · exact .completes hinit hstate hpc hfault
          · exact .unfetched hinit hstate (by omega)

theorem intact_updateTimers (h : s.machine.Intact) :
    (endState (updateTimers s)).machine.Intact := by
  rcases machine_updateTimers s with hmachine | hmachine
  · rw [hmachine]
    exact h.delayTicked
  · rw [hmachine]
    exact h.delayTicked.soundTicked

theorem intact_finish (h : s.machine.Intact) (pc : Int) (decoded : Option Decoded) :
    (endState (finish pc decoded s)).machine.Intact := by
  rw [endState_finish]
  exact intact_updateTimers h.counted

theorem pc_finish (pc : Int) (decoded : Option Decoded) (s : Interpreter τ) :
    (endState (finish pc decoded s)).machine.pc = s.machine.pc := by
  obtain ⟨delay, sound, hmachine⟩ := machine_finish pc decoded s
  rw [hmachine]

theorem intact_step (h : s.machine.Intact) : (endState (step s)).machine.Intact := by
  cases way h with
  | uninitialized hinit =>
      rw [step_of_not_initialized hinit]
      exact h
  | stopped hinit hstate =>
      rw [step_of_halted hinit hstate]
      exact h
  | waits hinit hstate hkey =>
      rw [step_waits hinit hstate hkey]
      exact h
  | resumes hinit hstate key hkey number hwaits hnumber =>
      rw [step_resumes hinit hstate hkey hwaits hnumber]
      exact intact_finish (h.resumed hstate number key) _ _
  | unfetched hinit hstate hpc =>
      obtain ⟨cause, hstep⟩ := step_fetch_faults hinit h.toWellFormed hstate hpc
      rw [hstep]
      exact h.stopped hstate h.toWellFormed rfl rfl rfl rfl
  | faults hinit hstate hpc hfault =>
      obtain ⟨cause, hstep⟩ := step_faults hinit h.toWellFormed hstate hpc hfault
      rw [hstep]
      exact h.fetched.remnant hstate s.machine.wordAtPc hfault
  | completes hinit hstate hpc hfine =>
      have hperformed : s.performed.machine.Intact :=
        h.fetched.completed hstate hpc s.machine.wordAtPc hfine
      rw [step_completes hinit h.toWellFormed hstate hpc hfine]
      split
      · exact intact_finish hperformed _ _
      · exact hperformed

/-- Where a step goes on, before that is cut to sixteen bits. -/
def nextPc (s : Interpreter τ) : Int :=
  let m := s.machine
  if s.initialized then
    match m.runState with
    | .halted => m.pc
    | .awaitingKey => if m.pressedKey.isSome then m.pc + 2 else m.pc
    | .running =>
        if 0xFFE < m.pc ∨ m.operation.Faults m.wordAtPc m then m.pc
        else m.operation.target m.wordAtPc m
  else m.pc

/-- Cutting the program counter to sixteen bits changes nothing in a step. -/
theorem pc_step (h : s.machine.Intact) : (endState (step s)).machine.pc = s.nextPc := by
  have hpcRange := h.pc_range
  cases way h with
  | uninitialized hinit =>
      rw [step_of_not_initialized hinit]
      simp [nextPc, hinit, endState]
  | stopped hinit hstate =>
      rw [step_of_halted hinit hstate]
      simp [nextPc, hinit, hstate, endState]
  | waits hinit hstate hkey =>
      rw [step_waits hinit hstate hkey]
      simp [nextPc, hinit, hstate, hkey, endState]
  | resumes hinit hstate key hkey number hwaits hnumber =>
      have hpc := h.pc_waiting hstate
      rw [step_resumes hinit hstate hkey hwaits hnumber, pc_finish]
      simp [nextPc, hinit, hstate, hkey, resumed]
      omega
  | unfetched hinit hstate hpc =>
      obtain ⟨cause, hstep⟩ := step_fetch_faults hinit h.toWellFormed hstate hpc
      rw [hstep]
      simp [nextPc, hinit, hstate, hpc, endState, Interpreter.stopped]
  | faults hinit hstate hpc hfault =>
      obtain ⟨cause, hstep⟩ := step_faults hinit h.toWellFormed hstate hpc hfault
      rw [hstep, Operation.remnant_eq]
      simp [nextPc, hinit, hstate, hfault, endState, Interpreter.stopped, inspected, fetched]
  | completes hinit hstate hpc hfine =>
      have hrange := h.fetched.target_range hpc s.machine.operation s.machine.wordAtPc
      rw [target_fetched] at hrange
      have hgoes : ¬ (0xFFE < s.machine.pc ∨
          s.machine.operation.Faults s.machine.wordAtPc s.machine) := by
        rintro (hout | hfault)
        · omega
        · exact hfine hfault
      have hnext : s.performed.machine.pc = s.nextPc := by
        calc
          s.performed.machine.pc =
              s.machine.operation.target s.machine.wordAtPc s.machine.fetched % 65536 := rfl
          _ = s.machine.operation.target s.machine.wordAtPc s.machine := by
              rw [target_fetched]
              omega
          _ = s.nextPc := by simp only [nextPc, hinit, hstate, if_true, if_neg hgoes]
      rw [step_completes hinit h.toWellFormed hstate hpc hfine]
      split
      · rw [pc_finish]
        exact hnext
      · exact hnext

/-! ## Calls -/

theorem intact_onMachine
    {α : Type} {action : Machine.Action α} (h : (endState (action s.machine)).Intact) :
    (endState (onMachine action s)).machine.Intact := by
  rw [machine_onMachine]
  exact h

theorem intact_start [TimeScale τ] (h : s.machine.Intact) (now : τ) :
    (endState (start now s)).machine.Intact := by
  rw [start_apply]
  split
  · exact h
  · exact h.reset.withMemory h.size_memory 0

theorem intact_loadProgram (h : s.machine.Intact) (program : List Int) :
    (endState (loadProgram program s)).machine.Intact := by
  rw [loadProgram_apply]
  split
  · split
    · split
      · exact h.withMemory (by rw [size_overlay, h.size_memory]) _
      · exact h
    · exact h
  · exact h

theorem intact_loadRom (h : s.machine.Intact) (reader : Reader) (path : String) :
    (endState (loadRom reader path s)).machine.Intact := by
  rw [loadRom_apply]
  split
  · cases readRom reader path with
    | error e => exact h
    | ok bytes => exact intact_loadProgram h _
  · exact h

theorem intact_setKey (h : s.machine.Intact) (pressed : Bool) (key : Int) :
    (endState (onMachine (setKey pressed key) s)).machine.Intact := by
  apply intact_onMachine
  unfold setKey
  split
  · exact h.withKeys (by simpa using h.size_keys)
  · exact h

theorem intact_setKeys (h : s.machine.Intact) (keys : List Int) :
    (endState (Interpreter.setKeys keys s)).machine.Intact := by
  apply intact_onMachine
  unfold Machine.setKeys
  split
  · exact h
  · exact h.withKeys (by simp)

variable [TimeScale τ]

theorem intact_fresh (h : Fresh s) : s.machine.Intact := by
  obtain ⟨stepsPerCall, seed, listener, created, random, hcreate, rfl⟩ := h
  rw [eq_of_create hcreate]
  exact intact_ofSeed seed random

theorem intact_after (h : s.machine.Intact) (call : Call τ) : (call.after s).machine.Intact := by
  cases call with
  | start now => exact intact_start h now
  | loadProgram program => exact intact_loadProgram h program
  | loadRom reader path => exact intact_loadRom h reader path
  | restart =>
      rw [Call.after, restart_apply]
      exact h.reset
  | step => exact intact_step h
  | runCycles now elapsed =>
      exact runCycles_preserves (P := fun t => t.machine.Intact) (fun t ht => intact_step ht)
        (fun t pending ht => ht) (fun t now ht => ht) now elapsed h
  | fetch =>
      apply intact_onMachine
      rw [fetch_apply h.toWellFormed]
      split
      · exact h.fetched
      · exact h
  | updateTimers => exact intact_updateTimers h
  | pressKey key => exact intact_setKey h true key
  | releaseKey key => exact intact_setKey h false key
  | setKeys keys => exact intact_setKeys h keys

theorem Reachable.intact (h : Reachable s) : s.machine.Intact :=
  h.holds (fun _ => intact_fresh) fun _ call ht => intact_after ht call

/-- In every state of every run the machine is intact.  Whatever the time is, a step from there
goes on where it would go without cutting the program counter to sixteen bits.  The machine
passes its own check while its program counter is an address, and one that waits for a key
still has a whole word there. -/
theorem intact_afterAll {first : Interpreter τ} (h : Fresh first) (calls : List (Call τ)) :
    let m := (afterAll calls first).machine
    m.Intact ∧
      (∀ t : Interpreter τ, t.machine = m → (Call.step.after t).machine.pc = t.nextPc) ∧
      (m.pc < 0x1000 → m.valid = true) ∧
      (m.runState = .awaitingKey → m.pc < 0xFFF) := by
  have hintact : (afterAll calls first).machine.Intact :=
    Reachable.intact ⟨first, calls, h, rfl⟩
  refine ⟨hintact, ?_, hintact.valid, hintact.pc_waiting⟩
  intro t ht
  have ht' : t.machine.Intact := by
    rw [ht]
    exact hintact
  exact pc_step ht'

theorem intact_afterAll_blank :
    let m := (afterAll [.start 0, .step] blank).machine
    m.Intact ∧
      (∀ t : Interpreter Rat, t.machine = m → (Call.step.after t).machine.pc = t.nextPc) ∧
      (m.pc < 0x1000 → m.valid = true) ∧
      (m.runState = .awaitingKey → m.pc < 0xFFF) :=
  intact_afterAll fresh_blank [.start 0, .step]

end Interpreter

end Chip8
