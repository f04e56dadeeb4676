import Chip8.Interpreter.Step
import Chip8.Proofs.Effect

/-!
# The ways a step can go

A step of an initialized interpreter that has not stopped goes one of five ways: it keeps
waiting for a key, it ends the wait, it cannot fetch a word, its instruction faults, or its
instruction completes.  There is one equation for each of them, and one for the timers that
a finished cycle counts down.
-/

namespace Chip8

namespace Machine

/-! ## Fetching -/

/-- The instruction word at the program counter. -/
def wordAtPc (m : Machine) : Int :=
  (m.memory.getD m.pc.toNat 0).toNat * 256 + (m.memory.getD (m.pc + 1).toNat 0).toNat

def operation (m : Machine) : Operation :=
  Operation.ofWord m.wordAtPc

/-- The machine that has fetched the word at its program counter. -/
def fetched (m : Machine) : Machine :=
  { m with opcode := m.wordAtPc }

theorem target_fetched (m : Machine) (operation : Operation) (word : Int) :
    operation.target word m.fetched = operation.target word m := by
  cases operation <;> rfl

theorem cause_fetched (m : Machine) (operation : Operation) (word : Int) :
    operation.cause word m.fetched = operation.cause word m := by
  cases operation <;> rfl

theorem remnant_fetched (m : Machine) (operation : Operation) (word : Int) :
    operation.remnant word m.fetched =
      { operation.remnant word m with opcode := m.wordAtPc } := by
  cases operation <;> rfl

theorem wordAtPc_range (m : Machine) : 0 ≤ m.wordAtPc ∧ m.wordAtPc ≤ 0xFFFF := by
  have hhigh := (m.memory.getD m.pc.toNat 0).toNat_lt
  have hlow := (m.memory.getD (m.pc + 1).toNat 0).toNat_lt
  unfold wordAtPc
  omega

theorem fetch_apply {m : Machine} (h : m.WellFormed) :
    fetch m =
      if m.pc ≤ 0xFFE then .ok m.wordAtPc m.fetched
      else .error (.fault (.memoryRead (max m.pc memorySize))) m := by
  have hnonneg := h.pc_range.1
  by_cases hpc : m.pc ≤ 0xFFE
  · have hhigh : IsAddress m.pc := by
      show 0 ≤ m.pc ∧ m.pc < 4096
      omega
    have hlow : IsAddress (m.pc + 1) := by
      show 0 ≤ m.pc + 1 ∧ m.pc + 1 < 4096
      omega
    simp only [fetch, readByte_apply hhigh, readByte_apply hlow, if_pos hpc]
    rfl
  · have hlow : ¬ IsAddress (m.pc + 1) := by
      show ¬ (0 ≤ m.pc + 1 ∧ m.pc + 1 < 4096)
      omega
    rw [if_neg hpc]
    by_cases hlast : m.pc = 0xFFF
    · have hhigh : IsAddress m.pc := by
        rw [hlast]
        decide
      have hmax : max m.pc (memorySize : Int) = m.pc + 1 := by
        show max m.pc 4096 = m.pc + 1
        omega
      simp only [fetch, readByte_apply hhigh, readByte_eq_error hlow, hmax]
    · have hhigh : ¬ IsAddress m.pc := by
        show ¬ (0 ≤ m.pc ∧ m.pc < 4096)
        omega
      have hmax : max m.pc (memorySize : Int) = m.pc := by
        show max m.pc 4096 = m.pc
        omega
      simp only [fetch, readByte_eq_error hhigh, hmax]

/-- Whether or not there is a whole word to fetch, nothing but the fetched word changes. -/
theorem endState_fetch (m : Machine) : ∃ word, endState (fetch m) = { m with opcode := word } := by
  by_cases hhigh : IsAddress m.pc
  · by_cases hlow : IsAddress (m.pc + 1)
    · simp only [fetch, readByte_apply hhigh, readByte_apply hlow, endState]
      exact ⟨_, rfl⟩
    · simp only [fetch, readByte_apply hhigh, readByte_eq_error hlow, endState]
      exact ⟨m.opcode, rfl⟩
  · simp only [fetch, readByte_eq_error hhigh, endState]
    exact ⟨m.opcode, rfl⟩

/-! ## Ending a wait -/

/-- The machine whose wait a key has ended. -/
def resumed (m : Machine) (number : Int) (key : Nat) : Machine :=
  { m.holding number key with
    keyRegister := none
    runState := .running
    pc := (m.pc + 2) % 65536 }

theorem takeKey_apply
    {m : Machine} {number : Int} (hwaits : m.keyRegister = some number)
    (hnumber : IsRegister number) (key : Nat) :
    takeKey key m = .ok () (m.resumed number key) := by
  simp only [takeKey, hwaits, setRegister_apply hnumber]
  rfl

/-! ## Counting down -/

/-- One less, but not below zero. -/
def countedDown (timer : Int) : Int :=
  if 0 < timer then timer - 1 else timer

theorem countedDown_range {timer : Int} (h : 0 ≤ timer ∧ timer ≤ 0xFF) :
    0 ≤ countedDown timer ∧ countedDown timer ≤ 0xFF := by
  unfold countedDown
  split <;> omega

def delayTicked (m : Machine) : Machine :=
  { m with delay := countedDown m.delay }

def soundTicked (m : Machine) : Machine :=
  { m with sound := countedDown m.sound }

theorem tickDelay_apply (m : Machine) : tickDelay m = .ok () m.delayTicked := rfl

theorem tickSound_apply (m : Machine) : tickSound m = .ok () m.soundTicked := rfl

end Machine

namespace Interpreter

variable {τ : Type}

open Machine

/-- The error of the listener's next call, if that fails. -/
def nextReply (s : Interpreter τ) : Option Error :=
  s.listener.bind fun listener => listener.reply listener.calls

/-- The interpreter that has raised a beep. -/
def afterBeep (s : Interpreter τ) : Interpreter τ :=
  match s.listener with
  | none => { s with beeps := s.beeps + 1, journal := .beep :: s.journal }
  | some listener =>
      { s with
        beeps := s.beeps + 1
        listener := some { listener with calls := listener.calls + 1 } }

@[simp] theorem machine_afterBeep (s : Interpreter τ) : s.afterBeep.machine = s.machine := by
  unfold afterBeep
  split <;> rfl

theorem beep_apply (s : Interpreter τ) :
    beep s =
      match s.nextReply with
      | none => .ok () s.afterBeep
      | some e => .error e s.afterBeep := by
  obtain ⟨machine, stepsPerCall, listener, beeps, lastTick, pending, journal⟩ := s
  cases listener with
  | none => rfl
  | some listener =>
      unfold beep nextReply
      rw [Option.bind_some]
      dsimp only
      cases listener.reply listener.calls <;> rfl

theorem onMachine_ok
    {α : Type} {action : Machine.Action α} {s : Interpreter τ} {a : α} {m : Machine}
    (h : action s.machine = .ok a m) : onMachine action s = .ok a { s with machine := m } := by
  rw [onMachine_eq, h]

theorem machine_onMachine {α : Type} (action : Machine.Action α) (s : Interpreter τ) :
    (endState (onMachine action s)).machine = endState (action s.machine) := by
  rw [onMachine_eq]
  cases action s.machine <;> rfl

/-- The timers are counted down one after the other.  A beep whose listener fails comes in
between, and leaves the sound timer at one. -/
theorem updateTimers_apply (s : Interpreter τ) :
    updateTimers s =
      let t := { s with machine := s.machine.delayTicked }
      if s.machine.sound = 1 then
        match s.nextReply with
        | none => .ok true { t.afterBeep with machine := t.machine.soundTicked }
        | some e => .error e t.afterBeep
      else .ok false { t with machine := t.machine.soundTicked } := by
  have hdelay := onMachine_ok (s := s) (tickDelay_apply s.machine)
  set t : Interpreter τ := { s with machine := s.machine.delayTicked } with ht
  have hsame : t.machine.sound = s.machine.sound := rfl
  have hreply : t.nextReply = s.nextReply := rfl
  by_cases hsound : s.machine.sound = 1
  · have hdue : (t.machine.sound == 1) = true := by rw [hsame, hsound]; rfl
    simp only [updateTimers, bind_apply, hdelay, get_apply, hdue, if_true, beep_apply, hreply,
      if_pos hsound]
    cases s.nextReply with
    | none =>
        have htick := onMachine_ok (s := t.afterBeep) (tickSound_apply t.afterBeep.machine)
        simp only [htick, machine_afterBeep, pure_apply]
    | some e => rfl
  · have hdue : (t.machine.sound == 1) = false := by rw [hsame]; simpa using hsound
    have htick := onMachine_ok (s := t) (tickSound_apply t.machine)
    simp only [updateTimers, bind_apply, hdelay, get_apply, hdue, Bool.false_eq_true, if_false,
      pure_apply, htick, if_neg hsound]

def counted (s : Interpreter τ) : Interpreter τ :=
  { s with machine.cycles := s.machine.cycles + 1 }

theorem finishCycle_apply (s : Interpreter τ) : finishCycle s = updateTimers s.counted := rfl

theorem machine_updateTimers (s : Interpreter τ) :
    (endState (updateTimers s)).machine = s.machine.delayTicked ∨
      (endState (updateTimers s)).machine = s.machine.delayTicked.soundTicked := by
  rw [updateTimers_apply]
  dsimp only
  by_cases hsound : s.machine.sound = 1
  · rw [if_pos hsound]
    cases s.nextReply with
    | none => exact Or.inr rfl
    | some e => exact Or.inl (machine_afterBeep _)
  · rw [if_neg hsound]
    exact Or.inr rfl

/-- The timers fail only when the listener does. -/
theorem updateTimers_error
    {s t : Interpreter τ} {e : Error} (h : updateTimers s = .error e t) :
    s.nextReply = some e := by
  rw [updateTimers_apply] at h
  dsimp only at h
  by_cases hsound : s.machine.sound = 1
  · rw [if_pos hsound] at h
    cases hreply : s.nextReply with
    | none =>
        rw [hreply] at h
        cases h
    | some e' =>
        rw [hreply] at h
        cases h
        rfl
  · rw [if_neg hsound] at h
    cases h

/-! ## Steps -/

section

variable {s : Interpreter τ}

/-- The end of a step that completes a cycle: the timers tick, and the result is read off. -/
def finish (pc : Int) (decoded : Option Decoded) : Action τ StepResult := do
  let beeped ← finishCycle
  return { ← outcome pc with decoded := decoded, executed := true, beeped := beeped }

theorem finish_apply (pc : Int) (decoded : Option Decoded) (s : Interpreter τ) :
    finish pc decoded s =
      match updateTimers s.counted with
      | .ok beeped t =>
          .ok
            { cycle := t.machine.cycles, pc := pc, opcode := t.machine.opcode,
              decoded := decoded, executed := true, beeped := beeped }
            t
      | .error e t => .error e t := by
  simp only [finish, bind_apply, finishCycle_apply]
  cases updateTimers s.counted <;> rfl

theorem endState_finish (pc : Int) (decoded : Option Decoded) (s : Interpreter τ) :
    endState (finish pc decoded s) = endState (updateTimers s.counted) := by
  rw [finish_apply]
  cases updateTimers s.counted <;> rfl

/-- The end of a step counts the cycle and touches the timers, and nothing else. -/
theorem machine_finish (pc : Int) (decoded : Option Decoded) (s : Interpreter τ) :
    ∃ delay sound, (endState (finish pc decoded s)).machine =
      { s.machine with
        cycles := s.machine.cycles + 1
        delay := delay
        sound := sound } := by
  rw [endState_finish]
  rcases machine_updateTimers s.counted with hmachine | hmachine
  · exact ⟨_, _, hmachine⟩
  · exact ⟨_, _, hmachine⟩

theorem fault_finish
    {t : Interpreter τ} {pc : Int} {decoded : Option Decoded} {result : StepResult}
    (h : finish pc decoded s = .ok result t) : result.fault = none := by
  rw [finish_apply] at h
  cases htimers : updateTimers s.counted with
  | ok beeped u =>
      rw [htimers] at h
      cases h
      rfl
  | error e u =>
      rw [htimers] at h
      cases h

theorem finish_error
    {t : Interpreter τ} {pc : Int} {decoded : Option Decoded} {e : Error}
    (h : finish pc decoded s = .error e t) : s.nextReply = some e := by
  rw [finish_apply] at h
  cases htimers : updateTimers s.counted with
  | ok beeped u =>
      rw [htimers] at h
      cases h
  | error e' u =>
      rw [htimers] at h
      cases h
      have hreply := updateTimers_error htimers
      exact hreply

theorem step_of_not_initialized (h : s.initialized = false) :
    step s = .error .notInitialized s := by
  simp only [step, h, Bool.false_eq_true, if_false]

theorem step_of_halted (hinit : s.initialized = true) (h : s.machine.runState = .halted) :
    step s = .error .halted s := by
  simp only [step, hinit, if_true, h]

/-- Without a pressed key a wait goes on, and nothing changes. -/
theorem step_waits
    (hinit : s.initialized = true) (hstate : s.machine.runState = .awaitingKey)
    (hkey : s.machine.pressedKey = none) :
    step s =
      .ok { cycle := s.machine.cycles, pc := s.machine.pc, opcode := s.machine.opcode } s := by
  simp only [step, hinit, if_true, hstate, waitingStep, bind_apply, get_apply, hkey, outcome]

theorem step_resumes
    (hinit : s.initialized = true) (hstate : s.machine.runState = .awaitingKey) {key : Nat}
    (hkey : s.machine.pressedKey = some key) {number : Int}
    (hwaits : s.machine.keyRegister = some number) (hnumber : IsRegister number) :
    step s =
      finish s.machine.pc none { s with machine := s.machine.resumed number key } := by
  have htake := onMachine_ok (s := s) (takeKey_apply hwaits hnumber key)
  simp only [step, hinit, if_true, hstate, waitingStep, bind_apply, get_apply, hkey, htake]
  rfl

/-- The interpreter that a fault at the current instruction has stopped, with what the fault
left of the machine. -/
def stopped (s : Interpreter τ) (m : Machine) (cause : Fault) : Interpreter τ :=
  { s with
    machine := { m with runState := .halted }
    journal := .faulted s.machine.pc cause :: s.journal }

theorem attempt_fault
    {α : Type} {action : Machine.Action α} {m : Machine} {cause : Fault}
    (h : action s.machine = .error (.fault cause) m) :
    attempt (onMachine action) s = .ok (.error cause) { s with machine := m } := by
  simp only [attempt, onMachine_eq, h]

theorem attempt_ok
    {α : Type} {action : Machine.Action α} {m : Machine} {a : α}
    (h : action s.machine = .ok a m) :
    attempt (onMachine action) s = .ok (.ok a) { s with machine := m } := by
  simp only [attempt, onMachine_eq, h]

/-- Without a whole word at the program counter a step stops the machine. -/
theorem step_unfetched
    (hinit : s.initialized = true) (hwf : s.machine.WellFormed)
    (hstate : s.machine.runState = .running) (hpc : 0xFFE < s.machine.pc) :
    step s =
      .ok
        { cycle := s.machine.cycles, pc := s.machine.pc, opcode := s.machine.opcode,
          fault := some (.memoryRead (max s.machine.pc memorySize)) }
        (s.stopped s.machine (.memoryRead (max s.machine.pc memorySize))) := by
  have hfetch := fetch_apply hwf
  rw [if_neg (by omega)] at hfetch
  simp only [step, hinit, if_true, hstate, runningStep, bind_apply, get_apply,
    attempt_fault hfetch, halt, modify_apply, record, outcome, pure_apply]
  rfl

theorem step_fetch_faults
    (hinit : s.initialized = true) (hwf : s.machine.WellFormed)
    (hstate : s.machine.runState = .running) (hpc : 0xFFE < s.machine.pc) :
    ∃ cause,
      step s =
        .ok
          { cycle := s.machine.cycles, pc := s.machine.pc, opcode := s.machine.opcode,
            fault := some cause }
          (s.stopped s.machine cause) :=
  ⟨_, step_unfetched hinit hwf hstate hpc⟩

/-- The interpreter that has fetched a word and reported it if it is no instruction. -/
def inspected (s : Interpreter τ) : Interpreter τ :=
  { s with
    machine := s.machine.fetched
    journal :=
      if (decode s.machine.wordAtPc).valid then s.journal
      else .unrecognized (s.machine.wordAtPc % 65536) :: s.journal }

theorem inspected_of_recognized (hword : s.machine.operation ≠ .unrecognized) :
    s.inspected = { s with machine := s.machine.fetched } := by
  have hvalid : (decode s.machine.wordAtPc).valid = true := decide_eq_true hword
  simp only [inspected, hvalid, if_true]

/-- With a whole word at the program counter a step carries its instruction out. -/
theorem step_executes
    (hinit : s.initialized = true) (hwf : s.machine.WellFormed)
    (hstate : s.machine.runState = .running) (hpc : s.machine.pc ≤ 0xFFE) :
    step s = executeStep s.machine.pc (decode s.machine.wordAtPc) s.inspected := by
  have hfetch := fetch_apply hwf
  rw [if_pos hpc] at hfetch
  simp only [step, hinit, if_true, hstate, runningStep, bind_apply, get_apply,
    attempt_ok hfetch, inspect, ite_apply, record, pure_apply]
  by_cases hvalid : (decode s.machine.wordAtPc).valid = true
  · simp [hvalid, inspected]
  · have hinvalid := Bool.eq_false_iff.mpr hvalid
    simp only [hinvalid, inspected]
    rfl

/-- A fault stops the machine with what it left of the instruction, and the result reports
its cause. -/
theorem step_reports
    (hinit : s.initialized = true) (hwf : s.machine.WellFormed)
    (hstate : s.machine.runState = .running) (hpc : s.machine.pc ≤ 0xFFE)
    (hfault : s.machine.operation.Faults s.machine.wordAtPc s.machine) :
    ∃ cause ∈ s.machine.operation.cause s.machine.wordAtPc s.machine,
      step s =
        .ok
          { cycle := s.machine.cycles, pc := s.machine.pc, opcode := s.machine.wordAtPc,
            decoded := some (decode s.machine.wordAtPc), fault := some cause }
          (s.inspected.stopped
            (s.machine.operation.remnant s.machine.wordAtPc s.machine.fetched) cause) := by
  have hwf' : s.machine.fetched.WellFormed := { hwf with }
  obtain ⟨cause, hcause, hrun⟩ := Registry.run_decode_faults hwf' s.machine.wordAtPc hfault
  have hrun' : Registry.run (decode s.machine.wordAtPc) s.inspected.machine =
      .error (.fault cause)
        (s.machine.operation.remnant s.machine.wordAtPc s.machine.fetched) := hrun
  refine ⟨cause, ?_, ?_⟩
  · rwa [← cause_fetched]
  · simp only [step_executes hinit hwf hstate hpc, executeStep, bind_apply, attempt_fault hrun',
      halt, modify_apply, record, outcome, pure_apply]
    rw [Operation.remnant_eq]
    rfl

theorem step_faults
    (hinit : s.initialized = true) (hwf : s.machine.WellFormed)
    (hstate : s.machine.runState = .running) (hpc : s.machine.pc ≤ 0xFFE)
    (hfault : s.machine.operation.Faults s.machine.wordAtPc s.machine) :
    ∃ cause,
      step s =
        .ok
          { cycle := s.machine.cycles, pc := s.machine.pc, opcode := s.machine.wordAtPc,
            decoded := some (decode s.machine.wordAtPc), fault := some cause }
          (s.inspected.stopped
            (s.machine.operation.remnant s.machine.wordAtPc s.machine.fetched) cause) := by
  obtain ⟨cause, -, hstep⟩ := step_reports hinit hwf hstate hpc hfault
  exact ⟨cause, hstep⟩

/-- The interpreter whose instruction has completed. -/
def performed (s : Interpreter τ) : Interpreter τ :=
  { s.inspected with
    machine := s.machine.operation.completed s.machine.wordAtPc s.machine.fetched }

theorem performed_of_recognized (hword : s.machine.operation ≠ .unrecognized) :
    s.performed =
      { s with machine :=
          s.machine.operation.completed s.machine.wordAtPc s.machine.fetched } := by
  rw [performed, inspected_of_recognized hword]

/-- A completed instruction ends the cycle unless it is unrecognized or begins to wait. -/
theorem step_completes
    (hinit : s.initialized = true) (hwf : s.machine.WellFormed)
    (hstate : s.machine.runState = .running) (hpc : s.machine.pc ≤ 0xFFE)
    (hfine : ¬ s.machine.operation.Faults s.machine.wordAtPc s.machine) :
    step s =
      if s.machine.operation ≠ .unrecognized ∧ s.performed.machine.runState = .running then
        finish s.machine.pc (some (decode s.machine.wordAtPc)) s.performed
      else
        .ok
          { cycle := s.performed.machine.cycles, pc := s.machine.pc,
            opcode := s.performed.machine.opcode, decoded := some (decode s.machine.wordAtPc) }
          s.performed := by
  have hwf' : s.machine.fetched.WellFormed := { hwf with }
  have hrun : Registry.run (decode s.machine.wordAtPc) s.inspected.machine =
      .ok () s.performed.machine :=
    Registry.run_decode_completes hwf' s.machine.wordAtPc hfine
  have hvalid : (decode s.machine.wordAtPc).valid =
      decide (s.machine.operation ≠ .unrecognized) := rfl
  simp only [step_executes hinit hwf hstate hpc, executeStep, bind_apply, attempt_ok hrun,
    get_apply, ite_apply, hvalid]
  by_cases hends : s.machine.operation ≠ .unrecognized ∧ s.performed.machine.runState = .running
  · have hcond : (decide (s.machine.operation ≠ .unrecognized) &&
        s.performed.machine.runState == .running) = true := by
      simp [hends.1, hends.2]
    rw [if_pos hcond, if_pos hends]
    rfl
  · have hcond : ¬ (decide (s.machine.operation ≠ .unrecognized) &&
        s.performed.machine.runState == .running) = true := by
      intro h
      rw [Bool.and_eq_true, beq_iff_eq, decide_eq_true_iff] at h
      exact hends h
    rw [if_neg hcond, if_neg hends]
    rfl

/-- A step whose instruction completes leaves what the instruction does, up to the timers and
the count of the cycles. -/
theorem machine_step_of_completes
    (hinit : s.initialized = true) (hwf : s.machine.WellFormed)
    (hstate : s.machine.runState = .running) (hpc : s.machine.pc ≤ 0xFFE)
    (hfine : ¬ s.machine.operation.Faults s.machine.wordAtPc s.machine) :
    ∃ cycles delay sound,
      (endState (step s)).machine =
        { s.machine.operation.completed s.machine.wordAtPc s.machine.fetched with
          cycles := cycles
          delay := delay
          sound := sound } := by
  rw [step_completes hinit hwf hstate hpc hfine]
  split
  · obtain ⟨delay, sound, hmachine⟩ :=
      machine_finish s.machine.pc (some (decode s.machine.wordAtPc)) s.performed
    exact ⟨_, delay, sound, hmachine⟩
  · exact ⟨_, _, _, rfl⟩

end

end Interpreter

end Chip8
