import Chip8.Proofs.Faulting
import Chip8.Proofs.Pace

/-!
# The endings of a step

A step that returns ends in exactly one of five ways: an instruction or a wait was completed,
the word is no instruction, the machine began to wait for a key, it goes on waiting, or it was
stopped at a fault.  The result of the step agrees with the machine that it leaves.

A machine that stands at a word which is no instruction is stuck there.  Whatever is called
next, apart from loading a program and restarting, every later step stalls at the same word.
-/

namespace Chip8

namespace Machine

/-- The machine that has fetched a key wait and begun to wait. -/
def suspended (m : Machine) : Machine :=
  { m.fetched with
    runState := .awaitingKey
    keyRegister := some (Field.ofWord m.wordAtPc .x) }

/-- The delay timer as the end of the next step finds it, with what the instruction sets. -/
def delayDue (m : Machine) : Int :=
  if m.runState = .running ∧ m.operation = .setDelay then m.held (Field.ofWord m.wordAtPc .x)
  else m.delay

/-- The sound timer as the end of the next step finds it. -/
def soundDue (m : Machine) : Int :=
  if m.runState = .running ∧ m.operation = .setSound then m.held (Field.ofWord m.wordAtPc .x)
  else m.sound

end Machine

namespace Interpreter

open Machine

variable {τ : Type} {s t : Interpreter τ} {result : StepResult}

/-! ## The three ways in which an instruction completes -/

section

variable (hinit : s.initialized = true) (hwf : s.machine.WellFormed)
  (hstate : s.machine.runState = .running) (hpc : s.machine.pc ≤ 0xFFE)

include hinit hwf hstate hpc

theorem step_stalls (hword : s.machine.operation = .unrecognized) :
    step s =
      .ok
        { cycle := s.machine.cycles, pc := s.machine.pc, opcode := s.machine.wordAtPc,
          decoded := some (decode s.machine.wordAtPc) }
        s.inspected := by
  have hfine : ¬ s.machine.operation.Faults s.machine.wordAtPc s.machine := by
    rw [hword]
    exact id
  have hstays := hwf.pc_mod
  have hmachine : s.performed.machine = s.machine.fetched := by
    simp only [performed, hword, Operation.completed, Operation.effect, Operation.target]
    exact congrArg (fun pc => { s.machine.fetched with pc := pc }) hstays
  have hperformed : s.performed = s.inspected :=
    congrArg (fun m => { s.inspected with machine := m }) hmachine
  rw [step_completes hinit hwf hstate hpc hfine, if_neg fun h => h.1 hword, hperformed]
  rfl

theorem step_suspends
    (hword : s.machine.operation = .awaitKey) (hkey : s.machine.pressedKey = none) :
    step s =
      .ok
        { cycle := s.machine.cycles, pc := s.machine.pc, opcode := s.machine.wordAtPc,
          decoded := some (decode s.machine.wordAtPc) }
        { s with machine := s.machine.suspended } := by
  have hfine : ¬ s.machine.operation.Faults s.machine.wordAtPc s.machine := by
    rw [hword]
    exact id
  have hkey' : s.machine.fetched.pressedKey = none := hkey
  have hstays := hwf.pc_mod
  have hmachine : s.performed.machine = s.machine.suspended := by
    simp only [performed, hword, Operation.completed, Operation.effect, Operation.target, hkey',
      Option.isSome_none, Bool.false_eq_true, if_false]
    exact congrArg (fun pc => { s.machine.suspended with pc := pc }) hstays
  have hperformed : s.performed = { s with machine := s.machine.suspended } := by
    calc
      s.performed = { s.inspected with machine := s.performed.machine } := rfl
      _ = { s with machine := s.machine.suspended } := by
          rw [hmachine, inspected_of_recognized (by simp [hword])]
  have hwaits : s.performed.machine.runState ≠ .running := by
    rw [hmachine]
    simp [suspended]
  rw [step_completes hinit hwf hstate hpc hfine, if_neg fun h => hwaits h.2, hperformed]
  rfl

theorem step_finishes
    (hfine : ¬ s.machine.operation.Faults s.machine.wordAtPc s.machine)
    (hword : s.machine.operation ≠ .unrecognized)
    (hgoes : ¬ (s.machine.operation = .awaitKey ∧ s.machine.pressedKey = none)) :
    step s = finish s.machine.pc (some (decode s.machine.wordAtPc)) s.performed := by
  have hrunning : s.performed.machine.runState = .running := by
    calc
      s.performed.machine.runState =
          if s.machine.operation = .awaitKey ∧ s.machine.pressedKey = none then .awaitingKey
          else s.machine.runState := Operation.runState_effect _ _ _
      _ = .running := by rw [if_neg hgoes, hstate]
  rw [step_completes hinit hwf hstate hpc hfine, if_pos ⟨hword, hrunning⟩]

end

/-- The result of a completed cycle, and the one run of the timers that ends it. -/
theorem finish_ok
    {pc : Int} {decoded : Option Decoded} (h : finish pc decoded s = .ok result t) :
    result =
        { cycle := t.machine.cycles, pc := pc, opcode := t.machine.opcode, decoded := decoded,
          executed := true, beeped := result.beeped } ∧
      updateTimers s.counted = .ok result.beeped t := by
  rw [finish_apply] at h
  cases htimers : updateTimers s.counted with
  | ok beeped u =>
      rw [htimers] at h
      cases h
      exact ⟨rfl, rfl⟩
  | error e u =>
      rw [htimers] at h
      cases h

/-! ## The five endings -/

/-- How a step that returns can end. -/
inductive Ending where
  /-- An instruction, or a wait for a key, was completed. -/
  | executed
  /-- The word is no instruction. -/
  | stalled
  /-- The machine began to wait for a key. -/
  | suspended
  /-- The machine goes on waiting. -/
  | waited
  /-- The machine was stopped at a fault. -/
  | faulted

namespace Ending

/-- What an ending says about a step from `s` to `t`.  A completed cycle counts one, and ends
with one run of the timers; only the fetched word changes when a step stalls, and nothing at all
while the machine waits. -/
def Describes (s : Interpreter τ) (result : StepResult) (t : Interpreter τ) : Ending → Prop
  | executed =>
      result.executed = true ∧ result.fault = none ∧
        t.machine.cycles = s.machine.cycles + 1 ∧
        ∃ u : Interpreter τ, u.machine.delay = s.machine.delayDue ∧
          u.machine.sound = s.machine.soundDue ∧ u.beeps = s.beeps ∧
          updateTimers u = .ok result.beeped t
  | stalled =>
      result.executed = false ∧ result.fault = none ∧ s.machine.runState = .running ∧
        s.machine.operation = .unrecognized ∧
        (∃ decoded, result.decoded = some decoded ∧ decoded.valid = false) ∧
        t.machine = { s.machine with opcode := s.machine.wordAtPc }
  | suspended =>
      result.executed = false ∧ result.fault = none ∧ s.machine.runState = .running ∧
        s.machine.operation = .awaitKey ∧ s.machine.pressedKey = none ∧
        t.machine =
          { s.machine with
            opcode := s.machine.wordAtPc
            runState := .awaitingKey
            keyRegister := some (Field.ofWord s.machine.wordAtPc .x) }
  | waited =>
      result.executed = false ∧ result.fault = none ∧ s.machine.runState = .awaitingKey ∧
        s.machine.pressedKey = none ∧ t = s
  | faulted =>
      result.executed = false ∧ result.fault.isSome = true ∧ t.machine.runState = .halted ∧
        t.machine.cycles = s.machine.cycles ∧ t.machine.delay = s.machine.delay ∧
        t.machine.sound = s.machine.sound

/-- The ending that a result tells, together with the run states before and after the step. -/
def told (s : Interpreter τ) (result : StepResult) (t : Interpreter τ) : Ending :=
  if result.executed then executed
  else if result.fault.isSome then faulted
  else if s.machine.runState = .awaitingKey then waited
  else if t.machine.runState = .awaitingKey then suspended
  else stalled

theorem Describes.eq_told {ending : Ending} (h : ending.Describes s result t) :
    ending = told s result t := by
  cases ending with
  | executed => simp [told, h.1]
  | stalled =>
      obtain ⟨hexecuted, hfault, hstate, -, -, hmachine⟩ := h
      simp [told, hexecuted, hfault, hstate, hmachine]
  | suspended =>
      obtain ⟨hexecuted, hfault, hstate, -, -, hmachine⟩ := h
      simp [told, hexecuted, hfault, hstate, hmachine]
  | waited =>
      obtain ⟨hexecuted, hfault, hstate, -⟩ := h
      simp [told, hexecuted, hfault, hstate]
  | faulted =>
      obtain ⟨hexecuted, hfault, -⟩ := h
      simp [told, hexecuted, hfault]

/-- A cycle that is completed after an instruction or a wait is executed. -/
theorem describes_finish
    {u : Interpreter τ} {pc : Int} {decoded : Option Decoded}
    (hfinish : finish pc decoded u = .ok result t)
    (hdelay : u.machine.delay = s.machine.delayDue)
    (hsound : u.machine.sound = s.machine.soundDue)
    (hcycles : u.machine.cycles = s.machine.cycles) (hbeeps : u.beeps = s.beeps) :
    executed.Describes s result t := by
  obtain ⟨hresult, htimers⟩ := finish_ok hfinish
  obtain ⟨delay, sound, hmachine⟩ := machine_finish pc decoded u
  rw [hfinish] at hmachine
  have hcounted : t.machine.cycles = u.machine.cycles + 1 := congrArg Machine.cycles hmachine
  refine ⟨?_, ?_, ?_, u.counted, hdelay, hsound, hbeeps, htimers⟩
  · rw [hresult]
  · rw [hresult]
  · rw [hcounted, hcycles]

end Ending

/-- What a result says, whatever the ending.  Decoding is missing from it exactly when nothing
was fetched. -/
structure Reports (s : Interpreter τ) (result : StepResult) (t : Interpreter τ) : Prop where
  pc_eq : result.pc = s.machine.pc
  cycle_eq : result.cycle = t.machine.cycles
  opcode_eq : result.opcode = t.machine.opcode
  executed_of_beeped : result.beeped = true → result.executed = true
  decoded_eq_none_iff :
    result.decoded = none ↔
      s.machine.runState = .awaitingKey ∨
        (s.machine.runState = .running ∧ ∃ e m, fetch s.machine = .error e m)
  decoded_eq : ∀ decoded, result.decoded = some decoded → decoded = decode s.machine.wordAtPc

theorem decoded_eq_none_iff_of_fetched
    (hwf : s.machine.WellFormed) (hstate : s.machine.runState = .running)
    (hpc : s.machine.pc ≤ 0xFFE) (decoded : Decoded) :
    some decoded = none ↔
      s.machine.runState = .awaitingKey ∨
        (s.machine.runState = .running ∧ ∃ e m, fetch s.machine = .error e m) := by
  refine iff_of_false (by simp) ?_
  rintro (hwaits | ⟨-, e, m, hfetch⟩)
  · rw [hstate] at hwaits
    cases hwaits
  · rw [fetch_apply hwf, if_pos hpc] at hfetch
    cases hfetch

/-- A step at a word that is no instruction ends by stalling. -/
theorem stalled_of_unrecognized
    (hinit : s.initialized = true) (hwf : s.machine.WellFormed)
    (hstate : s.machine.runState = .running) (hpc : s.machine.pc ≤ 0xFFE)
    (hword : s.machine.operation = .unrecognized) :
    ∃ result t, step s = .ok result t ∧ Ending.stalled.Describes s result t ∧
      t.machine = s.machine.fetched := by
  have hinvalid : (decode s.machine.wordAtPc).valid = false :=
    decide_eq_false (not_not_intro hword)
  refine ⟨_, _, step_stalls hinit hwf hstate hpc hword, ?_, rfl⟩
  exact ⟨rfl, rfl, hstate, hword, ⟨_, rfl, hinvalid⟩, rfl⟩

/-- A completed instruction ends in one of three ways. -/
theorem ending_of_completes
    (hinit : s.initialized = true) (hwf : s.machine.WellFormed)
    (hstate : s.machine.runState = .running) (hpc : s.machine.pc ≤ 0xFFE)
    (hfine : ¬ s.machine.operation.Faults s.machine.wordAtPc s.machine)
    (hstep : step s = .ok result t) :
    (∃ ending : Ending, ending.Describes s result t) ∧ Reports s result t := by
  have hnone := decoded_eq_none_iff_of_fetched hwf hstate hpc (decode s.machine.wordAtPc)
  have hsome (decoded : Decoded) (hdecoded : some (decode s.machine.wordAtPc) = some decoded) :
      decoded = decode s.machine.wordAtPc := (Option.some.inj hdecoded).symm
  by_cases hword : s.machine.operation = .unrecognized
  · rw [step_stalls hinit hwf hstate hpc hword] at hstep
    cases hstep
    have hinvalid : (decode s.machine.wordAtPc).valid = false :=
      decide_eq_false (not_not_intro hword)
    constructor
    · exact ⟨.stalled, rfl, rfl, hstate, hword, ⟨_, rfl, hinvalid⟩, rfl⟩
    · exact ⟨rfl, rfl, rfl, id, hnone, hsome⟩
  by_cases hbegins : s.machine.operation = .awaitKey ∧ s.machine.pressedKey = none
  · obtain ⟨hwait, hkey⟩ := hbegins
    rw [step_suspends hinit hwf hstate hpc hwait hkey] at hstep
    cases hstep
    constructor
    · exact ⟨.suspended, rfl, rfl, hstate, hwait, hkey, rfl⟩
    · exact ⟨rfl, rfl, rfl, id, hnone, hsome⟩
  · rw [step_finishes hinit hwf hstate hpc hfine hword hbegins] at hstep
    obtain ⟨hresult, -⟩ := finish_ok hstep
    have hdelay : s.performed.machine.delay = s.machine.delayDue := by
      simp only [delayDue, hstate, true_and]
      exact Operation.delay_effect _ _ _
    have hsound : s.performed.machine.sound = s.machine.soundDue := by
      simp only [soundDue, hstate, true_and]
      exact Operation.sound_effect _ _ _
    have hcycles : s.performed.machine.cycles = s.machine.cycles :=
      Operation.cycles_effect _ _ _
    constructor
    · exact ⟨.executed, Ending.describes_finish hstep hdelay hsound hcycles rfl⟩
    · rw [hresult]
      exact ⟨rfl, rfl, rfl, fun _ => rfl, hnone, hsome⟩

/-- Every step that returns has an ending, and its result is true. -/
theorem ending_of_step (h : s.machine.Intact) (hstep : step s = .ok result t) :
    (∃ ending : Ending, ending.Describes s result t) ∧ Reports s result t := by
  have hwf := h.toWellFormed
  cases way h with
  | uninitialized hinit =>
      rw [step_of_not_initialized hinit] at hstep
      cases hstep
  | stopped hinit hstate =>
      rw [step_of_halted hinit hstate] at hstep
      cases hstep
  | waits hinit hstate hkey =>
      rw [step_waits hinit hstate hkey] at hstep
      cases hstep
      constructor
      · exact ⟨.waited, rfl, rfl, hstate, hkey, rfl⟩
      · exact ⟨rfl, rfl, rfl, id, iff_of_true rfl (Or.inl hstate), by simp⟩
  | resumes hinit hstate key hkey number hwaits hnumber =>
      rw [step_resumes hinit hstate hkey hwaits hnumber] at hstep
      obtain ⟨hresult, -⟩ := finish_ok hstep
      have hrest : s.machine.runState ≠ .running := by simp [hstate]
      have hdelay : s.machine.delayDue = s.machine.delay := if_neg fun h => hrest h.1
      have hsound : s.machine.soundDue = s.machine.sound := if_neg fun h => hrest h.1
      constructor
      · exact ⟨.executed, Ending.describes_finish hstep hdelay.symm hsound.symm rfl rfl⟩
      · rw [hresult]
        exact ⟨rfl, rfl, rfl, fun _ => rfl, iff_of_true rfl (Or.inl hstate), by simp⟩
  | unfetched hinit hstate hpc =>
      obtain ⟨cause, hfaults⟩ := step_fetch_faults hinit hwf hstate hpc
      have hfetch := fetch_apply hwf
      rw [if_neg (by omega)] at hfetch
      rw [hfaults] at hstep
      cases hstep
      constructor
      · exact ⟨.faulted, rfl, rfl, rfl, rfl, rfl, rfl⟩
      · exact ⟨rfl, rfl, rfl, id, iff_of_true rfl (Or.inr ⟨hstate, _, _, hfetch⟩), by simp⟩
  | faults hinit hstate hpc hfault =>
      obtain ⟨cause, hfaults⟩ := step_faults hinit hwf hstate hpc hfault
      have hnone := decoded_eq_none_iff_of_fetched hwf hstate hpc (decode s.machine.wordAtPc)
      rw [Operation.remnant_eq] at hfaults
      rw [hfaults] at hstep
      cases hstep
      constructor
      · exact ⟨.faulted, rfl, rfl, rfl, rfl, rfl, rfl⟩
      · exact ⟨rfl, rfl, rfl, id, hnone, fun decoded hsome => (Option.some.inj hsome).symm⟩
  | completes hinit hstate hpc hfine =>
      exact ending_of_completes hinit hwf hstate hpc hfine hstep

/-! ## Stuck machines -/

variable {m : Machine}

/-- A call that neither loads a program nor restarts the machine. -/
def Call.KeepsProgram : Call τ → Prop
  | loadProgram _ | loadRom _ _ | restart => False
  | _ => True

/-- The machine of an initialized interpreter is `m`, up to keys and timers, and `m` stands at a
word that is no instruction. -/
structure StuckAt (m : Machine) (s : Interpreter τ) : Prop where
  initialized : s.initialized = true
  intact : s.machine.Intact
  machine_eq :
    s.machine =
      { m with
        keys := s.machine.keys
        delay := s.machine.delay
        sound := s.machine.sound }
  running : m.runState = .running
  pc_le : m.pc ≤ 0xFFE
  operation_eq : m.operation = .unrecognized
  opcode_eq : m.opcode = m.wordAtPc

namespace StuckAt

theorem wordAtPc_eq (h : StuckAt m s) : s.machine.wordAtPc = m.wordAtPc := by
  rw [h.machine_eq]
  rfl

/-- A stuck machine only changes in its keys and timers. -/
theorem withMachine
    (h : StuckAt m s) (hinit : t.initialized = true) (hintact : t.machine.Intact)
    {keys : Array Bool} {delay sound : Int}
    (hmachine : t.machine = { s.machine with keys := keys, delay := delay, sound := sound }) :
    StuckAt m t :=
  { h with
    initialized := hinit
    intact := hintact
    machine_eq := by
      rw [hmachine, h.machine_eq] }

theorem fetched_eq (h : StuckAt m s) : s.machine.fetched = s.machine := by
  have hopcode : s.machine.opcode = s.machine.wordAtPc := by
    rw [h.wordAtPc_eq, ← h.opcode_eq, h.machine_eq]
  rw [fetched, ← hopcode]

theorem pc_le_0xFFE (h : StuckAt m s) : s.machine.pc ≤ 0xFFE := by
  rw [h.machine_eq]
  exact h.pc_le

theorem step_eq (h : StuckAt m s) :
    ∃ result t, step s = .ok result t ∧ Ending.stalled.Describes s result t ∧
      t.machine = s.machine := by
  have hstate : s.machine.runState = .running := by
    rw [h.machine_eq]
    exact h.running
  have hword : s.machine.operation = .unrecognized := by
    rw [operation, h.wordAtPc_eq]
    exact h.operation_eq
  obtain ⟨result, t, hstep, hstalled, hmachine⟩ :=
    stalled_of_unrecognized h.initialized h.intact.toWellFormed hstate h.pc_le_0xFFE hword
  exact ⟨result, t, hstep, hstalled, hmachine.trans h.fetched_eq⟩

theorem after_step (h : StuckAt m s) : StuckAt m (endState (step s)) := by
  obtain ⟨result, t, hstep, -, hmachine⟩ := h.step_eq
  have hinit := (initialized_step s).trans h.initialized
  have hintact := intact_step h.intact
  rw [hstep] at hinit hintact ⊢
  exact h.withMachine hinit hintact hmachine

variable [TimeScale τ]

theorem after_call {call : Call τ} (hcall : call.KeepsProgram) (h : StuckAt m s) :
    StuckAt m (call.after s) := by
  have hinit := initialized_after h.initialized call
  have hintact := intact_after h.intact call
  have hkeys (hkey : call.IsKeyCall) : StuckAt m (call.after s) := by
    obtain ⟨keys, hkeys⟩ := after_of_isKeyCall hkey s
    exact h.withMachine hinit hintact (by rw [hkeys])
  cases call with
  | start now =>
      rw [Call.after, start_apply, if_pos h.initialized]
      exact h
  | loadProgram program => exact hcall.elim
  | loadRom reader path => exact hcall.elim
  | restart => exact hcall.elim
  | step => exact h.after_step
  | runCycles now elapsed =>
      have htime (u : Interpreter τ) (pending : τ) (hu : StuckAt m u) :
          StuckAt m { u with pending := pending } :=
        hu.withMachine hu.initialized hu.intact rfl
      have hclock (u : Interpreter τ) (now : τ) (hu : StuckAt m u) :
          StuckAt m { u with lastTick := some now } :=
        hu.withMachine rfl hu.intact rfl
      exact runCycles_preserves (fun u => after_step) htime hclock now elapsed h
  | fetch =>
      have hmachine : (Call.fetch.after s).machine = s.machine := by
        rw [Call.after, machine_onMachine, fetch_apply h.intact.toWellFormed,
          if_pos h.pc_le_0xFFE]
        exact h.fetched_eq
      exact h.withMachine hinit hintact hmachine
  | updateTimers =>
      rcases machine_updateTimers s with hmachine | hmachine
      · exact h.withMachine hinit hintact hmachine
      · exact h.withMachine hinit hintact hmachine
  | pressKey key => exact hkeys trivial
  | releaseKey key => exact hkeys trivial
  | setKeys keys => exact hkeys trivial

end StuckAt

/-! ## Main result -/

section

variable [TimeScale τ]

/-- A step that stalls gets the machine stuck. -/
theorem Ending.Describes.stuckAt
    (h : Reachable s) (hstep : step s = .ok result t) (hstalled : stalled.Describes s result t) :
    StuckAt t.machine t := by
  obtain ⟨-, hfault, hstate, hword, -, hmachine⟩ := hstalled
  have hinit : s.initialized = true := by
    by_contra hnot
    rw [step_of_not_initialized (Bool.eq_false_iff.mpr hnot)] at hstep
    cases hstep
  have hpc : s.machine.pc ≤ 0xFFE := by
    by_contra hout
    obtain ⟨cause, hfaults⟩ :=
      step_fetch_faults hinit h.intact.toWellFormed hstate (by omega)
    rw [hfaults] at hstep
    cases hstep
    cases hfault
  have hinit' := (initialized_step s).trans hinit
  have hintact' := intact_step h.intact
  rw [hstep] at hinit' hintact'
  exact
    { initialized := hinit'
      intact := hintact'
      machine_eq := rfl
      running := by rw [hmachine]; exact hstate
      pc_le := by rw [hmachine]; exact hpc
      operation_eq := by rw [hmachine]; exact hword
      opcode_eq := by rw [hmachine]; rfl }

/-- A step that returns ends in exactly one of the five ways, and its result is true.  Once a
step has stalled, every later step does, whatever is called in between apart from loading and
restarting, and only key calls and direct runs of the timers still change the machine. -/
theorem existsUnique_ending (h : Reachable s) (hstep : step s = .ok result t) :
    (∃! ending : Ending, ending.Describes s result t) ∧ Reports s result t ∧
      (Ending.stalled.Describes s result t →
        ∀ calls : List (Call τ), (∀ call ∈ calls, call.KeepsProgram) →
          let u := afterAll calls t
          u.machine =
              { t.machine with
                keys := u.machine.keys
                delay := u.machine.delay
                sound := u.machine.sound } ∧
            ∃ later v, step u = .ok later v ∧ Ending.stalled.Describes u later v ∧
              v.machine = u.machine) := by
  obtain ⟨⟨ending, hending⟩, hreports⟩ := ending_of_step h.intact hstep
  refine ⟨⟨ending, hending, fun other hother => ?_⟩, hreports, ?_⟩
  · rw [hother.eq_told, hending.eq_told]
  · intro hstalled calls hcalls
    have hstuck : StuckAt t.machine (afterAll calls t) :=
      afterAll_preserves (fun _ _ hcall => StuckAt.after_call hcall) hcalls
        (hstalled.stuckAt h hstep)
    exact ⟨hstuck.machine_eq, hstuck.step_eq⟩

theorem existsUnique_ending_nonsense :
    ∃ result t, step (loaded [0x00, 0x01]) = .ok result t ∧
      (∃! ending : Ending, ending.Describes (loaded [0x00, 0x01]) result t) ∧
      ∃ later v, step (afterAll [.pressKey 3, .step] t) = .ok later v ∧
        later.executed = false ∧ v.machine = (afterAll [.pressKey 3, .step] t).machine := by
  have hreachable := reachable_loaded [0x00, 0x01]
  have hstate : (loaded [0x00, 0x01]).machine.runState = .running :=
    runState_loaded (by decide) (by decide)
  have hpc : (loaded [0x00, 0x01]).machine.pc = 0x200 := pc_loaded (by decide) (by decide)
  have hword : (loaded [0x00, 0x01]).machine.operation = .unrecognized := by
    have hcode : (loaded [0x00, 0x01]).machine.wordAtPc = 0x00 * 256 + 0x01 :=
      wordAtPc_loaded (by decide) (by decide)
    rw [operation, hcode]
    rfl
  obtain ⟨result, t, hstep, hstalled, -⟩ :=
    stalled_of_unrecognized (initialized_loaded (by decide) (by decide))
      hreachable.intact.toWellFormed hstate (by omega) hword
  obtain ⟨hunique, -, hstuck⟩ := existsUnique_ending hreachable hstep
  have hcalls : ∀ call ∈ [Call.pressKey 3, .step], Call.KeepsProgram (τ := Rat) call := by
    simp [Call.KeepsProgram]
  obtain ⟨-, later, v, hlater, hstalled', hsame⟩ := hstuck hstalled _ hcalls
  exact ⟨result, t, hstep, hunique, later, v, hlater, hstalled'.1, hsame⟩

end

end Interpreter

end Chip8
