import Chip8.Proofs.Faulting
import Chip8.Proofs.Pace
import Chip8.Proofs.RandomStream

/-!
# Stopped machines

A machine that has stopped stays so until it is restarted.  Meanwhile programs may be loaded
and keys pressed, steps are refused, and the driver only reads the clock.  In particular the
driver banks no time, so that after the restart it takes the steps that it would have taken
without the calls in between.

For the last part two runs are compared that differ in nothing but the last reading of the
clock.  A step does not look at that reading, and a driver call that is given the elapsed time
only replaces it.
-/

namespace Chip8.Interpreter

open Machine TimeScale

variable {τ α : Type} {s t u : Interpreter τ}

/-! ## Readings of the clock -/

def clocked (last : τ) (s : Interpreter τ) : Interpreter τ :=
  { s with lastTick := some last }

/-- Two interpreters that differ in nothing but the last reading of the clock. -/
def SameButClock (s t : Interpreter τ) : Prop :=
  ∃ last, t = s.clocked last

theorem clocked_of_lastTick {last : τ} (hlast : s.lastTick = some last) : s.clocked last = s := by
  rw [clocked, ← hlast]

theorem exists_lastTick (hinit : s.initialized = true) : ∃ last, s.lastTick = some last :=
  Option.isSome_iff_exists.mp hinit

/-- What a result that keeps the pace ends in, when only the clock is another one. -/
theorem paced_eq_clocked
    {result : EStateM.Result Error (Interpreter τ) α}
    (hpace : (endState result).paced s.stepsPerCall s.lastTick s.pending = endState result)
    (last : τ) :
    mapState (paced s.stepsPerCall (some last) s.pending) result =
      mapState (clocked last) result := by
  cases result with
  | ok a t =>
      have hsame : t.paced s.stepsPerCall s.lastTick s.pending = t := hpace
      rw [mapState, mapState, ← hsame]
      rfl
  | error e t =>
      have hsame : t.paced s.stepsPerCall s.lastTick s.pending = t := hpace
      rw [mapState, mapState, ← hsame]
      rfl

theorem IgnoresPace.clocked {action : Action τ α} (h : IgnoresPace action) (last : τ) :
    action (s.clocked last) = mapState (Interpreter.clocked last) (action s) := by
  rw [← paced_eq_clocked (h.paced_endState s)]
  exact h s.stepsPerCall (some last) s.pending s

theorem step_clocked (hinit : s.initialized = true) (last : τ) :
    step (s.clocked last) = mapState (clocked last) (step s) := by
  rw [← paced_eq_clocked (paced_step s)]
  exact step_paced hinit s.stepsPerCall last s.pending

/-- What is left of an interpreter when programs are loaded, keys pressed, the clock read and
the journal written. -/
def Rests (s t : Interpreter τ) : Prop :=
  t =
    { s with
      machine := { s.machine with
        memory := t.machine.memory
        programLength := t.machine.programLength
        keys := t.machine.keys }
      lastTick := t.lastTick
      journal := t.journal }

theorem Rests.refl (s : Interpreter τ) : Rests s s := rfl

theorem Rests.trans (h : Rests s t) (h' : Rests t u) : Rests s u := by
  rw [Rests] at h'
  rw [h', h]
  rfl

variable [TimeScale τ]

/-! ## The driver's loop -/

theorem loopStates_spent (attempts : Nat) (s : Interpreter τ) :
    loopStates (attempts + 1) s =
      if s.machine.runState = .halted then []
      else if below (add s.pending slack) (period : τ) then []
      else
        s.spent ::
          match step s.spent with
          | .ok _ t => loopStates attempts t
          | .error _ _ => [] := rfl

theorem loop_clocked (hinit : s.initialized = true) (last : τ) (attempts steps : Nat) :
    loopStates attempts (s.clocked last) = (loopStates attempts s).map (clocked last) ∧
      drive attempts steps (s.clocked last) =
        mapState (clocked last) (drive attempts steps s) := by
  induction attempts generalizing steps s with
  | zero => exact ⟨rfl, rfl⟩
  | succ attempts ih =>
      have hmachine : (s.clocked last).machine = s.machine := rfl
      have hpending : (s.clocked last).pending = s.pending := rfl
      have hspent : (s.clocked last).spent = s.spent.clocked last := rfl
      rw [drive_spent, drive_spent, loopStates_spent, loopStates_spent, hmachine, hpending, hspent]
      by_cases hhalted : s.machine.runState = .halted
      · simp only [if_pos hhalted, List.map_nil, mapState, and_self]
      by_cases hearly : below (add s.pending slack) (period : τ) = true
      · simp only [if_neg hhalted, if_pos hearly, List.map_nil, mapState, and_self]
      simp only [if_neg hhalted, if_neg hearly, List.map_cons]
      have hinit' : s.spent.initialized = true := hinit
      have hkeeps := (initialized_step s.spent).trans hinit'
      rw [step_clocked hinit' last]
      cases hresult : step s.spent with
      | ok result t =>
          rw [hresult] at hkeeps
          obtain ⟨hstates, hdrive⟩ := ih hkeeps (steps + 1)
          exact ⟨congrArg _ hstates, hdrive⟩
      | error e t => exact ⟨rfl, rfl⟩

/-! ## Driver calls with given times -/

/-- Two driver calls that are given the same elapsed time, at any two readings of the clock. -/
def Call.SameTime (call call' : Call τ) : Prop :=
  ∃ now now' elapsed, call = .runCycles now (some elapsed) ∧ call' = .runCycles now' (some elapsed)

/-- A driver call that is given the elapsed time returns the same whatever the clock shows, and
takes its steps from the same states. -/
theorem runCycles_clocked (hinit : s.initialized = true) (last now now' elapsed : τ) :
    (Call.runCycles now' (some elapsed)).stepStates (s.clocked last) =
        ((Call.runCycles now (some elapsed)).stepStates s).map (clocked now') ∧
      runCycles now' (some elapsed) (s.clocked last) =
        mapState (clocked now') (runCycles now (some elapsed) s) := by
  obtain ⟨first, hfirst⟩ := exists_lastTick hinit
  have hlast : (s.clocked last).lastTick = some last := rfl
  have hmachine : (s.clocked last).machine = s.machine := rfl
  have hcount : (s.clocked last).stepsPerCall = s.stepsPerCall := rfl
  simp only [Call.stepStates, hfirst, hlast, hmachine]
  by_cases hstate : s.machine.runState = .halted
  · rw [runCycles_of_halted hfirst hstate, runCycles_of_halted hlast hstate, if_pos hstate,
      if_pos hstate]
    exact ⟨rfl, rfl⟩
  · have htimed : (s.clocked last).timed now' (some elapsed) last =
        (s.timed now (some elapsed) first).clocked now' := rfl
    have hinit' : (s.timed now (some elapsed) first).initialized = true := rfl
    obtain ⟨hstates, hdrive⟩ := loop_clocked hinit' now' s.stepsPerCall 0
    rw [runCycles_of_not_halted hfirst hstate, runCycles_of_not_halted hlast hstate,
      if_neg hstate, if_neg hstate, hcount, htimed, hdrive]
    refine ⟨hstates, ?_⟩
    cases drive s.stepsPerCall 0 (s.timed now (some elapsed) first) with
    | error e t => rfl
    | ok steps t =>
        have hcount' : (t.clocked now').stepsPerCall = t.stepsPerCall := rfl
        simp only [mapState, hcount']
        cases periods (τ := τ) t.stepsPerCall <;> rfl

/-- Driver calls that are given the elapsed times take the same steps, whatever the clock shows
and has shown. -/
theorem stepStates_clocked
    {calls calls' : List (Call τ)} (hcalls : List.Forall₂ Call.SameTime calls calls')
    (hinit : s.initialized = true) (last : τ) :
    List.Forall₂ SameButClock (stepStates calls s) (stepStates calls' (s.clocked last)) ∧
      SameButClock (afterAll calls s) (afterAll calls' (s.clocked last)) := by
  induction hcalls generalizing s last with
  | nil => exact ⟨.nil, last, rfl⟩
  | @cons call call' calls calls' hcall hcalls ih =>
      obtain ⟨now, now', elapsed, rfl, rfl⟩ := hcall
      obtain ⟨hstates, hresult⟩ := runCycles_clocked hinit last now now' elapsed
      have hafter : (Call.runCycles now' (some elapsed)).after (s.clocked last) =
          ((Call.runCycles now (some elapsed)).after s).clocked now' := by
        rw [Call.after, hresult, endState_mapState]
        rfl
      have hnext := initialized_after hinit (.runCycles now (some elapsed))
      obtain ⟨hrest, hend⟩ := ih hnext now'
      rw [stepStates, stepStates, hafter, hstates]
      refine ⟨List.rel_append ?_ hrest, ?_⟩
      · rw [List.forall₂_map_right_iff, List.forall₂_same]
        exact fun u _ => ⟨now', rfl⟩
      · change SameButClock (afterAll calls ((Call.runCycles now (some elapsed)).after s))
          (afterAll calls' ((Call.runCycles now' (some elapsed)).after (s.clocked last)))
        rw [hafter]
        exact hend

/-! ## Calls of a stopped machine -/

def Call.IsLoadCall : Call τ → Prop
  | loadProgram _ | loadRom _ _ => True
  | _ => False

/-- A call that does not bring a stopped machine back to life: any one but a restart and the
two parts of a step that can be called for themselves. -/
def Call.LeavesStopped : Call τ → Prop
  | restart | fetch | updateTimers => False
  | _ => True

instance (call : Call τ) : Decidable call.IsDriverCall :=
  match call with
  | .runCycles _ _ => isTrue trivial
  | .start _ | .loadProgram _ | .loadRom _ _ | .restart | .step | .fetch | .updateTimers
  | .pressKey _ | .releaseKey _ | .setKeys _ => isFalse id

section

variable (hinit : s.initialized = true) (hhalted : s.machine.runState = .halted)

include hinit hhalted

/-- What a call of a stopped machine does: loading changes the memory and the length of the
program, key calls change the keys, and nothing else changes in the machine. -/
theorem rests_after {call : Call τ} (hcall : call.LeavesStopped) :
    Rests s (call.after s) ∧
      (¬ call.IsLoadCall → (call.after s).machine.memory = s.machine.memory ∧
        (call.after s).machine.programLength = s.machine.programLength) ∧
      (¬ call.IsKeyCall → (call.after s).machine.keys = s.machine.keys) := by
  have hload (program : List Int) : Rests s (endState (loadProgram program s)) ∧
      (endState (loadProgram program s)).machine.keys = s.machine.keys := by
    rw [loadProgram_apply, if_pos hinit]
    split
    · split
      · exact ⟨rfl, rfl⟩
      · exact ⟨rfl, rfl⟩
    · exact ⟨rfl, rfl⟩
  have hkeys (hkey : call.IsKeyCall) : Rests s (call.after s) ∧
      (¬ call.IsLoadCall → (call.after s).machine.memory = s.machine.memory ∧
        (call.after s).machine.programLength = s.machine.programLength) ∧
      (¬ call.IsKeyCall → (call.after s).machine.keys = s.machine.keys) := by
    obtain ⟨keys, hafter⟩ := after_of_isKeyCall hkey s
    rw [hafter]
    exact ⟨rfl, fun _ => ⟨rfl, rfl⟩, fun hnot => absurd hkey hnot⟩
  cases call with
  | start now =>
      rw [Call.after, start_apply, if_pos hinit]
      exact ⟨rfl, fun _ => ⟨rfl, rfl⟩, fun _ => rfl⟩
  | loadProgram program =>
      obtain ⟨hrests, hkeys⟩ := hload program
      exact ⟨hrests, fun hnot => absurd trivial hnot, fun _ => hkeys⟩
  | loadRom reader path =>
      rw [Call.after, loadRom_apply, if_pos hinit]
      cases readRom reader path with
      | error e => exact ⟨rfl, fun _ => ⟨rfl, rfl⟩, fun _ => rfl⟩
      | ok bytes =>
          obtain ⟨hrests, hkeys⟩ := hload (bytes.map fun byte => (byte.toNat : Int))
          exact ⟨hrests, fun hnot => absurd trivial hnot, fun _ => hkeys⟩
  | step =>
      rw [Call.after, step_of_halted hinit hhalted]
      exact ⟨rfl, fun _ => ⟨rfl, rfl⟩, fun _ => rfl⟩
  | runCycles now elapsed =>
      obtain ⟨last, hlast⟩ := exists_lastTick hinit
      rw [Call.after, runCycles_of_halted hlast hhalted]
      exact ⟨rfl, fun _ => ⟨rfl, rfl⟩, fun _ => rfl⟩
  | pressKey key => exact hkeys trivial
  | releaseKey key => exact hkeys trivial
  | setKeys keys => exact hkeys trivial
  | restart => exact hcall.elim
  | fetch => exact hcall.elim
  | updateTimers => exact hcall.elim

/-- A call of a stopped machine other than the driver's does the same whatever the clock
shows. -/
theorem after_clocked
    {call : Call τ} (hcall : call.LeavesStopped) (hdriver : ¬ call.IsDriverCall) (last : τ) :
    call.after (s.clocked last) = (call.after s).clocked last := by
  have hmachine {β : Type} (action : Machine.Action β) :
      endState (onMachine action (s.clocked last)) =
        (endState (onMachine action s)).clocked last := by
    rw [(IgnoresPace.onMachine action).clocked, endState_mapState]
  have hload (program : List Int) : endState (loadProgram program (s.clocked last)) =
      (endState (loadProgram program s)).clocked last := by
    have hinit' : (s.clocked last).initialized = true := rfl
    rw [loadProgram_apply, loadProgram_apply, if_pos hinit, if_pos hinit']
    split
    · split <;> rfl
    · rfl
  have hinit' : (s.clocked last).initialized = true := rfl
  cases call with
  | start now => rw [Call.after, Call.after, start_apply, start_apply, if_pos hinit]; rfl
  | loadProgram program => exact hload program
  | loadRom reader path =>
      rw [Call.after, Call.after, loadRom_apply, loadRom_apply, if_pos hinit, if_pos hinit']
      cases readRom reader path with
      | error e => rfl
      | ok bytes => exact hload _
  | step =>
      rw [Call.after, Call.after, step_of_halted hinit hhalted, step_of_halted hinit' hhalted]
      rfl
  | pressKey key => exact hmachine _
  | releaseKey key => exact hmachine _
  | setKeys keys => exact hmachine _
  | runCycles now elapsed => exact absurd trivial hdriver
  | restart => exact hcall.elim
  | fetch => exact hcall.elim
  | updateTimers => exact hcall.elim

end

theorem rests_afterAll
    (hinit : s.initialized = true) (hhalted : s.machine.runState = .halted)
    {calls : List (Call τ)} (hcalls : ∀ call ∈ calls, call.LeavesStopped) :
    Rests s (afterAll calls s) ∧ (afterAll calls s).initialized = true ∧
      (afterAll calls s).machine.runState = .halted := by
  refine afterAll_preserves (K := Call.LeavesStopped)
    (P := fun t => Rests s t ∧ t.initialized = true ∧ t.machine.runState = .halted) ?_ hcalls
    ⟨.refl s, hinit, hhalted⟩
  rintro t call hcall ⟨hrests, hinit', hhalted'⟩
  obtain ⟨hrests', -⟩ := rests_after hinit' hhalted' hcall
  refine ⟨hrests.trans hrests', initialized_after hinit' call, ?_⟩
  rw [hrests']
  exact hhalted'

/-- Without the driver's calls a stopped machine ends in the same state, but for the clock. -/
theorem sameButClock_filter
    (hinit : s.initialized = true) (hhalted : s.machine.runState = .halted)
    {calls : List (Call τ)} (hcalls : ∀ call ∈ calls, call.LeavesStopped) (last : τ) :
    SameButClock (afterAll (calls.filter fun call => ¬ call.IsDriverCall) s)
      (afterAll calls (s.clocked last)) := by
  induction calls generalizing s last with
  | nil => exact ⟨last, rfl⟩
  | cons call calls ih =>
      obtain ⟨hcall, hrest⟩ := List.forall_mem_cons.mp hcalls
      by_cases hdriver : call.IsDriverCall
      · rw [List.filter_cons_of_neg (by simpa using hdriver)]
        cases call with
        | runCycles now elapsed =>
            have hafter : (Call.runCycles now elapsed).after (s.clocked last) = s.clocked now := by
              rw [Call.after, runCycles_of_halted (s := s.clocked last) rfl hhalted]
              rfl
            have hsame := ih hinit hhalted hrest now
            rwa [← hafter] at hsame
        | _ => exact hdriver.elim
      · rw [List.filter_cons_of_pos (by simpa using hdriver)]
        obtain ⟨hrests, -⟩ := rests_after hinit hhalted hcall
        have hhalted' : (call.after s).machine.runState = .halted := by
          rw [hrests]
          exact hhalted
        have hsame := ih (initialized_after hinit call) hhalted' hrest last
        rwa [← after_clocked hinit hhalted hcall hdriver] at hsame

/-! ## The main result -/

/-- A stopped machine stays as it is through all calls but a restart.  In every one of them a
step is refused, the driver takes no step and only reads the clock, loading changes the memory
and the length of the program, and key calls change the keys.  A restart then makes the machine
run from the start of its program, with the same registers, screen, random source and pending
time.  So driver calls that are given the elapsed time take the steps that they would have taken
without the driver's calls in between, whatever the clock shows and has shown. -/
theorem stopped_until_restarted
    (h : Reachable s) (hinit : s.initialized = true) (hhalted : s.machine.runState = .halted)
    {calls : List (Call τ)} (hcalls : ∀ call ∈ calls, call.LeavesStopped) :
    let t := afterAll calls s
    let r := Call.restart.after t
    (t.initialized = true ∧ t.machine.runState = .halted ∧ t.machine.keyRegister = none ∧
      t =
        { s with
          machine := { s.machine with
            memory := t.machine.memory
            programLength := t.machine.programLength
            keys := t.machine.keys }
          lastTick := t.lastTick
          journal := t.journal }) ∧
    (∀ before call after, calls = before ++ call :: after →
      let u := afterAll before s
      (call = .step → step u = .error .halted u) ∧
      (∀ now elapsed, call = .runCycles now elapsed →
        runCycles now elapsed u = .ok 0 { u with lastTick := some now }) ∧
      (¬ call.IsLoadCall → (call.after u).machine.memory = u.machine.memory ∧
        (call.after u).machine.programLength = u.machine.programLength) ∧
      (¬ call.IsKeyCall → (call.after u).machine.keys = u.machine.keys)) ∧
    r =
      { t with
        machine := { t.machine with
          runState := .running
          pc := 0x200
          i := 0
          sp := 0
          opcode := 0
          delay := 0
          sound := 0
          keyRegister := none }
        journal := .restarted :: t.journal } ∧
    (∀ later later' : List (Call τ), List.Forall₂ Call.SameTime later later' →
      let r' := Call.restart.after
        (afterAll (calls.filter fun call => ¬ call.IsDriverCall) s)
      List.Forall₂ SameButClock (stepStates later r') (stepStates later' r) ∧
        SameButClock (afterAll later r') (afterAll later' r)) := by
  intro t r
  obtain ⟨hrests, hinit', hhalted'⟩ := rests_afterAll hinit hhalted hcalls
  have hidle : t.machine.keyRegister = none := by
    apply (h.afterAll calls).intact.idle
    rw [hhalted']
    exact fun hwaits => by cases hwaits
  refine ⟨⟨hinit', hhalted', hidle, hrests⟩, ?_, ?_, ?_⟩
  · rintro before call after rfl u
    obtain ⟨hbefore, hlater⟩ := List.forall_mem_append.mp hcalls
    obtain ⟨hcall, -⟩ := List.forall_mem_cons.mp hlater
    obtain ⟨-, hinit, hhalted⟩ := rests_afterAll hinit hhalted hbefore
    obtain ⟨last, hlast⟩ := exists_lastTick hinit
    obtain ⟨-, hmemory, hkeys⟩ := rests_after hinit hhalted hcall
    exact ⟨fun _ => step_of_halted hinit hhalted,
      fun now elapsed _ => runCycles_of_halted hlast hhalted now elapsed, hmemory, hkeys⟩
  · simp only [r, Call.after, restart_apply]
    rfl
  · intro later later' hlater r'
    obtain ⟨first, hfirst⟩ := exists_lastTick hinit
    obtain ⟨last, hlast⟩ := sameButClock_filter hinit hhalted hcalls first
    rw [clocked_of_lastTick hfirst] at hlast
    have hrestart : r = r'.clocked last := by
      simp only [r, r', t, hlast, Call.after, restart_apply]
      rfl
    have hquiet : ∀ call ∈ calls.filter fun call => ¬ call.IsDriverCall, call.LeavesStopped :=
      fun call hcall => hcalls call (List.mem_of_mem_filter hcall)
    have hready : r'.initialized = true :=
      initialized_after (rests_afterAll hinit hhalted hquiet).2.1 .restart
    rw [hrestart]
    exact stepStates_clocked hlater hready last

/-- The machine whose program returned with an empty stack. -/
def strayed : Interpreter Rat :=
  afterAll [.step] stray

theorem reachable_strayed : Reachable strayed :=
  reachable_stray.afterAll [.step]

theorem initialized_strayed : strayed.initialized = true := by
  rw [strayed, afterAll, List.foldl_cons, List.foldl_nil]
  exact initialized_after initialized_stray .step

theorem runState_strayed : strayed.machine.runState = .halted := by
  obtain ⟨result, cause, hstep, -⟩ := step_of_faultsNext initialized_stray
    reachable_stray.intact.toWellFormed runState_stray faultsNext_stray
  rw [strayed, afterAll, List.foldl_cons, List.foldl_nil, Call.after, hstep]
  rfl

/-- A minute passes before the machine is restarted with another program.  The driver's calls
then take the steps that they would have taken without that minute. -/
theorem stopped_until_restarted_strayed :
    let calls : List (Call Rat) :=
      [.runCycles 30 none, .pressKey 3, .step, .loadProgram [0x12, 0x00], .runCycles 60 none]
    let quiet : List (Call Rat) := [.pressKey 3, .step, .loadProgram [0x12, 0x00]]
    let later : List (Call Rat) := [.runCycles 61 (some (1 / 120)), .runCycles 62 (some 1)]
    let r := Call.restart.after (afterAll calls strayed)
    let r' := Call.restart.after (afterAll quiet strayed)
    r.machine.runState = .running ∧ r.pending = strayed.pending ∧
      List.Forall₂ SameButClock (stepStates later r') (stepStates later r) := by
  intro calls quiet later r r'
  have hcalls : ∀ call ∈ calls, call.LeavesStopped := by simp [calls, Call.LeavesStopped]
  obtain ⟨⟨-, -, -, hrests⟩, -, hrestart, hlater⟩ := stopped_until_restarted reachable_strayed
    initialized_strayed runState_strayed hcalls
  have hsame : List.Forall₂ Call.SameTime later later := by
    simp [later, Call.SameTime]
  refine ⟨?_, ?_, (hlater later later hsame).1⟩
  · rw [show r = _ from hrestart]
  · rw [show r = _ from hrestart, show afterAll calls strayed = _ from hrests]

end Chip8.Interpreter
