import Chip8.Proofs.Ending
import Chip8.Proofs.Totality
import Mathlib.Data.Nat.Count

/-!
# Beeps and failing listeners

The listener is called in the middle of a run of the timers, after the delay timer was counted
down and before the sound timer is.  When it fails, the sound timer keeps its last one, and the
beep is raised again by the next run.  So there is one beep for each time the sound timer runs
out, and one more for each call of the listener that fails.

The timers run at the end of a step that completes a cycle, and in a direct call.  What one run
of them adds to the account is carried to a step, and from single calls to whole runs.
-/

namespace Chip8

namespace Interpreter

open Machine

variable {τ : Type} {s t u : Interpreter τ}

/-! ## The runs of the timers -/

/-- What the next step leaves of the machine before the timers run, if it comes to that: it has
ended a wait, or carried out an instruction that did not begin one. -/
def completing? (s : Interpreter τ) : Option Machine :=
  if s.initialized then
    match s.machine.runState with
    | .halted => none
    | .awaitingKey =>
        match s.machine.pressedKey with
        | none => none
        | some key =>
            match takeKey key s.machine with
            | .ok _ m => some m
            | .error _ _ => none
    | .running =>
        match fetch s.machine with
        | .error _ _ => none
        | .ok word m =>
            match Registry.run (decode word) m with
            | .error _ _ => none
            | .ok _ m => if (decode word).valid && m.runState == .running then some m else none
  else none

/-- The machine whose timers a call runs, if it runs them. -/
def Call.timersOf? (s : Interpreter τ) : Call τ → Option Machine
  | step => s.completing?
  | updateTimers => some s.machine
  | _ => none

/-- A run of the timers takes the sound timer from one to zero. -/
def RunsOut (before after : Machine) : Prop :=
  before.sound = 1 ∧ after.sound = 0

instance (before after : Machine) : Decidable (RunsOut before after) :=
  inferInstanceAs (Decidable (_ ∧ _))

/-- In a call the sound timer runs out. -/
def Call.soundEnds [TimeScale τ] (s : Interpreter τ) (call : Call τ) : Bool :=
  (call.timersOf? s).any fun m => RunsOut m (call.after s).machine

def returns {α : Type} (p : α → Bool) : EStateM.Result Error (Interpreter τ) α → Bool
  | .ok a _ => p a
  | .error _ _ => false

/-- A call returns, and tells that a beep was raised. -/
def Call.reportsBeep (s : Interpreter τ) : Call τ → Bool
  | step => returns StepResult.beeped (Interpreter.step s)
  | updateTimers => returns id (Interpreter.updateTimers s)
  | _ => false

def countCalls [TimeScale τ] (p : Interpreter τ → Call τ → Bool) :
    List (Call τ) → Interpreter τ → Nat
  | [], _ => 0
  | call :: calls, s => (p s call).toNat + countCalls p calls (call.after s)

def listenerCalls (s : Interpreter τ) : Nat :=
  s.listener.elim 0 Listener.calls

def listenerFailures (s : Interpreter τ) : Nat :=
  s.listener.elim 0 fun listener =>
    Nat.count (fun call => (listener.reply call).isSome = true) listener.calls

/-! ## The account -/

/-- What happens to the beeps from `s` to `t`, when the sound timer runs out so many times and so
many calls tell of a beep. -/
structure Accounts (s t : Interpreter τ) (ranOut reported : Nat) : Prop where
  replies_eq : t.replies = s.replies
  beeps_eq_calls : (t.beeps : Int) - s.beeps = t.listenerCalls - s.listenerCalls
  beeps_eq : (t.beeps : Int) - s.beeps =
    ranOut + ((t.listenerFailures : Int) - s.listenerFailures)
  reported_eq : reported = ranOut

namespace Accounts

theorem of_same (hlistener : t.listener = s.listener) (hbeeps : t.beeps = s.beeps) :
    Accounts s t 0 0 where
  replies_eq := by rw [replies, replies, hlistener]
  beeps_eq_calls := by
    rw [listenerCalls, listenerCalls, hlistener, hbeeps]
    omega
  beeps_eq := by
    rw [listenerFailures, listenerFailures, hlistener, hbeeps]
    omega
  reported_eq := rfl

theorem trans
    {ranOut ranOut' reported reported' : Nat} (hfirst : Accounts s t ranOut reported)
    (hrest : Accounts t u ranOut' reported') :
    Accounts s u (ranOut + ranOut') (reported + reported') where
  replies_eq := hrest.replies_eq.trans hfirst.replies_eq
  beeps_eq_calls := by
    have hcalls := hfirst.beeps_eq_calls
    have hcalls' := hrest.beeps_eq_calls
    omega
  beeps_eq := by
    have hbeeps := hfirst.beeps_eq
    have hbeeps' := hrest.beeps_eq
    omega
  reported_eq := by rw [hfirst.reported_eq, hrest.reported_eq]

/-- A beep is one call of the listener, which fails or does not. -/
theorem of_beep
    (ranOut : Nat) {listener : Listener} (hlistener : s.listener = some listener)
    (hcalled : t.listener = some { listener with calls := listener.calls + 1 })
    (hbeeps : t.beeps = s.beeps + 1)
    (hranOut : ranOut = if s.nextReply.isSome then 0 else 1) : Accounts s t ranOut ranOut where
  replies_eq := by simp [replies, hlistener, hcalled]
  beeps_eq_calls := by
    simp only [listenerCalls, hlistener, hcalled, Option.elim_some, hbeeps]
    omega
  beeps_eq := by
    have hreply : s.nextReply = listener.reply listener.calls := by
      rw [nextReply, hlistener, Option.bind_some]
    rw [hreply] at hranOut
    simp only [listenerFailures, hlistener, hcalled, Option.elim_some, hbeeps, Nat.count_succ,
      hranOut]
    split <;> push_cast <;> omega
  reported_eq := rfl

end Accounts

theorem accounts_updateTimers (hlistens : s.listener.isSome = true) :
    Accounts s (endState (updateTimers s))
      (decide (RunsOut s.machine (endState (updateTimers s)).machine)).toNat
      (returns id (updateTimers s)).toNat := by
  obtain ⟨listener, hlistener⟩ := Option.isSome_iff_exists.mp hlistens
  set t : Interpreter τ := { s with machine := s.machine.delayTicked }
  have hcalled : t.afterBeep.listener = some { listener with calls := listener.calls + 1 } := by
    rw [afterBeep, show t.listener = some listener from hlistener]
  have hbeeps : t.afterBeep.beeps = s.beeps + 1 := by
    rw [afterBeep, show t.listener = some listener from hlistener]
  have happly := updateTimers_apply s
  dsimp only at happly
  by_cases hsound : s.machine.sound = 1
  · rw [if_pos hsound] at happly
    cases hreply : s.nextReply with
    | none =>
        rw [hreply] at happly
        have hranOut : RunsOut s.machine t.machine.soundTicked := by
          refine ⟨hsound, ?_⟩
          show countedDown s.machine.sound = 0
          rw [hsound]
          rfl
        rw [happly]
        show Accounts s _ (decide (RunsOut s.machine t.machine.soundTicked)).toNat 1
        rw [decide_eq_true hranOut]
        exact .of_beep 1 hlistener hcalled hbeeps (by simp [hreply])
    | some e =>
        rw [hreply] at happly
        have hkept : ¬ RunsOut s.machine t.afterBeep.machine := by
          rw [machine_afterBeep]
          rintro ⟨-, hzero⟩
          have hone : s.machine.sound = 0 := hzero
          omega
        rw [happly]
        show Accounts s _ (decide (RunsOut s.machine t.afterBeep.machine)).toNat 0
        rw [decide_eq_false hkept]
        exact .of_beep 0 hlistener hcalled hbeeps (by simp [hreply])
  · rw [if_neg hsound] at happly
    have hkept : ¬ RunsOut s.machine t.machine.soundTicked := fun h => hsound h.1
    rw [happly]
    show Accounts s _ (decide (RunsOut s.machine t.machine.soundTicked)).toNat 0
    rw [decide_eq_false hkept]
    exact .of_same rfl rfl

/-! ## Steps -/

/-- A step that completes a cycle ends with a run of the timers. -/
structure Completes (s : Interpreter τ) (m : Machine) (decoded : Option Decoded) : Prop where
  step_eq : step s = finish s.machine.pc decoded { s with machine := m }
  initialized : s.initialized = true
  running : m.runState = .running
  cycles_eq : m.cycles = s.machine.cycles

/-- A step that runs no timers leaves the beeps alone. -/
structure KeepsQuiet (s : Interpreter τ) : Prop where
  listener_eq : (endState (step s)).listener = s.listener
  beeps_eq : (endState (step s)).beeps = s.beeps
  returns_eq : returns StepResult.beeped (step s) = false

/-- The timers run at the end of a step exactly when it completes a cycle. -/
theorem step_completing (h : s.machine.Intact) :
    (∃ m decoded, s.completing? = some m ∧ Completes s m decoded) ∨
      s.completing? = none ∧ KeepsQuiet s := by
  have hwf := h.toWellFormed
  cases way h with
  | uninitialized hinit =>
      have hstep := step_of_not_initialized hinit
      exact Or.inr ⟨by simp [completing?, hinit], by rw [hstep]; rfl, by rw [hstep]; rfl,
        by rw [hstep]; rfl⟩
  | stopped hinit hstate =>
      have hstep := step_of_halted hinit hstate
      exact Or.inr ⟨by simp [completing?, hinit, hstate], by rw [hstep]; rfl, by rw [hstep]; rfl,
        by rw [hstep]; rfl⟩
  | waits hinit hstate hkey =>
      have hstep := step_waits hinit hstate hkey
      exact Or.inr ⟨by simp [completing?, hinit, hstate, hkey], by rw [hstep]; rfl,
        by rw [hstep]; rfl, by rw [hstep]; rfl⟩
  | resumes hinit hstate key hkey number hwaits hnumber =>
      refine Or.inl ⟨s.machine.resumed number key, none, ?_, ?_⟩
      · simp [completing?, hinit, hstate, hkey, takeKey_apply hwaits hnumber]
      · exact ⟨step_resumes hinit hstate hkey hwaits hnumber, hinit, rfl, rfl⟩
  | unfetched hinit hstate hpc =>
      obtain ⟨cause, hstep⟩ := step_fetch_faults hinit hwf hstate hpc
      have hfetch := fetch_apply hwf
      rw [if_neg (by omega)] at hfetch
      exact Or.inr ⟨by simp [completing?, hinit, hstate, hfetch], by rw [hstep]; rfl,
        by rw [hstep]; rfl, by rw [hstep]; rfl⟩
  | faults hinit hstate hpc hfault =>
      obtain ⟨cause, hstep⟩ := step_faults hinit hwf hstate hpc hfault
      have hfetch := fetch_apply hwf
      rw [if_pos hpc] at hfetch
      have hwf' : s.machine.fetched.WellFormed := { hwf with }
      obtain ⟨cause', -, hrun⟩ := Registry.run_decode_faults hwf' s.machine.wordAtPc hfault
      exact Or.inr ⟨by simp [completing?, hinit, hstate, hfetch, hrun], by rw [hstep]; rfl,
        by rw [hstep]; rfl, by rw [hstep]; rfl⟩
  | completes hinit hstate hpc hfine =>
      have hstep := step_completes hinit hwf hstate hpc hfine
      have hfetch := fetch_apply hwf
      rw [if_pos hpc] at hfetch
      have hwf' : s.machine.fetched.WellFormed := { hwf with }
      have hrun := Registry.run_decode_completes hwf' s.machine.wordAtPc hfine
      have hvalid : (decode s.machine.wordAtPc).valid =
          decide (s.machine.operation ≠ .unrecognized) := rfl
      have hcompleting : s.completing? =
          if s.machine.operation ≠ .unrecognized ∧ s.performed.machine.runState = .running then
            some s.performed.machine
          else none := by
        simp only [completing?, hinit, if_true, hstate, hfetch, hrun, hvalid, Bool.and_eq_true,
          decide_eq_true_iff, beq_iff_eq]
        rfl
      rw [hcompleting]
      split
      next hends =>
        rw [if_pos hends, performed_of_recognized hends.1] at hstep
        refine Or.inl ⟨_, _, rfl, hstep, hinit, hends.2, ?_⟩
        exact Operation.cycles_effect _ _ _
      next hends =>
        rw [if_neg hends] at hstep
        exact Or.inr ⟨rfl, by rw [hstep]; rfl, by rw [hstep]; rfl, by rw [hstep]; rfl⟩

/-- A step in which the listener is called and fails.  The error leaves the step as it is, and
the machine keeps running with what the instruction did. -/
theorem step_of_failing_listener
    (h : s.machine.Intact) {e : Error} (hreply : s.nextReply = some e)
    (hcalled : (endState (step s)).listenerCalls ≠ s.listenerCalls) :
    ∃ m t, s.completing? = some m ∧ step s = .error e t ∧ m.sound = 1 ∧
      t.machine =
        { m with cycles := s.machine.cycles + 1, delay := countedDown m.delay } ∧
      t.machine.runState = .running ∧ t.initialized = true ∧ t.journal = s.journal := by
  obtain ⟨listener, hlistener, -⟩ := Option.bind_eq_some_iff.mp hreply
  rcases step_completing h with ⟨m, decoded, hcompleting, hcompletes⟩ | ⟨-, hquiet⟩
  · set u : Interpreter τ := { s with machine := m }
    have htimers := updateTimers_apply u.counted
    dsimp only at htimers
    by_cases hsound : u.counted.machine.sound = 1
    · rw [if_pos hsound, show u.counted.nextReply = some e from hreply] at htimers
      have hstep := hcompletes.step_eq
      rw [finish_apply, htimers] at hstep
      refine ⟨m, _, hcompleting, hstep, hsound, ?_, ?_, ?_, ?_⟩
      · rw [machine_afterBeep, ← hcompletes.cycles_eq]
        rfl
      · rw [machine_afterBeep]
        exact hcompletes.running
      · have hkept := initialized_step s
        rw [hstep, hcompletes.initialized] at hkept
        exact hkept
      · unfold afterBeep
        rw [show u.counted.listener = some listener from hlistener]
        rfl
    · rw [if_neg hsound] at htimers
      refine absurd ?_ hcalled
      rw [hcompletes.step_eq, endState_finish, htimers]
      rfl
  · refine absurd ?_ hcalled
    rw [listenerCalls, hquiet.listener_eq]
    rfl

/-! ## Runs -/

section

variable [TimeScale τ]

theorem quiet_of_isKeyCall {call : Call τ} (h : call.IsKeyCall) (s : Interpreter τ) :
    call.soundEnds s = false ∧ call.reportsBeep s = false := by
  cases call with
  | pressKey | releaseKey | setKeys => exact ⟨rfl, rfl⟩
  | _ => exact h.elim

theorem accounts_call
    (h : s.machine.Intact) (hlistens : s.listener.isSome = true) {call : Call τ}
    (hcall : call = .step ∨ call = .updateTimers ∨ call.IsKeyCall) :
    Accounts s (call.after s) (call.soundEnds s).toNat (call.reportsBeep s).toNat := by
  rcases hcall with rfl | rfl | hkeyCall
  · rcases step_completing h with ⟨m, decoded, hcompleting, hcompletes⟩ | ⟨hcompleting, hquiet⟩
    · set u : Interpreter τ := { s with machine := m }
      have hfinish : Accounts s (endState (step s))
          (decide (RunsOut m (endState (step s)).machine)).toNat
          (returns StepResult.beeped (step s)).toNat := by
        have htimers := accounts_updateTimers (s := u.counted) hlistens
        have hsame : Accounts s u.counted 0 0 := .of_same rfl rfl
        have hreports : returns StepResult.beeped (finish s.machine.pc decoded u) =
            returns id (updateTimers u.counted) := by
          rw [finish_apply]
          cases updateTimers u.counted <;> rfl
        rw [hcompletes.step_eq, hreports, endState_finish]
        have htotal := hsame.trans htimers
        rw [Nat.zero_add, Nat.zero_add] at htotal
        exact htotal
      have hends : Call.step.soundEnds s = decide (RunsOut m (endState (step s)).machine) := by
        rw [Call.soundEnds, Call.timersOf?, hcompleting]
        rfl
      rw [hends]
      exact hfinish
    · have hends : Call.step.soundEnds s = false := by
        rw [Call.soundEnds, Call.timersOf?, hcompleting]
        rfl
      have hreports : Call.step.reportsBeep s = false := hquiet.returns_eq
      rw [hends, hreports]
      exact .of_same hquiet.listener_eq hquiet.beeps_eq
  · exact accounts_updateTimers hlistens
  · obtain ⟨keys, hkeys⟩ := after_of_isKeyCall hkeyCall s
    obtain ⟨hends, hreports⟩ := quiet_of_isKeyCall hkeyCall s
    rw [hends, hreports, hkeys]
    exact .of_same rfl rfl

theorem accounts_afterAll
    (h : Reachable s) (hlistens : s.listener.isSome = true) {calls : List (Call τ)}
    (hcalls : ∀ call ∈ calls, call = .step ∨ call = .updateTimers ∨ call.IsKeyCall) :
    Accounts s (afterAll calls s) (countCalls Call.soundEnds calls s)
      (countCalls Call.reportsBeep calls s) := by
  induction calls generalizing s with
  | nil => exact .of_same rfl rfl
  | cons call calls ih =>
      obtain ⟨hcall, hcalls⟩ := List.forall_mem_cons.mp hcalls
      have hfirst := accounts_call h.intact hlistens hcall
      have hlistens' : (call.after s).listener.isSome = true := by
        have hreplies := congrArg Option.isSome hfirst.replies_eq
        simpa [replies, hlistens] using hreplies
      exact hfirst.trans (ih (h.afterAll [call]) hlistens' hcalls)

/-! ## Main result -/

/-- The account of the beeps over a run of steps, direct runs of the timers and key calls, with a
listener that fails in whichever of its calls it likes.  There are as many more beeps as calls of
the listener, and one for each time the sound timer runs out together with one for each call that
fails; what is reported is that the sound timer ran out.

Where the listener fails inside a step, its error is what the step fails with, whatever error that
is.  The cycle is counted with all that its instruction did, the delay timer is counted down, the
sound timer keeps its one, and the machine keeps running, so that a later step fails only if the
listener fails again. -/
theorem beeps_accounted (h : Reachable s) (hlistens : s.listener.isSome = true) :
    (∀ calls : List (Call τ),
      (∀ call ∈ calls, call = .step ∨ call = .updateTimers ∨ call.IsKeyCall) →
        Accounts s (afterAll calls s) (countCalls Call.soundEnds calls s)
          (countCalls Call.reportsBeep calls s)) ∧
    ∀ e, s.nextReply = some e → (endState (step s)).listenerCalls ≠ s.listenerCalls →
      ∃ m t, s.completing? = some m ∧ step s = .error e t ∧
        t.machine =
          { m with cycles := s.machine.cycles + 1, delay := countedDown m.delay } ∧
        t.machine.sound = 1 ∧ t.machine.runState = .running ∧ t.initialized = true ∧
        t.journal = s.journal ∧ ∀ e' v, step t = .error e' v → t.nextReply = some e' := by
  refine ⟨fun calls hcalls => accounts_afterAll h hlistens hcalls, fun e hreply hcalled => ?_⟩
  obtain ⟨m, t, hcompleting, hstep, hsound, hmachine, hrunning, hinit, hjournal⟩ :=
    step_of_failing_listener h.intact hreply hcalled
  have hintact : t.machine.Intact := by
    have hkept := intact_step h.intact
    rwa [hstep] at hkept
  refine ⟨m, t, hcompleting, hstep, hmachine, ?_, hrunning, hinit, hjournal, ?_⟩
  · rw [hmachine]
    exact hsound
  · intro e' v hagain
    rcases step_error hintact hagain with hnot | hstopped | hfails
    · exact absurd (hinit.symm.trans hnot) (by decide)
    · exact absurd (hrunning.symm.trans hstopped) (by decide)
    · exact hfails

/-- A listener that fails in its first call, with the error of a fault. -/
def startled : Listener where
  reply call := if call = 0 then some (.fault (.memoryRead 0)) else none

/-- An interpreter with such a listener.  It has loaded a program that sets the sound timer to
one, and is about to do so. -/
def unheard : Interpreter Rat :=
  afterAll [.start 0, .loadProgram [0x60, 0x01, 0xF0, 0x18, 0x12, 0x04], .step]
    { blank with listener := some startled }

theorem reachable_unheard : Reachable unheard :=
  ⟨_, _, ⟨1, 0, some startled, { blank with machine := .ofSeed 0, listener := some startled },
    { words := #[], position := 0 }, if_neg (by decide), rfl⟩, rfl⟩

/-- The step fails, and raises its beep again when the timers run the next time. -/
theorem beeps_accounted_unheard :
    let calls : List (Call Rat) := [.step, .updateTimers, .pressKey 3, .step]
    Accounts unheard (afterAll calls unheard) 1 1 ∧
      ∃ t, step unheard = .error (.fault (.memoryRead 0)) t ∧ t.machine.sound = 1 ∧
        t.machine.runState = .running := by
  intro calls
  obtain ⟨haccounts, hfails⟩ := beeps_accounted reachable_unheard (by decide +kernel)
  have hrun := haccounts calls (by simp [calls, Call.IsKeyCall])
  have hends : countCalls Call.soundEnds calls unheard = 1 := by decide +kernel
  have hreports : countCalls Call.reportsBeep calls unheard = 1 := by decide +kernel
  rw [hends, hreports] at hrun
  have hcalled : (endState (step unheard)).listenerCalls ≠ unheard.listenerCalls := by
    decide +kernel
  have hreply : unheard.nextReply = some (.fault (.memoryRead 0)) := by decide +kernel
  obtain ⟨-, t, -, hstep, -, hsound, hrunning, -⟩ := hfails _ hreply hcalled
  exact ⟨hrun, t, hstep, hsound, hrunning⟩

end

end Interpreter

end Chip8
