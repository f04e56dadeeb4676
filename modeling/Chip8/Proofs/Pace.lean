import Chip8.Proofs.Calls
import Chip8.Proofs.Lifecycle
import Chip8.Proofs.Stepping

/-!
# The pace of an interpreter

The number of steps per call, the clock and the pending time make up the pace of an interpreter.
A step neither reads nor changes them, so it does the same at every pace.  Other calls keep the
pace of an initialized interpreter as well, except those of the driver; none ends the
initialization.
-/

namespace Chip8

section

variable {ε σ α : Type}

def mapState (f : σ → σ) : EStateM.Result ε σ α → EStateM.Result ε σ α
  | .ok a s => .ok a (f s)
  | .error e s => .error e (f s)

theorem endState_mapState (f : σ → σ) (result : EStateM.Result ε σ α) :
    endState (mapState f result) = f (endState result) := by
  cases result <;> rfl

end

namespace Interpreter

variable {τ α β : Type}

def paced (count : Nat) (last : Option τ) (pending : τ) (s : Interpreter τ) : Interpreter τ :=
  { s with stepsPerCall := count, lastTick := last, pending := pending }

/-- An action does the same at every pace, and does not change the pace. -/
def IgnoresPace (action : Action τ α) : Prop :=
  ∀ (count : Nat) (last : Option τ) (pending : τ) (s : Interpreter τ),
    action (s.paced count last pending) = mapState (paced count last pending) (action s)

namespace IgnoresPace

theorem pure (a : α) : IgnoresPace (Pure.pure a : Action τ α) :=
  fun _ _ _ _ => rfl

theorem bind
    {x : Action τ α} {f : α → Action τ β}
    (hx : IgnoresPace x) (hf : ∀ a, IgnoresPace (f a)) : IgnoresPace (x >>= f) := by
  intro count last pending s
  rw [bind_apply, bind_apply, hx]
  cases x s with
  | ok a t => exact hf a count last pending t
  | error e t => rfl

/-- Reading the state is harmless as long as what follows does not depend on the pace. -/
theorem read
    {f : Interpreter τ → Action τ β} (hf : ∀ s, IgnoresPace (f s))
    (hpaced : ∀ count last pending s, f (paced count last pending s) = f s) :
    IgnoresPace (get >>= f) := by
  intro count last pending s
  simp only [bind_apply, get_apply]
  rw [hpaced]
  exact hf s count last pending s

theorem ite
    {c : Prop} [Decidable c] {x y : Action τ α} (hx : IgnoresPace x) (hy : IgnoresPace y) :
    IgnoresPace (if c then x else y) := by
  split
  · exact hx
  · exact hy

/-- The pace is still the same at the end. -/
theorem paced_endState {action : Action τ α} (h : IgnoresPace action) (s : Interpreter τ) :
    (endState (action s)).paced s.stepsPerCall s.lastTick s.pending = endState (action s) := by
  have hsame := h s.stepsPerCall s.lastTick s.pending s
  conv_rhs => rw [show s = s.paced s.stepsPerCall s.lastTick s.pending from rfl, hsame]
  exact (endState_mapState _ _).symm

theorem record (event : Event) : IgnoresPace (record (τ := τ) event) :=
  fun _ _ _ _ => rfl

theorem onMachine (action : Machine.Action α) : IgnoresPace (onMachine (τ := τ) action) := by
  intro count last pending s
  have hmachine : (s.paced count last pending).machine = s.machine := rfl
  rw [onMachine_eq, onMachine_eq, hmachine]
  cases action s.machine <;> rfl

theorem attempt {action : Action τ α} (h : IgnoresPace action) :
    IgnoresPace (attempt action) := by
  intro count last pending s
  unfold Interpreter.attempt
  rw [h]
  cases action s with
  | ok a t => rfl
  | error e t => cases e <;> rfl

theorem outcome (pc : Int) : IgnoresPace (outcome (τ := τ) pc) :=
  fun _ _ _ _ => rfl

theorem halt (pc : Int) (cause : Fault) : IgnoresPace (halt (τ := τ) pc cause) :=
  bind (fun _ _ _ _ => rfl) fun _ => record _

theorem beep : IgnoresPace (beep (τ := τ)) := by
  intro count last pending s
  have hafter : (s.paced count last pending).afterBeep = s.afterBeep.paced count last pending := by
    obtain ⟨machine, stepsPerCall, listener, beeps, lastTick, time, journal⟩ := s
    cases listener <;> rfl
  have hreply : (s.paced count last pending).nextReply = s.nextReply := rfl
  rw [beep_apply, beep_apply, hafter, hreply]
  cases s.nextReply <;> rfl

theorem updateTimers : IgnoresPace (updateTimers (τ := τ)) := by
  refine bind (onMachine _) fun _ => read (fun s => ?_) fun _ _ _ _ => rfl
  refine ite ?_ ?_
  · exact bind beep fun _ => bind (onMachine _) fun _ => pure _
  · exact bind (onMachine _) fun _ => pure _

theorem finishCycle : IgnoresPace (finishCycle (τ := τ)) :=
  bind (onMachine _) fun _ => updateTimers

theorem inspect (word : Int) : IgnoresPace (inspect (τ := τ) word) := by
  refine ite ?_ ?_
  · exact pure _
  · exact bind (record _) fun _ => pure _

theorem waitingStep : IgnoresPace (waitingStep (τ := τ)) := by
  refine read (fun s => read (fun t => ?_) fun _ _ _ _ => rfl) fun _ _ _ _ => rfl
  cases t.machine.pressedKey with
  | none => exact outcome _
  | some key =>
      refine bind (onMachine _) fun _ => bind finishCycle fun beeped => ?_
      exact bind (outcome _) fun result => pure _

theorem executeStep (pc : Int) (decoded : Decoded) :
    IgnoresPace (executeStep (τ := τ) pc decoded) := by
  refine bind (attempt (onMachine _)) fun ended => ?_
  cases ended with
  | error cause =>
      exact bind (halt _ _) fun _ => bind (outcome _) fun result => pure _
  | ok value =>
      refine read (fun s => ite ?_ ?_) fun _ _ _ _ => rfl
      · exact bind finishCycle fun beeped => bind (outcome _) fun result => pure _
      · exact bind (outcome _) fun result => pure _

theorem runningStep : IgnoresPace (runningStep (τ := τ)) := by
  refine read (fun s => ?_) fun _ _ _ _ => rfl
  refine bind (attempt (onMachine _)) fun fetched => ?_
  cases fetched with
  | error cause =>
      exact bind (halt _ _) fun _ => bind (outcome _) fun result => pure _
  | ok word => exact bind (inspect word) fun decoded => executeStep _ decoded

end IgnoresPace

/-! ## Steps at another pace -/

variable {s : Interpreter τ}

/-- A step is the same at every pace, once the clock is started. -/
theorem step_paced
    (hinit : s.initialized = true) (count : Nat) (last pending : τ) :
    step (s.paced count (some last) pending) =
      mapState (paced count (some last) pending) (step s) := by
  have hinit' : (s.paced count (some last) pending).initialized = true := rfl
  have hstate : (s.paced count (some last) pending).machine = s.machine := rfl
  simp only [step, hinit, hinit', if_true, hstate]
  cases s.machine.runState with
  | halted => rfl
  | awaitingKey => exact IgnoresPace.waitingStep count (some last) pending s
  | running => exact IgnoresPace.runningStep count (some last) pending s

/-- A step keeps the pace, whether or not it fails. -/
theorem paced_step (s : Interpreter τ) :
    (endState (step s)).paced s.stepsPerCall s.lastTick s.pending = endState (step s) := by
  by_cases hinit : s.initialized = true
  · simp only [step, hinit, if_true]
    cases s.machine.runState with
    | halted => rfl
    | awaitingKey => exact IgnoresPace.waitingStep.paced_endState s
    | running => exact IgnoresPace.runningStep.paced_endState s
  · rw [step_of_not_initialized (Bool.eq_false_iff.mpr hinit)]
    rfl

theorem initialized_step (s : Interpreter τ) :
    (endState (step s)).initialized = s.initialized := by
  rw [← paced_step s]
  rfl

/-! ## Initialization -/

variable [TimeScale τ]

def Call.IsDriverCall : Call τ → Prop
  | runCycles _ _ => True
  | _ => False

/-- An initialized interpreter keeps its pace until the driver is called. -/
theorem paced_after (h : s.initialized = true) {call : Call τ} (hcall : ¬ call.IsDriverCall) :
    (call.after s).paced s.stepsPerCall s.lastTick s.pending = call.after s := by
  have hmachine {α : Type} (action : Machine.Action α) :
      (endState (onMachine action s)).paced s.stepsPerCall s.lastTick s.pending =
        endState (onMachine action s) :=
    (IgnoresPace.onMachine action).paced_endState s
  have hload (program : List Int) :
      (endState (loadProgram program s)).paced s.stepsPerCall s.lastTick s.pending =
        endState (loadProgram program s) := by
    rw [loadProgram_apply, if_pos h]
    split
    · split
      · rfl
      · rfl
    · rfl
  cases call with
  | start now =>
      rw [Call.after, start_apply, if_pos h]
      rfl
  | loadProgram program => exact hload program
  | loadRom reader path =>
      rw [Call.after, loadRom_apply, if_pos h]
      cases readRom reader path with
      | error e => rfl
      | ok bytes => exact hload _
  | restart =>
      rw [Call.after, restart_apply]
      rfl
  | step => exact paced_step s
  | runCycles now elapsed => exact absurd trivial hcall
  | fetch => exact hmachine _
  | updateTimers => exact IgnoresPace.updateTimers.paced_endState s
  | pressKey key => exact hmachine _
  | releaseKey key => exact hmachine _
  | setKeys keys => exact hmachine _

theorem initialized_after (h : s.initialized = true) (call : Call τ) :
    (call.after s).initialized = true := by
  by_cases hcall : call.IsDriverCall
  · cases call with
    | runCycles now elapsed =>
        exact runCycles_preserves (P := fun t => t.initialized = true)
          (fun t ht => (initialized_step t).trans ht) (fun _ _ ht => ht) (fun _ _ _ => rfl)
          now elapsed h
    | _ => exact hcall.elim
  · rw [← paced_after h hcall]
    exact h

theorem stepsPerCall_after (h : s.initialized = true) (call : Call τ) :
    (call.after s).stepsPerCall = s.stepsPerCall := by
  by_cases hcall : call.IsDriverCall
  · cases call with
    | runCycles now elapsed =>
        refine runCycles_preserves (P := fun t => t.stepsPerCall = s.stepsPerCall)
          (fun t ht => ?_) (fun _ _ ht => ht) (fun _ _ ht => ht) now elapsed rfl
        rw [← paced_step t]
        exact ht
    | _ => exact hcall.elim
  · rw [← paced_after h hcall]
    rfl

end Interpreter

end Chip8
