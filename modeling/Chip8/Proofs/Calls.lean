import Chip8.Interpreter.Drive
import Chip8.Interpreter.Lifecycle
import Chip8.Proofs.Evaluation

/-!
# Calls and reachable states

A run of an interpreter is a sequence of calls, each of which may return or fail.  The states
that runs reach are the starting point of the modules below: what holds of a new interpreter
and survives every call holds in all of them.
-/

namespace Chip8.Interpreter

variable {τ : Type}

/-- A call of an interpreter, with its arguments.  Clock readings are arguments as well. -/
inductive Call (τ : Type) where
  | start (now : τ)
  | loadProgram (program : List Int)
  | loadRom (reader : Reader) (path : String)
  | restart
  | step
  | runCycles (now : τ) (elapsed : Option τ)
  | fetch
  | updateTimers
  | pressKey (key : Int)
  | releaseKey (key : Int)
  | setKeys (keys : List Int)

def Call.after [TimeScale τ] (s : Interpreter τ) : Call τ → Interpreter τ
  | start now => endState (Interpreter.start now s)
  | loadProgram program => endState (Interpreter.loadProgram program s)
  | loadRom reader path => endState (Interpreter.loadRom reader path s)
  | restart => endState (Interpreter.restart s)
  | step => endState (Interpreter.step s)
  | runCycles now elapsed => endState (Interpreter.runCycles now elapsed s)
  | fetch => endState (onMachine Machine.fetch s)
  | updateTimers => endState (Interpreter.updateTimers s)
  | pressKey key => endState (Interpreter.pressKey key s)
  | releaseKey key => endState (Interpreter.releaseKey key s)
  | setKeys keys => endState (Interpreter.setKeys keys s)

def Call.IsKeyCall : Call τ → Prop
  | pressKey _ | releaseKey _ | setKeys _ => True
  | _ => False

theorem endState_setKey (pressed : Bool) (key : Int) (s : Interpreter τ) :
    ∃ keys, endState (onMachine (Machine.setKey pressed key) s) =
      { s with machine.keys := keys } := by
  by_cases hkey : Machine.IsKey key
  · refine ⟨s.machine.keys.setIfInBounds key.toNat pressed, ?_⟩
    simp only [onMachine_eq, Machine.setKey, hkey, if_true, endState]
  · refine ⟨s.machine.keys, ?_⟩
    simp only [onMachine_eq, Machine.setKey, hkey, if_false, endState]

/-- The keys become the given ones, unless one of these is no key of the keypad. -/
theorem setKeys_apply (keys : List Int) (s : Interpreter τ) :
    setKeys keys s =
      match keys.find? fun key => ¬ Machine.IsKey key with
      | some key => .error (.invalidKey key) s
      | none =>
          .ok ()
            { s with machine.keys :=
                (Array.range keyCount).map fun (n : Nat) => keys.contains (n : Int) } := by
  simp only [setKeys, onMachine_eq, Machine.setKeys]
  cases keys.find? fun key => ¬ Machine.IsKey key <;> rfl

theorem setKeys_returns
    {keys : List Int} (hkeys : ∀ key ∈ keys, Machine.IsKey key) (s : Interpreter τ) :
    setKeys keys s = .ok () (endState (setKeys keys s)) := by
  have hnone : (keys.find? fun key => ¬ Machine.IsKey key) = none := by
    simpa using hkeys
  rw [setKeys_apply, hnone]
  rfl

theorem endState_setKeys (keys : List Int) (s : Interpreter τ) :
    ∃ keys', endState (setKeys keys s) = { s with machine.keys := keys' } := by
  rw [setKeys_apply]
  cases keys.find? fun key => ¬ Machine.IsKey key with
  | none => exact ⟨_, rfl⟩
  | some key => exact ⟨s.machine.keys, rfl⟩

def afterAll [TimeScale τ] (calls : List (Call τ)) (s : Interpreter τ) : Interpreter τ :=
  calls.foldl Call.after s

theorem eq_of_create
    [TimeScale τ] {stepsPerCall seed : Int} {listener : Option Listener} {created : Interpreter τ}
    (hcreate : create stepsPerCall seed listener = .ok created) :
    created =
      { machine := .ofSeed seed
        stepsPerCall := stepsPerCall.toNat
        listener := listener
        pending := TimeScale.zero } := by
  unfold create at hcreate
  split at hcreate
  · exact absurd hcreate (by simp)
  · exact (Except.ok.inj hcreate).symm

theorem initialized_of_create
    [TimeScale τ] {stepsPerCall seed : Int} {listener : Option Listener} {created : Interpreter τ}
    (hcreate : create stepsPerCall seed listener = .ok created) : created.initialized = false := by
  rw [eq_of_create hcreate]
  rfl

/-- A new interpreter with any number of steps per call, any listener and any random source,
as a seed may also be left to the system. -/
def Fresh [TimeScale τ] (s : Interpreter τ) : Prop :=
  ∃ (stepsPerCall seed : Int) (listener : Option Listener) (created : Interpreter τ)
      (random : RandomSource),
    create stepsPerCall seed listener = .ok created ∧ s = { created with machine.random := random }

theorem fresh_of_create
    [TimeScale τ] {stepsPerCall seed : Int} {listener : Option Listener} {created : Interpreter τ}
    (hcreate : create stepsPerCall seed listener = .ok created) : Fresh created :=
  ⟨stepsPerCall, seed, listener, created, created.machine.random, hcreate, rfl⟩

/-- A state that some sequence of calls of a new interpreter ends in. -/
def Reachable [TimeScale τ] (s : Interpreter τ) : Prop :=
  ∃ (first : Interpreter τ) (calls : List (Call τ)), Fresh first ∧ s = afterAll calls first

/-- A new interpreter without a listener, which counts exact seconds. -/
def blank : Interpreter Rat where
  machine := { Machine.ofSeed 0 with random := { words := #[], position := 0 } }
  stepsPerCall := 1
  pending := TimeScale.zero

theorem fresh_blank : Fresh blank :=
  ⟨1, 0, none, { blank with machine := Machine.ofSeed 0 }, { words := #[], position := 0 },
    if_neg (by decide), rfl⟩

section

variable [TimeScale τ] {P : Interpreter τ → Prop}

/-- What every call of a kind preserves, all calls of that kind together preserve. -/
theorem afterAll_preserves
    {K : Call τ → Prop}
    (hcall : ∀ (s : Interpreter τ) (call : Call τ), K call → P s → P (call.after s))
    {calls : List (Call τ)} (hcalls : ∀ call ∈ calls, K call) {s : Interpreter τ} (h : P s) :
    P (afterAll calls s) := by
  induction calls generalizing s with
  | nil => exact h
  | cons call calls ih =>
      obtain ⟨hfirst, hrest⟩ := List.forall_mem_cons.mp hcalls
      exact ih hrest (hcall s call hfirst h)

theorem Fresh.reachable {s : Interpreter τ} (h : Fresh s) : Reachable s :=
  ⟨s, [], h, rfl⟩

theorem Reachable.afterAll {s : Interpreter τ} (h : Reachable s) (calls : List (Call τ)) :
    Reachable (afterAll calls s) := by
  obtain ⟨first, before, hfirst, rfl⟩ := h
  exact ⟨first, before ++ calls, hfirst, (List.foldl_append ..).symm⟩

/-- What holds of a new interpreter and survives every call holds in every reachable state. -/
theorem Reachable.holds
    {s : Interpreter τ} (h : Reachable s) (hfresh : ∀ s, Fresh s → P s)
    (hcall : ∀ (s : Interpreter τ) (call : Call τ), P s → P (call.after s)) : P s := by
  obtain ⟨first, calls, hfirst, rfl⟩ := h
  exact afterAll_preserves (K := fun _ => True) (fun s call _ => hcall s call)
    (fun _ _ => trivial) (hfresh first hfirst)

/-! ## Key calls -/

/-- Key calls change the keys and nothing else. -/
theorem after_of_isKeyCall {call : Call τ} (h : call.IsKeyCall) (s : Interpreter τ) :
    ∃ keys, call.after s = { s with machine.keys := keys } := by
  cases call with
  | pressKey key => exact endState_setKey true key s
  | releaseKey key => exact endState_setKey false key s
  | setKeys keys => exact endState_setKeys keys s
  | _ => exact h.elim

/-! ## The driver's loop -/

/-- The interpreter that has taken the time for one step off the pending time. -/
def spent (s : Interpreter τ) : Interpreter τ :=
  { s with
    pending := TimeScale.atLeast (TimeScale.sub s.pending TimeScale.period) TimeScale.zero }

theorem drive_spent (attempts steps : Nat) (s : Interpreter τ) :
    drive (attempts + 1) steps s =
      if s.machine.runState = .halted then .ok steps s
      else if TimeScale.below (TimeScale.add s.pending TimeScale.slack) (TimeScale.period : τ) then
        .ok steps s
      else
        match step s.spent with
        | .ok _ t => drive attempts (steps + 1) t
        | .error e t => .error e t := rfl

/-- The driver takes steps and otherwise changes the pending time, so it preserves what both
preserve. -/
theorem drive_preserves
    (hstep : ∀ s : Interpreter τ, P s → P (endState (step s)))
    (htime : ∀ (s : Interpreter τ) (pending : τ), P s → P { s with pending := pending })
    (attempts steps : Nat) {s : Interpreter τ} (h : P s) :
    P (endState (drive attempts steps s)) := by
  induction attempts generalizing steps s with
  | zero => exact h
  | succ attempts ih =>
      rw [drive_spent]
      by_cases hhalted : s.machine.runState = .halted
      · rw [if_pos hhalted]
        exact h
      rw [if_neg hhalted]
      by_cases htimely : TimeScale.below (TimeScale.add s.pending TimeScale.slack)
          (TimeScale.period : τ) = true
      · rw [if_pos htimely]
        exact h
      rw [if_neg htimely]
      have hnext := hstep _ (htime s s.spent.pending h)
      change P (endState (step s.spent)) at hnext
      cases hresult : step s.spent with
      | ok result s' =>
          rw [hresult] at hnext
          exact ih (steps + 1) hnext
      | error e s' =>
          rw [hresult] at hnext
          exact hnext

/-- The interpreter whose driver was called at a reading of the clock. -/
def timed (now : τ) (elapsed : Option τ) (last : τ) (s : Interpreter τ) : Interpreter τ :=
  { s with
    lastTick := some now
    pending := TimeScale.add s.pending
      (TimeScale.atLeast (elapsed.getD (TimeScale.sub now last)) TimeScale.zero) }

theorem runCycles_of_halted
    {s : Interpreter τ} {last : τ} (hlast : s.lastTick = some last)
    (hstate : s.machine.runState = .halted) (now : τ) (elapsed : Option τ) :
    runCycles now elapsed s = .ok 0 { s with lastTick := some now } := by
  have hhalted : isHalted { s with lastTick := some now } = true := by
    simpa [isHalted] using hstate
  simp only [runCycles, hlast, hhalted, if_true]

theorem runCycles_of_not_halted
    {s : Interpreter τ} {last : τ} (hlast : s.lastTick = some last)
    (hstate : s.machine.runState ≠ .halted) (now : τ) (elapsed : Option τ) :
    runCycles now elapsed s =
      match drive s.stepsPerCall 0 (s.timed now elapsed last) with
      | .error e t => .error e t
      | .ok steps t =>
          match TimeScale.periods (τ := τ) t.stepsPerCall with
          | some most => .ok steps { t with pending := TimeScale.atMost t.pending most }
          | none => .error .countTooLarge t := by
  have hrunning : isHalted { s with lastTick := some now } = false := by
    simpa [isHalted] using hstate
  simp only [runCycles, hlast, hrunning, Bool.false_eq_true, if_false]
  change EStateM.bind (drive s.stepsPerCall 0) _ (s.timed now elapsed last) = _
  unfold EStateM.bind
  cases drive s.stepsPerCall 0 (s.timed now elapsed last) with
  | error e t => rfl
  | ok steps t =>
      simp only [bind_apply, dropBacklog, pure_apply]
      cases TimeScale.periods (τ := τ) t.stepsPerCall <;> rfl

theorem runCycles_preserves
    (hstep : ∀ s : Interpreter τ, P s → P (endState (step s)))
    (htime : ∀ (s : Interpreter τ) (pending : τ), P s → P { s with pending := pending })
    (hclock : ∀ (s : Interpreter τ) (now : τ), P s → P { s with lastTick := some now })
    (now : τ) (elapsed : Option τ) {s : Interpreter τ} (h : P s) :
    P (endState (runCycles now elapsed s)) := by
  cases hlast : s.lastTick with
  | none =>
      simp only [runCycles, hlast]
      exact h
  | some last =>
      by_cases hstate : s.machine.runState = .halted
      · rw [runCycles_of_halted hlast hstate]
        exact hclock s now h
      have hdriven := drive_preserves hstep htime s.stepsPerCall 0
        (s := s.timed now elapsed last) (htime _ _ (hclock s now h))
      rw [runCycles_of_not_halted hlast hstate]
      cases hresult : drive s.stepsPerCall 0 (s.timed now elapsed last) with
      | error e t =>
          rw [hresult] at hdriven
          exact hdriven
      | ok steps t =>
          rw [hresult] at hdriven
          dsimp only
          cases TimeScale.periods (τ := τ) t.stepsPerCall with
          | none => exact hdriven
          | some most => exact htime t _ hdriven

end

end Chip8.Interpreter
