import Chip8.Proofs.Beginning
import Chip8.Proofs.Pace
import Chip8.Proofs.Totality

/-!
# Noninterference of the inputs

A machine has two inputs from outside: the keypad and the random source.  Four operations look
at them: two skips and the wait look at the keys, and one lets random bytes through a mask.
As long as a run carries none of these out, it could not tell one keypad or random source from
another.

Two machines that differ in their inputs only are one machine with other inputs,
`Machine.withInputs`.  An operation that reads no input commutes with that change, and so does
everything else that a step consists of: fetching, faults, the timers and the beeps.  The
main result, `steps_ignore_inputs`, is about two runs that take their steps side by side while
other keys are pressed on each side.
-/

namespace Chip8

/-! ## Operations -/

def Machine.withInputs (keys : Array Bool) (random : RandomSource) (m : Machine) : Machine :=
  { m with keys := keys, random := random }

namespace Operation

/-- An instruction that looks at the keys, or lets a random byte through its mask. -/
def ReadsInputs (operation : Operation) (word : Int) : Prop :=
  match operation with
  | skipIfPressed | skipUnlessPressed | awaitKey => True
  | random => Field.ofWord word .nn ≠ 0
  | _ => False

instance (operation : Operation) (word : Int) : Decidable (operation.ReadsInputs word) :=
  match operation with
  | skipIfPressed | skipUnlessPressed | awaitKey => isTrue trivial
  | random => inferInstanceAs (Decidable (Field.ofWord word .nn ≠ 0))
  | clear | ret | jump | call | skipIfByte | skipUnlessByte | skipIfEqual | loadByte | addByte
  | copy | bitOr | bitAnd | bitXor | add | subtract | shiftRight | subtractFrom | shiftLeft
  | skipUnlessEqual | loadIndex | jumpBeyond | draw | readDelay | setDelay | setSound | addIndex
  | loadGlyph | storeDecimal | storeRegisters | loadRegisters | unrecognized => isFalse id

section

variable (keys : Array Bool) (source : RandomSource) (operation : Operation) (word : Int)
  (m : Machine)

theorem faults_withInputs :
    operation.Faults word (m.withInputs keys source) ↔ operation.Faults word m := by
  cases operation <;> exact Iff.rfl

theorem cause_withInputs :
    operation.cause word (m.withInputs keys source) = operation.cause word m := by
  cases operation <;> rfl

theorem remnant_withInputs :
    operation.remnant word (m.withInputs keys source) =
      (operation.remnant word m).withInputs keys source := by
  cases operation <;> rfl

theorem target_withInputs (hblind : ¬ operation.ReadsInputs word) :
    operation.target word (m.withInputs keys source) = operation.target word m := by
  cases operation with
  | skipIfPressed | skipUnlessPressed | awaitKey => exact absurd trivial hblind
  | _ => rfl

/-- The random source may move on, but the mask lets nothing of it through. -/
theorem effect_withInputs (hblind : ¬ operation.ReadsInputs word) :
    ∃ source', operation.effect word (m.withInputs keys source) =
      (operation.effect word m).withInputs keys source' := by
  cases operation with
  | skipIfPressed | skipUnlessPressed | awaitKey => exact absurd trivial hblind
  | random =>
      have hmask : Field.ofWord word .nn = 0 := by_contra hblind
      have hnothing (byte : UInt8) : byte &&& UInt8.ofInt 0 = 0 := UInt8.and_zero
      refine ⟨source.nextByte.2, ?_⟩
      simp only [effect, hmask, hnothing]
      rfl
  | subtract | draw =>
      refine ⟨source, ?_⟩
      simp only [effect, apply_ite (Machine.withInputs keys source)]
      rfl
  | _ => exact ⟨source, rfl⟩

theorem completed_withInputs (hblind : ¬ operation.ReadsInputs word) :
    ∃ source', operation.completed word (m.withInputs keys source) =
      (operation.completed word m).withInputs keys source' := by
  obtain ⟨source', heffect⟩ := effect_withInputs keys source operation word m hblind
  refine ⟨source', ?_⟩
  rw [completed, heffect, target_withInputs keys source operation word m hblind]
  rfl

end

/-- An instruction that reads no input does not begin to wait. -/
theorem runState_completed_of_blind
    {operation : Operation} {word : Int} (hblind : ¬ operation.ReadsInputs word) (m : Machine) :
    (operation.completed word m).runState = m.runState := by
  have hstate : (operation.completed word m).runState = _ := runState_effect operation word m
  rw [hstate, if_neg]
  rintro ⟨rfl, -⟩
  exact hblind trivial

end Operation

namespace Machine.WellFormed

theorem withInputs
    {m : Machine} (h : m.WellFormed) {keys : Array Bool} (hsize : keys.size = keyCount)
    (source : RandomSource) : (m.withInputs keys source).WellFormed :=
  { h with size_keys := hsize }

/-- A machine whose timers are counted down at the end of a cycle stays well-formed. -/
theorem ticked {m : Machine} (h : m.WellFormed) (cycles : Int) :
    ({ m with cycles := cycles } : Machine).delayTicked.soundTicked.WellFormed :=
  { h with
    delay_range := countedDown_range h.delay_range
    sound_range := countedDown_range h.sound_range }

variable {m : Machine} (h : m.WellFormed) (operation : Operation) (word : Int)

include h

theorem completed (hfine : ¬ operation.Faults word m) :
    (operation.completed word m).WellFormed := by
  have hkeeps := Operation.keeps_perform (.ofWord word) operation m h.continues_self
  rw [Operation.perform_completes h operation hfine] at hkeeps
  exact hkeeps.1.toWellFormed

theorem remnant (hfault : operation.Faults word m) :
    (operation.remnant word m).WellFormed := by
  have hkeeps := Operation.keeps_perform (.ofWord word) operation m h.continues_self
  obtain ⟨cause, -, hperform⟩ := Operation.perform_faults h operation hfault
  rw [hperform] at hkeeps
  exact hkeeps.1.toWellFormed

end Machine.WellFormed

namespace Interpreter

open Machine

variable {τ : Type} {s t : Interpreter τ}

/-! ## Alike interpreters -/

/-- Two interpreters whose machines differ in their inputs only, and who have raised equally
many beeps. -/
structure Alike (s t : Interpreter τ) : Prop where
  machine_eq : t.machine = s.machine.withInputs t.machine.keys t.machine.random
  beeps_eq : t.beeps = s.beeps

namespace Alike

theorem of_withInputs
    {keys : Array Bool} {source : RandomSource}
    (hmachine : t.machine = s.machine.withInputs keys source) (hbeeps : t.beeps = s.beeps) :
    Alike s t where
  machine_eq := by
    rw [hmachine]
    rfl
  beeps_eq := hbeeps

variable (h : Alike s t)

include h

theorem pc_eq : t.machine.pc = s.machine.pc := by
  rw [h.machine_eq]
  rfl

theorem cycles_eq : t.machine.cycles = s.machine.cycles := by
  rw [h.machine_eq]
  rfl

theorem opcode_eq : t.machine.opcode = s.machine.opcode := by
  rw [h.machine_eq]
  rfl

theorem runState_eq : t.machine.runState = s.machine.runState := by
  rw [h.machine_eq]
  rfl

theorem wordAtPc_eq : t.machine.wordAtPc = s.machine.wordAtPc := by
  rw [h.machine_eq]
  rfl

theorem operation_eq : t.machine.operation = s.machine.operation := by
  rw [operation, h.wordAtPc_eq, operation]

theorem fetched_eq :
    t.machine.fetched = s.machine.fetched.withInputs t.machine.keys t.machine.random := by
  conv_lhs => rw [h.machine_eq]
  rfl

theorem faults_iff :
    t.machine.operation.Faults t.machine.wordAtPc t.machine ↔
      s.machine.operation.Faults s.machine.wordAtPc s.machine := by
  rw [h.operation_eq, h.wordAtPc_eq]
  conv_lhs => rw [h.machine_eq]
  exact Operation.faults_withInputs _ _ _ _ _

end Alike

/-- What two runs need for going on side by side. -/
structure Twins (s t : Interpreter τ) : Prop extends Alike s t where
  initialized : s.initialized = true
  initialized' : t.initialized = true
  wellFormed : s.machine.WellFormed
  wellFormed' : t.machine.WellFormed
  returns : s.ListenerReturns
  returns' : t.ListenerReturns
  not_waiting : s.machine.runState ≠ .awaitingKey

/-! ## Steps of a running machine -/

/-- The timers are counted down for sure when the listener returns. -/
theorem updateTimers_of_returns (hreturns : s.ListenerReturns) :
    ∃ u, updateTimers s = .ok (decide (s.machine.sound = 1)) u ∧
      u.machine = s.machine.delayTicked.soundTicked ∧
      u.beeps = s.beeps + if s.machine.sound = 1 then 1 else 0 := by
  have hbeeps (u : Interpreter τ) : u.afterBeep.beeps = u.beeps + 1 := by
    unfold afterBeep
    split <;> rfl
  rw [updateTimers_apply]
  dsimp only
  by_cases hsound : s.machine.sound = 1
  · rw [if_pos hsound, hreturns.nextReply_eq_none]
    refine ⟨_, by rw [decide_eq_true hsound], rfl, ?_⟩
    rw [if_pos hsound]
    exact hbeeps { s with machine := s.machine.delayTicked }
  · rw [if_neg hsound]
    refine ⟨_, by rw [decide_eq_false hsound], rfl, ?_⟩
    rw [if_neg hsound]
    rfl

theorem replies_stopped (s : Interpreter τ) (m : Machine) (cause : Fault) :
    (s.stopped m cause).replies = s.replies := by
  simp only [replies, stopped]

theorem replies_inspected (s : Interpreter τ) : s.inspected.replies = s.replies := by
  simp only [replies, inspected]

theorem replies_performed (s : Interpreter τ) : s.performed.replies = s.replies := by
  simp only [replies, performed, inspected]

/-- A running machine takes its step if the listener returns, and can go on from there. -/
theorem step_of_running
    (hinit : s.initialized = true) (hwf : s.machine.WellFormed)
    (hstate : s.machine.runState = .running) (hreturns : s.ListenerReturns) :
    ∃ result t, step s = .ok result t ∧ t.initialized = true ∧ t.machine.WellFormed ∧
      t.ListenerReturns := by
  have hends {result : StepResult} {t : Interpreter τ} (hstep : step s = .ok result t)
      (hmachine : t.machine.WellFormed) (hreplies : t.replies = s.replies) :
      ∃ result t, step s = .ok result t ∧ t.initialized = true ∧ t.machine.WellFormed ∧
        t.ListenerReturns := by
    have hinit' := (initialized_step s).trans hinit
    have hreturns' := listenerReturns_iff.mp hreturns
    rw [hstep] at hinit'
    rw [← hreplies] at hreturns'
    exact ⟨result, t, hstep, hinit', hmachine, listenerReturns_iff.mpr hreturns'⟩
  have hfetched : s.machine.fetched.WellFormed := { hwf with }
  by_cases hpc : s.machine.pc ≤ 0xFFE
  · by_cases hfault : s.machine.operation.Faults s.machine.wordAtPc s.machine
    · obtain ⟨cause, hstep⟩ := step_faults hinit hwf hstate hpc hfault
      have hleft := hfetched.remnant _ _ hfault
      apply hends hstep { hleft with }
      rw [replies_stopped, replies_inspected]
    · have hdone : s.performed.machine.WellFormed := hfetched.completed _ _ hfault
      have hstep := step_completes hinit hwf hstate hpc hfault
      obtain ⟨u, htimers, hmachine, -⟩ :=
        updateTimers_of_returns (s := s.performed.counted) hreturns
      have hreplies := replies_updateTimers s.performed.counted
      rw [finish_apply, htimers] at hstep
      rw [htimers] at hreplies
      split at hstep
      · refine hends hstep ?_ (hreplies.trans (replies_performed s))
        rw [hmachine]
        exact hdone.ticked _
      · exact hends hstep hdone (replies_performed s)
  · exact hends (step_unfetched hinit hwf hstate (by omega)) { hwf with }
      (replies_stopped s s.machine _)

theorem finish_alike
    (hs : s.ListenerReturns) (ht : t.ListenerReturns) (halike : Alike s t) (pc : Int)
    (decoded : Option Decoded) :
    ∃ result s' t', finish pc decoded s = .ok result s' ∧ finish pc decoded t = .ok result t' ∧
      Alike s' t' ∧ s'.machine.runState = s.machine.runState := by
  obtain ⟨s', hs', hmachine, hbeeps⟩ := updateTimers_of_returns (s := s.counted) hs
  obtain ⟨t', ht', hmachine', hbeeps'⟩ := updateTimers_of_returns (s := t.counted) ht
  have hsame := halike.machine_eq
  have hsound : t.counted.machine.sound = s.counted.machine.sound := by
    show t.machine.sound = s.machine.sound
    rw [hsame]
    rfl
  have hend : t'.machine = s'.machine.withInputs t.machine.keys t.machine.random := by
    rw [hmachine, hmachine']
    show (t.counted.machine).delayTicked.soundTicked = _
    unfold counted
    rw [hsame]
    rfl
  rw [finish_apply, finish_apply, hs', ht', hsound]
  refine ⟨_, s', t', rfl, ?_, ?_, ?_⟩
  · dsimp only
    rw [hend]
    rfl
  · apply Alike.of_withInputs hend
    rw [hbeeps, hbeeps', hsound]
    show t.beeps + _ = s.beeps + _
    rw [halike.beeps_eq]
  · rw [hmachine]
    rfl

/-- Both interpreters take a step, with one result, and are still alike. -/
def SameStep (s t : Interpreter τ) : Prop :=
  ∃ result s' t', step s = .ok result s' ∧ step t = .ok result t' ∧ Alike s' t' ∧
    s'.machine.runState ≠ .awaitingKey

section

variable (h : Twins s t) (hstate : s.machine.runState = .running)

include h hstate

theorem sameStep_unfetched (hpc : 0xFFE < s.machine.pc) : SameStep s t := by
  have hstep := step_unfetched h.initialized h.wellFormed hstate hpc
  have hstep' := step_unfetched h.initialized' h.wellFormed' (h.runState_eq.trans hstate)
    (h.pc_eq ▸ hpc)
  rw [h.pc_eq, h.cycles_eq, h.opcode_eq] at hstep'
  have hmachine : { t.machine with runState := .halted } =
      ({ s.machine with runState := .halted } : Machine).withInputs t.machine.keys
        t.machine.random := by
    conv_lhs => rw [h.machine_eq]
    rfl
  refine ⟨_, _, _, hstep, hstep', ?_, fun hwaits => by cases hwaits⟩
  exact Alike.of_withInputs hmachine h.beeps_eq

theorem sameStep_faults
    (hpc : s.machine.pc ≤ 0xFFE)
    (hfault : s.machine.operation.Faults s.machine.wordAtPc s.machine) : SameStep s t := by
  obtain ⟨cause, hcause, hstep⟩ := step_reports h.initialized h.wellFormed hstate hpc hfault
  obtain ⟨cause', hcause', hstep'⟩ := step_reports h.initialized' h.wellFormed'
    (h.runState_eq.trans hstate) (h.pc_eq ▸ hpc) (h.faults_iff.mpr hfault)
  have hsame : cause' = cause := by
    rw [h.operation_eq, h.wordAtPc_eq, h.machine_eq, Operation.cause_withInputs] at hcause'
    exact Option.mem_unique hcause' hcause
  rw [hsame, h.operation_eq, h.wordAtPc_eq, h.pc_eq, h.cycles_eq, h.fetched_eq,
    Operation.remnant_withInputs] at hstep'
  refine ⟨_, _, _, hstep, hstep', ?_, fun hwaits => by cases hwaits⟩
  exact Alike.of_withInputs rfl h.beeps_eq

theorem sameStep_completes
    (hpc : s.machine.pc ≤ 0xFFE)
    (hfine : ¬ s.machine.operation.Faults s.machine.wordAtPc s.machine)
    (hblind : ¬ s.machine.operation.ReadsInputs s.machine.wordAtPc) : SameStep s t := by
  obtain ⟨source, hcompleted⟩ := Operation.completed_withInputs t.machine.keys t.machine.random
    s.machine.operation s.machine.wordAtPc s.machine.fetched hblind
  have hperformed : t.performed.machine =
      s.performed.machine.withInputs t.machine.keys source := by
    show t.machine.operation.completed t.machine.wordAtPc t.machine.fetched = _
    rw [h.operation_eq, h.wordAtPc_eq, h.fetched_eq, hcompleted]
    rfl
  have halike : Alike s.performed t.performed := .of_withInputs hperformed h.beeps_eq
  have hruns : s.performed.machine.runState = .running :=
    (Operation.runState_completed_of_blind hblind _).trans hstate
  have hruns' : t.performed.machine.runState = .running := halike.runState_eq.trans hruns
  have hstep := step_completes h.initialized h.wellFormed hstate hpc hfine
  have hstep' := step_completes h.initialized' h.wellFormed' (h.runState_eq.trans hstate)
    (h.pc_eq ▸ hpc) (h.faults_iff.not.mpr hfine)
  rw [h.operation_eq, h.wordAtPc_eq, h.pc_eq] at hstep'
  by_cases hknown : s.machine.operation ≠ .unrecognized
  · obtain ⟨result, s', t', hs', ht', halike', hend⟩ := finish_alike (s := s.performed)
      (t := t.performed) h.returns h.returns' halike s.machine.pc
      (some (decode s.machine.wordAtPc))
    rw [if_pos ⟨hknown, hruns⟩, hs'] at hstep
    rw [if_pos ⟨hknown, hruns'⟩, ht'] at hstep'
    refine ⟨result, s', t', hstep, hstep', halike', ?_⟩
    rw [hend, hruns]
    exact fun hwaits => by cases hwaits
  · rw [if_neg fun hends => hknown hends.1] at hstep hstep'
    rw [halike.cycles_eq, halike.opcode_eq] at hstep'
    refine ⟨_, _, _, hstep, hstep', halike, ?_⟩
    rw [hruns]
    exact fun hwaits => by cases hwaits

/-- Two running machines that are alike take the same step if it reads no input. -/
theorem sameStep
    (hblind : s.machine.pc ≤ 0xFFE → ¬ s.machine.operation.ReadsInputs s.machine.wordAtPc) :
    SameStep s t := by
  by_cases hpc : s.machine.pc ≤ 0xFFE
  · by_cases hfault : s.machine.operation.Faults s.machine.wordAtPc s.machine
    · exact sameStep_faults h hstate hpc hfault
    · exact sameStep_completes h hstate hpc hfault (hblind hpc)
  · exact sameStep_unfetched h hstate (by omega)

/-- After the same step the two runs can go on side by side. -/
theorem Twins.step
    (hblind : s.machine.pc ≤ 0xFFE → ¬ s.machine.operation.ReadsInputs s.machine.wordAtPc) :
    ∃ result s' t', Interpreter.step s = .ok result s' ∧ Interpreter.step t = .ok result t' ∧
      Twins s' t' := by
  obtain ⟨result, s', t', hs, ht, halike, hwaits⟩ := sameStep h hstate hblind
  obtain ⟨_, _, hs', hinit, hwf, hreturns⟩ :=
    step_of_running h.initialized h.wellFormed hstate h.returns
  obtain ⟨_, _, ht', hinit', hwf', hreturns'⟩ := step_of_running h.initialized' h.wellFormed'
    (h.runState_eq.trans hstate) h.returns'
  rw [hs] at hs'
  rw [ht] at ht'
  cases hs'
  cases ht'
  exact
    ⟨result, s', t', hs, ht,
      { halike with
        initialized := hinit
        initialized' := hinit'
        wellFormed := hwf
        wellFormed' := hwf'
        returns := hreturns
        returns' := hreturns'
        not_waiting := hwaits }⟩

end

/-! ## Runs side by side -/

/-- A step that was taken: the state it began in, what it reported, and the state it ended
in. -/
structure Taken (τ : Type) where
  before : Interpreter τ
  result : StepResult
  after : Interpreter τ

/-- The step fetched an instruction that reads an input. -/
def Taken.ReadsInputs (a : Taken τ) : Prop :=
  a.before.machine.pc ≤ 0xFFE ∧
    a.before.machine.operation.ReadsInputs a.before.machine.wordAtPc

instance (a : Taken τ) : Decidable a.ReadsInputs :=
  inferInstanceAs (Decidable (_ ∧ _))

/-- Two steps found the same word at the same place, reported the same, and left alike
interpreters behind. -/
structure Taken.Agrees (a b : Taken τ) : Prop where
  pc_eq : b.before.machine.pc = a.before.machine.pc
  word_eq : b.before.machine.wordAtPc = a.before.machine.wordAtPc
  result_eq : b.result = a.result
  after_alike : Alike a.after b.after

/-- The state that the last of some steps ended in, or the one before there was any. -/
def lastState (s : Interpreter τ) (steps : List (Taken τ)) : Interpreter τ :=
  (steps.getLast?.map Taken.after).getD s

theorem lastState_cons (s : Interpreter τ) (a : Taken τ) (steps : List (Taken τ)) :
    lastState s (a :: steps) = lastState a.after steps := by
  rw [lastState, List.getLast?_cons]
  cases hlast : steps.getLast? with
  | none => simp [lastState, hlast]
  | some b => simp [lastState, hlast]

variable [TimeScale τ]

/-- The steps of a run, in each round of which some calls come before the step.  The run ends
with the first step that is refused. -/
def stepsTaken : List (List (Call τ)) → Interpreter τ → List (Taken τ)
  | [], _ => []
  | calls :: rounds, s =>
      match step (afterAll calls s) with
      | .ok result t => ⟨afterAll calls s, result, t⟩ :: stepsTaken rounds t
      | .error _ _ => []

theorem size_keys_after
    {call : Call τ} (hcall : call.IsKeyCall) (hsize : s.machine.keys.size = keyCount) :
    (call.after s).machine.keys.size = keyCount := by
  have hset (pressed : Bool) (key : Int) :
      (endState (setKey pressed key s.machine)).keys.size = keyCount := by
    unfold setKey
    split
    · simpa [endState] using hsize
    · exact hsize
  cases call with
  | pressKey key =>
      show (endState (onMachine (setKey true key) s)).machine.keys.size = keyCount
      rw [machine_onMachine]
      exact hset true key
  | releaseKey key =>
      show (endState (onMachine (setKey false key) s)).machine.keys.size = keyCount
      rw [machine_onMachine]
      exact hset false key
  | setKeys keys =>
      rw [Call.after, setKeys_apply]
      cases keys.find? fun key => ¬ IsKey key with
      | none => simp [endState]
      | some key => exact hsize
  | _ => exact hcall.elim

theorem Twins.keyCalls
    (h : Twins s t) {calls calls' : List (Call τ)} (hcalls : ∀ call ∈ calls, call.IsKeyCall)
    (hcalls' : ∀ call ∈ calls', call.IsKeyCall) :
    Twins (afterAll calls s) (afterAll calls' t) := by
  have hleft : Twins (afterAll calls s) t := by
    refine afterAll_preserves (P := fun u => Twins u t) (K := Call.IsKeyCall) ?_ hcalls h
    intro u call hcall hu
    have hsize := size_keys_after hcall hu.wellFormed.size_keys
    obtain ⟨keys, hafter⟩ := after_of_isKeyCall hcall u
    rw [hafter] at hsize ⊢
    have hmachine : t.machine =
        ({ u.machine with keys := keys } : Machine).withInputs t.machine.keys
          t.machine.random := hu.machine_eq
    exact
      { hu with
        machine_eq := hmachine
        wellFormed := { hu.wellFormed with size_keys := hsize } }
  refine afterAll_preserves (P := fun u => Twins (afterAll calls s) u) (K := Call.IsKeyCall) ?_
    hcalls' hleft
  intro u call hcall hu
  have hsize := size_keys_after hcall hu.wellFormed'.size_keys
  obtain ⟨keys, hafter⟩ := after_of_isKeyCall hcall u
  rw [hafter] at hsize ⊢
  have hmachine : { u.machine with keys := keys } =
      (afterAll calls s).machine.withInputs keys u.machine.random := by
    conv_lhs => rw [hu.machine_eq]
    rfl
  exact
    { hu with
      machine_eq := hmachine
      wellFormed' := { hu.wellFormed' with size_keys := hsize } }

theorem runState_keyCalls
    {calls : List (Call τ)} (hcalls : ∀ call ∈ calls, call.IsKeyCall) (s : Interpreter τ) :
    (afterAll calls s).machine.runState = s.machine.runState := by
  refine afterAll_preserves (P := fun u => u.machine.runState = s.machine.runState)
    (K := Call.IsKeyCall) ?_ hcalls rfl
  intro u call hcall hu
  obtain ⟨keys, hafter⟩ := after_of_isKeyCall hcall u
  rw [hafter]
  exact hu

/-- Runs side by side agree step by step, and end early only when their machines have
stopped. -/
theorem stepsTaken_agree
    (h : Twins s t) {first second : List (List (Call τ))} (hlength : first.length = second.length)
    (hfirst : ∀ calls ∈ first, ∀ call ∈ calls, call.IsKeyCall)
    (hsecond : ∀ calls ∈ second, ∀ call ∈ calls, call.IsKeyCall)
    (hblind : ∀ a ∈ stepsTaken first s, ¬ a.ReadsInputs) :
    List.Forall₂ Taken.Agrees (stepsTaken first s) (stepsTaken second t) ∧
      ((stepsTaken first s).length = first.length ∨
        (lastState s (stepsTaken first s)).machine.runState = .halted) := by
  induction first generalizing second s t with
  | nil =>
      rw [List.length_nil] at hlength
      rw [List.length_eq_zero_iff.mp hlength.symm]
      exact ⟨.nil, Or.inl rfl⟩
  | cons calls rounds ih =>
      obtain ⟨calls', rounds', rfl⟩ := List.exists_cons_of_length_eq_add_one hlength.symm
      obtain ⟨hcalls, hfirst⟩ := List.forall_mem_cons.mp hfirst
      obtain ⟨hcalls', hsecond⟩ := List.forall_mem_cons.mp hsecond
      have htwins := h.keyCalls hcalls hcalls'
      cases hstate : (afterAll calls s).machine.runState with
      | awaitingKey => exact absurd hstate htwins.not_waiting
      | halted =>
          have hs := step_of_halted htwins.initialized hstate
          have ht := step_of_halted htwins.initialized' (htwins.runState_eq.trans hstate)
          simp only [stepsTaken, hs, ht]
          refine ⟨.nil, Or.inr ?_⟩
          rw [runState_keyCalls hcalls] at hstate
          exact hstate
      | running =>
          obtain ⟨result, s', hs, -⟩ := step_of_running htwins.initialized htwins.wellFormed
            hstate htwins.returns
          simp only [stepsTaken, hs] at hblind ⊢
          obtain ⟨hread, hblind⟩ := List.forall_mem_cons.mp hblind
          obtain ⟨result', u, t', hs', ht, hnext⟩ :=
            htwins.step hstate fun hpc hreads => hread ⟨hpc, hreads⟩
          rw [hs] at hs'
          cases hs'
          obtain ⟨hagree, hends⟩ := ih hnext (by simpa using hlength) hfirst hsecond hblind
          simp only [ht, lastState_cons, List.length_cons, Nat.add_right_cancel_iff]
          exact ⟨.cons ⟨htwins.pc_eq, htwins.wordAtPc_eq, rfl, hnext.toAlike⟩ hagree, hends⟩

/-- Two running machines that differ in their keys and their random source only take the same
steps, whatever keys are pressed in between on either side, as long as no step of the first
fetches an instruction that reads an input.  The steps find the same words at the same places,
report the same, and leave machines that differ in nothing else. -/
theorem steps_ignore_inputs
    (halike : Alike s t) (hstate : s.machine.runState = .running)
    (hinit : s.initialized = true) (hinit' : t.initialized = true)
    (hwf : s.machine.WellFormed) (hwf' : t.machine.WellFormed)
    (hreturns : s.ListenerReturns) (hreturns' : t.ListenerReturns)
    {first second : List (List (Call τ))} (hlength : first.length = second.length)
    (hfirst : ∀ calls ∈ first, ∀ call ∈ calls, call.IsKeyCall)
    (hsecond : ∀ calls ∈ second, ∀ call ∈ calls, call.IsKeyCall)
    (hblind : ∀ a ∈ stepsTaken first s, ¬ a.ReadsInputs) :
    List.Forall₂ Taken.Agrees (stepsTaken first s) (stepsTaken second t) ∧
      ((stepsTaken first s).length = first.length ∨
        (lastState s (stepsTaken first s)).machine.runState = .halted) := by
  have htwins : Twins s t :=
    { halike with
      initialized := hinit
      initialized' := hinit'
      wellFormed := hwf
      wellFormed' := hwf'
      returns := hreturns
      returns' := hreturns'
      not_waiting := by simp [hstate] }
  exact stepsTaken_agree htwins hlength hfirst hsecond hblind

/-! ## Other inputs -/

def withInputs (keys : Array Bool) (source : RandomSource) (s : Interpreter τ) :
    Interpreter τ :=
  { s with machine := s.machine.withInputs keys source }

omit [TimeScale τ] in
/-- Everything that two runs need is there when the second interpreter is the first one with
other inputs. -/
theorem Alike.self_withInputs (keys : Array Bool) (source : RandomSource) (s : Interpreter τ) :
    Alike s (s.withInputs keys source) ∧
      (s.initialized = true → (s.withInputs keys source).initialized = true) ∧
      (s.ListenerReturns → (s.withInputs keys source).ListenerReturns) :=
  ⟨.of_withInputs rfl rfl, id, id⟩

/-- A program sets a register, overwrites it with a random byte of which no bit is let
through, and returns with an empty stack.  It does so with other keys and another random source
as well. -/
theorem steps_ignore_inputs_masked :
    let s := loaded [0x6A, 0x05, 0xCA, 0x00, 0x00, 0xEE]
    let source : RandomSource := { words := #[1, 2, 3], position := 1 }
    let t := s.withInputs (Array.replicate keyCount true) source
    let first : List (List (Call Rat)) := [[.pressKey 1], [], [.setKeys [2, 3]], []]
    let second : List (List (Call Rat)) := [[], [.releaseKey 4, .pressKey 17], [], []]
    ∃ a b c a' b' c', stepsTaken first s = [a, b, c] ∧ stepsTaken second t = [a', b', c'] ∧
      a.Agrees a' ∧ b.Agrees b' ∧ c.Agrees c' ∧ c.after.machine.runState = .halted := by
  intro s source t first second
  have hwf : s.machine.WellFormed := (reachable_loaded _).intact.toWellFormed
  have hinit : s.initialized = true := initialized_loaded (by decide) (by decide)
  have hruns : s.machine.runState = .running := runState_loaded (by decide) (by decide)
  have hreturns : s.ListenerReturns := by
    rw [show s = _ from loaded_eq (by decide) (by decide)]
    intro listener hlistener
    cases hlistener
  have hrecord : ((stepsTaken first s).map fun a =>
      (a.before.machine.pc, a.before.machine.wordAtPc)) =
      [(0x200, 0x6A05), (0x202, 0xCA00), (0x204, 0x00EE)] := by
    decide +kernel
  have hblind : ∀ a ∈ stepsTaken first s, ¬ a.ReadsInputs := by decide +kernel
  have hlength : first.length = second.length := rfl
  have hcalls : ∀ calls ∈ first, ∀ call ∈ calls, call.IsKeyCall := by
    simp [first, Call.IsKeyCall]
  have hcalls' : ∀ calls ∈ second, ∀ call ∈ calls, call.IsKeyCall := by
    simp [second, Call.IsKeyCall]
  have hwf' : t.machine.WellFormed := hwf.withInputs Array.size_replicate source
  obtain ⟨halike, hinit', hreturns'⟩ : Alike s t ∧ (s.initialized = true → t.initialized = true) ∧
    (s.ListenerReturns → t.ListenerReturns) := Alike.self_withInputs _ source s
  obtain ⟨hagree, hends⟩ := steps_ignore_inputs halike hruns hinit (hinit' hinit) hwf hwf'
    hreturns (hreturns' hreturns) hlength hcalls hcalls' hblind
  obtain ⟨a, b, c, hfirst⟩ : ∃ a b c, stepsTaken first s = [a, b, c] := by
    have hthree : (stepsTaken first s).length = 3 := by simpa using congrArg List.length hrecord
    exact List.length_eq_three.mp hthree
  rw [hfirst] at hagree hends
  obtain ⟨a', rest, ha, hrest, hsecond⟩ := List.forall₂_cons_left_iff.mp hagree
  obtain ⟨b', rest', hb, hrest', rfl⟩ := List.forall₂_cons_left_iff.mp hrest
  obtain ⟨c', rest'', hc, hnil, rfl⟩ := List.forall₂_cons_left_iff.mp hrest'
  rw [List.forall₂_nil_left_iff.mp hnil] at hsecond
  have hhalted : c.after.machine.runState = .halted := hends.resolve_left (by simp [first])
  exact ⟨a, b, c, a', b', c', hfirst, hsecond, ha, hb, hc, hhalted⟩

end Interpreter

end Chip8
