import Chip8.Proofs.Invariant

/-!
# Steps do not fail inside

A step of a reachable interpreter is refused before the interpreter is initialized and after
its machine has stopped.  Otherwise it returns, unless the listener for beeps fails in it.
In particular no operation is unknown to the registry, none misses an operand, and none goes
beyond a table in a way that is not a fault of the machine.
-/

namespace Chip8

namespace Field

/-- The values of a field in an instruction word lie below this. -/
def bound : Field → Int
  | x | y | n => 16
  | nn => 256
  | nnn => 4096

theorem ofWord_range (word : Int) (field : Field) :
    0 ≤ ofWord word field ∧ ofWord word field < field.bound := by
  cases field <;> simp only [ofWord, bound] <;> omega

end Field

/-- Whatever fails in an instruction is a fault of the machine. -/
theorem Registry.run_decode_error
    {m m' : Machine} (h : m.WellFormed) {word : Int} {e : Error}
    (herror : run (decode word) m = .error e m') : ∃ cause, e = .fault cause := by
  by_cases hfault : (Operation.ofWord word).Faults word m
  · obtain ⟨cause, -, hrun⟩ := run_decode_faults h word hfault
    rw [hrun] at herror
    cases herror
    exact ⟨cause, rfl⟩
  · rw [run_decode_completes h word hfault] at herror
    cases herror

namespace Interpreter

variable {τ : Type} {s : Interpreter τ}

/-- The listener, if there is one, never fails. -/
def ListenerReturns (s : Interpreter τ) : Prop :=
  ∀ listener, s.listener = some listener → ∀ call, listener.reply call = none

theorem ListenerReturns.nextReply_eq_none (h : s.ListenerReturns) : s.nextReply = none := by
  unfold nextReply
  cases hlistener : s.listener with
  | none => rfl
  | some listener => exact h listener hlistener listener.calls

/-! ## The listener stays the same -/

/-- What the listener answers to each call, if there is one. -/
def replies (s : Interpreter τ) : Option (Nat → Option Error) :=
  s.listener.map Listener.reply

theorem listenerReturns_iff :
    s.ListenerReturns ↔ ∀ reply ∈ s.replies, ∀ call, reply call = none := by
  simp [ListenerReturns, replies]

@[simp] theorem replies_afterBeep (s : Interpreter τ) : s.afterBeep.replies = s.replies := by
  unfold afterBeep
  split
  next hlistener => simp [replies, hlistener]
  next listener hlistener => simp [replies, hlistener]

theorem replies_updateTimers (s : Interpreter τ) :
    (endState (updateTimers s)).replies = s.replies := by
  have hbeep := replies_afterBeep { s with machine := s.machine.delayTicked }
  rw [updateTimers_apply]
  dsimp only
  split
  · cases s.nextReply with
    | none => exact hbeep
    | some e => exact hbeep
  · rfl

/-- A step may call the listener, but does not exchange it. -/
theorem replies_step (h : s.machine.Intact) : (endState (step s)).replies = s.replies := by
  have hfinish (pc : Int) (decoded : Option Decoded) (t : Interpreter τ) :
      (endState (finish pc decoded t)).replies = t.replies := by
    rw [endState_finish]
    exact replies_updateTimers t.counted
  cases way h with
  | uninitialized hinit =>
      rw [step_of_not_initialized hinit]
      rfl
  | stopped hinit hstate =>
      rw [step_of_halted hinit hstate]
      rfl
  | waits hinit hstate hkey =>
      rw [step_waits hinit hstate hkey]
      rfl
  | resumes hinit hstate key hkey number hwaits hnumber =>
      rw [step_resumes hinit hstate hkey hwaits hnumber]
      exact hfinish _ _ _
  | unfetched hinit hstate hpc =>
      obtain ⟨cause, hfaults⟩ := step_fetch_faults hinit h.toWellFormed hstate hpc
      rw [hfaults]
      rfl
  | faults hinit hstate hpc hfault =>
      obtain ⟨cause, hfaults⟩ := step_faults hinit h.toWellFormed hstate hpc hfault
      rw [hfaults]
      rfl
  | completes hinit hstate hpc hfine =>
      rw [step_completes hinit h.toWellFormed hstate hpc hfine]
      split
      · exact hfinish _ _ _
      · rfl

theorem ListenerReturns.step (hreturns : s.ListenerReturns) (h : s.machine.Intact) :
    (endState (step s)).ListenerReturns := by
  rw [listenerReturns_iff, replies_step h, ← listenerReturns_iff]
  exact hreturns

/-! ## Failing steps -/

/-- What makes a step fail. -/
theorem step_error
    (h : s.machine.Intact) {e : Error} {t : Interpreter τ} (hstep : step s = .error e t) :
    s.initialized = false ∨ s.machine.runState = .halted ∨ s.nextReply = some e := by
  cases way h with
  | uninitialized hinit => exact Or.inl hinit
  | stopped hinit hstate => exact Or.inr (Or.inl hstate)
  | waits hinit hstate hkey =>
      rw [step_waits hinit hstate hkey] at hstep
      cases hstep
  | resumes hinit hstate key hkey number hwaits hnumber =>
      rw [step_resumes hinit hstate hkey hwaits hnumber] at hstep
      have hreply := finish_error hstep
      exact Or.inr (Or.inr hreply)
  | unfetched hinit hstate hpc =>
      obtain ⟨cause, hfaults⟩ := step_fetch_faults hinit h.toWellFormed hstate hpc
      rw [hfaults] at hstep
      cases hstep
  | faults hinit hstate hpc hfault =>
      obtain ⟨cause, hfaults⟩ := step_faults hinit h.toWellFormed hstate hpc hfault
      rw [hfaults] at hstep
      cases hstep
  | completes hinit hstate hpc hfine =>
      rw [step_completes hinit h.toWellFormed hstate hpc hfine] at hstep
      split at hstep
      · have hreply := finish_error hstep
        exact Or.inr (Or.inr hreply)
      · cases hstep

/-- A step of a machine that has not stopped returns if the listener does. -/
theorem step_ok
    (h : s.machine.Intact) (hreturns : s.ListenerReturns) (hinit : s.initialized = true)
    (hstate : s.machine.runState ≠ .halted) : ∃ result t, step s = .ok result t := by
  cases hstep : step s with
  | ok result t => exact ⟨result, t, rfl⟩
  | error e t =>
      rcases step_error h hstep with hnot | hstopped | hreply
      · exact absurd (hinit.symm.trans hnot) (by decide)
      · exact absurd hstopped hstate
      · rw [hreturns.nextReply_eq_none] at hreply
        cases hreply

theorem eq_of_step_error
    (h : s.machine.Intact) (hreturns : s.ListenerReturns) {e : Error} {t : Interpreter τ}
    (hstep : step s = .error e t) : t = s := by
  have hrefused : s.initialized = false ∨ s.machine.runState = .halted := by
    rcases step_error h hstep with hnot | hstopped | hreply
    · exact Or.inl hnot
    · exact Or.inr hstopped
    · rw [hreturns.nextReply_eq_none] at hreply
      cases hreply
  by_cases hinit : s.initialized = true
  · rw [step_of_halted hinit (hrefused.resolve_left (by simp [hinit]))] at hstep
    cases hstep
    rfl
  · rw [step_of_not_initialized (Bool.eq_false_iff.mpr hinit)] at hstep
    cases hstep
    rfl

/-- A step of a reachable interpreter returns whenever it may be taken and the listener does
not fail.  It is refused exactly before the interpreter is initialized and after its machine
has stopped, and then nothing changes. -/
theorem step_returns_unless_refused [TimeScale τ] (h : Reachable s) :
    (s.initialized = true → s.machine.runState ≠ .halted → s.ListenerReturns →
      ∃ result t, step s = .ok result t) ∧
    (s.initialized = false → step s = .error .notInitialized s) ∧
    (s.initialized = true → s.machine.runState = .halted → step s = .error .halted s) ∧
    (∀ e t, step s = .error e t →
      s.initialized = false ∨ s.machine.runState = .halted ∨ s.nextReply = some e) ∧
    (∀ word, ∃ handler, Registry.standard.handler? (decode word).key = some handler ∧
      ((decode word).valid = true → ∀ field, ∃ value,
        (decode word).operands.get? field = some value ∧ 0 ≤ value ∧ value < field.bound) ∧
      ∀ m : Machine, m.WellFormed → ∀ e m', handler (decode word).operands m = .error e m' →
        ∃ cause, e = .fault cause) ∧
    (s.machine.runState = .awaitingKey →
      ∃ number, s.machine.keyRegister = some number ∧ Machine.IsRegister number) := by
  have hintact := h.intact
  refine ⟨?_, step_of_not_initialized, step_of_halted, fun e t => step_error hintact, ?_,
    hintact.waits⟩
  · intro hinit hstate hlistener
    cases hresult : step s with
    | ok result t => exact ⟨result, t, rfl⟩
    | error e t =>
        rcases step_error hintact hresult with hnot | hhalted | hreply
        · rw [hinit] at hnot
          cases hnot
        · exact absurd hhalted hstate
        · rw [hlistener.nextReply_eq_none] at hreply
          cases hreply
  · intro word
    have hhandler : Registry.standard.handler? (decode word).key =
        some (Operation.ofWord word).perform := Registry.handler?_standard _
    refine ⟨_, hhandler, ?_, ?_⟩
    · intro hvalid field
      obtain ⟨hnonneg, hlt⟩ := Field.ofWord_range word field
      refine ⟨Field.ofWord word field, ?_, hnonneg, hlt⟩
      rw [Decoded.operands_eq hvalid, Operands.get?_ofWord]
    · intro m hwf e m' herror
      apply Registry.run_decode_error hwf (e := e)
      rw [Registry.run, Registry.execute, hhandler]
      exact herror

theorem step_returns_unless_refused_blank :
    ∃ result t, step (afterAll [.start 0] blank) = .ok result t :=
  (step_returns_unless_refused ⟨blank, [.start 0], fresh_blank, rfl⟩).1 rfl (by decide)
    fun _ h => by cases h

end Interpreter

end Chip8
