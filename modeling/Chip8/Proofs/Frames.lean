import Chip8.Interpreter.Frames
import Chip8.Proofs.Double
import Chip8.Proofs.Driver

/-!
# Frames of one cycle

A frame that is as long as a cycle takes one step, and leaves no time for another one.  So a run of
such frames is a run of single steps, however many steps a call of the driver may take.
-/

namespace Chip8

namespace Interpreter

open TimeScale

section

variable {τ : Type}

/-- The state after a number of steps, or after those until the machine stops. -/
def stepped : Nat → Interpreter τ → Interpreter τ
  | 0, s => s
  | count + 1, s => if s.isHalted then s else stepped count (endState (step s))

theorem intact_stepped {s : Interpreter τ} (h : s.machine.Intact) (count : Nat) :
    (stepped count s).machine.Intact := by
  induction count generalizing s with
  | zero => exact h
  | succ count ih =>
      rw [stepped]
      split
      · exact h
      · exact ih (intact_step h)

end

abbrev frame : Float := 1.0 / cyclesPerSecond

section

variable {s t : Interpreter Float} {result : StepResult} {count : Nat}
  (hcount : count < Nat.pow 2 1000)

/-- After one step there is no time for another one. -/
theorem drive_of_no_time (attempts taken : Nat) :
    drive attempts taken (s.paced count (some zero) zero) =
      .ok taken (s.paced count (some zero) zero) := by
  cases attempts with
  | zero => rfl
  | succ attempts =>
      have hshort : below (add (zero : Float) slack) period = true := by rfl
      rw [drive_succ, hshort, if_pos rfl]
      split <;> rfl

include hcount

/-- A frame takes one step.  It is the same double as the cycle, so all of the pending time is used
up. -/
theorem runCycles_frame
    (hinit : s.initialized = true) (hgoes : s.machine.runState ≠ .halted)
    (hstep : step s = .ok result t) (hpos : 0 < count) :
    runCycles zero (some frame) (s.paced count (some zero) zero) =
      .ok 1 (t.paced count (some zero) zero) := by
  obtain ⟨attempts, rfl⟩ := Nat.exists_eq_add_one_of_ne_zero hpos.ne'
  obtain ⟨most, hmost⟩ := periods_of_lt hcount
  have henough : below (add (add (zero : Float) (atLeast frame zero)) slack) period = false := by
    rfl
  have hnothing : atLeast (sub (add (zero : Float) (atLeast frame zero)) period) zero = zero := by
    rfl
  have hkept : atMost zero most = zero := by
    rw [atMost, periods_not_below hmost]
    rfl
  let u := s.paced (attempts + 1) (some zero) zero
  have hdrive : drive u.stepsPerCall 0 (u.timed zero (some frame) zero) =
      .ok 1 (t.paced (attempts + 1) (some zero) zero) := by
    change drive (attempts + 1) 0
      (s.paced (attempts + 1) (some zero) (add zero (atLeast frame zero))) = _
    rw [drive_succ, if_neg hgoes, henough, hnothing, step_paced hinit, hstep]
    exact drive_of_no_time attempts 1
  have hperiods : periods (τ := Float) (t.paced (attempts + 1) (some zero) zero).stepsPerCall =
      some most := hmost
  calc
    runCycles zero (some frame) u =
        .ok 1 (t.paced (attempts + 1) (some zero) (atMost zero most)) := by
      rw [runCycles_of_not_halted (s := u) rfl hgoes, hdrive]
      dsimp only
      rw [hperiods]
      rfl
    _ = .ok 1 (t.paced (attempts + 1) (some zero) zero) := by rw [hkept]

/-- A run of frames takes a step in each, until the machine stops. -/
theorem runFrames_frame
    (h : s.machine.Intact) (hreturns : s.ListenerReturns) (hinit : s.initialized = true)
    (hpos : 0 < count) (frames : Nat) :
    runFrames frame frames (s.paced count (some zero) zero) =
      .ok () ((stepped frames s).paced count (some zero) zero) := by
  induction frames generalizing s with
  | zero => rfl
  | succ frames ih =>
      have hhalted : (s.paced count (some zero) zero).isHalted = s.isHalted := rfl
      rw [runFrames, stepped, hhalted]
      split
      case isTrue => rfl
      case isFalse hgoes =>
        have hstate : s.machine.runState ≠ .halted :=
          of_decide_eq_false (Bool.eq_false_iff.mpr hgoes)
        obtain ⟨result, t, hstep⟩ := step_ok h hreturns hinit hstate
        have hnext : endState (step s) = t := by
          rw [hstep]
          rfl
        rw [runCycles_frame hcount hinit hstate hstep hpos, hnext, ← hnext]
        exact ih (intact_step h) (hreturns.step h) ((initialized_step s).trans hinit)

end

end Interpreter

end Chip8
