import Chip8.Proofs.Pace
import Chip8.Proofs.Totality

/-!
# The cycle driver

A call of the driver takes steps one after the other and changes the times.  The times decide
how many steps it takes, and nothing else: the number of steps and the state before them
determine everything but the times afterwards.
-/

namespace Chip8

namespace Interpreter

open TimeScale

variable {τ : Type} {s t : Interpreter τ}

theorem initialized_of_lastTick {last : τ} (hlast : s.lastTick = some last) :
    s.initialized = true := by
  rw [initialized, hlast]
  rfl

variable [TimeScale τ]

/-! ## Consecutive steps -/

def afterSteps (count : Nat) (s : Interpreter τ) : Interpreter τ :=
  afterAll (List.replicate count .step) s

theorem afterSteps_succ (count : Nat) (s : Interpreter τ) :
    afterSteps (count + 1) s = afterSteps count (endState (step s)) := rfl

def Proceeds (s : Interpreter τ) : Prop :=
  s.machine.runState ≠ .halted ∧ ∃ result t, step s = .ok result t

def Fails (s : Interpreter τ) (e : Error) : Prop :=
  s.machine.runState ≠ .halted ∧ ∃ t, step s = .error e t

/-- The error of a step that fails on the way is that of the listener. -/
theorem Fails.nextReply_eq
    (h : Reachable s) (hinit : s.initialized = true) {count : Nat} {e : Error}
    (hfails : (afterSteps count s).Fails e) : (afterSteps count s).nextReply = some e := by
  obtain ⟨hgoes, t, hstep⟩ := hfails
  have hinit' : (afterSteps count s).initialized = true :=
    afterAll_preserves (P := fun u => u.initialized = true) (K := fun _ => True)
      (fun u call _ hu => initialized_after hu call) (fun _ _ => trivial) hinit
  rcases step_error (h.afterAll _).intact hstep with hnot | hstopped | hreply
  · exact absurd (hinit'.symm.trans hnot) (by decide)
  · exact absurd hstopped hgoes
  · exact hreply

/-! ## The loop -/

/-- What is known of the result of the driver's loop, which has `attempts` attempts left at `s`
and has taken `steps` steps before.  No step is attempted after the machine has stopped, and
attempts are left unused only when it has or there is no time for another step. -/
def Driven (count : Nat) (last : τ) (attempts steps : Nat) (s : Interpreter τ) :
    EStateM.Result Error (Interpreter τ) Nat → Prop
  | .ok total t =>
      ∃ taken ≤ attempts, total = steps + taken ∧
        (∀ j < taken, (afterSteps j s).Proceeds) ∧
        t = (afterSteps taken s).paced count (some last) t.pending ∧
        (taken < attempts →
          t.machine.runState = .halted ∨ below (add t.pending slack) (period : τ) = true)
  | .error e t =>
      ∃ taken < attempts, (∀ j < taken, (afterSteps j s).Proceeds) ∧
        (afterSteps taken s).Fails e ∧
        t = (afterSteps (taken + 1) s).paced count (some last) t.pending

namespace Driven

variable {count attempts steps : Nat} {last pending : τ}

/-- Without a step nothing but the pace changes. -/
theorem of_ends
    (hends : 0 < attempts → s.machine.runState = .halted ∨
      below (add pending slack) (period : τ) = true) :
    Driven count last attempts steps s (.ok steps (s.paced count (some last) pending)) :=
  ⟨0, Nat.zero_le _, rfl, fun j hj => absurd hj (Nat.not_lt_zero j), rfl, hends⟩

theorem of_fails {e : Error} {u : Interpreter τ} (hgoes : s.machine.runState ≠ .halted)
    (hstep : step s = .error e u) :
    Driven count last (attempts + 1) steps s (.error e (u.paced count (some last) pending)) := by
  have hafter : afterSteps 1 s = u := by
    rw [afterSteps_succ, hstep]
    rfl
  refine ⟨0, Nat.succ_pos _, fun j hj => absurd hj (Nat.not_lt_zero j), ⟨hgoes, u, hstep⟩, ?_⟩
  rw [hafter]
  rfl

/-- A step that returns comes before those that the rest of the loop takes. -/
theorem of_step
    {result : StepResult} {r : EStateM.Result Error (Interpreter τ) Nat}
    (hgoes : s.machine.runState ≠ .halted) (hstep : step s = .ok result t)
    (h : Driven count last attempts (steps + 1) t r) :
    Driven count last (attempts + 1) steps s r := by
  have hafter (k : Nat) : afterSteps (k + 1) s = afterSteps k t := by
    rw [afterSteps_succ, hstep]
    rfl
  have hproceeds {taken : Nat} (hrest : ∀ j < taken, (afterSteps j t).Proceeds) :
      ∀ j < taken + 1, (afterSteps j s).Proceeds := by
    intro j hj
    cases j with
    | zero => exact ⟨hgoes, result, t, hstep⟩
    | succ j =>
        rw [hafter]
        exact hrest j (by omega)
  cases r with
  | ok total u =>
      obtain ⟨taken, hle, htotal, hrest, hu, hends⟩ := h
      refine ⟨taken + 1, by omega, by omega, hproceeds hrest, ?_, fun hlt => hends (by omega)⟩
      rw [hafter]
      exact hu
  | error e u =>
      obtain ⟨taken, hlt, hrest, hfails, hu⟩ := h
      refine ⟨taken + 1, by omega, hproceeds hrest, ?_, ?_⟩
      · rw [hafter]
        exact hfails
      · rw [hafter]
        exact hu

end Driven

theorem drive_succ (attempts steps count : Nat) (last : Option τ) (pending : τ) :
    drive (attempts + 1) steps (s.paced count last pending) =
      if s.machine.runState = .halted then .ok steps (s.paced count last pending)
      else if below (add pending slack) (period : τ) then .ok steps (s.paced count last pending)
      else
        match step (s.paced count last (atLeast (sub pending period) zero)) with
        | .ok _ t => drive attempts (steps + 1) t
        | .error e t => .error e t := rfl

theorem driven_drive
    (hinit : s.initialized = true) (count : Nat) (last pending : τ) (attempts steps : Nat) :
    Driven count last attempts steps s
      (drive attempts steps (s.paced count (some last) pending)) := by
  induction attempts generalizing steps s pending with
  | zero => exact .of_ends fun hpos => absurd hpos (Nat.lt_irrefl 0)
  | succ attempts ih =>
      rw [drive_succ]
      by_cases hhalted : s.machine.runState = .halted
      · rw [if_pos hhalted]
        exact .of_ends fun _ => Or.inl hhalted
      rw [if_neg hhalted]
      by_cases htimely : below (add pending slack) (period : τ) = true
      · rw [if_pos htimely]
        exact .of_ends fun _ => Or.inr htimely
      rw [if_neg htimely, step_paced hinit]
      cases hstep : step s with
      | error e t => exact .of_fails hhalted hstep
      | ok result t =>
          have hinit' : t.initialized = true := by
            have hkept := initialized_step s
            rw [hstep] at hkept
            exact hkept.trans hinit
          exact .of_step hhalted hstep (ih hinit' _ _)

/-! ## A whole call -/

section

variable {last : τ} (hlast : s.lastTick = some last) (now : τ) (elapsed : Option τ)

include hlast

theorem driven_timed (pending : τ) :
    Driven s.stepsPerCall now s.stepsPerCall 0 s
      (drive s.stepsPerCall 0 (timed now elapsed last { s with pending := pending })) :=
  driven_drive (initialized_of_lastTick hlast) _ _ _ _ _

/-- Unless the number of steps per call is too large, a call that begins with a running machine
ends like its loop, up to the time that is left. -/
theorem runCycles_of_periods
    (hstate : s.machine.runState ≠ .halted) {most : τ}
    (hmost : periods s.stepsPerCall = some most) (pending : τ) :
    runCycles now elapsed { s with pending := pending } =
      match drive s.stepsPerCall 0 (timed now elapsed last { s with pending := pending }) with
      | .ok taken u => .ok taken { u with pending := atMost u.pending most }
      | .error e u => .error e u := by
  have hdriven := driven_timed hlast now elapsed pending
  rw [runCycles_of_not_halted (s := { s with pending := pending }) hlast hstate]
  cases hresult : drive s.stepsPerCall 0 (timed now elapsed last { s with pending := pending }) with
  | error e u => rfl
  | ok taken u =>
      rw [hresult] at hdriven
      obtain ⟨taken', -, -, -, hu, -⟩ := hdriven
      have hsteps : u.stepsPerCall = s.stepsPerCall := by
        rw [hu]
        rfl
      simp only [hsteps, hmost]

variable {now elapsed} in
/-- A call that returns from a running machine drives it, and cuts the time that is left. -/
theorem drive_of_returns
    (hgoes : s.machine.runState ≠ .halted) {most : τ} (hmost : periods s.stepsPerCall = some most)
    {taken : Nat} (hreturn : runCycles now elapsed s = .ok taken t) :
    ∃ u, drive s.stepsPerCall 0 (s.timed now elapsed last) = .ok taken u ∧
      t = { u with pending := atMost u.pending most } := by
  have hcall := runCycles_of_periods hlast now elapsed hgoes hmost s.pending
  rw [hreturn] at hcall
  cases hdrive : drive s.stepsPerCall 0 (s.timed now elapsed last) with
  | error e u =>
      rw [hdrive] at hcall
      cases hcall
  | ok total u =>
      rw [hdrive] at hcall
      cases hcall
      exact ⟨u, rfl, rfl⟩

end

/-! ## The number of steps per call -/

theorem periods_of_few {count : Nat} (hfew : count < leastUnboundedCount) :
    ∃ most, periods (τ := Float) count = some most :=
  ⟨_, if_neg (Nat.not_le.mpr hfew)⟩

theorem periods_of_lt {count : Nat} (hcount : count < Nat.pow 2 1000) :
    ∃ most, periods (τ := Float) count = some most := by
  have hbound : Nat.pow 2 1000 ≤ leastUnboundedCount := by decide +kernel
  exact periods_of_few (hcount.trans_le hbound)

/-! ## Main result -/

/-- A call of the driver takes consecutive steps, as many as it returns or as it takes for one to
fail, and changes the times.  It attempts no step of a machine that has stopped, and returns
before it has used its attempts only then or when there is no time left for a step.  It fails
as the step does, which is as the listener does. -/
theorem runCycles_iterates
    {s : Interpreter Float} (h : Reachable s) {last : Float} (hlast : s.lastTick = some last)
    (hcount : s.stepsPerCall < Nat.pow 2 1000) (pending now : Float) (elapsed : Option Float) :
    let start := { s with pending := pending }
    (s.machine.runState = .halted →
        runCycles now elapsed start = .ok 0 { start with lastTick := some now }) ∧
      match runCycles now elapsed start with
      | .ok taken t =>
          taken ≤ s.stepsPerCall ∧ (∀ j < taken, (afterSteps j s).Proceeds) ∧
            t = (afterSteps taken s).paced s.stepsPerCall (some now) t.pending ∧
            (taken < s.stepsPerCall → t.machine.runState = .halted ∨
              ∃ u, drive s.stepsPerCall 0 (start.timed now elapsed last) = .ok taken u ∧
                u.pending + 1e-9 < 1.0 / 60.0)
      | .error e t =>
          ∃ taken < s.stepsPerCall, (∀ j < taken, (afterSteps j s).Proceeds) ∧
            (afterSteps taken s).Fails e ∧ (afterSteps taken s).nextReply = some e ∧
            t = (afterSteps (taken + 1) s).paced s.stepsPerCall (some now) t.pending := by
  intro start
  obtain ⟨most, hmost⟩ := periods_of_lt hcount
  have hhalts (hhalted : s.machine.runState = .halted) :
      runCycles now elapsed start = .ok 0 { start with lastTick := some now } :=
    runCycles_of_halted (s := start) hlast hhalted now elapsed
  refine ⟨hhalts, ?_⟩
  by_cases hhalted : s.machine.runState = .halted
  · rw [hhalts hhalted]
    refine ⟨Nat.zero_le _, fun j hj => absurd hj (Nat.not_lt_zero j), ?_, fun _ => Or.inl hhalted⟩
    rfl
  have hdriven := driven_timed hlast now elapsed pending
  rw [runCycles_of_periods hlast now elapsed hhalted hmost pending]
  cases hresult : drive s.stepsPerCall 0 (start.timed now elapsed last) with
  | error e t =>
      rw [hresult] at hdriven
      obtain ⟨taken, hlt, hproceeds, hfails, ht⟩ := hdriven
      have hreply := hfails.nextReply_eq h (initialized_of_lastTick hlast)
      exact ⟨taken, hlt, hproceeds, hfails, hreply, ht⟩
  | ok taken u =>
      rw [hresult] at hdriven
      obtain ⟨taken', hle, htaken, hproceeds, hu, hends⟩ := hdriven
      have hsame : taken' = taken := by omega
      rw [hsame] at hle hproceeds hu hends
      refine ⟨hle, hproceeds, ?_, fun hlt => ?_⟩
      · rw [hu]
        rfl
      · rcases hends hlt with hstopped | htimely
        · exact Or.inl hstopped
        · exact Or.inr ⟨u, rfl, of_decide_eq_true htimely⟩

def started : Interpreter Float :=
  afterAll [.start 0.0]
    { machine := { Machine.ofSeed 0 with random := { words := #[], position := 0 } }
      stepsPerCall := 5
      pending := zero }

theorem reachable_started : Reachable started := by
  refine ⟨_, [.start 0.0], ?_, rfl⟩
  exact ⟨5, 0, none, _, { words := #[], position := 0 }, if_neg (by decide), rfl⟩

theorem runCycles_iterates_started :
    ∃ t, runCycles 1.0 (some 0.05) { started with pending := 0.0 } = .ok 3 t ∧
      (∀ j < 3, (afterSteps j started).Proceeds) ∧
      t = (afterSteps 3 started).paced 5 (some 1.0) t.pending := by
  have htaken : (match runCycles 1.0 (some 0.05) { started with pending := 0.0 } with
      | .ok taken _ => taken
      | .error _ _ => 0) = 3 := by
    decide +kernel
  have hlast : started.lastTick = some 0.0 := rfl
  have hcount : started.stepsPerCall < Nat.pow 2 1000 := by decide +kernel
  have hiterates := runCycles_iterates reachable_started hlast hcount 0.0 1.0 (some 0.05)
  dsimp only at hiterates
  generalize runCycles 1.0 (some 0.05) { started with pending := 0.0 } = result at *
  obtain ⟨-, hends⟩ := hiterates
  cases result with
  | error e t => cases htaken
  | ok taken t =>
      have hthree : taken = 3 := htaken
      rw [hthree] at hends
      obtain ⟨-, hproceeds, ht, -⟩ := hends
      exact ⟨t, by rw [hthree], hproceeds, ht⟩

end Interpreter

end Chip8
