import Chip8.Proofs.Driver
import Mathlib.Algebra.BigOperators.Group.List.Basic
import Mathlib.Algebra.Order.Ring.Rat
import Mathlib.Tactic.Linarith

/-!
# The rate of the cycle driver

This module compares the steps that the driver takes with the time that passes, in exact
seconds.  The driver never runs ahead of the clock by more than the slack of its steps and the
time that one call may leave to the next.  If the calls come in time and the machine keeps
running, it does not fall behind by a whole period either.
-/

namespace Chip8

namespace TimeScale

/-! ## Exact seconds -/

theorem period_rat : (period : Rat) = 1 / 60 := rfl

theorem slack_rat : (slack : Rat) = 1 / 1000000000 := rfl

theorem period_pos : (0 : Rat) < period := by
  rw [period_rat]
  norm_num

theorem period_le {count : Nat} (hcount : 0 < count) : (period : Rat) ≤ count * period := by
  have hone : (1 : Rat) ≤ count := Nat.one_le_cast.mpr hcount
  exact le_mul_of_one_le_left period_pos.le hone

theorem zero_rat : (zero : Rat) = 0 := rfl

theorem add_rat (a b : Rat) : add a b = a + b := rfl

theorem sub_rat (a b : Rat) : sub a b = a - b := rfl

theorem below_rat {a b : Rat} : below a b = true ↔ a < b := decide_eq_true_iff

theorem atLeast_rat (time bound : Rat) : atLeast time bound = max time bound := by
  simp only [atLeast, below_rat, max_def_lt]

theorem atMost_rat (time bound : Rat) : atMost time bound = min time bound := by
  simp only [atMost, below_rat, min_def_lt']

end TimeScale

namespace Interpreter

open TimeScale

variable {s t : Interpreter Rat}

/-! ## The loop -/

/-- What taking steps does to the pending time: each step uses up a period of it, or less by the
slack at most. -/
structure Spends (taken : Nat) (before after : Rat) : Prop where
  nonneg : 0 ≤ after
  spent : after + taken * (period - slack) ≤ before
  kept : before ≤ after + taken * period

namespace Spends

variable {taken : Nat} {before after pending : Rat}

theorem none (h : 0 ≤ pending) : Spends 0 pending pending :=
  ⟨h, by simp, by simp⟩

/-- A step that is taken in time uses up what is left of a period, if it is not all of one. -/
theorem step
    (htimely : ¬ pending + slack < period)
    (h : Spends taken (max (pending - period) 0) after) : Spends (taken + 1) pending after := by
  obtain ⟨hnonneg, hspent, hkept⟩ := h
  have hslack : (0 : Rat) < slack := by
    rw [slack_rat]
    norm_num
  refine ⟨hnonneg, ?_, ?_⟩
  · have hused : max (pending - period) 0 ≤ pending - (period - slack) :=
      max_le (by linarith) (by linarith)
    push_cast
    linarith
  · have hleft := le_max_left (pending - period) 0
    push_cast
    linarith

end Spends

theorem drive_rat (attempts steps : Nat) (s : Interpreter Rat) :
    drive (attempts + 1) steps s =
      if s.machine.runState = .halted then .ok steps s
      else if s.pending + slack < period then .ok steps s
      else
        match step { s with pending := max (s.pending - period) 0 } with
        | .ok _ t => drive attempts (steps + 1) t
        | .error e t => .error e t := by
  simp only [drive, below_rat, add_rat, sub_rat, zero_rat, atLeast_rat]
  congr 2
  cases step { s with pending := max (s.pending - period) 0 } <;> rfl

/-- The pending time of a step's end, when it returns, is that of its beginning. -/
theorem pending_of_step {result : StepResult} (hstep : step s = .ok result t) :
    t.pending = s.pending := by
  have hpaced := congrArg Interpreter.pending (paced_step s)
  rw [hstep] at hpaced
  exact hpaced.symm

/-- The loop spends pending time on its steps.  If there are not more periods in it than
attempts, less than one period is left, unless the machine stops. -/
theorem drive_spends
    {attempts steps total : Nat} (hdrive : drive attempts steps s = .ok total t)
    (hpending : 0 ≤ s.pending) :
    ∃ taken, total = steps + taken ∧ Spends taken s.pending t.pending ∧
      (t.machine.runState ≠ .halted → s.pending < (attempts + 1) * period →
        t.pending < period) := by
  induction attempts generalizing steps s with
  | zero =>
      cases hdrive
      refine ⟨0, rfl, .none hpending, fun _ hfew => ?_⟩
      simpa using hfew
  | succ attempts ih =>
      rw [drive_rat] at hdrive
      by_cases hhalted : s.machine.runState = .halted
      · rw [if_pos hhalted] at hdrive
        cases hdrive
        exact ⟨0, rfl, .none hpending, fun hgoes => absurd hhalted hgoes⟩
      rw [if_neg hhalted] at hdrive
      by_cases htimely : s.pending + slack < period
      · rw [if_pos htimely] at hdrive
        cases hdrive
        refine ⟨0, rfl, .none hpending, fun _ _ => ?_⟩
        rw [slack_rat] at htimely
        linarith
      rw [if_neg htimely] at hdrive
      cases hstep : step { s with pending := max (s.pending - period) 0 } with
      | error e u =>
          rw [hstep] at hdrive
          cases hdrive
      | ok result u =>
          rw [hstep] at hdrive
          have hleft : u.pending = max (s.pending - period) 0 := pending_of_step hstep
          obtain ⟨taken, htotal, hspends, hends⟩ :=
            ih hdrive (hleft ▸ le_max_right _ _)
          rw [hleft] at hspends hends
          refine ⟨taken + 1, by omega, hspends.step htimely, fun hgoes hfew => hends hgoes ?_⟩
          rw [period_rat] at hfew ⊢
          push_cast at hfew
          have hnonneg : (0 : Rat) ≤ attempts := Nat.cast_nonneg attempts
          exact max_lt (by linarith) (by linarith)

/-! ## One call -/

theorem periods_rat (count : Nat) : periods count = some (count * (period : Rat)) := by
  rw [period_rat, mul_one_div]
  rfl

theorem pending_timed (now last : Rat) (elapsed : Option Rat) :
    (s.timed now elapsed last).pending = s.pending + max (elapsed.getD (now - last)) 0 := by
  rw [← atLeast_rat]
  rfl

/-- A call that returns from a running machine drives it, and keeps time for one call's steps. -/
theorem drive_of_runCycles
    {last : Rat} (hlast : s.lastTick = some last) (hgoes : s.machine.runState ≠ .halted)
    {now : Rat} {elapsed : Option Rat} {taken : Nat}
    (hreturn : runCycles now elapsed s = .ok taken t) :
    ∃ u, drive s.stepsPerCall 0 (s.timed now elapsed last) = .ok taken u ∧
      t = { u with pending := min u.pending (s.stepsPerCall * period) } := by
  obtain ⟨u, hdrive, rfl⟩ := drive_of_returns hlast hgoes (periods_rat _) hreturn
  exact ⟨u, hdrive, by rw [atMost_rat]⟩

/-- A call that returns spends the time that was left and the time that has passed since, and
leaves no more than one call may use. -/
theorem runCycles_spends
    {last : Rat} (hlast : s.lastTick = some last) {now : Rat} {elapsed : Option Rat} {taken : Nat}
    (hreturn : runCycles now elapsed s = .ok taken t)
    (hpending : 0 ≤ s.pending) (hkept : s.pending ≤ s.stepsPerCall * period) :
    0 ≤ t.pending ∧ t.pending ≤ s.stepsPerCall * period ∧
      t.pending + taken * (period - slack) ≤ s.pending + max (elapsed.getD (now - last)) 0 := by
  have hpassed := le_max_right (elapsed.getD (now - last)) 0
  by_cases hhalted : s.machine.runState = .halted
  · rw [runCycles_of_halted hlast hhalted] at hreturn
    cases hreturn
    refine ⟨hpending, hkept, ?_⟩
    push_cast
    linarith
  obtain ⟨u, hdrive, rfl⟩ := drive_of_runCycles hlast hhalted hreturn
  have hstart := s.pending_timed now last elapsed
  obtain ⟨taken', htaken, hspends, -⟩ := drive_spends hdrive (by linarith)
  rw [Nat.zero_add] at htaken
  subst htaken
  rw [hstart] at hspends
  have hleft := min_le_left u.pending (s.stepsPerCall * period)
  have hspent := hspends.spent
  refine ⟨le_min hspends.nonneg ?_, min_le_right _ _, by linarith⟩
  exact hpending.trans hkept

/-- A call that comes in time loses nothing, and leaves less than a period, unless the machine
stops. -/
theorem runCycles_keeps
    {last : Rat} (hlast : s.lastTick = some last) {now : Rat} {elapsed : Option Rat} {taken : Nat}
    (hreturn : runCycles now elapsed s = .ok taken t)
    (hgoes : s.machine.runState ≠ .halted) (hgoes' : t.machine.runState ≠ .halted)
    (hcount : 0 < s.stepsPerCall) (hpending : 0 ≤ s.pending) (hleft : s.pending < period)
    (hnonneg : 0 ≤ elapsed.getD (now - last))
    (htimely : elapsed.getD (now - last) ≤ s.stepsPerCall * period) :
    t.pending < period ∧
      s.pending + elapsed.getD (now - last) ≤ t.pending + taken * period := by
  obtain ⟨u, hdrive, rfl⟩ := drive_of_runCycles hlast hgoes hreturn
  have hstart := s.pending_timed now last elapsed
  rw [max_eq_left hnonneg] at hstart
  obtain ⟨taken', htaken, hspends, hends⟩ := drive_spends hdrive (by linarith)
  rw [Nat.zero_add] at htaken
  subst htaken
  rw [hstart] at hspends hends
  have hless : u.pending < period := hends hgoes' (by linarith)
  have hperiod : (period : Rat) ≤ s.stepsPerCall * period := period_le hcount
  have hall : min u.pending (s.stepsPerCall * period) = u.pending :=
    min_eq_left (hless.le.trans hperiod)
  dsimp only
  rw [hall]
  exact ⟨hless, hspends.kept⟩

/-! ## Runs -/

/-- A call of the driver that returned: the time that had passed, and the steps that it took. -/
structure Turn where
  elapsed : Rat
  taken : Nat
deriving DecidableEq

/-- The turn of a call, if it is one of the driver and returns.  The time that has passed is
measured by the clock unless it is given. -/
def Call.turn? (s : Interpreter Rat) : Call Rat → Option Turn
  | runCycles now elapsed =>
      match s.lastTick, Interpreter.runCycles now elapsed s with
      | some last, .ok taken _ => some ⟨elapsed.getD (now - last), taken⟩
      | _, _ => none
  | _ => none

def Call.Returns (s : Interpreter Rat) : Call Rat → Prop
  | runCycles now elapsed => ∃ taken t, Interpreter.runCycles now elapsed s = .ok taken t
  | _ => True

/-- The turns of a run, in their order. -/
def turns : List (Call Rat) → Interpreter Rat → List Turn
  | [], _ => []
  | call :: calls, s => (call.turn? s).toList ++ turns calls (call.after s)

def AllReturn : List (Call Rat) → Interpreter Rat → Prop
  | [], _ => True
  | call :: calls, s => call.Returns s ∧ AllReturn calls (call.after s)

def NeverHalts : List (Call Rat) → Interpreter Rat → Prop
  | [], s => s.machine.runState ≠ .halted
  | call :: calls, s => s.machine.runState ≠ .halted ∧ NeverHalts calls (call.after s)

instance (s : Interpreter Rat) : (call : Call Rat) → Decidable (call.Returns s)
  | .runCycles now elapsed =>
      match hcall : runCycles now elapsed s with
      | .ok taken t => .isTrue ⟨taken, t, hcall⟩
      | .error _ _ => .isFalse fun ⟨_, _, hreturn⟩ => by cases hcall.symm.trans hreturn
  | .start _ | .loadProgram _ | .loadRom _ _ | .restart | .step | .fetch | .updateTimers
  | .pressKey _ | .releaseKey _ | .setKeys _ => .isTrue trivial

instance decidableAllReturn :
    (calls : List (Call Rat)) → (s : Interpreter Rat) → Decidable (AllReturn calls s)
  | [], _ => .isTrue trivial
  | call :: calls, s =>
      have := decidableAllReturn calls (call.after s)
      inferInstanceAs (Decidable (call.Returns s ∧ AllReturn calls (call.after s)))

instance decidableNeverHalts :
    (calls : List (Call Rat)) → (s : Interpreter Rat) → Decidable (NeverHalts calls s)
  | [], s => inferInstanceAs (Decidable (s.machine.runState ≠ .halted))
  | call :: calls, s =>
      have := decidableNeverHalts calls (call.after s)
      inferInstanceAs (Decidable (_ ∧ NeverHalts calls (call.after s)))

def stepsIn (record : List Turn) : Nat :=
  (record.map Turn.taken).sum

/-- The time that passed in a list of turns.  A clock that goes back counts for nothing. -/
def timeIn (record : List Turn) : Rat :=
  (record.map fun turn => max turn.elapsed 0).sum

theorem stepsIn_append (record others : List Turn) :
    stepsIn (record ++ others) = stepsIn record + stepsIn others := by
  simp [stepsIn]

theorem timeIn_append (record others : List Turn) :
    timeIn (record ++ others) = timeIn record + timeIn others := by
  simp [timeIn]

theorem AllReturn.append
    {calls others : List (Call Rat)} (h : AllReturn (calls ++ others) s) :
    AllReturn calls s ∧ AllReturn others (afterAll calls s) := by
  induction calls generalizing s with
  | nil => exact ⟨trivial, h⟩
  | cons call calls ih =>
      obtain ⟨hcall, hrest⟩ := h
      obtain ⟨hcalls, hothers⟩ := ih hrest
      exact ⟨⟨hcall, hcalls⟩, hothers⟩

/-- Only the driver has turns, and only it changes the pending time. -/
theorem pending_of_not_driver (hinit : s.initialized = true) {call : Call Rat}
    (hcall : ¬ call.IsDriverCall) :
    (call.turn? s).toList = [] ∧ (call.after s).pending = s.pending := by
  constructor
  · cases call with
    | runCycles now elapsed => exact absurd trivial hcall
    | _ => rfl
  · rw [← paced_after hinit hcall]
    rfl

theorem turn_of_returns {last : Rat} (hlast : s.lastTick = some last) {now : Rat}
    {elapsed : Option Rat} {taken : Nat} (hreturn : runCycles now elapsed s = .ok taken t) :
    (Call.turn? s (.runCycles now elapsed)).toList = [⟨elapsed.getD (now - last), taken⟩] ∧
      (Call.runCycles now elapsed).after s = t := by
  constructor
  · simp only [Call.turn?, hlast, hreturn, Option.toList]
  · rw [Call.after, hreturn]
    rfl

theorem call_spends
    (hinit : s.initialized = true) {call : Call Rat} (hreturn : call.Returns s)
    (hpending : 0 ≤ s.pending) (hkept : s.pending ≤ s.stepsPerCall * period) :
    let record := (call.turn? s).toList
    0 ≤ (call.after s).pending ∧ (call.after s).pending ≤ s.stepsPerCall * period ∧
      (call.after s).pending + stepsIn record * (period - slack) ≤ s.pending + timeIn record := by
  intro record
  by_cases hcall : call.IsDriverCall
  · cases call with
    | runCycles now elapsed =>
        obtain ⟨last, hlast⟩ := Option.isSome_iff_exists.mp hinit
        obtain ⟨taken, t, hreturn⟩ := hreturn
        obtain ⟨hturn, hafter⟩ := turn_of_returns hlast hreturn
        have hspends := runCycles_spends hlast hreturn hpending hkept
        simpa [record, hturn, hafter, stepsIn, timeIn] using hspends
    | _ => exact hcall.elim
  · obtain ⟨hturn, hafter⟩ := pending_of_not_driver hinit hcall
    rw [hafter]
    refine ⟨hpending, hkept, ?_⟩
    simp [record, hturn, stepsIn, timeIn]

theorem NeverHalts.head {calls : List (Call Rat)} (h : NeverHalts calls s) :
    s.machine.runState ≠ .halted := by
  cases calls with
  | nil => exact h
  | cons call calls => exact h.1

/-- Every turn of a record comes in time for the steps of one call. -/
def InTime (count : Nat) (record : List Turn) : Prop :=
  ∀ turn ∈ record, 0 ≤ turn.elapsed ∧ turn.elapsed ≤ count * period

instance (count : Nat) (record : List Turn) : Decidable (InTime count record) :=
  inferInstanceAs (Decidable (∀ turn ∈ record, _ ∧ _))

/-- A call in time loses nothing. -/
theorem call_keeps
    (hinit : s.initialized = true) (hcount : 0 < s.stepsPerCall) {call : Call Rat}
    (hreturn : call.Returns s) (htimely : InTime s.stepsPerCall (call.turn? s).toList)
    (hgoes : s.machine.runState ≠ .halted) (hgoes' : (call.after s).machine.runState ≠ .halted)
    (hpending : 0 ≤ s.pending) (hleft : s.pending < period) :
    let record := (call.turn? s).toList
    (call.after s).pending < period ∧
      s.pending + timeIn record ≤ (call.after s).pending + stepsIn record * period := by
  intro record
  by_cases hcall : call.IsDriverCall
  · cases call with
    | runCycles now elapsed =>
        obtain ⟨last, hlast⟩ := Option.isSome_iff_exists.mp hinit
        obtain ⟨taken, t, hreturn⟩ := hreturn
        obtain ⟨hturn, hafter⟩ := turn_of_returns hlast hreturn
        rw [hturn] at htimely
        rw [hafter] at hgoes'
        obtain ⟨hnonneg, hbound⟩ := List.forall_mem_singleton.mp htimely
        have hkeeps := runCycles_keeps hlast hreturn hgoes hgoes' hcount hpending hleft
          hnonneg hbound
        simpa [record, hturn, hafter, stepsIn, timeIn, max_eq_left hnonneg] using hkeeps
    | _ => exact hcall.elim
  · obtain ⟨hturn, hafter⟩ := pending_of_not_driver hinit hcall
    rw [hafter]
    refine ⟨hleft, ?_⟩
    simp [record, hturn, stepsIn, timeIn]

/-- A run spends the time that was left at its beginning and the time that passes during it. -/
theorem run_spends
    (hinit : s.initialized = true) {calls : List (Call Rat)} (hreturn : AllReturn calls s)
    (hpending : 0 ≤ s.pending) (hkept : s.pending ≤ s.stepsPerCall * period) :
    let record := turns calls s
    0 ≤ (afterAll calls s).pending ∧ (afterAll calls s).pending ≤ s.stepsPerCall * period ∧
      (afterAll calls s).pending + stepsIn record * (period - slack) ≤
        s.pending + timeIn record := by
  induction calls generalizing s with
  | nil =>
      refine ⟨hpending, hkept, ?_⟩
      simp [turns, stepsIn, timeIn, afterAll]
  | cons call calls ih =>
      obtain ⟨hfirst, hrest⟩ := hreturn
      obtain ⟨hpending', hkept', hspent⟩ := call_spends hinit hfirst hpending hkept
      have hcount := stepsPerCall_after hinit call
      obtain ⟨hnonneg, hleft, hspent'⟩ :=
        ih (initialized_after hinit call) hrest hpending' (by rwa [hcount])
      rw [hcount] at hleft
      refine ⟨hnonneg, hleft, ?_⟩
      rw [turns, stepsIn_append, timeIn_append]
      push_cast
      have hafter : afterAll (call :: calls) s = afterAll calls (call.after s) := rfl
      rw [hafter]
      linarith

/-- A run whose calls come in time loses nothing. -/
theorem run_keeps
    (hinit : s.initialized = true) (hcount : 0 < s.stepsPerCall) {calls : List (Call Rat)}
    (hreturn : AllReturn calls s) (htimely : InTime s.stepsPerCall (turns calls s))
    (hgoes : NeverHalts calls s) (hpending : 0 ≤ s.pending) (hleft : s.pending < period) :
    let record := turns calls s
    (afterAll calls s).pending < period ∧
      s.pending + timeIn record ≤ (afterAll calls s).pending + stepsIn record * period := by
  induction calls generalizing s with
  | nil =>
      refine ⟨hleft, ?_⟩
      simp [turns, stepsIn, timeIn, afterAll]
  | cons call calls ih =>
      obtain ⟨hfirst, hrest⟩ := hreturn
      obtain ⟨hgoes, hgoes'⟩ := hgoes
      obtain ⟨hfirstTimely, hrestTimely⟩ := List.forall_mem_append.mp htimely
      have hnext := hgoes'.head
      have hperiod : (period : Rat) ≤ s.stepsPerCall * period := period_le hcount
      obtain ⟨hpending', -, -⟩ := call_spends hinit hfirst hpending (hleft.le.trans hperiod)
      obtain ⟨hleft', hkept⟩ :=
        call_keeps hinit hcount hfirst hfirstTimely hgoes hnext hpending hleft
      have hcount' := stepsPerCall_after hinit call
      obtain ⟨hless, hkept'⟩ :=
        ih (initialized_after hinit call) (by rwa [hcount']) hrest (by rwa [hcount']) hgoes'
          hpending' hleft'
      refine ⟨hless, ?_⟩
      rw [turns, stepsIn_append, timeIn_append]
      push_cast
      have hafter : afterAll (call :: calls) s = afterAll calls (call.after s) := rfl
      rw [hafter]
      linarith

/-! ## Main result -/

/-- The steps that the driver takes against the time that passes, in exact seconds.  However long
the machine was left alone, the calls of any part of a run take no more steps than the time that
passed in it and one call's periods allow, if the slack of each step is taken off its period.
Counted from the beginning of a run they take no more than the time alone allows.  And if all
calls from the beginning come in time and the machine keeps running, they take all the steps
there was time for. -/
theorem driver_rate
    {u : Interpreter Rat} (hnew : u.initialized = false) (hcount : 0 < u.stepsPerCall) (now : Rat)
    {earlier block : List (Call Rat)}
    (hreturn : AllReturn (earlier ++ block) ((Call.start now).after u)) :
    let origin := (Call.start now).after u
    let first := turns earlier origin
    let next := turns block (afterAll earlier origin)
    stepsIn next * (period - slack) ≤ u.stepsPerCall * period + timeIn next ∧
      stepsIn first * (period - slack) ≤ timeIn first ∧
      (InTime u.stepsPerCall first → NeverHalts earlier origin →
        timeIn first < (stepsIn first + 1) * period) := by
  intro origin first next
  have horigin : origin.initialized = true ∧ origin.stepsPerCall = u.stepsPerCall ∧
      origin.pending = 0 := by
    have hstart := start_apply now u
    rw [if_neg (Bool.eq_false_iff.mp hnew)] at hstart
    simp only [origin, Call.after, hstart]
    exact ⟨rfl, rfl, rfl⟩
  obtain ⟨hinit, hsteps, hpending⟩ := horigin
  have hperiod : (period : Rat) ≤ u.stepsPerCall * period := period_le hcount
  obtain ⟨hearlier, hblock⟩ := hreturn.append
  obtain ⟨hnonneg, hkept, hspent⟩ :=
    run_spends hinit hearlier hpending.ge (by rw [hpending, hsteps]; linarith [period_pos])
  refine ⟨?_, by linarith, fun htimely hgoes => ?_⟩
  · have hlater : (afterAll earlier origin).initialized = true ∧
        (afterAll earlier origin).stepsPerCall = u.stepsPerCall := by
      refine afterAll_preserves (K := fun _ => True)
        (P := fun t => t.initialized = true ∧ t.stepsPerCall = u.stepsPerCall)
        (fun t call _ ht => ?_) (fun _ _ => trivial) ⟨hinit, hsteps⟩
      exact ⟨initialized_after ht.1 call, (stepsPerCall_after ht.1 call).trans ht.2⟩
    obtain ⟨hinit', hsteps'⟩ := hlater
    rw [hsteps] at hkept
    obtain ⟨hnonneg', -, hspent'⟩ := run_spends hinit' hblock hnonneg (by rwa [hsteps'])
    linarith
  · rw [← hsteps] at hcount htimely
    obtain ⟨hless, hall⟩ :=
      run_keeps hinit hcount hearlier htimely hgoes hpending.ge (by linarith [period_pos])
    linarith

/-- After a thirtieth and a sixtieth of a second there were three steps.  Five seconds later there
are three more, as that is what one call takes. -/
theorem driver_rate_stalled :
    let u : Interpreter Rat := { blank with stepsPerCall := 3 }
    let origin := (Call.start 0).after u
    let earlier : List (Call Rat) :=
      [.runCycles 1 (some (1 / 30)), .pressKey 5, .runCycles 2 (some (1 / 60))]
    let block : List (Call Rat) := [.runCycles 7 none]
    u.initialized = false ∧ 0 < u.stepsPerCall ∧ AllReturn (earlier ++ block) origin ∧
      turns earlier origin = [⟨1 / 30, 2⟩, ⟨1 / 60, 1⟩] ∧
      turns block (afterAll earlier origin) = [⟨5, 3⟩] ∧
      InTime u.stepsPerCall (turns earlier origin) ∧ NeverHalts earlier origin ∧
      (3 : Nat) * (period - slack : Rat) ≤ (3 : Nat) * period + timeIn [⟨5, 3⟩] ∧
      timeIn [⟨1 / 30, 2⟩, ⟨1 / 60, 1⟩] < ((3 : Nat) + 1) * period := by
  intro u origin earlier block
  have hnew : u.initialized = false := rfl
  have hcount : 0 < u.stepsPerCall := by decide
  have hrun : AllReturn (earlier ++ block) origin ∧
      turns earlier origin = [⟨1 / 30, 2⟩, ⟨1 / 60, 1⟩] ∧
      turns block (afterAll earlier origin) = [⟨5, 3⟩] ∧
      InTime u.stepsPerCall (turns earlier origin) ∧ NeverHalts earlier origin := by
    decide +kernel
  obtain ⟨hreturn, hfirst, hnext, htimely, hgoes⟩ := hrun
  obtain ⟨hblock, -, hkept⟩ := driver_rate hnew hcount 0 hreturn
  have hkept := hkept htimely hgoes
  rw [hnext] at hblock
  rw [hfirst] at hkept
  exact ⟨hnew, hcount, hreturn, hfirst, hnext, htimely, hgoes, hblock, hkept⟩

end Interpreter

end Chip8
