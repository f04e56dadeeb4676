import Chip8.Proofs.Beginning
import Chip8.Proofs.Ending
import Chip8.Proofs.Totality

/-!
# The timers over whole runs

Both timers count down by one in each completed cycle, in the cycle that sets one of them as
well.  So the value of a timer is known from the last value it was given and the number of
completed cycles since then, whatever other steps there were in between.
-/

namespace Chip8

namespace Machine

inductive Timer where
  | delay
  | sound

namespace Timer

def value (m : Machine) : Timer → Int
  | delay => m.delay
  | sound => m.sound

def setter : Timer → Operation
  | delay => .setDelay
  | sound => .setSound

/-- What a timer shows at the end of the next instruction, before it is counted down. -/
def due (m : Machine) (timer : Timer) : Int :=
  if m.runState = .running ∧ m.operation = timer.setter then m.held (Field.ofWord m.wordAtPc .x)
  else timer.value m

theorem value_nonneg {m : Machine} (h : m.WellFormed) (timer : Timer) : 0 ≤ timer.value m := by
  cases timer with
  | delay => exact h.delay_range.1
  | sound => exact h.sound_range.1

theorem due_nonneg {m : Machine} (h : m.WellFormed) (timer : Timer) : 0 ≤ timer.due m := by
  unfold due
  split
  · exact (h.held_range _).1
  · exact value_nonneg h timer

theorem due_of_unset {m : Machine} {timer : Timer}
    (h : ¬ (m.runState = .running ∧ m.operation = timer.setter)) : timer.due m = timer.value m :=
  if_neg h

theorem due_of_set {m : Machine} {timer : Timer}
    (h : m.runState = .running ∧ m.operation = timer.setter) :
    timer.due m = m.held (Field.ofWord m.wordAtPc .x) :=
  if_pos h

end Timer

theorem countedDown_eq {timer : Int} (h : 0 ≤ timer) : countedDown timer = max (timer - 1) 0 := by
  unfold countedDown
  split <;> omega

theorem countedDown_nonneg {timer : Int} (h : 0 ≤ timer) : 0 ≤ countedDown timer := by
  rw [countedDown_eq h]
  omega

end Machine

namespace Interpreter

open Machine

variable {τ : Type} {s t : Interpreter τ} {result : StepResult}

/-! ## One step -/

/-- A completed cycle: the state it began in, what it reported, and the state it ended in. -/
structure Cycle (τ : Type) where
  before : Interpreter τ
  result : StepResult
  after : Interpreter τ

namespace Cycle

/-- The cycle carried out an instruction with a given operation.  A cycle that ended a wait
carried out none. -/
def Executes (c : Cycle τ) (operation : Operation) : Prop :=
  c.before.machine.runState = .running ∧ c.before.machine.operation = operation

instance (c : Cycle τ) (operation : Operation) : Decidable (c.Executes operation) :=
  inferInstanceAs (Decidable (_ ∧ _))

def x (c : Cycle τ) : Int :=
  Field.ofWord c.before.machine.wordAtPc .x

/-- What a cycle does to the timers, and to the register that the delay timer is read into. -/
structure Ticks (c : Cycle τ) : Prop where
  value_after : ∀ timer : Timer,
    timer.value c.after.machine = countedDown (timer.due c.before.machine)
  beeped_iff : c.result.beeped = true ↔ Timer.sound.due c.before.machine = 1
  nonneg : ∀ timer : Timer, 0 ≤ timer.due c.before.machine
  held_after : c.Executes .readDelay →
    c.after.machine.held c.x = Timer.delay.value c.before.machine

end Cycle

/-- The timers return only when both have been counted down. -/
theorem updateTimers_ok {beeped : Bool} (h : updateTimers s = .ok beeped t) :
    (∀ timer : Timer, timer.value t.machine = countedDown (timer.value s.machine)) ∧
      (beeped = true ↔ s.machine.sound = 1) := by
  rw [updateTimers_apply] at h
  dsimp only at h
  by_cases hsound : s.machine.sound = 1
  · rw [if_pos hsound] at h
    cases hreply : s.nextReply with
    | none =>
        rw [hreply] at h
        cases h
        exact ⟨fun timer => by cases timer <;> rfl, iff_of_true rfl hsound⟩
    | some e =>
        rw [hreply] at h
        cases h
  · rw [if_neg hsound] at h
    cases h
    exact ⟨fun timer => by cases timer <;> rfl, iff_of_false (by decide) hsound⟩

/-- A step that reads the delay timer finds it as the step before has left it. -/
theorem held_of_readDelay
    (h : s.machine.Intact) (hinit : s.initialized = true) (hstate : s.machine.runState = .running)
    (hpc : s.machine.pc ≤ 0xFFE) (hword : s.machine.operation = .readDelay) :
    (endState (step s)).machine.held (Field.ofWord s.machine.wordAtPc .x) = s.machine.delay := by
  have hfine : ¬ s.machine.operation.Faults s.machine.wordAtPc s.machine := by
    rw [hword]
    exact id
  obtain ⟨cycles, delay, sound, hmachine⟩ :=
    machine_step_of_completes hinit h.toWellFormed hstate hpc hfine
  have hrange := h.delay_range
  rw [hmachine, hword]
  calc
    _ = s.machine.delay % 256 := held_holding (m := s.machine.fetched) h.size_v (isRegister_x _) _
    _ = s.machine.delay := by omega

/-- A step that executes an instruction has fetched it. -/
theorem pc_le_of_executed
    (h : s.machine.Intact) (hstep : step s = .ok result t) (hexecuted : result.executed = true)
    (hstate : s.machine.runState = .running) :
    s.initialized = true ∧ s.machine.pc ≤ 0xFFE := by
  cases way h with
  | uninitialized hinit =>
      rw [step_of_not_initialized hinit] at hstep
      cases hstep
  | stopped hinit hstopped => simp [hstate] at hstopped
  | waits hinit hwaits => simp [hstate] at hwaits
  | resumes hinit hwaits => simp [hstate] at hwaits
  | unfetched hinit hstate hpc =>
      obtain ⟨cause, hfaults⟩ := step_fetch_faults hinit h.toWellFormed hstate hpc
      rw [hfaults] at hstep
      cases hstep
      cases hexecuted
  | faults hinit hstate hpc hfault => exact ⟨hinit, hpc⟩
  | completes hinit hstate hpc hfine => exact ⟨hinit, hpc⟩

theorem ticks_of_step
    (h : s.machine.Intact) (hstep : step s = .ok result t) (hexecuted : result.executed = true) :
    Cycle.Ticks ⟨s, result, t⟩ := by
  obtain ⟨⟨ending, hending⟩, -⟩ := ending_of_step h hstep
  have hending : Ending.executed.Describes s result t := by
    cases ending with
    | executed => exact hending
    | _ => simp [Ending.Describes, hexecuted] at hending
  obtain ⟨-, -, -, u, hdelay, hsound, -, htimers⟩ := hending
  obtain ⟨hvalues, hbeeped⟩ := updateTimers_ok htimers
  have hdue (timer : Timer) : timer.value u.machine = timer.due s.machine := by
    cases timer with
    | delay => exact hdelay
    | sound => exact hsound
  refine ⟨fun timer => ?_, ?_, fun timer => ?_, fun hreads => ?_⟩
  · rw [hvalues, hdue]
  · rw [hbeeped, ← hdue]
    rfl
  · exact Timer.due_nonneg h.toWellFormed timer
  · obtain ⟨hstate, hword⟩ := hreads
    obtain ⟨hinit, hpc⟩ := pc_le_of_executed h hstep hexecuted hstate
    have hheld := held_of_readDelay h hinit hstate hpc hword
    rw [hstep] at hheld
    exact hheld

/-- A step that completes no cycle leaves the timers alone. -/
theorem value_of_not_executed
    (h : s.machine.Intact) (hstep : step s = .ok result t) (hexecuted : result.executed = false)
    (timer : Timer) : timer.value t.machine = timer.value s.machine := by
  obtain ⟨⟨ending, hending⟩, -⟩ := ending_of_step h hstep
  cases ending with
  | executed =>
      rw [hending.1] at hexecuted
      cases hexecuted
  | stalled =>
      obtain ⟨-, -, -, -, -, hmachine⟩ := hending
      rw [hmachine]
      cases timer <;> rfl
  | suspended =>
      obtain ⟨-, -, -, -, -, hmachine⟩ := hending
      rw [hmachine]
      cases timer <;> rfl
  | waited =>
      obtain ⟨-, -, -, -, rfl⟩ := hending
      rfl
  | faulted =>
      obtain ⟨-, -, -, -, hdelay, hsound⟩ := hending
      cases timer with
      | delay => exact hdelay
      | sound => exact hsound

/-! ## Lists of cycles -/

/-- A timer goes from one value to another in the course of a list of cycles. -/
def Counts (timer : Timer) : Int → List (Cycle τ) → Int → Prop
  | first, [], last => first = last
  | first, c :: record, last =>
      timer.value c.before.machine = first ∧ Counts timer (timer.value c.after.machine) record last

section

variable {timer : Timer} {first last : Int} {c : Cycle τ} {record others : List (Cycle τ)}

theorem Counts.of_append (h : Counts timer first (record ++ others) last) :
    ∃ between, Counts timer first record between ∧ Counts timer between others last := by
  induction record generalizing first with
  | nil => exact ⟨first, rfl, h⟩
  | cons c record ih =>
      obtain ⟨hfirst, hrest⟩ := h
      obtain ⟨between, hbefore, hafter⟩ := ih hrest
      exact ⟨between, ⟨hfirst, hbefore⟩, hafter⟩

/-- Without being set, a timer is counted down by one in each cycle. -/
theorem Counts.eq_max
    (h : Counts timer first record last) (hticks : ∀ c ∈ record, c.Ticks)
    (hunset : ∀ c ∈ record, ¬ c.Executes timer.setter) (hfirst : 0 ≤ first) :
    last = max (first - record.length) 0 := by
  induction record generalizing first with
  | nil =>
      have hsame : first = last := h
      rw [← hsame, List.length_nil]
      omega
  | cons c record ih =>
      obtain ⟨hvalue, hrest⟩ := h
      obtain ⟨htick, hticks⟩ := List.forall_mem_cons.mp hticks
      obtain ⟨hset, hunset⟩ := List.forall_mem_cons.mp hunset
      have hafter : timer.value c.after.machine = countedDown first := by
        rw [htick.value_after, Timer.due_of_unset hset, hvalue]
      rw [hafter] at hrest
      have hlast := ih hrest hticks hunset (countedDown_nonneg hfirst)
      rw [hlast, countedDown_eq hfirst, List.length_cons]
      push_cast
      omega

/-- After a cycle that sets it, a timer shows what it was set to, counted down once. -/
theorem Counts.after_set
    (h : Counts timer first (record ++ c :: others) last) (htick : c.Ticks)
    (hset : c.Executes timer.setter) :
    0 ≤ c.before.machine.held c.x ∧
      Counts timer (countedDown (c.before.machine.held c.x)) others last := by
  obtain ⟨-, -, -, hrest⟩ := h.of_append
  have hdue : timer.due c.before.machine = c.before.machine.held c.x := Timer.due_of_set hset
  have hnonneg := htick.nonneg timer
  rw [htick.value_after, hdue] at hrest
  rw [hdue] at hnonneg
  exact ⟨hnonneg, hrest⟩

/-- From a value of the sound timer there is one beep, in the cycle that counts the last one. -/
structure SoundsOnce (value : Int) (record : List (Cycle τ)) : Prop where
  beeped_iff : ∀ (k : Nat) (c : Cycle τ), record[k]? = some c →
    (c.result.beeped = true ↔ (k + 1 : Int) = value)
  countP_beeped : (record.countP fun c => c.result.beeped) =
    if 1 ≤ value ∧ value ≤ record.length then 1 else 0

theorem SoundsOnce.nil {value : Int} : SoundsOnce value ([] : List (Cycle τ)) := by
  refine ⟨fun k c hc => by simp at hc, ?_⟩
  rw [if_neg]
  · rfl
  · rw [List.length_nil]
    omega

theorem SoundsOnce.cons
    {value : Int} (hvalue : 0 ≤ value) (hbeeped : c.result.beeped = true ↔ value = 1)
    (hrest : SoundsOnce (countedDown value) record) : SoundsOnce value (c :: record) := by
  have hcounted := countedDown_eq hvalue
  constructor
  · intro k d hd
    cases k with
    | zero =>
        cases hd
        rw [hbeeped]
        omega
    | succ k =>
        have hlater := hrest.beeped_iff k d hd
        rw [hlater]
        push_cast
        omega
  · rw [List.countP_cons, hrest.countP_beeped, List.length_cons]
    push_cast
    by_cases hone : value = 1
    · rw [if_pos (hbeeped.mpr hone), if_neg (by omega), if_pos (by omega)]
    · rw [if_neg (hbeeped.not.mpr hone), Nat.add_zero]
      congr 1
      apply propext
      constructor <;> omega

/-- While the sound timer is not set, there is one beep. -/
theorem Counts.soundsOnce
    (h : Counts .sound first record last) (hticks : ∀ c ∈ record, c.Ticks)
    (hunset : ∀ c ∈ record, ¬ c.Executes Timer.sound.setter) (hfirst : 0 ≤ first) :
    SoundsOnce first record := by
  induction record generalizing first with
  | nil => exact .nil
  | cons c record ih =>
      obtain ⟨hvalue, hrest⟩ := h
      obtain ⟨htick, hticks⟩ := List.forall_mem_cons.mp hticks
      obtain ⟨hset, hunset⟩ := List.forall_mem_cons.mp hunset
      have hdue : Timer.sound.due c.before.machine = first :=
        (Timer.due_of_unset hset).trans hvalue
      rw [htick.value_after, hdue] at hrest
      apply SoundsOnce.cons hfirst
      · rw [htick.beeped_iff, hdue]
      · exact ih hrest hticks hunset (countedDown_nonneg hfirst)

end

/-! ## Runs -/

/-- The cycle that a call completes, if it is a step that executes. -/
def Call.cycle? (s : Interpreter τ) : Call τ → Option (Cycle τ)
  | step =>
      match Interpreter.step s with
      | .ok result t => if result.executed then some ⟨s, result, t⟩ else none
      | .error _ _ => none
  | _ => none

variable [TimeScale τ]

def cycles : List (Call τ) → Interpreter τ → List (Cycle τ)
  | [], _ => []
  | call :: calls, s => (call.cycle? s).toList ++ cycles calls (call.after s)

/-- A call completes a cycle, or it leaves the timers alone. -/
inductive CallTicks (s : Interpreter τ) (call : Call τ) : Prop where
  | completes (result : StepResult) (hcycle : call.cycle? s = some ⟨s, result, call.after s⟩)
      (hticks : Cycle.Ticks ⟨s, result, call.after s⟩)
  | idle (hcycle : call.cycle? s = none)
      (hsame : ∀ timer : Timer, timer.value (call.after s).machine = timer.value s.machine)

theorem callTicks_step (h : s.machine.Intact) (hreturns : s.ListenerReturns) :
    CallTicks s .step := by
  have hafter : Call.step.after s = endState (step s) := rfl
  cases hstep : step s with
  | ok result t =>
      rw [hstep] at hafter
      cases hexecuted : result.executed with
      | true =>
          refine .completes result ?_ ?_
          · simp only [Call.cycle?, hstep, hexecuted, if_true, hafter, endState]
          · rw [hafter]
            exact ticks_of_step h hstep hexecuted
      | false =>
          refine .idle ?_ fun timer => ?_
          · simp [Call.cycle?, hstep, hexecuted]
          · rw [hafter]
            exact value_of_not_executed h hstep hexecuted timer
  | error e t =>
      refine .idle ?_ fun timer => ?_
      · simp only [Call.cycle?, hstep]
      · rw [hafter, hstep, eq_of_step_error h hreturns hstep]
        rfl

theorem callTicks_of_isKeyCall {call : Call τ} (hcall : call.IsKeyCall) : CallTicks s call := by
  obtain ⟨keys, hkeys⟩ := after_of_isKeyCall hcall s
  refine .idle ?_ fun timer => ?_
  · cases call with
    | step => exact hcall.elim
    | _ => rfl
  · rw [hkeys]
    cases timer <;> rfl

/-- In the cycles that a run completes the timers count down to what it leaves of them. -/
theorem counts_cycles
    (h : Reachable s) (hreturns : s.ListenerReturns) {calls : List (Call τ)}
    (hcalls : ∀ call ∈ calls, call = .step ∨ call.IsKeyCall) :
    (∀ c ∈ cycles calls s, c.Ticks) ∧
      ∀ timer : Timer, Counts timer (timer.value s.machine) (cycles calls s)
        (timer.value (afterAll calls s).machine) := by
  induction calls generalizing s with
  | nil => exact ⟨by simp [cycles], fun timer => rfl⟩
  | cons call calls ih =>
      obtain ⟨hcall, hcalls⟩ := List.forall_mem_cons.mp hcalls
      have hnext : CallTicks s call ∧ (call.after s).ListenerReturns := by
        rcases hcall with rfl | hkeyCall
        · exact ⟨callTicks_step h.intact hreturns, hreturns.step h.intact⟩
        · obtain ⟨keys, hkeys⟩ := after_of_isKeyCall hkeyCall s
          exact ⟨callTicks_of_isKeyCall hkeyCall, by rwa [hkeys]⟩
      obtain ⟨hticks, hcounts⟩ := ih (h.afterAll [call]) hnext.2 hcalls
      cases hnext.1 with
      | completes result hcycle htick =>
          rw [cycles, hcycle]
          exact ⟨List.forall_mem_cons.mpr ⟨htick, hticks⟩, fun timer => ⟨rfl, hcounts timer⟩⟩
      | idle hcycle hsame =>
          rw [cycles, hcycle]
          refine ⟨hticks, fun timer => ?_⟩
          rw [← hsame timer]
          exact hcounts timer

/-! ## Main result -/

/-- The timers over a run of steps and key calls.  While it is not set, the delay timer loses one
for each completed cycle, and so does the sound timer, which is heard in the cycle that counts its
last one.  A set delay timer is read as what is left of it after the cycles since, its own
included, and a set sound timer is heard once unless it is set again before. -/
theorem timers_count_down
    (h : Reachable s) (hreturns : s.ListenerReturns) {calls : List (Call τ)}
    (hcalls : ∀ call ∈ calls, call = .step ∨ call.IsKeyCall) :
    let record := cycles calls s
    let last := (afterAll calls s).machine
    ((∀ c ∈ record, ¬ c.Executes .setDelay) →
        last.delay = max (s.machine.delay - record.length) 0) ∧
      ((∀ c ∈ record, ¬ c.Executes .setSound) →
        last.sound = max (s.machine.sound - record.length) 0 ∧
          SoundsOnce s.machine.sound record) ∧
      (∀ (earlier : List (Cycle τ)) (c : Cycle τ) (between : List (Cycle τ)) (d : Cycle τ)
          (later : List (Cycle τ)), record = earlier ++ c :: (between ++ d :: later) →
        c.Executes .setDelay → (∀ e ∈ between, ¬ e.Executes .setDelay) →
        d.Executes .readDelay →
        d.after.machine.held d.x =
          max (c.before.machine.held c.x - (between.length + 1 : Int)) 0) ∧
      (∀ (earlier : List (Cycle τ)) (c : Cycle τ) (following later : List (Cycle τ)),
        record = earlier ++ c :: (following ++ later) →
        c.Executes .setSound → (∀ e ∈ following, ¬ e.Executes .setSound) →
        SoundsOnce (c.before.machine.held c.x) (c :: following)) := by
  intro record last
  obtain ⟨hticks, hcounts⟩ := counts_cycles h hreturns hcalls
  have hwf := h.intact.toWellFormed
  refine ⟨fun hunset => ?_, fun hunset => ⟨?_, ?_⟩, ?_, ?_⟩
  · exact (hcounts .delay).eq_max hticks hunset hwf.delay_range.1
  · exact (hcounts .sound).eq_max hticks hunset hwf.sound_range.1
  · exact (hcounts .sound).soundsOnce hticks hunset hwf.sound_range.1
  · intro earlier c between d later hrecord hset hunset hreads
    have hcount := hcounts .delay
    rw [show cycles calls s = _ from hrecord] at hticks hcount
    obtain ⟨hnonneg, hrest⟩ := hcount.after_set (hticks c (by simp)) hset
    obtain ⟨left, hbetween, hread, -⟩ := hrest.of_append
    have hleft := hbetween.eq_max (fun e he => hticks e (by simp [he])) hunset
      (countedDown_nonneg hnonneg)
    have hheld := (hticks d (by simp)).held_after hreads
    rw [hheld, hread, hleft, countedDown_eq hnonneg]
    omega
  · intro earlier c following later hrecord hset hunset
    have hcount := hcounts .sound
    rw [show cycles calls s = _ from hrecord] at hticks hcount
    have htick := hticks c (by simp)
    obtain ⟨hnonneg, hrest⟩ := hcount.after_set htick hset
    obtain ⟨left, hfollowing, -⟩ := hrest.of_append
    apply SoundsOnce.cons hnonneg
    · have hdue : Timer.sound.due c.before.machine = c.before.machine.held c.x :=
        Timer.due_of_set hset
      rw [htick.beeped_iff, hdue]
    · exact hfollowing.soundsOnce (fun e he => hticks e (by simp [he])) hunset
        (countedDown_nonneg hnonneg)

/-- A program sets the sound timer and then the delay timer to three.  The next instruction reads
two from the delay timer, and in its cycle the sound timer is heard. -/
theorem timers_count_down_tune :
    let s := loaded [0x60, 0x03, 0xF0, 0x18, 0xF0, 0x15, 0xF1, 0x07]
    let calls : List (Call Rat) := [.step, .step, .pressKey 3, .step, .step]
    s.ListenerReturns ∧ (∀ call ∈ calls, call = .step ∨ call.IsKeyCall) ∧
      ∃ a b c d, cycles calls s = [a, b, c, d] ∧ b.Executes .setSound ∧ c.Executes .setDelay ∧
        d.Executes .readDelay ∧ d.after.machine.held 1 = 2 ∧
        b.result.beeped = false ∧ c.result.beeped = false ∧ d.result.beeped = true := by
  intro s calls
  have hreturns : s.ListenerReturns := by
    rw [show s = loaded _ from rfl, loaded_eq (by decide) (by decide)]
    intro listener hlistener
    cases hlistener
  have hcalls : ∀ call ∈ calls, call = .step ∨ call.IsKeyCall := by simp [calls, Call.IsKeyCall]
  have hrecord : ((cycles calls s).map fun c => (c.before.machine.operation, c.x,
      c.before.machine.runState, c.before.machine.held c.x)) =
      [(.loadByte, 0, .running, 0), (.setSound, 0, .running, 3), (.setDelay, 0, .running, 3),
        (.readDelay, 1, .running, 0)] := by
    decide +kernel
  obtain ⟨-, -, hdelay, hsound⟩ := timers_count_down (reachable_loaded _) hreturns hcalls
  obtain ⟨a, b, c, d, hcycles⟩ : ∃ a b c d, cycles calls s = [a, b, c, d] := by
    generalize cycles calls s = record at hrecord
    rcases record with _ | ⟨a, _ | ⟨b, _ | ⟨c, _ | ⟨d, _ | ⟨e, record⟩⟩⟩⟩⟩
    all_goals simp at hrecord
    exact ⟨a, b, c, d, rfl⟩
  rw [hcycles] at hrecord hdelay hsound
  simp only [List.map_cons, List.map_nil, List.cons.injEq, Prod.mk.injEq, and_true] at hrecord
  obtain ⟨-, ⟨hbword, -, hbstate, hbheld⟩, ⟨hcword, -, hcstate, hcheld⟩, hdword, hdx, hdstate, -⟩ :=
    hrecord
  have hread := hdelay [a, b] c [] d [] rfl ⟨hcstate, hcword⟩ (by simp) ⟨hdstate, hdword⟩
  rw [hdx, hcheld] at hread
  have hsounds := hsound [a] b [c, d] [] rfl ⟨hbstate, hbword⟩ (by
    simp [Cycle.Executes, hcword, hdword])
  rw [hbheld] at hsounds
  refine ⟨hreturns, hcalls, a, b, c, d, hcycles, ⟨hbstate, hbword⟩, ⟨hcstate, hcword⟩,
    ⟨hdstate, hdword⟩, hread, ?_, ?_, ?_⟩
  · exact Bool.eq_false_iff.mpr ((hsounds.beeped_iff 0 b rfl).not.mpr (by decide))
  · exact Bool.eq_false_iff.mpr ((hsounds.beeped_iff 1 c rfl).not.mpr (by decide))
  · exact (hsounds.beeped_iff 2 d rfl).mpr (by decide)

end Interpreter

end Chip8
