import Chip8.Proofs.DoubleRange
import Chip8.Proofs.Driver

/-!
# The time that is kept in doubles

The driver adds the time that has passed to what it kept, spends a period on each step, and cuts
what is left at the time for one call's steps.  In doubles this keeps the pending time between
zero and the cut, however long a call was ahead of or behind the clock, as long as every time is
a number.  A time that is none passes through the sum, both bounds and the cut.  It is pending
from then on, and there is always time for another step.
-/

namespace Chip8

open TimeScale

namespace Interpreter

section

variable {τ : Type} [TimeScale τ] {s t : Interpreter τ}

def eachCall (p : Interpreter τ → Call τ → Bool) : List (Call τ) → Interpreter τ → Bool
  | [], _ => true
  | call :: calls, s => p s call && eachCall p calls (call.after s)

def Call.driverReturns (s : Interpreter τ) : Call τ → Bool
  | runCycles now elapsed =>
      match Interpreter.runCycles now elapsed s with
      | .ok _ _ => true
      | .error _ _ => false
  | _ => true

/-- What the spending of a period preserves, the loop preserves, also where a step fails. -/
theorem pending_drive
    {P : τ → Prop} (hspend : ∀ pending, P pending → P (atLeast (sub pending period) zero))
    (attempts steps : Nat) (h : P s.pending) : P (endState (drive attempts steps s)).pending := by
  induction attempts generalizing steps s with
  | zero => exact h
  | succ attempts ih =>
      rw [drive_spent]
      by_cases hhalted : s.machine.runState = .halted
      · rw [if_pos hhalted]
        exact h
      rw [if_neg hhalted]
      by_cases hearly : below (add s.pending slack) (period : τ) = true
      · rw [if_pos hearly]
        exact h
      rw [if_neg hearly]
      have hkept : (endState (step s.spent)).pending = s.spent.pending := by
        rw [← paced_step s.spent]
        rfl
      cases hstep : step s.spent with
      | error e u =>
          rw [hstep] at hkept
          exact hkept.symm ▸ hspend _ h
      | ok result u =>
          rw [hstep] at hkept
          exact ih (steps + 1) (hkept.symm ▸ hspend _ h)

/-- What the spending and the cut preserve, a call preserves, also where it fails. -/
theorem pending_runCycles
    {P : τ → Prop} (hspend : ∀ pending, P pending → P (atLeast (sub pending period) zero))
    {most : τ} (hmost : periods s.stepsPerCall = some most)
    (hcut : ∀ pending, P pending → P (atMost pending most)) {last : τ}
    (hlast : s.lastTick = some last) (hgoes : s.machine.runState ≠ .halted) {now : τ}
    {elapsed : Option τ} (h : P (s.timed now elapsed last).pending) :
    P (endState (runCycles now elapsed s)).pending := by
  have hdriven := pending_drive hspend s.stepsPerCall 0 h
  rw [show runCycles now elapsed s = _ from
    runCycles_of_periods hlast now elapsed hgoes hmost s.pending]
  change P (endState (match drive s.stepsPerCall 0 (s.timed now elapsed last) with
    | .ok taken u => .ok taken { u with pending := atMost u.pending most }
    | .error e u => .error e u)).pending
  cases hdrive : drive s.stepsPerCall 0 (s.timed now elapsed last) with
  | ok taken u =>
      rw [hdrive] at hdriven
      exact hcut _ hdriven
  | error e u =>
      rw [hdrive] at hdriven
      exact hdriven

end

variable {s t : Interpreter Float}

def Call.addsNumber (s : Interpreter Float) : Call Float → Bool
  | runCycles now elapsed =>
      s.isHalted || s.lastTick.all fun last => !(elapsed.getD (now - last)).isNaN
  | _ => true

/-- A pending time is a finite double between zero and the time for the steps of one call. -/
def Kept (count : Nat) (pending : Float) : Prop :=
  pending.isFinite = true ∧ 0.0 ≤ pending ∧
    pending ≤ 1.0 / 60.0 * Float.ofScientific count false 0

/-! ## One call of the driver -/

theorem isNaN_spent {pending : Float} :
    (atLeast (sub pending period) zero).isNaN = pending.isNaN := by
  rw [isNaN_atLeast (by rfl)]
  exact isNaN_sub_eq isFinite_period

theorem zero_le_spent {pending : Float} (h : 0.0 ≤ pending) :
    0.0 ≤ atLeast (sub pending period) zero := by
  apply zero_le_atLeast
  rw [← isNaN_of_zero_le h]
  exact isNaN_sub_eq isFinite_period

theorem periods_eq {count : Nat} (hcount : count < Nat.pow 2 1000) :
    periods count = some (1.0 / 60.0 * Float.ofScientific count false 0) := by
  have hbound : Nat.pow 2 1000 ≤ leastUnboundedCount := by decide +kernel
  exact if_neg (Nat.not_le.mpr (hcount.trans_le hbound))

theorem kept_atMost
    {count : Nat} (hcount : count < Nat.pow 2 1000) {pending : Float} (h : 0.0 ≤ pending) :
    Kept count (atMost pending (1.0 / 60.0 * Float.ofScientific count false 0)) := by
  obtain ⟨hfinite, hnonneg⟩ := periods_range hcount
  obtain ⟨hzero, hle⟩ := atMost_range h hnonneg
  exact ⟨isFinite_of_le hzero hle hfinite, hzero, hle⟩

section

variable (hcount : s.stepsPerCall < Nat.pow 2 1000) {last : Float}
  (hlast : s.lastTick = some last) (hgoes : s.machine.runState ≠ .halted)
  {now : Float} {elapsed : Option Float}

include hcount hlast hgoes

/-- A time that is no number stays pending, and so does one that is added. -/
theorem pending_of_isNaN
    (hnan : s.pending.isNaN = true ∨ (elapsed.getD (now - last)).isNaN = true) :
    (endState (runCycles now elapsed s)).pending.isNaN = true := by
  refine pending_runCycles (P := fun p : Float => p.isNaN = true)
    (fun p hp => isNaN_spent.trans hp) (periods_eq hcount) (fun p hp => ?_) hlast hgoes ?_
  · rwa [atMost_of_isNaN hp]
  · apply isNaN_add
    rwa [isNaN_atLeast (by rfl)]

section

variable (hzero : 0.0 ≤ s.pending) (hnumber : (elapsed.getD (now - last)).isNaN = false)

include hzero hnumber

theorem zero_le_pending : 0.0 ≤ (endState (runCycles now elapsed s)).pending := by
  refine pending_runCycles (P := fun p => 0.0 ≤ p) (fun p => zero_le_spent)
    (periods_eq hcount) (fun p hp => (kept_atMost hcount hp).2.1) hlast hgoes ?_
  exact zero_le_add hzero (zero_le_atLeast hnumber)

/-- A number that is added leaves what is kept, if the call returns. -/
theorem kept_pending {taken : Nat} (hreturn : runCycles now elapsed s = .ok taken t) :
    Kept s.stepsPerCall t.pending := by
  obtain ⟨u, hdrive, rfl⟩ := drive_of_returns hlast hgoes (periods_eq hcount) hreturn
  have hdriven : 0.0 ≤ (endState (drive s.stepsPerCall 0 (s.timed now elapsed last))).pending :=
    pending_drive (P := fun p => 0.0 ≤ p) (fun p => zero_le_spent) _ _
      (zero_le_add hzero (zero_le_atLeast hnumber))
  rw [hdrive] at hdriven
  exact kept_atMost hcount hdriven

end

/-- With a time that is no number a call takes as many steps as it may. -/
theorem taken_of_isNaN
    {taken : Nat} (hreturn : runCycles now elapsed s = .ok taken t)
    (hnan : s.pending.isNaN = true) : taken = s.stepsPerCall ∨ t.machine.runState = .halted := by
  obtain ⟨u, hdrive, rfl⟩ := drive_of_returns hlast hgoes (periods_eq hcount) hreturn
  have hspent : (endState (drive s.stepsPerCall 0 (s.timed now elapsed last))).pending.isNaN =
      true :=
    pending_drive (P := fun p : Float => p.isNaN = true) (fun p hp => isNaN_spent.trans hp) _ _
      (isNaN_add (Or.inl hnan))
  have hdriven := driven_timed hlast now elapsed s.pending
  rw [show drive s.stepsPerCall 0 (timed now elapsed last { s with pending := s.pending }) =
    .ok taken u from hdrive] at hdriven
  rw [hdrive] at hspent
  obtain ⟨taken', hle, htaken, -, -, hends⟩ := hdriven
  by_cases hall : taken' = s.stepsPerCall
  · exact Or.inl (by omega)
  rcases hends (by omega) with hhalted | hearly
  · exact Or.inr hhalted
  · have hnever : ¬ add u.pending slack < (period : Float) :=
      float_not_lt_of_isNaN (Or.inl (isNaN_add (Or.inl hspent)))
    exact absurd (below_float.mp hearly) hnever

end

/-! ## Runs -/

/-- What a part of a run does to the pending time.  Only what is kept depends on whether the calls
of the driver return. -/
structure Changes (count : Nat) (adds returned : Bool) (before after : Float) : Prop where
  isNaN_of_isNaN : before.isNaN = true → after.isNaN = true
  isNaN_of_adds : adds = false → after.isNaN = true
  zero_le : adds = true → 0.0 ≤ before → 0.0 ≤ after
  kept : adds = true → returned = true → Kept count before → Kept count after

theorem changes_call
    (hinit : s.initialized = true) (hcount : s.stepsPerCall < Nat.pow 2 1000)
    (call : Call Float) :
    Changes s.stepsPerCall (call.addsNumber s) (call.driverReturns s) s.pending
      (call.after s).pending := by
  have hsame (hpending : (call.after s).pending = s.pending) (hadds : call.addsNumber s = true) :
      Changes s.stepsPerCall (call.addsNumber s) (call.driverReturns s) s.pending
        (call.after s).pending := by
    rw [hpending, hadds]
    exact ⟨id, nofun, fun _ h => h, fun _ _ h => h⟩
  by_cases hcall : call.IsDriverCall
  · cases call with
    | runCycles now elapsed =>
        obtain ⟨last, hlast⟩ := Option.isSome_iff_exists.mp hinit
        by_cases hhalted : s.machine.runState = .halted
        · apply hsame
          · rw [Call.after, runCycles_of_halted hlast hhalted]
            rfl
          · simp [Call.addsNumber, isHalted, hhalted]
        have hadds : Call.addsNumber s (.runCycles now elapsed) =
            !(elapsed.getD (now - last)).isNaN := by
          simp [Call.addsNumber, isHalted, hhalted, hlast]
        rw [hadds, Call.after]
        refine ⟨fun hnan => pending_of_isNaN hcount hlast hhalted (Or.inl hnan), fun htime => ?_,
          fun htime hzero => ?_, fun htime hreturns hkept => ?_⟩
        · exact pending_of_isNaN hcount hlast hhalted (Or.inr (by simpa using htime))
        · exact zero_le_pending hcount hlast hhalted hzero (by simpa using htime)
        · cases hresult : runCycles now elapsed s with
          | ok taken t =>
              exact kept_pending hcount hlast hhalted hkept.2.1 (by simpa using htime) hresult
          | error e t => simp [Call.driverReturns, hresult] at hreturns
    | _ => exact hcall.elim
  · apply hsame
    · rw [← paced_after hinit hcall]
      rfl
    · cases call with
      | runCycles now elapsed => exact absurd trivial hcall
      | _ => rfl

theorem changes_run
    (hinit : s.initialized = true) (hcount : s.stepsPerCall < Nat.pow 2 1000)
    (calls : List (Call Float)) :
    Changes s.stepsPerCall (eachCall Call.addsNumber calls s)
      (eachCall Call.driverReturns calls s) s.pending (afterAll calls s).pending := by
  induction calls generalizing s with
  | nil => exact ⟨id, nofun, fun _ h => h, fun _ _ h => h⟩
  | cons call calls ih =>
      have hsame := stepsPerCall_after hinit call
      have hfirst := changes_call hinit hcount call
      have hrest := ih (initialized_after hinit call) (by rwa [hsame])
      rw [hsame] at hrest
      refine ⟨fun hnan => hrest.isNaN_of_isNaN (hfirst.isNaN_of_isNaN hnan), fun hadds => ?_,
        fun hadds hzero => ?_, fun hadds hreturns hkept => ?_⟩
      · rcases Bool.and_eq_false_iff.mp hadds with hnan | hnan
        · exact hrest.isNaN_of_isNaN (hfirst.isNaN_of_adds hnan)
        · exact hrest.isNaN_of_adds hnan
      · obtain ⟨hadds, hadds'⟩ := Bool.and_eq_true_iff.mp hadds
        exact hrest.zero_le hadds' (hfirst.zero_le hadds hzero)
      · obtain ⟨hadds, hadds'⟩ := Bool.and_eq_true_iff.mp hadds
        obtain ⟨hreturns, hreturns'⟩ := Bool.and_eq_true_iff.mp hreturns
        exact hrest.kept hadds' hreturns' (hfirst.kept hadds hreturns hkept)

/-! ## Main result -/

/-- The pending time of an interpreter, from its initialization on.  As long as the driver's calls
add numbers, infinite or negative ones too, it is at least zero, and if they all return it is also
at most the time for the steps of one call.  Once a time was added that is no number, the pending
time is none, and each later call keeps it so and takes as many steps as it may, however little
time has passed. -/
theorem pending_kept_until_isNaN
    {u : Interpreter Float} (hinit : u.initialized = false)
    (hcount : u.stepsPerCall < Nat.pow 2 1000) (first : Float) (calls : List (Call Float)) :
    let start := (Call.start first).after u
    let s := afterAll calls start
    (eachCall Call.addsNumber calls start = true →
      0.0 ≤ s.pending ∧
        (eachCall Call.driverReturns calls start = true → Kept u.stepsPerCall s.pending)) ∧
    (eachCall Call.addsNumber calls start = false →
      s.pending.isNaN = true ∧
        ∀ (now : Float) (elapsed : Option Float), s.machine.runState ≠ .halted →
          (endState (runCycles now elapsed s)).pending.isNaN = true ∧
            ∀ (taken : Nat) (t : Interpreter Float), runCycles now elapsed s = .ok taken t →
              taken = u.stepsPerCall ∨ t.machine.runState = .halted) := by
  intro start s
  have hnot : ¬ u.initialized = true := by simp [hinit]
  have hstart : start.initialized = true ∧ start.stepsPerCall = u.stepsPerCall ∧
      start.pending = 0.0 := by
    rw [show start = endState (Interpreter.start first u) from rfl, start_apply, if_neg hnot]
    exact ⟨rfl, rfl, rfl⟩
  obtain ⟨hinit', hsame, hpending⟩ := hstart
  have hend : s.initialized = true ∧ s.stepsPerCall = u.stepsPerCall := by
    refine afterAll_preserves (K := fun _ => True)
      (P := fun t => t.initialized = true ∧ t.stepsPerCall = u.stepsPerCall)
      (fun t call _ ht => ?_) (fun _ _ => trivial) ⟨hinit', hsame⟩
    exact ⟨initialized_after ht.1 call, (stepsPerCall_after ht.1 call).trans ht.2⟩
  have hzero : (0.0 : Float) ≤ 0.0 := zero_le_iff.mpr trivial
  have hchanges := changes_run hinit' (by rwa [hsame]) calls
  rw [hsame, hpending] at hchanges
  constructor
  · intro hadds
    refine ⟨hchanges.zero_le hadds hzero, fun hreturns => hchanges.kept hadds hreturns ?_⟩
    exact ⟨rfl, hzero, (periods_range hcount).2⟩
  · intro hadds
    have hnan := hchanges.isNaN_of_adds hadds
    refine ⟨hnan, fun now elapsed hgoes => ?_⟩
    obtain ⟨last, hlast⟩ := Option.isSome_iff_exists.mp hend.1
    have hcount' : s.stepsPerCall < Nat.pow 2 1000 := by rwa [hend.2]
    refine ⟨pending_of_isNaN hcount' hlast hgoes (Or.inl hnan), fun taken t hreturn => ?_⟩
    rw [← hend.2]
    exact taken_of_isNaN hcount' hlast hgoes hreturn hnan

/-- A new interpreter that counts seconds as doubles and takes five steps per call. -/
def waking : Interpreter Float where
  machine := { Machine.ofSeed 0 with random := { words := #[], position := 0 } }
  stepsPerCall := 5
  pending := zero

theorem fresh_waking : Fresh waking :=
  ⟨5, 0, none, _, { words := #[], position := 0 }, if_neg (by decide), rfl⟩

/-- An infinite time and a clock that goes back leave what is kept, and a time that is no number
does not. -/
theorem pending_kept_until_isNaN_waking :
    Kept 5 (afterAll [.runCycles 1.0 (some (1.0 / 0.0)), .restart, .runCycles 0.5 none]
      ((Call.start 0.0).after waking)).pending ∧
    (afterAll [.runCycles 1.0 (some (0.0 / 0.0)), .restart, .runCycles 1.0 (some 0.0)]
      ((Call.start 0.0).after waking)).pending.isNaN = true := by
  have hcount : waking.stepsPerCall < Nat.pow 2 1000 := by decide +kernel
  constructor
  · obtain ⟨hnumbers, -⟩ := pending_kept_until_isNaN rfl hcount 0.0
      [.runCycles 1.0 (some (1.0 / 0.0)), .restart, .runCycles 0.5 none]
    exact (hnumbers (by decide +kernel)).2 (by decide +kernel)
  · obtain ⟨-, hlost⟩ := pending_kept_until_isNaN rfl hcount 0.0
      [.runCycles 1.0 (some (0.0 / 0.0)), .restart, .runCycles 1.0 (some 0.0)]
    exact (hlost (by decide +kernel)).1

/-- The pending time is not always kept, although every call returns. -/
theorem pending_lost :
    ¬ ∀ (u : Interpreter Float) (first : Float) (calls : List (Call Float)),
      Fresh u → 1 ≤ u.stepsPerCall → u.stepsPerCall < Nat.pow 2 1000 →
      (∀ call ∈ calls, call.IsDriverCall) →
      eachCall Call.driverReturns calls ((Call.start first).after u) = true →
        Kept u.stepsPerCall (afterAll calls ((Call.start first).after u)).pending := by
  intro hall
  have hkept := hall waking 0.0 [.runCycles 1.0 (some (0.0 / 0.0))] fresh_waking (by decide)
    (by decide +kernel) (by simp [Call.IsDriverCall]) (by decide +kernel)
  have hlost : (afterAll [.runCycles 1.0 (some (0.0 / 0.0))]
      ((Call.start 0.0).after waking)).pending.isFinite = false := by
    decide +kernel
  exact absurd (hkept.1.symm.trans hlost) (by decide)

end Interpreter

end Chip8
