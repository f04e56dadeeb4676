import Chip8.Proofs.CallStack
import Chip8.Proofs.Rejection
import Chip8.Proofs.Totality

/-!
# The stream of random bytes

The random source of a machine belongs to one operation.  So the bytes that a program draws are
those of the seeded source, one after the other, whatever happens in between.
-/

namespace Chip8

theorem RandomSource.after_nextByte (source : RandomSource) (n : Nat) :
    source.nextByte.2.after n = source.after (n + 1) := by
  induction n with
  | zero => rfl
  | succ n ih => rw [after, ih, ← after]

namespace Interpreter

open Machine TimeScale

variable {τ : Type} {s t : Interpreter τ}

/-! ## One step -/

/-- A step that draws a byte puts it into a register, as far as the mask lets it through. -/
theorem draws_of_executes (h : s.machine.Intact) (hdraws : s.executes? = some .random) :
    (endState (step s)).machine.random = s.machine.random.nextByte.2 ∧
      (endState (step s)).machine.held (Field.ofWord s.machine.wordAtPc .x) =
        (s.machine.random.nextByte.1 &&&
          UInt8.ofInt (Field.ofWord s.machine.wordAtPc .nn)).toNat := by
  obtain ⟨hinit, hstate, hfine, hword⟩ := executes?_eq_some_iff.mp hdraws
  obtain ⟨hpc, hfine⟩ := not_or.mp (faultsNext_iff.not.mp hfine)
  obtain ⟨cycles, delay, sound, hmachine⟩ :=
    machine_step_of_completes hinit h.toWellFormed hstate (by omega) hfine
  rw [hmachine, hword]
  refine ⟨rfl, ?_⟩
  set byte : UInt8 := s.machine.random.nextByte.1 &&&
    UInt8.ofInt (Field.ofWord s.machine.wordAtPc .nn)
  have hlt := byte.toNat_lt
  calc
    _ = (byte.toNat : Int) % 256 :=
      held_holding (m := { s.machine.fetched with random := s.machine.random.nextByte.2 })
        h.size_v (isRegister_x _) _
    _ = byte.toNat := by omega

theorem random_of_not_executes (h : s.machine.Intact) (hdraws : s.executes? ≠ some .random) :
    (endState (step s)).machine.random = s.machine.random := by
  have hfinish (pc : Int) (decoded : Option Decoded) (u : Interpreter τ) :
      (endState (finish pc decoded u)).machine.random = u.machine.random := by
    obtain ⟨delay, sound, hmachine⟩ := machine_finish pc decoded u
    rw [hmachine]
  cases way h with
  | uninitialized hinit =>
      rw [step_of_not_initialized hinit]
      rfl
  | stopped hinit hstate =>
      rw [step_of_halted hinit hstate]
      rfl
  | waits hinit hstate hkey =>
      rw [step_waits hinit hstate hkey]
      rfl
  | resumes hinit hstate key hkey number hwaits hnumber =>
      rw [step_resumes hinit hstate hkey hwaits hnumber]
      exact hfinish _ _ _
  | unfetched hinit hstate hpc =>
      obtain ⟨cause, hfaults⟩ := step_fetch_faults hinit h.toWellFormed hstate hpc
      rw [hfaults]
      rfl
  | faults hinit hstate hpc hfault =>
      obtain ⟨cause, hfaults⟩ := step_faults hinit h.toWellFormed hstate hpc hfault
      rw [hfaults, Operation.remnant_eq]
      rfl
  | completes hinit hstate hpc hfine =>
      obtain ⟨cycles, delay, sound, hmachine⟩ :=
        machine_step_of_completes hinit h.toWellFormed hstate hpc hfine
      have hother : s.machine.operation ≠ .random := by
        intro hword
        apply hdraws
        rw [executes?_eq_some_iff, faultsNext_iff]
        exact ⟨hinit, hstate, not_or.mpr ⟨by omega, hfine⟩, hword⟩
      rw [hmachine]
      have hrandom := Operation.random_effect s.machine.operation s.machine.wordAtPc
        s.machine.fetched
      rw [if_neg hother] at hrandom
      exact hrandom

/-! ## The steps of a run -/

section

variable [TimeScale τ]

def loopStates : Nat → Interpreter τ → List (Interpreter τ)
  | 0, _ => []
  | attempts + 1, s =>
      if s.machine.runState = .halted then []
      else if below (add s.pending slack) (period : τ) then []
      else
        let u := { s with pending := atLeast (sub s.pending period) zero }
        u ::
          match step u with
          | .ok _ t => loopStates attempts t
          | .error _ _ => []

def Call.stepStates (s : Interpreter τ) : Call τ → List (Interpreter τ)
  | step => [s]
  | runCycles now elapsed =>
      match s.lastTick with
      | none => []
      | some last =>
          if s.machine.runState = .halted then []
          else loopStates s.stepsPerCall (s.timed now elapsed last)
  | _ => []

/-- The states that a run takes its steps from, by itself and in calls of the driver. -/
def stepStates : List (Call τ) → Interpreter τ → List (Interpreter τ)
  | [], _ => []
  | call :: calls, s => call.stepStates s ++ stepStates calls (call.after s)

end

/-- The random source goes from one state to another in the course of a list of steps. -/
def Streams : RandomSource → List (Interpreter τ) → RandomSource → Prop
  | first, [], last => first = last
  | first, u :: record, last =>
      u.machine.Intact ∧ u.machine.random = first ∧
        Streams (endState (step u)).machine.random record last

section

variable {first between last : RandomSource} {record others : List (Interpreter τ)}

theorem Streams.append (h : Streams first record between) (hothers : Streams between others last) :
    Streams first (record ++ others) last := by
  induction record generalizing first with
  | nil =>
      have hsame : first = between := h
      rw [hsame]
      exact hothers
  | cons u record ih =>
      obtain ⟨hintact, hrandom, hrest⟩ := h
      exact ⟨hintact, hrandom, ih hrest⟩

/-- The states of a list from which a byte is drawn. -/
def drawing (record : List (Interpreter τ)) : List (Interpreter τ) :=
  record.filter fun u => u.executes? = some .random

/-- The states that draw bytes find the source after as many draws as there were before. -/
theorem Streams.drawing_eq (h : Streams first record last) :
    last = first.after (drawing record).length ∧
      ∀ (k : Nat) (u : Interpreter τ), (drawing record)[k]? = some u →
        u.machine.Intact ∧ u.executes? = some .random ∧ u.machine.random = first.after k := by
  induction record generalizing first with
  | nil =>
      have hsame : first = last := h
      refine ⟨hsame.symm, fun k u hu => ?_⟩
      simp [drawing] at hu
  | cons v record ih =>
      obtain ⟨hintact, hrandom, hrest⟩ := h
      obtain ⟨hlast, hdraws⟩ := ih hrest
      by_cases hv : v.executes? = some .random
      · have hmore : drawing (v :: record) = v :: drawing record :=
          List.filter_cons_of_pos (decide_eq_true hv)
        obtain ⟨hnext, -⟩ := draws_of_executes hintact hv
        rw [hnext, hrandom] at hlast hdraws
        rw [hmore]
        refine ⟨?_, fun k u hu => ?_⟩
        · rw [hlast, RandomSource.after_nextByte]
          rfl
        · cases k with
          | zero =>
              cases hu
              exact ⟨hintact, hv, hrandom⟩
          | succ k =>
              rw [← RandomSource.after_nextByte]
              exact hdraws k u hu
      · have hsame : drawing (v :: record) = drawing record :=
          List.filter_cons_of_neg (by simpa using hv)
        rw [random_of_not_executes hintact hv, hrandom] at hlast hdraws
        rw [hsame]
        exact ⟨hlast, hdraws⟩

end

/-! ## Calls -/

variable [TimeScale τ]

/-- Calls that take no steps draw nothing. -/
theorem random_after
    {call : Call τ} (hstep : call ≠ .step) (hdriver : ¬ call.IsDriverCall) :
    (call.after s).machine.random = s.machine.random := by
  have hkeys (hkey : call.IsKeyCall) : (call.after s).machine.random = s.machine.random := by
    obtain ⟨keys, hkeys⟩ := after_of_isKeyCall hkey s
    rw [hkeys]
  cases call with
  | start now =>
      rw [Call.after, start_apply]
      split <;> rfl
  | loadProgram program =>
      obtain ⟨memory, length, hmachine⟩ := machine_loadProgram program s
      rw [Call.after, hmachine]
  | loadRom reader path =>
      obtain ⟨memory, length, hmachine⟩ := machine_loadRom reader path s
      rw [Call.after, hmachine]
  | restart =>
      rw [Call.after, restart_apply]
      rfl
  | step => exact absurd rfl hstep
  | runCycles now elapsed => exact absurd trivial hdriver
  | fetch =>
      obtain ⟨word, hfetch⟩ := endState_fetch s.machine
      rw [Call.after, machine_onMachine, hfetch]
  | updateTimers =>
      rcases machine_updateTimers s with hmachine | hmachine
      · rw [Call.after, hmachine]
        rfl
      · rw [Call.after, hmachine]
        rfl
  | pressKey key => exact hkeys trivial
  | releaseKey key => exact hkeys trivial
  | setKeys keys => exact hkeys trivial

theorem streams_loop (h : s.machine.Intact) (attempts taken : Nat) :
    Streams s.machine.random (loopStates attempts s)
      (endState (drive attempts taken s)).machine.random := by
  induction attempts generalizing s taken with
  | zero => rfl
  | succ attempts ih =>
      unfold loopStates drive
      by_cases hhalted : s.machine.runState = .halted
      · rw [if_pos hhalted, if_pos hhalted]
        rfl
      rw [if_neg hhalted, if_neg hhalted]
      by_cases htimely : below (add s.pending slack) (period : τ) = true
      · rw [if_pos htimely, if_pos htimely]
        rfl
      rw [if_neg htimely, if_neg htimely]
      refine ⟨h, rfl, ?_⟩
      have hintact : (endState (step
          { s with pending := atLeast (sub s.pending period) zero })).machine.Intact :=
        intact_step h
      cases hstep : step { s with pending := atLeast (sub s.pending period) zero } with
      | error e t => rfl
      | ok result t =>
          rw [hstep] at hintact
          exact ih hintact (taken + 1)

theorem streams_call (h : s.machine.Intact) (call : Call τ) :
    Streams s.machine.random (call.stepStates s) (call.after s).machine.random := by
  have hquiet (hstep : call ≠ .step) (hdriver : ¬ call.IsDriverCall) :
      s.machine.random = (call.after s).machine.random := (random_after hstep hdriver).symm
  cases call with
  | step => exact ⟨h, rfl, rfl⟩
  | runCycles now elapsed =>
      cases hlast : s.lastTick with
      | none =>
          simp only [Call.stepStates, Call.after, runCycles, hlast]
          rfl
      | some last =>
          simp only [Call.stepStates, Call.after, hlast]
          by_cases hhalted : s.machine.runState = .halted
          · rw [if_pos hhalted, runCycles_of_halted hlast hhalted]
            rfl
          have hloop := streams_loop (s := s.timed now elapsed last) h s.stepsPerCall 0
          rw [if_neg hhalted, runCycles_of_not_halted hlast hhalted]
          cases hdrive : drive s.stepsPerCall 0 (s.timed now elapsed last) with
          | error e t =>
              rw [hdrive] at hloop
              exact hloop
          | ok taken t =>
              rw [hdrive] at hloop
              dsimp only
              cases periods (τ := τ) t.stepsPerCall <;> exact hloop
  | _ => exact hquiet (by simp) id

theorem streams_run (h : s.machine.Intact) (calls : List (Call τ)) :
    Streams s.machine.random (stepStates calls s) (afterAll calls s).machine.random := by
  induction calls generalizing s with
  | nil => rfl
  | cons call calls ih => exact (streams_call h call).append (ih (intact_after h call))

/-! ## Main result -/

/-- A byte under a mask has no bits outside of the mask. -/
theorem testBit_of_masked {byte : UInt8} {mask : Int} (hmask : IsByte mask) {i : Nat}
    (h : (byte &&& UInt8.ofInt mask).toNat.testBit i = true) : mask.toNat.testBit i = true := by
  have hvalue : (UInt8.ofInt mask).toNat = mask.toNat := by
    have hvalue := toNat_ofInt_of_isByte hmask
    omega
  rw [UInt8.toNat_and, Nat.testBit_and, Bool.and_eq_true, hvalue] at h
  exact h.2

/-- The bytes that a program draws.  Over a whole life, which may include starts, loads, restarts,
faults and waits, the instructions that draw a byte get those of the seeded source in their order,
and nothing else draws one.  Each puts its byte into a register, under its mask. -/
theorem draws_in_order
    {stepsPerCall seed : Int} {listener : Option Listener} {first : Interpreter τ}
    (hcreate : create stepsPerCall seed listener = .ok first) (calls : List (Call τ)) :
    let source := RandomSource.ofSeed seed
    let record := stepStates calls first
    (afterAll calls first).machine.random = source.after (drawing record).length ∧
      ∀ (k : Nat) (u : Interpreter τ), (drawing record)[k]? = some u →
        let mask := Field.ofWord u.machine.wordAtPc .nn
        let value := (endState (step u)).machine.held (Field.ofWord u.machine.wordAtPc .x)
        source.Draws k (source.byteAt k) ∧
          value = (source.byteAt k &&& UInt8.ofInt mask).toNat ∧
          ∀ i, value.toNat.testBit i = true → mask.toNat.testBit i = true := by
  intro source record
  have hsource : first.machine.random = source := by
    rw [eq_of_create hcreate]
    rfl
  obtain ⟨hlast, hdraws⟩ := (streams_run (intact_fresh (fresh_of_create hcreate)) calls).drawing_eq
  rw [hsource] at hlast hdraws
  refine ⟨hlast, fun k u hu => ?_⟩
  intro mask value
  obtain ⟨hintact, hexecutes, hrandom⟩ := hdraws k u hu
  have hvalue : value = (source.byteAt k &&& UInt8.ofInt mask).toNat := by
    obtain ⟨-, hheld⟩ := draws_of_executes hintact hexecutes
    rw [hrandom] at hheld
    exact hheld
  refine ⟨RandomSource.draws_byteAt_ofSeed seed k, hvalue, fun i hbit => ?_⟩
  have hmask : IsByte mask := by
    obtain ⟨hnonneg, hlt⟩ := Field.ofWord_range u.machine.wordAtPc .nn
    exact ⟨hnonneg, Int.le_of_lt_add_one hlt⟩
  rw [hvalue, Int.toNat_natCast] at hbit
  exact testBit_of_masked hmask hbit

/-- A program waits for a key and then runs into a word without meaning.  After a start over the
next program draws under a mask, and the register gets the upper half of the first byte. -/
theorem draws_in_order_restarted :
    let first : Interpreter Rat :=
      { machine := .ofSeed 0, stepsPerCall := 1, listener := none, pending := zero }
    let calls : List (Call Rat) :=
      [.start 0, .loadProgram [0xF2, 0x0A, 0x50, 0x01], .step, .pressKey 3, .runCycles 1 none,
        .step, .restart, .loadProgram [0x00, 0xE0, 0xC5, 0xF0], .step, .step]
    create 1 0 none = .ok first ∧
      ∃ u, drawing (stepStates calls first) = [u] ∧ u.machine.wordAtPc = 0xC5F0 ∧
        (endState (step u)).machine.held 5 =
          ((RandomSource.ofSeed 0).byteAt 0 &&& 0xF0).toNat := by
  intro first calls
  have hcreate : create 1 0 none = .ok first := rfl
  have hwords : (drawing (stepStates calls first)).map (·.machine.wordAtPc) = [0xC5F0] := by
    decide +kernel
  obtain ⟨u, hdrawing, hword⟩ := List.map_eq_singleton_iff.mp hwords
  obtain ⟨-, hdraws⟩ := draws_in_order hcreate calls
  obtain ⟨-, hvalue, -⟩ := hdraws 0 u (by rw [hdrawing]; rfl)
  rw [hword] at hvalue
  exact ⟨hcreate, u, hdrawing, hword, hvalue⟩

end Interpreter

end Chip8
