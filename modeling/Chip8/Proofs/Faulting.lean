import Chip8.Proofs.Beginning
import Chip8.Proofs.Invariant

/-!
# Steps that fault

This module says exactly when a step of a reachable interpreter faults, and what is left of
the machine then.  An instruction that faults in the middle of its work has done a part of
it: a store has written the bytes below the end of memory, a load has read them, and a
sprite is drawn up to the first cell that fails.
-/

namespace Chip8

namespace Operation

/-! ## What a fault leaves, cell by cell -/

def byteLeft (operation : Operation) (word : Int) (m : Machine) (address : Nat) (byte : UInt8) :
    UInt8 :=
  let value := m.held (Field.ofWord word .x)
  match operation with
  | storeDecimal =>
      if address = m.i then .ofInt (value / 100)
      else if address = m.i + 1 then .ofInt (value / 10 % 10)
      else if address = m.i + 2 then .ofInt (value % 10)
      else byte
  | storeRegisters =>
      if m.i ≤ address ∧ address ≤ m.i + Field.ofWord word .x then .ofInt (m.held (address - m.i))
      else byte
  | _ => byte

def valueLeft (operation : Operation) (word : Int) (m : Machine) (number : Nat) (value : Int) :
    Int :=
  let x := m.held (Field.ofWord word .x)
  let y := m.held (Field.ofWord word .y)
  match operation with
  | loadRegisters =>
      if number ≤ Field.ofWord word .x ∧ m.i + number ≤ 0xFFF then
        (m.memory.getD (m.i + number).toNat 0).toNat
      else value
  | draw =>
      if number = flagRegister then
        if ∃ cell ∈ m.flips x y (Machine.spriteCells (Field.ofWord word .n).toNat),
            m.lit (x + cell.2).toNat (y + cell.1).toNat = true then 1
        else 0
      else value
  | _ => value

def pixelLeft (operation : Operation) (word : Int) (m : Machine) (column row : Nat) (lit : Bool) :
    Bool :=
  let x := m.held (Field.ofWord word .x)
  let y := m.held (Field.ofWord word .y)
  match operation with
  | draw =>
      if ∃ cell ∈ m.flips x y (Machine.spriteCells (Field.ofWord word .n).toNat),
          x + cell.2 = column ∧ y + cell.1 = row then !lit
      else lit
  | _ => lit

end Operation

namespace Machine

theorem overlay_eq_mapIdx (table : Array UInt8) (place : Nat) (bytes : List UInt8) :
    overlay table place bytes =
      table.mapIdx fun a byte => if place ≤ a then bytes.getD (a - place) byte else byte := by
  apply Array.ext_getElem?
  intro a
  rw [getElem?_overlay, Array.getElem?_mapIdx]
  by_cases ha : a < table.size
  · have hcell : table[a]? = some table[a] := Array.getElem?_eq_getElem ha
    rw [hcell]
    by_cases hplace : place ≤ a
    · by_cases hin : a < place + bytes.length
      · have hoffset : a - place < bytes.length := by omega
        rw [if_pos ⟨hplace, hin, ha⟩]
        simp [hplace, hoffset]
      · have hoffset : bytes.length ≤ a - place := by omega
        rw [if_neg fun h => hin h.2.1]
        simp [hplace, hoffset]
    · rw [if_neg fun h => hplace h.1]
      simp [hplace]
  · have hcell : table[a]? = none := Array.getElem?_eq_none (by omega)
    rw [if_neg fun h => ha h.2.2, hcell]
    rfl

theorem mapIdx_self {α : Type} (table : Array α) : (table.mapIdx fun _ cell => cell) = table := by
  apply Array.ext
  · simp
  · intro n hn hn'
    simp

end Machine

namespace Operation

open Machine

variable {m : Machine}

theorem memory_remnant (h : m.WellFormed) (operation : Operation) (word : Int) :
    (operation.remnant word m).memory = m.memory.mapIdx (operation.byteLeft word m) := by
  have hi := h.i_range.1
  cases operation with
  | storeDecimal =>
      show overlay m.memory m.i.toNat _ = _
      rw [overlay_eq_mapIdx]
      congr 1
      funext a byte
      simp only [byteLeft, decimalDigits, List.map_cons, List.map_nil]
      by_cases h0 : (a : Int) = m.i
      · have hoffset : a - m.i.toNat = 0 := by omega
        rw [if_pos (by omega), hoffset, if_pos h0]
        rfl
      rw [if_neg h0]
      by_cases h1 : (a : Int) = m.i + 1
      · have hoffset : a - m.i.toNat = 1 := by omega
        rw [if_pos (by omega), hoffset, if_pos h1]
        rfl
      rw [if_neg h1]
      by_cases h2 : (a : Int) = m.i + 2
      · have hoffset : a - m.i.toNat = 2 := by omega
        have hunits : m.held (Field.ofWord word .x) % 100 % 10 =
            m.held (Field.ofWord word .x) % 10 := by omega
        rw [if_pos (by omega), hoffset, if_pos h2, ← hunits]
        rfl
      rw [if_neg h2]
      by_cases hplace : m.i.toNat ≤ a
      · have hpast : 3 ≤ a - m.i.toNat := by omega
        rw [if_pos hplace, List.getD_eq_getElem?_getD, List.getElem?_eq_none hpast]
        rfl
      · rw [if_neg hplace]
  | storeRegisters =>
      show overlay m.memory m.i.toNat _ = _
      obtain ⟨hcount, -⟩ := toNat_x_add_one word
      rw [overlay_eq_mapIdx]
      congr 1
      funext a byte
      simp only [byteLeft]
      by_cases hin : m.i ≤ a ∧ a ≤ m.i + Field.ofWord word .x
      · have hoffset : a - m.i.toNat < (Field.ofWord word .x + 1).toNat := by omega
        have hnumber : ((a - m.i.toNat : Nat) : Int) = a - m.i := by omega
        rw [if_pos (by omega), if_pos hin, ← hnumber]
        simp [heldFrom, hoffset]
      · rw [if_neg hin]
        by_cases hplace : m.i.toNat ≤ a
        · have hpast : (Field.ofWord word .x + 1).toNat ≤ a - m.i.toNat := by omega
          rw [if_pos hplace, List.getD_eq_getElem?_getD,
            List.getElem?_eq_none (by simpa [heldFrom] using hpast)]
          rfl
        · rw [if_neg hplace]
  | _ => exact (mapIdx_self m.memory).symm

theorem v_remnant (operation : Operation) (word : Int) (m : Machine) :
    (operation.remnant word m).v = m.v.mapIdx (operation.valueLeft word m) := by
  cases operation with
  | loadRegisters =>
      obtain ⟨hcount, -⟩ := toNat_x_add_one word
      show m.v.mapIdx _ = _
      congr 1
      funext n value
      simp only [valueLeft]
      have hcond : (0 ≤ n ∧ n < 0 + (Field.ofWord word .x + 1).toNat ∧ m.i + n < memorySize) ↔
          (n ≤ Field.ofWord word .x ∧ m.i + n ≤ 0xFFF) := by
        show (0 ≤ n ∧ n < 0 + (Field.ofWord word .x + 1).toNat ∧ m.i + n < 4096) ↔ _
        omega
      simp only [hcond]
  | draw =>
      let x := m.held (Field.ofWord word .x)
      let y := m.held (Field.ofWord word .y)
      let flips := m.flips x y (spriteCells (Field.ofWord word .n).toNat)
      have hany : (flips.any fun cell => m.lit (x + cell.2).toNat (y + cell.1).toNat) = true ↔
          ∃ cell ∈ flips, m.lit (x + cell.2).toNat (y + cell.1).toNat = true := List.any_eq_true
      have hv : (draw.remnant word m).v =
          if ∃ cell ∈ flips, m.lit (x + cell.2).toNat (y + cell.1).toNat = true then
            (m.v.setIfInBounds flagRegister 0).setIfInBounds flagRegister 1
          else m.v.setIfInBounds flagRegister 0 := if_congr hany rfl rfl
      rw [hv]
      apply Array.ext
      · split <;> simp
      · intro n hn hn'
        have hlt : n < m.v.size := by simpa using hn'
        rw [Array.getElem_mapIdx]
        simp only [valueLeft]
        by_cases hflag : n = flagRegister
        · subst hflag
          split <;> simp
        · have hother : flagRegister ≠ n := Ne.symm hflag
          have hlt' : n < (m.v.setIfInBounds flagRegister 0).size := by simpa using hlt
          rw [if_neg hflag]
          split
          · rw [Array.getElem_setIfInBounds_ne hlt' hother,
              Array.getElem_setIfInBounds_ne hlt hother]
          · rw [Array.getElem_setIfInBounds_ne hlt hother]
  | _ => exact (mapIdx_self m.v).symm

theorem screen_remnant (operation : Operation) (word : Int) (m : Machine) :
    (operation.remnant word m).screen =
      m.screen.mapIdx fun row pixels =>
        pixels.mapIdx fun column lit => operation.pixelLeft word m column row lit := by
  cases operation with
  | draw =>
      show m.screen.mapIdx _ = _
      congr 1
      funext row pixels
      congr 1
      funext column lit
      simp only [pixelLeft]
      split
      next hcovered =>
        rw [covers_eq_true.mpr hcovered, Bool.xor_true]
      next hbare =>
        have hbare' := Bool.eq_false_iff.mpr fun h => hbare (covers_eq_true.mp h)
        rw [hbare', Bool.xor_false]
  | _ =>
      show m.screen = m.screen.mapIdx fun row pixels => pixels.mapIdx fun column lit => lit
      simp only [mapIdx_self]

theorem remnant_eq_mapIdx (h : m.WellFormed) (operation : Operation) (word : Int) :
    operation.remnant word m =
      { m with
        memory := m.memory.mapIdx (operation.byteLeft word m)
        v := m.v.mapIdx (operation.valueLeft word m)
        screen := m.screen.mapIdx fun row pixels =>
          pixels.mapIdx fun column lit => operation.pixelLeft word m column row lit } := by
  rw [← memory_remnant h, ← v_remnant, ← screen_remnant]
  exact remnant_eq operation word m

end Operation

namespace Machine

/-- The next instruction of the machine faults, or there is none to fetch. -/
def FaultsNext (m : Machine) : Prop :=
  0xFFF ≤ m.pc ∨ (m.pc ≤ 0xFFE ∧ m.operation.Faults m.wordAtPc m)

instance (m : Machine) : Decidable m.FaultsNext :=
  inferInstanceAs (Decidable (_ ∨ _ ∧ _))

theorem faultsNext_iff {m : Machine} :
    m.FaultsNext ↔ 0xFFE < m.pc ∨ m.operation.Faults m.wordAtPc m := by
  constructor
  · rintro (hout | ⟨-, hfault⟩)
    · exact Or.inl (by omega)
    · exact Or.inr hfault
  · rintro (hout | hfault)
    · exact Or.inl (by omega)
    · by_cases hpc : m.pc ≤ 0xFFE
      · exact Or.inr ⟨hpc, hfault⟩
      · exact Or.inl (by omega)

/-- What the fault of the next instruction leaves of the machine. -/
def left (m : Machine) : Machine :=
  if m.pc ≤ 0xFFE then
    { m with
      opcode := m.wordAtPc
      memory := m.memory.mapIdx (m.operation.byteLeft m.wordAtPc m)
      v := m.v.mapIdx (m.operation.valueLeft m.wordAtPc m)
      screen := m.screen.mapIdx fun row pixels =>
        pixels.mapIdx fun column lit => m.operation.pixelLeft m.wordAtPc m column row lit }
  else m

end Machine

namespace Interpreter

variable {τ : Type} {s : Interpreter τ}

open Machine

theorem runState_finish (pc : Int) (decoded : Option Decoded) (s : Interpreter τ) :
    (endState (finish pc decoded s)).machine.runState = s.machine.runState := by
  obtain ⟨delay, sound, hmachine⟩ := machine_finish pc decoded s
  rw [hmachine]

/-- An instruction that faults is one, so its word is not reported as unrecognized. -/
theorem inspected_of_faults (h : s.machine.operation.Faults s.machine.wordAtPc s.machine) :
    s.inspected = { s with machine := s.machine.fetched } := by
  apply inspected_of_recognized
  intro hunrecognized
  rw [hunrecognized] at h
  exact h

/-- A running machine whose next instruction faults is stopped with what that leaves. -/
theorem step_of_faultsNext
    (hinit : s.initialized = true) (hwf : s.machine.WellFormed)
    (hstate : s.machine.runState = .running) (h : s.machine.FaultsNext) :
    ∃ result cause,
      step s = .ok result (s.stopped s.machine.left cause) ∧ result.fault = some cause := by
  rcases h with hpc | ⟨hpc, hfault⟩
  · obtain ⟨cause, hstep⟩ := step_fetch_faults hinit hwf hstate (by omega)
    have hleft : s.machine.left = s.machine := if_neg (by omega)
    rw [← hleft] at hstep
    refine ⟨_, cause, hstep, ?_⟩
    rfl
  · obtain ⟨cause, hstep⟩ := step_faults hinit hwf hstate hpc hfault
    have hleft : s.machine.operation.remnant s.machine.wordAtPc s.machine.fetched =
        s.machine.left := by
      calc
        s.machine.operation.remnant s.machine.wordAtPc s.machine.fetched =
            { s.machine.operation.remnant s.machine.wordAtPc s.machine with
              opcode := s.machine.wordAtPc } := remnant_fetched _ _ _
        _ = s.machine.left := by
            rw [left, if_pos hpc, Operation.remnant_eq_mapIdx hwf]
    rw [inspected_of_faults hfault, hleft] at hstep
    refine ⟨_, cause, hstep, ?_⟩
    rfl

/-- In every other state a step reports no fault and stops nothing. -/
theorem step_of_not_faultsNext
    (hinit : s.initialized = true) (hintact : s.machine.Intact)
    (hstate : s.machine.runState ≠ .halted)
    (h : s.machine.runState = .running → ¬ s.machine.FaultsNext) :
    (∀ result t, step s = .ok result t → result.fault = none) ∧
      (endState (step s)).machine.runState ≠ .halted := by
  cases way hintact with
  | uninitialized hnot =>
      rw [hinit] at hnot
      cases hnot
  | stopped _ hhalted => exact absurd hhalted hstate
  | waits _ hwaiting hkey =>
      rw [step_waits hinit hwaiting hkey]
      refine ⟨?_, hstate⟩
      rintro result t ⟨⟩
      rfl
  | resumes _ hwaiting key hkey number hwaits hnumber =>
      rw [step_resumes hinit hwaiting hkey hwaits hnumber]
      refine ⟨fun result t => fault_finish, ?_⟩
      rw [runState_finish]
      simp [resumed]
  | unfetched _ hrunning hpc =>
      have hout : 0xFFF ≤ s.machine.pc := by omega
      exact absurd (Or.inl hout) (h hrunning)
  | faults _ hrunning hpc hfault => exact absurd (Or.inr ⟨hpc, hfault⟩) (h hrunning)
  | completes _ hrunning hpc hfine =>
      have hperformed : s.performed.machine.runState ≠ .halted := by
        have heffect : s.performed.machine.runState =
            if s.machine.operation = .awaitKey ∧ s.machine.pressedKey = none then .awaitingKey
            else s.machine.runState := Operation.runState_effect _ _ _
        rw [heffect, hrunning]
        split <;> simp
      rw [step_completes hinit hintact.toWellFormed hrunning hpc hfine]
      split
      · refine ⟨fun result t => fault_finish, ?_⟩
        rw [runState_finish]
        exact hperformed
      · refine ⟨?_, hperformed⟩
        rintro result t ⟨⟩
        rfl

/-! ## A program that faults -/

/-- An interpreter whose program returns from no subroutine. -/
def stray : Interpreter Rat :=
  afterAll [.start 0, .loadProgram [0x00, 0xEE]] blank

theorem reachable_stray : Reachable stray :=
  reachable_loaded _

theorem wordAtPc_stray : stray.machine.wordAtPc = 0xEE :=
  wordAtPc_loaded (by decide) (by decide)

theorem runState_stray : stray.machine.runState = .running :=
  runState_loaded (by decide) (by decide)

theorem initialized_stray : stray.initialized = true :=
  initialized_loaded (by decide) (by decide)

theorem faultsNext_stray : stray.machine.FaultsNext := by
  have hret : stray.machine.operation = .ret := by
    rw [operation, wordAtPc_stray]
    rfl
  have hpc : stray.machine.pc = 0x200 := pc_loaded (by decide) (by decide)
  have hsp : stray.machine.sp = 0 := sp_loaded (by decide) (by decide)
  refine Or.inr ⟨by omega, ?_⟩
  rw [hret]
  exact hsp

/-! ## Main results -/

section

variable [TimeScale τ]

/-- A step of a running machine reports a fault and stops the machine exactly when there is no
whole word at the program counter or the instruction there faults.  Otherwise it does neither,
and a step of a waiting machine never does. -/
theorem step_faults_iff (h : Reachable s) (hinit : s.initialized = true) :
    (s.machine.runState = .running →
      ((∃ result t, step s = .ok result t ∧ result.fault.isSome = true ∧
          t.machine.runState = .halted) ↔ s.machine.FaultsNext) ∧
      (¬ s.machine.FaultsNext →
        (∀ result t, step s = .ok result t → result.fault = none) ∧
          (endState (step s)).machine.runState ≠ .halted)) ∧
    (s.machine.runState = .awaitingKey →
      (∀ result t, step s = .ok result t → result.fault = none) ∧
        (endState (step s)).machine.runState ≠ .halted) := by
  have hintact := h.intact
  constructor
  · intro hstate
    have hfine (hnot : ¬ s.machine.FaultsNext) :=
      step_of_not_faultsNext hinit hintact (by simp [hstate]) fun _ => hnot
    refine ⟨⟨?_, ?_⟩, hfine⟩
    · rintro ⟨result, t, hstep, hfault, -⟩
      by_contra hnot
      rw [(hfine hnot).1 result t hstep] at hfault
      cases hfault
    · intro hnext
      obtain ⟨result, cause, hstep, hfault⟩ :=
        step_of_faultsNext hinit hintact.toWellFormed hstate hnext
      refine ⟨result, _, hstep, ?_, rfl⟩
      rw [hfault]
      rfl
  · intro hstate
    have hnot : s.machine.runState = .running → ¬ s.machine.FaultsNext := by
      intro hrunning
      rw [hstate] at hrunning
      cases hrunning
    exact step_of_not_faultsNext hinit hintact (by simp [hstate]) hnot

theorem step_faults_iff_stray :
    ∃ result t, step stray = .ok result t ∧ result.fault.isSome = true ∧
      t.machine.runState = .halted :=
  ((step_faults_iff reachable_stray initialized_stray).1 runState_stray).1.mpr faultsNext_stray

/-- A step of a running machine that reports a fault stops the machine, notes the fault, and
leaves everything else as it was but for what the instruction had done before it failed. -/
theorem fault_leaves
    (h : Reachable s) (hstate : s.machine.runState = .running) {result : StepResult}
    {t : Interpreter τ} (hstep : step s = .ok result t) {cause : Fault}
    (hfault : result.fault = some cause) :
    t =
      { s with
        machine := { s.machine.left with runState := .halted }
        journal := .faulted s.machine.pc cause :: s.journal } := by
  have hintact := h.intact
  have hinit : s.initialized = true := by
    by_contra hnot
    rw [step_of_not_initialized (Bool.eq_false_iff.mpr hnot)] at hstep
    cases hstep
  by_cases hnext : s.machine.FaultsNext
  · obtain ⟨result', cause', hstep', hfault'⟩ :=
      step_of_faultsNext hinit hintact.toWellFormed hstate hnext
    rw [hstep'] at hstep
    cases hstep
    rw [hfault'] at hfault
    cases hfault
    rfl
  · have hfine := step_of_not_faultsNext hinit hintact (by simp [hstate]) fun _ => hnext
    rw [hfine.1 result t hstep] at hfault
    cases hfault

theorem fault_leaves_stray :
    ∃ result t cause, step stray = .ok result t ∧ result.fault = some cause ∧
      t =
        { stray with
          machine := { stray.machine.left with runState := .halted }
          journal := .faulted stray.machine.pc cause :: stray.journal } := by
  obtain ⟨result, cause, hstep, hfault⟩ := step_of_faultsNext initialized_stray
    reachable_stray.intact.toWellFormed runState_stray faultsNext_stray
  refine ⟨result, _, cause, hstep, hfault, ?_⟩
  exact fault_leaves reachable_stray runState_stray hstep hfault

end

end Interpreter

end Chip8
