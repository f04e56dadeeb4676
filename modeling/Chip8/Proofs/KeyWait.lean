import Chip8.Proofs.Ending
import Chip8.Proofs.Totality

/-!
# Waiting for a key

A key that is already pressed when the instruction for it is reached ends the instruction at
once.  Otherwise the machine waits, for any number of steps, and the first step that finds a
pressed key ends the wait.  The two ways lead to the same state.
-/

namespace Chip8

namespace Machine

/-! ## Pressed keys -/

/-- The keypad on which the given keys are pressed. -/
def pressing (keys : List Int) : Array Bool :=
  (Array.range keyCount).map fun (n : Nat) => keys.contains (n : Int)

theorem size_pressing (keys : List Int) : (pressing keys).size = keyCount := by
  simp [pressing]

theorem pressedKeys_pressing (m : Machine) (keys : List Int) :
    pressedKeys { m with keys := pressing keys } =
      (List.range keyCount).filter fun (n : Nat) => keys.contains (n : Int) := by
  apply List.filter_congr
  intro n hn
  have hkey : n < keyCount := List.mem_range.mp hn
  simp [pressing, hkey]

theorem pressedKey_pressing_nil (m : Machine) :
    pressedKey { m with keys := pressing [] } = none := by
  rw [pressedKey, pressedKeys_pressing]
  rfl

theorem pressedKey_pressing
    (m : Machine) {keys : List Int} (hsome : keys ≠ []) (hkeys : ∀ key ∈ keys, IsKey key) :
    ∃ key : Nat, pressedKey { m with keys := pressing keys } = some key ∧
      (key : Int) ∈ keys ∧ ∀ other ∈ keys, other ≤ key := by
  set pressed := (List.range keyCount).filter fun (n : Nat) => keys.contains (n : Int) with hpressed
  have hmem (n : Nat) : n ∈ pressed ↔ n < keyCount ∧ (n : Int) ∈ keys := by
    simp [hpressed]
  have hfound (other : Int) (hother : other ∈ keys) : other.toNat ∈ pressed := by
    obtain ⟨hnonneg, hlt⟩ := hkeys other hother
    rw [hmem, Int.toNat_of_nonneg hnonneg]
    exact ⟨by omega, hother⟩
  have hsorted : pressed.Pairwise (· ≤ ·) :=
    (List.pairwise_lt_range.imp Nat.le_of_lt).filter _
  obtain ⟨first, hfirst⟩ := List.exists_mem_of_ne_nil keys hsome
  have hne : pressed ≠ [] := List.ne_nil_of_mem (hfound first hfirst)
  refine ⟨pressed.getLast hne, ?_, ((hmem _).mp (List.getLast_mem hne)).2, ?_⟩
  · rw [pressedKey, pressedKeys_pressing]
    exact List.getLast?_eq_some_getLast hne
  · intro other hother
    have hle : other.toNat ≤ pressed.getLast hne := hsorted.rel_getLast (hfound other hother)
    omega

/-! ## The instruction -/

/-- A word that asks for a key has a second byte, so it does not stand at the end of memory. -/
theorem pc_le_of_wordAtPc_mod
    {m : Machine} (h : m.WellFormed) (hword : m.wordAtPc % 256 ≠ 0) : m.pc ≤ 0xFFE := by
  by_contra hout
  have hsize : m.memory.size = 4096 := h.size_memory
  have hbeyond : m.memory.getD (m.pc + 1).toNat 0 = 0 := by
    rw [Array.getD_eq_getD_getElem?, Array.getElem?_eq_none (by omega)]
    rfl
  apply hword
  rw [wordAtPc, hbeyond]
  simp

end Machine

namespace Operation

theorem ofWord_awaitKey {x : Int} (hx : Machine.IsRegister x) :
    ofWord (0xF00A + 0x100 * x) = awaitKey := by
  have hnonneg : 0 ≤ x := hx.1
  have hlt : x < 16 := hx.2
  have hfamily : (0xF00A + 0x100 * x) / 4096 % 16 = 0xF := by omega
  have hlastTwo : (0xF00A + 0x100 * x) % 256 = 0x0A := by omega
  rw [ofWord, hfamily, hlastTwo]
  rfl

end Operation

theorem Field.ofWord_x_awaitKey {x : Int} (hx : Machine.IsRegister x) :
    Field.ofWord (0xF00A + 0x100 * x) .x = x := by
  have hnonneg : 0 ≤ x := hx.1
  have hlt : x < 16 := hx.2
  show (0xF00A + 0x100 * x) / 256 % 16 = x
  omega

namespace Interpreter

open Machine

variable {τ : Type} {s t : Interpreter τ}

def withKeys (s : Interpreter τ) (keys : List Int) : Interpreter τ :=
  { s with machine.keys := pressing keys }

theorem endState_setKeys_of_isKey {keys : List Int} (hkeys : ∀ key ∈ keys, IsKey key) :
    endState (setKeys keys s) = s.withKeys keys := by
  have hnone : (keys.find? fun key => ¬ IsKey key) = none := by
    simpa using hkeys
  rw [setKeys_apply, hnone]
  rfl

/-! ## The two ways -/

/-- The interpreter that has given a pressed key to the program and counted the cycle, with the
timers still to tick. -/
def keyTaken (s : Interpreter τ) (key : Nat) : Interpreter τ :=
  { s with machine := { s.machine.holding (Field.ofWord s.machine.wordAtPc .x) key with
      opcode := s.machine.wordAtPc
      pc := s.machine.pc + 2
      cycles := s.machine.cycles + 1 } }

section

variable (h : s.machine.Intact) (hstate : s.machine.runState = .running)
  (hpc : s.machine.pc ≤ 0xFFE)

include h hstate hpc

/-- With a pressed key the instruction is carried out at once. -/
theorem endState_step_awaitKey
    (hinit : s.initialized = true) (hword : s.machine.operation = .awaitKey) {key : Nat}
    (hkey : s.machine.pressedKey = some key) :
    endState (step s) = endState (updateTimers (s.keyTaken key)) := by
  have hfine : ¬ s.machine.operation.Faults s.machine.wordAtPc s.machine := by
    rw [hword]
    exact id
  have hnext := h.pc_add_two_mod hpc
  have hkey' : s.machine.fetched.pressedKey = some key := hkey
  have heffect : Operation.awaitKey.effect s.machine.wordAtPc s.machine.fetched =
      s.machine.fetched.holding (Field.ofWord s.machine.wordAtPc .x) key := by
    simp only [Operation.effect, hkey']
  have htarget : Operation.awaitKey.target s.machine.wordAtPc s.machine.fetched % 65536 =
      s.machine.pc + 2 := by
    rw [← hnext, Operation.target, hkey']
    rfl
  have hcounted : s.performed.counted = s.keyTaken key := by
    rw [performed_of_recognized (by simp [hword]), hword, Operation.completed, heffect, htarget]
    rfl
  rw [step_finishes hinit h.toWellFormed hstate hpc hfine (by simp [hword]) (by simp [hkey]),
    endState_finish, hcounted]

/-- A suspended machine takes the first pressed key that it finds in the same way. -/
theorem endState_step_suspended
    (hinit : s.initialized = true) {keys : Array Bool} {key : Nat}
    (ht : t = { s with machine := { s.machine.suspended with keys := keys } })
    (hkey : t.machine.pressedKey = some key) :
    endState (step t) = endState (updateTimers (keyTaken { s with machine.keys := keys } key)) := by
  have hinit' : t.initialized = true := by
    rw [ht]
    exact hinit
  have hstate' : t.machine.runState = .awaitingKey := by
    rw [ht]
    rfl
  have hwaits : t.machine.keyRegister = some (Field.ofWord s.machine.wordAtPc .x) := by
    rw [ht]
    rfl
  have hidle : s.machine.keyRegister = none := h.idle (by simp [hstate])
  have hnext := h.pc_add_two_mod hpc
  rw [step_resumes hinit' hstate' hkey hwaits (isRegister_x _), endState_finish, ht]
  simp only [counted, keyTaken, resumed, suspended, fetched, holding, hnext, hstate, hidle]
  rfl

end

/-- When the listener returns both timers tick, and a beep is counted if one is due. -/
theorem updateTimers_of_reply (hreply : s.nextReply = none) :
    (endState (updateTimers s)).machine = s.machine.delayTicked.soundTicked ∧
      (endState (updateTimers s)).beeps = s.beeps + if s.machine.sound = 1 then 1 else 0 := by
  rw [updateTimers_apply]
  dsimp only
  by_cases hsound : s.machine.sound = 1
  · rw [if_pos hsound, if_pos hsound, hreply]
    refine ⟨rfl, ?_⟩
    unfold afterBeep
    cases s.listener <;> rfl
  · rw [if_neg hsound, if_neg hsound]
    exact ⟨rfl, rfl⟩

section

variable [TimeScale τ]

/-- The calls during a wait are steps that find no pressed key, and key calls. -/
structure Waits (calls : List (Call τ)) (s : Interpreter τ) : Prop where
  step_or_isKeyCall : ∀ call ∈ calls, call = .step ∨ call.IsKeyCall
  pressedKey_eq_none : ∀ first, first ++ [.step] <+: calls →
    (afterAll first s).machine.pressedKey = none

/-- A wait changes the keys and nothing else. -/
theorem Waits.afterAll_eq
    {calls : List (Call τ)} (h : Waits calls s) (hinit : s.initialized = true)
    (hstate : s.machine.runState = .awaitingKey) :
    ∃ keys, afterAll calls s = { s with machine.keys := keys } := by
  induction calls generalizing s with
  | nil => exact ⟨s.machine.keys, rfl⟩
  | cons call calls ih =>
      obtain ⟨hcall, hcalls⟩ := List.forall_mem_cons.mp h.step_or_isKeyCall
      have hrest : Waits calls (call.after s) := by
        refine ⟨hcalls, fun first hfirst => ?_⟩
        exact h.pressedKey_eq_none (call :: first) ((List.prefix_cons_inj call).mpr hfirst)
      obtain ⟨keys, hkeys⟩ : ∃ keys, call.after s = { s with machine.keys := keys } := by
        rcases hcall with rfl | hkeyCall
        · have hnone := h.pressedKey_eq_none [] ⟨calls, rfl⟩
          refine ⟨s.machine.keys, ?_⟩
          rw [Call.after, step_waits hinit hstate hnone]
          rfl
        · exact after_of_isKeyCall hkeyCall s
      have hinit' : (call.after s).initialized = true := by
        rw [hkeys]
        exact hinit
      have hstate' : (call.after s).machine.runState = .awaitingKey := by
        rw [hkeys]
        exact hstate
      obtain ⟨keys', hkeys'⟩ := ih hrest hinit' hstate'
      refine ⟨keys', ?_⟩
      calc
        afterAll (call :: calls) s = afterAll calls (call.after s) := rfl
        _ = { s with machine.keys := keys' } := by rw [hkeys', hkeys]

section

variable (h : s.machine.Intact) (hinit : s.initialized = true)
  (hstate : s.machine.runState = .running) (hpc : s.machine.pc ≤ 0xFFE)
  (hword : s.machine.operation = .awaitKey)

include h hinit hstate hpc hword

theorem afterAll_suspended :
    afterAll [.setKeys [], .step] s =
      { s with machine := { s.machine.suspended with keys := pressing [] } } := by
  have hreleased : endState (setKeys [] s) = s.withKeys [] := endState_setKeys_of_isKey (by simp)
  have hnone : (s.withKeys []).machine.pressedKey = none := pressedKey_pressing_nil s.machine
  have hstep := step_suspends (s := s.withKeys []) hinit
    (h.withKeys (size_pressing [])).toWellFormed hstate hpc hword hnone
  calc
    afterAll [.setKeys [], .step] s = endState (step (endState (setKeys [] s))) := rfl
    _ = { s with machine := { s.machine.suspended with keys := pressing [] } } := by
      rw [hreleased, hstep]
      rfl

variable {keys : List Int} (hkeys : ∀ key ∈ keys, IsKey key) {key : Nat}
  (hkey : (s.withKeys keys).machine.pressedKey = some key)

include hkeys hkey

theorem afterAll_immediate :
    afterAll [.setKeys keys, .step] s =
      endState (updateTimers ((s.withKeys keys).keyTaken key)) := by
  have hintact : (s.withKeys keys).machine.Intact := h.withKeys (size_pressing keys)
  calc
    afterAll [.setKeys keys, .step] s = endState (step (endState (setKeys keys s))) := rfl
    _ = endState (updateTimers ((s.withKeys keys).keyTaken key)) := by
      rw [endState_setKeys_of_isKey hkeys]
      exact endState_step_awaitKey hintact hstate hpc hinit hword hkey

theorem afterAll_delayed
    {calls : List (Call τ)} (hwaits : Waits calls (afterAll [.setKeys [], .step] s)) :
    afterAll ([.setKeys [], .step] ++ calls ++ [.setKeys keys, .step]) s =
      endState (updateTimers ((s.withKeys keys).keyTaken key)) := by
  have hsuspended := afterAll_suspended h hinit hstate hpc hword
  rw [hsuspended] at hwaits
  obtain ⟨keys', hwaited⟩ := hwaits.afterAll_eq hinit rfl
  have hfound : endState (setKeys keys (afterAll calls (afterAll [.setKeys [], .step] s))) =
      { s with machine := { s.machine.suspended with keys := pressing keys } } := by
    rw [hsuspended, hwaited, endState_setKeys_of_isKey hkeys]
    rfl
  calc
    afterAll ([.setKeys [], .step] ++ calls ++ [.setKeys keys, .step]) s =
        endState (step (endState (setKeys keys
          (afterAll calls (afterAll [.setKeys [], .step] s))))) := by
      rw [afterAll, List.foldl_append, List.foldl_append]
      rfl
    _ = endState (updateTimers ((s.withKeys keys).keyTaken key)) := by
      rw [hfound]
      exact endState_step_suspended h hstate hpc hinit rfl hkey

end

/-! ## Main result -/

/-- A wait of any length ends in the same state as the instruction that finds the keys pressed:
the highest of them is in the register, and one cycle has passed. -/
theorem afterAll_delayed_wait
    (h : Reachable s) (hstate : s.machine.runState = .running) {x : Int} (hx : IsRegister x)
    (hword : s.machine.wordAtPc = 0xF00A + 0x100 * x) {keys : List Int} (hsome : keys ≠ [])
    (hkeys : ∀ key ∈ keys, IsKey key) {calls : List (Call τ)}
    (hwaits : Waits calls (afterAll [.setKeys [], .step] s)) :
    let immediate := afterAll [.setKeys keys, .step] s
    afterAll ([.setKeys [], .step] ++ calls ++ [.setKeys keys, .step]) s = immediate ∧
      ∃ key ∈ keys, (∀ other ∈ keys, other ≤ key) ∧
        (s.ListenerReturns →
          immediate.machine =
              { s.machine with
                opcode := s.machine.wordAtPc
                keys := pressing keys
                v := s.machine.v.setIfInBounds x.toNat key
                pc := s.machine.pc + 2
                cycles := s.machine.cycles + 1
                delay := countedDown s.machine.delay
                sound := countedDown s.machine.sound } ∧
            immediate.beeps = s.beeps + if s.machine.sound = 1 then 1 else 0) := by
  have hintact := h.intact
  have hpc : s.machine.pc ≤ 0xFFE := pc_le_of_wordAtPc_mod hintact.toWellFormed (by omega)
  have hawait : s.machine.operation = .awaitKey := by
    rw [operation, hword]
    exact Operation.ofWord_awaitKey hx
  have hinit : s.initialized = true := h.initialized_of_operation (by simp [hawait])
  obtain ⟨key, hkey, hmem, hhighest⟩ := pressedKey_pressing s.machine hsome hkeys
  have himmediate := afterAll_immediate hintact hinit hstate hpc hawait hkeys hkey
  have hdelayed := afterAll_delayed hintact hinit hstate hpc hawait hkeys hkey hwaits
  refine ⟨hdelayed.trans himmediate.symm, key, hmem, hhighest, fun hreturns => ?_⟩
  have hreply : ((s.withKeys keys).keyTaken key).nextReply = none := hreturns.nextReply_eq_none
  obtain ⟨hmachine, hbeeps⟩ := updateTimers_of_reply hreply
  have hfield : Field.ofWord (s.withKeys keys).machine.wordAtPc .x = x := by
    show Field.ofWord s.machine.wordAtPc .x = x
    rw [hword]
    exact Field.ofWord_x_awaitKey hx
  have hlow : (key : Int) % 256 = key := by
    have hlt : (key : Int) < 16 := (hkeys key hmem).2
    omega
  rw [himmediate]
  refine ⟨?_, hbeeps⟩
  rw [hmachine, keyTaken, hfield, holding, hlow]
  rfl

/-- A program that begins by asking for a key gets none at first, as the one that is pressed is
released again before the next step. -/
theorem afterAll_delayed_wait_released :
    Waits [.pressKey 9, .releaseKey 9, .step]
        (afterAll [.setKeys [], .step] (loaded [0xF3, 0x0A])) ∧
      afterAll [.setKeys [], .step, .pressKey 9, .releaseKey 9, .step, .setKeys [4, 11, 7], .step]
          (loaded [0xF3, 0x0A]) =
        afterAll [.setKeys [4, 11, 7], .step] (loaded [0xF3, 0x0A]) ∧
      (afterAll [.setKeys [4, 11, 7], .step] (loaded [0xF3, 0x0A])).machine.v =
        (loaded [0xF3, 0x0A]).machine.v.setIfInBounds 3 11 := by
  have hword : (loaded [0xF3, 0x0A]).machine.wordAtPc = 0xF00A + 0x100 * 3 :=
    wordAtPc_loaded (by decide) (by decide)
  have hwaits : Waits [.pressKey 9, .releaseKey 9, .step]
      (afterAll [.setKeys [], .step] (loaded [0xF3, 0x0A])) := by
    constructor
    · simp [Call.IsKeyCall]
    · intro first hfirst
      have hreleased : first = [.pressKey 9, .releaseKey 9] := by
        obtain ⟨rest, hrest⟩ := hfirst
        rcases first with _ | ⟨press, _ | ⟨release, _ | ⟨other, first⟩⟩⟩
        · simp at hrest
        · simp at hrest
        · simp_all
        · simp at hrest
      rw [hreleased]
      decide +kernel
  have hreturns : (loaded [0xF3, 0x0A]).ListenerReturns := by
    rw [loaded_eq (by decide) (by decide)]
    intro listener hlistener
    cases hlistener
  have hkeys : ∀ key ∈ ([4, 11, 7] : List Int), IsKey key := by decide
  obtain ⟨hdelayed, key, hmem, hhighest, hends⟩ :=
    afterAll_delayed_wait (reachable_loaded _) (runState_loaded (by decide) (by decide))
      (by decide) hword (List.cons_ne_nil _ _) hkeys hwaits
  have hkey : key = 11 := by
    have hle := hhighest 11 (by simp)
    simp only [List.mem_cons, List.not_mem_nil, or_false] at hmem
    omega
  refine ⟨hwaits, hdelayed, ?_⟩
  rw [(hends hreturns).1, hkey]
  rfl

end

end Interpreter

end Chip8
