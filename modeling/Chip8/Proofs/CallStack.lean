import Chip8.Proofs.Ending

/-!
# Calls and returns

Only a call writes to the stack, and only to the first slot that is not in use.  So a return
finds the address of the call it belongs to, whatever happened in between, and the used part of
the stack lists the calls that were executed and not yet returned from, oldest first.
-/

namespace Chip8

namespace Machine

def slots (m : Machine) (count : Nat) : List Int :=
  m.stack.toList.take count

theorem length_slots
    {m : Machine} (h : m.WellFormed) {count : Nat} (hused : (count : Int) ≤ m.sp) :
    (m.slots count).length = count := by
  have hsize := h.length_stack
  have hle : m.sp ≤ 16 := h.sp_range.2
  rw [slots, List.length_take, hsize]
  omega

theorem usedStack_eq {m : Machine} (h : m.WellFormed) : m.usedStack = m.slots m.sp.toNat := by
  obtain ⟨hnonneg, hle⟩ := h.sp_range
  have hsize := h.length_stack
  have hcount : min m.sp.toNat 16 = m.sp.toNat := by omega
  simp [usedStack, Slot.between, Slot.bound, slots, hsize, hnonneg, hcount]

end Machine

namespace Interpreter

open Machine

variable {τ : Type} {s t : Interpreter τ}

/-! ## What a step does to the stack -/

/-- The operation that the next step carries out to its end, if there is one. -/
def executes? (s : Interpreter τ) : Option Operation :=
  if s.initialized = true ∧ s.machine.runState = .running ∧ ¬ s.machine.FaultsNext then
    some s.machine.operation
  else none

theorem executes?_eq_some_iff {operation : Operation} :
    s.executes? = some operation ↔
      s.initialized = true ∧ s.machine.runState = .running ∧ ¬ s.machine.FaultsNext ∧
        s.machine.operation = operation := by
  unfold executes?
  split
  next h => simp [h]
  next h =>
    refine iff_of_false (by simp) ?_
    rintro ⟨hinit, hstate, hfine, -⟩
    exact h ⟨hinit, hstate, hfine⟩

/-- The ways in which a step can change the stack on the way to `m`. -/
inductive StackStep (s : Interpreter τ) (m : Machine) : Prop where
  | enters (hcall : s.executes? = some .call) (hroom : s.machine.sp < stackDepth)
      (hsp : m.sp = s.machine.sp + 1)
      (hstack : m.stack = s.machine.stack.setIfInBounds s.machine.sp.toNat s.machine.pc)
  | leaves (hret : s.executes? = some .ret) (hused : 0 < s.machine.sp)
      (hsp : m.sp = s.machine.sp - 1) (hstack : m.stack = s.machine.stack)
  | stays (hcall : s.executes? ≠ some .call) (hret : s.executes? ≠ some .ret)
      (hsp : m.sp = s.machine.sp) (hstack : m.stack = s.machine.stack)

/-- A step that executes nothing leaves the stack alone. -/
theorem StackStep.of_none
    {m : Machine} (hnone : ¬ (s.initialized = true ∧ s.machine.runState = .running ∧
      ¬ s.machine.FaultsNext))
    (hsp : m.sp = s.machine.sp) (hstack : m.stack = s.machine.stack) : StackStep s m := by
  have hexecutes : s.executes? = none := if_neg hnone
  exact .stays (by simp [hexecutes]) (by simp [hexecutes]) hsp hstack

theorem stackStep_of_completes
    (h : s.machine.Intact) (hinit : s.initialized = true)
    (hstate : s.machine.runState = .running) (hpc : s.machine.pc ≤ 0xFFE)
    (hfine : ¬ s.machine.operation.Faults s.machine.wordAtPc s.machine) :
    StackStep s (endState (step s)).machine := by
  have hrange := h.sp_range
  have hnext : ¬ s.machine.FaultsNext := by
    rintro (hout | ⟨-, hfault⟩)
    · omega
    · exact hfine hfault
  have hexecutes : s.executes? = some s.machine.operation :=
    executes?_eq_some_iff.mpr ⟨hinit, hstate, hnext, rfl⟩
  have hend : (endState (step s)).machine.sp = s.performed.machine.sp ∧
      (endState (step s)).machine.stack = s.performed.machine.stack := by
    obtain ⟨cycles, delay, sound, hmachine⟩ :=
      machine_step_of_completes hinit h.toWellFormed hstate hpc hfine
    rw [hmachine]
    exact ⟨rfl, rfl⟩
  have hsp := hend.1.trans (Operation.sp_effect _ _ _)
  have hstack := hend.2.trans (Operation.stack_effect _ _ _)
  have hsaved : s.machine.fetched.pc % 65536 = s.machine.pc := h.pc_mod
  rw [hsaved] at hstack
  by_cases hcall : s.machine.operation = .call
  · have hroom : ¬ s.machine.sp = (16 : Int) := by
      rw [hcall] at hfine
      exact hfine
    rw [if_pos hcall] at hsp hstack
    rw [hcall] at hexecutes
    exact .enters hexecutes (by show s.machine.sp < 16; omega) hsp hstack
  rw [if_neg hcall] at hsp hstack
  by_cases hret : s.machine.operation = .ret
  · have hused : ¬ s.machine.sp = 0 := by
      rw [hret] at hfine
      exact hfine
    rw [if_pos hret] at hsp
    rw [hret] at hexecutes
    exact .leaves hexecutes (by omega) hsp hstack
  · rw [if_neg hret] at hsp
    exact .stays (by simpa [hexecutes] using hcall) (by simpa [hexecutes] using hret) hsp hstack

/-- A step pushes the address of the call it executes, pops for the return it executes, and
leaves the stack alone otherwise. -/
theorem stackStep (h : s.machine.Intact) : StackStep s (endState (step s)).machine := by
  cases way h with
  | uninitialized hinit =>
      rw [step_of_not_initialized hinit]
      exact .of_none (by simp [hinit]) rfl rfl
  | stopped hinit hstate =>
      rw [step_of_halted hinit hstate]
      exact .of_none (by simp [hstate]) rfl rfl
  | waits hinit hstate hkey =>
      rw [step_waits hinit hstate hkey]
      exact .of_none (by simp [hstate]) rfl rfl
  | resumes hinit hstate key hkey number hwaits hnumber =>
      rw [step_resumes hinit hstate hkey hwaits hnumber]
      obtain ⟨delay, sound, hmachine⟩ := machine_finish s.machine.pc none
        { s with machine := s.machine.resumed number key }
      rw [hmachine]
      exact .of_none (by simp [hstate]) rfl rfl
  | unfetched hinit hstate hpc =>
      obtain ⟨cause, hstep⟩ := step_fetch_faults hinit h.toWellFormed hstate hpc
      have hnext : s.machine.FaultsNext := Or.inl (by omega)
      rw [hstep]
      exact .of_none (by simp [hnext]) rfl rfl
  | faults hinit hstate hpc hfault =>
      obtain ⟨cause, hstep⟩ := step_faults hinit h.toWellFormed hstate hpc hfault
      have hnext : s.machine.FaultsNext := Or.inr ⟨hpc, hfault⟩
      rw [hstep, Operation.remnant_eq]
      exact .of_none (by simp [hnext]) rfl rfl
  | completes hinit hstate hpc hfine =>
      exact stackStep_of_completes h hinit hstate hpc hfine

namespace StackStep

variable {m : Machine}

/-- No step writes to a slot in use. -/
theorem slots_eq (h : StackStep s m) {count : Nat} (hused : (count : Int) ≤ s.machine.sp) :
    m.slots count = s.machine.slots count := by
  cases h with
  | enters hcall hroom hsp hstack =>
      rw [slots, hstack, Array.toList_setIfInBounds, List.take_set_of_le (by omega)]
      rfl
  | leaves hret hpos hsp hstack =>
      rw [slots, hstack]
      rfl
  | stays hcall hret hsp hstack =>
      rw [slots, hstack]
      rfl

/-- A call adds its address to the slots in use. -/
theorem slots_of_call
    (h : StackStep s m) (hwf : s.machine.WellFormed) (hcall : s.executes? = some .call) :
    m.sp = s.machine.sp + 1 ∧
      m.slots (s.machine.sp.toNat + 1) =
        s.machine.slots s.machine.sp.toNat ++ [s.machine.pc] := by
  have hnonneg := hwf.sp_range.1
  cases h with
  | enters _ hroom hsp hstack =>
      have hroom' : s.machine.sp.toNat < 16 := by
        have hlt : s.machine.sp < (16 : Int) := hroom
        omega
      have hin : s.machine.sp.toNat < s.machine.stack.toList.length := by
        rw [hwf.length_stack]
        exact hroom'
      refine ⟨hsp, ?_⟩
      rw [slots, hstack, Array.toList_setIfInBounds, List.take_add_one,
        List.take_set_of_le le_rfl, List.getElem?_set_self hin]
      rfl
  | leaves hret =>
      rw [hcall] at hret
      cases hret
  | stays hnot => exact absurd hcall hnot

end StackStep

theorem result_of_return
    (h : t.machine.Intact) (hret : t.executes? = some .ret) {result : StepResult}
    {u : Interpreter τ} (hstep : step t = .ok result u) :
    result.executed = true ∧
      ∃ decoded, result.decoded = some decoded ∧ decoded.operation = .ret := by
  obtain ⟨hinit, hstate, hfine, hword⟩ := executes?_eq_some_iff.mp hret
  obtain ⟨hpc, hfine'⟩ := not_or.mp (faultsNext_iff.not.mp hfine)
  rw [step_finishes hinit h.toWellFormed hstate (by omega) hfine' (by simp [hword])
    (by simp [hword])] at hstep
  obtain ⟨hresult, -⟩ := finish_ok hstep
  rw [hresult]
  exact ⟨rfl, _, rfl, hword⟩

/-! ## Runs -/

/-- A call that neither moves the stack pointer by itself nor takes several steps at once. -/
def Call.IsPlain : Call τ → Prop
  | start _ | restart | runCycles _ _ => False
  | _ => True

section

variable [TimeScale τ]

/-- Besides steps, no plain call touches the stack. -/
theorem stack_after {call : Call τ} (hplain : call.IsPlain) (hstep : call ≠ .step) :
    (call.after s).machine.sp = s.machine.sp ∧
      (call.after s).machine.stack = s.machine.stack := by
  have hkeys (hkey : call.IsKeyCall) :
      (call.after s).machine.sp = s.machine.sp ∧
        (call.after s).machine.stack = s.machine.stack := by
    obtain ⟨keys, hkeys⟩ := after_of_isKeyCall hkey s
    rw [hkeys]
    exact ⟨rfl, rfl⟩
  cases call with
  | start now => exact hplain.elim
  | restart => exact hplain.elim
  | runCycles now elapsed => exact hplain.elim
  | step => exact absurd rfl hstep
  | loadProgram program =>
      obtain ⟨memory, length, hmachine⟩ := machine_loadProgram program s
      rw [Call.after, hmachine]
      exact ⟨rfl, rfl⟩
  | loadRom reader path =>
      obtain ⟨memory, length, hmachine⟩ := machine_loadRom reader path s
      rw [Call.after, hmachine]
      exact ⟨rfl, rfl⟩
  | fetch =>
      obtain ⟨word, hfetch⟩ := endState_fetch s.machine
      rw [Call.after, machine_onMachine, hfetch]
      exact ⟨rfl, rfl⟩
  | updateTimers =>
      rcases machine_updateTimers s with hmachine | hmachine
      · rw [Call.after, hmachine]
        exact ⟨rfl, rfl⟩
      · rw [Call.after, hmachine]
        exact ⟨rfl, rfl⟩
  | pressKey key => exact hkeys trivial
  | releaseKey key => exact hkeys trivial
  | setKeys keys => exact hkeys trivial

theorem slots_after
    {call : Call τ} (hplain : call.IsPlain) (h : s.machine.Intact) {count : Nat}
    (hused : (count : Int) ≤ s.machine.sp) :
    (call.after s).machine.slots count = s.machine.slots count := by
  by_cases hstep : call = .step
  · rw [hstep]
    exact (stackStep h).slots_eq hused
  · rw [slots, (stack_after hplain hstep).2]
    rfl

/-- Slots that stay in use during a run of plain calls are the same at its end. -/
theorem slots_afterAll
    {calls : List (Call τ)} (hplain : ∀ call ∈ calls, call.IsPlain) (h : s.machine.Intact)
    {count : Nat}
    (hused : ∀ first, first <+: calls → (count : Int) ≤ (afterAll first s).machine.sp) :
    (afterAll calls s).machine.slots count = s.machine.slots count := by
  induction calls generalizing s with
  | nil => rfl
  | cons call calls ih =>
      obtain ⟨hfirst, hrest⟩ := List.forall_mem_cons.mp hplain
      have hused' (first : List (Call τ)) (hbegins : first <+: calls) :
          (count : Int) ≤ (afterAll first (call.after s)).machine.sp :=
        hused (call :: first) ((List.prefix_cons_inj call).mpr hbegins)
      calc
        (afterAll (call :: calls) s).machine.slots count =
            (call.after s).machine.slots count := ih hrest (intact_after h call) hused'
        _ = s.machine.slots count :=
            slots_after hfirst h (hused [] List.nil_prefix)

/-- The addresses of the open calls after a call of the interpreter, given those before it: a
step opens the call it executes, and closes the latest one when it executes a return. -/
def openAfter (s : Interpreter τ) (addresses : List Int) : Call τ → List Int
  | .step =>
      match s.executes? with
      | some .call => addresses ++ [s.machine.pc]
      | some .ret => addresses.dropLast
      | _ => addresses
  | _ => addresses

/-- The addresses of the calls that a run leaves open, oldest first. -/
def openCalls : List (Call τ) → Interpreter τ → List Int → List Int
  | [], _, addresses => addresses
  | call :: calls, s, addresses => openCalls calls (call.after s) (openAfter s addresses call)

/-- What was in use before a step, changed by the call or return it executes, is in use after
it. -/
theorem usedStack_step (h : s.machine.Intact) :
    (Call.step.after s).machine.usedStack = openAfter s s.machine.usedStack .step := by
  have hafter : (Call.step.after s).machine.Intact := intact_after h .step
  have hrange := h.sp_range
  have hstep : StackStep s (Call.step.after s).machine := stackStep h
  rw [usedStack_eq hafter.toWellFormed, usedStack_eq h.toWellFormed]
  have hpushed := hstep.slots_of_call h.toWellFormed
  cases hstep with
  | enters hcall hroom hsp hstack =>
      have hcount : (Call.step.after s).machine.sp.toNat = s.machine.sp.toNat + 1 := by omega
      rw [hcount, (hpushed hcall).2]
      simp only [openAfter, hcall]
  | leaves hret hused hsp hstack =>
      obtain ⟨count, hcount⟩ : ∃ count : Nat, s.machine.sp = count + 1 :=
        ⟨(s.machine.sp - 1).toNat, by omega⟩
      have hin : count < s.machine.stack.toList.length := by
        have hsize := h.length_stack
        omega
      have hbefore : s.machine.sp.toNat = count + 1 := by omega
      have hafterCount : (Call.step.after s).machine.sp.toNat = count := by omega
      rw [hbefore, hafterCount]
      simp only [openAfter, hret, slots, hstack]
      rw [List.take_add_one, List.getElem?_eq_getElem hin]
      exact List.dropLast_concat.symm
  | stays hcall hret hsp hstack =>
      rw [hsp, slots, hstack]
      simp only [openAfter]
      rfl

theorem usedStack_afterAll
    {calls : List (Call τ)} (hplain : ∀ call ∈ calls, call.IsPlain) (h : s.machine.Intact) :
    (afterAll calls s).machine.usedStack = openCalls calls s s.machine.usedStack := by
  induction calls generalizing s with
  | nil => rfl
  | cons call calls ih =>
      obtain ⟨hfirst, hrest⟩ := List.forall_mem_cons.mp hplain
      have hcall : (call.after s).machine.usedStack = openAfter s s.machine.usedStack call := by
        by_cases hstep : call = .step
        · rw [hstep]
          exact usedStack_step h
        · obtain ⟨hsp, hstack⟩ := stack_after (s := s) hfirst hstep
          have hsame : openAfter s s.machine.usedStack call = s.machine.usedStack := by
            cases call with
            | step => exact absurd rfl hstep
            | _ => rfl
          rw [hsame, usedStack, hsp, hstack]
          rfl
      calc
        (afterAll (call :: calls) s).machine.usedStack =
            openCalls calls (call.after s) (call.after s).machine.usedStack :=
          ih hrest (intact_after h call)
        _ = openCalls (call :: calls) s s.machine.usedStack := by
          rw [hcall]
          rfl

/-! ## Main result -/

/-- A call is executed when there is room for it. -/
theorem Reachable.executes?_call
    (h : Reachable s) (hstate : s.machine.runState = .running) (hpc : s.machine.pc ≤ 0xFFE)
    (hword : s.machine.operation = .call) (hroom : s.machine.sp < stackDepth) :
    s.executes? = some .call := by
  have hinit : s.initialized = true := h.initialized_of_operation (by simp [hword])
  have hfine : ¬ s.machine.FaultsNext := by
    rintro (hout | ⟨-, hfault⟩)
    · omega
    · rw [hword] at hfault
      have hfull : s.machine.sp = (16 : Int) := hfault
      have hlt : s.machine.sp < (16 : Int) := hroom
      omega
  exact executes?_eq_some_iff.mpr ⟨hinit, hstate, hfine, hword⟩

/-- The return that closes a call goes on behind it. -/
theorem pc_of_return
    (h : t.machine.Intact) (hret : t.executes? = some .ret) {count : Nat} {address : Int}
    (hsp : t.machine.sp = count + 1) {below : List Int} (hbelow : below.length = count)
    (hslots : t.machine.slots (count + 1) = below ++ [address]) :
    (Call.step.after t).machine.pc = address + 2 := by
  obtain ⟨hinit, hstate, hfine, hword⟩ := executes?_eq_some_iff.mp hret
  have hsaved : t.machine.stack.getD count 0 = address := by
    have hslot : (t.machine.slots (count + 1))[count]? = some address := by
      rw [hslots, List.getElem?_append_right (by omega)]
      simp [hbelow]
    have hcell : t.machine.stack[count]? = some address := by
      simpa [slots, List.getElem?_take] using hslot
    simp [hcell]
  have hgoes := faultsNext_iff.not.mp hfine
  have htop : (t.machine.sp - 1).toNat = count := by omega
  calc
    (Call.step.after t).machine.pc = t.nextPc := pc_step h
    _ = t.machine.operation.target t.machine.wordAtPc t.machine := by
        simp only [nextPc, hinit, hstate, if_true, if_neg hgoes]
    _ = t.machine.stack.getD (t.machine.sp - 1).toNat 0 + 2 := by
        rw [hword]
        rfl
    _ = address + 2 := by rw [htop, hsaved]

/-- A step that goes below the slot of a call executes a return, which goes on behind the call
and leaves the slots below as they are. -/
theorem returns_of_sp_le
    (h : t.machine.Intact) {depth : Nat} (habove : (depth : Int) < t.machine.sp)
    (hback : (Call.step.after t).machine.sp ≤ depth) {below : List Int} {address : Int}
    (hbelow : below.length = depth) (hslots : t.machine.slots (depth + 1) = below ++ [address]) :
    t.executes? = some .ret ∧ (Call.step.after t).machine.sp = depth ∧
      (Call.step.after t).machine.pc = address + 2 ∧
      (Call.step.after t).machine.slots depth = below := by
  have hstep : StackStep t (Call.step.after t).machine := stackStep h
  have hkept : (Call.step.after t).machine.slots depth = below := by
    calc
      (Call.step.after t).machine.slots depth = t.machine.slots depth :=
          hstep.slots_eq (by omega)
      _ = (t.machine.slots (depth + 1)).take depth := by
          simp [slots, List.take_take]
      _ = below := by
          rw [hslots]
          exact List.take_left' hbelow
  cases hstep with
  | enters _ _ hsp _ => omega
  | stays _ _ hsp _ => omega
  | leaves hret hused hsp hstack =>
      have hat : t.machine.sp = depth + 1 := by omega
      exact ⟨hret, by omega, pc_of_return h hret hat hbelow hslots, hkept⟩

/-- A call is executed when there is room for it.  As long as the stack stays above the depth
of the call, the slots up to that of the call keep their addresses.  The step that first goes
below it executes a return, which goes on behind the call and finds the slots as they were
before.  So the used part of the stack lists the open calls of a run that begins with an empty
one. -/
theorem stack_discipline (h : Reachable s) :
    (s.machine.runState = .running → s.machine.pc ≤ 0xFFE → s.machine.operation = .call →
      s.machine.sp < stackDepth →
      let depth := s.machine.sp.toNat
      let entered := Call.step.after s
      s.executes? = some .call ∧ entered.machine.sp = s.machine.sp + 1 ∧
        ∀ calls : List (Call τ), (∀ call ∈ calls, call.IsPlain) →
          (∀ first, first <+: calls → s.machine.sp < (afterAll first entered).machine.sp) →
          let t := afterAll calls entered
          t.machine.slots (depth + 1) = s.machine.slots depth ++ [s.machine.pc] ∧
            ((Call.step.after t).machine.sp ≤ s.machine.sp →
              (Call.step.after t).machine.sp = s.machine.sp ∧
                t.executes? = some .ret ∧
                (∀ result u, step t = .ok result u → result.executed = true ∧
                  ∃ decoded, result.decoded = some decoded ∧ decoded.operation = .ret) ∧
                (Call.step.after t).machine.pc = s.machine.pc + 2 ∧
                (Call.step.after t).machine.slots depth = s.machine.slots depth)) ∧
    (s.machine.sp = 0 →
      ∀ calls : List (Call τ), (∀ call ∈ calls, call.IsPlain) →
        (afterAll calls s).machine.usedStack = openCalls calls s []) := by
  have hintact := h.intact
  have hnonneg := hintact.sp_range.1
  constructor
  · intro hstate hpc hword hroom depth entered
    have hdepth : (depth : Int) = s.machine.sp := Int.toNat_of_nonneg hnonneg
    have hcall : s.executes? = some .call := h.executes?_call hstate hpc hword hroom
    obtain ⟨hsp, hslots⟩ := (stackStep hintact).slots_of_call hintact.toWellFormed hcall
    refine ⟨hcall, hsp, ?_⟩
    intro calls hplain hdeep t
    have hentered : Reachable entered := h.afterAll [.step]
    have ht : t.machine.Intact := (hentered.afterAll calls).intact
    have hpushed : t.machine.slots (depth + 1) = s.machine.slots depth ++ [s.machine.pc] := by
      have hkept := slots_afterAll hplain hentered.intact fun first hfirst => by
        have habove := hdeep first hfirst
        show ((depth + 1 : Nat) : Int) ≤ (afterAll first entered).machine.sp
        omega
      exact hkept.trans hslots
    refine ⟨hpushed, fun hback => ?_⟩
    have hlength : (s.machine.slots depth).length = depth :=
      length_slots hintact.toWellFormed (by omega)
    have habove : s.machine.sp < t.machine.sp := hdeep calls List.prefix_rfl
    obtain ⟨hret, hsp', hpc', hbelow⟩ :=
      returns_of_sp_le ht (by omega) (by omega) hlength hpushed
    exact ⟨by omega, hret, fun result u => result_of_return ht hret, hpc', hbelow⟩
  · intro hsp calls hplain
    have hempty : s.machine.usedStack = [] := by
      rw [usedStack_eq hintact.toWellFormed, hsp]
      rfl
    rw [usedStack_afterAll hplain hintact, hempty]

/-- The first word of a program calls a subroutine that returns at once. -/
theorem stack_discipline_subroutine :
    (Call.step.after (loaded [0x22, 0x02, 0x00, 0xEE])).machine.slots 1 = [0x200] ∧
      (afterAll [.step, .step] (loaded [0x22, 0x02, 0x00, 0xEE])).machine.pc = 0x202 ∧
      (afterAll [.step, .pressKey 3, .step] (loaded [0x22, 0x02, 0x00, 0xEE])).machine.usedStack =
        openCalls [.step, .pressKey 3, .step] (loaded [0x22, 0x02, 0x00, 0xEE]) [] := by
  have hreachable := reachable_loaded [0x22, 0x02, 0x00, 0xEE]
  have hpc : (loaded [0x22, 0x02, 0x00, 0xEE]).machine.pc = 0x200 :=
    pc_loaded (by decide) (by decide)
  have hsp : (loaded [0x22, 0x02, 0x00, 0xEE]).machine.sp = 0 := sp_loaded (by decide) (by decide)
  have hword : (loaded [0x22, 0x02, 0x00, 0xEE]).machine.operation = .call := by
    have hcode : (loaded [0x22, 0x02, 0x00, 0xEE]).machine.wordAtPc = 0x22 * 256 + 0x02 :=
      wordAtPc_loaded (by decide) (by decide)
    rw [operation, hcode]
    rfl
  have hstate : (loaded [0x22, 0x02, 0x00, 0xEE]).machine.runState = .running :=
    runState_loaded (by decide) (by decide)
  have hback : (afterAll [.step, .step] (loaded [0x22, 0x02, 0x00, 0xEE])).machine.sp = 0 := by
    decide +kernel
  generalize loaded [0x22, 0x02, 0x00, 0xEE] = s at *
  obtain ⟨hcalled, hruns⟩ := stack_discipline hreachable
  obtain ⟨-, hentered, hkept⟩ := hcalled hstate (by omega) hword (by rw [hsp]; decide)
  obtain ⟨hnested, hreturns⟩ := hkept [] (by simp) fun first hfirst => by
    rw [List.prefix_nil.mp hfirst]
    show s.machine.sp < (Call.step.after s).machine.sp
    omega
  obtain ⟨-, -, -, hbehind, -⟩ := hreturns (Int.le_of_eq (hback.trans hsp.symm))
  have hempty : s.machine.slots s.machine.sp.toNat = [] := by
    rw [hsp]
    rfl
  rw [hempty, hsp, hpc] at hnested
  rw [hpc] at hbehind
  exact ⟨hnested, hbehind, hruns hsp _ (by simp [Call.IsPlain])⟩

end

end Interpreter

end Chip8
