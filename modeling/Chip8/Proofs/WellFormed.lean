import Chip8.Proofs.Evaluation

/-!
# Well-formed machines

A machine is well-formed when its tables have their sizes and its values are in range.  No
operation can end that, whatever operands it is given and whether it completes or fails,
and none of them touches the keys, the fetched word or the two counters.

The proof follows the way in which operations are put together: each small action keeps
the invariant, and so does a sequence, a choice or a sweep of actions that keep it.
-/

namespace Chip8

namespace Machine

/-- All tables have their sizes, and all values are in range. -/
structure WellFormed (m : Machine) : Prop where
  size_memory : m.memory.size = memorySize
  size_v : m.v.size = registerCount
  v_range : ∀ value ∈ m.v, 0 ≤ value ∧ value ≤ 0xFF
  delay_range : 0 ≤ m.delay ∧ m.delay ≤ 0xFF
  sound_range : 0 ≤ m.sound ∧ m.sound ≤ 0xFF
  i_range : 0 ≤ m.i ∧ m.i ≤ 0xFFFF
  pc_range : 0 ≤ m.pc ∧ m.pc ≤ 0xFFFF
  sp_range : 0 ≤ m.sp ∧ m.sp ≤ 16
  size_stack : m.stack.size = stackDepth
  stack_range : ∀ address ∈ m.stack, 0 ≤ address ∧ address ≤ 0xFFFF
  size_screen : m.screen.size = screenHeight
  size_row : ∀ row ∈ m.screen, row.size = screenWidth
  size_keys : m.keys.size = keyCount

/-- A machine full of zeros is well-formed, whatever its random source is. -/
theorem wellFormed_zeroed (random : RandomSource) : WellFormed { random := random } where
  size_memory := by simp
  size_v := by simp
  v_range := by simp
  delay_range := by simp
  sound_range := by simp
  i_range := by simp
  pc_range := by simp
  sp_range := by simp
  size_stack := by simp
  stack_range := by simp
  size_screen := by simp [darkScreen]
  size_row := by simp [darkScreen]
  size_keys := by simp

/-- A well-formed machine with the keys, the fetched word and the counters of another one. -/
structure Continues (start m : Machine) : Prop extends WellFormed m where
  keys_eq : m.keys = start.keys
  opcode_eq : m.opcode = start.opcode
  cycles_eq : m.cycles = start.cycles
  programLength_eq : m.programLength = start.programLength

theorem WellFormed.continues_self {m : Machine} (h : m.WellFormed) : Continues m m :=
  { h with keys_eq := rfl, opcode_eq := rfl, cycles_eq := rfl, programLength_eq := rfl }

theorem WellFormed.pc_mod {m : Machine} (h : m.WellFormed) : m.pc % 65536 = m.pc := by
  have hrange := h.pc_range
  omega

theorem WellFormed.pc_add_two_mod {m : Machine} (h : m.WellFormed) (hpc : m.pc ≤ 0xFFE) :
    (m.pc + 2) % 65536 = m.pc + 2 := by
  have hnonneg := h.pc_range.1
  omega

theorem WellFormed.length_stack {m : Machine} (h : m.WellFormed) : m.stack.toList.length = 16 :=
  h.size_stack

theorem WellFormed.getD_v_range {m : Machine} (h : m.WellFormed) (n : Nat) :
    0 ≤ m.v.getD n 0 ∧ m.v.getD n 0 ≤ 0xFF := by
  by_cases hn : n < m.v.size
  · have hmem : m.v[n] ∈ m.v := Array.getElem_mem hn
    simpa [Array.getD, hn] using h.v_range _ hmem
  · simp [Array.getD, hn]

theorem WellFormed.held_range {m : Machine} (h : m.WellFormed) (number : Int) :
    0 ≤ m.held number ∧ m.held number ≤ 0xFF :=
  h.getD_v_range _

/-- A register bank keeps holding bytes when a byte is put into it. -/
theorem WellFormed.v_range_setIfInBounds
    {m : Machine} (h : m.WellFormed) (n : Nat) {value : Int}
    (hvalue : 0 ≤ value ∧ value ≤ 0xFF) :
    ∀ other ∈ m.v.setIfInBounds n value, 0 ≤ other ∧ other ≤ 0xFF := by
  intro other hmem
  rcases Array.mem_or_eq_of_mem_setIfInBounds hmem with hold | rfl
  · exact h.v_range _ hold
  · exact hvalue

theorem Continues.withRegister
    {start m : Machine} (h : Continues start m) (n : Nat) {value : Int}
    (hvalue : 0 ≤ value ∧ value ≤ 0xFF) :
    Continues start { m with v := m.v.setIfInBounds n value } :=
  { h with
    size_v := by simpa using h.size_v
    v_range := h.v_range_setIfInBounds n hvalue }

/-! ## Actions that keep the invariant -/

/-- An error that an operation can fail with: a fault of the program, a missing entry, or a
position outside a table. -/
def IsOperational (e : Error) : Prop :=
  e.kind = .fault ∨ e.kind = .entry ∨ e.kind = .position

/-- An end in a machine that continues `start`, with a value that satisfies `R` or with an
error of an operation. -/
def EndsWell {α : Type} (start : Machine) (R : α → Prop) :
    EStateM.Result Error Machine α → Prop
  | .ok a m => Continues start m ∧ R a
  | .error e m => Continues start m ∧ IsOperational e

/-- From every machine that continues `start`, an action ends well. -/
def Keeps {α : Type} (start : Machine) (R : α → Prop) (action : Action α) : Prop :=
  ∀ m, Continues start m → EndsWell start R (action m)

/-- What keeps the invariant ends in a well-formed machine, whether or not it fails. -/
theorem Keeps.wellFormed_endState
    {α : Type} {m : Machine} {R : α → Prop} {action : Action α} (hkeeps : Keeps m R action)
    (h : m.WellFormed) : (endState (action m)).WellFormed := by
  have hend := hkeeps m h.continues_self
  cases hresult : action m with
  | ok a m' =>
      rw [hresult] at hend
      exact hend.1.toWellFormed
  | error e m' =>
      rw [hresult] at hend
      exact hend.1.toWellFormed

namespace Keeps

variable {α β : Type} {start : Machine} {R : α → Prop} {S : β → Prop}

theorem pure {a : α} (ha : R a) : Keeps start R (Pure.pure a) :=
  fun _ hm => ⟨hm, ha⟩

theorem bind
    {x : Action α} {f : α → Action β}
    (hx : Keeps start R x) (hf : ∀ a, R a → Keeps start S (f a)) :
    Keeps start S (x >>= f) := by
  intro m hm
  have hfirst := hx m hm
  rw [bind_apply]
  cases hresult : x m with
  | ok a m' =>
      rw [hresult] at hfirst
      exact hf a hfirst.2 m' hfirst.1
  | error e m' =>
      rw [hresult] at hfirst
      exact hfirst

/-- The form of `bind` for an action whose value does not matter. -/
theorem andThen
    {x : Action α} {f : α → Action β}
    (hx : Keeps start (fun _ => True) x) (hf : ∀ a, Keeps start S (f a)) :
    Keeps start S (x >>= f) :=
  hx.bind fun a _ => hf a

theorem ite
    {c : Prop} [Decidable c] {x y : Action α}
    (hx : Keeps start R x) (hy : Keeps start R y) :
    Keeps start R (if c then x else y) := by
  split
  · exact hx
  · exact hy

theorem sweep
    {body : Nat → Action Unit} (hbody : ∀ n, Keeps start (fun _ => True) (body n))
    (count first : Nat) :
    Keeps start (fun _ => True) (Action.sweep body count first) := by
  induction count generalizing first with
  | zero => exact Keeps.pure trivial
  | succ count ih => exact (hbody first).andThen fun _ => ih (first + 1)

/-! ## Small actions -/

theorem get : Keeps start (Continues start) (MonadState.get : Action Machine) :=
  fun _ hm => ⟨hm, hm⟩

theorem need (operands : Operands) (field : Field) :
    Keeps start (fun _ => True) (operands.need field) := by
  intro m hm
  unfold Operands.need
  split
  · exact ⟨hm, trivial⟩
  · exact ⟨hm, Or.inr (Or.inl rfl)⟩

theorem register (position : Int) :
    Keeps start (fun value => 0 ≤ value ∧ value ≤ 0xFF) (Machine.register position) := by
  intro m hm
  unfold Machine.register
  split
  · exact ⟨hm, hm.getD_v_range _⟩
  · exact ⟨hm, Or.inr (Or.inr rfl)⟩

theorem needRegister (operands : Operands) (field : Field) :
    Keeps start (fun value => 0 ≤ value ∧ value ≤ 0xFF) (operands.needRegister field) :=
  (need operands field).andThen register

theorem setRegister (number value : Int) :
    Keeps start (fun _ => True) (Machine.setRegister number value) := by
  intro m hm
  unfold Machine.setRegister
  split
  · have hlow : 0 ≤ value % 256 ∧ value % 256 ≤ 0xFF := by omega
    exact ⟨hm.withRegister _ hlow, trivial⟩
  · exact ⟨hm, Or.inr (Or.inl rfl)⟩

theorem setFlag (value : Int) : Keeps start (fun _ => True) (Machine.setFlag value) := by
  intro m hm
  have hlow : 0 ≤ value % 256 ∧ value % 256 ≤ 0xFF := by omega
  exact ⟨hm.withRegister _ hlow, trivial⟩

theorem assign (place : Nat) (byte : UInt8) :
    Keeps start (fun _ => True) (Machine.assign place byte.toNat) := by
  intro m hm
  unfold Machine.assign
  have hbyte : 0 ≤ (byte.toNat : Int) ∧ (byte.toNat : Int) ≤ 0xFF := by
    have hlt := byte.toNat_lt
    omega
  split
  · exact ⟨hm.withRegister _ hbyte, trivial⟩
  · exact ⟨hm, Or.inr (Or.inr rfl)⟩

theorem setIndex (value : Int) : Keeps start (fun _ => True) (Machine.setIndex value) :=
  fun _ hm => ⟨{ hm with i_range := by dsimp only; omega }, trivial⟩

theorem advance (amount : Int) : Keeps start (fun _ => True) (Machine.advance amount) :=
  fun _ hm => ⟨{ hm with pc_range := by dsimp only; omega }, trivial⟩

theorem setPc (address : Int) : Keeps start (fun _ => True) (Machine.setPc address) :=
  fun _ hm => ⟨{ hm with pc_range := by dsimp only; omega }, trivial⟩

theorem setDelay {value : Int} (hvalue : 0 ≤ value ∧ value ≤ 0xFF) :
    Keeps start (fun _ => True) (Machine.setDelay value) :=
  fun _ hm => ⟨{ hm with delay_range := hvalue }, trivial⟩

theorem setSound {value : Int} (hvalue : 0 ≤ value ∧ value ≤ 0xFF) :
    Keeps start (fun _ => True) (Machine.setSound value) :=
  fun _ hm => ⟨{ hm with sound_range := hvalue }, trivial⟩

theorem drawByte : Keeps start (fun _ => True) Machine.drawByte :=
  fun _ hm => ⟨{ hm with }, trivial⟩

theorem readByte (address : Int) :
    Keeps start (fun _ => True) (Machine.readByte address) := by
  intro m hm
  unfold Machine.readByte
  split
  · exact ⟨hm, trivial⟩
  · exact ⟨hm, Or.inl rfl⟩

theorem writeByte (address value : Int) :
    Keeps start (fun _ => True) (Machine.writeByte address value) := by
  intro m hm
  unfold Machine.writeByte
  split
  · exact ⟨{ hm with size_memory := by simpa using hm.size_memory }, trivial⟩
  · exact ⟨hm, Or.inl rfl⟩

theorem isKeyPressed (key : Int) :
    Keeps start (fun _ => True) (Machine.isKeyPressed key) := by
  intro m hm
  unfold Machine.isKeyPressed
  split
  · exact ⟨hm, trivial⟩
  · exact ⟨hm, Or.inl rfl⟩

theorem beginWait : Keeps start (fun _ => True) Machine.beginWait :=
  fun _ hm => ⟨{ hm with }, trivial⟩

theorem waitIn (number : Int) : Keeps start (fun _ => True) (Machine.waitIn number) :=
  fun _ hm => ⟨{ hm with }, trivial⟩

theorem clearScreen : Keeps start (fun _ => True) Machine.clearScreen := by
  intro m hm
  refine ⟨{ hm with size_screen := by simp [darkScreen], size_row := ?_ }, trivial⟩
  intro row hrow
  have hdark : row = Array.replicate screenWidth false :=
    Array.eq_of_mem_replicate hrow
  simp [hdark]

theorem flipPixel (x y : Int) : Keeps start (fun _ => True) (Machine.flipPixel x y) := by
  intro m hm
  unfold Machine.flipPixel
  split
  · refine ⟨{ hm with size_screen := by simpa using hm.size_screen, size_row := ?_ }, trivial⟩
    intro row hrow
    obtain ⟨n, hn, rfl⟩ := Array.getElem_of_mem hrow
    have hold : n < m.screen.size := by simpa using hn
    have hrowSize := hm.size_row _ (Array.getElem_mem hold)
    rw [Array.getElem_modify]
    split <;> simpa using hrowSize
  · exact ⟨hm, Or.inl rfl⟩

theorem push (address : Int) : Keeps start (fun _ => True) (Machine.push address) := by
  intro m hm
  unfold Machine.push
  have hsp := hm.sp_range
  split
  · exact ⟨hm, Or.inl rfl⟩
  next hroom =>
    have hlt : m.sp < 16 := by simpa using hroom
    split
    · refine ⟨{ hm with
        size_stack := by simpa using hm.size_stack
        sp_range := by dsimp only; omega
        stack_range := ?_ }, trivial⟩
      intro other hmem
      rcases Array.mem_or_eq_of_mem_setIfInBounds hmem with hold | rfl
      · exact hm.stack_range _ hold
      · omega
    · exact ⟨hm, Or.inr (Or.inr rfl)⟩

theorem pop : Keeps start (fun _ => True) Machine.pop := by
  intro m hm
  unfold Machine.pop
  have hsp := hm.sp_range
  split
  · exact ⟨hm, Or.inl rfl⟩
  next hused =>
    have hm' : Continues start { m with sp := m.sp - 1 } :=
      { hm with sp_range := by dsimp only; omega }
    dsimp only
    split
    · exact ⟨hm', trivial⟩
    · exact ⟨hm', Or.inr (Or.inr rfl)⟩

end Keeps

end Machine

end Chip8
