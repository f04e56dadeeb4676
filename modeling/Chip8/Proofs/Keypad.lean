import Chip8.Proofs.KeyWait
import Chip8.Proofs.Pattern
import Mathlib.Data.Finset.Image
import Mathlib.Order.Bounds.Basic

/-!
# The keypad as a set

The flags of the keypad stand for the set of the pressed keys.  Key calls are the only calls that
change it: pressing a key inserts it, releasing one erases it, and a list of keys takes the place of
the whole set.  A call that names a number which is no key is refused, and then nothing changes, not
even for the keys that stand before it.

The machine looks at the set in two ways.  A key wait takes its greatest member, and two
instructions skip by membership.  The main result is `keypad_follows_calls`.
-/

namespace Chip8

namespace Machine

/-! ## The set of the pressed keys -/

def keypad (m : Machine) : Finset Int :=
  {key ∈ Finset.range keyCount | m.keys.getD key false = true}.map
    ⟨Int.ofNat, fun _ _ => Int.ofNat.inj⟩

theorem mem_keypad (m : Machine) (key : Int) :
    key ∈ m.keypad ↔ IsKey key ∧ m.keys.getD key.toNat false = true := by
  rw [keypad, Finset.mem_map]
  constructor
  · rintro ⟨number, hmem, rfl⟩
    obtain ⟨hlt, hpressed⟩ := Finset.mem_filter.mp hmem
    exact ⟨⟨Int.natCast_nonneg number, Int.ofNat_lt.mpr (Finset.mem_range.mp hlt)⟩, hpressed⟩
  · rintro ⟨⟨hnonneg, hlt⟩, hpressed⟩
    refine ⟨key.toNat, ?_, Int.toNat_of_nonneg hnonneg⟩
    rw [Finset.mem_filter, Finset.mem_range]
    exact ⟨by omega, hpressed⟩

theorem keypad_congr {m m' : Machine} (h : m'.keys = m.keys) : m'.keypad = m.keypad := by
  rw [keypad, keypad, h]

theorem mem_pressedKeys (m : Machine) (key : Nat) :
    key ∈ m.pressedKeys ↔ (key : Int) ∈ m.keypad := by
  rw [mem_keypad, pressedKeys, List.mem_filter, List.mem_range, Int.toNat_natCast, IsKey]
  apply and_congr_left
  intro _
  omega

/-- Setting a flag decides about its key and about no other. -/
theorem mem_keypad_setIfInBounds
    {m : Machine} (hsize : m.keys.size = keyCount) {key : Int} (hkey : IsKey key) (pressed : Bool)
    (other : Int) :
    other ∈ keypad { m with keys := m.keys.setIfInBounds key.toNat pressed } ↔
      if other = key then pressed = true else other ∈ m.keypad := by
  obtain ⟨hnonneg, hlt⟩ := hkey
  rw [mem_keypad, mem_keypad, Array.getD_eq_getD_getElem?, Array.getD_eq_getD_getElem?]
  split
  next heq =>
    have hin : key.toNat < m.keys.size := by omega
    rw [heq, Array.getElem?_setIfInBounds_self_of_lt hin, Option.getD_some]
    exact and_iff_right ⟨hnonneg, hlt⟩
  next hne =>
    apply and_congr_right
    rintro ⟨hother, -⟩
    rw [Array.getElem?_setIfInBounds_ne (by omega)]

theorem keypad_press {m : Machine} (hsize : m.keys.size = keyCount) {key : Int} (hkey : IsKey key) :
    keypad { m with keys := m.keys.setIfInBounds key.toNat true } = insert key m.keypad := by
  ext other
  rw [mem_keypad_setIfInBounds hsize hkey, Finset.mem_insert]
  split
  next heq => simp [heq]
  next hne => simp [hne]

theorem keypad_release
    {m : Machine} (hsize : m.keys.size = keyCount) {key : Int} (hkey : IsKey key) :
    keypad { m with keys := m.keys.setIfInBounds key.toNat false } = m.keypad.erase key := by
  ext other
  rw [mem_keypad_setIfInBounds hsize hkey, Finset.mem_erase]
  split
  next heq => simp [heq]
  next hne => simp [hne]

/-- The order of the listed keys does not matter, and neither does how often one is listed. -/
theorem keypad_pressing (m : Machine) {keys : List Int} (hkeys : ∀ key ∈ keys, IsKey key) :
    keypad { m with keys := pressing keys } = keys.toFinset := by
  ext key
  rw [mem_keypad, List.mem_toFinset]
  have hflag (hkey : IsKey key) : (pressing keys).getD key.toNat false = true ↔ key ∈ keys := by
    obtain ⟨hnonneg, hlt⟩ := hkey
    have hin : key.toNat < keyCount := by omega
    simp [pressing, Array.getD_eq_getD_getElem?, hin, hnonneg]
  constructor
  · rintro ⟨hkey, hpressed⟩
    exact (hflag hkey).mp hpressed
  · intro hmem
    exact ⟨hkeys key hmem, (hflag (hkeys key hmem)).mpr hmem⟩

/-! ## Looking at the set -/

theorem pressedKey_eq_none_iff (m : Machine) : m.pressedKey = none ↔ m.keypad = ∅ := by
  rw [pressedKey, List.getLast?_eq_none_iff, List.eq_nil_iff_forall_not_mem,
    Finset.eq_empty_iff_forall_notMem]
  constructor
  · intro hnone key hmem
    have hnonneg : 0 ≤ key := ((m.mem_keypad key).mp hmem).1.1
    apply hnone key.toNat
    rwa [mem_pressedKeys, Int.toNat_of_nonneg hnonneg]
  · intro hnone key hmem
    exact hnone key ((m.mem_pressedKeys key).mp hmem)

/-- The flags are looked through in rising order, so the last pressed key is the greatest. -/
theorem isGreatest_of_pressedKey {m : Machine} {key : Nat} (h : m.pressedKey = some key) :
    IsGreatest (m.keypad : Set Int) key := by
  have hne : m.pressedKeys ≠ [] := by
    intro hnil
    rw [pressedKey, hnil] at h
    cases h
  have hlast : m.pressedKeys.getLast hne = key := by
    rw [pressedKey, List.getLast?_eq_some_getLast hne] at h
    exact Option.some.inj h
  rw [← hlast]
  have hsorted : m.pressedKeys.Pairwise (· ≤ ·) :=
    (List.pairwise_lt_range.imp Nat.le_of_lt).filter _
  constructor
  · exact (m.mem_pressedKeys _).mp (List.getLast_mem hne)
  · intro other hother
    have hnonneg : 0 ≤ other := ((m.mem_keypad other).mp hother).1.1
    have hmem : other.toNat ∈ m.pressedKeys := by
      rwa [mem_pressedKeys, Int.toNat_of_nonneg hnonneg]
    have hle := hsorted.rel_getLast hmem
    omega

theorem pressedKey_eq_some_iff (m : Machine) (key : Nat) :
    m.pressedKey = some key ↔ IsGreatest (m.keypad : Set Int) key := by
  constructor
  · exact isGreatest_of_pressedKey
  · intro hgreatest
    cases hfound : m.pressedKey with
    | none =>
        have hempty := (m.pressedKey_eq_none_iff).mp hfound
        have hmem : (key : Int) ∈ m.keypad := hgreatest.1
        rw [hempty] at hmem
        exact absurd hmem (Finset.notMem_empty _)
    | some found =>
        have hsame := (isGreatest_of_pressedKey hfound).unique hgreatest
        exact congrArg some (by exact_mod_cast hsame)

theorem getD_keys {m : Machine} {key : Int} (hkey : IsKey key) :
    m.keys.getD key.toNat false = decide (key ∈ m.keypad) := by
  apply Bool.eq_iff_iff.mpr
  rw [decide_eq_true_iff, mem_keypad]
  exact (and_iff_right hkey).symm

/-- How a machine goes on at a skip: over one instruction if the condition holds. -/
def skipping (m : Machine) (condition : Prop) [Decidable condition] : Machine :=
  { m with pc := m.pc + if condition then 4 else 2 }

/-- A word that asks for a skip at a pressed key skips if the key in its register is in the set,
and a word that asks for the other skip does so if it is not. -/
structure Skips (m : Machine) : Prop where
  pressed : ∀ word, Operation.skipIfPressed.IsAskedBy word →
    m.held (Field.ofWord word .x) ≤ 15 →
      Registry.run (decode word) m =
        .ok () (m.skipping (m.held (Field.ofWord word .x) ∈ m.keypad))
  unpressed : ∀ word, Operation.skipUnlessPressed.IsAskedBy word →
    m.held (Field.ofWord word .x) ≤ 15 →
      Registry.run (decode word) m =
        .ok () (m.skipping (m.held (Field.ofWord word .x) ∉ m.keypad))

/-- An instruction that only decides how to go on skips as its target says. -/
theorem run_decode_skips
    {m : Machine} (h : m.Intact) {word : Int} {condition : Prop} [Decidable condition]
    (hfine : ¬ (Operation.ofWord word).Faults word m)
    (heffect : (Operation.ofWord word).effect word m = m)
    (htarget : (Operation.ofWord word).target word m = m.pc + if condition then 4 else 2) :
    Registry.run (decode word) m = .ok () (m.skipping condition) := by
  have hnonneg := h.pc_range.1
  have hle := h.pc_le
  have hshort :
      (m.pc + if condition then 4 else 2) % 65536 = m.pc + if condition then 4 else 2 := by
    split <;> omega
  rw [Registry.run_decode_completes h.toWellFormed word hfine, Operation.completed, heffect,
    htarget, hshort, skipping]

theorem Intact.skips {m : Machine} (h : m.Intact) : m.Skips := by
  have hkey (word : Int) (hle : m.held (Field.ofWord word .x) ≤ 15) :
      IsKey (m.held (Field.ofWord word .x)) :=
    ⟨(h.held_range _).1, Int.lt_add_one_iff.mpr hle⟩
  constructor
  · intro word hasked hle
    have hword := (Operation.isAskedBy_iff _ word).mp hasked
    apply run_decode_skips h
    · rw [hword]
      exact Int.not_lt.mpr hle
    · rw [hword]
      rfl
    · simp only [hword, Operation.target, getD_keys (hkey word hle), decide_eq_true_iff]
  · intro word hasked hle
    have hword := (Operation.isAskedBy_iff _ word).mp hasked
    apply run_decode_skips h
    · rw [hword]
      exact Int.not_lt.mpr hle
    · rw [hword]
      rfl
    · simp only [hword, Operation.target, getD_keys (hkey word hle), decide_eq_true_iff, ite_not]

end Machine

namespace Interpreter

open Machine

variable {τ : Type} {s : Interpreter τ}

/-! ## Calls that leave the keys alone -/

theorem keys_step (h : s.machine.Intact) : (endState (step s)).machine.keys = s.machine.keys := by
  cases way h with
  | uninitialized hinit => rw [step_of_not_initialized hinit]; rfl
  | stopped hinit hstate => rw [step_of_halted hinit hstate]; rfl
  | waits hinit hstate hkey => rw [step_waits hinit hstate hkey]; rfl
  | resumes hinit hstate key hkey number hwaits hnumber =>
      rw [step_resumes hinit hstate hkey hwaits hnumber]
      obtain ⟨delay, sound, hmachine⟩ := machine_finish s.machine.pc none
        { s with machine := s.machine.resumed number key }
      rw [hmachine]
      rfl
  | unfetched hinit hstate hpc =>
      obtain ⟨cause, hstep⟩ := step_fetch_faults hinit h.toWellFormed hstate hpc
      rw [hstep]
      rfl
  | faults hinit hstate hpc hfault =>
      obtain ⟨cause, hstep⟩ := step_faults hinit h.toWellFormed hstate hpc hfault
      rw [hstep, Operation.remnant_eq]
      rfl
  | completes hinit hstate hpc hfine =>
      obtain ⟨cycles, delay, sound, hmachine⟩ :=
        machine_step_of_completes hinit h.toWellFormed hstate hpc hfine
      rw [hmachine]
      exact (Operation.continues_completed h.fetched.toWellFormed _ hfine).keys_eq

/-- Only key calls change the keys, whether or not the other calls return. -/
theorem keys_after
    [TimeScale τ] (h : s.machine.Intact) {call : Call τ} (hcall : ¬ call.IsKeyCall) :
    (call.after s).machine.keys = s.machine.keys := by
  cases call with
  | start now =>
      rw [Call.after, start_apply]
      split <;> rfl
  | loadProgram program =>
      obtain ⟨memory, length, hmachine⟩ := machine_loadProgram program s
      rw [Call.after, hmachine]
  | loadRom reader path =>
      obtain ⟨memory, length, hmachine⟩ := machine_loadRom reader path s
      rw [Call.after, hmachine]
  | restart =>
      rw [Call.after, restart_apply]
      rfl
  | step => exact keys_step h
  | runCycles now elapsed =>
      have hrun := runCycles_preserves
        (P := fun t => t.machine.Intact ∧ t.machine.keys = s.machine.keys)
        (fun t ht => ⟨intact_step ht.1, (keys_step ht.1).trans ht.2⟩) (fun _ _ ht => ht)
        (fun _ _ ht => ht) now elapsed ⟨h, rfl⟩
      exact hrun.2
  | fetch =>
      obtain ⟨word, hfetch⟩ := endState_fetch s.machine
      rw [Call.after, machine_onMachine, hfetch]
  | updateTimers =>
      rcases machine_updateTimers s with hmachine | hmachine
      · rw [Call.after, hmachine]
        rfl
      · rw [Call.after, hmachine]
        rfl
  | pressKey key | releaseKey key | setKeys keys => exact absurd trivial hcall

/-! ## Key calls -/

/-- How a call that names numbers changes the set of the pressed keys.  If one of them is no key,
the call is refused for it and changes nothing. -/
structure Updates (named : List Int) (pressed : Finset Int) (action : Action τ Unit)
    (s : Interpreter τ) : Prop where
  done : (∀ key ∈ named, IsKey key) →
    ∃ t, action s = .ok () t ∧ t.machine.keypad = pressed
  refused : ¬ (∀ key ∈ named, IsKey key) →
    ∃ key ∈ named, ¬ IsKey key ∧ action s = .error (.invalidKey key) s

theorem Updates.keypad_endState
    {named : List Int} {pressed : Finset Int} {action : Action τ Unit}
    (h : Updates named pressed action s) :
    (endState (action s)).machine.keypad =
      if ∀ key ∈ named, IsKey key then pressed else s.machine.keypad := by
  split
  next hnamed =>
    obtain ⟨t, hreturns, hpressed⟩ := h.done hnamed
    rw [hreturns]
    exact hpressed
  next hnamed =>
    obtain ⟨key, -, -, hfails⟩ := h.refused hnamed
    rw [hfails]
    rfl

theorem onMachine_setKey (pressed : Bool) (key : Int) (s : Interpreter τ) :
    onMachine (Machine.setKey pressed key) s =
      if IsKey key then
        .ok () { s with machine.keys := s.machine.keys.setIfInBounds key.toNat pressed }
      else .error (.invalidKey key) s := by
  by_cases hkey : IsKey key
  · simp only [onMachine_eq, Machine.setKey, hkey, if_true]
  · simp only [onMachine_eq, Machine.setKey, hkey, if_false]

/-- Setting one flag is refused for the only number that is named. -/
theorem updates_setKey
    {pressed : Bool} {key : Int} {keypad : Finset Int}
    (hset : IsKey key →
      Machine.keypad { s.machine with keys := s.machine.keys.setIfInBounds key.toNat pressed } =
        keypad) :
    Updates [key] keypad (onMachine (Machine.setKey pressed key)) s := by
  constructor
  · intro hnamed
    have hkey : IsKey key := List.forall_mem_singleton.mp hnamed
    refine
      ⟨{ s with machine.keys := s.machine.keys.setIfInBounds key.toNat pressed }, ?_, hset hkey⟩
    rw [onMachine_setKey, if_pos hkey]
  · intro hnamed
    have hkey : ¬ IsKey key := fun hkey => hnamed (List.forall_mem_singleton.mpr hkey)
    refine ⟨key, List.mem_singleton_self key, hkey, ?_⟩
    rw [onMachine_setKey, if_neg hkey]

/-- All numbers are looked at before the first flag is set. -/
theorem updates_setKeys (keys : List Int) : Updates keys keys.toFinset (setKeys keys) s := by
  constructor
  · intro hkeys
    refine ⟨_, setKeys_returns hkeys s, ?_⟩
    rw [endState_setKeys_of_isKey hkeys]
    exact keypad_pressing s.machine hkeys
  · intro hkeys
    rw [setKeys_apply]
    cases hfind : keys.find? fun key => ¬ IsKey key with
    | none => exact absurd (by simpa using hfind) hkeys
    | some key =>
        have hkey : ¬ IsKey key := by simpa using List.find?_some hfind
        exact ⟨key, List.mem_of_find?_eq_some hfind, hkey, rfl⟩

/-- What the key calls do to the set of the pressed keys. -/
structure KeyCallsUpdate (s : Interpreter τ) : Prop where
  pressKey : ∀ key, Updates [key] (insert key s.machine.keypad) (pressKey key) s
  releaseKey : ∀ key, Updates [key] (s.machine.keypad.erase key) (releaseKey key) s
  setKeys : ∀ keys, Updates keys keys.toFinset (setKeys keys) s

theorem keyCallsUpdate (hsize : s.machine.keys.size = keyCount) : KeyCallsUpdate s where
  pressKey _ := updates_setKey (keypad_press hsize)
  releaseKey _ := updates_setKey (keypad_release hsize)
  setKeys := updates_setKeys

/-! ## Runs -/

def Call.keypad (pressed : Finset Int) : Call τ → Finset Int
  | pressKey key => if IsKey key then insert key pressed else pressed
  | releaseKey key => if IsKey key then pressed.erase key else pressed
  | setKeys keys => if ∀ key ∈ keys, IsKey key then keys.toFinset else pressed
  | _ => pressed

variable [TimeScale τ]

theorem keypad_after (h : s.machine.Intact) (call : Call τ) :
    (call.after s).machine.keypad = call.keypad s.machine.keypad := by
  have hupdate := keyCallsUpdate h.size_keys
  cases call with
  | pressKey key =>
      have hone := (hupdate.pressKey key).keypad_endState
      simp only [List.forall_mem_singleton] at hone
      exact hone
  | releaseKey key =>
      have hone := (hupdate.releaseKey key).keypad_endState
      simp only [List.forall_mem_singleton] at hone
      exact hone
  | setKeys keys => exact (hupdate.setKeys keys).keypad_endState
  | _ => exact keypad_congr (keys_after h id)

theorem keypad_afterAll (h : s.machine.Intact) (calls : List (Call τ)) :
    (afterAll calls s).machine.keypad = calls.foldl Call.keypad s.machine.keypad := by
  induction calls generalizing s with
  | nil => rfl
  | cons call calls ih =>
      rw [List.foldl_cons, ← keypad_after h]
      exact ih (intact_after h call)

/-! ## Main result -/

/-- Along every run of any calls the pressed keys are the set that the key calls make of it.  In
each state of the run a key call updates the set as a whole or is refused, no other call changes it,
the machine finds its greatest member, and the two skips ask for membership. -/
theorem keypad_follows_calls (h : Reachable s) (calls : List (Call τ)) :
    let t := afterAll calls s
    let m := t.machine
    m.keypad = calls.foldl Call.keypad s.machine.keypad ∧
      KeyCallsUpdate t ∧
      (∀ call : Call τ, ¬ call.IsKeyCall → (call.after t).machine.keys = m.keys) ∧
      (m.pressedKey = none ↔ m.keypad = ∅) ∧
      (∀ key : Nat, m.pressedKey = some key ↔ IsGreatest (m.keypad : Set Int) key) ∧
      m.Skips := by
  intro t m
  have hintact : m.Intact := (h.afterAll calls).intact
  refine ⟨keypad_afterAll h.intact calls, keyCallsUpdate hintact.size_keys, ?_,
    m.pressedKey_eq_none_iff, m.pressedKey_eq_some_iff, hintact.skips⟩
  intro call hcall
  exact keys_after hintact hcall

/-- A list with a number that is no key is refused, and the keys that were pressed before stay
pressed.  The next list takes their place, and of its keys one is released again. -/
theorem keypad_follows_calls_refused :
    let calls : List (Call Rat) :=
      [.start 0, .pressKey 3, .setKeys [7, 20], .step, .setKeys [5, 2, 5], .pressKey 9,
        .releaseKey 2]
    let t := afterAll calls blank
    t.machine.keypad = {5, 9} ∧ t.machine.pressedKey = some 9 ∧
      setKeys [1, 16] t = .error (.invalidKey 16) t := by
  intro calls t
  obtain ⟨hkeypad, hupdate, -, -, hgreatest, -⟩ :=
    keypad_follows_calls fresh_blank.reachable calls
  have hset : t.machine.keypad = {5, 9} := hkeypad.trans (by decide)
  obtain ⟨key, hmem, hkey, hrefused⟩ := (hupdate.setKeys [1, 16]).refused (by decide)
  have hsixteen : key = 16 := by
    rcases List.mem_pair.mp hmem with rfl | rfl
    · exact absurd (by decide) hkey
    · rfl
  refine ⟨hset, (hgreatest 9).mpr ?_, ?_⟩
  · rw [hset]
    constructor <;> simp [upperBounds]
  · rwa [hsixteen] at hrefused

end Interpreter

end Chip8
