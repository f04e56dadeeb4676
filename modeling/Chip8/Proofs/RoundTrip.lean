import Chip8.Proofs.Footprint

/-!
# Round trips between registers and memory

Storing registers and loading registers undo each other.  What was stored comes back when it is
loaded from the same place, whatever the registers hold by then, and storing what was just loaded
changes no byte.  The digits that a decimal store leaves are loaded as the digits of the number.

The two transfers are first described by what stands in each byte and in each register after
them; the round trips only compose these descriptions.
-/

namespace Chip8

namespace Machine

/-! ## The instructions -/

/-- Stores the registers up to `x`, by `FX55`. -/
def storeUpTo (x : Fin 16) : Action Unit :=
  Registry.run (decode (0xF055 + 0x100 * (x : Int)))

/-- Loads the registers up to `x`, by `FX65`. -/
def loadUpTo (x : Fin 16) : Action Unit :=
  Registry.run (decode (0xF065 + 0x100 * (x : Int)))

/-- Stores the decimal digits of register `x`, by `FX33`. -/
def storeDigits (x : Fin 16) : Action Unit :=
  Registry.run (decode (0xF033 + 0x100 * (x : Int)))

/-- What storing the registers up to `x` does to memory. -/
structure StoresUpTo (x : Nat) (m m' : Machine) : Prop where
  v : m'.v = m.v
  i : m'.i = m.i + x + 1
  stored : ∀ n ≤ x, m'.memory[m.i.toNat + n]? = some (.ofInt (m.held n))
  outside : ∀ address : Nat, ¬ (m.i ≤ address ∧ address ≤ m.i + x) →
    m'.memory[address]? = m.memory[address]?

/-- What loading the registers up to `x` does to them. -/
structure LoadsUpTo (x : Nat) (m m' : Machine) : Prop where
  memory : m'.memory = m.memory
  i : m'.i = m.i + x + 1
  loaded : ∀ n ≤ x, m'.v[n]? = some ((m.memory.getD (m.i.toNat + n) 0).toNat : Int)
  kept : ∀ n, x < n → m'.v[n]? = m.v[n]?

section

variable {m m' : Machine} {x : Fin 16}

theorem ofWord_storeWord (x : Fin 16) :
    Operation.ofWord (0xF055 + 0x100 * (x : Int)) = .storeRegisters ∧
      Field.ofWord (0xF055 + 0x100 * (x : Int)) .x = x := by
  decide +revert

theorem ofWord_loadWord (x : Fin 16) :
    Operation.ofWord (0xF065 + 0x100 * (x : Int)) = .loadRegisters ∧
      Field.ofWord (0xF065 + 0x100 * (x : Int)) .x = x := by
  decide +revert

theorem ofWord_digitsWord (x : Fin 16) :
    Operation.ofWord (0xF033 + 0x100 * (x : Int)) = .storeDecimal ∧
      Field.ofWord (0xF033 + 0x100 * (x : Int)) .x = x := by
  decide +revert

theorem getElem?_v (hv : m.v.size = registerCount) {n : Nat} (hn : n < 16) :
    m.v[n]? = some (m.held n) := by
  have hin : n < m.v.size := by
    rw [hv]
    exact hn
  rw [held, Int.toNat_natCast, Array.getD_eq_getD_getElem?, Array.getElem?_eq_getElem hin,
    Option.getD_some]

theorem getElem?_memory (hsize : m.memory.size = memorySize) {n : Nat} (hn : n < 4096) :
    m.memory[n]? = some (m.memory.getD n 0) := by
  have hin : n < m.memory.size := by
    rw [hsize]
    exact hn
  rw [Array.getD_eq_getD_getElem?, Array.getElem?_eq_getElem hin, Option.getD_some]

theorem wellFormed_of_run
    (h : m.WellFormed) {word : Int} (hrun : Registry.run (decode word) m = .ok () m') :
    m'.WellFormed := by
  rw [Registry.run_decode] at hrun
  have hend := (Operation.keeps_perform (.ofWord word) (.ofWord word)).wellFormed_endState h
  rwa [hrun] at hend

theorem ofInt_toNat (byte : UInt8) : UInt8.ofInt (byte.toNat : Int) = byte := by
  have hlt := byte.toNat_lt
  have hlow := toNat_ofInt byte.toNat
  exact UInt8.toNat_inj.mp (by omega)

/-- The registers up to `x` are stored whenever they fit in front of the end of memory. -/
theorem storeUpTo_stores (h : m.WellFormed) (hfits : m.i + x ≤ 0xFFF) :
    ∃ m', storeUpTo x m = .ok () m' ∧ StoresUpTo x m m' := by
  obtain ⟨hword, hx⟩ := ofWord_storeWord x
  set word : Int := 0xF055 + 0x100 * (x : Int)
  have hi := h.i_range.1
  have hfine : ¬ (Operation.ofWord word).Faults word m := by
    rw [hword]
    show ¬ 0xFFF < m.i + Field.ofWord word .x
    omega
  refine ⟨_, Registry.run_decode_completes h word hfine, ?_⟩
  rw [hword] at hfine ⊢
  refine ⟨rfl, ?_, fun n hn => ?_, fun address hout => ?_⟩
  · rw [← hx]
    exact Operation.i_effect_of_transfer h (Or.inl rfl) hfine
  · have hcount : (Field.ofWord word .x + 1).toNat = x + 1 := by omega
    have hmemory : m.memory.size = 4096 := h.size_memory
    show (overlay m.memory m.i.toNat
      ((m.heldFrom 0 (Field.ofWord word .x + 1).toNat).map UInt8.ofInt))[m.i.toNat + n]? = _
    rw [getElem?_overlay, List.length_map, length_heldFrom, hcount, if_pos (by omega)]
    simp [heldFrom, show n < x + 1 by omega]
  · refine Operation.memory_effect h .storeRegisters ?_
    show ¬ (m.i ≤ address ∧ address ≤ m.i + Field.ofWord word .x)
    rwa [hx]

/-- The registers up to `x` are loaded whenever they fit in front of the end of memory, whatever
they and the others hold. -/
theorem loadUpTo_loads
    (hv : m.v.size = registerCount) (hi : 0 ≤ m.i) (hfits : m.i + x ≤ 0xFFF) :
    ∃ m', loadUpTo x m = .ok () m' ∧ LoadsUpTo x m m' := by
  obtain ⟨hword, hx⟩ := ofWord_loadWord x
  set word : Int := 0xF065 + 0x100 * (x : Int)
  have hin : ¬ 0xFFF < m.i + Field.ofWord word .x := by omega
  have hrun : loadUpTo x m = .ok () (Operation.completed .loadRegisters word m) := by
    rw [loadUpTo, Registry.run_decode, hword, Operation.perform_loadRegisters hv hi, if_neg hin]
  refine ⟨_, hrun, rfl, ?_, fun n hn => ?_, fun n hn => ?_⟩
  · show (m.i + Field.ofWord word .x + 1) % 65536 = _
    omega
  · have hplace : (m.i + n).toNat = m.i.toNat + n := by omega
    have hcond : 0 ≤ n ∧ n < 0 + (Field.ofWord word .x + 1).toNat ∧
        m.i + n < memorySize := by
      show _ ∧ _ ∧ m.i + n < 4096
      omega
    show (m.v.mapIdx _)[n]? = _
    rw [Array.getElem?_mapIdx, getElem?_v hv (by omega), Option.map_some, hplace, if_pos hcond]
  · show (m.v.mapIdx _)[n]? = _
    cases hvalue : m.v[n]? with
    | none => rw [Array.getElem?_mapIdx, hvalue, Option.map_none]
    | some value =>
        rw [Array.getElem?_mapIdx, hvalue, Option.map_some, if_neg (by omega)]

/-! ## The three round trips -/

/-- Loading gives back what was stored in the same place. -/
theorem StoresUpTo.v_of_loads
    (h : m.WellFormed) {stored : Machine} (hstores : StoresUpTo x m stored) {v : Array Int}
    (hkept : ∀ n : Nat, (x : Nat) < n → v[n]? = stored.v[n]?)
    (hloads : LoadsUpTo x { stored with v := v, i := m.i } m') : m'.v = m.v := by
  apply Array.ext_getElem?
  intro n
  by_cases hn : n ≤ (x : Nat)
  · have hrange := h.held_range n
    have hbyte : ((UInt8.ofInt (m.held n)).toNat : Int) = m.held n := by
      rw [toNat_ofInt]
      omega
    rw [hloads.loaded n hn, getElem?_v h.size_v (by omega)]
    dsimp only
    rw [Array.getD_eq_getD_getElem?, hstores.stored n hn, Option.getD_some, hbyte]
  · have habove : (x : Nat) < n := by omega
    rw [hloads.kept n habove, hkept n habove, hstores.v]

/-- Storing puts back what was loaded from the same place. -/
theorem LoadsUpTo.memory_of_stores
    (h : m.WellFormed) (hfits : m.i + x ≤ 0xFFF) {loaded : Machine}
    (hloads : LoadsUpTo x m loaded) (hstores : StoresUpTo x { loaded with i := m.i } m') :
    m'.memory = m.memory := by
  have hi := h.i_range.1
  apply Array.ext_getElem?
  intro address
  by_cases hin : m.i ≤ address ∧ address ≤ m.i + x
  · obtain ⟨n, hn, rfl⟩ : ∃ n ≤ (x : Nat), address = m.i.toNat + n :=
      ⟨address - m.i.toNat, by omega, by omega⟩
    have hheld : Machine.held { loaded with i := m.i } n =
        ((m.memory.getD (m.i.toNat + n) 0).toNat : Int) := by
      rw [held, Int.toNat_natCast, Array.getD_eq_getD_getElem?, hloads.loaded n hn,
        Option.getD_some]
    rw [hstores.stored n hn, hheld, getElem?_memory h.size_memory (by omega), ofInt_toNat]
  · rw [hstores.outside address hin]
    exact congrArg (fun memory : Array UInt8 => memory[address]?) hloads.memory

/-- The digits of a byte are loaded as numbers below ten, and make up the byte. -/
theorem digits_of_loads
    (h : m.WellFormed) {written : Machine} (hi : written.i = m.i)
    (hdigits : ∀ n < 3, written.memory[m.i.toNat + n]? =
      (decimalDigits (m.held x))[n]?.map UInt8.ofInt)
    (hloads : LoadsUpTo 2 written m') :
    m'.held 0 = m.held x / 100 ∧ m'.held 1 = m.held x / 10 % 10 ∧
      m'.held 2 = m.held x % 100 % 10 := by
  have hrange := h.held_range x
  have hheld (n : Nat) (hn : n < 3) (digit : Int)
      (hdigit : (decimalDigits (m.held x))[n]? = some digit) (hbyte : digit % 256 = digit) :
      m'.held n = digit := by
    have hloaded := hloads.loaded n (by omega)
    rw [hi, Array.getD_eq_getD_getElem?, hdigits n hn, hdigit, Option.map_some, Option.getD_some,
      toNat_ofInt, hbyte] at hloaded
    rw [held, Int.toNat_natCast, Array.getD_eq_getD_getElem?, hloaded, Option.getD_some]
  exact ⟨hheld 0 (by omega) _ rfl (by omega), hheld 1 (by omega) _ rfl (by omega),
    hheld 2 (by omega) _ rfl (by omega)⟩

/-- The digits of a register are stored whenever they fit in front of the end of memory. -/
theorem storeDigits_stores (h : m.WellFormed) (hfits : m.i ≤ 0xFFD) :
    ∃ written, storeDigits x m = .ok () written ∧ written.i = m.i ∧
      (∀ n < 3, written.memory[m.i.toNat + n]? =
        (decimalDigits (m.held x))[n]?.map UInt8.ofInt) ∧
      ∀ address : Nat, ¬ (m.i ≤ address ∧ address ≤ m.i + 2) →
        written.memory[address]? = m.memory[address]? := by
  obtain ⟨hword, hx⟩ := ofWord_digitsWord x
  set word : Int := 0xF033 + 0x100 * (x : Int)
  have hi := h.i_range.1
  have hfine : ¬ (Operation.ofWord word).Faults word m := by
    rw [hword]
    show ¬ 0xFFD < m.i
    omega
  refine ⟨_, Registry.run_decode_completes h word hfine, ?_⟩
  rw [hword]
  refine ⟨rfl, fun n hn => ?_, fun address hout => ?_⟩
  · have hmemory : m.memory.size = 4096 := h.size_memory
    have hlength : ((decimalDigits (m.held (Field.ofWord word .x))).map UInt8.ofInt).length = 3 :=
      rfl
    show (overlay m.memory m.i.toNat
      ((decimalDigits (m.held (Field.ofWord word .x))).map UInt8.ofInt))[m.i.toNat + n]? = _
    rw [getElem?_overlay, hlength, if_pos (by omega), List.getElem?_map, hx,
      Nat.add_sub_cancel_left]
  · exact Operation.memory_effect h .storeDecimal hout

end

/-! ## Main result -/

/-- The transfers undo each other.  Stored registers are loaded back over anything that they were
changed to, with the registers above and the bytes around them as they were, and what was loaded
is stored back without a change.  A longer store begins as a shorter one does.  The digits of a
decimal store are loaded as numbers below ten that make up the register. -/
theorem transfers_invert {m : Machine} (h : m.WellFormed) :
    (∀ x : Fin 16, m.i + x ≤ 0xFFF →
      (∃ stored, storeUpTo x m = .ok () stored ∧
        ∀ v : Array Int, v.size = registerCount →
          (∀ n : Nat, (x : Nat) < n → v[n]? = stored.v[n]?) →
          ∃ m', loadUpTo x { stored with v := v, i := m.i } = .ok () m' ∧
            m'.v = m.v ∧ m'.i = m.i + x + 1 ∧
            ∀ address : Nat, ¬ (m.i ≤ address ∧ address ≤ m.i + x) →
              m'.memory[address]? = m.memory[address]?) ∧
      ∃ loaded m', loadUpTo x m = .ok () loaded ∧
        storeUpTo x { loaded with i := m.i } = .ok () m' ∧ m'.memory = m.memory) ∧
    (∀ x z : Fin 16, x < z → m.i + z ≤ 0xFFF →
      ∃ short long, storeUpTo x m = .ok () short ∧ storeUpTo z m = .ok () long ∧
        ∀ address : Nat, m.i ≤ address → address ≤ m.i + x →
          long.memory[address]? = short.memory[address]?) ∧
    (m.i ≤ 0xFFD → ∀ x : Fin 16,
      ∃ written m', storeDigits x m = .ok () written ∧ loadUpTo 2 written = .ok () m' ∧
        (∀ digit ∈ [m'.held 0, m'.held 1, m'.held 2], 0 ≤ digit ∧ digit ≤ 9) ∧
        100 * m'.held 0 + 10 * m'.held 1 + m'.held 2 = m.held x ∧
        ∀ address : Nat, ¬ (m.i ≤ address ∧ address ≤ m.i + 2) →
          m'.memory[address]? = m.memory[address]?) := by
  have hi := h.i_range.1
  refine ⟨fun x hfits => ⟨?restored, ?returned⟩, fun x z hlt hfits => ?split,
    fun hfits x => ?decimal⟩
  case restored =>
    obtain ⟨stored, hstore, hstores⟩ := storeUpTo_stores h hfits
    refine ⟨stored, hstore, fun v hv hkept => ?_⟩
    obtain ⟨m', hload, hloads⟩ :=
      loadUpTo_loads (m := { stored with v := v, i := m.i }) hv hi hfits
    refine ⟨m', hload, hstores.v_of_loads h hkept hloads, hloads.i, fun address hout => ?_⟩
    rw [hloads.memory]
    exact hstores.outside address hout
  case returned =>
    obtain ⟨loaded, hload, hloads⟩ := loadUpTo_loads h.size_v hi hfits
    have hwf : Machine.WellFormed { loaded with i := m.i } :=
      { wellFormed_of_run h hload with i_range := h.i_range }
    obtain ⟨m', hstore, hstores⟩ := storeUpTo_stores hwf hfits
    exact ⟨loaded, m', hload, hstore, hloads.memory_of_stores h hfits hstores⟩
  case split =>
    have hle : (x : Nat) < z := hlt
    obtain ⟨short, hshort, hstores⟩ := storeUpTo_stores (x := x) h (by omega)
    obtain ⟨long, hlong, hstores'⟩ := storeUpTo_stores h hfits
    refine ⟨short, long, hshort, hlong, fun address hfirst hlast => ?_⟩
    obtain ⟨n, hn, rfl⟩ : ∃ n ≤ (x : Nat), address = m.i.toNat + n :=
      ⟨address - m.i.toNat, by omega, by omega⟩
    rw [hstores.stored n hn, hstores'.stored n (by omega)]
  case decimal =>
    obtain ⟨written, hstore, hsame, hdigits, hout⟩ := storeDigits_stores (x := x) h hfits
    have hwf := wellFormed_of_run h hstore
    obtain ⟨m', hload, hloads⟩ :=
      loadUpTo_loads (x := 2) hwf.size_v hwf.i_range.1 (by rw [hsame]; omega)
    obtain ⟨hhundreds, htens, hones⟩ := digits_of_loads h hsame hdigits hloads
    have hrange := h.held_range x
    refine ⟨written, m', hstore, hload, ?_, by omega, fun address houtside => ?_⟩
    · rw [hhundreds, htens, hones]
      simp only [List.forall_mem_cons]
      exact ⟨by omega, by omega, by omega, List.forall_mem_nil _⟩
    · rw [hloads.memory]
      exact hout address houtside

/-- A machine whose index register points to the third last byte of memory. -/
def edged : Machine where
  random := { words := #[], position := 0 }
  v := #[254, 17, 3, 9] ++ Array.replicate 12 0
  i := 0xFFD

theorem wellFormed_edged : edged.WellFormed :=
  { wellFormed_zeroed edged.random with
    v_range := by
      have hbytes : ∀ value ∈ edged.v.toList, 0 ≤ value ∧ value ≤ 0xFF := by decide
      exact fun value hmem => hbytes value hmem.val
    i_range := by decide }

/-- The last three bytes of memory take the digits of the first register, and the registers that
are loaded from there make it up. -/
theorem transfers_invert_edged :
    ∃ written m', storeDigits 0 edged = .ok () written ∧ loadUpTo 2 written = .ok () m' ∧
      100 * m'.held 0 + 10 * m'.held 1 + m'.held 2 = 254 := by
  obtain ⟨-, -, hdecimal⟩ := transfers_invert wellFormed_edged
  obtain ⟨written, m', hstore, hload, -, hvalue, -⟩ := hdecimal (by decide) 0
  exact ⟨written, m', hstore, hload, hvalue⟩

end Machine

end Chip8
