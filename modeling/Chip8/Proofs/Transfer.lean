import Chip8.Proofs.Evaluation
import Mathlib.Data.List.Range

/-!
# Transfers between registers and memory

The two transfers and the decimal store walk through memory from the index register on, and
stop at its end.  Each of them does the same whether or not it reaches the end: it moves the
bytes that have an address.  It fails exactly when one of them has none.
-/

namespace Chip8

namespace Machine

/-! ## Overlays -/

/-- A cell of an overlaid table is the byte that was laid over it, or the old one. -/
theorem getElem?_overlay (table : Array UInt8) (place : Nat) (bytes : List UInt8) (a : Nat) :
    (overlay table place bytes)[a]? =
      if place ≤ a ∧ a < place + bytes.length ∧ a < table.size then bytes[a - place]?
      else table[a]? := by
  induction bytes generalizing table place with
  | nil =>
      have hnone : ¬ (place ≤ a ∧ a < place + ([] : List UInt8).length ∧ a < table.size) := by
        rw [List.length_nil]
        omega
      rw [overlay, if_neg hnone]
  | cons byte bytes ih =>
      rw [overlay, ih]
      simp only [Array.size_setIfInBounds, List.length_cons]
      by_cases hplace : a = place
      · subst hplace
        have hrest : ¬ (a + 1 ≤ a ∧ a < a + 1 + bytes.length ∧ a < table.size) := by omega
        rw [if_neg hrest]
        by_cases hlt : a < table.size
        · simp [hlt]
        · simp [hlt]
      · rw [Array.getElem?_setIfInBounds_ne (by omega)]
        by_cases hin : place + 1 ≤ a ∧ a < place + 1 + bytes.length ∧ a < table.size
        · have hin' : place ≤ a ∧ a < place + (bytes.length + 1) ∧ a < table.size := by omega
          have hindex : a - place = (a - (place + 1)) + 1 := by omega
          rw [if_pos hin, if_pos hin', hindex, List.getElem?_cons_succ]
        · have hout : ¬ (place ≤ a ∧ a < place + (bytes.length + 1) ∧ a < table.size) := by
            omega
          rw [if_neg hin, if_neg hout]

/-- Cells in front of and behind what is laid over a table keep their bytes. -/
theorem getElem?_overlay_of_outside
    {place a : Nat} {bytes : List UInt8} (hout : ¬ (place ≤ a ∧ a < place + bytes.length))
    (table : Array UInt8) : (overlay table place bytes)[a]? = table[a]? := by
  rw [getElem?_overlay, if_neg fun h => hout ⟨h.1, h.2.1⟩]

/-- Nothing is laid over a table from its end on. -/
theorem overlay_of_size_le
    {table : Array UInt8} {place : Nat} (h : table.size ≤ place) (bytes : List UInt8) :
    overlay table place bytes = table := by
  apply Array.ext_getElem?
  intro a
  rw [getElem?_overlay, if_neg (by omega)]

theorem toNat_ofInt (value : Int) : ((UInt8.ofInt value).toNat : Int) = value % 256 := by
  have hnonneg : 0 ≤ value % 2 ^ 8 := by omega
  rw [UInt8.ofInt, UInt8.toNat_ofNat']
  omega

/-- The machine with the low bytes of values written from an address on.  Values beyond the
end of memory are lost. -/
def storing (m : Machine) (place : Nat) (values : List Int) : Machine :=
  { m with memory := overlay m.memory place (values.map UInt8.ofInt) }

/-- Values are written one after the other. -/
theorem storing_cons (m : Machine) (place : Nat) (value : Int) (values : List Int) :
    m.storing place (value :: values) = (m.storing place [value]).storing (place + 1) values :=
  rfl

theorem storing_of_size_le
    {m : Machine} {place : Nat} (h : m.memory.size ≤ place) (values : List Int) :
    m.storing place values = m := by
  simp only [storing, overlay_of_size_le h]

/-- A write to an address stores one byte; a write elsewhere is a fault. -/
theorem writeByte_eq
    {m : Machine} {address : Int} (hsize : m.memory.size = memorySize) (hnonneg : 0 ≤ address)
    (value : Int) :
    writeByte address value m =
      if address < memorySize then .ok () (m.storing address.toNat [value])
      else .error (.fault (.memoryWrite address)) (m.storing address.toNat [value]) := by
  by_cases hlt : address < memorySize
  · simp only [writeByte, IsAddress, hnonneg, hlt, and_self, if_true]
    rfl
  · have hout : m.memory.size ≤ address.toNat := by
      rw [hsize]
      omega
    simp only [writeByte, IsAddress, hlt, and_false, if_false, storing_of_size_le hout]

/-- Writes values one after the other, from an offset behind the index register on. -/
def writeFrom : (offset : Nat) → List Int → Action Unit
  | _, [] => pure ()
  | offset, value :: values => do
      writeByte ((← get).i + offset) value
      writeFrom (offset + 1) values

/-- Writing values stores those that have an address, and fails if one has none. -/
theorem writeFrom_apply
    {m : Machine} (hsize : m.memory.size = memorySize) (hi : 0 ≤ m.i) (offset : Nat)
    (values : List Int) :
    writeFrom offset values m =
      if values = [] ∨ m.i + offset + values.length ≤ memorySize then
        .ok () (m.storing (m.i.toNat + offset) values)
      else
        .error (.fault (.memoryWrite (max (m.i + offset) memorySize)))
          (m.storing (m.i.toNat + offset) values) := by
  induction values generalizing offset m with
  | nil => rfl
  | cons value values ih =>
      have hplace : (m.i + offset).toNat = m.i.toNat + offset := by omega
      rw [writeFrom, bind_apply, get_apply]
      dsimp only
      rw [bind_apply, writeByte_eq hsize (by omega), hplace]
      by_cases hlt : m.i + offset < memorySize
      · have hrest := ih (m := m.storing (m.i.toNat + offset) [value])
          (by simpa [storing] using hsize) hi (offset + 1)
        have hcond : (values = [] ∨ m.i + (offset + 1 : Nat) + values.length ≤ memorySize) ↔
            (value :: values = [] ∨
              m.i + offset + (value :: values).length ≤ memorySize) := by
          rw [List.length_cons]
          constructor
          · rintro (hnil | hfits)
            · rw [hnil, List.length_nil]
              exact Or.inr (by omega)
            · exact Or.inr (by omega)
          · rintro (hcons | hfits)
            · cases hcons
            · exact Or.inr (by omega)
        have hmax : max (m.i + (offset + 1 : Nat)) memorySize =
            max (m.i + offset) memorySize := by
          omega
        rw [if_pos hlt, storing_cons, ← hmax]
        simp only [← hcond]
        exact hrest
      · have hcond : ¬ (value :: values = [] ∨
            m.i + offset + (value :: values).length ≤ memorySize) := by
          rintro (hcons | hfits)
          · cases hcons
          · rw [List.length_cons] at hfits
            omega
        have hmax : max (m.i + offset) (memorySize : Int) = m.i + offset := by omega
        have hout : m.memory.size ≤ m.i.toNat + offset := by
          rw [hsize]
          omega
        rw [if_neg hlt, if_neg hcond, hmax, storing_of_size_le hout, storing_of_size_le hout]

/-! ## Storing registers -/

def heldFrom (m : Machine) (first count : Nat) : List Int :=
  (List.range' first count).map fun (n : Nat) => m.held n

@[simp] theorem length_heldFrom (m : Machine) (first count : Nat) :
    (m.heldFrom first count).length = count := by
  simp [heldFrom]

theorem heldFrom_eq_nil_iff (m : Machine) (first count : Nat) :
    m.heldFrom first count = [] ↔ count = 0 := by
  rw [← List.length_eq_zero_iff, length_heldFrom]

/-- Storing registers writes their values: no write changes a register that is yet to come. -/
theorem sweep_storeRegister
    (base : Machine) (hv : base.v.size = registerCount) (count first : Nat)
    (hcount : first + count ≤ 16) (m : Machine) (hsame : m.v = base.v) :
    Action.sweep Execute.storeRegister count first m =
      writeFrom first (base.heldFrom first count) m := by
  induction count generalizing first m with
  | zero => rfl
  | succ count ih =>
      have hnumber : IsRegister (first : Int) := by
        show (0 : Int) ≤ first ∧ (first : Int) < 16
        omega
      have hsize : m.v.size = registerCount := by rw [hsame, hv]
      have hheld : m.held first = base.held first := by rw [held, held, hsame]
      have hcons : base.heldFrom first (count + 1) =
          base.held first :: base.heldFrom (first + 1) count := rfl
      simp only [Action.sweep, Execute.storeRegister, hcons, writeFrom, bind_apply,
        register_apply hsize hnumber, hheld, get_apply]
      by_cases haddress : IsAddress (m.i + first)
      · simp only [writeByte, haddress, if_true]
        exact ih (first + 1) (by omega) _ hsame
      · simp only [writeByte, haddress, if_false]

/-! ## Storing decimal digits -/

/-- The three decimal digits of a byte, hundreds first. -/
def decimalDigits (value : Int) : List Int :=
  [value / 100, value / 10 % 10, value % 100 % 10]

theorem storeDecimal_eq
    {m : Machine} (hv : m.v.size = registerCount) (word : Int) :
    Execute.storeDecimal (.ofWord word) m =
      (do
        writeFrom 0 (decimalDigits (m.held (Field.ofWord word .x)))
        advance 2 : Action Unit) m := by
  simp only [decimalDigits, writeFrom, bind_assoc, pure_bind]
  simp [Execute.storeDecimal, needRegister_x hv]

/-! ## Loading registers -/

/-- The machine with registers loaded from the memory behind the index register.  Registers
whose byte would lie beyond the end of memory keep their values. -/
def loading (m : Machine) (first count : Nat) : Machine :=
  { m with
    v := m.v.mapIdx fun n value =>
      if first ≤ n ∧ n < first + count ∧ m.i + n < memorySize then
        ((m.memory.getD (m.i + n).toNat 0).toNat : Int)
      else value }

theorem loading_eq_self
    {m : Machine} {first count : Nat}
    (h : ∀ n : Nat, ¬ (first ≤ n ∧ n < first + count ∧ m.i + n < memorySize)) :
    m.loading first count = m := by
  have hv : (m.loading first count).v = m.v := by
    apply Array.ext
    · simp [loading]
    · intro n hn hn'
      simp only [loading, Array.getElem_mapIdx, if_neg (h n)]
  calc
    m.loading first count = { m with v := (m.loading first count).v } := rfl
    _ = m := by rw [hv]

theorem loading_zero (m : Machine) (first : Nat) : m.loading first 0 = m :=
  loading_eq_self fun n => by omega

theorem loading_of_memorySize_le
    {m : Machine} {first : Nat} (h : memorySize ≤ m.i + first) (count : Nat) :
    m.loading first count = m :=
  loading_eq_self fun n => by omega

theorem loading_succ (m : Machine) (first count : Nat) :
    m.loading first (count + 1) = (m.loading first 1).loading (first + 1) count := by
  have hv : (m.loading first (count + 1)).v =
      ((m.loading first 1).loading (first + 1) count).v := by
    apply Array.ext
    · simp [loading]
    · intro n hn hn'
      simp only [loading, Array.getElem_mapIdx]
      by_cases hrest : first + 1 ≤ n ∧ n < first + 1 + count ∧ m.i + n < memorySize
      · rw [if_pos hrest, if_pos (by omega)]
      · rw [if_neg hrest]
        have hcond : (first ≤ n ∧ n < first + (count + 1) ∧ m.i + n < memorySize) ↔
            (first ≤ n ∧ n < first + 1 ∧ m.i + n < memorySize) := by
          omega
        simp only [hcond]
  calc
    m.loading first (count + 1) = { m with v := (m.loading first (count + 1)).v } := rfl
    _ = { m with v := ((m.loading first 1).loading (first + 1) count).v } := by rw [hv]
    _ = (m.loading first 1).loading (first + 1) count := rfl

theorem loadRegister_eq
    {m : Machine} (hv : m.v.size = registerCount) (hi : 0 ≤ m.i) {n : Nat} (hn : n < 16) :
    Execute.loadRegister n m =
      if m.i + n < memorySize then .ok () (m.loading n 1)
      else .error (.fault (.memoryRead (m.i + n))) (m.loading n 1) := by
  by_cases hlt : m.i + n < memorySize
  · have haddress : IsAddress (m.i + n) := ⟨by omega, hlt⟩
    have hplace : n < m.v.size := by
      rw [hv]
      exact hn
    have hloaded : (m.loading n 1).v =
        m.v.setIfInBounds n ((m.memory.getD (m.i + n).toNat 0).toNat : Int) := by
      apply Array.ext
      · simp [loading]
      · intro k hk hk'
        simp only [loading, Array.getElem_mapIdx]
        by_cases hkn : n = k
        · subst hkn
          rw [if_pos ⟨le_refl _, by omega, hlt⟩, Array.getElem_setIfInBounds_self]
        · have hkm : k < m.v.size := by simpa using hk'
          rw [if_neg (by omega), Array.getElem_setIfInBounds_ne hkm hkn]
    have hmachine : m.loading n 1 = { m with v := (m.loading n 1).v } := rfl
    simp only [Execute.loadRegister, bind_apply, get_apply, readByte_apply haddress, assign,
      if_pos hplace, if_pos hlt]
    rw [hmachine, hloaded]
  · have haddress : ¬ IsAddress (m.i + n) := fun h => hlt h.2
    simp only [Execute.loadRegister, bind_apply, get_apply, readByte_eq_error haddress,
      if_neg hlt]
    rw [loading_of_memorySize_le (by omega)]

/-- Loading registers reads the bytes that have an address, and fails if one has none. -/
theorem sweep_loadRegister
    {m : Machine} (hv : m.v.size = registerCount) (hi : 0 ≤ m.i)
    (count first : Nat) (hcount : first + count ≤ 16) :
    Action.sweep Execute.loadRegister count first m =
      if count = 0 ∨ m.i + first + count ≤ memorySize then .ok () (m.loading first count)
      else
        .error (.fault (.memoryRead (max (m.i + first) memorySize)))
          (m.loading first count) := by
  induction count generalizing first m with
  | zero => rw [Action.sweep, pure_apply, if_pos (Or.inl rfl), loading_zero]
  | succ count ih =>
      rw [Action.sweep, bind_apply, loadRegister_eq hv hi (by omega)]
      by_cases hlt : m.i + first < memorySize
      · have hrest := ih (m := m.loading first 1) (by simpa [loading] using hv) hi
          (first + 1) (by omega)
        have hcond : (count = 0 ∨ m.i + (first + 1 : Nat) + count ≤ memorySize) ↔
            (count + 1 = 0 ∨ m.i + first + (count + 1 : Nat) ≤ memorySize) := by
          omega
        have hmax : max (m.i + (first + 1 : Nat)) memorySize = max (m.i + first) memorySize := by
          omega
        rw [if_pos hlt, loading_succ m first count, ← hmax]
        simp only [← hcond]
        exact hrest
      · have hcond : ¬ (count + 1 = 0 ∨ m.i + first + (count + 1 : Nat) ≤ memorySize) := by
          omega
        have hmax : max (m.i + first) (memorySize : Int) = m.i + first := by omega
        rw [if_neg hlt, if_neg hcond, hmax, loading_of_memorySize_le (by omega),
          loading_of_memorySize_le (by omega)]

end Machine

end Chip8
