import Chip8.Proofs.Sprite
import Chip8.Screen.Picture
import Mathlib.Data.List.Basic
import Mathlib.Tactic.Ring

/-!
# Pictures from a library for tables

A library for tables can refuse any of its operations.  What is relied on is therefore only what it
returns: a table is given by its cells, and the cells of the result by those of the arguments, as
the Kronecker product and the choice between two values are defined.  From this the picture of a
screen follows for every library.  It is made exactly if the library refuses none of seven calls,
and a library that makes every table up to some number of bytes makes every picture up to it.
-/

namespace Chip8

open Machine (IsGrid)

/-! ## Tables by their cells -/

/-- Blocks of one length that follow each other. -/
theorem flatMap_range {α : Type} (count size : Nat) (member : Nat → Nat → α) :
    ((List.range count).flatMap fun block => (List.range size).map (member block)) =
      (List.range (count * size)).map fun place => member (place / size) (place % size) := by
  induction count with
  | zero => simp
  | succ count ih =>
      have hlast : (List.range size).map (member count) =
          (List.range size).map fun place =>
            member ((count * size + place) / size) ((count * size + place) % size) := by
        apply List.map_congr_left
        intro place hplace
        have hplace' : place < size := List.mem_range.mp hplace
        rw [Nat.mul_comm, Nat.mul_add_div (by omega), Nat.div_eq_of_lt hplace', Nat.add_zero,
          Nat.mul_add_mod, Nat.mod_eq_of_lt hplace']
      rw [List.range_succ, List.flatMap_append, ih, List.flatMap_singleton, hlast, Nat.succ_mul,
        List.range_add, List.map_append, List.map_map]
      rfl

namespace Table

variable {α β : Type}

theorem map_ofFn (f : α → β) (height width : Nat) (cell : Nat → Nat → α) :
    (ofFn height width cell).map f =
      ofFn height width fun row column => f (cell row column) := by
  simp only [map, ofFn, List.map_map, Function.comp_def]

theorem kron_ofFn (height width blockHeight blockWidth : Nat) (cell factor : Nat → Nat → UInt8) :
    (ofFn height width cell).kron (ofFn blockHeight blockWidth factor) =
      ofFn (height * blockHeight) (width * blockWidth) fun row column =>
        cell (row / blockHeight) (column / blockWidth) *
          factor (row % blockHeight) (column % blockWidth) := by
  simp only [kron, ofFn, List.flatMap_map, List.map_map, Function.comp_def, flatMap_range]

end Table

/-! ## Libraries -/

/-- The error that a call ends with. -/
def failure? {α : Type} : Except Error α → Option Error
  | .error e => some e
  | .ok _ => none

namespace TableLibrary

/-- The tables that a library returns are those that its operations stand for. -/
structure IsFaithful (library : TableLibrary) : Prop where
  ofRows : ∀ {height width : Nat} {cell : Nat → Nat → UInt8} {table : Table UInt8}, 0 < height →
    library.ofRows (Table.ofFn height width cell).rows = .ok table →
      table = .ofFn height width cell
  ones : ∀ {height width : Nat} {table : Table UInt8},
    library.ones height width = .ok table → table = .ofFn height width fun _ _ => 1
  kron : ∀ {height width blockHeight blockWidth : Nat} {cell factor : Nat → Nat → UInt8}
    {table : Table UInt8},
    library.kron (.ofFn height width cell) (.ofFn blockHeight blockWidth factor) = .ok table →
      table = .ofFn (height * blockHeight) (width * blockWidth) fun row column =>
        cell (row / blockHeight) (column / blockWidth) *
          factor (row % blockHeight) (column % blockWidth)
  equals : ∀ {height width : Nat} {cell : Nat → Nat → UInt8} {byte : UInt8} {mask : Table Bool},
    library.equals (.ofFn height width cell) byte = .ok mask →
      mask = .ofFn height width fun row column => cell row column == byte
  ofColour : ∀ {colour made : Colour}, library.ofColour colour = .ok made → made = colour
  choose : ∀ {height width : Nat} {holds : Nat → Nat → Bool} {lit dark : Colour}
    {table : Table Colour},
    library.choose (.ofFn height width holds) lit dark = .ok table →
      table = .ofFn height width fun row column => if holds row column then lit else dark

/-- A library that makes every table of at most `room` bytes. -/
structure MakesUpTo (library : TableLibrary) (room : Nat) : Prop where
  ofRows : ∀ {height width : Nat} {cell : Nat → Nat → UInt8}, 0 < height →
    height * width ≤ room → failure? (library.ofRows (Table.ofFn height width cell).rows) = none
  ones : ∀ {height width : Nat}, 0 < height → 0 < width →
    height * width ≤ room → failure? (library.ones height width) = none
  kron : ∀ {height width blockHeight blockWidth : Nat} {cell factor : Nat → Nat → UInt8},
    height * blockHeight * (width * blockWidth) ≤ room →
      failure? (library.kron (.ofFn height width cell) (.ofFn blockHeight blockWidth factor)) =
        none
  equals : ∀ {height width : Nat} {cell : Nat → Nat → UInt8} {byte : UInt8},
    height * width ≤ room → failure? (library.equals (.ofFn height width cell) byte) = none
  ofColour : 3 ≤ room → ∀ colour, failure? (library.ofColour colour) = none
  choose : ∀ {height width : Nat} {holds : Nat → Nat → Bool} {lit dark : Colour},
    height * width * 3 ≤ room → failure? (library.choose (.ofFn height width holds) lit dark) = none

theorem ample_isFaithful : ample.IsFaithful where
  ofRows hpos htable := by
    obtain ⟨last, rfl⟩ := Nat.exists_eq_add_one_of_ne_zero hpos.ne'
    rw [← Except.ok.inj htable]
    simp [Table.ofFn, List.range_succ_eq_map]
  ones htable := by
    simp only [ample, countedOnes, Int.toNat_natCast] at htable
    split at htable
    · cases htable
    split at htable
    · cases htable
    split at htable
    · cases htable
    exact (Except.ok.inj htable).symm
  kron htable := by
    rw [← Except.ok.inj htable]
    exact Table.kron_ofFn _ _ _ _ _ _
  equals htable := by
    rw [← Except.ok.inj htable]
    exact Table.map_ofFn _ _ _ _
  ofColour hmade := (Except.ok.inj hmade).symm
  choose htable := by
    rw [← Except.ok.inj htable]
    exact Table.map_ofFn _ _ _ _

theorem countedOnes_of_pos
    {height width : Nat} (hheight : 0 < height) (hwidth : 0 < width)
    (hcounted : height * width ≤ mostBytes) :
    countedOnes height width = .ok (.ofFn height width fun _ _ => 1) := by
  have hheight' : height ≤ height * width := Nat.le_mul_of_pos_right height hwidth
  have hwidth' : width ≤ height * width := Nat.le_mul_of_pos_left width hheight
  have hposition : Slot.IsPosition height ∧ Slot.IsPosition width := by
    unfold mostBytes at hcounted
    refine ⟨⟨?_, ?_⟩, ?_, ?_⟩ <;> omega
  have hnonneg : ¬ ((height : Int) < 0 ∨ (width : Int) < 0) := by omega
  rw [countedOnes, if_neg (not_not.mpr hposition), if_neg hnonneg, Int.toNat_natCast,
    Int.toNat_natCast, if_neg (Nat.not_lt.mpr hcounted)]

theorem ones_ample : ample.ones = countedOnes := rfl

theorem ample_makesUpTo {room : Nat} (hcounted : room ≤ mostBytes) : ample.MakesUpTo room where
  ofRows _ _ := rfl
  ones hheight hwidth hroom := by
    rw [ones_ample, countedOnes_of_pos hheight hwidth (hroom.trans hcounted), failure?]
  kron _ := rfl
  equals _ := rfl
  ofColour _ _ := rfl
  choose _ := rfl

end TableLibrary

/-! ## Screens -/

def pixelRows (screen : Array (Array Bool)) : List (List Bool) :=
  screen.toList.map Array.toList

theorem pixelRows_eq {m : Machine} (h : IsGrid m.screen) :
    pixelRows m.screen = (Table.ofFn 32 64 fun row column => m.lit column row).rows := by
  have hlength : (pixelRows m.screen).length = 32 := by
    rw [pixelRows, List.length_map, Array.length_toList]
    exact h.1
  apply List.ext_getElem
  · rw [hlength]
    rfl
  · intro row hrow hrow'
    have hrow'' : row < m.screen.size := by simpa [pixelRows] using hrow
    have hcells : (pixelRows m.screen)[row] = m.screen[row].toList := by simp [pixelRows]
    have hsize : m.screen[row].size = 64 := h.2 _ (Array.getElem_mem hrow'')
    rw [hcells]
    apply List.ext_getElem
    · simp [Table.ofFn, hsize]
    · intro column hcolumn hcolumn'
      have hcolumn'' : column < m.screen[row].size := by simpa using hcolumn
      simpa [Table.ofFn] using (Machine.lit_eq_getElem hrow'' hcolumn'').symm

namespace Picture

theorem stretch_map_range {α : Type} (scale count : Nat) (member : Nat → α) :
    stretch scale ((List.range count).map member) =
      (List.range (count * scale)).map fun place => member (place / scale) := by
  rw [stretch, List.flatMap_map, ← flatMap_range count scale fun block _ => member block]
  simp

theorem rows_ofBlocks (scale : Nat) (screen : Array (Array Bool)) :
    (ofBlocks scale screen).rows =
      stretch scale (((pixelRows screen).map (List.map colour)).map (stretch scale)) := by
  rw [pixelRows, List.map_map, List.map_map]
  rfl

section

variable {m : Machine} (h : IsGrid m.screen)

include h

theorem ofBlocks_eq (scale : Nat) :
    ofBlocks scale m.screen =
      .ofFn (32 * scale) (64 * scale) fun row column =>
        colour (m.lit (column / scale) (row / scale)) := by
  have hsides : ofBlocks scale m.screen =
      ⟨32 * scale, 64 * scale, (ofBlocks scale m.screen).rows⟩ := by
    rw [Nat.mul_comm 32, Nat.mul_comm 64]
    rfl
  rw [hsides, rows_ofBlocks, pixelRows_eq h]
  simp only [Table.ofFn, List.map_map, Function.comp_def, stretch_map_range]

theorem byteRows_eq :
    byteRows m.screen =
      (Table.ofFn 32 64 fun row column => (m.lit column row).toUInt8).rows := by
  have hrows : byteRows m.screen = (pixelRows m.screen).map (List.map Bool.toUInt8) := by
    rw [pixelRows, List.map_map]
    rfl
  rw [hrows, pixelRows_eq h]
  simp only [Table.ofFn, List.map_map, Function.comp_def]

end

/-! ## The calls for a picture -/

/-- The errors of the calls for a picture, each with the tables that the ones before are to give. -/
def failures (library : TableLibrary) (scale : Nat) (m : Machine) : List (Option Error) :=
  let lit row column := m.lit (column / scale) (row / scale)
  [failure? (library.ofRows (byteRows m.screen)),
    failure? (library.ones scale scale),
    failure? (library.kron (.ofFn 32 64 fun row column => (m.lit column row).toUInt8)
      (.ofFn scale scale fun _ _ => 1)),
    failure? (library.ofColour litColour),
    failure? (library.ofColour darkColour),
    failure? (library.equals
      (.ofFn (32 * scale) (64 * scale) fun row column => (lit row column).toUInt8) 1),
    failure? (library.choose (.ofFn (32 * scale) (64 * scale) lit) litColour darkColour)]

/-- What calls come to that can fail with given errors: the first of these, or else a value. -/
def outcome {α : Type} (errors : List (Option Error)) (a : α) : Except Error α :=
  match errors.findSome? id with
  | some e => .error e
  | none => .ok a

section

variable {α β : Type} {errors : List (Option Error)} {a : α}

theorem outcome_eq_ok_iff {b : α} :
    outcome errors a = .ok b ↔ (∀ error ∈ errors, error = none) ∧ b = a := by
  have hnone : (∀ error ∈ errors, error = none) ↔ errors.findSome? id = none :=
    List.findSome?_eq_none_iff.symm
  rw [hnone, outcome]
  cases errors.findSome? id with
  | none => rw [Except.ok.injEq, eq_comm, eq_self, true_and]
  | some first => exact iff_of_false nofun nofun

/-- A call with one possible result is followed by what is done with that. -/
theorem bind_eq_outcome
    {call : Except Error α} (hcall : ∀ {b}, call = .ok b → b = a) {next : α → Except Error β}
    {c : β} (hnext : next a = outcome errors c) :
    (call >>= next) = outcome (failure? call :: errors) c := by
  cases hresult : call with
  | error e => rfl
  | ok b =>
      rw [hcall hresult]
      exact hnext

theorem eq_outcome {call : Except Error α} (hcall : ∀ {b}, call = .ok b → b = a) :
    call = outcome [failure? call] a := by
  cases hresult : call with
  | error e => rfl
  | ok b =>
      rw [hcall hresult]
      rfl

end

/-! ## Pictures of screens -/

section

variable {library : TableLibrary} {m : Machine} (h : IsGrid m.screen)

include h

/-- A picture is made if no call fails, and otherwise the first call that fails ends it. -/
theorem ofScreen_eq_outcome (hlibrary : library.IsFaithful) (scale : Nat) :
    ofScreen library scale m.screen =
      outcome (failures library scale m) (ofBlocks scale m.screen) := by
  have hproduct (pixel : Bool) : pixel.toUInt8 * 1 = pixel.toUInt8 := UInt8.mul_one _
  have hmask (pixel : Bool) : (pixel.toUInt8 == 1) = pixel := by cases pixel <;> rfl
  rw [ofScreen, failures, ofBlocks_eq h, byteRows_eq h]
  refine bind_eq_outcome (hlibrary.ofRows (by decide)) ?_
  refine bind_eq_outcome hlibrary.ones ?_
  refine bind_eq_outcome hlibrary.kron ?_
  refine bind_eq_outcome hlibrary.ofColour ?_
  refine bind_eq_outcome hlibrary.ofColour ?_
  simp only [hproduct]
  refine bind_eq_outcome hlibrary.equals ?_
  simp only [hmask]
  exact eq_outcome hlibrary.choose

/-- There is a picture where there is room for three bytes in each of its cells. -/
theorem ofScreen_of_makesUpTo
    (hlibrary : library.IsFaithful) {room scale : Nat} (hmakes : library.MakesUpTo room)
    (hscale : 0 < scale) (hroom : 6144 * scale ^ 2 ≤ room) :
    ofScreen library scale m.screen = .ok (ofBlocks scale m.screen) := by
  have hsquare : 0 < scale ^ 2 := Nat.pow_pos hscale
  have hcells : 32 * scale * (64 * scale) = 2048 * scale ^ 2 := by ring
  have hblock : scale * scale = scale ^ 2 := (Nat.pow_two scale).symm
  rw [ofScreen_eq_outcome h hlibrary, outcome_eq_ok_iff, failures, byteRows_eq h]
  refine ⟨?_, rfl⟩
  simp only [List.forall_mem_cons]
  refine ⟨hmakes.ofRows (by decide) (by omega), hmakes.ones hscale hscale (by omega),
    hmakes.kron (by omega), hmakes.ofColour (by omega) _, hmakes.ofColour (by omega) _,
    hmakes.equals (by omega), hmakes.choose (by omega), nofun⟩

theorem ofScreen_usualScale :
    ofScreen .ample usualScale m.screen = .ok (ofBlocks usualScale.toNat m.screen) :=
  ofScreen_of_makesUpTo h TableLibrary.ample_isFaithful
    (TableLibrary.ample_makesUpTo (Nat.le_refl _)) (by decide) (by decide)

end

end Picture

end Chip8
