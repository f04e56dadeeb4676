import Chip8.Proofs.WellFormed
import Mathlib.Data.List.Nodup
import Mathlib.Data.List.Range
import Mathlib.Data.List.TakeWhile

/-!
# Sprites

The two nested loops that draw a sprite are one loop over its cells, row by row and each row
from the left.  It stops at the first cell that fails, and up to there every set cell flips
its own pixel.  As no pixel is flipped twice, the drawn screen is the old one with the pixels
of those cells inverted, and the flag tells whether one of them was lit before.
-/

namespace Chip8

namespace Machine

/-! ## Loops over lists -/

namespace Action

variable {β γ : Type}

/-- Runs `body` at the items of a list, up to the first error. -/
def through (body : β → Action Unit) : List β → Action Unit
  | [] => pure ()
  | item :: items => do
      body item
      through body items

theorem sweep_eq_through (body : Nat → Action Unit) (count first : Nat) :
    sweep body count first = through body (List.range' first count) := by
  induction count generalizing first with
  | zero => rfl
  | succ count ih => rw [sweep, List.range'_succ, through, ih (first + 1)]

theorem through_append (body : β → Action Unit) (items rest : List β) :
    through body (items ++ rest) = (do through body items; through body rest) := by
  induction items with
  | nil => rfl
  | cons item items ih => rw [List.cons_append, through, through, ih, bind_assoc]

/-- A loop whose body is a loop runs through the joined items. -/
theorem through_flatMap (body : β → Action Unit) (inner : γ → List β) (items : List γ) :
    through (fun item => through body (inner item)) items =
      through body (items.flatMap inner) := by
  induction items with
  | nil => rfl
  | cons item items ih => rw [List.flatMap_cons, through_append, through, ih]

theorem through_congr
    {body body' : β → Action Unit} {items : List β}
    (h : ∀ item ∈ items, body item = body' item) :
    through body items = through body' items := by
  induction items with
  | nil => rfl
  | cons item items ih =>
      rw [through, through, h item List.mem_cons_self,
        ih fun other hother => h other (List.mem_cons_of_mem item hother)]

end Action

/-! ## Cells -/

/-- The cells of a sprite by row and column, row by row and each row from the left. -/
def spriteCells (height : Nat) : List (Nat × Nat) :=
  (List.range height).flatMap fun row =>
    (List.range Execute.spriteWidth).map fun column => (row, column)

theorem mem_spriteCells {height : Nat} {cell : Nat × Nat} :
    cell ∈ spriteCells height ↔ cell.1 < height ∧ cell.2 < 8 := by
  obtain ⟨row, column⟩ := cell
  simp [spriteCells]

theorem nodup_spriteCells (height : Nat) : (spriteCells height).Nodup := by
  rw [spriteCells, List.nodup_flatMap]
  constructor
  · intro row _
    exact List.nodup_range.map fun a b h => (Prod.mk.inj h).2
  · apply List.nodup_range.imp
    intro row other hne cell hcell hother
    obtain ⟨column, -, rfl⟩ := List.mem_map.mp hcell
    obtain ⟨column', -, h⟩ := List.mem_map.mp hother
    exact hne (Prod.mk.inj h).1.symm

/-- Whether the sprite at the index register has a pixel in a cell. -/
def spriteAt (m : Machine) (cell : Nat × Nat) : Bool :=
  Execute.spriteBit (m.memory.getD (m.i + cell.1).toNat 0) cell.2

/-- Drawing a cell fails when its row has no address, or when its pixel is set and lies off
the screen. -/
def CellFails (m : Machine) (x y : Int) (cell : Nat × Nat) : Prop :=
  ¬ IsAddress (m.i + cell.1) ∨
    (m.spriteAt cell = true ∧ ¬ IsPixel (x + cell.2) (y + cell.1))

instance (m : Machine) (x y : Int) (cell : Nat × Nat) : Decidable (m.CellFails x y cell) :=
  inferInstanceAs (Decidable (_ ∨ _))

def cellFault (m : Machine) (x y : Int) (cell : Nat × Nat) : Fault :=
  if IsAddress (m.i + cell.1) then .pixelOutside (x + cell.2) (y + cell.1)
  else .memoryRead (m.i + cell.1)

/-- The machine after the pixel of a cell is flipped, with the flag set if it was lit. -/
def flip (x y : Int) (m : Machine) (cell : Nat × Nat) : Machine :=
  let column := (x + cell.2).toNat
  let row := (y + cell.1).toNat
  { m with
    screen := m.screen.modify row fun pixels => pixels.modify column not
    v := if m.lit column row then m.v.setIfInBounds flagRegister 1 else m.v }

/-- The set cells before the first one that fails. -/
def flips (m : Machine) (x y : Int) (cells : List (Nat × Nat)) : List (Nat × Nat) :=
  (cells.takeWhile fun cell => ¬ m.CellFails x y cell).filter m.spriteAt

/-! ## The loop over the cells -/

/-- Draws a cell, whose row is read for itself. -/
def drawCell (x y : Int) (cell : Nat × Nat) : Action Unit := do
  let bits ← readByte ((← get).i + cell.1)
  Execute.drawPixel x (y + cell.1) bits cell.2

theorem flipPixel_apply (x y : Int) (m : Machine) :
    flipPixel x y m =
      if IsPixel x y then
        .ok (m.lit x.toNat y.toNat)
          { m with screen := m.screen.modify y.toNat fun pixels => pixels.modify x.toNat not }
      else .error (.fault (.pixelOutside x y)) m := rfl

theorem drawPixel_apply (x y : Int) (bits : UInt8) (column : Nat) (m : Machine) :
    Execute.drawPixel x y bits column m =
      if Execute.spriteBit bits column then
        if IsPixel (x + column) y then
          .ok ()
            { m with
              screen := m.screen.modify y.toNat fun pixels =>
                pixels.modify (x + column).toNat not
              v := if m.lit (x + column).toNat y.toNat then
                  m.v.setIfInBounds flagRegister 1
                else m.v }
        else .error (.fault (.pixelOutside (x + column) y)) m
      else .ok () m := by
  by_cases hbit : Execute.spriteBit bits column = true
  · by_cases hpixel : IsPixel (x + column) y
    · by_cases hlit : m.lit (x + column).toNat y.toNat = true
      · simp [Execute.drawPixel, flipPixel_apply, hbit, hpixel, hlit, holding]
      · simp [Execute.drawPixel, flipPixel_apply, hbit, hpixel, hlit]
    · simp [Execute.drawPixel, flipPixel_apply, hbit, hpixel]
  · simp [Execute.drawPixel, hbit]

/-- A cell that fails leaves the machine as it is; another one flips its pixel if it is set. -/
theorem drawCell_apply (x y : Int) (cell : Nat × Nat) (m : Machine) :
    drawCell x y cell m =
      if m.CellFails x y cell then .error (.fault (m.cellFault x y cell)) m
      else .ok () (if m.spriteAt cell then m.flip x y cell else m) := by
  by_cases haddress : IsAddress (m.i + cell.1)
  · simp only [drawCell, bind_apply, get_apply, readByte_apply haddress, drawPixel_apply,
      CellFails, cellFault, spriteAt, haddress, not_true_eq_false, false_or, if_true, flip]
    by_cases hbit : Execute.spriteBit (m.memory.getD (m.i + cell.1).toNat 0) cell.2 = true
    · by_cases hpixel : IsPixel (x + cell.2) (y + cell.1)
      · simp only [hbit, hpixel, if_true, not_true_eq_false, and_false, if_false]
      · simp only [hbit, hpixel, if_true, not_false_eq_true, and_true, if_false]
    · simp only [hbit, Bool.false_eq_true, false_and, if_false]
  · simp only [drawCell, bind_apply, get_apply, readByte_eq_error haddress, CellFails,
      cellFault, haddress, not_false_eq_true, true_or, if_true, if_false]

/-- Drawing the cells of a row one by one is drawing the row. -/
theorem drawRow_eq_through (x y : Int) (row : Nat) :
    Execute.drawRow x y row =
      Action.through (drawCell x y)
        ((List.range Execute.spriteWidth).map fun column => (row, column)) := by
  funext m
  by_cases haddress : IsAddress (m.i + row)
  · have hcells : ∀ (columns : List Nat) (m' : Machine),
        m'.memory = m.memory → m'.i = m.i →
        Action.through
            (Execute.drawPixel x (y + row) (m.memory.getD (m.i + row).toNat 0)) columns m' =
          Action.through (drawCell x y) (columns.map fun column => (row, column)) m' := by
      intro columns
      induction columns with
      | nil => exact fun _ _ _ => rfl
      | cons column columns ih =>
          intro m' hmemory hi
          have haddress' : IsAddress (m'.i + row) := by rwa [hi]
          have hcell : drawCell x y (row, column) m' =
              Execute.drawPixel x (y + row) (m.memory.getD (m.i + row).toNat 0) column m' := by
            simp only [drawCell, bind_apply, get_apply, readByte_apply haddress']
            rw [hmemory, hi]
          rw [List.map_cons, Action.through, Action.through, bind_apply, bind_apply, hcell,
            drawPixel_apply]
          by_cases hbit : Execute.spriteBit (m.memory.getD (m.i + row).toNat 0) column = true
          · by_cases hpixel : IsPixel (x + column) (y + row)
            · rw [if_pos hbit, if_pos hpixel]
              exact ih _ hmemory hi
            · rw [if_pos hbit, if_neg hpixel]
          · rw [if_neg hbit]
            exact ih m' hmemory hi
    simp only [Execute.drawRow, bind_apply, get_apply, readByte_apply haddress,
      Action.sweep_eq_through]
    rw [← List.range_eq_range']
    exact hcells _ m rfl rfl
  · have hfirst : List.range Execute.spriteWidth = 0 :: List.range' 1 7 := by decide
    have hfails : m.CellFails x y (row, 0) := Or.inl haddress
    simp only [Execute.drawRow, bind_apply, get_apply, readByte_eq_error haddress]
    rw [hfirst, List.map_cons, Action.through, bind_apply, drawCell_apply, if_pos hfails, cellFault,
      if_neg haddress]

/-- The two nested loops are one loop over the cells. -/
theorem sweep_drawRow_eq_through (x y : Int) (height : Nat) :
    Action.sweep (Execute.drawRow x y) height 0 =
      Action.through (drawCell x y) (spriteCells height) := by
  rw [Action.sweep_eq_through, ← List.range_eq_range', spriteCells, ← Action.through_flatMap]
  exact Action.through_congr fun row _ => drawRow_eq_through x y row

/-- The loop flips the set cells before the first one that fails, and fails if there is one.
Drawing does not change the memory that it reads, so `base` may be any machine with the same
memory and index register. -/
theorem through_drawCell
    (x y : Int) (base : Machine) (cells : List (Nat × Nat)) (m : Machine)
    (hmemory : m.memory = base.memory) (hi : m.i = base.i) :
    Action.through (drawCell x y) cells m =
      match cells.find? fun cell => base.CellFails x y cell with
      | none => .ok () ((base.flips x y cells).foldl (flip x y) m)
      | some cell =>
          .error (.fault (base.cellFault x y cell))
            ((base.flips x y cells).foldl (flip x y) m) := by
  induction cells generalizing m with
  | nil => rfl
  | cons cell cells ih =>
      have hfails : m.CellFails x y cell ↔ base.CellFails x y cell := by
        simp only [CellFails, spriteAt, hmemory, hi]
      have hset : m.spriteAt cell = base.spriteAt cell := by
        simp only [spriteAt, hmemory, hi]
      have hfault : m.cellFault x y cell = base.cellFault x y cell := by
        simp only [cellFault, hi]
      rw [Action.through, bind_apply, drawCell_apply]
      by_cases hcell : base.CellFails x y cell
      · have hnone : base.flips x y (cell :: cells) = [] := by simp [flips, hcell]
        rw [if_pos (hfails.mpr hcell), List.find?_cons_of_pos (by simpa using hcell), hnone,
          hfault]
        rfl
      · rw [if_neg fun h => hcell (hfails.mp h), List.find?_cons_of_neg (by simpa using hcell)]
        by_cases hbit : base.spriteAt cell = true
        · have hflips : base.flips x y (cell :: cells) = cell :: base.flips x y cells := by
            simp [flips, hcell, hbit]
          rw [hset, hbit, if_pos rfl, hflips, List.foldl_cons]
          exact ih _ hmemory hi
        · have hflips : base.flips x y (cell :: cells) = base.flips x y cells := by
            simp [flips, hcell, hbit]
          rw [hset, if_neg hbit, hflips]
          exact ih m hmemory hi

/-! ## The drawn screen -/

/-- A screen of the fixed size. -/
def IsGrid (screen : Array (Array Bool)) : Prop :=
  screen.size = screenHeight ∧ ∀ row ∈ screen, row.size = screenWidth

theorem WellFormed.isGrid {m : Machine} (h : m.WellFormed) : IsGrid m.screen :=
  ⟨h.size_screen, h.size_row⟩

theorem lit_eq_getElem
    {m : Machine} {column row : Nat} (hrow : row < m.screen.size)
    (hcolumn : column < m.screen[row].size) :
    m.lit column row = m.screen[row][column] := by
  simp [lit, Array.getD, hrow, hcolumn]

theorem screen_ext
    {m m' : Machine} (h : IsGrid m.screen) (h' : IsGrid m'.screen)
    (hlit : ∀ column row : Nat, column < 64 → row < 32 → m.lit column row = m'.lit column row) :
    m.screen = m'.screen := by
  apply Array.ext
  · rw [h.1, h'.1]
  · intro row hrow hrow'
    have hsize : m.screen[row].size = 64 := h.2 _ (Array.getElem_mem hrow)
    have hsize' : m'.screen[row].size = 64 := h'.2 _ (Array.getElem_mem hrow')
    apply Array.ext
    · rw [hsize, hsize']
    · intro column hcolumn hcolumn'
      rw [← lit_eq_getElem hrow hcolumn, ← lit_eq_getElem hrow' hcolumn']
      have hheight : m.screen.size = 32 := h.1
      exact hlit column row (by omega) (by omega)

/-- Whether a sprite at a position has one of the given cells at a pixel. -/
def covers (x y : Int) (cells : List (Nat × Nat)) (column row : Nat) : Bool :=
  cells.any fun cell => x + cell.2 = column ∧ y + cell.1 = row

theorem covers_eq_true {x y : Int} {cells : List (Nat × Nat)} {column row : Nat} :
    covers x y cells column row = true ↔
      ∃ cell ∈ cells, x + cell.2 = column ∧ y + cell.1 = row := by
  simp [covers]

/-- The machine with the pixels of cells inverted, and the flag set if one of them was lit. -/
def drawn (x y : Int) (m : Machine) (cells : List (Nat × Nat)) : Machine :=
  { m with
    screen := m.screen.mapIdx fun row pixels =>
      pixels.mapIdx fun column lit => lit ^^ covers x y cells column row
    v := if cells.any fun cell => m.lit (x + cell.2).toNat (y + cell.1).toNat then
        m.v.setIfInBounds flagRegister 1
      else m.v }

theorem isGrid_flip
    {m : Machine} (h : IsGrid m.screen) (x y : Int) (cell : Nat × Nat) :
    IsGrid (flip x y m cell).screen := by
  refine ⟨by simpa [flip] using h.1, ?_⟩
  intro row hrow
  obtain ⟨n, hn, rfl⟩ := Array.getElem_of_mem hrow
  have hold : n < m.screen.size := by simpa [flip] using hn
  have hsize := h.2 _ (Array.getElem_mem hold)
  simp only [flip, Array.getElem_modify]
  split <;> simpa using hsize

theorem isGrid_drawn
    {m : Machine} (h : IsGrid m.screen) (x y : Int) (cells : List (Nat × Nat)) :
    IsGrid (drawn x y m cells).screen := by
  refine ⟨by simpa [drawn] using h.1, ?_⟩
  intro row hrow
  obtain ⟨n, hn, rfl⟩ := Array.getElem_of_mem hrow
  have hold : n < m.screen.size := by simpa [drawn] using hn
  have hsize := h.2 _ (Array.getElem_mem hold)
  simpa [drawn] using hsize

/-- A flip inverts the pixel of its cell and no other. -/
theorem lit_flip
    {m : Machine} (h : IsGrid m.screen) {x y : Int} {cell : Nat × Nat}
    (hpixel : IsPixel (x + cell.2) (y + cell.1))
    {column row : Nat} (hcolumn : column < 64) (hrow : row < 32) :
    (flip x y m cell).lit column row =
      (m.lit column row ^^ covers x y [cell] column row) := by
  have hheight : m.screen.size = 32 := h.1
  have hin : row < m.screen.size := by omega
  have hin' : row < (flip x y m cell).screen.size := by simpa [flip] using hin
  have hwidth : m.screen[row].size = 64 := h.2 _ (Array.getElem_mem hin)
  have hwidth' : (flip x y m cell).screen[row].size = 64 :=
    (isGrid_flip h x y cell).2 _ (Array.getElem_mem hin')
  rw [lit_eq_getElem hin' (by omega), lit_eq_getElem hin (by omega)]
  obtain ⟨hx, -, hy, -⟩ := hpixel
  obtain ⟨a, ha⟩ : ∃ a : Nat, x + cell.2 = a := ⟨_, (Int.toNat_of_nonneg hx).symm⟩
  obtain ⟨b, hb⟩ : ∃ b : Nat, y + cell.1 = b := ⟨_, (Int.toNat_of_nonneg hy).symm⟩
  simp only [flip, covers, List.any_cons, List.any_nil, Bool.or_false, ha, hb, Int.toNat_natCast,
    Int.ofNat_inj]
  by_cases hr : b = row
  · subst hr
    by_cases hc : a = column
    · subst hc
      simp [Array.getElem_modify]
    · simp [hc, Array.getElem_modify]
  · simp [hr, Array.getElem_modify]

theorem lit_drawn
    {m : Machine} (h : IsGrid m.screen) (x y : Int) (cells : List (Nat × Nat))
    {column row : Nat} (hcolumn : column < 64) (hrow : row < 32) :
    (drawn x y m cells).lit column row =
      (m.lit column row ^^ covers x y cells column row) := by
  have hheight : m.screen.size = 32 := h.1
  have hin : row < m.screen.size := by omega
  have hin' : row < (drawn x y m cells).screen.size := by simpa [drawn] using hin
  have hwidth : m.screen[row].size = 64 := h.2 _ (Array.getElem_mem hin)
  have hwidth' : (drawn x y m cells).screen[row].size = 64 :=
    (isGrid_drawn h x y cells).2 _ (Array.getElem_mem hin')
  rw [lit_eq_getElem hin' (by omega), lit_eq_getElem hin (by omega)]
  simp [drawn]

theorem covers_cons (x y : Int) (cell : Nat × Nat) (cells : List (Nat × Nat))
    (column row : Nat) :
    covers x y (cell :: cells) column row =
      (covers x y [cell] column row || covers x y cells column row) := by
  simp [covers]

/-- Different cells of a sprite have different pixels. -/
theorem covers_eq_false_of_notMem
    {x y : Int} {cell : Nat × Nat} {cells : List (Nat × Nat)} (hfresh : cell ∉ cells)
    {column row : Nat} (h : covers x y [cell] column row = true) :
    covers x y cells column row = false := by
  rw [Bool.eq_false_iff]
  intro hlater
  obtain ⟨this, hthis, hx, hy⟩ := covers_eq_true.mp h
  obtain ⟨other, hother, hx', hy'⟩ := covers_eq_true.mp hlater
  rw [List.mem_singleton.mp hthis] at hx hy
  have hsame : other = cell := by
    ext <;> omega
  exact hfresh (hsame ▸ hother)

/-- A flip leaves the pixels of the other cells as they are. -/
theorem lit_flip_of_mem
    {m : Machine} (h : IsGrid m.screen) {x y : Int} {cell other : Nat × Nat}
    {cells : List (Nat × Nat)} (hfresh : cell ∉ cells) (hother : other ∈ cells)
    (hpixel : IsPixel (x + cell.2) (y + cell.1))
    (hpixel' : IsPixel (x + other.2) (y + other.1)) :
    (flip x y m cell).lit (x + other.2).toNat (y + other.1).toNat =
      m.lit (x + other.2).toNat (y + other.1).toNat := by
  obtain ⟨hx, hx', hy, hy'⟩ := hpixel'
  have hcolumn : x + other.2 < (64 : Int) := hx'
  have hrow : y + other.1 < (32 : Int) := hy'
  have hcovered : covers x y cells (x + other.2).toNat (y + other.1).toNat = true :=
    covers_eq_true.mpr ⟨other, hother, by omega, by omega⟩
  have hthis : covers x y [cell] (x + other.2).toNat (y + other.1).toNat = false := by
    rw [Bool.eq_false_iff]
    intro hcovered'
    rw [covers_eq_false_of_notMem hfresh hcovered'] at hcovered
    exact Bool.false_ne_true hcovered
  rw [lit_flip h hpixel (by omega) (by omega), hthis, Bool.xor_false]

theorem screen_drawn_flip
    {m : Machine} (h : IsGrid m.screen) {x y : Int} {cell : Nat × Nat}
    {cells : List (Nat × Nat)} (hfresh : cell ∉ cells)
    (hpixel : IsPixel (x + cell.2) (y + cell.1)) :
    (drawn x y (flip x y m cell) cells).screen = (drawn x y m (cell :: cells)).screen := by
  refine screen_ext (isGrid_drawn (isGrid_flip h x y cell) x y cells) (isGrid_drawn h x y _) ?_
  intro column row hcolumn hrow
  rw [lit_drawn (isGrid_flip h x y cell) x y cells hcolumn hrow,
    lit_drawn h x y _ hcolumn hrow, lit_flip h hpixel hcolumn hrow,
    covers_cons x y cell cells]
  cases hthis : covers x y [cell] column row with
  | true => simp [covers_eq_false_of_notMem hfresh hthis]
  | false => simp

/-- The flag tells of the pixels that were lit before the first flip. -/
theorem v_drawn_flip
    {m : Machine} (h : IsGrid m.screen) {x y : Int} {cell : Nat × Nat}
    {cells : List (Nat × Nat)} (hfresh : cell ∉ cells)
    (hpixel : IsPixel (x + cell.2) (y + cell.1))
    (hpixels : ∀ other ∈ cells, IsPixel (x + other.2) (y + other.1)) :
    (drawn x y (flip x y m cell) cells).v = (drawn x y m (cell :: cells)).v := by
  have hlater : (cells.any fun other =>
        (flip x y m cell).lit (x + other.2).toNat (y + other.1).toNat) =
      cells.any fun other => m.lit (x + other.2).toNat (y + other.1).toNat := by
    rw [Bool.eq_iff_iff, List.any_eq_true, List.any_eq_true]
    refine exists_congr fun other => and_congr_right fun hother => ?_
    rw [lit_flip_of_mem h hfresh hother hpixel (hpixels other hother)]
  simp only [drawn, hlater, List.any_cons]
  by_cases hlit : m.lit (x + cell.2).toNat (y + cell.1).toNat = true
  · simp [flip, hlit]
  · have hdark := Bool.eq_false_iff.mpr hlit
    simp only [flip, hdark, Bool.false_or, Bool.false_eq_true, if_false]

/-- Flipping distinct cells one after the other inverts their pixels. -/
theorem foldl_flip
    (x y : Int) (cells : List (Nat × Nat)) (m : Machine) (h : IsGrid m.screen)
    (hnodup : cells.Nodup) (hpixel : ∀ cell ∈ cells, IsPixel (x + cell.2) (y + cell.1)) :
    cells.foldl (flip x y) m = drawn x y m cells := by
  induction cells generalizing m with
  | nil =>
      have hscreen : (drawn x y m []).screen = m.screen := by
        refine screen_ext (isGrid_drawn h x y []) h ?_
        intro column row hcolumn hrow
        rw [lit_drawn h x y [] hcolumn hrow]
        simp [covers]
      calc
        m = { m with screen := m.screen } := rfl
        _ = { m with screen := (drawn x y m []).screen } := by rw [hscreen]
        _ = drawn x y m [] := rfl
  | cons cell cells ih =>
      obtain ⟨hfresh, hrest⟩ := List.nodup_cons.mp hnodup
      have hcell := hpixel cell List.mem_cons_self
      have hcells : ∀ other ∈ cells, IsPixel (x + other.2) (y + other.1) :=
        fun other hother => hpixel other (List.mem_cons_of_mem cell hother)
      calc
        (cell :: cells).foldl (flip x y) m = cells.foldl (flip x y) (flip x y m cell) := rfl
        _ = drawn x y (flip x y m cell) cells := ih _ (isGrid_flip h x y cell) hrest hcells
        _ = { m with
              screen := (drawn x y (flip x y m cell) cells).screen
              v := (drawn x y (flip x y m cell) cells).v } := rfl
        _ = { m with
              screen := (drawn x y m (cell :: cells)).screen
              v := (drawn x y m (cell :: cells)).v } := by
            rw [screen_drawn_flip h hfresh hcell, v_drawn_flip h hfresh hcell hcells]
        _ = drawn x y m (cell :: cells) := rfl

/-! ## Drawing a sprite -/

/-- The cells that are flipped have a pixel each, and none of them comes twice. -/
theorem isPixel_of_mem_flips
    {m : Machine} {x y : Int} {cells : List (Nat × Nat)} {cell : Nat × Nat}
    (h : cell ∈ m.flips x y cells) : IsPixel (x + cell.2) (y + cell.1) := by
  obtain ⟨hbefore, hset⟩ := List.mem_filter.mp h
  have hworks : ¬ m.CellFails x y cell := by
    simpa using List.mem_takeWhile_imp hbefore
  by_contra hpixel
  exact hworks (Or.inr ⟨hset, hpixel⟩)

theorem nodup_flips (m : Machine) (x y : Int) (height : Nat) :
    (m.flips x y (spriteCells height)).Nodup :=
  ((nodup_spriteCells height).sublist (List.takeWhile_sublist _)).filter _

/-- The machine with as much of a sprite drawn as can be. -/
def drawing (m : Machine) (x y : Int) (height : Nat) : Machine :=
  drawn x y (m.holding flagRegister 0) (m.flips x y (spriteCells height))

/-- A sprite that starts on the screen is drawn up to the first cell that fails. -/
theorem draw_apply
    {m : Machine} (hv : m.v.size = registerCount) (hscreen : IsGrid m.screen)
    {operands : Operands} {x y n : Int}
    (hx : operands.get? .x = some x) (hy : operands.get? .y = some y)
    (hn : operands.get? .n = some n) (hxRegister : IsRegister x) (hyRegister : IsRegister y) :
    Execute.draw operands m =
      let left := m.held x
      let top := m.held y
      if left < screenWidth ∧ top < screenHeight then
        match (spriteCells n.toNat).find? fun cell => m.CellFails left top cell with
        | none => advance 2 (m.drawing left top n.toNat)
        | some cell =>
            .error (.fault (m.cellFault left top cell)) (m.drawing left top n.toNat)
      else advance 2 m := by
  simp only [Execute.draw, bind_apply, needRegister_apply hv hx hxRegister,
    needRegister_apply hv hy hyRegister, need_apply hn]
  generalize m.held x = left
  generalize m.held y = top
  generalize n.toNat = height
  by_cases hstart : left < screenWidth ∧ top < screenHeight
  · have hloop :=
      through_drawCell left top m (spriteCells height) (m.holding flagRegister 0) rfl rfl
    have hdrawn := foldl_flip left top (m.flips left top (spriteCells height))
      (m.holding flagRegister 0) hscreen (nodup_flips m left top height)
      fun cell hcell => isPixel_of_mem_flips hcell
    rw [hdrawn] at hloop
    simp only [hstart, and_self, if_true, bind_apply, setFlag_apply, sweep_drawRow_eq_through,
      hloop, drawing]
    cases (spriteCells height).find? fun cell => m.CellFails left top cell with
    | none => rfl
    | some cell => rfl
  · rw [if_neg hstart, if_neg hstart]

theorem draw_ofWord {m : Machine} (h : m.WellFormed) (word : Int) :
    Execute.draw (.ofWord word) m =
      let x := m.held (Field.ofWord word .x)
      let y := m.held (Field.ofWord word .y)
      let height := (Field.ofWord word .n).toNat
      if x < screenWidth ∧ y < screenHeight then
        match (spriteCells height).find? fun cell => m.CellFails x y cell with
        | none => advance 2 (m.drawing x y height)
        | some cell => .error (.fault (m.cellFault x y cell)) (m.drawing x y height)
      else advance 2 m :=
  draw_apply h.size_v h.isGrid (Operands.get?_ofWord word .x) (Operands.get?_ofWord word .y)
    (Operands.get?_ofWord word .n) (isRegister_x word) (isRegister_y word)

end Machine

end Chip8
