import Chip8.Machine.Font
import Chip8.Proofs.Effect

/-!
# Drawing as an exclusive or

The instruction that draws a sprite combines the sprite with the screen by an exclusive or.
Here a sprite is a function on the whole screen, which tells for every pixel whether the
sprite has one there, so that neither the loops nor their order occur in the statement.  The
flag is one property of that function and the old screen.

The height is any integer and need not fit an instruction word.  The position is read from
its two registers before the flag is written, and one of them may be the flag itself.
-/

namespace Chip8

namespace Machine

/-! ## Sprites as functions -/

/-- Whether a sprite of some rows at a position has a pixel in a column and a row of the
screen. -/
def spritePixel (m : Machine) (left top height : Int) (column row : Nat) : Bool :=
  top ≤ row ∧ row < top + height ∧ left ≤ column ∧ column < left + 8 ∧
    (m.memory.getD (m.i + row - top).toNat 0).toNat.testBit (7 - (column - left)).toNat

/-- Every row of a sprite has an address, and every pixel of it lies on the screen. -/
def SpriteFits (m : Machine) (left top height : Int) : Prop :=
  ∀ row : Nat, row < height → IsAddress (m.i + row) ∧
    ∀ column : Nat, column < 8 →
      (m.memory.getD (m.i + row).toNat 0).toNat.testBit (7 - column) = true →
        IsPixel (left + column) (top + row)

/-- A sprite has a pixel where the screen is lit. -/
def SpriteHits (m : Machine) (left top height : Int) : Prop :=
  ∃ column, column < 64 ∧ ∃ row, row < 32 ∧
    m.spritePixel left top height column row = true ∧ m.lit column row = true

instance (m : Machine) (left top height : Int) : Decidable (m.SpriteHits left top height) :=
  inferInstanceAs (Decidable (∃ column, column < 64 ∧ ∃ row, row < 32 ∧ _))

section

variable {m : Machine} {left top height : Int}

theorem spritePixel_eq_true {column row : Nat} :
    m.spritePixel left top height column row = true ↔
      top ≤ row ∧ row < top + height ∧ left ≤ column ∧ column < left + 8 ∧
        (m.memory.getD (m.i + row - top).toNat 0).toNat.testBit
          (7 - (column - left)).toNat = true := by
  simp [spritePixel]

/-- A sprite has a pixel at a place just when one of its set cells is there. -/
theorem covers_spriteCells (column row : Nat) :
    covers left top ((spriteCells height.toNat).filter m.spriteAt) column row =
      m.spritePixel left top height column row := by
  rw [Bool.eq_iff_iff, covers_eq_true, spritePixel_eq_true]
  constructor
  · rintro ⟨⟨r, c⟩, hcell, hcolumn, hrow⟩
    obtain ⟨hmem, hset⟩ := List.mem_filter.mp hcell
    obtain ⟨hr, hc⟩ := mem_spriteCells.mp hmem
    simp only at hcolumn hrow hr hc
    have haddress : m.i + row - top = m.i + r := by omega
    have hbit : (7 - (column - left)).toNat = 7 - c := by omega
    refine ⟨by omega, by omega, by omega, by omega, ?_⟩
    rw [haddress, hbit]
    exact hset
  · rintro ⟨htop, hbottom, hleft, hright, hset⟩
    have haddress : m.i + ((row - top).toNat : Int) = m.i + row - top := by omega
    have hbit : 7 - (column - left).toNat = (7 - (column - left)).toNat := by omega
    refine ⟨((row - top).toNat, (column - left).toNat), List.mem_filter.mpr ⟨?_, ?_⟩, ?_, ?_⟩
    · exact mem_spriteCells.mpr ⟨by dsimp only; omega, by dsimp only; omega⟩
    · show (m.memory.getD (m.i + ((row - top).toNat : Int)).toNat 0).toNat.testBit
        (7 - (column - left).toNat) = true
      rw [haddress, hbit]
      exact hset
    · dsimp only
      omega
    · dsimp only
      omega

theorem spriteFits_iff :
    m.SpriteFits left top height ↔
      ∀ cell ∈ spriteCells height.toNat, ¬ m.CellFails left top cell := by
  constructor
  · rintro hfits ⟨row, column⟩ hcell hfails
    obtain ⟨hrow, hcolumn⟩ := mem_spriteCells.mp hcell
    obtain ⟨haddress, hpixels⟩ := hfits row (by dsimp only at hrow; omega)
    rcases hfails with hout | ⟨hset, hoff⟩
    · exact hout haddress
    · exact hoff (hpixels column hcolumn hset)
  · intro hworks row hrow
    have hcell (column : Nat) (hcolumn : column < 8) :
        ¬ m.CellFails left top (row, column) := by
      apply hworks
      exact mem_spriteCells.mpr ⟨by dsimp only; omega, hcolumn⟩
    constructor
    · by_contra hout
      exact hcell 0 (by omega) (Or.inl hout)
    · intro column hcolumn hset
      by_contra hoff
      exact hcell column hcolumn (Or.inr ⟨hset, hoff⟩)

/-! ## The drawn machine -/

/-- A sprite without a failing cell is drawn with all its set cells. -/
theorem flips_of_fits (hfits : m.SpriteFits left top height) :
    m.flips left top (spriteCells height.toNat) =
      (spriteCells height.toNat).filter m.spriteAt := by
  have hall : (spriteCells height.toNat).takeWhile (fun cell => ¬ m.CellFails left top cell) =
      spriteCells height.toNat := by
    rw [List.takeWhile_eq_self_iff]
    intro cell hcell
    exact decide_eq_true (spriteFits_iff.mp hfits cell hcell)
  rw [flips, hall]

theorem lit_drawing
    (hscreen : IsGrid m.screen) (hfits : m.SpriteFits left top height)
    {column row : Nat} (hcolumn : column < 64) (hrow : row < 32) :
    (m.drawing left top height.toNat).lit column row =
      (m.lit column row ^^ m.spritePixel left top height column row) := by
  have hlit := lit_drawn (m := m.holding flagRegister 0) hscreen left top
    (m.flips left top (spriteCells height.toNat)) hcolumn hrow
  rw [drawing, hlit, flips_of_fits hfits, covers_spriteCells]
  rfl

/-- One of the drawn cells is over a lit pixel just when the sprite is. -/
theorem any_lit_eq_hits (hfits : m.SpriteFits left top height) :
    ((m.flips left top (spriteCells height.toNat)).any fun cell =>
        m.lit (left + cell.2).toNat (top + cell.1).toNat) =
      decide (m.SpriteHits left top height) := by
  rw [Bool.eq_iff_iff, List.any_eq_true, decide_eq_true_iff]
  constructor
  · rintro ⟨cell, hcell, hlit⟩
    have hpixel := isPixel_of_mem_flips hcell
    obtain ⟨hleft, hright, htop, hbottom⟩ := hpixel
    have hright' : left + cell.2 < (64 : Int) := hright
    have hbottom' : top + cell.1 < (32 : Int) := hbottom
    refine ⟨(left + cell.2).toNat, by omega, (top + cell.1).toNat, by omega, ?_, hlit⟩
    rw [← covers_spriteCells, ← flips_of_fits hfits]
    exact covers_eq_true.mpr ⟨cell, hcell, by omega, by omega⟩
  · rintro ⟨column, -, row, -, hpixel, hlit⟩
    rw [← covers_spriteCells, ← flips_of_fits hfits] at hpixel
    obtain ⟨cell, hcell, hcolumn, hrow⟩ := covers_eq_true.mp hpixel
    refine ⟨cell, hcell, ?_⟩
    rw [hcolumn, hrow]
    exact hlit

/-- A drawn sprite changes the screen and the flag. -/
theorem drawing_eq (hfits : m.SpriteFits left top height) :
    m.drawing left top height.toNat =
      { m with
        screen := (m.drawing left top height.toNat).screen
        v := m.v.setIfInBounds flagRegister
          (if m.SpriteHits left top height then 1 else 0) } := by
  have hany := any_lit_eq_hits hfits
  have hv : (m.drawing left top height.toNat).v =
      m.v.setIfInBounds flagRegister (if m.SpriteHits left top height then 1 else 0) := by
    simp only [drawing, drawn]
    change (if ((m.flips left top (spriteCells height.toNat)).any fun cell =>
        m.lit (left + cell.2).toNat (top + cell.1).toNat) = true then
      (m.v.setIfInBounds flagRegister 0).setIfInBounds flagRegister 1
      else m.v.setIfInBounds flagRegister 0) = _
    rw [hany]
    by_cases hhits : m.SpriteHits left top height
    · rw [if_pos (decide_eq_true hhits), if_pos hhits, Array.setIfInBounds_setIfInBounds]
    · rw [if_neg (by simpa using hhits), if_neg hhits]
  rw [← hv]
  rfl

end

/-! ## The instruction -/

section

variable {m : Machine} {operands : Operands} {x y n : Int}

theorem execute_draw (operands : Operands) (m : Machine) :
    Registry.standard.execute "OP_DRW" operands m = Execute.draw operands m :=
  Registry.execute_of_handler? (Registry.handler?_standard .draw) operands m

theorem draw_off_screen
    (hv : m.v.size = registerCount) (hscreen : IsGrid m.screen)
    (hx : operands.x = some x) (hy : operands.y = some y) (hn : operands.n = some n)
    (hxRegister : IsRegister x) (hyRegister : IsRegister y)
    (hoff : 64 ≤ m.held x ∨ 32 ≤ m.held y) :
    Execute.draw operands m = .ok () { m with pc := (m.pc + 2) % 65536 } := by
  have hstart : ¬ (m.held x < (64 : Int) ∧ m.held y < (32 : Int)) := by omega
  rw [draw_apply hv hscreen hx hy hn hxRegister hyRegister]
  exact if_neg hstart

theorem draw_on_screen
    (hv : m.v.size = registerCount) (hscreen : IsGrid m.screen)
    (hx : operands.x = some x) (hy : operands.y = some y) (hn : operands.n = some n)
    (hxRegister : IsRegister x) (hyRegister : IsRegister y)
    (hon : m.held x < 64 ∧ m.held y < 32) :
    (m.SpriteFits (m.held x) (m.held y) n →
      Execute.draw operands m = advance 2 (m.drawing (m.held x) (m.held y) n.toNat)) ∧
    (¬ m.SpriteFits (m.held x) (m.held y) n →
      ∃ cause, Execute.draw operands m =
        .error (.fault cause) (m.drawing (m.held x) (m.held y) n.toNat)) := by
  have hstart : m.held x < screenWidth ∧ m.held y < screenHeight := hon
  have hdraw := draw_apply hv hscreen hx hy hn hxRegister hyRegister
  simp only [if_pos hstart] at hdraw
  rw [spriteFits_iff, hdraw]
  constructor
  · intro hworks
    have hnone : ((spriteCells n.toNat).find? fun cell =>
        m.CellFails (m.held x) (m.held y) cell) = none := by
      rw [List.find?_eq_none]
      intro cell hcell
      simpa using hworks cell hcell
    rw [hnone]
  · intro hfails
    cases hfirst : (spriteCells n.toNat).find? fun cell =>
        m.CellFails (m.held x) (m.held y) cell with
    | some cell => exact ⟨m.cellFault (m.held x) (m.held y) cell, rfl⟩
    | none =>
        refine absurd ?_ hfails
        intro cell hcell
        simpa using List.find?_eq_none.mp hfirst cell hcell

/-- A sprite that starts off the screen is skipped.  One that starts on it is drawn just when
it fits, and then every pixel of the screen is combined with the sprite's by an exclusive or,
the flag tells whether the two had a lit pixel in common, and nothing else changes but the
program counter. -/
theorem draw_combines
    (hv : m.v.size = registerCount) (hscreen : IsGrid m.screen)
    (hx : operands.x = some x) (hy : operands.y = some y) (hn : operands.n = some n)
    (hxRegister : IsRegister x) (hyRegister : IsRegister y) :
    let left := m.held x
    let top := m.held y
    let outcome := Registry.standard.execute "OP_DRW" operands m
    (64 ≤ left ∨ 32 ≤ top → outcome = .ok () { m with pc := (m.pc + 2) % 65536 }) ∧
      (left < 64 ∧ top < 32 →
        ((∃ m', outcome = .ok () m') ↔ m.SpriteFits left top n) ∧
          ∀ m', outcome = .ok () m' →
            IsGrid m'.screen ∧
            (∀ column row : Nat, column < 64 → row < 32 →
              m'.lit column row = (m.lit column row ^^ m.spritePixel left top n column row)) ∧
            m'.held 15 = (if m.SpriteHits left top n then 1 else 0) ∧
            m' =
              { m with
                screen := m'.screen
                v := m.v.setIfInBounds 15 (m'.held 15)
                pc := (m.pc + 2) % 65536 }) := by
  intro left top outcome
  have hdraw : outcome = Execute.draw operands m := execute_draw operands m
  refine ⟨fun hoff => hdraw.trans
    (draw_off_screen hv hscreen hx hy hn hxRegister hyRegister hoff), fun hon => ?_⟩
  obtain ⟨hcomplete, hfault⟩ := draw_on_screen hv hscreen hx hy hn hxRegister hyRegister hon
  rw [← hdraw] at hcomplete hfault
  by_cases hfits : m.SpriteFits left top n
  · have hend : outcome = advance 2 (m.drawing left top n.toNat) := hcomplete hfits
    refine ⟨⟨fun _ => hfits, fun _ => ⟨_, hend⟩⟩, ?_⟩
    intro m' hm'
    have hmachine : m' =
        { m.drawing left top n.toNat with
          pc := ((m.drawing left top n.toNat).pc + 2) % 65536 } := by
      rw [hend] at hm'
      injection hm' with _ hm'
      exact hm'.symm
    have hfields := drawing_eq hfits
    have hflag : m'.held 15 = if m.SpriteHits left top n then 1 else 0 := by
      have hin : 15 < m.v.size := by rw [hv]; decide
      rw [hmachine, hfields]
      simp [held, hin]
    refine ⟨?_, ?_, hflag, ?_⟩
    · rw [hmachine]
      exact isGrid_drawn (m := m.holding flagRegister 0) hscreen left top _
    · intro column row hcolumn hrow
      rw [hmachine]
      exact lit_drawing hscreen hfits hcolumn hrow
    · rw [hflag, hmachine]
      generalize (m.drawing left top n.toNat) = drawn at hfields ⊢
      rw [hfields]
  · obtain ⟨cause, hend⟩ := hfault hfits
    have hfails (m' : Machine) : outcome ≠ .ok () m' := by
      rw [hend]
      intro h
      cases h
    refine ⟨⟨?_, fun h => absurd h hfits⟩, fun m' hm' => absurd hm' (hfails m')⟩
    rintro ⟨m', hm'⟩
    exact absurd hm' (hfails m')

end

/-- A machine that is to draw the glyph of the digit zero into the lower right corner of the
screen, over one lit pixel.  The flag register holds the row. -/
def cornered : Machine where
  memory := overlay (Array.replicate memorySize 0) 0 font
  v := ((Array.replicate registerCount 0).setIfInBounds 0 60).setIfInBounds 15 27
  screen := darkScreen.modify 27 fun row => row.modify 60 not
  random := { words := #[], position := 0 }

theorem isGrid_cornered : IsGrid cornered.screen := by
  have hrow : ∀ row ∈ cornered.screen.toList, row.size = screenWidth := by decide +kernel
  exact ⟨by decide +kernel, fun row hmem => hrow row hmem.val⟩

/-- The glyph is drawn, its first pixel is darkened, and the flag register has lost the row. -/
theorem draw_combines_cornered :
    ∃ m' : Machine,
      Registry.standard.execute "OP_DRW" { x := some 0, y := some 15, n := some 5 } cornered =
        .ok () m' ∧
      m'.lit 60 27 = false ∧ m'.lit 61 27 = true ∧ m'.lit 61 28 = false ∧ m'.held 15 = 1 := by
  have hsize : cornered.v.size = registerCount := by decide +kernel
  have hfits : cornered.SpriteFits (cornered.held 0) (cornered.held 15) 5 :=
    spriteFits_iff.mpr (by decide +kernel)
  obtain ⟨-, hon⟩ := draw_combines hsize isGrid_cornered
    (rfl : (Operands.mk (some 0) (some 15) (some 5) none none).x = some 0) rfl rfl
    (by decide) (by decide)
  obtain ⟨hdrawn, hend⟩ := hon (by decide +kernel)
  obtain ⟨m', hm'⟩ := hdrawn.mpr hfits
  obtain ⟨-, hpixels, hflag, -⟩ := hend m' hm'
  refine ⟨m', hm', ?_, ?_, ?_, ?_⟩
  · rw [hpixels 60 27 (by omega) (by omega)]
    decide +kernel
  · rw [hpixels 61 27 (by omega) (by omega)]
    decide +kernel
  · rw [hpixels 61 28 (by omega) (by omega)]
    decide +kernel
  · rw [hflag]
    decide +kernel

end Machine

end Chip8
