import Chip8.Proofs.Blit
import Chip8.Proofs.Preservation
import Mathlib.Data.Nat.Bits

/-!
# The order of draws

A draw combines its sprite with the screen by an exclusive or.  So a sequence of draws inverts
every pixel once for each sprite that covers it, and only the parity of their number matters.
The order of the sequence does not, and drawing everything a second time, in any order, brings
the old screen back.

Whether a sprite can be drawn at all is a matter of the memory that it is read from, which no
draw changes.
-/

namespace Chip8

namespace Machine

/-- A sprite to draw: its address, its position and its height, and the two registers that
the position is put into. -/
structure DrawCommand where
  x : Int
  y : Int
  index : Int
  left : Int
  top : Int
  height : Int
  isRegister_x : IsRegister x := by decide
  isRegister_y : IsRegister y := by decide
  x_ne_y : x ≠ y := by decide
  x_ne_flag : x ≠ flagRegister := by decide
  y_ne_flag : y ≠ flagRegister := by decide
  index_range : 0 ≤ index ∧ index ≤ 0xFFFF := by decide
  left_range : 0 ≤ left ∧ left ≤ 0xFF := by decide
  top_range : 0 ≤ top ∧ top ≤ 0xFF := by decide

namespace DrawCommand

def issue (command : DrawCommand) : Action Unit := do
  setRegister command.x command.left
  setRegister command.y command.top
  setIndex command.index
  Registry.standard.execute "OP_DRW"
    { x := some command.x, y := some command.y, n := some command.height }

def Admissible (command : DrawCommand) (m : Machine) : Prop :=
  ∃ drawn, command.issue m = .ok () drawn

/-- The sprite of a command starts on the screen; otherwise it is not drawn at all. -/
def StartsOnScreen (command : DrawCommand) : Prop :=
  command.left < screenWidth ∧ command.top < screenHeight

instance (command : DrawCommand) : Decidable command.StartsOnScreen :=
  inferInstanceAs (Decidable (_ ∧ _))

def HasPixel (command : DrawCommand) (m : Machine) : Prop :=
  ∃ row : Nat, row < command.height ∧ ∃ column : Nat, column < 8 ∧
    (m.memory.getD (command.index + row).toNat 0).toNat.testBit (7 - column) = true

/-- The machine with the registers of a command loaded. -/
def ready (command : DrawCommand) (m : Machine) : Machine :=
  { (m.holding command.x command.left).holding command.y command.top with i := command.index }

def inverts (command : DrawCommand) (m : Machine) (column row : Nat) : Bool :=
  command.StartsOnScreen ∧
    (command.ready m).spritePixel command.left command.top command.height column row = true

variable {command : DrawCommand} {m m' : Machine}

/-! ## One draw -/

def operands (command : DrawCommand) : Operands :=
  { x := some command.x, y := some command.y, n := some command.height }

theorem issue_apply (command : DrawCommand) (m : Machine) :
    command.issue m = Execute.draw command.operands (command.ready m) := by
  have hindex : command.index % 65536 = command.index := by
    have hrange := command.index_range
    omega
  simp only [issue, bind_apply, setRegister_apply command.isRegister_x,
    setRegister_apply command.isRegister_y, setIndex, hindex, execute_draw]
  rfl

theorem held_ready (command : DrawCommand) (h : m.WellFormed) :
    (command.ready m).held command.x = command.left ∧
      (command.ready m).held command.y = command.top := by
  have hleft := command.left_range
  have htop := command.top_range
  constructor
  · calc
      (command.ready m).held command.x
      _ = (m.holding command.x command.left).held command.x :=
          held_holding_of_ne command.isRegister_y command.isRegister_x command.x_ne_y.symm _ _
      _ = command.left % 256 := held_holding h.size_v command.isRegister_x _
      _ = command.left := by omega
  · calc
      (command.ready m).held command.y
      _ = command.top % 256 :=
          held_holding (by simpa using h.size_v) command.isRegister_y _
      _ = command.top := by omega

theorem size_ready (h : m.WellFormed) : (command.ready m).v.size = registerCount := by
  simpa [ready] using h.size_v

/-- What a command does when its sprite starts on the screen: it is drawn just when it fits. -/
theorem issue_on_screen (h : m.WellFormed) (hon : command.StartsOnScreen) :
    ((command.ready m).SpriteFits command.left command.top command.height →
      command.issue m =
        advance 2
          ((command.ready m).drawing command.left command.top command.height.toNat)) ∧
    (¬ (command.ready m).SpriteFits command.left command.top command.height →
      ∃ cause, command.issue m =
        .error (.fault cause)
          ((command.ready m).drawing command.left command.top command.height.toNat)) := by
  obtain ⟨hx, hy⟩ := command.held_ready h
  have hleft : command.operands.x = some command.x := rfl
  have htop : command.operands.y = some command.y := rfl
  have hdraw := draw_on_screen (m := command.ready m) (size_ready h) h.isGrid hleft htop rfl
    command.isRegister_x command.isRegister_y
  rw [hx, hy, ← issue_apply] at hdraw
  exact hdraw hon

theorem issue_off_screen (h : m.WellFormed) (hoff : ¬ command.StartsOnScreen) :
    command.issue m =
      .ok () { command.ready m with pc := ((command.ready m).pc + 2) % 65536 } := by
  obtain ⟨hx, hy⟩ := command.held_ready h
  have hposition : 64 ≤ command.left ∨ 32 ≤ command.top := by
    by_contra hin
    have hon : command.left < (64 : Int) ∧ command.top < (32 : Int) := by omega
    exact hoff hon
  rw [issue_apply]
  apply draw_off_screen (size_ready h) h.isGrid rfl rfl rfl command.isRegister_x
    command.isRegister_y
  rw [hx, hy]
  exact hposition

theorem admissible_iff (h : m.WellFormed) :
    command.Admissible m ↔
      (command.StartsOnScreen →
        (command.ready m).SpriteFits command.left command.top command.height) := by
  by_cases hon : command.StartsOnScreen
  · obtain ⟨hcompletes, hfaults⟩ := issue_on_screen h hon
    by_cases hfits : (command.ready m).SpriteFits command.left command.top command.height
    · exact ⟨fun _ _ => hfits, fun _ => ⟨_, hcompletes hfits⟩⟩
    · obtain ⟨cause, hfault⟩ := hfaults hfits
      constructor
      · rintro ⟨drawn, hdrawn⟩
        rw [hfault] at hdrawn
        cases hdrawn
      · exact fun hall => absurd (hall hon) hfits
  · exact ⟨fun _ hstarts => absurd hstarts hon, fun _ => ⟨_, issue_off_screen h hon⟩⟩

/-! ## Only the memory matters -/

theorem spriteFits_congr (hmemory : m'.memory = m.memory) :
    (command.ready m').SpriteFits command.left command.top command.height ↔
      (command.ready m).SpriteFits command.left command.top command.height := by
  have hready : (command.ready m').memory = (command.ready m).memory := hmemory
  simp only [SpriteFits, hready]
  rfl

theorem admissible_congr (h : m.WellFormed) (h' : m'.WellFormed) (hmemory : m'.memory = m.memory) :
    command.Admissible m' ↔ command.Admissible m := by
  rw [admissible_iff h, admissible_iff h', spriteFits_congr hmemory]

theorem inverts_congr (hmemory : m'.memory = m.memory) :
    command.inverts m' = command.inverts m := by
  have hready : (command.ready m').memory = (command.ready m).memory := hmemory
  funext column row
  simp only [inverts, spritePixel, hready]
  rfl

theorem keeps_issue {start : Machine} : Keeps start (fun _ => True) command.issue := by
  refine (Keeps.setRegister _ _).andThen fun _ => (Keeps.setRegister _ _).andThen fun _ => ?_
  refine (Keeps.setIndex _).andThen fun _ => ?_
  rw [funext (execute_draw _)]
  exact Execute.keeps_draw _

theorem wellFormed_issue (command : DrawCommand) (h : m.WellFormed) :
    (endState (command.issue m)).WellFormed :=
  keeps_issue.wellFormed_endState h

/-- A draw reads the memory and does not write to it, also where it fails. -/
theorem memory_issue (command : DrawCommand) (h : m.WellFormed) :
    (endState (command.issue m)).memory = m.memory := by
  by_cases hon : command.StartsOnScreen
  · obtain ⟨hcompletes, hfaults⟩ := issue_on_screen h hon
    by_cases hfits : (command.ready m).SpriteFits command.left command.top command.height
    · rw [hcompletes hfits]
      rfl
    · obtain ⟨cause, hfault⟩ := hfaults hfits
      rw [hfault]
      rfl
  · rw [issue_off_screen h hon]
    rfl

theorem issue_keeps (h : m.WellFormed) {drawn : Machine} (hdrawn : command.issue m = .ok () drawn) :
    drawn.WellFormed ∧ drawn.memory = m.memory := by
  have hwell := command.wellFormed_issue h
  have hmemory := command.memory_issue h
  rw [hdrawn] at hwell hmemory
  exact ⟨hwell, hmemory⟩

/-! ## What a draw does to the screen and the flag -/

/-- An admissible draw inverts the pixels that its sprite covers. -/
theorem lit_issue
    (h : m.WellFormed) {drawn : Machine} (hdrawn : command.issue m = .ok () drawn)
    {column row : Nat} (hcolumn : column < 64) (hrow : row < 32) :
    drawn.lit column row = (m.lit column row ^^ command.inverts m column row) := by
  by_cases hon : command.StartsOnScreen
  · have hfits := (admissible_iff h).mp ⟨drawn, hdrawn⟩ hon
    rw [(issue_on_screen h hon).1 hfits] at hdrawn
    have hlit := lit_drawing (m := command.ready m) h.isGrid hfits hcolumn hrow
    injection hdrawn with _ hdrawn
    rw [← hdrawn]
    simp only [inverts, hon, true_and, Bool.decide_eq_true]
    exact hlit
  · rw [issue_off_screen h hon] at hdrawn
    injection hdrawn with _ hdrawn
    rw [← hdrawn]
    simp only [inverts, hon, false_and, decide_false, Bool.xor_false]
    rfl

theorem flag_issue
    (h : m.WellFormed) (hon : command.StartsOnScreen) {drawn : Machine}
    (hdrawn : command.issue m = .ok () drawn) :
    drawn.held flagRegister =
      if (command.ready m).SpriteHits command.left command.top command.height then 1 else 0 := by
  have hfits := (admissible_iff h).mp ⟨drawn, hdrawn⟩ hon
  rw [(issue_on_screen h hon).1 hfits] at hdrawn
  injection hdrawn with _ hdrawn
  have hin : 15 < (command.ready m).v.size := by
    rw [size_ready h]
    decide
  have hfields := drawing_eq hfits
  rw [← hdrawn, hfields]
  simp [held, hin]

/-- A sprite that darkened nothing and has a pixel darkens that one when it is drawn again. -/
theorem flag_redraw
    (h : m.WellFormed) (hon : command.StartsOnScreen) (hpixel : command.HasPixel m)
    {first second : Machine} (hfirst : command.issue m = .ok () first)
    (hclear : first.held flagRegister = 0) (hsecond : command.issue first = .ok () second) :
    second.held flagRegister = 1 := by
  obtain ⟨hwell, hmemory⟩ := issue_keeps h hfirst
  obtain ⟨row, hrow, column, hcolumn, hbit⟩ := hpixel
  have hleft := command.left_range.1
  have htop := command.top_range.1
  have hplace : IsPixel (command.left + column) (command.top + row) :=
    ((admissible_iff h).mp ⟨first, hfirst⟩ hon row hrow).2 column hcolumn hbit
  have hright : command.left + column < (64 : Int) := hplace.2.1
  have hbottom : command.top + row < (32 : Int) := hplace.2.2.2
  set c := (command.left + column).toNat with hc
  set r := (command.top + row).toNat with hr
  have hsprite : (command.ready m).spritePixel command.left command.top command.height c r =
      true := by
    have haddress : command.index + r - command.top = command.index + row := by omega
    have hdistance : (7 - ((c : Int) - command.left)).toNat = 7 - column := by omega
    refine spritePixel_eq_true.mpr ⟨by omega, by omega, by omega, by omega, ?_⟩
    change (m.memory.getD (command.index + r - command.top).toNat 0).toNat.testBit _ = true
    rw [haddress, hdistance]
    exact hbit
  have hdark : m.lit c r = false := by
    rw [flag_issue h hon hfirst] at hclear
    by_contra hlight
    have hlit : m.lit c r = true := by simpa using hlight
    rw [if_pos ⟨c, by omega, r, by omega, hsprite, hlit⟩] at hclear
    cases hclear
  have hinverts : command.inverts m c r = true := by
    simp only [inverts, hon, hsprite, and_self, decide_true]
  have hlit : first.lit c r = true := by
    rw [lit_issue h hfirst (by omega) (by omega), hdark, hinverts]
    rfl
  have hagain : command.inverts first c r = true := by
    rw [inverts_congr hmemory, hinverts]
  have hsprite' : (command.ready first).spritePixel command.left command.top command.height c r =
      true := by
    have hboth : command.StartsOnScreen ∧ (command.ready first).spritePixel command.left
        command.top command.height c r = true := of_decide_eq_true hagain
    exact hboth.2
  rw [flag_issue hwell hon hsecond]
  exact if_pos ⟨c, by omega, r, by omega, hsprite', hlit⟩

end DrawCommand

/-! ## Many draws -/

/-- Draws the sprites of commands one after the other, up to the first that fails. -/
def drawAll (commands : List DrawCommand) : Action Unit :=
  Action.through DrawCommand.issue commands

def inversions (m : Machine) (commands : List DrawCommand) (column row : Nat) : Nat :=
  commands.countP fun command => command.inverts m column row

theorem drawAll_cons (command : DrawCommand) (commands : List DrawCommand) (m : Machine) :
    drawAll (command :: commands) m =
      match command.issue m with
      | .ok _ m' => drawAll commands m'
      | .error e m' => .error e m' := by
  rw [drawAll, Action.through, bind_apply]
  cases command.issue m <;> rfl

theorem inversions_congr
    {m m' : Machine} (hmemory : m'.memory = m.memory) (commands : List DrawCommand)
    (column row : Nat) : m'.inversions commands column row = m.inversions commands column row := by
  simp only [inversions, DrawCommand.inverts_congr hmemory]

/-- Draws leave the machine well-formed and its memory as it is, however far they come. -/
theorem endState_drawAll {m : Machine} (h : m.WellFormed) (commands : List DrawCommand) :
    (endState (drawAll commands m)).WellFormed ∧
      (endState (drawAll commands m)).memory = m.memory := by
  induction commands generalizing m with
  | nil => exact ⟨h, rfl⟩
  | cons command commands ih =>
      have hwell := command.wellFormed_issue h
      have hmemory := command.memory_issue h
      rw [drawAll_cons]
      cases hissue : command.issue m with
      | ok _ m' =>
          rw [hissue] at hwell hmemory
          obtain ⟨hwell', hmemory'⟩ := ih hwell
          exact ⟨hwell', hmemory'.trans hmemory⟩
      | error e m' =>
          rw [hissue] at hwell hmemory
          exact ⟨hwell, hmemory⟩

/-- A sequence of draws completes just when each of them would complete at the start. -/
theorem drawAll_returns_iff {m : Machine} (h : m.WellFormed) (commands : List DrawCommand) :
    (∃ drawn, drawAll commands m = .ok () drawn) ↔
      ∀ command ∈ commands, command.Admissible m := by
  induction commands generalizing m with
  | nil => exact ⟨fun _ => by simp, fun _ => ⟨m, rfl⟩⟩
  | cons command commands ih =>
      rw [drawAll_cons, List.forall_mem_cons]
      cases hissue : command.issue m with
      | ok _ m' =>
          obtain ⟨hwell, hmemory⟩ := DrawCommand.issue_keeps h hissue
          have hfirst : command.Admissible m := ⟨m', hissue⟩
          have hlater (other : DrawCommand) : other.Admissible m' ↔ other.Admissible m :=
            DrawCommand.admissible_congr h hwell hmemory
          simp only [hfirst, true_and, ih hwell, hlater]
      | error e m' =>
          have hfirst : ¬ command.Admissible m := by
            rintro ⟨drawn, hdrawn⟩
            rw [hissue] at hdrawn
            cases hdrawn
          simp [hfirst]

/-- A sequence of draws inverts a pixel as often as its sprites do. -/
theorem lit_drawAll
    {m drawn : Machine} (h : m.WellFormed) {commands : List DrawCommand}
    (hdrawn : drawAll commands m = .ok () drawn)
    {column row : Nat} (hcolumn : column < 64) (hrow : row < 32) :
    drawn.lit column row =
      (m.lit column row ^^ (m.inversions commands column row).bodd) := by
  induction commands generalizing m with
  | nil =>
      injection hdrawn with _ hdrawn
      rw [← hdrawn]
      simp [inversions]
  | cons command commands ih =>
      rw [drawAll_cons] at hdrawn
      cases hissue : command.issue m with
      | error e m' =>
          rw [hissue] at hdrawn
          cases hdrawn
      | ok _ m' =>
          obtain ⟨hwell, hmemory⟩ := DrawCommand.issue_keeps h hissue
          rw [hissue] at hdrawn
          have hcount : m.inversions (command :: commands) column row =
              m.inversions commands column row +
                if command.inverts m column row = true then 1 else 0 :=
            List.countP_cons
          rw [ih hwell hdrawn, inversions_congr hmemory, hcount, Nat.bodd_add,
            DrawCommand.lit_issue h hissue hcolumn hrow]
          cases command.inverts m column row <;> simp

/-- Two sequences of draws whose numbers of inversions have the same parity end in the same
screen. -/
theorem screen_eq_of_parity
    {m left right : Machine} (h : m.WellFormed) {commands others : List DrawCommand}
    (hleft : drawAll commands m = .ok () left) (hright : drawAll others m = .ok () right)
    (hparity : ∀ column row : Nat,
      (m.inversions commands column row).bodd = (m.inversions others column row).bodd) :
    left.screen = right.screen := by
  have hwell := (endState_drawAll h commands).1
  have hwell' := (endState_drawAll h others).1
  rw [hleft] at hwell
  rw [hright] at hwell'
  refine screen_ext hwell.isGrid hwell'.isGrid fun column row hcolumn hrow => ?_
  rw [lit_drawAll h hleft hcolumn hrow, lit_drawAll h hright hcolumn hrow, hparity]

/-- Whether a draw is admissible is a matter of the memory, and so does not depend on what was
drawn before.  Sequences of admissible draws that differ in their order only end in the same
screen, and a second such sequence behind the first restores the screen from before both.  A
draw that darkens nothing sets the flag when it is repeated, if its sprite has a pixel. -/
theorem draws_commute {m : Machine} (h : m.WellFormed) (commands : List DrawCommand) :
    (∀ (command : DrawCommand) (m' : Machine), m'.WellFormed → m'.memory = m.memory →
      (command.Admissible m' ↔ command.Admissible m)) ∧
    (∀ command : DrawCommand,
      command.Admissible (endState (drawAll commands m)) ↔ command.Admissible m) ∧
    ((∀ command ∈ commands, command.Admissible m) →
      ∃ drawn, drawAll commands m = .ok () drawn ∧
        ∀ order : List DrawCommand, order.Perm commands →
          (∃ other, drawAll order m = .ok () other ∧ other.screen = drawn.screen) ∧
          ∃ restored, drawAll (commands ++ order) m = .ok () restored ∧
            restored.screen = m.screen) ∧
    (∀ command : DrawCommand, command.StartsOnScreen → command.HasPixel m →
      ∀ first, command.issue m = .ok () first → first.held flagRegister = 0 →
        ∃ second, command.issue first = .ok () second ∧ second.held flagRegister = 1) := by
  obtain ⟨hwell, hmemory⟩ := endState_drawAll h commands
  refine ⟨fun command m' h' hmemory' => DrawCommand.admissible_congr h h' hmemory',
    fun command => DrawCommand.admissible_congr h hwell hmemory, fun hall => ?_, ?_⟩
  · obtain ⟨drawn, hdrawn⟩ := (drawAll_returns_iff h commands).mpr hall
    refine ⟨drawn, hdrawn, fun order hperm => ⟨?_, ?_⟩⟩
    · have hall' : ∀ command ∈ order, command.Admissible m :=
        fun command hmem => hall command (hperm.mem_iff.mp hmem)
      obtain ⟨other, hother⟩ := (drawAll_returns_iff h order).mpr hall'
      refine ⟨other, hother, screen_eq_of_parity h hother hdrawn fun column row => ?_⟩
      rw [inversions, inversions, hperm.countP_eq]
    · have hall' : ∀ command ∈ commands ++ order, command.Admissible m := by
        intro command hmem
        rcases List.mem_append.mp hmem with hmem | hmem
        · exact hall command hmem
        · exact hall command (hperm.mem_iff.mp hmem)
      obtain ⟨restored, hrestored⟩ := (drawAll_returns_iff h (commands ++ order)).mpr hall'
      have hnothing : drawAll [] m = .ok () m := rfl
      refine ⟨restored, hrestored, screen_eq_of_parity h hrestored hnothing fun column row => ?_⟩
      rw [inversions, List.countP_append, hperm.countP_eq, Nat.bodd_add, Bool.xor_self]
      simp [inversions]
  · intro command hon hpixel first hfirst hclear
    obtain ⟨hwell', hmemory'⟩ := DrawCommand.issue_keeps h hfirst
    obtain ⟨second, hsecond⟩ :=
      (DrawCommand.admissible_congr h hwell' hmemory').mpr ⟨first, hfirst⟩
    exact ⟨second, hsecond, DrawCommand.flag_redraw h hon hpixel hfirst hclear hsecond⟩

theorem wellFormed_cornered : cornered.WellFormed :=
  { wellFormed_zeroed cornered.random with
    size_memory := by simp [cornered]
    size_v := by simp [cornered]
    v_range := by
      have hbytes : ∀ value ∈ cornered.v.toList, 0 ≤ value ∧ value ≤ 0xFF := by decide +kernel
      exact fun value hmem => hbytes value hmem.val
    size_screen := isGrid_cornered.1
    size_row := isGrid_cornered.2 }

/-- Two glyphs that overlap at the lit pixel in the corner, and a sprite off the screen. -/
def cornerCommands : List DrawCommand :=
  [{ x := 0, y := 1, index := 0, left := 60, top := 27, height := 5 },
    { x := 2, y := 0, index := 5, left := 58, top := 25, height := 5 },
    { x := 3, y := 4, index := 10, left := 64, top := 0, height := 40 }]

/-- A glyph in the dark upper left corner. -/
def freshCommand : DrawCommand :=
  { x := 5, y := 6, index := 5, left := 0, top := 0, height := 5 }

/-- The three sprites are drawn in both orders with the same result, and drawing them in one
order and then in the other changes nothing.  The glyph in the dark corner darkens itself when
it is drawn again. -/
theorem draws_commute_cornered :
    ∃ drawn other restored first second : Machine,
      drawAll cornerCommands cornered = .ok () drawn ∧
      drawAll cornerCommands.reverse cornered = .ok () other ∧ other.screen = drawn.screen ∧
      drawAll (cornerCommands ++ cornerCommands.reverse) cornered = .ok () restored ∧
      restored.screen = cornered.screen ∧
      freshCommand.issue cornered = .ok () first ∧ first.held flagRegister = 0 ∧
      freshCommand.issue first = .ok () second ∧ second.held flagRegister = 1 := by
  have hfits : ∀ command ∈ cornerCommands, command.StartsOnScreen →
      (command.ready cornered).SpriteFits command.left command.top command.height := by
    simp only [spriteFits_iff]
    decide +kernel
  have hfits' : freshCommand.StartsOnScreen → (freshCommand.ready cornered).SpriteFits
      freshCommand.left freshCommand.top freshCommand.height := by
    rw [spriteFits_iff]
    decide +kernel
  obtain ⟨-, -, horders, hredraw⟩ := draws_commute wellFormed_cornered cornerCommands
  obtain ⟨drawn, hdrawn, hall⟩ := horders fun command hmem =>
    (DrawCommand.admissible_iff wellFormed_cornered).mpr (hfits command hmem)
  obtain ⟨⟨other, hother, hsame⟩, restored, hrestored, hback⟩ := hall _ (List.reverse_perm _)
  obtain ⟨first, hfirst⟩ := (DrawCommand.admissible_iff wellFormed_cornered).mpr hfits'
  have hclear : first.held flagRegister = 0 := by
    have hend : (endState (freshCommand.issue cornered)).held flagRegister = 0 := by decide +kernel
    rwa [hfirst] at hend
  have hpixel : freshCommand.HasPixel cornered :=
    ⟨0, by decide, 2, by decide, by decide +kernel⟩
  obtain ⟨second, hsecond, hset⟩ := hredraw freshCommand (by decide) hpixel first hfirst hclear
  exact ⟨drawn, other, restored, first, second, hdrawn, hother, hsame, hrestored, hback, hfirst,
    hclear, hsecond, hset⟩

end Machine

end Chip8
