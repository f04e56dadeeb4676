import Chip8.Proofs.Evaluation

/-!
# Causes of failure

An operation can be carried out on any machine and with any operands.  If it fails, that is for a
fault of the program, a missing operand, a number that is no register, or a position outside of a
table that is read or written, and for nothing else.  In particular no operation looks another one
up, so an unknown key is never the failure of an operation.
-/

namespace Chip8

/-- The causes for which an operation can fail. -/
def Error.OfOperation : Error → Prop
  | .fault _ | .missingOperand _ | .noSuchRegister _ | .readOutside _ | .writeOutside _ => True
  | _ => False

namespace Machine

def Confined {α : Type} : EStateM.Result Error Machine α → Prop
  | .ok _ _ => True
  | .error e _ => e.OfOperation

/-- On no machine does an action fail for another cause than those of operations. -/
def Confines {α : Type} (action : Action α) : Prop :=
  ∀ m, Confined (action m)

namespace Confines

variable {α β : Type}

theorem bind
    {x : Action α} {f : α → Action β} (hx : Confines x) (hf : ∀ a, Confines (f a)) :
    Confines (x >>= f) := by
  intro m
  have hfirst := hx m
  rw [bind_apply]
  cases hresult : x m with
  | ok a m' => exact hf a m'
  | error e m' =>
      rw [hresult] at hfirst
      exact hfirst

theorem ite
    {c : Prop} [Decidable c] {x y : Action α} (hx : Confines x) (hy : Confines y) :
    Confines (if c then x else y) := by
  split
  · exact hx
  · exact hy

@[simp] theorem sweep
    {body : Nat → Action Unit} (hbody : ∀ n, Confines (body n)) (count first : Nat) :
    Confines (Action.sweep body count first) := by
  induction count generalizing first with
  | zero => exact fun _ => trivial
  | succ count ih => exact (hbody first).bind fun _ => ih (first + 1)

/-! ## Small actions that can fail -/

@[simp] theorem need (operands : Operands) (field : Field) : Confines (operands.need field) := by
  intro m
  unfold Operands.need
  split <;> trivial

@[simp] theorem register (position : Int) : Confines (Machine.register position) := by
  intro m
  unfold Machine.register
  split <;> trivial

@[simp] theorem assign (place : Nat) (value : Int) : Confines (Machine.assign place value) := by
  intro m
  unfold Machine.assign
  split <;> trivial

@[simp] theorem setRegister (number value : Int) :
    Confines (Machine.setRegister number value) := by
  intro m
  unfold Machine.setRegister
  split <;> trivial

@[simp] theorem readByte (address : Int) : Confines (Machine.readByte address) := by
  intro m
  unfold Machine.readByte
  split <;> trivial

@[simp] theorem writeByte (address value : Int) : Confines (Machine.writeByte address value) := by
  intro m
  unfold Machine.writeByte
  split <;> trivial

@[simp] theorem isKeyPressed (key : Int) : Confines (Machine.isKeyPressed key) := by
  intro m
  unfold Machine.isKeyPressed
  split <;> trivial

@[simp] theorem flipPixel (x y : Int) : Confines (Machine.flipPixel x y) := by
  intro m
  unfold Machine.flipPixel
  split <;> trivial

@[simp] theorem push (address : Int) : Confines (Machine.push address) := by
  intro m
  unfold Machine.push
  split
  · trivial
  · split <;> trivial

@[simp] theorem pop : Confines Machine.pop := by
  intro m
  unfold Machine.pop
  split
  · trivial
  · dsimp only
    split <;> trivial

end Confines

end Machine

/-! ## Operations -/

open Execute Machine

@[simp] theorem confines_storeRegister (place : Nat) : Confines (storeRegister place) :=
  (Confines.register place).bind fun _ => .bind (fun _ => trivial) fun _ => Confines.writeByte _ _

@[simp] theorem confines_loadRegister (place : Nat) : Confines (loadRegister place) := by
  refine .bind (fun _ => trivial) fun _ => ?_
  exact (Confines.readByte _).bind fun byte => Confines.assign _ _

theorem confines_drawPixel (x y : Int) (row : UInt8) (column : Nat) :
    Confines (drawPixel x y row column) := by
  refine .ite ?_ fun _ => trivial
  exact (Confines.flipPixel _ _).bind fun lit => .ite (fun _ => trivial) fun _ => trivial

@[simp] theorem confines_drawRow (x y : Int) (row : Nat) : Confines (drawRow x y row) := by
  refine .bind (fun _ => trivial) fun _ => (Confines.readByte _).bind fun bits => ?_
  exact .sweep (confines_drawPixel _ _ _) _ _

theorem confines_awaitKey (operands : Operands) : Confines (awaitKey operands) := by
  refine .bind (fun _ => trivial) fun m => ?_
  cases m.pressedKey with
  | some key =>
      refine (Confines.need operands .x).bind fun x => ?_
      exact (Confines.setRegister _ _).bind fun _ _ => trivial
  | none =>
      refine .bind (fun _ => trivial) fun _ => ?_
      exact (Confines.need operands .x).bind fun _ _ => trivial

/-- On any machine and with any operands, an operation fails for its own causes only. -/
theorem Operation.confines_perform (operation : Operation) (operands : Operands) :
    Confines (operation.perform operands) := by
  cases operation with
  | awaitKey => exact confines_awaitKey operands
  | _ =>
      repeat' first
        | exact fun _ => trivial
        | refine .bind ?_ fun _ => ?_
        | refine .ite ?_ ?_
        | simp

theorem Operation.perform_ne_unknown
    (operation : Operation) (operands : Operands) (m m' : Machine) (key : String) :
    operation.perform operands m ≠ .error (.unknownOperation key) m' := by
  intro herror
  have hconfined := operation.confines_perform operands m
  rw [herror] at hconfined
  exact hconfined

end Chip8
