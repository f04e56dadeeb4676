import Chip8.Proofs.Preservation
import Chip8.Registry

/-!
# Operations by key

The registry is asked for an operation by a key, and it takes operands that no word could
hold: missing, negative or as large as one likes.  An operation that fails half-way keeps what
it has done so far.  Even so a well-formed machine stays well-formed, and what no operation may
touch is as it was.
-/

namespace Chip8

namespace Registry

theorem exists_of_handler?_eq_some
    {key : String} {handler : Handler} (h : standard.handler? key = some handler) :
    ∃ operation : Operation, handler = operation.perform := by
  obtain ⟨before, after, hentries, -⟩ := List.lookup_eq_some_iff.mp h
  have hmem : (key, handler) ∈ standard.entries := by simp [hentries]
  obtain ⟨operation, -, heq⟩ := List.mem_map.mp hmem
  exact ⟨operation, (congrArg Prod.snd heq).symm⟩

theorem keeps_execute (start : Machine) (key : String) (operands : Operands) :
    Machine.Keeps start (fun _ => True) (standard.execute key operands) := by
  intro m hm
  unfold execute
  split
  next handler hhandler =>
    obtain ⟨operation, rfl⟩ := exists_of_handler?_eq_some hhandler
    exact operation.keeps_perform operands m hm
  next => exact ⟨hm, Or.inr (Or.inl rfl)⟩

/-- From a well-formed machine, an operation under any key with any operands ends in a
well-formed machine with the same keys, fetched word and counters.  It can fail for a fault of
the program, a missing entry or a position outside a table, and for nothing else. -/
theorem execute_confined
    {m : Machine} (h : m.WellFormed) (key : String) (operands : Operands) :
    Machine.Continues m (endState (standard.execute key operands m)) ∧
      ∀ e m', standard.execute key operands m = .error e m' →
        e.kind = .fault ∨ e.kind = .entry ∨ e.kind = .position := by
  have hend := keeps_execute m key operands m h.continues_self
  cases hresult : standard.execute key operands m with
  | ok _ m' =>
      rw [hresult] at hend
      refine ⟨hend.1, fun e other herror => ?_⟩
      cases herror
  | error cause m' =>
      rw [hresult] at hend
      refine ⟨hend.1, fun e other herror => ?_⟩
      cases herror
      exact hend.2

/-- A call without an address fails after it has pushed the place it is made from, and leaves
a well-formed machine all the same. -/
theorem execute_confined_unaddressed :
    ∃ m' : Machine,
      standard.execute "OP_CALL" {} { random := { words := #[], position := 0 } } =
        .error (.missingOperand .nnn) m' ∧ m'.sp = 1 ∧ m'.WellFormed := by
  have hconfined := execute_confined
    (Machine.wellFormed_zeroed { words := #[], position := 0 }) "OP_CALL" {}
  exact ⟨_, rfl, rfl, hconfined.1.toWellFormed⟩

end Registry

end Chip8
