import Chip8.CommandLine.Parse
import Chip8.Proofs.Decimal

/-!
# Assignments on the command line

A command line of switches that are spelled out, each with its value behind it, carries the
switches out from left to right.
-/

namespace Chip8.CommandLine

/-- A text that does not begin with a dash, and so stands for itself. -/
def IsValue (text : String) : Prop :=
  text.toList.head? ≠ some '-'

instance (text : String) : Decidable (IsValue text) :=
  inferInstanceAs (Decidable (_ ≠ _))

/-- A switch that is spelled out and has its value behind it. -/
structure Assignment where
  spelling : String
  switch : Switch
  value : String
  spells : Switch.ofSpelling? spelling = some switch
  takesValue : switch.takesValue = true
  isValue : IsValue value

namespace Assignment

def texts (assignment : Assignment) : List String :=
  [assignment.spelling, assignment.value]

def tokens (assignment : Assignment) : List Token :=
  [.named assignment.switch none, .plain assignment.value]

def assign (draft : Draft) (assignment : Assignment) : Except Stop Draft :=
  draft.assign assignment.switch assignment.value

end Assignment

theorem isValue_toString (n : Nat) : IsValue (toString n) := by
  rw [IsValue, Nat.toString_eq_ofList_toDigits, String.toList_ofList]
  intro hhead
  obtain ⟨rest, hrest⟩ := List.head?_eq_some_iff.mp hhead
  have hdash : '-' ∈ Nat.toDigits 10 n := by
    rw [hrest]
    exact List.mem_cons_self
  exact absurd (Nat.isDigit_of_mem_toDigits (by decide) (by decide) hdash) (by decide)

theorem IsValue.ne_mark {text : String} (h : IsValue text) : text ≠ "--" := by
  intro hmark
  rw [hmark] at h
  exact absurd h (by decide)

theorem ofText_of_isValue {text : String} (h : IsValue text) :
    Token.ofText text = .ok (.plain text) := by
  unfold Token.ofText
  split
  case h_1 hdash =>
    rw [IsValue, hdash] at h
    exact absurd rfl h
  case h_2 => rfl

theorem dashed_of_spells {spelling : String} {switch : Switch}
    (h : Switch.ofSpelling? spelling = some switch) :
    spelling ≠ "--" ∧ ∃ c rest, spelling.toList = '-' :: c :: rest := by
  have hall : ∀ entry ∈ Switch.table, entry.1 ≠ "--" ∧
      entry.1.toList.head? = some '-' ∧ entry.1.toList.tail ≠ [] := by
    decide
  obtain ⟨before, after, htable, -⟩ := List.lookup_eq_some_iff.mp h
  obtain ⟨hnotMark, hhead, htail⟩ := hall (spelling, switch) (by simp [htable])
  refine ⟨hnotMark, ?_⟩
  obtain ⟨rest, hrest⟩ := List.head?_eq_some_iff.mp hhead
  obtain ⟨c, others, hothers⟩ := List.exists_cons_of_ne_nil htail
  refine ⟨c, others, ?_⟩
  rw [hrest, ← hothers, hrest]
  rfl

theorem ofText_of_spells {spelling : String} {switch : Switch}
    (h : Switch.ofSpelling? spelling = some switch) :
    Token.ofText spelling = .ok (.named switch none) := by
  obtain ⟨-, c, rest, hdashed⟩ := dashed_of_spells h
  have hspelled : Token.spelled? spelling = some (switch, none) := by
    rw [Token.spelled?, h]
  rw [Token.ofText, hdashed]
  change Token.ofDashed spelling = _
  rw [Token.ofDashed, hspelled]

theorem ofTexts_assignments (assignments : List Assignment) :
    Token.ofTexts (assignments.flatMap Assignment.texts) =
      .ok (assignments.flatMap Assignment.tokens) := by
  induction assignments with
  | nil => rfl
  | cons assignment assignments ih =>
      obtain ⟨hnotMark, -⟩ := dashed_of_spells assignment.spells
      have hvalue := assignment.isValue.ne_mark
      rw [List.flatMap_cons, List.flatMap_cons, Assignment.texts, Assignment.tokens,
        List.cons_append, List.cons_append, List.nil_append, Token.ofTexts, if_neg hnotMark,
        ofText_of_spells assignment.spells, Token.ofTexts, if_neg hvalue,
        ofText_of_isValue assignment.isValue, ih]
      rfl

theorem take_assignments (assignments : List Assignment) (draft : Draft) :
    take (assignments.flatMap Assignment.tokens) draft =
      assignments.foldlM Assignment.assign draft := by
  induction assignments generalizing draft with
  | nil => rfl
  | cons assignment assignments ih =>
      have hbare : Expansion.ofSwitch assignment.switch none =
          .ok (.unfinished [] assignment.switch) := by
        rw [Expansion.ofSwitch, Expansion.ofBare, if_pos assignment.takesValue]
      have hset : draft.setAll [(assignment.switch, assignment.value)] =
          Assignment.assign draft assignment := by
        change draft.set assignment.switch assignment.value >>= pure = _
        rw [bind_pure, Draft.set, if_neg assignment.isValue.ne_mark]
        rfl
      have htake : take (assignment.tokens ++ assignments.flatMap Assignment.tokens) draft =
          draft.setAll [(assignment.switch, assignment.value)] >>=
            take (assignments.flatMap Assignment.tokens) := by
        change take (.named assignment.switch none :: .plain assignment.value :: _) draft = _
        rw [take.eq_def]
        dsimp only
        rw [hbare]
        rfl
      rw [List.flatMap_cons, htake, hset, List.foldlM_cons]
      exact congrArg _ (funext ih)

/-- The switches are carried out from left to right. -/
theorem parse_assignments (assignments : List Assignment) :
    parse (assignments.flatMap Assignment.texts) =
      (assignments.foldlM Assignment.assign {}).bind Draft.finish := by
  rw [parse, ofTexts_assignments]
  dsimp only
  rw [take_assignments]
  rfl

end Chip8.CommandLine
