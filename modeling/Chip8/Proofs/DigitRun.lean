import Chip8.Number.IntegerLiteral
import Mathlib.Data.List.TakeWhile

/-!
# Margins and runs of digits

What stands around a text is stripped off, and nothing else: a text without margins at its ends is
what is left of any text that it stands in with margins around it.

A run of digits has single underscores between its digits.  Reading finds the values of the digits
of a run, and finds none for a text that is no run.
-/

namespace Chip8

/-! ## Margins -/

namespace Blank

section

variable {inClass : Char → Bool}

/-- Stripping removes margins and nothing else. -/
theorem exists_strip (inClass : Char → Bool) (cs : List Char) :
    ∃ before after, (∀ c ∈ before, inClass c = true) ∧ (∀ c ∈ after, inClass c = true) ∧
      cs = before ++ strip inClass cs ++ after := by
  have hends (ds : List Char) : ∀ c ∈ ds.takeWhile inClass, inClass c = true :=
    fun c => List.mem_takeWhile_imp
  refine ⟨cs.takeWhile inClass, ((cs.dropWhile inClass).reverse.takeWhile inClass).reverse,
    hends cs, ?_, ?_⟩
  · intro c hc
    exact hends _ c (List.mem_reverse.mp hc)
  · rw [strip, List.append_assoc, ← List.reverse_append, List.takeWhile_append_dropWhile,
      List.reverse_reverse, List.takeWhile_append_dropWhile]

theorem dropWhile_of_head? {cs : List Char} (h : ∀ c ∈ cs.head?, inClass c = false) :
    cs.dropWhile inClass = cs := by
  cases cs with
  | nil => rfl
  | cons c rest => exact List.dropWhile_cons_of_neg (by simp [h c rfl])

/-- Margins around a text whose ends are no margins are removed. -/
theorem strip_append
    {before core after : List Char} (hbefore : ∀ c ∈ before, inClass c = true)
    (hafter : ∀ c ∈ after, inClass c = true) (hne : core ≠ [])
    (hfirst : ∀ c ∈ core.head?, inClass c = false)
    (hlast : ∀ c ∈ core.getLast?, inClass c = false) :
    strip inClass (before ++ core ++ after) = core := by
  obtain ⟨first, rest, rfl⟩ := List.exists_cons_of_ne_nil hne
  have hhead : ∀ c ∈ (first :: rest ++ after).head?, inClass c = false := hfirst
  have hreverse : ∀ c ∈ (first :: rest).reverse.head?, inClass c = false := by
    rwa [List.head?_reverse]
  rw [strip, List.append_assoc, List.dropWhile_append_of_pos hbefore, dropWhile_of_head? hhead,
    List.reverse_append, List.dropWhile_append_of_pos (by simpa using hafter),
    dropWhile_of_head? hreverse, List.reverse_reverse]

end

end Blank

/-! ## Runs -/

namespace IntegerLiteral

/-- A run of digits with single underscores between them, and the values of the digits. -/
inductive IsRun (value? : Char → Option Nat) : List Char → List Nat → Prop
  | single {c : Char} {d : Nat} (hc : value? c = some d) : IsRun value? [c] [d]
  | next {c : Char} {d : Nat} {cs : List Char} {ds : List Nat} (hc : value? c = some d)
      (hrest : IsRun value? cs ds) : IsRun value? (c :: cs) (d :: ds)
  | joined {c : Char} {d : Nat} {cs : List Char} {ds : List Nat} (hc : value? c = some d)
      (hrest : IsRun value? cs ds) : IsRun value? (c :: '_' :: cs) (d :: ds)

section

variable {value? : Char → Option Nat} {cs : List Char} {ds : List Nat}

theorem IsRun.exists_cons (h : IsRun value? cs ds) :
    ∃ c d rest, cs = c :: rest ∧ value? c = some d := by
  cases h with
  | single hc | next hc _ | joined hc _ => exact ⟨_, _, _, rfl, hc⟩

theorem IsRun.getLast (h : IsRun value? cs ds) :
    ∃ c ∈ cs.getLast?, ∃ d, value? c = some d := by
  induction h with
  | single hc => exact ⟨_, rfl, _, hc⟩
  | next hc hrest ih =>
      obtain ⟨c, hlast, hdigit⟩ := ih
      refine ⟨c, ?_, hdigit⟩
      rw [Option.mem_def, List.getLast?_cons, hlast]
      rfl
  | joined hc hrest ih =>
      obtain ⟨c, hlast, hdigit⟩ := ih
      refine ⟨c, ?_, hdigit⟩
      rw [Option.mem_def, List.getLast?_cons, List.getLast?_cons, hlast]
      rfl

theorem IsRun.mem (h : IsRun value? cs ds) {c : Char} (hc : c ∈ cs) :
    c = '_' ∨ ∃ d, value? c = some d := by
  induction h with
  | single hdigit =>
      rw [List.mem_singleton.mp hc]
      exact Or.inr ⟨_, hdigit⟩
  | next hdigit _ ih =>
      rcases List.mem_cons.mp hc with rfl | hc
      · exact Or.inr ⟨_, hdigit⟩
      · exact ih hc
  | joined hdigit _ ih =>
      rcases List.mem_cons.mp hc with rfl | hc
      · exact Or.inr ⟨_, hdigit⟩
      · rcases List.mem_cons.mp hc with rfl | hc
        · exact Or.inl rfl
        · exact ih hc

theorem isRun_of_digits? (h : digits? value? cs = some ds) : IsRun value? cs ds := by
  fun_induction digits? value? cs generalizing ds with
  | case1 => cases h
  | case2 c =>
      obtain ⟨d, hd, hds⟩ := Option.bind_eq_some_iff.mp h
      cases hds
      exact .single hd
  | case3 c rest ih =>
      obtain ⟨d, hd, hrest⟩ := Option.bind_eq_some_iff.mp h
      obtain ⟨others, hothers, hds⟩ := Option.bind_eq_some_iff.mp hrest
      cases hds
      exact .joined hd (ih hothers)
  | case4 c rest hne hjoined ih =>
      obtain ⟨d, hd, hrest⟩ := Option.bind_eq_some_iff.mp h
      obtain ⟨others, hothers, hds⟩ := Option.bind_eq_some_iff.mp hrest
      cases hds
      exact .next hd (ih hothers)

/-- Reading finds the values of a run, where the underscore is no digit. -/
theorem digits?_of_isRun (hjoint : value? '_' = none) (h : IsRun value? cs ds) :
    digits? value? cs = some ds := by
  induction h with
  | single hc =>
      rw [digits?, hc]
      rfl
  | next hc hrest ih =>
      obtain ⟨c, d, rest, rfl, hd⟩ := hrest.exists_cons
      have hjoined : ∀ tail, c :: rest = '_' :: tail → False := by
        intro tail hsame
        rw [(List.cons.inj hsame).1, hjoint] at hd
        cases hd
      rw [digits?.eq_4 _ _ _ (List.cons_ne_nil _ _) hjoined, hc, ih]
      rfl
  | joined hc hrest ih =>
      rw [digits?, hc, ih]
      rfl

theorem IsRun.append_digit
    (h : IsRun value? cs ds) {c : Char} {d : Nat} (hc : value? c = some d) :
    IsRun value? (cs ++ [c]) (ds ++ [d]) := by
  induction h with
  | single hfirst => exact .next hfirst (.single hc)
  | next hfirst _ ih => exact .next hfirst ih
  | joined hfirst _ ih => exact .joined hfirst ih

end

end IntegerLiteral

end Chip8
