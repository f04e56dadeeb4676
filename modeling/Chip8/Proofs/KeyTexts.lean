import Chip8.KeyList
import Chip8.Proofs.HexadecimalLiteral
import Mathlib.Data.List.Forall2

/-!
# Key lists as texts

A text is cut at its commas, and the parts that are blank are left out.  If every other part is a
literal, the text is read as the integers that they denote, in their order.  Otherwise the first
part that is none is the error.  So reading goes along with joining texts by commas, and blank texts
do not count.

In the other direction, integers that are written in any form and joined by commas are read back as
the same integers, whatever blank texts stand between them.
-/

namespace Chip8.KeyList

open IntegerLiteral (Denotes Form Padding)

/-! ## Parts -/

theorem parts_eq_splitOn (cs : List Char) : parts cs = cs.splitOn ',' := by
  induction cs with
  | nil => rfl
  | cons c rest ih =>
      rw [parts, ih, List.splitOn_cons_eq_if_modifyHead]
      by_cases hcomma : c = ','
      · rw [if_pos hcomma, if_pos (beq_iff_eq.mpr hcomma)]
      · rw [if_neg hcomma, if_neg (mt beq_iff_eq.mp hcomma)]
        cases hsplit : rest.splitOn ',' with
        | nil => exact absurd hsplit (List.splitOn_ne_nil ',' rest)
        | cons part others => rfl

/-- The parts of a text between its commas that are not blank. -/
def entries (text : String) : List (List Char) :=
  (text.toList.splitOn ',').filter fun part => !part.all Blank.isBlank

theorem read_eq (text : String) : read text = readAll (entries text) := by
  rw [read, parts_eq_splitOn]
  rfl

theorem entries_append (a b : String) : entries (a ++ "," ++ b) = entries a ++ entries b := by
  have hsplit : (a ++ "," ++ b).toList = a.toList ++ ',' :: b.toList := by simp
  rw [entries, hsplit, List.splitOn_append_cons_self, List.filter_append]
  rfl

def IsBlankText (text : String) : Prop :=
  ∀ c ∈ text.toList, Blank.isBlank c = true

theorem entries_of_isBlankText {text : String} (h : IsBlankText text) : entries text = [] := by
  have hcomma : ',' ∉ text.toList := by
    intro hmem
    have hblank := h _ hmem
    revert hblank
    decide
  have hall : text.toList.all Blank.isBlank = true := List.all_eq_true.mpr h
  rw [entries, List.splitOn_eq_singleton hcomma, List.filter_singleton, hall]
  rfl

/-! ## Reading the parts -/

theorem readKey_of_denotes {part : List Char} {key : Int} (h : Denotes part key) :
    readKey part = .ok key := by
  rw [readKey, IntegerLiteral.readChars?_eq_some_iff.mpr h]

theorem readKey_of_not_denotes {part : List Char} (h : ∀ key, ¬ Denotes part key) :
    readKey part = .error (.notHexadecimal (String.ofList part)) := by
  rw [readKey]
  cases hread : IntegerLiteral.readChars? .hexadecimal part with
  | none => rfl
  | some key => exact absurd (IntegerLiteral.readChars?_eq_some_iff.mp hread) (h key)

theorem readAll_append (parts others : List (List Char)) :
    readAll (parts ++ others) = (do
      let first ← readAll parts
      let second ← readAll others
      return first ++ second) :=
  List.mapM_append

theorem readAll_of_denotes
    {parts : List (List Char)} {keys : List Int} (h : List.Forall₂ Denotes parts keys) :
    readAll parts = .ok keys := by
  induction h with
  | nil => rfl
  | cons hfirst _ ih =>
      rw [readAll] at ih ⊢
      rw [List.mapM_cons, readKey_of_denotes hfirst, ih]
      rfl

/-- A part is the first that denotes no integer. -/
def IsFirstBad (parts : List (List Char)) (bad : List Char) : Prop :=
  ∃ before keys after, parts = before ++ bad :: after ∧ List.Forall₂ Denotes before keys ∧
    ∀ key, ¬ Denotes bad key

theorem readAll_of_isFirstBad {parts : List (List Char)} {bad : List Char}
    (h : IsFirstBad parts bad) : readAll parts = .error (.notHexadecimal (String.ofList bad)) := by
  obtain ⟨before, keys, after, rfl, hbefore, hbad⟩ := h
  have hrest : readAll (bad :: after) = .error (.notHexadecimal (String.ofList bad)) := by
    rw [readAll, List.mapM_cons, readKey_of_not_denotes hbad]
    rfl
  rw [readAll_append, readAll_of_denotes hbefore, hrest]
  rfl

/-- Either all parts denote integers, or there is a first that denotes none. -/
theorem denote_or_exists_isFirstBad (parts : List (List Char)) :
    (∃ keys, List.Forall₂ Denotes parts keys) ∨ ∃ bad, IsFirstBad parts bad := by
  induction parts with
  | nil => exact Or.inl ⟨[], .nil⟩
  | cons part parts ih =>
      by_cases hpart : ∃ key, Denotes part key
      · obtain ⟨key, hkey⟩ := hpart
        rcases ih with ⟨keys, hkeys⟩ | ⟨bad, before, keys, after, rfl, hbefore, hbad⟩
        · exact Or.inl ⟨key :: keys, .cons hkey hkeys⟩
        · exact Or.inr ⟨bad, part :: before, key :: keys, after, rfl, .cons hkey hbefore, hbad⟩
      · exact Or.inr ⟨part, [], [], parts, rfl, .nil, not_exists.mp hpart⟩

theorem readAll_eq_ok_iff {parts : List (List Char)} {keys : List Int} :
    readAll parts = .ok keys ↔ List.Forall₂ Denotes parts keys := by
  refine ⟨fun hread => ?_, readAll_of_denotes⟩
  rcases denote_or_exists_isFirstBad parts with ⟨others, hothers⟩ | ⟨bad, hbad⟩
  · rw [readAll_of_denotes hothers] at hread
    cases hread
    exact hothers
  · rw [readAll_of_isFirstBad hbad] at hread
    cases hread

theorem readAll_eq_error_iff {parts : List (List Char)} {e : Error} :
    readAll parts = .error e ↔
      ∃ bad, IsFirstBad parts bad ∧ e = .notHexadecimal (String.ofList bad) := by
  constructor
  · intro hread
    rcases denote_or_exists_isFirstBad parts with ⟨keys, hkeys⟩ | ⟨bad, hbad⟩
    · rw [readAll_of_denotes hkeys] at hread
      cases hread
    · rw [readAll_of_isFirstBad hbad] at hread
      cases hread
      exact ⟨bad, hbad, rfl⟩
  · rintro ⟨bad, hbad, rfl⟩
    exact readAll_of_isFirstBad hbad

/-! ## Written lists -/

/-- What may be written between commas: nothing but padding, or an integer in some form. -/
inductive Item where
  | gap (padding : Padding)
  | number (form : Form) (n : Int)

namespace Item

def characters : Item → List Char
  | gap padding => padding.characters
  | number form n => form.write n

def number? : Item → Option Int
  | gap _ => none
  | number _ n => some n

def text (item : Item) : String :=
  String.ofList item.characters

theorem all_isBlank_gap (padding : Padding) :
    (gap padding).characters.all Blank.isBlank = true := by
  rw [List.all_eq_true]
  intro c hc
  rcases padding.isPadding c hc with rfl | rfl <;> decide

theorem all_isBlank_number (form : Form) (n : Int) :
    (number form n).characters.all Blank.isBlank = false := by
  obtain ⟨c, hc, d, hd⟩ := (form.denotes_write n).exists_digit
  rw [List.all_eq_false]
  refine ⟨c, hc, ?_⟩
  intro hblank
  rw [Blank.hexadecimal?_of_isBlank hblank] at hd
  cases hd

theorem comma_notMem (item : Item) : ',' ∉ item.characters := by
  cases item with
  | gap padding =>
      intro hmem
      rcases padding.isPadding _ hmem with h | h <;> cases h
  | number form n => exact (form.denotes_write n).comma_notMem

theorem denotes_filter (items : List Item) :
    List.Forall₂ Denotes ((items.map characters).filter fun part => !part.all Blank.isBlank)
      (items.filterMap number?) := by
  induction items with
  | nil => exact .nil
  | cons item items ih =>
      rw [List.map_cons]
      cases item with
      | gap padding =>
          rw [List.filter_cons_of_neg (by simp [all_isBlank_gap]), List.filterMap_cons_none rfl]
          exact ih
      | number form n =>
          have hnumber : (number form n).number? = some n := rfl
          rw [List.filter_cons_of_pos (by simp [all_isBlank_number]),
            List.filterMap_cons_some hnumber]
          exact .cons (form.denotes_write n) ih

end Item

/-- Written items that are joined by commas are cut into the same items. -/
theorem entries_intercalate (items : List Item) :
    entries (",".intercalate (items.map Item.text)) =
      (items.map Item.characters).filter fun part => !part.all Blank.isBlank := by
  have hcharacters : (items.map Item.text).map String.toList = items.map Item.characters := by
    rw [List.map_map]
    exact List.map_congr_left fun item _ => String.toList_ofList
  rw [entries, String.toList_intercalate, hcharacters]
  cases items with
  | nil => rfl
  | cons item items =>
      have hsplit : ([','].intercalate ((item :: items).map Item.characters)).splitOn ',' =
          (item :: items).map Item.characters := by
        apply List.splitOn_intercalate
        · intro part hpart
          obtain ⟨other, -, rfl⟩ := List.mem_map.mp hpart
          exact other.comma_notMem
        · exact List.cons_ne_nil _ _
      exact congrArg (List.filter _) hsplit

/-! ## Reading a list -/

/-- Reading goes along with joining by commas, it yields the integers that the parts denote or names
the first part that denotes none, and blank texts do not count.  Integers that are written in any
form and joined by commas are read back in their order. -/
theorem keys_read_in_order :
    (∀ a b : String, read (a ++ "," ++ b) = (do
      let first ← read a
      let second ← read b
      return first ++ second)) ∧
      (∀ (text : String) (keys : List Int),
        read text = .ok keys ↔ List.Forall₂ Denotes (entries text) keys) ∧
      (∀ (text : String) (e : Error), read text = .error e ↔
        ∃ bad, IsFirstBad (entries text) bad ∧ e = .notHexadecimal (String.ofList bad)) ∧
      (∀ blank : String, IsBlankText blank → read blank = .ok [] ∧ ∀ a b : String,
        read (a ++ "," ++ blank) = read a ∧ read (blank ++ "," ++ b) = read b ∧
          read (a ++ "," ++ blank ++ "," ++ b) = read (a ++ "," ++ b)) ∧
      ∀ items : List Item,
        read (",".intercalate (items.map Item.text)) = .ok (items.filterMap Item.number?) := by
  refine ⟨?_, ?_, ?_, ?_, ?_⟩
  · intro a b
    simp only [read_eq, entries_append, readAll_append]
  · intro text keys
    rw [read_eq]
    exact readAll_eq_ok_iff
  · intro text e
    rw [read_eq]
    exact readAll_eq_error_iff
  · intro blank hblank
    have hnone := entries_of_isBlankText hblank
    simp only [read_eq, entries_append, hnone, List.append_nil, List.nil_append, implies_true,
      and_self, and_true]
    rfl
  · intro items
    rw [read_eq, entries_intercalate]
    exact readAll_of_denotes (Item.denotes_filter items)

/-- Two integers with a blank part between them are read back, and of two bad parts the first is
named. -/
theorem keys_read_in_order_hex :
    read "\t-a0 , ,0XF" = .ok [-0xA0, 0xF] ∧ read "1,x,y" = .error (.notHexadecimal "x") := by
  obtain ⟨-, -, herror, -, hitems⟩ := keys_read_in_order
  constructor
  · let items : List Item :=
      [.number ⟨⟨['\t'], by simp⟩, .missing, false, ⟨[' '], by simp⟩⟩ (-0xA0),
        .gap ⟨[' '], by simp⟩, .number ⟨⟨[], by simp⟩, .upper, true, ⟨[], by simp⟩⟩ 0xF]
    have htext : ",".intercalate (items.map Item.text) = "\t-a0 , ,0XF" := by decide
    rw [← htext]
    exact hitems items
  · have hgood : Denotes ['1'] 1 := IntegerLiteral.readChars?_eq_some_iff.mp (by decide)
    have hbad : ∀ key, ¬ Denotes ['x'] key := by
      intro key hkey
      have hread := IntegerLiteral.readChars?_eq_some_iff.mpr hkey
      cases hread
    have hentries : entries "1,x,y" = [['1'], ['x'], ['y']] := by decide
    apply (herror _ _).mpr
    refine ⟨['x'], ⟨[['1']], [1], [['y']], hentries, .cons hgood .nil, hbad⟩, rfl⟩

end Chip8.KeyList
