import Chip8.RandomSource
import Mathlib.Tactic.Common

/-!
# The sequence behind the generator

The state words of the generator are a window on one infinite sequence, in which each word is
made from three of the 624 words before it.  Renewing the state moves the window on by its own
size, and the outputs are the tempered words of the sequence, one after the other.
-/

namespace Chip8

namespace RandomSource

/-! ## The recurrence -/

/-- What two neighbouring words contribute to the word that replaces the first of them. -/
def twisted (word next : UInt32) : UInt32 :=
  let joined := (word &&& 0x80000000) ||| (next &&& 0x7FFFFFFF)
  (joined >>> 1) ^^^ if joined &&& 1 = 0 then 0 else 0x9908B0DF

/-- A sequence that follows the recurrence of the generator. -/
def Twists (x : Nat → UInt32) : Prop :=
  ∀ n, x (n + size) = x (n + offset) ^^^ twisted (x n) (x (n + 1))

/-- The sequence that begins with given state words. -/
def sequence (words : Array UInt32) (n : Nat) : UInt32 :=
  if n < size then words.getD n 0
  else
    sequence words (n - size + offset) ^^^
      twisted (sequence words (n - size)) (sequence words (n - size + 1))
termination_by n
decreasing_by all_goals simp only [size, offset] at *; omega

theorem sequence_of_lt {words : Array UInt32} {n : Nat} (h : n < size) :
    sequence words n = words.getD n 0 := by
  rw [sequence, if_pos h]

theorem twists_sequence (words : Array UInt32) : Twists (sequence words) := by
  intro n
  rw [sequence, if_neg (by omega), Nat.add_sub_cancel]

/-! ## Renewing the state -/

theorem getD_setIfInBounds
    {words : Array UInt32} {i : Nat} (h : i < words.size) (word : UInt32) (j : Nat) :
    (words.setIfInBounds i word).getD j 0 = if j = i then word else words.getD j 0 := by
  rw [Array.getD_eq_getD_getElem?, Array.getD_eq_getD_getElem?, Array.getElem?_setIfInBounds]
  by_cases hsame : j = i
  · subst hsame
    simp [h]
  · rw [if_neg hsame, if_neg (Ne.symm hsame)]

/-- The state words are those of a sequence from a place on. -/
structure Window (x : Nat → UInt32) (start : Nat) (words : Array UInt32) : Prop where
  size_eq : words.size = size
  getD_eq : ∀ i < size, words.getD i 0 = x (start + i)

def renewAt (words : Array UInt32) (i : Nat) : Array UInt32 :=
  words.setIfInBounds i
    (words.getD ((i + offset) % size) 0 ^^^
      twisted (words.getD i 0) (words.getD ((i + 1) % size) 0))

theorem renew_eq (words : Array UInt32) : renew words = (List.range size).foldl renewAt words := by
  unfold renew
  congr 1
  funext words i
  simp only [renewAt, twisted, UInt32.xor_assoc]

/-- While the state is renewed, the first words are already those of the next window. -/
structure Renewing (x : Nat → UInt32) (start count : Nat) (words : Array UInt32) : Prop where
  size_eq : words.size = size
  getD_eq : ∀ i < size, words.getD i 0 = x (if i < count then start + size + i else start + i)

theorem Renewing.step
    {x : Nat → UInt32} {start count : Nat} {words : Array UInt32} (hx : Twists x)
    (h : Renewing x start count words) (hcount : count < size) :
    Renewing x start (count + 1) (renewAt words count) := by
  have hold : words.getD count 0 = x (start + count) := by
    rw [h.getD_eq count hcount, if_neg (by omega)]
  have hnext : words.getD ((count + 1) % size) 0 = x (start + count + 1) := by
    rw [h.getD_eq _ (Nat.mod_lt _ (by decide))]
    simp only [size] at hcount ⊢
    congr 1
    split <;> omega
  have hahead : words.getD ((count + offset) % size) 0 = x (start + count + offset) := by
    rw [h.getD_eq _ (Nat.mod_lt _ (by decide))]
    simp only [size, offset] at hcount ⊢
    congr 1
    split <;> omega
  constructor
  · rw [renewAt, Array.size_setIfInBounds]
    exact h.size_eq
  · intro i hi
    have hin : count < words.size := by
      rw [h.size_eq]
      exact hcount
    rw [renewAt, hold, hnext, hahead, getD_setIfInBounds hin]
    by_cases hsame : i = count
    · rw [if_pos hsame, hsame, if_pos (Nat.lt_succ_self count), ← hx]
      congr 1
      omega
    · rw [if_neg hsame, h.getD_eq i hi]
      congr 1
      split <;> split <;> omega

/-- Renewing the state moves the window on by its size. -/
theorem Window.renew
    {x : Nat → UInt32} {start : Nat} {words : Array UInt32} (hx : Twists x)
    (h : Window x start words) : Window x (start + size) (renew words) := by
  have hloop (count : Nat) (hcount : count ≤ size) :
      Renewing x start count ((List.range count).foldl renewAt words) := by
    induction count with
    | zero => exact ⟨h.size_eq, fun i hi => by simpa using h.getD_eq i hi⟩
    | succ count ih =>
        rw [List.range_succ, List.foldl_append]
        exact (ih (by omega)).step hx hcount
  have hdone := hloop size (Nat.le_refl size)
  rw [renew_eq]
  refine ⟨hdone.size_eq, fun i hi => ?_⟩
  rw [hdone.getD_eq i hi, if_pos hi]

/-! ## Outputs -/

/-- The next output of a source is the tempered word of a sequence at a place. -/
def At (x : Nat → UInt32) (place : Nat) (source : RandomSource) : Prop :=
  ∃ start, Window x start source.words ∧ source.position ≤ size ∧
    start + source.position = place

theorem At.nextWord
    {x : Nat → UInt32} {place : Nat} {source : RandomSource} (hx : Twists x)
    (h : At x place source) :
    source.nextWord.1 = temper (x place) ∧ At x (place + 1) source.nextWord.2 := by
  obtain ⟨start, hwindow, hposition, hplace⟩ := h
  by_cases hleft : source.position < size
  · simp only [RandomSource.nextWord, if_pos hleft]
    refine ⟨?_, start, hwindow, hleft, by dsimp only; omega⟩
    rw [hwindow.getD_eq _ hleft, hplace]
  · have hrenewed := hwindow.renew hx
    have hsize : 0 < size := Nat.zero_lt_succ 623
    simp only [RandomSource.nextWord, if_neg hleft]
    refine ⟨?_, start + size, ?_, ?_, ?_⟩
    · rw [hrenewed.getD_eq 0 hsize]
      congr 2
      omega
    · dsimp only
      exact hrenewed
    · exact Nat.succ_le_of_lt hsize
    · dsimp only
      omega

/-- Every source with all its words is somewhere on a sequence. -/
theorem exists_at {source : RandomSource} (hsize : source.words.size = size)
    (hposition : source.position ≤ size) :
    ∃ x, Twists x ∧ At x source.position source := by
  refine ⟨sequence source.words, twists_sequence _, 0, ⟨hsize, fun i hi => ?_⟩, hposition,
    Nat.zero_add _⟩
  rw [Nat.zero_add, sequence_of_lt hi]

def skip (source : RandomSource) : Nat → RandomSource
  | 0 => source
  | n + 1 => (source.skip n).nextWord.2

def output (source : RandomSource) (n : Nat) : UInt32 :=
  (source.skip n).nextWord.1

theorem skip_add (source : RandomSource) (m n : Nat) :
    source.skip (m + n) = (source.skip m).skip n := by
  induction n with
  | zero => rfl
  | succ n ih => rw [← Nat.add_assoc, skip, skip, ih]

theorem output_skip (source : RandomSource) (m n : Nat) :
    (source.skip m).output n = source.output (m + n) := by
  rw [output, output, skip_add]

theorem At.skip
    {x : Nat → UInt32} {place : Nat} {source : RandomSource} (hx : Twists x)
    (h : At x place source) (n : Nat) : At x (place + n) (source.skip n) := by
  induction n with
  | zero => exact h
  | succ n ih => exact (ih.nextWord hx).2

theorem At.output
    {x : Nat → UInt32} {place : Nat} {source : RandomSource} (hx : Twists x)
    (h : At x place source) (n : Nat) : source.output n = temper (x (place + n)) :=
  ((h.skip hx n).nextWord hx).1

/-! ## Seeded sources -/

theorem size_spread (seed : UInt32) : (spread seed).size = size := by
  have hpush (numbers : List Nat) (next : Array UInt32 → Nat → UInt32) (words : Array UInt32) :
      (numbers.foldl (fun words n => words.push (next words n)) words).size =
        words.size + numbers.length := by
    induction numbers generalizing words with
    | nil => rfl
    | cons n numbers ih =>
        rw [List.foldl_cons, ih, Array.size_push, List.length_cons]
        omega
  rw [spread, hpush, List.length_range]
  rfl

theorem size_stir (next : UInt32 → UInt32 → UInt32) (state : Array UInt32 × Nat) :
    (stir next state).1.size = state.1.size := by
  simp only [stir]
  split
  · exact Array.size_setIfInBounds
  · rw [Array.size_setIfInBounds, Array.size_setIfInBounds]

theorem size_foldl_stir
    (next : Array UInt32 × Nat → Nat → UInt32 → UInt32 → UInt32) (numbers : List Nat)
    {state : Array UInt32 × Nat} (hsize : state.1.size = size) :
    (numbers.foldl (fun state n => stir (next state n) state) state).1.size = size := by
  induction numbers generalizing state with
  | nil => exact hsize
  | cons n numbers ih => exact ih ((size_stir _ state).trans hsize)

theorem size_words_ofKey (key : Array UInt32) : (ofKey key).words.size = size := by
  unfold ofKey
  dsimp only
  rw [Array.size_setIfInBounds]
  refine size_foldl_stir (fun state _ mixed word => (word ^^^ (mixed * 1566083941)) -
      UInt32.ofNat state.2) _ ?_
  refine size_foldl_stir (fun _ n mixed word =>
    (word ^^^ (mixed * 1664525)) + key.getD (n % key.size) 0 + UInt32.ofNat (n % key.size)) _ ?_
  dsimp only
  exact size_spread _

/-- A seeded source is about to renew its state. -/
theorem exists_at_ofSeed (seed : Int) : ∃ x, Twists x ∧ At x size (ofSeed seed) := by
  have hposition : (ofSeed seed).position = size := by rw [ofSeed, ofKey]
  have hsize : (ofSeed seed).words.size = size := by rw [ofSeed, size_words_ofKey]
  rw [← hposition]
  exact exists_at hsize (Nat.le_of_eq hposition)

end RandomSource

end Chip8
