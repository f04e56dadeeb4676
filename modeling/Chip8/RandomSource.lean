/-!
# Random source

A Mersenne twister: 624 words of state, renewed together after 624 outputs, each output a
tempered word.  A source is seeded by an integer, whose magnitude is cut into 32-bit words.
Random bytes are drawn by rejection: the top nine bits of an output are taken until they
are below 256.
-/

namespace Chip8

/-- The state words of a generator and the position of the next one to use. -/
structure RandomSource where
  words : Array UInt32
  position : Nat
deriving DecidableEq

namespace RandomSource

abbrev size : Nat := 624

/-- How far ahead a word looks when the state is renewed. -/
abbrev offset : Nat := 397

/-- The state that a single word determines. -/
def spread (seed : UInt32) : Array UInt32 :=
  (List.range (size - 1)).foldl
    (fun (words : Array UInt32) (n : Nat) =>
      let last : UInt32 := words.getD n 0
      words.push ((1812433253 : UInt32) * (last ^^^ (last >>> 30)) + UInt32.ofNat (n + 1)))
    #[seed]

/-- The words of a magnitude, least significant first; zero has one word. -/
def keyWords (n : Nat) : List UInt32 :=
  if n < 0x100000000 then [UInt32.ofNat n]
  else UInt32.ofNat (n % 0x100000000) :: keyWords (n / 0x100000000)
termination_by n
decreasing_by omega

/-- Replaces the word at `i` by `next` of its neighbour and itself, and goes on to the next
position; past the end the last word is carried to the front. -/
def stir (next : UInt32 → UInt32 → UInt32) (state : Array UInt32 × Nat) :
    Array UInt32 × Nat :=
  let (words, i) := state
  let before := words.getD (i - 1) 0
  let word := next (before ^^^ (before >>> 30)) (words.getD i 0)
  let words := words.setIfInBounds i word
  if i + 1 < size then (words, i + 1)
  else (words.setIfInBounds 0 word, 1)

/-- The state that a key of words determines. -/
def ofKey (key : Array UInt32) : RandomSource :=
  let keyed := (List.range (max size key.size)).foldl
    (fun state n =>
      let j := n % key.size
      stir (fun mixed word => (word ^^^ (mixed * 1664525)) + key.getD j 0 + UInt32.ofNat j)
        state)
    (spread 19650218, 1)
  let mixed := (List.range (size - 1)).foldl
    (fun state _ =>
      stir (fun mixed word => (word ^^^ (mixed * 1566083941)) - UInt32.ofNat state.2) state)
    keyed
  { words := mixed.1.setIfInBounds 0 0x80000000, position := size }

/-- The source seeded by an integer; the sign does not matter. -/
def ofSeed (seed : Int) : RandomSource :=
  ofKey (keyWords seed.natAbs).toArray

/-- Renews the state words from the first to the last. -/
def renew (words : Array UInt32) : Array UInt32 :=
  (List.range size).foldl
    (fun words i =>
      let joined :=
        (words.getD i 0 &&& 0x80000000) ||| (words.getD ((i + 1) % size) 0 &&& 0x7FFFFFFF)
      let twist : UInt32 := if joined &&& 1 = 0 then 0 else 0x9908B0DF
      words.setIfInBounds i
        (words.getD ((i + offset) % size) 0 ^^^ (joined >>> 1) ^^^ twist))
    words

/-- The output made from a state word. -/
def temper (word : UInt32) : UInt32 :=
  let word := word ^^^ (word >>> 11)
  let word := word ^^^ ((word <<< 7) &&& 0x9D2C5680)
  let word := word ^^^ ((word <<< 15) &&& 0xEFC60000)
  word ^^^ (word >>> 18)

/-- The next output word and the source after it. -/
def nextWord (source : RandomSource) : UInt32 × RandomSource :=
  let source :=
    if source.position < size then source
    else { words := renew source.words, position := 0 }
  (temper (source.words.getD source.position 0),
    { source with position := source.position + 1 })

/-- Draws until the top nine bits of an output are below 256, at most `attempts` times. -/
def nextByteWithin : (attempts : Nat) → RandomSource → UInt8 × RandomSource
  | 0, source => (0, source)
  | attempts + 1, source =>
      let (word, source) := nextWord source
      let top := word >>> 23
      if top < 256 then (top.toUInt8, source) else nextByteWithin attempts source

/-- The next random byte.  The top bits of the outputs follow a linear recurrence of degree
19937, so no more than 19937 of them in a row are set and the attempts suffice. -/
def nextByte (source : RandomSource) : UInt8 × RandomSource :=
  nextByteWithin 19938 source

/-- The source after `n` bytes have been drawn. -/
def after (source : RandomSource) : Nat → RandomSource
  | 0 => source
  | n + 1 => (source.after n).nextByte.2

/-- The byte drawn after `n` others. -/
def byteAt (source : RandomSource) (n : Nat) : UInt8 :=
  (source.after n).nextByte.1

end RandomSource

end Chip8
