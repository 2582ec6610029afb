/-!
# Reproducible random words

Random words come from a stream cipher with twelve rounds. The cipher turns a block of sixteen words
(four constants, a key of eight, a block counter of two, two zeros) into sixteen words of the stream;
the counter goes up by one from block to block. The key is spread from a seed by a congruential
generator, so the seed fixes the whole stream.
-/

namespace MarketMaker.Random

/-- Turns the bits of a word to the left. -/
def rotate (w : UInt32) (bits : UInt32) : UInt32 :=
  (w <<< bits) ||| (w >>> (32 - bits))

/-- The sixteen words that the cipher works on. -/
abbrev Block := Vector UInt32 16

namespace Block

/-- Mixes four words of a block. -/
def quarter (s : Block) (a b c d : Fin 16) : Block :=
  let s := s.set a (s[a] + s[b])
  let s := s.set d (rotate (s[d] ^^^ s[a]) 16)
  let s := s.set c (s[c] + s[d])
  let s := s.set b (rotate (s[b] ^^^ s[c]) 12)
  let s := s.set a (s[a] + s[b])
  let s := s.set d (rotate (s[d] ^^^ s[a]) 8)
  let s := s.set c (s[c] + s[d])
  s.set b (rotate (s[b] ^^^ s[c]) 7)

/-- Mixes the four columns of a block, then its four diagonals: two rounds. -/
def doubleRound (s : Block) : Block :=
  let s := s.quarter 0 4 8 12
  let s := s.quarter 1 5 9 13
  let s := s.quarter 2 6 10 14
  let s := s.quarter 3 7 11 15
  let s := s.quarter 0 5 10 15
  let s := s.quarter 1 6 11 12
  let s := s.quarter 2 7 8 13
  s.quarter 3 4 9 14

/-- Twelve rounds, and the block that they started from added word by word. -/
def mix (s : Block) : Block :=
  (Nat.repeat doubleRound 6 s).zipWith (· + ·) s

/-- The block of a key and a counter. -/
def start (key : Vector UInt32 8) (counter : UInt64) : Block :=
  let constants : Vector UInt32 4 := #v[0x61707865, 0x3320646e, 0x79622d32, 0x6b206574]
  let position : Vector UInt32 4 := #v[counter.toUInt32, (counter >>> 32).toUInt32, 0, 0]
  constants ++ key ++ position

end Block

/-- One step of the generator that spreads a seed. -/
def spreadStep (state : UInt64) : UInt64 :=
  state * 6364136223846793005 + 11634580027462260723

/-- The key word of a state of that generator: some of its high bits, turned by its highest. -/
def spreadWord (state : UInt64) : UInt32 :=
  let mixed := (((state >>> 18) ^^^ state) >>> 27).toUInt32
  let bits := (state >>> 59).toUInt32
  (mixed >>> bits) ||| (mixed <<< ((32 - bits) % 32))

/-- The first `n` key words that a state spreads to. -/
def spread : (n : Nat) → UInt64 → List UInt32
  | 0, _ => []
  | n + 1, state => spreadWord (spreadStep state) :: spread n (spreadStep state)

theorem length_spread (n : Nat) (state : UInt64) : (spread n state).length = n := by
  induction n generalizing state with
  | zero => rfl
  | succ n ih => simp [spread, ih]

/-- The key of a seed. -/
def keyOf (seed : UInt64) : Vector UInt32 8 :=
  ⟨(spread 8 seed).toArray, by simp [length_spread]⟩

/-- A place in the stream of a key: the words left of the latest block, and the counter of the
next. -/
structure KeyStream where
  key : Vector UInt32 8
  counter : UInt64
  left : List UInt32

namespace KeyStream

/-- The start of the stream of a seed. -/
def ofSeed (seed : UInt64) : KeyStream := ⟨keyOf seed, 0, []⟩

instance : Nonempty KeyStream := ⟨ofSeed 0⟩

/-- The words of the next block, behind those left over. -/
def refill (s : KeyStream) : KeyStream where
  key := s.key
  counter := s.counter + 1
  left := s.left ++ (Block.start s.key s.counter).mix.toList

/-- The next word of sixty-four bits: two words of the stream, the first of them low. -/
def next (s : KeyStream) : UInt64 × KeyStream :=
  match s.left with
  | low :: high :: left => (low.toUInt64 ||| (high.toUInt64 <<< 32), { s with left })
  | _ =>
    let s := s.refill
    match s.left with
    | low :: high :: left => (low.toUInt64 ||| (high.toUInt64 <<< 32), { s with left })
    | _ => (0, s)

end KeyStream

end MarketMaker.Random
