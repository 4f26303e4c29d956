import Voicing.Binary

/-!
The random draws: a keystream read word by word.

A `KeyStream` is a key and a position. Word `i` of the stream is word `i % 16` of block
`i / 16`, and a block is twelve rounds of mixing over the constants, the key and the
block number, added to what it started from. So the whole stream is a function of the
key, and drawing only moves the position. A draw is the top 24 bits of a word as a
fraction of one; it lies in `[0, 1)` and has an exact single precision number.
-/

namespace Voicing

/-- A stream of random words, read up to `position`. -/
structure KeyStream where
  key : Vector UInt32 8
  position : Nat
deriving DecidableEq

namespace KeyStream

/-! ### Blocks -/

/-- The sixteen words that are mixed. -/
abbrev Block := Vector UInt32 16

/-- Rotation to the left. -/
def rotateLeft (x : UInt32) (turn : UInt32) : UInt32 := (x <<< turn) ||| (x >>> (32 - turn))

/-- Mixes four words of a block. -/
def quarterRound (a b c d : Fin 16) (s : Block) : Block :=
  let mixSum (x y : Fin 16) (s : Block) : Block := s.set x (s[x] + s[y])
  let mixTurn (x y : Fin 16) (n : UInt32) (s : Block) : Block :=
    s.set x (rotateLeft (s[x] ^^^ s[y]) n)
  s |> mixSum a b |> mixTurn d a 16
    |> mixSum c d |> mixTurn b c 12
    |> mixSum a b |> mixTurn d a 8
    |> mixSum c d |> mixTurn b c 7

/-- One round over the columns and one over the diagonals. -/
def doubleRound (s : Block) : Block :=
  s |> quarterRound 0 4 8 12 |> quarterRound 1 5 9 13
    |> quarterRound 2 6 10 14 |> quarterRound 3 7 11 15
    |> quarterRound 0 5 10 15 |> quarterRound 1 6 11 12
    |> quarterRound 2 7 8 13 |> quarterRound 3 4 9 14

/-- What a block starts from: four constants, the key, the block number in two words,
and two words that stay zero. -/
def start (key : Vector UInt32 8) (number : Nat) : Block :=
  #v[0x61707865, 0x3320646e, 0x79622d32, 0x6b206574,
    key[0], key[1], key[2], key[3], key[4], key[5], key[6], key[7],
    UInt32.ofNat number, UInt32.ofNat (number / UInt32.size), 0, 0]

/-- Twelve rounds. -/
def block (key : Vector UInt32 8) (number : Nat) : Block :=
  let s := start key number
  let mixed := (List.range 6).foldl (fun s _ => doubleRound s) s
  Vector.zipWith (· + ·) mixed s

/-- The word at a position. -/
def word (key : Vector UInt32 8) (i : Nat) : UInt32 :=
  (block key (i / 16))[i % 16]

/-! ### Seeds -/

/-- One step of the generator that stretches a seed into a key. -/
def stretch (s : UInt64) : UInt64 := s * 6364136223846793005 + 11634580027462260723

/-- The key word of a generator state: its mixed high bits, rotated by its top five. -/
def keyWord (s : UInt64) : UInt32 :=
  let x := (((s >>> 18) ^^^ s) >>> 27).toUInt32
  let turn := (s >>> 59).toUInt32
  (x >>> turn) ||| (x <<< ((32 - turn) % 32))

/-- The key of a seed: the words of the next eight generator states. -/
def keyOfSeed (seed : UInt64) : Vector UInt32 8 :=
  Vector.ofFn fun i => keyWord (Nat.repeat stretch (i.val + 1) seed)

/-- The stream of a seed, from its beginning. -/
def ofSeed (seed : UInt64) : KeyStream := ⟨keyOfSeed seed, 0⟩

/-! ### Draws -/

/-- The draw at a position: the top 24 bits of the word as a fraction of one. -/
def drawAt (key : Vector UInt32 8) (i : Nat) : Single :=
  Binary.ofRatio false ((word key i).toNat / 0x100) 0x1000000

/-- The next draw. -/
def draw (s : KeyStream) : Single := drawAt s.key s.position

/-- The stream after the next draw. -/
def next (s : KeyStream) : KeyStream := { s with position := s.position + 1 }

end KeyStream

end Voicing
