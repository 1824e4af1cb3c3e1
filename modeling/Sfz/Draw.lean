/-! Sources of random draws.

A draw is a number from 0 up to but not including 1. A player that needs draws works with any
source; what it selects depends on the numbers alone.

Reproducible draws come from the ChaCha keystream with twelve rounds. The stream is a function of
key and position: word `n` is word `n % 16` of block `n / 16`. A seed of 64 bits is stretched to
the 256 bits of the key by a permuted congruential generator.
-/

set_option autoImplicit false

namespace Sfz

class DrawSource (σ : Type) where
  draw : σ → Float32 × σ

structure DrawTape where
  nth : Nat → Float32

instance : DrawSource DrawTape where
  draw tape := (tape.nth 0, ⟨fun index => tape.nth (index + 1)⟩)

/-- A keystream and the number of words drawn from it. -/
structure Keystream where
  key : Vector UInt32 8
  position : Nat := 0
  deriving DecidableEq

namespace Keystream

abbrev Block := Vector UInt32 16

def rotateLeft (word : UInt32) (amount : UInt32) : UInt32 :=
  (word <<< amount) ||| (word >>> (32 - amount))

/-- Add one word to another and mix the sum into a third by a rotation. -/
def mix (block : Block) (target addend mixed : Fin 16) (amount : UInt32) : Block :=
  let block := block.set target (block[target] + block[addend])
  block.set mixed (rotateLeft (block[mixed] ^^^ block[target]) amount)

def quarterRound (block : Block) (a b c d : Fin 16) : Block :=
  let block := mix block a b d 16
  let block := mix block c d b 12
  let block := mix block a b d 8
  mix block c d b 7

def doubleRound (block : Block) : Block :=
  let block := quarterRound block 0 4 8 12
  let block := quarterRound block 1 5 9 13
  let block := quarterRound block 2 6 10 14
  let block := quarterRound block 3 7 11 15
  let block := quarterRound block 0 5 10 15
  let block := quarterRound block 1 6 11 12
  let block := quarterRound block 2 7 8 13
  quarterRound block 3 4 9 14

/-- The block before its rounds: the constant words, the key, and the counter in 64 bits. -/
def initialBlock (key : Vector UInt32 8) (counter : Nat) : Block :=
  let constants : Vector UInt32 4 := #v[0x61707865, 0x3320646e, 0x79622d32, 0x6b206574]
  let position : Vector UInt32 4 :=
    #v[UInt32.ofNat counter, UInt32.ofNat (counter >>> 32), 0, 0]
  constants ++ key ++ position

def block (key : Vector UInt32 8) (counter : Nat) : Block :=
  let start := initialBlock key counter
  Vector.zipWith (· + ·) (Nat.repeat doubleRound 6 start) start

def word (key : Vector UInt32 8) (position : Nat) : UInt32 :=
  (block key (position / 16)).get ⟨position % 16, Nat.mod_lt _ (by decide)⟩

def stretchStep (state : UInt64) : UInt64 :=
  state * 6364136223846793005 + 11634580027462260723

def stretchWord (state : UInt64) : UInt32 :=
  let mixed := (((state >>> 18) ^^^ state) >>> 27).toUInt32
  let amount := (state >>> 59).toUInt32
  (mixed >>> amount) ||| (mixed <<< ((32 - amount) % 32))

def stretchState (seed : UInt64) (steps : Nat) : UInt64 :=
  Nat.repeat stretchStep steps seed

def ofSeed (seed : UInt64) : Keystream :=
  { key := Vector.ofFn fun index => stretchWord (stretchState seed (index.val + 1)) }

/-- The upper 24 bits of a word as a fraction. -/
def fraction (word : UInt32) : Float32 :=
  (word >>> 8).toFloat32 / 16777216

instance : DrawSource Keystream where
  draw stream :=
    (fraction (word stream.key stream.position), { stream with position := stream.position + 1 })

end Keystream

end Sfz
